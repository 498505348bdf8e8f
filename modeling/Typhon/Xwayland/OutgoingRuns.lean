import Typhon.Foundation.Machine
import Typhon.Xwayland.Outgoing

/-! Whole outgoing transfers: what the requestor finds in the property, in which order, and when it is told that the
data is complete. -/

namespace Typhon.Xwayland
open Foundation

def storedBytes : List PropertyEvent → List UInt8
  | [] => []
  | .value bytes :: log => bytes ++ storedBytes log
  | _ :: log => storedBytes log

theorem storedBytes_append (log events : List PropertyEvent) :
    storedBytes (log ++ events) = storedBytes log ++ storedBytes events := by
  induction log with
  | nil => rfl
  | cons e log ih => cases e <;> simp [storedBytes, ih]

def freed (log : List PropertyEvent) : Bool :=
  log.foldl (fun before event => match event with
    | .deleted => true
    | .marker _ | .value _ => false
    | .ended => before) false

def isMarker : PropertyEvent → Bool
  | .marker _ => true
  | _ => false

def announced (log : List PropertyEvent) : Bool := log.any isMarker

/-- What may be stored after `before`: the whole data at once, or, after the marker, one chunk for each deletion, and
nothing when all is stored. -/
def Fits (written : List UInt8) (maxChunkBytes : ℕ) (before : List PropertyEvent) (event : PropertyEvent) : Prop :=
  ∀ bytes, event = .value bytes →
    (announced before = false → .ended ∈ before ∧ bytes = written) ∧
      (announced before = true → bytes.length ≤ maxChunkBytes ∧
        (bytes ≠ [] → freed before = true) ∧ (bytes = [] → .ended ∈ before ∧ storedBytes before = written))

variable {written : List UInt8} {maxChunkBytes : ℕ} {log : List PropertyEvent}

theorem fits_quiet {event : PropertyEvent} (h : Justified (Fits written maxChunkBytes) log)
    (hevent : ∀ bytes, event ≠ .value bytes) : Justified (Fits written maxChunkBytes) (log ++ [event]) :=
  h.snoc fun bytes hbytes => absurd hbytes (hevent bytes)

section
variable (log : List PropertyEvent)

theorem freed_deleted : freed (log ++ [.deleted]) = true := by simp [freed]

theorem announced_snoc (event : PropertyEvent) : announced (log ++ [event]) = (announced log || isMarker event) := by
  simp [announced]

end

namespace OutgoingTransfer

structure Core (written : List UInt8) (t : OutgoingTransfer) (unread : List UInt8) (log : List PropertyEvent) :
    Prop where
  bytes : storedBytes log ++ (t.buffer ++ unread) = written
  bounded : t.buffer.length ≤ t.maxChunkBytes
  ended : t.eof = true → unread = [] ∧ .ended ∈ log
  fits : Justified (Fits written t.maxChunkBytes) log

structure Carries (written : List UInt8) (t : OutgoingTransfer) (unread : List UInt8) (log : List PropertyEvent) : Prop
    extends Core written t unread log where
  direct : t.phase = .awaitSourceAcceptance ∨ t.phase = .readingDirect → announced log = false ∧ storedBytes log = []
  marked : t.phase ≠ .awaitSourceAcceptance → t.phase ≠ .readingDirect → announced log = true
  drained : t.phase = .waitingForSource → t.buffer = [] ∧ freed log = true
  notified : t.notifyReady = true → announced log = true

structure Reads (t : OutgoingTransfer) (unread : List UInt8) (progress : Option ReadProgress) (t' : OutgoingTransfer)
    (unread' : List UInt8) : Prop where
  bytes : t'.buffer ++ unread' = t.buffer ++ unread
  bounded : t.buffer.length ≤ t.maxChunkBytes → t'.buffer.length ≤ t'.maxChunkBytes
  same : t'.phase = t.phase ∧ t'.notifyReady = t.notifyReady ∧ t'.maxChunkBytes = t.maxChunkBytes
  ended : t'.eof = true → t.eof = true ∧ unread' = unread ∨ unread' = []
  kept : t.eof = true → t'.eof = true
  exhausted : t.buffer.length ≤ t.maxChunkBytes → progress = some .eof → t'.eof = true
  full : progress = some .limitReached → t'.buffer.length = t'.maxChunkBytes

theorem Reads.refl (t : OutgoingTransfer) (unread : List UInt8) {progress : Option ReadProgress}
    (hexhausted : t.buffer.length ≤ t.maxChunkBytes → progress = some .eof → t.eof = true)
    (hfull : progress = some .limitReached → t.buffer.length = t.maxChunkBytes) : Reads t unread progress t unread :=
  ⟨rfl, fun h => h, ⟨rfl, rfl, rfl⟩, fun h => .inl ⟨h, rfl⟩, fun h => h, hexhausted, hfull⟩

variable {answer : ReadAnswer}

theorem readPipe_data {unread unread' bytes : List UInt8} {limit : ℕ}
    (h : readPipe unread limit answer = (.data bytes, unread')) : bytes ++ unread' = unread ∧ bytes.length ≤ limit := by
  cases answer with
  | bytes count =>
    rw [readPipe] at h
    split at h
    · cases h
    · rename_i byte rest htake
      obtain ⟨rfl, rfl⟩ : byte :: rest = bytes ∧ unread.drop (min (count + 1) limit) = unread' := by simpa using h
      rw [← htake, List.take_append_drop, List.length_take]
      exact ⟨rfl, by omega⟩
  | hangUp =>
    rw [readPipe] at h
    split_ifs at h <;> cases h
  | wouldBlock | interrupted | failed => cases h

theorem readPipe_eof {unread unread' : List UInt8} {limit : ℕ}
    (h : readPipe unread limit answer = (.eof, unread')) : unread = [] ∧ unread' = [] := by
  cases answer with
  | bytes count =>
    rw [readPipe] at h
    split at h <;> cases h
  | hangUp =>
    rw [readPipe] at h
    split_ifs at h with hnil
    · exact ⟨hnil, by simpa [hnil] using h.symm⟩
    · cases h
  | wouldBlock | interrupted | failed => cases h

theorem readPipe_other {unread unread' : List UInt8} {limit : ℕ} {result : ReadResult}
    (h : readPipe unread limit answer = (result, unread')) (hdata : ∀ bytes, result ≠ .data bytes) : unread' =
      unread := by
  cases answer with
  | bytes count =>
    rw [readPipe] at h
    split at h
    · exact (congrArg Prod.snd h).symm
    · exact absurd (congrArg Prod.fst h).symm (hdata _)
  | hangUp =>
    rw [readPipe] at h
    split_ifs at h <;> exact (congrArg Prod.snd h).symm
  | wouldBlock | interrupted | failed => exact (congrArg Prod.snd h).symm

variable {answers : List ReadAnswer}

theorem readUntilLimit_idle {retries : ℕ} {t : OutgoingTransfer} {unread : List UInt8}
    (h : ¬(t.buffer.length < t.maxChunkBytes ∧ t.eof = false)) : readUntilLimit answers retries t unread =
      (some (if t.buffer.length = t.maxChunkBytes then .limitReached else .eof), t, unread) := by
  rw [readUntilLimit.eq_def, if_neg h]
  split_ifs <;> rfl

theorem reads_idle {t : OutgoingTransfer} (unread : List UInt8)
    (h : ¬(t.buffer.length < t.maxChunkBytes ∧ t.eof = false)) :
    Reads t unread (some (if t.buffer.length = t.maxChunkBytes then .limitReached else .eof)) t unread := by
  split_ifs with hfull
  · exact .refl t unread (by simp) fun _ => hfull
  · refine .refl t unread (fun hbounded _ => ?_) (by simp)
    by_contra heof
    exact h ⟨by omega, by simpa using heof⟩

theorem readUntilLimit_reads (answers : List ReadAnswer) (retries : ℕ) (t : OutgoingTransfer) (unread : List UInt8) :
    Reads t unread (readUntilLimit answers retries t unread).1 (readUntilLimit answers retries t unread).2.1
      (readUntilLimit answers retries t unread).2.2 := by
  induction answers generalizing retries t unread with
  | nil =>
    by_cases hroom : t.buffer.length < t.maxChunkBytes ∧ t.eof = false
    · rw [readUntilLimit, if_pos hroom]
      exact .refl t unread (by simp) (by simp)
    · rw [readUntilLimit_idle hroom]
      exact reads_idle unread hroom
  | cons answer answers ih =>
    by_cases hroom : t.buffer.length < t.maxChunkBytes ∧ t.eof = false
    · rw [readUntilLimit, if_pos hroom]
      split
      · rename_i bytes unread' hread
        obtain ⟨hbytes, hlength⟩ := readPipe_data hread
        have hnext := ih 0 { t with buffer := t.buffer ++ bytes } unread'
        have hfits : t.buffer.length ≤ t.maxChunkBytes → (t.buffer ++ bytes).length ≤ t.maxChunkBytes := by
          intro hbounded
          rw [List.length_append]
          omega
        refine ⟨?_, fun hbounded => hnext.bounded (hfits hbounded), hnext.same, fun heof => .inr ?_, hnext.kept,
          fun hbounded => hnext.exhausted (hfits hbounded), hnext.full⟩
        · rw [hnext.bytes, List.append_assoc, hbytes]
        · exact (hnext.ended heof).resolve_left fun h => by simp_all
      · rename_i unread' hread
        obtain ⟨rfl, rfl⟩ := readPipe_eof hread
        exact ⟨rfl, fun h => h, ⟨rfl, rfl, rfl⟩, fun _ => .inr rfl, fun _ => rfl, fun _ _ => rfl, by simp⟩
      · rename_i unread' hread
        obtain rfl := readPipe_other hread (by simp)
        exact .refl t _ (by simp) (by simp)
      · rename_i unread' hread
        obtain rfl := readPipe_other hread (by simp)
        split_ifs
        · exact ih _ t _
        · exact .refl t _ (by simp) (by simp)
      · rename_i unread' hread
        obtain rfl := readPipe_other hread (by simp)
        exact .refl t _ (by simp) (by simp)
    · rw [readUntilLimit_idle hroom]
      exact reads_idle unread hroom

def calm : ℕ → List ReadAnswer → Bool
  | _, [] => true
  | _, .bytes _ :: answers => calm 0 answers
  | retries, .interrupted :: answers => decide (retries < maxEintrRetriesPerDispatch) && calm (retries + 1) answers
  | _, .failed :: _ => false
  | _, .hangUp :: _ | _, .wouldBlock :: _ => true

theorem readUntilLimit_ne_none {retries : ℕ} (h : calm retries answers = true)
    (t : OutgoingTransfer) (unread : List UInt8) : (readUntilLimit answers retries t unread).1 ≠ none := by
  induction answers generalizing retries t unread with
  | nil =>
    by_cases hroom : t.buffer.length < t.maxChunkBytes ∧ t.eof = false
    · rw [readUntilLimit, if_pos hroom]
      simp
    · rw [readUntilLimit_idle hroom]
      simp
  | cons answer answers ih =>
    by_cases hroom : t.buffer.length < t.maxChunkBytes ∧ t.eof = false
    · rw [readUntilLimit, if_pos hroom]
      cases answer with
      | bytes count =>
        rcases htake : unread.take
          (min (count + 1) (min (t.maxChunkBytes - t.buffer.length) 8192)) with _ | ⟨byte, bytes⟩
        · simp [readPipe, htake]
        · simp only [readPipe, htake]
          exact ih h _ _
      | hangUp =>
        by_cases hnil : unread = [] <;> simp [readPipe, hnil]
      | wouldBlock => simp [readPipe]
      | interrupted =>
        obtain ⟨hretries, hrest⟩ : retries < maxEintrRetriesPerDispatch ∧ calm (retries + 1) answers = true := by
          simpa [calm] using h
        simp only [readPipe, if_pos hretries]
        exact ih hrest _ _
      | failed => cases h
    · rw [readUntilLimit_idle hroom]
      simp

/-! ### One event -/

def Holds (written : List UInt8) (maxChunkBytes : ℕ) (transfer : Option OutgoingTransfer) (unread : List UInt8)
    (log : List PropertyEvent) : Prop :=
  match transfer with
  | some t => Carries written t unread log ∧ t.maxChunkBytes = maxChunkBytes
  | none => storedBytes log <+: written ∧ Justified (Fits written maxChunkBytes) log

variable {t t' : OutgoingTransfer} {unread unread' : List UInt8} {progress : Option ReadProgress}

theorem Core.over (h : Core written t unread log) : Holds written t.maxChunkBytes none unread log :=
  ⟨⟨_, h.bytes⟩, h.fits⟩

theorem Core.deleted (h : Core written t unread log) : Core written t unread (log ++ [.deleted]) where
  bytes := by rw [storedBytes_append]; simpa [storedBytes] using h.bytes
  bounded := h.bounded
  ended := fun heof => ⟨(h.ended heof).1, List.mem_append_left _ (h.ended heof).2⟩
  fits := fits_quiet h.fits (by simp)

theorem endEvents_cases (t t' : OutgoingTransfer) : (t'.eof = true ∧ t.eof = false ∧ endEvents t t' = [.ended]) ∨
      ((t'.eof = true → t.eof = true) ∧ endEvents t t' = []) := by
  rw [endEvents]
  cases t'.eof <;> cases t.eof <;> simp

theorem storedBytes_endEvents : storedBytes (log ++ endEvents t t') = storedBytes log := by
  rcases endEvents_cases t t' with ⟨-, -, h⟩ | ⟨-, h⟩ <;> simp [h, storedBytes_append, storedBytes]

theorem announced_endEvents : announced (log ++ endEvents t t') = announced log := by
  rcases endEvents_cases t t' with ⟨-, -, h⟩ | ⟨-, h⟩ <;> simp [h, announced, isMarker]

theorem freed_endEvents : freed (log ++ endEvents t t') = freed log := by
  rcases endEvents_cases t t' with ⟨-, -, h⟩ | ⟨-, h⟩ <;> simp [h, freed]

theorem Core.reads (h : Core written t unread log) (hreads : Reads t unread progress t' unread') :
    Core written t' unread' (log ++ endEvents t t') := by
  refine ⟨?_, hreads.bounded h.bounded, fun heof => ?_, ?_⟩
  · rw [storedBytes_endEvents, hreads.bytes, h.bytes]
  · rcases endEvents_cases t t' with ⟨-, hnot, hevents⟩ | ⟨hold, hevents⟩
    · refine ⟨(hreads.ended heof).resolve_left (by simp [hnot]), ?_⟩
      rw [hevents]
      exact List.mem_append_right _ List.mem_cons_self
    · obtain ⟨hnil, hmem⟩ := h.ended (hold heof)
      rw [hevents, List.append_nil]
      exact ⟨(hreads.ended heof).elim (fun hsame => hsame.2.trans hnil) fun h => h, hmem⟩
  · rw [hreads.same.2.2]
    rcases endEvents_cases t t' with ⟨-, -, hevents⟩ | ⟨-, hevents⟩
    · rw [hevents]
      exact fits_quiet h.fits (by simp)
    · rw [hevents, List.append_nil]
      exact h.fits

theorem publishChunk_eq (h : t.buffer.length ≤ t.maxChunkBytes) :
    t.publishChunk = ({ t with buffer := [], phase := .waitingForChunkDelete }, .value t.buffer) := by
  rw [publishChunk, Nat.min_eq_left h, List.drop_length, List.take_length]

theorem Core.publishChunk (h : Core written t unread log) (hannounced : announced log = true)
    (hfreed : freed log = true) (hbuffer : t.buffer ≠ []) :
    Holds written t.maxChunkBytes (some t.publishChunk.1) unread (log ++ [t.publishChunk.2]) := by
  rw [publishChunk_eq h.bounded]
  have hannounced' : announced (log ++ [.value t.buffer]) = true := by rw [announced_snoc, hannounced, Bool.true_or]
  refine ⟨⟨⟨?_, Nat.zero_le _, fun heof => ?_, h.fits.snoc ?_⟩, by simp, fun _ _ => hannounced', by simp,
    fun _ => hannounced'⟩, rfl⟩
  · rw [storedBytes_append]
    simpa [storedBytes] using h.bytes
  · exact ⟨(h.ended heof).1, List.mem_append_left _ (h.ended heof).2⟩
  · rintro _ ⟨⟩
    exact ⟨fun hnot => by simp_all, fun _ => ⟨h.bounded, fun _ => hfreed, fun hnil => absurd hnil hbuffer⟩⟩

theorem Core.final (h : Core written t unread log) (hannounced : announced log = true) (heof : t.eof = true)
    (hbuffer : t.buffer = []) : Holds written t.maxChunkBytes none unread (log ++ [.value []]) := by
  obtain ⟨hunread, hended⟩ := h.ended heof
  have hstored : storedBytes log = written := by simpa [hbuffer, hunread] using h.bytes
  refine ⟨?_, h.fits.snoc ?_⟩
  · rw [storedBytes_append, hstored]
    simp [storedBytes]
  · rintro _ ⟨⟩
    exact ⟨fun hnot => by simp_all, fun _ => ⟨Nat.zero_le _, fun hne => absurd rfl hne, fun _ => ⟨hended, hstored⟩⟩⟩

theorem Carries.pumpDirect (h : Carries written t unread log)
    (hphase : t.phase = .awaitSourceAcceptance ∨ t.phase = .readingDirect) (answers : List ReadAnswer) :
    Holds written t.maxChunkBytes (t.pumpDirect unread answers).1 (t.pumpDirect unread answers).2.1
      (log ++ (t.pumpDirect unread answers).2.2) := by
  obtain ⟨hannounced, hstored⟩ := h.direct hphase
  have hreads := readUntilLimit_reads answers 0 t unread
  rw [OutgoingTransfer.pumpDirect]
  generalize readUntilLimit answers 0 t unread = result at hreads ⊢
  obtain ⟨progress, t', unread'⟩ := result
  dsimp only at hreads
  have hcore := h.toCore.reads hreads
  have hmax : t'.maxChunkBytes = t.maxChunkBytes := hreads.same.2.2
  cases progress with
  | none => simpa [Holds, hstored] using h.fits
  | some progress =>
    dsimp only
    split_ifs with hblocked heof
    · refine ⟨⟨⟨hcore.bytes, hcore.bounded, hcore.ended, hcore.fits⟩, fun _ => ?_, by simp, by simp, fun hready => ?_⟩,
        hmax⟩
      · rw [announced_endEvents, storedBytes_endEvents]
        exact ⟨hannounced, hstored⟩
      · have := h.notified (hreads.same.2.1 ▸ hready)
        rw [hannounced] at this
        cases this
    · obtain ⟨hunread, hended⟩ := hcore.ended (hreads.exhausted h.bounded (by rw [heof.1]))
      have hwhole : t'.buffer = written := by simpa [storedBytes_endEvents, hstored, hunread] using hcore.bytes
      rw [← List.append_assoc, ← hmax]
      refine ⟨?_, hcore.fits.snoc ?_⟩
      · rw [storedBytes_append, storedBytes_endEvents, hstored]
        simp [storedBytes, hwhole]
      · rintro _ ⟨⟩
        refine ⟨fun _ => ⟨hended, hwhole⟩, fun hmarked => ?_⟩
        rw [announced_endEvents, hannounced] at hmarked
        cases hmarked
    · rw [← List.append_assoc]
      have hmarked : announced (log ++ endEvents t t' ++ [.marker (min t'.buffer.length 4294967295)]) = true := by
        rw [announced_snoc]
        exact Bool.or_true _
      refine ⟨⟨⟨?_, hcore.bounded, fun heof => ?_, fits_quiet hcore.fits
        (by simp)⟩, by simp, fun _ _ => hmarked, by simp, fun _ => hmarked⟩, hmax⟩
      · rw [storedBytes_append]
        simpa [storedBytes] using hcore.bytes
      · exact ⟨(hcore.ended heof).1, List.mem_append_left _ (hcore.ended heof).2⟩

theorem Carries.pumpIncrementalSource (h : Carries written t unread log) (hphase : t.phase = .waitingForSource)
    (hcalm : calm 0 answers = true) :
    Holds written t.maxChunkBytes (t.pumpIncrementalSource unread answers).1
      (t.pumpIncrementalSource unread answers).2.1 (log ++ (t.pumpIncrementalSource unread answers).2.2) := by
  have hannounced := h.marked (by simp [hphase]) (by simp [hphase])
  obtain ⟨-, hfreed⟩ := h.drained hphase
  have hreads := readUntilLimit_reads answers 0 t unread
  have hprogress := readUntilLimit_ne_none hcalm t unread
  rw [OutgoingTransfer.pumpIncrementalSource]
  generalize readUntilLimit answers 0 t unread = result at hreads hprogress ⊢
  obtain ⟨progress, t', unread'⟩ := result
  dsimp only at hreads
  have hcore := h.toCore.reads hreads
  have hmax : t'.maxChunkBytes = t.maxChunkBytes := hreads.same.2.2
  have hannounced' : announced (log ++ endEvents t t') = true := announced_endEvents.trans hannounced
  have hfreed' : freed (log ++ endEvents t t') = true := freed_endEvents.trans hfreed
  cases progress with
  | none => exact absurd rfl hprogress
  | some progress =>
    dsimp only
    rw [← hmax]
    split_ifs with hblocked heof
    · exact ⟨⟨⟨hcore.bytes, hcore.bounded, hcore.ended, hcore.fits⟩, by simp, fun _ _ => hannounced',
        fun _ => ⟨hblocked.2, hfreed'⟩, fun _ => hannounced'⟩, rfl⟩
    · rw [← List.append_assoc]
      exact hcore.final hannounced' (hreads.exhausted h.bounded (by rw [heof.1])) heof.2
    · rw [← List.append_assoc]
      refine hcore.publishChunk hannounced' hfreed' fun hnil => ?_
      cases progress with
      | wouldBlock => exact hblocked ⟨rfl, hnil⟩
      | eof => exact heof ⟨rfl, hnil⟩
      | limitReached =>
        have hfull := hreads.full rfl
        have hpos := t'.chunkPos
        rw [hnil, List.length_nil] at hfull
        omega

theorem Carries.pump (h : Carries written t unread log)
    (hcalm : t.phase = .waitingForSource → calm 0 answers = true) :
    Holds written t.maxChunkBytes (t.pump unread answers).1 (t.pump unread answers).2.1
      (log ++ (t.pump unread answers).2.2) := by
  rw [OutgoingTransfer.pump]
  split
  · rename_i hphase
    exact h.pumpDirect (.inr hphase) answers
  · rename_i hphase
    exact h.pumpIncrementalSource hphase (hcalm hphase)
  · rw [List.append_nil]
    exact ⟨h, rfl⟩

theorem Carries.deleted (h : Carries written t unread log) : Carries written t unread (log ++ [.deleted]) where
  toCore := h.toCore.deleted
  direct hphase := by
    rw [announced_snoc, storedBytes_append]
    simpa [storedBytes, isMarker] using h.direct hphase
  marked h₁ h₂ := by rw [announced_snoc, h.marked h₁ h₂, Bool.true_or]
  drained hphase := ⟨(h.drained hphase).1, freed_deleted log⟩
  notified hready := by rw [announced_snoc, h.notified hready, Bool.true_or]

theorem Carries.announced_of_delete (h : Carries written t unread log)
    (hphase : t.phase = .waitingForInitialDelete ∨ t.phase = .waitingForChunkDelete) : announced log = true := by
  apply h.marked <;> rcases hphase with hp | hp <;> simp [hp]

theorem Carries.propertyDeleted (h : Carries written t unread log) :
    Holds written t.maxChunkBytes t.propertyDeleted.1 unread (log ++ [.deleted] ++ t.propertyDeleted.2) := by
  have hdeleted := h.deleted
  rw [OutgoingTransfer.propertyDeleted]
  split_ifs with hphase hbuffer heof
  · have hannounced := hdeleted.announced_of_delete hphase
    exact hdeleted.toCore.publishChunk hannounced (freed_deleted log) hbuffer
  · have hannounced := hdeleted.announced_of_delete hphase
    exact hdeleted.toCore.final hannounced heof (by simpa using hbuffer)
  · have hannounced := hdeleted.announced_of_delete hphase
    have hcore := hdeleted.toCore
    rw [List.append_nil]
    exact ⟨⟨⟨hcore.bytes, hcore.bounded, hcore.ended, hcore.fits⟩, by simp, fun _ _ => hannounced,
      fun _ => ⟨by simpa using hbuffer, freed_deleted log⟩, fun _ => hannounced⟩, rfl⟩
  · rw [List.append_nil]
    exact ⟨hdeleted, rfl⟩

end OutgoingTransfer

/-! ### Whole transfers -/

inductive OutgoingEvent where
  | resolve (accepted current : Bool) (answers : List ReadAnswer)
  | sourceReady (terminalConsumed current : Bool) (answers : List ReadAnswer)
  | propertyDeleted (terminalConsumed : Bool)
  | cancel
  -- The deadline passes, or the requestor is destroyed.
  | remove
  deriving DecidableEq

structure Outgoing where
  transfer : Option OutgoingTransfer
  unread : List UInt8
  log : List PropertyEvent

namespace Outgoing
open OutgoingTransfer

def start (maximumRequestBytes : ℕ) (written : List UInt8) : Outgoing :=
  ⟨OutgoingTransfer.start maximumRequestBytes, written, []⟩

def step (kind : TransferKind) (s : Outgoing) (event : OutgoingEvent) : Outgoing :=
  match s.transfer, event with
  | none, .propertyDeleted _ => { s with log := s.log ++ [.deleted] }
  | none, _ => s
  | some t, .resolve accepted current answers =>
    let (transfer, unread, events) := t.resolveAcceptance kind s.unread accepted current answers
    ⟨transfer, unread, s.log ++ events⟩
  | some t, .sourceReady terminalConsumed current answers =>
    let (transfer, unread, events) := t.handleSourceReady kind s.unread terminalConsumed current answers
    ⟨transfer, unread, s.log ++ events⟩
  | some t, .propertyDeleted terminalConsumed =>
    let (transfer, events) := t.handlePropertyDeleted kind terminalConsumed
    ⟨transfer, s.unread, s.log ++ [.deleted] ++ events⟩
  | some t, .cancel => ⟨none, s.unread, s.log ++ t.cancelEvents kind⟩
  | some _, .remove => ⟨none, s.unread, s.log⟩

/-- No read fails while chunks are sent, and a drag is not cancelled between the marker and the last byte. -/
def Undisturbed (kind : TransferKind) (s : Outgoing) (event : OutgoingEvent) : Prop :=
  match s.transfer, event with
  | some t, .sourceReady _ _ answers => t.phase = .waitingForSource → calm 0 answers = true
  | some t, .cancel => kind = .dnd → t.notifyReady = true → t.eof = true ∧ t.buffer = []
  | _, _ => True

variable {kind : TransferKind} {s : Outgoing}

def Sound (written : List UInt8) (maxChunkBytes : ℕ) (s : Outgoing) : Prop :=
  Holds written maxChunkBytes s.transfer s.unread s.log

theorem Sound.resolve {t : OutgoingTransfer} {unread : List UInt8} (h : Carries written t unread log)
    (accepted current : Bool) (answers : List ReadAnswer) :
    Holds written t.maxChunkBytes (t.resolveAcceptance kind unread accepted current answers).1
      (t.resolveAcceptance kind unread accepted current answers).2.1
      (log ++ (t.resolveAcceptance kind unread accepted current answers).2.2) := by
  simp only [resolveAcceptance]
  split_ifs with hturned hdeclined
  · cases kind with
    | selection => rw [List.append_nil]; exact ⟨h, rfl⟩
    | dnd => rw [List.append_nil]; exact h.toCore.over
  · rw [List.append_nil]
    exact h.toCore.over
  · obtain ⟨hphase, -⟩ := not_or.1 hturned
    have hdirect := h.direct (.inl (not_not.1 hphase))
    have hready : Carries written { t with phase := .readingDirect } unread log :=
      ⟨⟨h.bytes, h.bounded, h.ended, h.fits⟩, fun _ => hdirect, by simp, by simp, h.notified⟩
    exact hready.pumpDirect (.inr rfl) answers

theorem Sound.step (h : s.Sound written maxChunkBytes) (event : OutgoingEvent) (hevent : s.Undisturbed kind event) :
    (s.step kind event).Sound written maxChunkBytes := by
  obtain ⟨transfer, unread, log⟩ := s
  cases transfer with
  | none =>
    cases event with
    | propertyDeleted terminalConsumed =>
      refine ⟨?_, fits_quiet h.2 (by simp)⟩
      change storedBytes (log ++ [.deleted]) <+: written
      rw [storedBytes_append]
      simpa [storedBytes] using h.1
    | resolve | sourceReady | cancel | remove => exact h
  | some t =>
    obtain ⟨hcarries, rfl⟩ : Carries written t unread log ∧ t.maxChunkBytes = maxChunkBytes := h
    cases event with
    | resolve accepted current answers => exact Sound.resolve hcarries accepted current answers
    | sourceReady terminalConsumed current answers =>
      cases kind with
      | selection => exact hcarries.pump hevent
      | dnd =>
        simp only [Outgoing.step, handleSourceReady, Sound]
        split_ifs
        · rw [List.append_nil]
          exact hcarries.toCore.over
        · exact hcarries.pump hevent
    | propertyDeleted terminalConsumed =>
      cases kind with
      | selection => exact hcarries.propertyDeleted
      | dnd =>
        simp only [Outgoing.step, handlePropertyDeleted, Sound]
        split_ifs
        · rw [List.append_nil]
          exact hcarries.deleted.toCore.over
        · exact hcarries.propertyDeleted
        · rw [List.append_nil]
          exact ⟨hcarries.deleted, rfl⟩
    | cancel =>
      cases kind with
      | selection =>
        simp only [Outgoing.step, cancelEvents, List.append_nil, Sound]
        exact hcarries.toCore.over
      | dnd =>
        simp only [Outgoing.step, cancelEvents, Sound]
        split_ifs with hready
        · obtain ⟨heof, hbuffer⟩ := hevent rfl hready
          exact hcarries.toCore.final (hcarries.notified hready) heof hbuffer
        · rw [List.append_nil]
          exact hcarries.toCore.over
    | remove => exact hcarries.toCore.over

/-- The data of a transfer that is started reaches the property in order, and one chunk for each deletion; whole if it
is not announced by a marker; and the empty value comes when the source is at its end and all is stored. -/
theorem transfer_complete {kind : TransferKind} {maximumRequestBytes : ℕ} {written : List UInt8} {t : OutgoingTransfer}
    {events : List OutgoingEvent} {s : Outgoing} (ht : OutgoingTransfer.start maximumRequestBytes = some t)
    (hrun : Along (step kind) (Undisturbed kind) events (start maximumRequestBytes written))
    (hs : s = events.foldl (step kind) (start maximumRequestBytes written)) :
    storedBytes s.log <+: written ∧ ∀ i bytes, s.log[i]? = some (.value bytes) →
      (announced (s.log.take i) = false → .ended ∈ s.log.take i ∧ bytes = written) ∧
        (announced (s.log.take i) = true → bytes.length ≤ t.maxChunkBytes ∧
          (bytes ≠ [] → freed (s.log.take i) = true) ∧
          (bytes = [] → .ended ∈ s.log.take i ∧ storedBytes (s.log.take i) = written)) := by
  have hstart : (start maximumRequestBytes written).Sound written t.maxChunkBytes := by
    obtain ⟨hpos, rfl⟩ : ∃ h, ⟨.awaitSourceAcceptance, [], false, false,
        min (maximumRequestBytes - 64) maxOutgoingChunkBytes, h⟩ = t := by
      rw [OutgoingTransfer.start] at ht
      split_ifs at ht with hpos
      exact ⟨hpos, Option.some.inj ht⟩
    simp only [Sound, start, ht]
    exact ⟨⟨⟨rfl, Nat.zero_le _, by simp, justified_nil⟩, fun _ => ⟨rfl, rfl⟩, fun h =>
      absurd rfl h, by simp, by simp⟩, rfl⟩
  have hsound : s.Sound written t.maxChunkBytes := by
    rw [hs]
    exact Along.invariant (Sound written t.maxChunkBytes) (fun s event h hevent => h.step event hevent) hstart hrun
  obtain ⟨transfer, unread, log⟩ := s
  cases transfer with
  | none => exact ⟨hsound.1, fun i bytes hi => hsound.2 i _ hi bytes rfl⟩
  | some t' =>
    obtain ⟨hcarries, hmax⟩ : Carries written t' unread log ∧ t'.maxChunkBytes = t.maxChunkBytes := hsound
    exact ⟨⟨_, hcarries.bytes⟩, fun i bytes hi => (hmax ▸ hcarries.fits) i _ hi bytes rfl⟩

instance (kind : TransferKind) (s : Outgoing) (event : OutgoingEvent) : Decidable (s.Undisturbed kind event) :=
  match s, event with
  | ⟨some _, _, _⟩, .sourceReady _ _ _ => inferInstanceAs (Decidable (_ → _))
  | ⟨some _, _, _⟩, .cancel => inferInstanceAs (Decidable (_ → _ → _))
  | ⟨some _, _, _⟩, .resolve _ _ _ | ⟨some _, _, _⟩, .propertyDeleted _ | ⟨some _, _, _⟩, .remove => .isTrue trivial
  | ⟨none, _, _⟩, .resolve _ _ _ | ⟨none, _, _⟩, .sourceReady _ _ _ | ⟨none, _, _⟩, .propertyDeleted _
  | ⟨none, _, _⟩, .cancel | ⟨none, _, _⟩, .remove => .isTrue trivial

def pacedRun : List OutgoingEvent :=
  [.resolve true true [.bytes 9], .propertyDeleted false, .propertyDeleted false, .sourceReady false true [.bytes 9],
    .propertyDeleted false, .sourceReady false true [.hangUp]]

theorem transfer_complete_paced :
    OutgoingTransfer.start 66 = some ⟨.awaitSourceAcceptance, [], false, false, 2, by decide⟩ ∧
      (pacedRun.foldl (step .selection) (start 66 [1, 2, 3])).log =
        [.marker 2, .deleted, .value [1, 2], .deleted, .value [3], .deleted, .ended, .value []] ∧
      storedBytes (pacedRun.foldl (step .selection) (start 66 [1, 2, 3])).log <+: [1, 2, 3] := by
  have ht : OutgoingTransfer.start 66 = some ⟨.awaitSourceAcceptance, [], false, false, 2, by decide⟩ := by decide
  have hrun : Along (step .selection) (Undisturbed .selection) pacedRun (start 66 [1, 2, 3]) := by decide +kernel
  exact ⟨ht, by decide +kernel, (transfer_complete ht hrun rfl).1⟩

def brokenRuns : List OutgoingEvent × List OutgoingEvent :=
  ([.resolve true true [.bytes 9], .propertyDeleted false, .propertyDeleted false, .sourceReady false true [.failed]],
    [.resolve true true [.bytes 9], .cancel])

theorem transfer_cut_short :
    let selection := (brokenRuns.1.foldl (step .selection) (start 66 [1, 2, 3])).log
    let dnd := (brokenRuns.2.foldl (step .dnd) (start 66 [1, 2, 3])).log
    (selection = [.marker 2, .deleted, .value [1, 2], .deleted, .value []] ∧ storedBytes selection ≠ [1, 2, 3]) ∧
      dnd = [.marker 2, .value []] ∧ storedBytes dnd ≠ [1, 2, 3] := by
  decide +kernel

end Outgoing
end Typhon.Xwayland
