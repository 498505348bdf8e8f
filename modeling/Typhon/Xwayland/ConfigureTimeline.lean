import Typhon.Xwayland.SizeHints

/-! The configure timeline of an X11 window: the configures the window manager sent and the notifications that answer
them. A notification carries a geometry and the low 16 bits of a request sequence, which are ambiguous evidence. -/

namespace Typhon.Xwayland
open Foundation

def configureHistoryLimit : ℕ := 32

inductive X11PlacementPolicy where
  | compositorManaged
  | clientPositioned
  | parentRelative
  | overrideRedirect
  deriving DecidableEq

structure ExpectedConfigure where
  epoch : ℕ
  geometry : X11Geometry
  configureCookieSequence : Option UInt64
  deriving DecidableEq

structure RetiredConfigure where
  epoch : ℕ
  geometry : X11Geometry
  configureCookieSequence : Option UInt64
  deriving DecidableEq

inductive ConfigureNotifyClassification where
  | expectedCurrent
  | expectedOlder
  | expectedCoalesced
  | staleRetired
  | clientAuthoritativeRetiredReuse
  | externalAuthoritative
  | externalAuthoritativeSequenceCollision
  | sequenceOnlyRejected
  | ambiguousGeometry
  | ambiguousRetired
  | unknownPreserved
  deriving DecidableEq

structure ConfigureNotifyResult where
  classification : ConfigureNotifyClassification
  epoch : Option ℕ
  geometry : X11Geometry
  sequenceGeometryConflict : Bool := false
  sequenceWrapProgress : Bool := false
  retiredGeometryMatchCount : ℕ := 0
  retiredCookieMatch : Bool := false
  preserveExternalGeometry : Bool := false
  deriving DecidableEq

inductive PendingMatch where
  | matched (index : ℕ) (sequenceGeometryConflict sequenceWrapProgress : Bool)
  | sequenceOnlyRejected
  | ambiguous (sequenceGeometryConflict : Bool)
  | none

def sequence16Eq (full : UInt64) (event : UInt16) : Bool := full.toUInt16 == event

def sequence16IsAfter (candidate reference : UInt16) : Bool :=
  let distance := candidate - reference
  distance != 0 && distance < 0x8000

def sequenceProgressReaches (progress : UInt16) (cookie : UInt64) : Bool :=
  sequence16Eq cookie progress || sequence16IsAfter progress cookie.toUInt16

def sequenceProgressWrapped (progress : UInt16) (cookie : UInt64) : Bool :=
  let reference := cookie.toUInt16
  sequence16IsAfter progress reference && 65535 < reference.toNat + (progress - reference).toNat

def bothSome (related : UInt16 → UInt64 → Bool) (sequence : Option UInt16) (cookie : Option UInt64) : Bool :=
  sequence.any fun sequence => cookie.any (related sequence)

structure WindowConfigureTimeline where
  nextEpoch : ℕ
  desired : X11Geometry
  acknowledged : Option X11Geometry
  pending : List ExpectedConfigure
  retired : List RetiredConfigure
  externalAuthoritativeGeometry : Option X11Geometry
  deriving DecidableEq

namespace WindowConfigureTimeline

def new (initial : X11Geometry) : WindowConfigureTimeline := ⟨0, initial, none, [], [], none⟩

def geometryMatches (geometry : X11Geometry) (pending : List ExpectedConfigure) : List ℕ :=
  (pending.zipIdx.filter fun expected => expected.1.geometry = geometry).map Prod.snd

def pendingMatch (s : WindowConfigureTimeline) (geometry : X11Geometry) (sequence : Option UInt16) :
    Run Empty PendingMatch :=
  let found := geometryMatches geometry s.pending
  let related (related : UInt16 → UInt64 → Bool) (expected : ExpectedConfigure) :=
    bothSome related sequence expected.configureCookieSequence
  let same (sequence : UInt16) (cookie : UInt64) := sequence16Eq cookie sequence
  let conflict := s.pending.any fun expected => expected.geometry != geometry && related same expected
  match found.head? with
  | none => .ok (if s.pending.any (related same) then .sequenceOnlyRejected else .none)
  | some first =>
    if found.length = 1 then do
      let expected ← Run.expect "geometry match index was found" s.pending[first]?
      .ok (.matched first conflict (related sequenceProgressWrapped expected))
    else do
      let newestIndex ← Run.expect "geometry match was found" found.getLast?
      let newest ← Run.expect "newest geometry match index was found" s.pending[newestIndex]?
      let canProveNewest := related sequenceProgressReaches newest
      let newerDifferentGeometryReached := (s.pending.drop (newestIndex + 1)).any fun expected =>
        expected.geometry != geometry && related sequenceProgressReaches expected
      .ok (if canProveNewest && !newerDifferentGeometryReached then
        .matched newestIndex conflict (related sequenceProgressWrapped newest)
      else .ambiguous conflict)

def retire (retired : List RetiredConfigure) (expected : ExpectedConfigure) : List RetiredConfigure :=
  let retired := retired ++ [⟨expected.epoch, expected.geometry, expected.configureCookieSequence⟩]
  retired.drop (retired.length - configureHistoryLimit)

def trimPending (retired : List RetiredConfigure) :
    List ExpectedConfigure → List ExpectedConfigure × List RetiredConfigure
  | [] => ([], retired)
  | oldest :: pending =>
    if configureHistoryLimit < pending.length + 1 then trimPending (retire retired oldest) pending
    else (oldest :: pending, retired)

def record (s : WindowConfigureTimeline) (geometry : X11Geometry) (configureCookieSequence : Option UInt64) :
    ExpectedConfigure × WindowConfigureTimeline :=
  let nextEpoch := max (min (s.nextEpoch + 1) 18446744073709551615) 1
  let expected : ExpectedConfigure := ⟨nextEpoch, geometry, configureCookieSequence⟩
  let (pending, retired) := trimPending s.retired (s.pending ++ [expected])
  (expected, { s with
    nextEpoch := nextEpoch, desired := geometry, externalAuthoritativeGeometry := none, pending := pending,
    retired := retired })

def retireOlder (epoch : ℕ) (retired : List RetiredConfigure) (coalesced : Bool) :
    List ExpectedConfigure → List ExpectedConfigure × List RetiredConfigure × Bool
  | [] => ([], retired, coalesced)
  | older :: pending =>
    if older.epoch < epoch then retireOlder epoch (retire retired older) true pending
    else (older :: pending, retired, coalesced)

def retiredMatches (geometry : X11Geometry) (sequence : Option UInt16) (retired : List RetiredConfigure) :
    ℕ × Option ℕ × Bool :=
  retired.foldl (fun found retired =>
    if retired.geometry = geometry then
      (found.1 + 1, some retired.epoch, found.2.2 ||
        bothSome (fun sequence cookie => sequence16Eq cookie sequence) sequence retired.configureCookieSequence)
    else found) (0, none, false)

def notify (s : WindowConfigureTimeline) (geometry : X11Geometry) (sequence : Option UInt16)
    (authority : X11PlacementPolicy) : Run Empty (ConfigureNotifyResult × WindowConfigureTimeline) := do
  let clientAuthoritative := authority ≠ .compositorManaged
  let claimed := if clientAuthoritative then { s with externalAuthoritativeGeometry := some geometry } else s
  match ← s.pendingMatch geometry sequence with
  | .matched index conflict wrapped =>
    let expected ← Run.expect "pending configure index was found" s.pending[index]?
    let (pending, retired, coalesced) := retireOlder expected.epoch s.retired false (s.pending.eraseIdx index)
    .ok ({
      classification :=
        if index + 1 = s.pending.length then if coalesced then .expectedCoalesced else .expectedCurrent
        else .expectedOlder
      epoch := some expected.epoch
      geometry := geometry
      sequenceGeometryConflict := conflict
      sequenceWrapProgress := wrapped
      preserveExternalGeometry :=
        clientAuthoritative && s.externalAuthoritativeGeometry.any fun external => external != geometry },
      { s with acknowledged := some expected.geometry, pending := pending, retired := retired })
  | .sequenceOnlyRejected =>
    .ok ({
      classification :=
        if clientAuthoritative then .externalAuthoritativeSequenceCollision else .sequenceOnlyRejected
      epoch := none
      geometry := geometry }, claimed)
  | .ambiguous conflict =>
    .ok ({
      classification := .ambiguousGeometry
      epoch := none
      geometry := geometry
      sequenceGeometryConflict := conflict }, s)
  | .none =>
    let (count, epoch, cookieMatch) := retiredMatches geometry sequence s.retired
    if 0 < count then
      .ok ({
        classification :=
          if cookieMatch then .staleRetired
          else if clientAuthoritative then .clientAuthoritativeRetiredReuse else .ambiguousRetired
        epoch := epoch
        geometry := geometry
        retiredGeometryMatchCount := count
        retiredCookieMatch := cookieMatch }, if cookieMatch then s else claimed)
    else
      .ok ({
        classification := if clientAuthoritative then .externalAuthoritative else .unknownPreserved
        epoch := none
        geometry := geometry }, claimed)

end WindowConfigureTimeline

def ConfigureNotifyClassification.isExpected : ConfigureNotifyClassification → Bool
  | .expectedCurrent | .expectedOlder | .expectedCoalesced => true
  | _ => false

namespace WindowConfigureTimeline
variable {s : WindowConfigureTimeline} {geometry initial : X11Geometry} {sequence : Option UInt16}
  {authority : X11PlacementPolicy} {pending recorded gone : List ExpectedConfigure} {retired : List RetiredConfigure}

/-! ### One call -/

theorem geometryMatches_lt {index : ℕ} (h : index ∈ geometryMatches geometry pending) : index < pending.length := by
  obtain ⟨expected, hmem, rfl⟩ := List.mem_map.mp h
  exact List.snd_lt_of_mem_zipIdx (List.mem_filter.mp hmem).1

theorem pendingMatch_lt (s : WindowConfigureTimeline) (geometry : X11Geometry) (sequence : Option UInt16) :
    ∃ found, s.pendingMatch geometry sequence = .ok found ∧
      ∀ index conflict wrapped, found = .matched index conflict wrapped → index < s.pending.length := by
  unfold pendingMatch
  dsimp only
  cases hfirst : (geometryMatches geometry s.pending).head? with
  | none =>
    refine ⟨_, rfl, fun index conflict wrapped h => ?_⟩
    split_ifs at h
  | some first =>
    have hlt := geometryMatches_lt (List.mem_of_mem_head? hfirst)
    have hnewest := List.getLast?_eq_some_getLast (List.ne_nil_of_mem (List.mem_of_mem_head? hfirst))
    have hlt' := geometryMatches_lt (List.mem_of_mem_getLast? hnewest)
    dsimp only
    rw [hnewest, List.getElem?_eq_getElem hlt, Run.expect_some, Run.expect_some, Run.ok_bind, Run.ok_bind,
      List.getElem?_eq_getElem hlt', Run.expect_some, Run.ok_bind]
    split_ifs <;> refine ⟨_, rfl, fun index conflict wrapped h => ?_⟩ <;> cases h
    · exact hlt
    · exact hlt'

theorem trimPending_eq : trimPending retired pending = (pending.drop (pending.length - configureHistoryLimit),
    (pending.take (pending.length - configureHistoryLimit)).foldl retire retired) := by
  induction pending generalizing retired with
  | nil => rfl
  | cons oldest pending ih =>
    rw [trimPending]
    split_ifs with h
    · rw [ih, List.length_cons, show pending.length + 1 - configureHistoryLimit =
        pending.length - configureHistoryLimit + 1 by omega]
      rfl
    · rw [List.length_cons, Nat.sub_eq_zero_of_le (Nat.not_lt.mp h)]
      rfl

theorem retireOlder_eq (retired : List RetiredConfigure) (coalesced : Bool) {epoch : ℕ}
    {older newer : List ExpectedConfigure} (holder : ∀ c ∈ older, c.epoch < epoch)
      (hnewer : ∀ c ∈ newer, epoch < c.epoch) :
    retireOlder epoch retired coalesced (older ++ newer) =
      (newer, older.foldl retire retired, if older = [] then coalesced else true) := by
  induction older generalizing retired coalesced with
  | nil =>
    cases newer with
    | nil => rfl
    | cons c newer =>
      rw [List.nil_append, retireOlder, if_neg (hnewer c List.mem_cons_self).not_gt]
      rfl
  | cons c older ih =>
    rw [List.cons_append, retireOlder, if_pos (holder c List.mem_cons_self),
      ih _ _ fun d hd => holder d (List.mem_cons_of_mem _ hd)]
    simp

theorem mem_foldl_retire (pending : List ExpectedConfigure) (h : retired.length ≤ configureHistoryLimit) :
    (pending.foldl retire retired).length ≤ configureHistoryLimit ∧
      ∀ r ∈ pending.foldl retire retired, r ∈ retired ∨ ∃ c ∈ pending, c.epoch = r.epoch := by
  induction pending generalizing retired with
  | nil => exact ⟨h, fun r hr => .inl hr⟩
  | cons c pending ih =>
    have hstep : (retire retired c).length ≤ configureHistoryLimit := by
      rw [retire, List.length_drop]
      omega
    refine ⟨(ih hstep).1, fun r hr => ?_⟩
    rcases (ih hstep).2 r hr with hr | ⟨d, hd, hepoch⟩
    · rcases List.mem_append.mp (List.mem_of_mem_drop hr) with hr | hr
      · exact .inl hr
      · exact .inr ⟨c, List.mem_cons_self, by rw [List.mem_singleton.mp hr]⟩
    · exact .inr ⟨d, List.mem_cons_of_mem _ hd, hepoch⟩

theorem notify_spec (geometry : X11Geometry) (sequence : Option UInt16) (authority : X11PlacementPolicy)
    (hordered : s.pending.Pairwise fun a b => a.epoch < b.epoch) :
    ∃ result s', s.notify geometry sequence authority = .ok (result, s') ∧ s'.desired = s.desired ∧
      s'.nextEpoch = s.nextEpoch ∧
      (result.classification.isExpected = false ∧ s'.pending = s.pending ∧ s'.retired = s.retired ∨
        ∃ older expected newer, s.pending = older ++ expected :: newer ∧ s'.pending = newer ∧
          s'.retired = older.foldl retire s.retired ∧ s'.acknowledged = some expected.geometry ∧
          result.epoch = some expected.epoch ∧
          result.classification = if newer = [] then if older = [] then .expectedCurrent else .expectedCoalesced
            else .expectedOlder) := by
  obtain ⟨found, hfound, hindex⟩ := s.pendingMatch_lt geometry sequence
  unfold notify
  rw [hfound, Run.ok_bind]
  cases found with
  | matched index conflict wrapped =>
    have hlt := hindex index conflict wrapped rfl
    obtain ⟨older, expected, newer, hsplit, rfl⟩ : ∃ older expected newer,
        s.pending = older ++ expected :: newer ∧ older.length = index :=
      ⟨s.pending.take index, s.pending[index], s.pending.drop (index + 1),
        by rw [List.getElem_cons_drop, List.take_append_drop], List.length_take_of_le hlt.le⟩
    rw [hsplit, List.pairwise_append, List.pairwise_cons] at hordered
    obtain ⟨-, ⟨hnewer, -⟩, holder⟩ := hordered
    have hretire := retireOlder_eq s.retired false (fun c hc => holder c hc expected List.mem_cons_self) hnewer
    have herase : s.pending.eraseIdx older.length = older ++ newer := by
      rw [hsplit, List.eraseIdx_append_of_length_le le_rfl, Nat.sub_self, List.eraseIdx_cons_zero]
    have hat : s.pending[older.length]? = some expected := by
      rw [hsplit, List.getElem?_append_right le_rfl, Nat.sub_self, List.getElem?_cons_zero]
    dsimp only
    rw [hat, Run.expect_some, Run.ok_bind, herase, hretire]
    refine ⟨_, _, rfl, rfl, rfl, .inr ⟨older, expected, newer, hsplit, rfl, rfl, rfl, rfl, ?_⟩⟩
    have hlast : older.length + 1 = s.pending.length ↔ newer = [] := by
      rw [hsplit, List.length_append, List.length_cons, ← List.length_eq_zero_iff]
      omega
    simp only [hlast]
    by_cases hcoalesced : older = [] <;> simp [hcoalesced]
  | sequenceOnlyRejected =>
    refine ⟨_, _, rfl, ?_⟩
    split_ifs <;> exact ⟨rfl, rfl, .inl ⟨rfl, rfl, rfl⟩⟩
  | ambiguous conflict => exact ⟨_, _, rfl, rfl, rfl, .inl ⟨rfl, rfl, rfl⟩⟩
  | none =>
    dsimp only
    by_cases hcount : 0 < (retiredMatches geometry sequence s.retired).1
    · rw [if_pos hcount]
      refine ⟨_, _, rfl, ?_⟩
      split_ifs <;> exact ⟨rfl, rfl, .inl ⟨rfl, rfl, rfl⟩⟩
    · rw [if_neg hcount]
      refine ⟨_, _, rfl, ?_⟩
      split_ifs <;> exact ⟨rfl, rfl, .inl ⟨rfl, rfl, rfl⟩⟩

/-! ### Whole runs -/

inductive Event where
  | record (geometry : X11Geometry) (cookie : Option UInt64)
  | notify (geometry : X11Geometry) (sequence : Option UInt16) (authority : X11PlacementPolicy)

structure Trace where
  timeline : WindowConfigureTimeline
  recorded : List ExpectedConfigure
  results : List ConfigureNotifyResult
  retired : List ℕ

namespace Trace

def recordedBy (t : Trace) (expected : ExpectedConfigure) (timeline : WindowConfigureTimeline) : Trace :=
  ⟨timeline, t.recorded ++ [expected], t.results, t.retired ++ timeline.retired.map RetiredConfigure.epoch⟩

def notifiedBy (t : Trace) (result : ConfigureNotifyResult) (timeline : WindowConfigureTimeline) : Trace :=
  ⟨timeline, t.recorded, t.results ++ [result], t.retired ++ timeline.retired.map RetiredConfigure.epoch⟩

def step (t : Trace) : Event → Run Empty Trace
  | .record geometry cookie =>
    .ok (t.recordedBy (t.timeline.record geometry cookie).1 (t.timeline.record geometry cookie).2)
  | .notify geometry sequence authority => do
    let (result, timeline) ← t.timeline.notify geometry sequence authority
    .ok (t.notifiedBy result timeline)

def run (initial : X11Geometry) (events : List Event) : Run Empty Trace :=
  events.foldlM step ⟨.new initial, [], [], []⟩

def acknowledged (t : Trace) : List ℕ :=
  t.results.filterMap fun result => if result.classification.isExpected then result.epoch else none

end Trace

def Event.isRecord : Event → Bool
  | .record .. => true
  | .notify .. => false

def Numbered (recorded : List ExpectedConfigure) : Prop :=
  ∀ i (h : i < recorded.length), recorded[i].epoch = i + 1

theorem Numbered.le_of_gone (h : Numbered (gone ++ pending)) : ∀ c ∈ gone, c.epoch ≤ gone.length := by
  intro c hc
  obtain ⟨i, hi, rfl⟩ := List.getElem_of_mem hc
  have := h i (by rw [List.length_append]; omega)
  rw [List.getElem_append_left hi] at this
  omega

theorem Numbered.pairwise (h : Numbered recorded) : recorded.Pairwise fun a b => a.epoch < b.epoch := by
  rw [List.pairwise_iff_getElem]
  intro i j hi hj hij
  rw [h i hi, h j hj]
  omega

theorem Numbered.lt_of_pending (h : Numbered (gone ++ pending)) : ∀ c ∈ pending, gone.length < c.epoch := by
  intro c hc
  obtain ⟨i, hi, rfl⟩ := List.getElem_of_mem hc
  have := h (gone.length + i) (by rw [List.length_append]; omega)
  rw [List.getElem_append_right (Nat.le_add_right _ _)] at this
  simp only [Nat.add_sub_cancel_left] at this
  omega

structure Trace.Consistent (initial : X11Geometry) (t : Trace) (gone : List ExpectedConfigure) : Prop where
  recorded : t.recorded = gone ++ t.timeline.pending
  numbered : Numbered t.recorded
  next : t.timeline.nextEpoch = t.recorded.length
  past : ∀ e ∈ t.acknowledged ++ t.retired ++ t.timeline.retired.map RetiredConfigure.epoch, e ≤ gone.length
  increasing : t.acknowledged.Pairwise (· < ·)
  desired : t.timeline.desired = (t.recorded.getLast?.map ExpectedConfigure.geometry).getD initial
  pending_le : t.timeline.pending.length ≤ configureHistoryLimit
  retired_le : t.timeline.retired.length ≤ configureHistoryLimit

namespace Trace
variable {t : Trace}

theorem Consistent.ordered (h : t.Consistent initial gone) :
    t.timeline.pending.Pairwise fun a b => a.epoch < b.epoch := by
  have := h.numbered.pairwise
  rw [h.recorded] at this
  exact (List.pairwise_append.mp this).2.1

theorem Consistent.retire (h : t.Consistent initial gone) (older rest : List ExpectedConfigure)
    (hnumbered : Numbered (gone ++ older ++ rest)) :
    (older.foldl WindowConfigureTimeline.retire t.timeline.retired).length ≤ configureHistoryLimit ∧
      ∀ e ∈ t.acknowledged ++ t.retired ++ (older.foldl WindowConfigureTimeline.retire t.timeline.retired).map
        RetiredConfigure.epoch, e ≤ (gone ++ older).length := by
  obtain ⟨hlength, hmem⟩ := mem_foldl_retire older h.retired_le
  refine ⟨hlength, fun e he => ?_⟩
  rw [List.length_append]
  rcases List.mem_append.mp he with he | he
  · exact (h.past e (List.mem_append_left _ he)).trans (Nat.le_add_right _ _)
  · obtain ⟨r, hr, rfl⟩ := List.mem_map.mp he
    rcases hmem r hr with hr | ⟨c, hc, hepoch⟩
    · exact (h.past _ (List.mem_append_right _ (List.mem_map_of_mem hr))).trans (Nat.le_add_right _ _)
    · rw [← hepoch, ← List.length_append]
      exact hnumbered.le_of_gone c (List.mem_append_right _ hc)

theorem collected {P : ℕ → Prop} {acked seen epochs : List ℕ} (h : ∀ e ∈ acked ++ seen ++ epochs, P e) :
    ∀ e ∈ acked ++ (seen ++ epochs) ++ epochs, P e := by
  intro e he
  refine h e ?_
  simp only [List.mem_append] at he ⊢
  tauto

theorem Consistent.record (h : t.Consistent initial gone) (hroom : t.recorded.length + 1 < 2 ^ 64)
    (geometry : X11Geometry) (cookie : Option UInt64) : ∃ gone', (t.recordedBy
      (t.timeline.record geometry cookie).1 (t.timeline.record geometry cookie).2).Consistent initial gone' := by
  have hnext : max (min (t.timeline.nextEpoch + 1) 18446744073709551615) 1 = t.recorded.length + 1 := by
    rw [h.next]
    omega
  let expected : ExpectedConfigure := ⟨t.recorded.length + 1, geometry, cookie⟩
  let all := t.timeline.pending ++ [expected]
  let older := all.take (all.length - configureHistoryLimit)
  have hall : t.recorded ++ [expected] = gone ++ older ++ all.drop (all.length - configureHistoryLimit) := by
    rw [h.recorded, List.append_assoc, List.append_assoc, List.take_append_drop]
  have hnumbered : Numbered (t.recorded ++ [expected]) := by
    intro i hi
    rcases Nat.lt_or_ge i t.recorded.length with hlt | hge
    · rw [List.getElem_append_left hlt]
      exact h.numbered i hlt
    · obtain rfl : i = t.recorded.length := by
        rw [List.length_append, List.length_singleton] at hi
        omega
      simp [expected]
  have hcount : (t.recorded ++ [expected]).length = t.recorded.length + 1 := List.length_append
  obtain ⟨hlength, hpast⟩ := h.retire older _ (hall ▸ hnumbered)
  refine ⟨gone ++ older, ?_⟩
  unfold WindowConfigureTimeline.record
  dsimp only
  rw [hnext, trimPending_eq]
  refine ⟨hall, hnumbered, hcount.symm, collected hpast, h.increasing, ?_, ?_, hlength⟩
  · rw [recordedBy, List.getLast?_append]
    rfl
  · rw [recordedBy, List.length_drop]
    omega

structure Answered (t : Trace) (result : ConfigureNotifyResult) (s' : WindowConfigureTimeline) : Prop where
  advances : result.classification.isExpected = true → ∃ c ∈ t.recorded, result.epoch = some c.epoch ∧
    (∀ e ∈ t.acknowledged, e < c.epoch) ∧ c.epoch ∉ t.retired ∧ ∀ d ∈ s'.pending, c.epoch < d.epoch
  current_iff : result.classification = .expectedCurrent ∨ result.classification = .expectedCoalesced ↔
    result.classification.isExpected = true ∧ result.epoch = t.recorded.getLast?.map ExpectedConfigure.epoch
  settled : result.classification = .expectedCurrent ∨ result.classification = .expectedCoalesced →
    s'.pending = [] ∧ s'.acknowledged = some s'.desired

theorem Consistent.notify (h : t.Consistent initial gone) (geometry : X11Geometry) (sequence : Option UInt16)
    (authority : X11PlacementPolicy) :
    ∃ result s' gone', t.timeline.notify geometry sequence authority = .ok (result, s') ∧
      (t.notifiedBy result s').Consistent initial gone' ∧ t.Answered result s' := by
  obtain ⟨result, s', hnotify, hdesired, hnext, hcases⟩ := notify_spec geometry sequence authority h.ordered
  -- the event acknowledges nothing, or one pending configure and retires the older ones
  rcases hcases with ⟨hexpected, hpending, hretired⟩ |
    ⟨older, expected, newer, hsplit, hpending, hretired, hack, hepoch, hclass⟩
  · have hacked : (t.notifiedBy result s').acknowledged = t.acknowledged := by
      simp [acknowledged, notifiedBy, hexpected]
    have hnot : ¬(result.classification = .expectedCurrent ∨ result.classification = .expectedCoalesced) := by
      rintro (heq | heq) <;> rw [heq] at hexpected <;> cases hexpected
    refine ⟨result, s', gone, hnotify, ⟨hpending ▸ h.recorded, h.numbered, hnext.trans h.next, ?_,
      hacked ▸ h.increasing, hdesired.trans h.desired, hpending ▸ h.pending_le, hretired ▸ h.retired_le⟩,
      ⟨fun htrue => ?_, ⟨fun heq => absurd heq hnot, fun heq => ?_⟩, fun heq => absurd heq hnot⟩⟩
    · rw [hacked, notifiedBy, hretired]
      exact collected h.past
    · rw [hexpected] at htrue
      cases htrue
    · rw [hexpected] at heq
      cases heq.1
  have hacked : (t.notifiedBy result s').acknowledged = t.acknowledged ++ [expected.epoch] := by
    have hexpected : result.classification.isExpected = true := by
      rw [hclass]
      split_ifs <;> rfl
    simp [acknowledged, notifiedBy, hexpected, hepoch]
  have hrecorded : t.recorded = gone ++ (older ++ [expected]) ++ newer := by
    rw [h.recorded, hsplit]
    simp
  have hnumbered := h.numbered
  rw [hrecorded] at hnumbered
  obtain ⟨hlength, hpast⟩ := h.retire older (expected :: newer) (by simpa using hnumbered)
  have hle := hnumbered.le_of_gone expected (by simp)
  have hnew : gone.length < expected.epoch := by
    rw [List.append_assoc] at hnumbered
    exact hnumbered.lt_of_pending expected (by simp)
  have hnewer := fun d hd => hle.trans_lt (hnumbered.lt_of_pending d hd)
  have hlast : newer = [] ↔ some expected.epoch = t.recorded.getLast?.map ExpectedConfigure.epoch := by
    rcases newer.eq_nil_or_concat with rfl | ⟨others, last, rfl⟩
    · simp [hrecorded]
    · simp [hrecorded, List.getLast?_append, List.getLast?_cons, (hnewer last (by simp)).ne]
  refine ⟨result, s', gone ++ (older ++ [expected]), hnotify, ⟨hpending ▸ hrecorded, h.numbered,
    hnext.trans h.next, ?_, ?_, hdesired.trans h.desired, ?_, hretired ▸ hlength⟩,
    ⟨fun _ => ⟨expected, ?_, hepoch, fun e he => ?_, fun hmem => ?_, hpending ▸ hnewer⟩, ?_, fun hcurrent => ?_⟩⟩
  · rw [hacked, notifiedBy, hretired]
    intro e he
    by_cases heq : e = expected.epoch
    · rw [heq]
      exact hle
    · refine (hpast e ?_).trans (by simp)
      simp only [List.mem_append, List.mem_singleton] at he ⊢
      tauto
  · rw [hacked, List.pairwise_append]
    refine ⟨h.increasing, List.pairwise_singleton _ _, fun e he e' he' => ?_⟩
    rw [List.mem_singleton.mp he']
    exact (h.past e (List.mem_append_left _ (List.mem_append_left _ he))).trans_lt hnew
  · have := h.pending_le
    rw [hsplit, List.length_append, List.length_cons] at this
    rw [notifiedBy, hpending]
    omega
  · rw [hrecorded]
    simp
  · exact (h.past e (List.mem_append_left _ (List.mem_append_left _ he))).trans_lt hnew
  · exact absurd (h.past _ (List.mem_append_left _ (List.mem_append_right _ hmem))) hnew.not_ge
  · rw [hepoch, ← hlast, hclass]
    split_ifs <;> simp_all [ConfigureNotifyClassification.isExpected]
  · have hempty : newer = [] := by
      by_contra hne
      rw [hclass, if_neg hne] at hcurrent
      simp at hcurrent
    rw [hpending, hack, hdesired, h.desired, hrecorded, hempty]
    exact ⟨rfl, by simp⟩

theorem run_consistent (initial : X11Geometry) {events : List Event}
    (h : (events.filter Event.isRecord).length < 2 ^ 64) : ∃ t gone, run initial events = .ok t ∧
      t.Consistent initial gone ∧ t.recorded.length = (events.filter Event.isRecord).length := by
  induction events using List.reverseRecOn with
  | nil =>
    exact ⟨_, [], rfl, ⟨rfl, fun i hi => absurd hi (Nat.not_lt_zero i), rfl, by simp [acknowledged, new],
      List.Pairwise.nil, rfl, Nat.zero_le _, Nat.zero_le _⟩, rfl⟩
  | append_singleton events event ih =>
    rw [List.filter_append, List.length_append] at h ⊢
    obtain ⟨t, gone, hrun, hconsistent, hlength⟩ := ih (by omega)
    have hstep : run initial (events ++ [event]) = t.step event := by
      rw [run, List.foldlM_append, show events.foldlM step _ = .ok t from hrun, Run.ok_bind, List.foldlM_cons]
      cases t.step event <;> rfl
    rw [hstep]
    cases event with
    | record geometry cookie =>
      rw [← hlength] at h ⊢
      obtain ⟨gone', hconsistent'⟩ := hconsistent.record h geometry cookie
      exact ⟨_, gone', rfl, hconsistent', List.length_append⟩
    | notify geometry sequence authority =>
      obtain ⟨result, s', gone', hok, hconsistent', -⟩ := hconsistent.notify geometry sequence authority
      refine ⟨_, gone', ?_, hconsistent', hlength⟩
      rw [step, hok]
      rfl

/-- The acknowledgements of a run never go backwards. -/
theorem acknowledgements_advance (initial : X11Geometry) (events : List Event)
    (hrecords : (events.filter Event.isRecord).length < 2 ^ 64) :
    ∃ t, run initial events = .ok t ∧ (t.recorded.Pairwise fun a b => a.epoch < b.epoch) ∧
      (t.timeline.pending.Pairwise fun a b => a.epoch < b.epoch) ∧ t.acknowledged.Pairwise (· < ·) ∧
      t.timeline.desired = (t.recorded.getLast?.map ExpectedConfigure.geometry).getD initial ∧
      t.timeline.pending.length ≤ configureHistoryLimit ∧ t.timeline.retired.length ≤ configureHistoryLimit ∧
      ∀ geometry sequence authority, ∃ result s',
        t.timeline.notify geometry sequence authority = .ok (result, s') ∧ t.Answered result s' := by
  obtain ⟨t, gone, hrun, h, -⟩ := run_consistent initial hrecords
  refine ⟨t, hrun, h.numbered.pairwise, h.ordered, h.increasing, h.desired, h.pending_le, h.retired_le, ?_⟩
  intro geometry sequence authority
  obtain ⟨result, s', -, hnotify, -, hanswered⟩ := h.notify geometry sequence authority
  exact ⟨result, s', hnotify, hanswered⟩

def square : X11Geometry := ⟨⟨0, I32.zero_mem⟩, ⟨0, I32.zero_mem⟩, one, one⟩

def twice : List Event := [.record square none, .notify square none .compositorManaged, .record square none,
  .notify square none .compositorManaged]

theorem acknowledgements_advance_square : ∃ t, run square twice = .ok t ∧ t.acknowledged.length = 2 ∧
    t.acknowledged.Pairwise (· < ·) := by
  obtain ⟨t, hrun, -, -, hincreasing, -⟩ := acknowledgements_advance square twice (by decide)
  refine ⟨t, hrun, ?_, hincreasing⟩
  have hlength : (run square twice).toOption.map (·.acknowledged.length) = some 2 := by decide +kernel
  rw [hrun] at hlength
  exact Option.some.inj hlength

end Trace
end WindowConfigureTimeline
end Typhon.Xwayland
