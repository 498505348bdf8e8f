import Typhon.Foundation.Machine
import Typhon.Xwayland.Incoming

/-! Whole incoming transfers: what reaches the sink is a prefix of the dragged data, and all of it when the transfer
ends after its last part, as long as no part is read while another is still being written. -/

namespace Typhon.Xwayland
open Foundation Incoming IncomingTransfer
variable {o : DragOffer} {t t' : IncomingTransfer} {w : Incoming} {property : Option PropertyValue}
  {upcoming : List (List UInt8)} {announced : ℕ} {received sunk : List UInt8} {room : Bool}

def IncomingTransfer.left (t : IncomingTransfer) (property : Option PropertyValue) : List UInt8 :=
  if t.continueAfterWrite = .readNextIncrChunk ∨ t.continueAfterWrite = .finish then []
  else (property.map (·.bytes.drop (4 * t.offsetUnits))).getD []

inductive Position (t : IncomingTransfer) (property : Option PropertyValue) (upcoming : List (List UInt8)) : Prop where
  | fresh (hcontinue : t.continueAfterWrite = .none) (hoffset : t.offsetUnits = 0) (hbuffer : t.buffer = [])
  | within (p : PropertyValue) (hcontinue : t.continueAfterWrite = .readMoreProperty) (hproperty : property = some p)
    (hmore : 4 * t.offsetUnits < p.bytes.length)
  | behindChunk (hcontinue : t.continueAfterWrite = .readNextIncrChunk) (hmode : t.mode = .incr)
  | behindAll (hcontinue : t.continueAfterWrite = .finish) (hmode : t.mode ≠ .initial) (hlast : upcoming = [])

structure Tracks (o : DragOffer) (t : IncomingTransfer) (property : Option PropertyValue)
    (upcoming : List (List UInt8)) (announced : ℕ) (received : List UInt8) : Prop where
  data : t.mode ≠ .initial → o.data = received ++ (t.left property ++ upcoming.flatten)
  initial : t.mode = .initial → received = [] ∧ property = some o.first ∧ upcoming = o.later ∧ t.offsetUnits = 0 ∧
    t.continueAfterWrite = .none
  idle : t.phase ≠ .readingProperty → t.continueAfterWrite = .none ∧ t.offsetUnits = 0 ∧ t.pendingReply = none
  pending : ∀ reply, t.pendingReply = some reply → reply = getProperty property t.offsetUnits ∧ t.buffer = [] ∧
    t.continueAfterWrite ≠ .readNextIncrChunk ∧ t.continueAfterWrite ≠ .finish
  position : Position t property upcoming
  kind : t.mode ≠ .initial → ∀ p, property = some p → p.type = o.type ∧ p.format = o.format
  present : t.phase = .readingProperty → property ≠ none
  awaiting : t.phase = .awaitSelectionNotify → t.mode = .initial
  waiting : t.phase = .waitingForIncrValue → t.mode = .incr
  direct : t.mode = .direct → upcoming = []
  chunks : t.mode = .incr → upcoming = [] ∨ ∃ cs, upcoming = cs ++ [[]] ∧ ∀ c ∈ cs, c ≠ []
  lastEmpty : t.mode = .incr → ∀ p, property = some p → p.bytes = [] → upcoming = []
  announcements : announced = 0 ∨ t.phase = .waitingForIncrValue ∧ property ≠ none ∧ announced = 1

def Sinks (t : IncomingTransfer) (sunk received : List UInt8) : Prop :=
  if t.sinkOpen then sunk ++ t.buffer.drop t.written = received else sunk <+: received

theorem Sinks.isPrefix (h : Sinks t sunk received) : sunk <+: received := by
  rw [Sinks] at h
  split_ifs at h
  · exact ⟨_, h⟩
  · exact h

theorem Tracks.isPrefix (h : Tracks o t property upcoming announced received) : received <+: o.data := by
  by_cases hmode : t.mode = .initial
  · rw [(h.initial hmode).1]
    exact List.nil_prefix
  · exact ⟨_, (h.data hmode).symm⟩

def Settled (t : IncomingTransfer) : Prop :=
  t.buffer = [] → t.continueAfterWrite ≠ .readNextIncrChunk ∧ t.continueAfterWrite ≠ .finish

def Sound (o : DragOffer) (w : Incoming) : Prop :=
  match w.transfer with
  | some t => ∃ received, Tracks o t w.property w.upcoming w.announced received ∧ Sinks t w.sunk received ∧ Settled t
  | none => w.sunk <+: o.data ∧ (w.ending = some (.lastPart true) → w.sunk = o.data)

theorem sound_finishTransfer (h : w.sunk <+: o.data) : Sound o w.finishTransfer :=
  ⟨h, nofun⟩

theorem Sound.isPrefix (h : Sound o w) : w.sunk <+: o.data := by
  unfold Sound at h
  split at h
  · obtain ⟨received, htracks, hsinks, -⟩ := h
    exact hsinks.isPrefix.trans htracks.isPrefix
  · exact h.1

theorem Tracks.congr (h : Tracks o t property upcoming announced received) (hphase : t'.phase = t.phase)
    (hmode : t'.mode = t.mode)
    (hoffset : t'.offsetUnits = t.offsetUnits) (hcontinue : t'.continueAfterWrite = t.continueAfterWrite)
    (hpending : t'.pendingReply = t.pendingReply) (hbuffer : t'.buffer = t.buffer ∨ t'.buffer = []) :
    Tracks o t' property upcoming announced received := by
  have hempty : t.buffer = [] → t'.buffer = [] := fun h => hbuffer.elim (fun h' => h'.trans h) id
  refine ⟨?_, ?_, ?_, fun reply hreply => ?_, ?_, ?_, ?_, ?_, ?_, ?_, ?_, ?_, ?_⟩
  · rw [hmode, left, hcontinue, hoffset]
    exact h.data
  · rw [hmode, hoffset, hcontinue]
    exact h.initial
  · rw [hphase, hcontinue, hoffset, hpending]
    exact h.idle
  · rw [hpending] at hreply
    rw [hoffset, hcontinue]
    obtain ⟨h₁, h₂, h₃⟩ := h.pending reply hreply
    exact ⟨h₁, hempty h₂, h₃⟩
  · cases h.position with
    | fresh h₁ h₂ h₃ => exact .fresh (hcontinue.trans h₁) (hoffset.trans h₂) (hempty h₃)
    | within p h₁ h₂ h₃ => exact .within p (hcontinue.trans h₁) h₂ (by rw [hoffset]; exact h₃)
    | behindChunk h₁ h₂ => exact .behindChunk (hcontinue.trans h₁) (hmode.trans h₂)
    | behindAll h₁ h₂ h₃ => exact .behindAll (hcontinue.trans h₁) (by rw [hmode]; exact h₂) h₃
  · rw [hmode]
    exact h.kind
  · rw [hphase]
    exact h.present
  · rw [hphase, hmode]
    exact h.awaiting
  · rw [hphase, hmode]
    exact h.waiting
  · rw [hmode]
    exact h.direct
  · rw [hmode]
    exact h.chunks
  · rw [hmode]
    exact h.lastEmpty
  · rw [hphase]
    exact h.announcements

theorem Tracks.unannounced (h : Tracks o t property upcoming announced received)
    (hphase : t.phase = .readingProperty) : announced = 0 := by
  rcases h.announcements with h | ⟨hwaiting, -⟩
  · exact h
  · exact absurd (hphase.symm.trans hwaiting) nofun

theorem Tracks.buffer_of_none (h : Tracks o t property upcoming announced received)
    (hcontinue : t.continueAfterWrite = .none) : t.buffer = [] := by
  cases h.position with
  | fresh _ _ hbuffer => exact hbuffer
  | within _ hc => exact absurd (hcontinue.symm.trans hc) nofun
  | behindChunk hc => exact absurd (hcontinue.symm.trans hc) nofun
  | behindAll hc => exact absurd (hcontinue.symm.trans hc) nofun

section Steps
variable (h : Tracks o t w.property w.upcoming w.announced received) (hsinks : Sinks t w.sunk received)
include h hsinks

theorem sound_issue (hphase : t.phase = .readingProperty) (hbuffer : t.buffer = [])
    (hcontinue : t.continueAfterWrite ≠ .readNextIncrChunk ∧ t.continueAfterWrite ≠ .finish) :
    Sound o (w.issueTransferPropertyRead room t) := by
  unfold issueTransferPropertyRead
  cases room with
  | false => exact ⟨received, h, hsinks, fun _ => hcontinue⟩
  | true =>
    refine ⟨received, ⟨h.data, h.initial, fun hidle => absurd hphase hidle, fun reply hreply => ?_, ?_, h.kind,
      h.present, h.awaiting, h.waiting, h.direct, h.chunks, h.lastEmpty, h.announcements⟩, hsinks, fun _ => hcontinue⟩
    · cases hreply
      exact ⟨rfl, hbuffer, hcontinue⟩
    · cases h.position with
      | fresh h₁ h₂ h₃ => exact .fresh h₁ h₂ h₃
      | within p h₁ h₂ h₃ => exact .within p h₁ h₂ h₃
      | behindChunk h₁ h₂ => exact .behindChunk h₁ h₂
      | behindAll h₁ h₂ h₃ => exact .behindAll h₁ h₂ h₃

theorem sound_resume (hbuffer : t.buffer = []) : Sound o (w.resumeAfterTransferBuffer room t) := by
  have hreading : t.continueAfterWrite ≠ .none → t.phase = .readingProperty := by
    intro hcontinue
    by_contra hidle
    exact hcontinue (h.idle hidle).1
  unfold resumeAfterTransferBuffer
  cases hcontinue : t.continueAfterWrite with
  | none => exact ⟨received, h, hsinks, fun _ => by rw [hcontinue]; exact ⟨nofun, nofun⟩⟩
  | readMoreProperty =>
    have hphase := hreading (by rw [hcontinue]; nofun)
    refine sound_issue (h.congr hphase.symm rfl rfl hcontinue.symm rfl (.inl rfl)) hsinks rfl hbuffer ⟨nofun, nofun⟩
  | readNextIncrChunk =>
    have hmode : t.mode = .incr := by
      cases h.position with
      | behindChunk _ hmode => exact hmode
      | fresh hc => rw [hcontinue] at hc; cases hc
      | within _ hc => rw [hcontinue] at hc; cases hc
      | behindAll hc => rw [hcontinue] at hc; cases hc
    have hpending : t.pendingReply = none := by
      cases hreply : t.pendingReply with
      | none => rfl
      | some reply => exact absurd hcontinue (h.pending reply hreply).2.2.1
    have hdata := h.data (by rw [hmode]; nofun)
    rw [left, if_pos (.inl hcontinue)] at hdata
    refine ⟨received, ⟨fun _ => hdata, fun hinitial => ?_, fun _ => ⟨rfl, rfl, hpending⟩, fun reply hreply => ?_,
      .fresh rfl rfl hbuffer, fun _ p hp => ?_, nofun, nofun, fun _ => hmode, h.direct, h.chunks, fun _ p hp => ?_,
      .inl (h.unannounced (hreading (by rw [hcontinue]; nofun)))⟩, hsinks, fun _ => ⟨nofun, nofun⟩⟩
    · dsimp only at hinitial
      rw [hmode] at hinitial
      cases hinitial
    · dsimp only at hreply
      rw [hpending] at hreply
      cases hreply
    · cases hp
    · cases hp
  | finish =>
    have hlast : w.upcoming = [] ∧ t.mode ≠ .initial := by
      cases h.position with
      | behindAll _ hmode hlast => exact ⟨hlast, hmode⟩
      | fresh hc => rw [hcontinue] at hc; cases hc
      | within _ hc => rw [hcontinue] at hc; cases hc
      | behindChunk hc => rw [hcontinue] at hc; cases hc
    have hdata := h.data hlast.2
    rw [left, if_pos (.inr hcontinue), hlast.1] at hdata
    simp only [List.flatten_nil, List.append_nil] at hdata
    refine ⟨hsinks.isPrefix.trans h.isPrefix, fun hending => ?_⟩
    have hopen : t.sinkOpen = true := by simpa using hending
    rw [Sinks, if_pos hopen, hbuffer] at hsinks
    simp only [List.drop_nil, List.append_nil] at hsinks
    exact hsinks.trans hdata.symm

theorem sound_flushed (hdone : t.buffer.length ≤ t.written) {interest : Bool} :
    Sound o (w.resumeAfterTransferBuffer room
      { t with buffer := [], written := 0, sinkWritableInterest := interest }) := by
  refine sound_resume (h.congr rfl rfl rfl rfl rfl (.inr rfl)) ?_ rfl
  rw [Sinks, List.drop_eq_nil_of_le hdone] at hsinks
  exact hsinks

theorem sound_dropped (hlost : t'.sinkOpen = false) (ht' : t' = { t with
      buffer := [], written := 0, sinkOpen := t'.sinkOpen, sinkWritableInterest := t'.sinkWritableInterest }) :
    Sound o (w.resumeAfterTransferBuffer room t') := by
  have hbuffer : t'.buffer = [] := by rw [ht']
  refine sound_resume (h.congr ?_ ?_ ?_ ?_ ?_ (.inr hbuffer)) ?_ hbuffer
  iterate 5 rw [ht']
  rw [Sinks, hlost]
  exact hsinks.isPrefix

theorem sound_blocked (hleft : ¬ t.buffer.length ≤ t.written) :
    Sound o { w with transfer := some { t with sinkWritableInterest := true } } := by
  refine ⟨received, h.congr rfl rfl rfl rfl rfl (.inl rfl), hsinks, fun hempty => ?_⟩
  dsimp only at hempty
  rw [hempty] at hleft
  exact absurd (Nat.zero_le _) hleft

end Steps

theorem sound_write (answers : List WriteAnswer) {calls eintrRetries : ℕ}
    (h : Tracks o t w.property w.upcoming w.announced received) (hsinks : Sinks t w.sunk received) :
    Sound o (writeTransferBuffer room w t calls eintrRetries answers) := by
  induction answers generalizing w t calls eintrRetries with
  | nil =>
    unfold writeTransferBuffer
    split
    · exact sound_flushed h hsinks ‹_›
    split
    · exact sound_dropped h hsinks (by simpa using ‹(!t.sinkOpen) = true›) rfl
    · rw [ite_self]
      exact sound_blocked h hsinks ‹_›
  | cons answer answers ih =>
    unfold writeTransferBuffer
    split
    · exact sound_flushed h hsinks ‹_›
    rename_i hleft
    split
    · exact sound_dropped h hsinks (by simpa using ‹(!t.sinkOpen) = true›) rfl
    rename_i hsink
    have hopen : t.sinkOpen = true := by simpa using hsink
    split
    · exact sound_blocked h hsinks hleft
    cases answer with
    | wouldBlock => exact sound_blocked h hsinks hleft
    | failed => exact sound_dropped h hsinks rfl rfl
    | interrupted =>
      dsimp only
      split_ifs
      · exact ih h hsinks
      · exact sound_blocked h hsinks hleft
    | wrote count =>
      dsimp only
      split_ifs with hnothing
      · exact sound_finishTransfer (hsinks.isPrefix.trans h.isPrefix)
      · refine ih (h.congr rfl rfl rfl rfl rfl (.inl rfl)) ?_
        rw [Sinks, if_pos hopen] at hsinks
        rw [Sinks, if_pos hopen, ← hsinks, List.append_assoc, List.append_cancel_left_eq, ← List.drop_drop]
        exact List.prefix_iff_eq_append.mp (List.take_prefix _ _)

theorem DragOffer.first_cases (hoffer : o.Conforms) :
    (o.first.type = .incr ∧ o.later.flatten = o.data ∧ ∃ cs, o.later = cs ++ [[]] ∧ ∀ c ∈ cs, c ≠ []) ∨
    (o.first.type = o.type ∧ o.first.type ≠ .incr ∧ o.first.format = o.format ∧ o.first.bytes = o.data ∧
      o.later = []) := by
  cases o with
  | direct => exact .inr ⟨rfl, nofun, rfl, rfl, rfl⟩
  | incremental atom format announcement chunks =>
    exact .inl ⟨rfl, by simp [DragOffer.later, DragOffer.data], chunks, rfl, hoffer⟩

variable {reply : GetPropertyReply} {offsetUnits : ℕ}

theorem getProperty_eq_some {p : PropertyValue} (h : getProperty (some p) offsetUnits = some reply) :
    reply.type = p.type ∧ reply.value = (p.bytes.drop (4 * offsetUnits)).take (4 * incomingDndChunkUnits) ∧
      reply.bytesAfter = (p.bytes.drop (4 * offsetUnits)).length - 4 * incomingDndChunkUnits := by
  rw [getProperty] at h
  split_ifs at h
  cases h
  exact ⟨rfl, rfl, rfl⟩

theorem Tracks.readingProperty (h : Tracks o t property upcoming announced received)
    {reply : Option GetPropertyReply} (hreply : t.pendingReply = some reply) : t.phase = .readingProperty := by
  by_contra hidle
  rw [(h.idle hidle).2.2] at hreply
  cases hreply

theorem Tracks.reading (hoffer : o.Conforms) (h : Tracks o t property upcoming announced received)
    (hreply : t.pendingReply = some (some reply)) (hmarker : ¬ (t.mode = .initial ∧ reply.type = .incr)) :
    ∃ p, property = some p ∧ p.type = o.type ∧ p.format = o.format ∧ getProperty property t.offsetUnits = some reply ∧
      o.data = received ++ (p.bytes.drop (4 * t.offsetUnits) ++ upcoming.flatten) ∧
      (t.mode ≠ .incr → upcoming = []) ∧
      (t.mode = .incr → p.bytes.drop (4 * t.offsetUnits) = [] → upcoming = []) ∧ t.phase = .readingProperty := by
  obtain ⟨hget, -, hcontinue⟩ := h.pending _ hreply
  have hphase := h.readingProperty hreply
  obtain ⟨p, hp⟩ := Option.ne_none_iff_exists'.mp (h.present hphase)
  have htype : reply.type = p.type := by
    rw [hp] at hget
    exact (getProperty_eq_some hget.symm).1
  by_cases hmode : t.mode = .initial
  · obtain ⟨hreceived, hfirst, hlater, hoffset, -⟩ := h.initial hmode
    obtain rfl : p = o.first := Option.some.inj (hp.symm.trans hfirst)
    rcases DragOffer.first_cases hoffer with ⟨hincr, -⟩ | ⟨hkind, -, hformat, hbytes, hnone⟩
    · exact absurd ⟨hmode, htype.trans hincr⟩ hmarker
    · refine ⟨_, hp, hkind, hformat, hget.symm, ?_, fun _ => hlater.trans hnone, fun hincr => ?_, hphase⟩
      · rw [hreceived, hoffset, hlater, hnone, hbytes]
        simp
      · rw [hmode] at hincr
        cases hincr
  · have hdata := h.data hmode
    rw [left, if_neg (not_or.mpr hcontinue), hp] at hdata
    refine ⟨p, hp, (h.kind hmode p hp).1, (h.kind hmode p hp).2, hget.symm, hdata, fun hother => ?_,
      fun hincr hrest => ?_, hphase⟩
    · cases hm : t.mode with
      | initial => exact absurd hm hmode
      | direct => exact h.direct hm
      | incr => exact absurd hm hother
    cases h.position with
    | fresh _ hoffset =>
      rw [hoffset] at hrest
      exact h.lastEmpty hincr p hp hrest
    | within p' _ hp' hmore =>
      obtain rfl : p = p' := Option.some.inj (hp.symm.trans hp')
      exact absurd (List.drop_eq_nil_iff.mp hrest) (Nat.not_le.mpr hmore)
    | behindChunk hc => exact absurd hc hcontinue.1
    | behindAll hc => exact absurd hc hcontinue.2

section Replies
variable (hoffer : o.Conforms) (h : Tracks o t w.property w.upcoming w.announced received)
  (hsinks : Sinks t w.sunk received) (hreply : t.pendingReply = some (some reply))
include hoffer h hsinks hreply

theorem sound_consumeData (hmarker : ¬ (t.mode = .initial ∧ reply.type = .incr))
    (hoffset : if 0 < reply.bytesAfter then offsetUnits = t.offsetUnits + incomingDndChunkUnits
      else offsetUnits = t.offsetUnits) (answers : List WriteAnswer) :
    Sound o (w.consumeData room { t with pendingReply := none } reply offsetUnits answers) := by
  obtain ⟨p, hp, htype, hformat, hget, hdata, hdirect, hlast, hphase⟩ := h.reading hoffer hreply hmarker
  obtain ⟨-, hbuffer, -⟩ := h.pending _ hreply
  rw [hp] at hget
  obtain ⟨-, hvalue, hafter⟩ := getProperty_eq_some hget
  have hfill : (if reply.value = [] then t.buffer else reply.value) = reply.value := by
    split_ifs with hempty
    · rw [hbuffer, hempty]
    · rfl
  unfold consumeData
  dsimp only
  rw [hfill]
  set t₁ : IncomingTransfer := { t with
    expectedTypeFormat := some (reply.type, reply.format)
    mode := if t.mode = .initial then .direct else t.mode
    buffer := reply.value
    written := if reply.value = [] then t.written else 0
    bytesAfter := reply.bytesAfter
    offsetUnits := offsetUnits
    continueAfterWrite := nextAfterPropertyChunk t.mode reply.bytesAfter reply.value.isEmpty
    pendingReply := none } with ht₁
  have hmode₁ : t₁.mode = if t.mode = .initial then .direct else t.mode := rfl
  have hincr : t₁.mode = .incr → t.mode = .incr := by
    rw [hmode₁]
    split_ifs
    · nofun
    · exact id
  have hinitial : t₁.mode ≠ .initial := by
    rw [hmode₁]
    split_ifs with hm
    · nofun
    · exact hm
  have hsinks₁ : Sinks t₁ w.sunk (received ++ reply.value) := by
    have hprefix := hsinks.isPrefix
    rw [Sinks, hbuffer, List.drop_nil, List.append_nil] at hsinks
    rw [Sinks]
    by_cases hopen : t.sinkOpen = true
    · rw [if_pos hopen] at hsinks
      rw [if_pos hopen, ← hsinks]
      change w.sunk ++ reply.value.drop (if reply.value = [] then t.written else 0) = _
      split_ifs with hempty
      · rw [hempty, List.drop_nil]
      · rfl
    · rw [if_neg hopen]
      exact hprefix.trans (List.prefix_append _ _)
  -- a reply with bytes left stays in its value; the last one ends the part, or all
  have hnext : (Position t₁ w.property w.upcoming ∧
      o.data = received ++ reply.value ++ (t₁.left w.property ++ w.upcoming.flatten)) := by
    rw [left, hp]
    by_cases hmore : 0 < reply.bytesAfter
    · have hcontinue : t₁.continueAfterWrite = .readMoreProperty := if_pos hmore
      rw [if_pos hmore] at hoffset
      have hoffset₁ : 4 * t₁.offsetUnits = 4 * t.offsetUnits + 4 * incomingDndChunkUnits := by
        change 4 * offsetUnits = _
        rw [hoffset, Nat.mul_add]
      refine ⟨.within p hcontinue rfl ?_, ?_⟩
      · rw [List.length_drop] at hafter
        omega
      · rw [if_neg (by rw [hcontinue]; simp), hoffset₁, hdata, hvalue]
        simp only [Option.map_some, Option.getD_some, ← List.drop_drop, List.append_assoc]
        rw [← List.append_assoc (List.take _ _), List.take_append_drop]
    · have hall : reply.value = p.bytes.drop (4 * t.offsetUnits) := by
        rw [hvalue]
        exact List.take_of_length_le (by omega)
      have hcontinue : t₁.continueAfterWrite =
          if t.mode = .incr ∧ reply.value.isEmpty = false then .readNextIncrChunk else .finish := if_neg hmore
      have hleft : t₁.continueAfterWrite = .readNextIncrChunk ∨ t₁.continueAfterWrite = .finish := by
        rw [hcontinue]
        split_ifs
        · exact .inl rfl
        · exact .inr rfl
      refine ⟨?_, by rw [if_pos hleft, hdata, hall, List.nil_append, List.append_assoc]⟩
      split_ifs at hcontinue with hchunk
      · exact .behindChunk hcontinue (by rw [hmode₁, hchunk.1]; rfl)
      · refine .behindAll hcontinue hinitial ?_
        by_cases hm : t.mode = .incr
        · exact hlast hm (by rw [← hall]; simpa [hm] using hchunk)
        · exact hdirect hm
  have htracks : Tracks o t₁ w.property w.upcoming w.announced (received ++ reply.value) := by
    refine ⟨fun _ => hnext.2, fun hm => absurd hm hinitial, fun hidle => absurd hphase hidle, nofun, hnext.1,
      fun _ q hq => ?_, h.present, fun hawait => ?_, fun hwait => ?_, fun hm => hdirect fun hi => ?_,
      fun hm => h.chunks (hincr hm), fun hm => h.lastEmpty (hincr hm), h.announcements⟩
    · obtain rfl : p = q := Option.some.inj (hp.symm.trans hq)
      exact ⟨htype, hformat⟩
    · exact absurd (hphase.symm.trans hawait) nofun
    · exact absurd (hphase.symm.trans hwait) nofun
    · rw [hmode₁, hi] at hm
      cases hm
  split_ifs with hempty
  · exact sound_resume htracks hsinks₁ hempty
  · exact sound_write answers htracks hsinks₁

theorem sound_marker (hmode : t.mode = .initial) (hincr : reply.type = .incr) : Sound o { w with
      property := none
      transfer := some { t with
        pendingReply := none, mode := .incr, phase := .waitingForIncrValue, offsetUnits := 0 } } := by
  obtain ⟨hreceived, hfirst, hlater, -, hcontinue⟩ := h.initial hmode
  obtain ⟨hget, hbuffer, -⟩ := h.pending _ hreply
  rw [hfirst] at hget
  obtain ⟨hflatten, hchunks⟩ : o.later.flatten = o.data ∧ ∃ cs, o.later = cs ++ [[]] ∧ ∀ c ∈ cs, c ≠ [] := by
    rcases DragOffer.first_cases hoffer with ⟨-, hmarker⟩ | ⟨-, hother, -⟩
    · exact hmarker
    · exact absurd ((getProperty_eq_some hget.symm).1.symm.trans hincr) hother
  refine ⟨received, ⟨fun _ => ?_, nofun, fun _ => ⟨hcontinue, rfl, rfl⟩, nofun, .fresh hcontinue rfl hbuffer,
    fun _ p hp => ?_, nofun, nofun, fun _ => rfl, nofun, fun _ => .inr ?_, fun _ p hp => ?_,
    .inl (h.unannounced (h.readingProperty hreply))⟩, hsinks, fun _ => ?_⟩
  · rw [hreceived, left]
    dsimp only
    rw [hlater, hflatten]
    split_ifs <;> rfl
  · cases hp
  · rw [hlater]
    exact hchunks
  · cases hp
  · dsimp only
    rw [hcontinue]
    exact ⟨nofun, nofun⟩

theorem sound_consume (answers : List WriteAnswer) :
    Sound o (w.consumeTransferPropertyReply room { t with pendingReply := none } reply answers) := by
  have hfinish : Sound o w.finishTransfer := sound_finishTransfer (hsinks.isPrefix.trans h.isPrefix)
  unfold consumeTransferPropertyReply
  split
  · exact hfinish
  split
  · split
    · exact hfinish
    · rename_i hmarker _
      exact sound_marker (t := t) hoffer h hsinks hreply hmarker.1 hmarker.2
  rename_i hmarker
  split
  · exact hfinish
  split
  · exact hfinish
  rename_i hparts
  dsimp only
  split
  · split
    · rename_i hmore _
      refine sound_consumeData hoffer h hsinks hreply hmarker ?_ answers
      rw [if_pos hmore]
      obtain ⟨p, hp, -, -, hget, -⟩ := h.reading hoffer hreply hmarker
      rw [hp] at hget
      obtain ⟨-, hvalue, hafter⟩ := getProperty_eq_some hget
      have hlength : reply.value.length = 4 * incomingDndChunkUnits := by
        rw [hvalue, List.length_take]
        omega
      rw [hlength]
      rfl
    · exact hfinish
  · rename_i hmore
    exact sound_consumeData hoffer h hsinks hreply hmarker (by rw [if_neg hmore]) answers

end Replies

def absorbs : List WriteAnswer → (length calls eintrRetries : ℕ) → Bool
  | _, 0, _, _ => true
  | [], _ + 1, _, _ => false
  | answer :: answers, length + 1, calls, eintrRetries =>
    decide (calls < maxWriteCallsPerDispatch) &&
      match answer with
      | .wrote count => count = 0 || absorbs answers (length + 1 - count) (calls + 1) eintrRetries
      | .wouldBlock => false
      | .interrupted =>
        decide (eintrRetries < maxWriteEintrRetriesPerDispatch) &&
          absorbs answers (length + 1) (calls + 1) (eintrRetries + 1)
      | .failed => true

def Incoming.Drained (w : Incoming) : Prop := ∀ t, w.transfer = some t → t.buffer = []

theorem drained_resume (hbuffer : t.buffer = []) : (w.resumeAfterTransferBuffer room t).Drained := by
  unfold resumeAfterTransferBuffer
  split
  · unfold issueTransferPropertyRead
    split
    · rintro _ ⟨⟩
      exact hbuffer
    · rintro _ ⟨⟩
      exact hbuffer
  · rintro _ ⟨⟩
    exact hbuffer
  · rintro _ ⟨⟩
  · rintro _ ⟨⟩
    exact hbuffer

theorem drained_write (answers : List WriteAnswer) {calls eintrRetries : ℕ}
    (h : t.sinkOpen = true → absorbs answers (t.buffer.length - t.written) calls eintrRetries = true) :
    (writeTransferBuffer room w t calls eintrRetries answers).Drained := by
  induction answers generalizing w t calls eintrRetries with
  | nil =>
    unfold writeTransferBuffer
    split
    · exact drained_resume rfl
    split
    · exact drained_resume rfl
    · rename_i hleft hsink
      obtain ⟨n, hn⟩ : ∃ n, t.buffer.length - t.written = n + 1 := ⟨t.buffer.length - t.written - 1, by omega⟩
      have h' := h (by simpa using hsink)
      rw [hn] at h'
      cases h'
  | cons answer answers ih =>
    unfold writeTransferBuffer
    split
    · exact drained_resume rfl
    split
    · exact drained_resume rfl
    rename_i hleft hsink
    obtain ⟨n, hn⟩ : ∃ n, t.buffer.length - t.written = n + 1 := ⟨t.buffer.length - t.written - 1, by omega⟩
    have h' := h (by simpa using hsink)
    rw [hn, absorbs.eq_def] at h'
    dsimp only at h'
    rw [Bool.and_eq_true, decide_eq_true_eq] at h'
    obtain ⟨hcalls, h'⟩ := h'
    rw [if_neg (Nat.not_le.mpr hcalls)]
    cases answer with
    | wouldBlock => cases h'
    | failed => exact drained_resume rfl
    | interrupted =>
      dsimp only at h' ⊢
      rw [Bool.and_eq_true, decide_eq_true_eq] at h'
      rw [if_pos h'.1]
      exact ih fun _ => by rw [hn]; exact h'.2
    | wrote count =>
      dsimp only at h' ⊢
      split_ifs with hnothing
      · rintro _ ⟨⟩
      · refine ih fun _ => ?_
        rw [Bool.or_eq_true, decide_eq_true_eq] at h'
        rcases h' with rfl | h'
        · exact absurd (List.take_zero) hnothing
        · dsimp only
          rw [List.length_take, List.length_drop]
          convert h' using 2
          omega

def TakenAtOnce (t : IncomingTransfer) (reply : GetPropertyReply) (answers : List WriteAnswer) : Prop :=
  (t.mode = .initial ∧ reply.type = .incr) ∨ t.sinkOpen = false ∨ absorbs answers reply.value.length 0 0 = true

instance (t : IncomingTransfer) (reply : GetPropertyReply) (answers : List WriteAnswer) :
    Decidable (TakenAtOnce t reply answers) :=
  inferInstanceAs (Decidable (_ ∨ _))

/-- A part is not read while another is still being written: when there is room for a further read at the end of a
poll, the buffer was empty before and the sink takes the part that arrived. -/
def Unhurried (w : Incoming) : DragEvent → Prop
  | .poll ready _ roomAfter answers =>
    roomAfter = false ∨ ∀ t ∈ w.transfer, t.buffer = [] ∧
      (ready = true → ∀ answer ∈ t.pendingReply, ∀ reply ∈ answer, TakenAtOnce t reply answers)
  | _ => True

instance (w : Incoming) (event : DragEvent) : Decidable (Unhurried w event) :=
  match event with
  | .poll ready _ roomAfter answers =>
    inferInstanceAs (Decidable (roomAfter = false ∨ ∀ t ∈ w.transfer, t.buffer = [] ∧
      (ready = true → ∀ answer ∈ t.pendingReply, ∀ reply ∈ answer, TakenAtOnce t reply answers)))
  | .selectionNotify .. | .sourceStores | .propertyNotify _ | .sinkReady .. | .expire => .isTrue trivial

theorem drained_consumeData (hbuffer : t.buffer = [])
    (answers : List WriteAnswer) (h : t.sinkOpen = false ∨ absorbs answers reply.value.length 0 0 = true) :
    (w.consumeData room t reply offsetUnits answers).Drained := by
  unfold consumeData
  by_cases hvalue : reply.value = []
  · simp only [if_pos hvalue, if_pos hbuffer]
    exact drained_resume hbuffer
  · simp only [if_neg hvalue]
    refine drained_write answers fun hopen => h.resolve_left fun hlost => ?_
    exact absurd (hopen.symm.trans hlost) nofun

theorem drained_consume (hbuffer : t.buffer = []) (answers : List WriteAnswer)
    (h : TakenAtOnce t reply answers) : (w.consumeTransferPropertyReply room t reply answers).Drained := by
  have hfinish : w.finishTransfer.Drained := nofun
  unfold consumeTransferPropertyReply
  split
  · exact hfinish
  split
  · split
    · exact hfinish
    · rintro _ ⟨⟩
      exact hbuffer
  rename_i hmarker
  have htaken := h.resolve_left hmarker
  split
  · exact hfinish
  split
  · exact hfinish
  dsimp only
  split
  · split
    · exact drained_consumeData hbuffer answers htaken
    · exact hfinish
  · exact drained_consumeData hbuffer answers htaken

theorem sound_takeReply (hoffer : o.Conforms) (h : Sound o w) (ready : Bool) (answers : List WriteAnswer) :
    Sound o (w.takeReply ready room answers) := by
  have h' := h
  unfold takeReply
  unfold Sound at h'
  split
  · exact h
  · rename_i t ht
    rw [ht] at h'
    obtain ⟨received, htracks, hsinks, -⟩ := h'
    split
    · exact sound_consume hoffer htracks hsinks ‹_› answers
    · exact sound_finishTransfer h.isPrefix
    · exact h

theorem sound_reissue (h : Sound o w) (hdrained : room = false ∨ w.Drained) : Sound o (w.reissue room) := by
  have h' := h
  unfold reissue
  unfold Sound at h'
  split
  · exact h
  · rename_i t ht
    rw [ht] at h'
    obtain ⟨received, htracks, hsinks, hsettled⟩ := h'
    split
    · rename_i hidle
      rcases hdrained with rfl | hdrained
      · exact ⟨received, htracks, hsinks, hsettled⟩
      · exact sound_issue htracks hsinks hidle.1 (hdrained t ht) (hsettled (hdrained t ht))
    · exact h

theorem sound_poll (hoffer : o.Conforms) (h : Sound o w) {ready roomAfter : Bool} {answers : List WriteAnswer}
    (hunhurried : Unhurried w (.poll ready room roomAfter answers)) :
    Sound o (w.pollTransferReplies ready room roomAfter answers) := by
  refine sound_reissue (sound_takeReply hoffer h ready answers) (hunhurried.imp_right fun hdrained => ?_)
  unfold takeReply
  split
  · rename_i hnone
    intro t ht
    rw [hnone] at ht
    cases ht
  · rename_i t ht
    obtain ⟨hbuffer, habsorbs⟩ := hdrained t ht
    split
    · exact drained_consume (t := { t with pendingReply := none }) hbuffer answers (habsorbs rfl _ ‹_› _ rfl)
    · exact nofun
    · intro t' ht'
      rw [ht] at ht'
      cases ht'
      exact hbuffer

theorem sound_selectionNotify (h : Sound o w) (accepted : Bool) : Sound o (w.selectionNotify accepted room) := by
  have h' := h
  unfold selectionNotify
  unfold Sound at h'
  split
  · exact h
  · rename_i t ht
    rw [ht] at h'
    obtain ⟨received, htracks, hsinks, -⟩ := h'
    split
    · exact sound_finishTransfer h.isPrefix
    · rename_i hawait
      have hphase : t.phase = .awaitSelectionNotify := by
        by_contra hother
        exact hawait (.inl hother)
      have hmode := htracks.awaiting hphase
      obtain ⟨hreceived, hfirst, hlater, -, -⟩ := htracks.initial hmode
      obtain ⟨hcontinue, -, hpending⟩ := htracks.idle (by rw [hphase]; nofun)
      have hbuffer := htracks.buffer_of_none hcontinue
      refine sound_issue ⟨fun hm => absurd rfl hm,
        fun _ => ⟨hreceived, hfirst, hlater, rfl, hcontinue⟩, fun hidle => absurd rfl hidle, fun reply hreply => ?_,
        .fresh hcontinue rfl hbuffer, fun hm => absurd rfl hm, fun _ => by rw [hfirst]; nofun, nofun, nofun, nofun,
        nofun, nofun, ?_⟩ hsinks rfl hbuffer (by dsimp only; rw [hcontinue]; exact ⟨nofun, nofun⟩)
      · exact absurd (hpending.symm.trans hreply) nofun
      · exact htracks.announcements.imp_right fun ⟨hwaiting, _⟩ => absurd (hphase.symm.trans hwaiting) nofun

theorem sound_propertyNotify (h : Sound o w) : Sound o (w.propertyNotify room) := by
  have h' := h
  unfold propertyNotify
  unfold Sound at h'
  split
  · exact h
  rename_i hannounced
  dsimp only
  split
  · rename_i ht
    rw [ht] at h'
    unfold Sound
    dsimp only
    rw [ht]
    exact h'
  · rename_i t ht
    rw [ht] at h'
    obtain ⟨received, htracks, hsinks, hsettled⟩ := h'
    rcases htracks.announcements with hnone | ⟨hphase, hproperty, hone⟩
    · exact absurd hnone hannounced
    have hmode := htracks.waiting hphase
    obtain ⟨hcontinue, hoffset, hpending⟩ := htracks.idle (by rw [hphase]; nofun)
    have hbuffer := htracks.buffer_of_none hcontinue
    have hdata := htracks.data (by rw [hmode]; nofun)
    rw [left, hcontinue, hoffset] at hdata
    rw [if_neg (not_not.mpr hphase)]
    refine sound_issue ⟨fun _ => ?_, nofun, fun hidle => absurd rfl hidle,
      fun reply hreply => ?_, .fresh hcontinue rfl hbuffer, fun _ => htracks.kind (by rw [hmode]; nofun),
      fun _ => hproperty, nofun, nofun, nofun, fun _ => htracks.chunks hmode, fun _ => htracks.lastEmpty hmode,
      .inl (by dsimp only; rw [hone])⟩ hsinks rfl hbuffer (by dsimp only; rw [hcontinue]; exact ⟨nofun, nofun⟩)
    · rw [left]
      dsimp only
      rw [hcontinue]
      exact hdata
    · exact absurd (hpending.symm.trans hreply) nofun

theorem sound_sinkReady (h : Sound o w) (terminal writable : Bool) (answers : List WriteAnswer) :
    Sound o (w.handleSinkReady terminal writable room answers) := by
  have h' := h
  unfold handleSinkReady
  unfold Sound at h'
  split
  · exact h
  · rename_i t ht
    rw [ht] at h'
    obtain ⟨received, htracks, hsinks, -⟩ := h'
    split
    · exact sound_dropped htracks hsinks rfl rfl
    split
    · exact sound_write answers htracks hsinks
    · exact h

theorem sound_sourceStores (h : Sound o w) : Sound o (w.sourceStores o) := by
  have h' := h
  unfold sourceStores
  unfold Sound at h'
  split
  · rename_i value upcoming hproperty hupcoming
    split at h'
    · rename_i t ht
      obtain ⟨received, htracks, hsinks, hsettled⟩ := h'
      have hphase : t.phase = .waitingForIncrValue := by
        cases hphase : t.phase with
        | waitingForIncrValue => rfl
        | readingProperty => exact absurd hproperty (htracks.present hphase)
        | awaitSelectionNotify =>
          have hfirst := (htracks.initial (htracks.awaiting hphase)).2.1
          exact absurd (hproperty.symm.trans hfirst) nofun
      have hmode := htracks.waiting hphase
      obtain ⟨hcontinue, hoffset, hpending⟩ := htracks.idle (by rw [hphase]; nofun)
      have hdata := htracks.data (by rw [hmode]; nofun)
      rw [left, hcontinue, hproperty, hupcoming] at hdata
      have hchunks : (value = [] → upcoming = []) ∧
          (upcoming = [] ∨ ∃ cs, upcoming = cs ++ [[]] ∧ ∀ c ∈ cs, c ≠ []) := by
        rcases htracks.chunks hmode with hnone | ⟨cs, hcs, hfilled⟩
        · exact absurd (hupcoming.symm.trans hnone) nofun
        rw [hupcoming] at hcs
        cases cs with
        | nil =>
          cases hcs
          exact ⟨fun _ => rfl, .inl rfl⟩
        | cons c cs =>
          cases hcs
          exact ⟨fun hempty => absurd hempty (hfilled _ List.mem_cons_self),
            .inr ⟨cs, rfl, fun c hc => hfilled c (List.mem_cons_of_mem _ hc)⟩⟩
      unfold Sound
      dsimp only
      rw [ht]
      refine ⟨received, ⟨fun _ => ?_, fun hm => absurd (hmode.symm.trans hm) nofun,
        fun _ => ⟨hcontinue, hoffset, hpending⟩, fun reply hreply => absurd (hpending.symm.trans hreply) nofun,
        .fresh hcontinue hoffset (htracks.buffer_of_none hcontinue), fun _ p hp => ?_, fun _ => nofun,
        htracks.awaiting, htracks.waiting, fun hm => absurd (hmode.symm.trans hm) nofun, fun _ => hchunks.2,
        fun _ p hp hempty => ?_, .inr ⟨hphase, nofun, ?_⟩⟩, hsinks, hsettled⟩
      · rw [left, hcontinue, hoffset]
        simpa using hdata
      · cases hp
        exact ⟨rfl, rfl⟩
      · cases hp
        exact hchunks.1 hempty
      · rcases htracks.announcements with hnone | ⟨-, hsome, -⟩
        · rw [hnone]
        · exact absurd hproperty hsome
    · rename_i ht
      unfold Sound
      dsimp only
      rw [ht]
      exact h'
  · exact h

theorem sound_step (hoffer : o.Conforms) (h : Sound o w) {event : DragEvent} (hunhurried : Unhurried w event) :
    Sound o (w.step o event) := by
  cases event with
  | selectionNotify accepted room => exact sound_selectionNotify h accepted
  | sourceStores => exact sound_sourceStores h
  | propertyNotify room => exact sound_propertyNotify h
  | poll ready room roomAfter answers => exact sound_poll hoffer h hunhurried
  | sinkReady terminal writable room answers => exact sound_sinkReady h terminal writable answers
  | expire =>
    unfold step
    dsimp only
    split
    · exact sound_finishTransfer h.isPrefix
    · exact h

theorem sound_start (o : DragOffer) : Sound o (start o) :=
  ⟨[], ⟨fun h => absurd rfl h, fun _ => ⟨rfl, rfl, rfl, rfl, rfl⟩, fun _ => ⟨rfl, rfl, rfl⟩, nofun, .fresh rfl rfl rfl,
    fun h => absurd rfl h, nofun, fun _ => rfl, nofun, nofun, nofun, nofun, .inl rfl⟩, rfl, fun _ => ⟨nofun, nofun⟩⟩

theorem dragged_data_prefix (hoffer : o.Conforms) {events : List DragEvent}
    (hrun : Along (Incoming.step o) Unhurried events (Incoming.start o))
    (hw : w = events.foldl (Incoming.step o) (Incoming.start o)) :
    w.sunk <+: o.data ∧ (w.transfer = none → w.ending = some (.lastPart true) → w.sunk = o.data) ∧
      ∀ t ∈ w.transfer, t.pendingReply.isSome → t.buffer = [] := by
  have h : Sound o w := by
    rw [hw]
    exact hrun.invariant (Sound o) (fun _ _ h hunhurried => sound_step hoffer h hunhurried) (sound_start o)
  refine ⟨h.isPrefix, fun hnone hending => ?_, fun t ht hpending => ?_⟩
  · rw [Sound, hnone] at h
    exact h.2 hending
  · rw [Sound, Option.mem_def.mp ht] at h
    obtain ⟨received, htracks, -⟩ := h
    obtain ⟨reply, hreply⟩ := Option.isSome_iff_exists.mp hpending
    exact (htracks.pending reply hreply).2.1

def slowOffer : DragOffer := .incremental 7 8 [9, 0, 0, 0] [[1, 2, 3, 4, 5], [6, 7, 8, 9]]

def slowDrag : List DragEvent :=
  [.selectionNotify true true, .poll true true true [], .sourceStores, .propertyNotify true,
    .poll true true false [.wrote 2, .wouldBlock], .sinkReady false true true [.interrupted, .wrote 3], .sourceStores,
    .propertyNotify true, .poll true true true [.wrote 3, .wrote 1], .sourceStores, .propertyNotify true,
    .poll true true true []]

theorem dragged_data_prefix_slowSink : let w := slowDrag.foldl (Incoming.step slowOffer) (Incoming.start slowOffer)
    Along (Incoming.step slowOffer) Unhurried slowDrag (Incoming.start slowOffer) ∧
      w.sunk <+: slowOffer.data ∧ (w.transfer = none → w.ending = some (.lastPart true) → w.sunk = slowOffer.data) ∧
      (∀ t ∈ w.transfer, t.pendingReply.isSome → t.buffer = []) ∧
      w.transfer = none ∧ w.ending = some (.lastPart true) :=
  have hrun : Along (Incoming.step slowOffer) Unhurried slowDrag (Incoming.start slowOffer) := by decide +kernel
  have h := dragged_data_prefix (by decide) hrun rfl
  ⟨hrun, h.1, h.2.1, h.2.2, by decide +kernel, by decide +kernel⟩

/-- The sink blocks after the first of four bytes; the poll reads the property again, and the next one writes all of
it. -/
theorem dragged_data_repeated : let offer := DragOffer.direct 7 8 [1, 2, 3, 4]
    let events := [.selectionNotify true true, .poll true true true [.wrote 1, .wouldBlock],
      .poll true true true [.wrote 4]]
    let w := events.foldl (Incoming.step offer) (Incoming.start offer)
    offer.Conforms ∧ w.sunk = [1, 1, 2, 3, 4] ∧ ¬ w.sunk <+: offer.data ∧ w.ending = some (.lastPart true) := by
  decide +kernel

end Typhon.Xwayland
