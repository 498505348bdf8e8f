import Typhon.Foundation.Machine
import Typhon.Surfaces.BufferReleases

/-! Runs of buffer releases: a token has one owner, and its release is sent after the GPU work of every batch that was
captured while it was shown, as long as no batch that shows it is younger than the one that owns its release. -/

namespace Typhon.Surfaces
open Foundation HashMap

namespace BufferReleases
variable {s s' : BufferReleases} {T : ReleaseToken} {hand L : List ReleaseToken} {go : ReleaseToken → Bool}

def held (s : BufferReleases) (T : ReleaseToken) : ℕ :=
  s.pending.count T + s.deferred.count T + s.retries.count T +
    s.frameBatches.sumValues (fun releases => releases.count T) +
    s.retiredFrameBatches.sumValues (fun releases => releases.count T) +
    s.gpuReleaseLeases.sumValues (fun lease => lease.obligations.count T)

theorem releaseTokenIsActive_iff : s.releaseTokenIsActive T = true ↔ ∃ surface, s.active.lookup surface = some T := by
  rw [releaseTokenIsActive, HashMap.anyValue_eq_true]
  constructor
  · rintro ⟨surface, token, h, heq⟩
    exact ⟨surface, by rw [h, of_decide_eq_true heq]⟩
  · rintro ⟨surface, h⟩
    exact ⟨surface, T, h, decide_eq_true rfl⟩

theorem bufferReleaseIsOwned_iff : s.bufferReleaseIsOwned T = true ↔ 0 < s.held T + s.retained.count T := by
  have hpos : ∀ {κ υ : Type} [DecidableEq κ] (f : υ → List ReleaseToken) (m : HashMap κ υ),
      HashMap.anyValue (fun v => (f v).contains T) m = true ↔ 0 < m.sumValues fun v => (f v).count T := by
    intro κ υ _ f m
    rw [HashMap.anyValue_eq_true, HashMap.sumValues_pos]
    simp only [List.contains_iff_mem, List.count_pos_iff]
  simp only [bufferReleaseIsOwned, Bool.or_eq_true, List.contains_iff_mem, held, ← List.count_pos_iff]
  have h₁ := hpos (fun releases => releases) s.frameBatches
  have h₂ := hpos (fun releases => releases) s.retiredFrameBatches
  have h₃ := hpos (fun lease => lease.obligations) s.gpuReleaseLeases
  rw [h₁, h₂, h₃]
  omega

def Owned (hand : List ReleaseToken) (s : BufferReleases) : Prop :=
  (∀ T, s.held T + hand.count T + s.retained.count T ≤ 1) ∧ ∀ T ∈ s.owed, 0 < s.held T + hand.count T

theorem Owned.of_eq (h : Owned hand s) (hheld : ∀ T, s'.held T + L.count T = s.held T + hand.count T)
    (hretained : s'.retained = s.retained) (howed : s'.owed = s.owed) : Owned L s' := by
  refine ⟨fun T => ?_, fun T hT => ?_⟩
  · rw [hheld, hretained]
    exact h.1 T
  · rw [hheld]
    exact h.2 T (howed ▸ hT)

structure Bounded (s : BufferReleases) : Prop where
  shown : ∀ T, s.releaseTokenIsActive T = true → T ∉ s.retries ∧ T ∉ s.retained
  used_le : ∀ T, s.used T ≤ s.nextFrameBatchId
  frames : ∀ batch releases, s.frameBatches.lookup batch = some releases → batch ≤ s.nextFrameBatchId ∧
    s.retiredFrameBatches.lookup batch = none ∧ ∀ T ∈ releases, s.releaseTokenIsActive T = false → s.used T ≤ batch
  retired : ∀ batch releases, s.retiredFrameBatches.lookup batch = some releases → batch ≤ s.nextFrameBatchId ∧
    ∀ T ∈ releases, s.releaseTokenIsActive T = false → s.used T ≤ batch
  leases : ∀ id lease, s.gpuReleaseLeases.lookup id = some lease → id < s.nextLeaseId ∧
    (∀ batch, lease.sourceBatch = some batch → lease.fence = batch) ∧
    ∀ T ∈ lease.obligations, s.releaseTokenIsActive T = false → s.used T ≤ lease.fence
  retried : ∀ T ∈ s.retries, s.used T ≤ s.finished
  sent : ∀ release ∈ s.sent, release.shown = false ∧ release.unfinished = false

theorem owned_pushDeferred (h : Owned (T :: L) s) : Owned L (s.pushDeferred T) := by
  have hT := h.1 T
  rw [List.count_cons_self] at hT
  have hnot : T ∉ s.deferred := by
    rw [← List.count_pos_iff]
    unfold held at hT
    omega
  rw [pushDeferred, if_neg hnot]
  refine h.of_eq (fun T' => ?_) rfl rfl
  simp only [held, List.count_append, List.count_cons, List.count_nil]
  omega

theorem bounded_pushDeferred (h : Bounded s) : Bounded (s.pushDeferred T) := by
  unfold pushDeferred
  split
  · exact h
  · exact ⟨h.shown, h.used_le, h.frames, h.retired, h.leases, h.retried, h.sent⟩

theorem releaseTokenIsActive_congr (h : s'.active = s.active) : s'.releaseTokenIsActive = s.releaseTokenIsActive := by
  funext T
  rw [releaseTokenIsActive, releaseTokenIsActive, h]

structure Keeps (s s' : BufferReleases) : Prop where
  active : s'.active = s.active
  used : s'.used = s.used
  finished : s'.finished = s.finished
  pending : s'.pending = s.pending
  frameBatches : s'.frameBatches = s.frameBatches
  nextFrameBatchId : s'.nextFrameBatchId = s.nextFrameBatchId
  deferred : ∀ T ∈ s.deferred, T ∈ s'.deferred

theorem Keeps.refl (s : BufferReleases) : Keeps s s := ⟨rfl, rfl, rfl, rfl, rfl, rfl, fun _ => id⟩

theorem Keeps.trans {s'' : BufferReleases} (h : Keeps s s') (h' : Keeps s' s'') : Keeps s s'' :=
  ⟨h'.active.trans h.active, h'.used.trans h.used, h'.finished.trans h.finished, h'.pending.trans h.pending,
    h'.frameBatches.trans h.frameBatches, h'.nextFrameBatchId.trans h.nextFrameBatchId,
    fun T hT => h'.deferred T (h.deferred T hT)⟩

theorem keeps_pushDeferred : Keeps s (s.pushDeferred T) := by
  unfold pushDeferred
  split
  · exact .refl s
  · exact ⟨rfl, rfl, rfl, rfl, rfl, rfl, fun _ => List.mem_append_left _⟩

theorem keeps_completeIfInactive : Keeps s (completeIfInactive go s T) := by
  unfold completeIfInactive
  split
  · exact keeps_pushDeferred
  unfold completeDmabufRelease
  split
  · exact ⟨rfl, rfl, rfl, rfl, rfl, rfl, fun _ => id⟩
  · cases T with
    | wlBuffer => exact ⟨rfl, rfl, rfl, rfl, rfl, rfl, fun _ => id⟩
    | explicitSync =>
      dsimp only
      unfold queueExplicitReleaseSignalRetry
      split
      · exact .refl s
      · exact ⟨rfl, rfl, rfl, rfl, rfl, rfl, fun _ => id⟩

theorem keeps_foldl {f : BufferReleases → ReleaseToken → BufferReleases} (hf : ∀ s T, Keeps s (f s T)) :
    Keeps s (L.foldl f s) := by
  induction L generalizing s with
  | nil => exact .refl s
  | cons T L ih => exact (hf s T).trans ih

theorem owned_completeDmabufRelease (h : Owned (T :: L) s) : Owned L (s.completeDmabufRelease go T) := by
  have hdrop : ∀ {s' : BufferReleases}, s'.held = s.held → s'.retained = s.retained → s'.owed = s.owed.erase T →
      Owned L s' := by
    intro s' hheld hretained howed
    refine ⟨fun T' => ?_, fun T' hT' => ?_⟩
    · have := h.1 T'
      rw [List.count_cons] at this
      rw [hheld, hretained]
      omega
    · rw [howed, Finset.mem_erase] at hT'
      have := h.2 T' hT'.2
      rw [List.count_cons_of_ne (Ne.symm hT'.1)] at this
      rw [hheld]
      exact this
  unfold completeDmabufRelease
  split
  · exact hdrop rfl rfl rfl
  · cases T with
    | wlBuffer => exact hdrop rfl rfl rfl
    | explicitSync point =>
      have hT := h.1 (.explicitSync point)
      rw [List.count_cons_self] at hT
      have hnot : .explicitSync point ∉ s.retries := by
        rw [← List.count_pos_iff]
        unfold held at hT
        omega
      dsimp only
      rw [queueExplicitReleaseSignalRetry, if_neg hnot]
      refine h.of_eq (fun T' => ?_) rfl rfl
      simp only [held, List.count_append, List.count_cons, List.count_nil]
      omega

theorem bounded_completeDmabufRelease (h : Bounded s) (hinactive : s.releaseTokenIsActive T = false)
    (hused : s.used T ≤ s.finished) : Bounded (s.completeDmabufRelease go T) := by
  unfold completeDmabufRelease
  split
  · refine ⟨h.shown, h.used_le, h.frames, h.retired, h.leases, h.retried, fun release hrelease => ?_⟩
    rcases List.mem_append.mp hrelease with hold | hnew
    · exact h.sent release hold
    · rw [List.mem_singleton] at hnew
      subst hnew
      exact ⟨hinactive, decide_eq_false (Nat.not_lt.mpr hused)⟩
  · cases T with
    | wlBuffer => exact ⟨h.shown, h.used_le, h.frames, h.retired, h.leases, h.retried, h.sent⟩
    | explicitSync =>
      dsimp only
      unfold queueExplicitReleaseSignalRetry
      split
      · exact h
      · refine ⟨fun T' hT' => ⟨fun hmem => ?_, (h.shown T' hT').2⟩, h.used_le, h.frames, h.retired, h.leases,
          fun T' hT' => ?_, h.sent⟩
        · rcases List.mem_append.mp hmem with hold | hnew
          · exact (h.shown T' hT').1 hold
          · rw [List.mem_singleton] at hnew
            subst hnew
            exact absurd (hT'.symm.trans hinactive) nofun
        · rcases List.mem_append.mp hT' with hold | hnew
          · exact h.retried T' hold
          · rw [List.mem_singleton] at hnew
            subst hnew
            exact hused

def SoundWith (hand : List ReleaseToken) (s : BufferReleases) : Prop := Bounded s ∧ Owned hand s

theorem soundWith_completeIfInactive (h : SoundWith (T :: L) s)
    (hused : s.releaseTokenIsActive T = false → s.used T ≤ s.finished) : SoundWith L (completeIfInactive go s T) := by
  unfold completeIfInactive
  split
  · exact ⟨bounded_pushDeferred h.1, owned_pushDeferred h.2⟩
  · rename_i hinactive
    rw [Bool.not_eq_true] at hinactive
    exact ⟨bounded_completeDmabufRelease h.1 hinactive (hused hinactive), owned_completeDmabufRelease h.2⟩

theorem soundWith_complete (h : SoundWith L s)
    (hused : ∀ T ∈ L, s.releaseTokenIsActive T = false → s.used T ≤ s.finished) :
    SoundWith [] (L.foldl (completeIfInactive go) s) := by
  induction L generalizing s with
  | nil => exact h
  | cons T L ih =>
    have hkeeps : Keeps s (completeIfInactive go s T) := keeps_completeIfInactive
    refine ih (soundWith_completeIfInactive h (hused T List.mem_cons_self)) fun T' hT' => ?_
    rw [releaseTokenIsActive_congr hkeeps.active, hkeeps.used, hkeeps.finished]
    exact hused T' (List.mem_cons_of_mem _ hT')

theorem soundWith_defer (h : SoundWith L s) : SoundWith [] (L.foldl pushDeferred s) := by
  induction L generalizing s with
  | nil => exact h
  | cons T L ih => exact ih ⟨bounded_pushDeferred h.1, owned_pushDeferred h.2⟩

section moves
variable {batch id : ℕ} {releases : List ReleaseToken} {lease : DmabufGpuReleaseLease}

theorem SoundWith.takeBatch (h : SoundWith [] s) (hbatch : s.frameBatches.lookup batch = some releases) :
    SoundWith releases { s with frameBatches := s.frameBatches.erase batch } := by
  refine ⟨⟨h.1.shown, h.1.used_le, fun b r hb => ?_, h.1.retired, h.1.leases, h.1.retried, h.1.sent⟩,
    h.2.of_eq (fun T => ?_) rfl rfl⟩
  · rw [lookup_erase] at hb
    split_ifs at hb
    exact h.1.frames b r hb
  · have := s.frameBatches.sumValues_erase_add batch fun releases => releases.count T
    rw [hbatch, Option.elim_some] at this
    simp only [held, List.count_nil]
    omega

theorem SoundWith.takeRetired (h : SoundWith [] s) (hbatch : s.retiredFrameBatches.lookup batch = some releases) :
    SoundWith releases { s with retiredFrameBatches := s.retiredFrameBatches.erase batch } := by
  refine ⟨⟨h.1.shown, h.1.used_le, fun b r hb => ?_, fun b r hb => ?_, h.1.leases, h.1.retried, h.1.sent⟩,
    h.2.of_eq (fun T => ?_) rfl rfl⟩
  · obtain ⟨hle, hnone, hused⟩ := h.1.frames b r hb
    refine ⟨hle, ?_, hused⟩
    rw [lookup_erase, hnone, ite_self]
  · rw [lookup_erase] at hb
    split_ifs at hb
    exact h.1.retired b r hb
  · have := s.retiredFrameBatches.sumValues_erase_add batch fun releases => releases.count T
    rw [hbatch, Option.elim_some] at this
    simp only [held, List.count_nil]
    omega

theorem SoundWith.takeLease (h : SoundWith [] s) (hlease : s.gpuReleaseLeases.lookup id = some lease) :
    SoundWith lease.obligations { s with gpuReleaseLeases := s.gpuReleaseLeases.erase id } := by
  refine ⟨⟨h.1.shown, h.1.used_le, h.1.frames, h.1.retired, fun l lease hl => ?_, h.1.retried, h.1.sent⟩,
    h.2.of_eq (fun T => ?_) rfl rfl⟩
  · rw [lookup_erase] at hl
    split_ifs at hl
    exact h.1.leases l lease hl
  · have := s.gpuReleaseLeases.sumValues_erase_add id fun lease => lease.obligations.count T
    rw [hlease, Option.elim_some] at this
    simp only [held, List.count_nil]
    omega

theorem SoundWith.takeRetries (h : SoundWith [] s) : SoundWith s.retries { s with retries := [] } := by
  refine ⟨⟨fun T hT => ⟨List.not_mem_nil, (h.1.shown T hT).2⟩, h.1.used_le, h.1.frames, h.1.retired, h.1.leases, nofun,
    h.1.sent⟩, h.2.of_eq (fun T => ?_) rfl rfl⟩
  simp only [held, List.count_nil]
  omega

theorem count_filter_add (p : ReleaseToken → Bool) (L : List ReleaseToken) (T : ReleaseToken) :
    (L.filter p).count T + (L.filter fun T => !p T).count T = L.count T := by
  rw [← List.count_append]
  exact (List.filter_append_perm p L).count_eq T

theorem SoundWith.takeDeferred (h : SoundWith [] s) :
    SoundWith (s.deferred.filter fun T => !s.releaseTokenIsActive T)
      { s with deferred := s.deferred.filter s.releaseTokenIsActive } := by
  refine ⟨⟨h.1.shown, h.1.used_le, h.1.frames, h.1.retired, h.1.leases, h.1.retried, h.1.sent⟩,
    h.2.of_eq (fun T => ?_) rfl rfl⟩
  have := count_filter_add s.releaseTokenIsActive s.deferred T
  simp only [held, List.count_nil]
  omega

theorem SoundWith.putPending (h : SoundWith L s) : SoundWith [] { s with pending := L ++ s.pending } := by
  refine ⟨⟨h.1.shown, h.1.used_le, h.1.frames, h.1.retired, h.1.leases, h.1.retried, h.1.sent⟩,
    h.2.of_eq (fun T => ?_) rfl rfl⟩
  simp only [held, List.count_nil, List.count_append]
  omega

theorem SoundWith.putRetired (h : SoundWith L s) (hnone : s.frameBatches.lookup batch = none)
    (hfree : s.retiredFrameBatches.lookup batch = none) (hle : batch ≤ s.nextFrameBatchId)
    (hused : ∀ T ∈ L, s.releaseTokenIsActive T = false → s.used T ≤ batch) :
    SoundWith [] { s with retiredFrameBatches := s.retiredFrameBatches.insert batch L } := by
  refine ⟨⟨h.1.shown, h.1.used_le, fun b r hb => ?_, fun b r hb => ?_, h.1.leases, h.1.retried, h.1.sent⟩,
    h.2.of_eq (fun T => ?_) rfl rfl⟩
  · obtain ⟨hle, hnone', hused⟩ := h.1.frames b r hb
    refine ⟨hle, ?_, hused⟩
    rw [lookup_insert, if_neg, hnone']
    rintro rfl
    exact absurd (hnone.symm.trans hb) nofun
  · rw [lookup_insert] at hb
    split_ifs at hb with heq
    · subst heq
      cases hb
      exact ⟨hle, hused⟩
    · exact h.1.retired b r hb
  · have := s.retiredFrameBatches.sumValues_set batch (some L) fun releases => releases.count T
    rw [hfree, Option.elim_none, Option.elim_some, HashMap.set] at this
    simp only [held, List.count_nil]
    omega

theorem SoundWith.putBatch (h : SoundWith L s) (hle : batch ≤ s.nextFrameBatchId)
    (hnone : s.retiredFrameBatches.lookup batch = none)
    (hused : ∀ T ∈ releases, s.releaseTokenIsActive T = false → s.used T ≤ batch)
    (hcount : ∀ T, releases.count T + hand.count T =
      ((s.frameBatches.lookup batch).elim 0 fun releases => releases.count T) + L.count T) :
    SoundWith hand { s with frameBatches := s.frameBatches.insert batch releases } := by
  refine ⟨⟨h.1.shown, h.1.used_le, fun b r hb => ?_, h.1.retired, h.1.leases, h.1.retried, h.1.sent⟩,
    h.2.of_eq (fun T => ?_) rfl rfl⟩
  · rw [lookup_insert] at hb
    split_ifs at hb with heq
    · subst heq
      cases hb
      exact ⟨hle, hnone, hused⟩
    · exact h.1.frames b r hb
  · have := s.frameBatches.sumValues_set batch (some releases) fun releases => releases.count T
    rw [Option.elim_some, HashMap.set] at this
    have := hcount T
    simp only [held]
    omega

theorem SoundWith.openLease (h : SoundWith lease.obligations s)
    (hsource : ∀ batch, lease.sourceBatch = some batch → lease.fence = batch)
    (hused : ∀ T ∈ lease.obligations, s.releaseTokenIsActive T = false → s.used T ≤ lease.fence) :
    SoundWith [] (s.openLease lease) := by
  unfold BufferReleases.openLease
  split
  · rename_i hempty
    rw [hempty] at h
    exact h
  · have hfresh : s.gpuReleaseLeases.lookup s.nextLeaseId = none := by
      cases hl : s.gpuReleaseLeases.lookup s.nextLeaseId with
      | none => rfl
      | some lease => exact absurd (h.1.leases _ lease hl).1 (Nat.lt_irrefl _)
    refine ⟨⟨h.1.shown, h.1.used_le, h.1.frames, h.1.retired, fun l lease' hl => ?_, h.1.retried, h.1.sent⟩,
      h.2.of_eq (fun T => ?_) rfl rfl⟩
    · rw [lookup_insert] at hl
      split_ifs at hl with heq
      · subst heq
        cases hl
        exact ⟨Nat.lt_succ_self _, hsource, hused⟩
      · exact ⟨Nat.lt_succ_of_lt (h.1.leases l lease' hl).1, (h.1.leases l lease' hl).2⟩
    · have := s.gpuReleaseLeases.sumValues_set s.nextLeaseId (some lease) fun lease => lease.obligations.count T
      rw [hfresh, Option.elim_none, Option.elim_some, HashMap.set] at this
      simp only [held, List.count_nil]
      omega

end moves

section steps
variable {surface batch id : ℕ}

theorem sound_capture (h : SoundWith [] s) : SoundWith [] s.takeFrameBatchForRender := by
  unfold takeFrameBatchForRender
  split
  · exact h
  dsimp only
  set releases := s.deferred.filter (fun T => !s.releaseTokenIsActive T) ++ s.pending
  have hinactive : ∀ T, s.releaseTokenIsActive T = false →
      (if s.releaseTokenIsActive T then s.nextFrameBatchId + 1 else s.used T) = s.used T := by
    intro T hT
    rw [if_neg (by rw [hT]; nofun)]
  have htaken : SoundWith releases { s with
      nextFrameBatchId := s.nextFrameBatchId + 1, deferred := s.deferred.filter s.releaseTokenIsActive, pending := []
      used := fun T => if s.releaseTokenIsActive T then s.nextFrameBatchId + 1 else s.used T } := by
    refine ⟨⟨h.1.shown, fun T => ?_, fun b r hb => ?_, fun b r hb => ?_, fun l lease hl => ?_, fun T hT => ?_,
      h.1.sent⟩, h.2.of_eq (fun T => ?_) rfl rfl⟩
    · dsimp only
      split
      · exact Nat.le_refl _
      · exact Nat.le_succ_of_le (h.1.used_le T)
    · obtain ⟨hle, hnone, hused⟩ := h.1.frames b r hb
      exact ⟨Nat.le_succ_of_le hle, hnone, fun T hT hT' => (hinactive T hT').trans_le (hused T hT hT')⟩
    · obtain ⟨hle, hused⟩ := h.1.retired b r hb
      exact ⟨Nat.le_succ_of_le hle, fun T hT hT' => (hinactive T hT').trans_le (hused T hT hT')⟩
    · obtain ⟨hlt, hsource, hused⟩ := h.1.leases l lease hl
      exact ⟨hlt, hsource, fun T hT hT' => (hinactive T hT').trans_le (hused T hT hT')⟩
    · refine (hinactive T ?_).trans_le (h.1.retried T hT)
      rw [← Bool.not_eq_true]
      exact fun hactive => (h.1.shown T hactive).1 hT
    · have := count_filter_add s.releaseTokenIsActive s.deferred T
      simp only [held, List.count_nil, releases, List.count_append]
      omega
  -- the new batch is younger than every batch that used its tokens
  have hfree : s.frameBatches.lookup (s.nextFrameBatchId + 1) = none := by
    cases hb : s.frameBatches.lookup (s.nextFrameBatchId + 1) with
    | none => rfl
    | some r => exact absurd (h.1.frames _ r hb).1 (Nat.not_succ_le_self _)
  have hunretired : s.retiredFrameBatches.lookup (s.nextFrameBatchId + 1) = none := by
    cases hb : s.retiredFrameBatches.lookup (s.nextFrameBatchId + 1) with
    | none => rfl
    | some r => exact absurd (h.1.retired _ r hb).1 (Nat.not_succ_le_self _)
  exact htaken.putBatch (Nat.le_refl _) hunretired (fun T _ _ => htaken.1.used_le T) fun T => by
    dsimp only
    rw [hfree, Option.elim_none, List.count_nil, Nat.zero_add, Nat.add_zero]

theorem sound_restore (h : SoundWith [] s) : SoundWith [] (s.restoreFrameBatch batch) := by
  unfold restoreFrameBatch
  split
  · exact (h.takeBatch ‹_›).putPending
  · exact h

theorem sound_discard (h : SoundWith [] s) : SoundWith [] (s.discardFrameBatch batch) := by
  unfold discardFrameBatch
  split
  · rename_i releases hbatch
    obtain ⟨hle, hnone, hused⟩ := h.1.frames batch releases hbatch
    exact (h.takeBatch hbatch).putRetired (Finmap.lookup_erase _ _) hnone hle hused
  · exact h

theorem sound_completeFrameBatch (h : SoundWith [] s) (hfinished : batch ≤ s.finished) :
    SoundWith [] (s.completeFrameBatch go batch) := by
  unfold completeFrameBatch
  split
  · rename_i releases hbatch
    obtain ⟨-, -, hused⟩ := h.1.frames batch releases hbatch
    exact soundWith_complete (h.takeBatch hbatch) fun T hT hT' => (hused T hT hT').trans hfinished
  · split
    · rename_i releases hbatch
      obtain ⟨-, hused⟩ := h.1.retired batch releases hbatch
      exact soundWith_complete (h.takeRetired hbatch) fun T hT hT' => (hused T hT hT').trans hfinished
    · exact h

theorem sound_completeUnchanged (h : SoundWith [] s) : SoundWith [] (s.completeNoVisualChangeFrameBatch batch) := by
  unfold completeNoVisualChangeFrameBatch
  split
  · exact soundWith_defer (h.takeBatch ‹_›)
  · exact h

theorem sound_transferDeferred (h : SoundWith [] s) : SoundWith [] s.transferDeferredToGpuLease :=
  SoundWith.openLease h.takeDeferred nofun fun T _ _ => h.1.used_le T

theorem sound_transferFrameBatch (h : SoundWith [] s) (pending : Bool) :
    SoundWith [] (s.transferFrameBatchToGpuLease pending batch) := by
  unfold transferFrameBatchToGpuLease
  split
  · rename_i releases hbatch
    obtain ⟨hle, hnone, hused⟩ := h.1.frames batch releases hbatch
    refine SoundWith.openLease (h.putBatch hle hnone nofun fun T => ?_) (fun b hb => ?_) hused
    · rw [hbatch, Option.elim_some, List.count_nil, Nat.zero_add, Nat.add_zero]
    · dsimp only at hb
      split_ifs at hb
      exact Option.some.inj hb
  · exact h

theorem sound_requeue (h : SoundWith [] s) : SoundWith [] (s.requeueGpuLease id) := by
  unfold requeueGpuLease
  split
  · rename_i lease hlease
    have htaken := h.takeLease hlease
    obtain ⟨-, hsource, hused⟩ := h.1.leases id lease hlease
    dsimp only
    split
    · rename_i batch hbatch
      split
      · rename_i releases hreleases
        obtain ⟨hle, hnone, hused'⟩ := h.1.frames batch releases hreleases
        refine htaken.putBatch hle hnone (fun T hT hT' => ?_) fun T => ?_
        · rcases List.mem_append.mp hT with hT | hT
          · exact hused' T hT hT'
          · exact (hused T hT hT').trans_eq (hsource batch hbatch)
        · dsimp only
          rw [hreleases, Option.elim_some, List.count_append, List.count_nil, Nat.add_zero]
      · exact soundWith_defer htaken
    · exact soundWith_defer htaken
  · exact h

theorem sound_completeLease (h : SoundWith [] s)
    (hfinished : ∀ lease ∈ s.gpuReleaseLeases.lookup id, lease.fence ≤ s.finished) :
    SoundWith [] (s.completeGpuLease go id) := by
  unfold completeGpuLease
  split
  · rename_i lease hlease
    obtain ⟨-, -, hused⟩ := h.1.leases id lease hlease
    exact soundWith_complete (h.takeLease hlease) fun T hT hT' => (hused T hT hT').trans (hfinished lease hlease)
  · exact h

theorem sound_serviceRetries (h : SoundWith [] s) : SoundWith [] (s.serviceRetries go) :=
  soundWith_complete h.takeRetries fun T hT _ => h.1.retried T hT

end steps

/-- No batch captured while the token was shown is younger than the batch or the lease that owns its release. -/
def Covered (s : BufferReleases) (T : ReleaseToken) : Prop :=
  (∀ batch ∈ s.frameBatches.keys, ∀ releases ∈ s.frameBatches.lookup batch, T ∈ releases → s.used T ≤ batch) ∧
  (∀ batch ∈ s.retiredFrameBatches.keys, ∀ releases ∈ s.retiredFrameBatches.lookup batch, T ∈ releases →
    s.used T ≤ batch) ∧
  ∀ id ∈ s.gpuReleaseLeases.keys, ∀ lease ∈ s.gpuReleaseLeases.lookup id, T ∈ lease.obligations →
    s.used T ≤ lease.fence

instance (s : BufferReleases) (T : ReleaseToken) : Decidable (s.Covered T) := inferInstanceAs (Decidable (_ ∧ _ ∧ _))

def letsGo (s : BufferReleases) : ReleaseEvent → Option (ℕ × ReleaseToken)
  | .commit surface token =>
    if token ∈ s.retained then none
    else ((s.active.lookup surface).filter fun previous => previous ≠ token).map fun previous => (surface, previous)
  | .stopShowing surface => (s.active.lookup surface).map fun previous => (surface, previous)
  | _ => none

def Careful (s : BufferReleases) (event : ReleaseEvent) : Prop :=
  ∀ gone ∈ s.letsGo event,
    releaseTokenIsActive { s with active := s.active.erase gone.1 } gone.2 = true ∨ s.Covered gone.2

def InOrder (s : BufferReleases) : ReleaseEvent → Prop
  | .complete _ batch => batch ≤ s.finished
  | .completeLease _ id => ∀ lease ∈ s.gpuReleaseLeases.lookup id, lease.fence ≤ s.finished
  | _ => True

instance (s : BufferReleases) (event : ReleaseEvent) : Decidable (Careful s event) :=
  inferInstanceAs (Decidable (∀ gone ∈ s.letsGo event, _))

instance (s : BufferReleases) (event : ReleaseEvent) : Decidable (InOrder s event) :=
  match event with
  | .complete _ batch => inferInstanceAs (Decidable (batch ≤ s.finished))
  | .completeLease _ id => inferInstanceAs
      (Decidable (∀ lease ∈ s.gpuReleaseLeases.lookup id, lease.fence ≤ s.finished))
  | .commit .. | .stopShowing _ | .capture | .restore _ | .discard _ | .completeUnchanged _ | .leaseDeferred
  | .leaseBatch .. | .requeueLease _ | .serviceRetries _ | .gpuFinished _ => .isTrue trivial

theorem Bounded.setActive (h : Bounded s) (active : HashMap ℕ ReleaseToken)
    (hin : ∀ T, releaseTokenIsActive { s with active := active } T = true → T ∉ s.retries ∧ T ∉ s.retained)
    (hout : ∀ T, releaseTokenIsActive { s with active := active } T = false →
      s.releaseTokenIsActive T = false ∨ s.Covered T) :
    Bounded { s with active := active } := by
  refine ⟨hin, h.used_le, fun b r hb => ?_, fun b r hb => ?_, fun l lease hl => ?_, h.retried, h.sent⟩
  · obtain ⟨hle, hnone, hused⟩ := h.frames b r hb
    exact ⟨hle, hnone, fun T hT hT' =>
      (hout T hT').elim (hused T hT) fun hcovered => hcovered.1 b (HashMap.mem_keys_of_lookup hb) r hb hT⟩
  · obtain ⟨hle, hused⟩ := h.retired b r hb
    exact ⟨hle, fun T hT hT' =>
      (hout T hT').elim (hused T hT) fun hcovered => hcovered.2.1 b (HashMap.mem_keys_of_lookup hb) r hb hT⟩
  · obtain ⟨hlt, hsource, hused⟩ := h.leases l lease hl
    exact ⟨hlt, hsource, fun T hT hT' =>
      (hout T hT').elim (hused T hT) fun hcovered => hcovered.2.2 l (HashMap.mem_keys_of_lookup hl) lease hl hT⟩

theorem sound_queue (h : SoundWith [] s) (hretained : T ∉ s.retained) :
    SoundWith [] (s.queueDmabufBufferRelease T) := by
  have hbounded : ∀ pending owed, Bounded { s with pending := pending, owed := owed } := fun _ _ =>
    ⟨h.1.shown, h.1.used_le, h.1.frames, h.1.retired, h.1.leases, h.1.retried, h.1.sent⟩
  have hcount : s.retained.count T = 0 := List.count_eq_zero.mpr hretained
  unfold queueDmabufBufferRelease
  dsimp only
  split
  · rename_i howned
    have hheld : 0 < s.held T + s.retained.count T := bufferReleaseIsOwned_iff.mp howned
    refine ⟨hbounded _ _, h.2.1, fun T' hT' => ?_⟩
    rcases Finset.mem_insert.mp hT' with rfl | hold
    · change 0 < s.held _ + _
      omega
    · exact h.2.2 T' hold
  · rename_i howned
    have hheld : ¬ 0 < s.held T + s.retained.count T := fun hpos => howned (bufferReleaseIsOwned_iff.mpr hpos)
    refine ⟨hbounded _ _, fun T' => ?_, fun T' hT' => ?_⟩
    · have := h.2.1 T'
      simp only [held, List.count_append, List.count_cons, List.count_nil] at this hheld ⊢
      split
      · rename_i heq
        obtain rfl : T = T' := by simpa using heq
        omega
      · omega
    · simp only [held, List.count_append, List.count_cons, List.count_nil]
      rcases Finset.mem_insert.mp hT' with rfl | hold
      · simp only [beq_self_eq_true, if_true]
        omega
      · have := h.2.2 T' hold
        simp only [held, List.count_nil] at this
        omega

theorem sound_stopShowing {surface : ℕ} (h : SoundWith [] s) (hcareful : Careful s (.stopShowing surface)) :
    SoundWith [] (s.stopShowing surface) := by
  unfold stopShowing
  split
  · rename_i T hT
    have hactive : s.releaseTokenIsActive T = true := releaseTokenIsActive_iff.mpr ⟨surface, hT⟩
    have hcovered := hcareful (surface, T) (by simp [letsGo, hT])
    refine sound_queue ⟨h.1.setActive _ (fun T' hT' => ?_) (fun T' hT' => ?_), h.2⟩ (h.1.shown T hactive).2
    · obtain ⟨other, hother⟩ := releaseTokenIsActive_iff.mp hT'
      dsimp only at hother
      rw [lookup_erase] at hother
      split_ifs at hother
      exact h.1.shown T' (releaseTokenIsActive_iff.mpr ⟨other, hother⟩)
    · by_cases heq : T' = T
      · subst heq
        exact .inr (hcovered.resolve_left (by rw [hT']; nofun))
      · refine .inl ?_
        rw [← Bool.not_eq_true] at hT' ⊢
        refine fun hold => hT' ?_
        obtain ⟨other, hother⟩ := releaseTokenIsActive_iff.mp hold
        refine releaseTokenIsActive_iff.mpr ⟨other, ?_⟩
        dsimp only
        rw [lookup_erase, if_neg, hother]
        rintro rfl
        exact heq (Option.some.inj (hother.symm.trans hT))
  · exact h

theorem sound_reclassify (h : SoundWith [] s) : ∃ retries deferred,
    s.reclassifyReactivated T = { s with retries := retries, deferred := deferred } ∧
      SoundWith [] (s.reclassifyReactivated T) ∧ T ∉ retries := by
  unfold reclassifyReactivated
  split
  · rename_i hmem
    have hone := h.2.1 T
    have hcount := List.count_pos_iff.mpr hmem
    have herased : ∀ T', (s.retries.erase T).count T' + [T].count T' = s.retries.count T' := by
      intro T'
      rw [List.count_singleton]
      by_cases heq : T = T'
      · subst heq
        rw [List.count_erase_self, beq_self_eq_true, if_pos rfl]
        omega
      · rw [List.count_erase_of_ne (Ne.symm heq), beq_false_of_ne heq]
        rfl
    have htaken : SoundWith [T] { s with retries := s.retries.erase T } := by
      refine ⟨⟨fun T' hT' => ⟨fun hmem' => (h.1.shown T' hT').1 (List.mem_of_mem_erase hmem'), (h.1.shown T' hT').2⟩,
        h.1.used_le, h.1.frames, h.1.retired, h.1.leases, fun T' hT' => h.1.retried T' (List.mem_of_mem_erase hT'),
        h.1.sent⟩, h.2.of_eq (fun T' => ?_) rfl rfl⟩
      have := herased T'
      simp only [held, List.count_nil] at this ⊢
      omega
    refine ⟨s.retries.erase T, (pushDeferred { s with retries := s.retries.erase T } T).deferred, ?_,
      ⟨bounded_pushDeferred htaken.1, owned_pushDeferred htaken.2⟩, ?_⟩
    · unfold pushDeferred
      split <;> rfl
    · rw [← List.count_pos_iff]
      have := herased T
      rw [List.count_singleton_self] at this
      unfold held at hone
      omega
  · exact ⟨_, _, rfl, h, ‹_›⟩

theorem sound_commit {surface : ℕ} {token : ReleaseToken} (h : SoundWith [] s)
    (hcareful : Careful s (.commit surface token)) : SoundWith [] (s.trackCommittedBufferLifetime surface token) := by
  unfold trackCommittedBufferLifetime
  split
  · exact h
  rename_i hretained
  obtain ⟨retries, deferred, heq, hsound, hfree⟩ := sound_reclassify (T := token) h
  dsimp only
  rw [heq] at hsound ⊢
  have hkept : ∀ {other : ℕ} {T : ReleaseToken}, other ≠ surface → s.active.lookup other = some T →
      releaseTokenIsActive { s with
        retries := retries, deferred := deferred, active := s.active.insert surface token } T = true := by
    intro other T hne hother
    refine releaseTokenIsActive_iff.mpr ⟨other, ?_⟩
    dsimp only
    rw [lookup_insert, if_neg hne, hother]
  have hbounded := hsound.1.setActive (s.active.insert surface token) (fun T hT => ?_) (fun T hT => ?_)
  · have hshown : SoundWith [] { s with
        retries := retries, deferred := deferred, active := s.active.insert surface token } := ⟨hbounded, hsound.2⟩
    split
    · rename_i previous hprevious
      split
      · exact hshown
      · have hactive := releaseTokenIsActive_iff.mpr ⟨surface, hprevious⟩
        exact sound_queue hshown (hsound.1.shown previous hactive).2
    · exact hshown
  · obtain ⟨other, hother⟩ := releaseTokenIsActive_iff.mp hT
    dsimp only at hother
    rw [lookup_insert] at hother
    split_ifs at hother with hsurface
    · cases hother
      exact ⟨hfree, hretained⟩
    · exact hsound.1.shown T (releaseTokenIsActive_iff.mpr ⟨other, hother⟩)
  · rw [or_iff_not_imp_left, Bool.not_eq_false]
    intro hold
    obtain ⟨other, hother⟩ := releaseTokenIsActive_iff.mp hold
    dsimp only at hother
    -- only the token that this surface showed before can have been hidden
    by_cases hsurface : other = surface
    · subst hsurface
      have hne : T ≠ token := by
        rintro rfl
        have hshown : releaseTokenIsActive { s with
            retries := retries, deferred := deferred, active := s.active.insert other T } T = true :=
          releaseTokenIsActive_iff.mpr ⟨other, Finmap.lookup_insert _⟩
        exact absurd (hshown.symm.trans hT) nofun
      refine (hcareful (other, T) (by simp [letsGo, hretained, hother, hne])).resolve_left fun helse => ?_
      obtain ⟨another, hanother⟩ := releaseTokenIsActive_iff.mp helse
      dsimp only at hanother
      rw [lookup_erase] at hanother
      split_ifs at hanother with hsame
      exact absurd ((hkept hsame hanother).symm.trans hT) nofun
    · exact absurd ((hkept hsurface hother).symm.trans hT) nofun

theorem sound_step (h : SoundWith [] s) {event : ReleaseEvent} (hallowed : InOrder s event ∧ Careful s event) :
    SoundWith [] (s.step event) := by
  cases event with
  | commit surface token => exact sound_commit h hallowed.2
  | stopShowing surface => exact sound_stopShowing h hallowed.2
  | capture => exact sound_capture h
  | restore batch => exact sound_restore h
  | discard batch => exact sound_discard h
  | complete goesThrough batch => exact sound_completeFrameBatch h hallowed.1
  | completeUnchanged batch => exact sound_completeUnchanged h
  | leaseDeferred => exact sound_transferDeferred h
  | leaseBatch pending batch => exact sound_transferFrameBatch h pending
  | requeueLease lease => exact sound_requeue h
  | completeLease goesThrough lease => exact sound_completeLease h hallowed.1
  | serviceRetries goesThrough => exact sound_serviceRetries h
  | gpuFinished batch =>
    refine ⟨⟨h.1.shown, h.1.used_le, h.1.frames, h.1.retired, h.1.leases, fun T hT => ?_, h.1.sent⟩, h.2⟩
    exact (h.1.retried T hT).trans (le_max_left _ _)

theorem sound_start {retained : List ReleaseToken} (hretained : retained.Nodup) : SoundWith [] (start retained) := by
  have hactive : ∀ T, ¬ (start retained).releaseTokenIsActive T = true := by
    intro T hT
    obtain ⟨surface, h⟩ := releaseTokenIsActive_iff.mp hT
    exact absurd (h.symm.trans (HashMap.lookup_empty surface)) nofun
  have hnone : ∀ {υ : Type} {k : ℕ} {v : υ}, ¬ Finmap.lookup k (∅ : HashMap ℕ υ) = some v := by
    intro υ k v h
    exact absurd (h.symm.trans (HashMap.lookup_empty k)) nofun
  refine ⟨⟨fun T hT => absurd hT (hactive T), fun _ => Nat.le_refl _, fun b r hb => absurd hb hnone,
    fun b r hb => absurd hb hnone, fun l lease hl => absurd hl hnone, nofun, nofun⟩, fun T => ?_, nofun⟩
  have hzero : (start retained).held T = 0 := by
    simp [held, start, HashMap.sumValues]
  rw [hzero, List.count_nil, Nat.zero_add]
  exact List.nodup_iff_count_le_one.mp hretained T

theorem sent_complete (s : BufferReleases) (L : List ReleaseToken) :
    (L.foldl (completeIfInactive fun _ => true) s).sent.map (·.token) =
      s.sent.map (·.token) ++ L.filter fun T => !s.releaseTokenIsActive T := by
  induction L generalizing s with
  | nil => simp
  | cons T L ih =>
    have hkeeps : Keeps s (completeIfInactive (fun _ => true) s T) := keeps_completeIfInactive
    rw [List.foldl_cons, ih, releaseTokenIsActive_congr hkeeps.active, List.filter_cons]
    unfold completeIfInactive
    cases hT : s.releaseTokenIsActive T with
    | true =>
      simp only [if_true, Bool.not_true, Bool.false_eq_true, if_false]
      unfold pushDeferred
      split <;> rfl
    | false => simp [completeDmabufRelease]

def nextFrame (s : BufferReleases) : BufferReleases :=
  [.serviceRetries fun _ => true, .capture, .gpuFinished (s.nextFrameBatchId + 1),
    .complete (fun _ => true) (s.nextFrameBatchId + 1)].foldl step s

theorem sent_nextFrame (hbatches : s.frameBatches = ∅) : s.nextFrame.sent.map (·.token) = s.sent.map (·.token) ++
      ((s.retries.filter fun T => !s.releaseTokenIsActive T) ++
        (((s.serviceRetries fun _ => true).deferred.filter fun T => !s.releaseTokenIsActive T) ++ s.pending).filter
          fun T => !s.releaseTokenIsActive T) := by
  have hkeeps : Keeps { s with retries := [] } (s.serviceRetries fun _ => true) :=
    keeps_foldl fun _ _ => keeps_completeIfInactive
  have hsent := sent_complete { s with retries := [] } s.retries
  change (s.serviceRetries fun _ => true).sent.map _ = _ at hsent
  simp only [nextFrame, List.foldl_cons, List.foldl_nil, step]
  generalize s.serviceRetries (fun _ => true) = s₁ at hkeeps hsent ⊢
  have hactive : s₁.releaseTokenIsActive = s.releaseTokenIsActive := releaseTokenIsActive_congr hkeeps.active
  have hlen : ¬ 2 ≤ s₁.frameBatches.len := by
    rw [hkeeps.frameBatches, hbatches]
    decide
  have hnext : s₁.nextFrameBatchId = s.nextFrameBatchId := hkeeps.nextFrameBatchId
  rw [takeFrameBatchForRender, if_neg hlen, completeFrameBatch]
  dsimp only
  rw [hnext, lookup_insert, if_pos rfl]
  dsimp only
  rw [sent_complete, hsent, List.append_assoc]
  change _ ++ (_ ++ List.filter (fun T => !s₁.releaseTokenIsActive T) _) = _
  rw [hactive, hkeeps.pending]
  rfl

theorem released_nextFrame (h : SoundWith [] s) (howed : T ∈ s.owed) (hinactive : s.releaseTokenIsActive T = false)
    (hbatches : s.frameBatches = ∅) (hretired : s.retiredFrameBatches = ∅) (hleases : s.gpuReleaseLeases = ∅) :
    T ∈ (s.nextFrame.sent.drop s.sent.length).map (·.token) := by
  have hheld := h.2.2 T howed
  have hempty : ∀ {υ : Type} (weight : υ → ℕ), (∅ : HashMap ℕ υ).sumValues weight = 0 := fun _ => by
    simp [HashMap.sumValues]
  simp only [held, hbatches, hretired, hleases, hempty, List.count_nil, Nat.add_zero] at hheld
  rw [List.map_drop, sent_nextFrame hbatches, List.drop_left' (List.length_map _), List.mem_append]
  by_cases hretry : T ∈ s.retries
  · exact .inl (List.mem_filter.mpr ⟨hretry, by rw [hinactive]; rfl⟩)
  · refine .inr (List.mem_filter.mpr ⟨List.mem_append.mpr ?_, by rw [hinactive]; rfl⟩)
    by_cases hpending : T ∈ s.pending
    · exact .inr hpending
    · have hdeferred : T ∈ s.deferred := by
        rw [← List.count_pos_iff] at hretry hpending ⊢
        omega
      have hkeeps : Keeps { s with retries := [] } (s.serviceRetries fun _ => true) :=
        keeps_foldl fun _ _ => keeps_completeIfInactive
      exact .inl (List.mem_filter.mpr ⟨hkeeps.deferred T hdeferred, by rw [hinactive]; rfl⟩)

theorem release_after_use {retained : List ReleaseToken} (hretained : retained.Nodup) {events : List ReleaseEvent}
    (hrun : Along step (fun s event => InOrder s event ∧ Careful s event) events (start retained))
    (hs : s = events.foldl step (start retained)) :
    (∀ release ∈ s.sent, release.shown = false ∧ release.unfinished = false) ∧
    (∀ T, s.held T + s.retained.count T ≤ 1) ∧ (∀ T ∈ s.owed, 0 < s.held T) ∧
    ∀ T ∈ s.owed, s.releaseTokenIsActive T = false → s.frameBatches = ∅ → s.retiredFrameBatches = ∅ →
      s.gpuReleaseLeases = ∅ → T ∈ (s.nextFrame.sent.drop s.sent.length).map (·.token) := by
  have h : SoundWith [] s := by
    rw [hs]
    exact hrun.invariant (SoundWith []) (fun _ _ h hallowed => sound_step h hallowed) (sound_start hretained)
  exact ⟨h.1.sent, h.2.1, h.2.2, fun T howed hinactive hbatches hretired hleases =>
    released_nextFrame h howed hinactive hbatches hretired hleases⟩

def turns : List ReleaseEvent :=
  [.commit 1 (.wlBuffer 7), .capture, .gpuFinished 1, .complete (fun _ => true) 1, .commit 1 (.explicitSync 8),
    .capture,
    .leaseBatch false 2, .gpuFinished 2, .completeLease (fun _ => true) 0, .complete (fun _ => true) 2, .stopShowing 1]

theorem release_after_use_turns : let s := turns.foldl step (start [.wlBuffer 9])
    Along step (fun s event => InOrder s event ∧ Careful s event) turns (start [.wlBuffer 9]) ∧
      (∀ release ∈ s.sent, release.shown = false ∧ release.unfinished = false) ∧
      (∀ T, s.held T + s.retained.count T ≤ 1) ∧ (∀ T ∈ s.owed, 0 < s.held T) ∧
      .explicitSync 8 ∈ (s.nextFrame.sent.drop s.sent.length).map (·.token) := by
  have hrun : Along step (fun s event => InOrder s event ∧ Careful s event) turns (start [.wlBuffer 9]) := by
    decide +kernel
  obtain ⟨hsent, hone, howed, hnext⟩ := release_after_use (by decide) hrun rfl
  exact ⟨hrun, hsent, hone, howed, hnext (.explicitSync 8) (by decide +kernel) (by decide +kernel) (by decide +kernel)
    (by decide +kernel) (by decide +kernel)⟩

/-- The buffer is shown again after a batch took its release, and hidden again after the next batch was captured: the
first batch sends the release. -/
theorem release_before_use :
    let events : List ReleaseEvent := [.commit 1 (.wlBuffer 7), .commit 1 (.wlBuffer 8), .capture,
      .commit 1 (.wlBuffer 7), .capture, .commit 1 (.wlBuffer 8), .gpuFinished 1, .complete (fun _ => true) 1]
    Along step InOrder events (start []) ∧ (events.foldl step (start [])).sent = [⟨.wlBuffer 7, false, true⟩] := by
  decide +kernel

end BufferReleases
end Typhon.Surfaces
