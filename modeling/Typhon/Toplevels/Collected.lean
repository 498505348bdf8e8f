import Typhon.Foundation.Machine
import Typhon.Toplevels.Publisher

/-! What is published is what would be collected: every change is either marked or part of the target. -/

namespace Typhon.Toplevels
open Foundation HashMap AstreaToplevelPublisher
variable {windows : Snapshots} {collection : AstreaToplevelCollection}

/-! ### Collections -/

structure Lists (windows : Snapshots) (collection : AstreaToplevelCollection) : Prop where
  eligible : collection.eligibleIds = windows.keys
  smallest : IsSmallest maxAstreaToplevelsPerManager windows.keys collection.snapshots.keys
  lookup : ∀ w ∈ collection.snapshots, collection.snapshots.lookup w = windows.lookup w

structure Collects (windows : Snapshots) (collection : AstreaToplevelCollection) : Prop extends
    Lists windows collection where
  total : collection.total = min windows.keys.card U32.top

theorem keys_insert {υ : Type} (m : HashMap WindowId υ) (w : WindowId) (v : υ) :
    (m.insert w v).keys = insert w m.keys := by
  ext k
  simp [Finmap.mem_keys, Finmap.mem_insert]

theorem Collects.unique {collection' : AstreaToplevelCollection} (h : Collects windows collection)
    (h' : Collects windows collection') : collection = collection' := by
  have hkeys := h.smallest.unique h'.smallest
  obtain ⟨snapshots, eligibleIds, total⟩ := collection
  obtain ⟨snapshots', eligibleIds', total'⟩ := collection'
  obtain rfl : snapshots = snapshots' := by
    refine Finmap.ext_lookup fun w => ?_
    by_cases hw : w ∈ snapshots
    · have hw' : w ∈ snapshots' := Finmap.mem_keys.mp (hkeys ▸ Finmap.mem_keys.mpr hw)
      exact (h.lookup w hw).trans (h'.lookup w hw').symm
    · have hw' : w ∉ snapshots' := fun hw' => hw (Finmap.mem_keys.mp (hkeys ▸ Finmap.mem_keys.mpr hw'))
      rw [Finmap.lookup_eq_none.mpr hw, Finmap.lookup_eq_none.mpr hw']
  obtain rfl : eligibleIds = eligibleIds' := h.eligible.trans h'.eligible.symm
  obtain rfl : total = total' := h.total.trans h'.total.symm
  rfl

theorem largestKey_eq_some {snapshots : Snapshots} (h : snapshots.keys.Nonempty) :
    ∃ m, largestKey snapshots = some m ∧ m ∈ snapshots.keys ∧ ∀ w ∈ snapshots.keys, w ≤ m := by
  refine ⟨snapshots.keys.max' h, ?_, Finset.max'_mem _ h, fun w hw => Finset.le_max' _ w hw⟩
  rw [largestKey, dif_pos h]

theorem Lists.add (h : Lists windows collection) (w : WindowId) (snapshot : AstreaToplevelSnapshot) (total : ℕ) :
    Lists (windows.insert w snapshot)
      ⟨insertBounded collection.snapshots w snapshot, insert w collection.eligibleIds, total⟩ := by
  have hkeys := keys_insert collection.snapshots w snapshot
  have hlookup : ∀ k ∈ collection.snapshots.insert w snapshot,
      (collection.snapshots.insert w snapshot).lookup k = (windows.insert w snapshot).lookup k := by
    intro k hk
    rw [lookup_insert, lookup_insert]
    split_ifs with heq
    · rfl
    · exact h.lookup k ((Finmap.mem_insert.mp hk).resolve_left heq)
  have heligible : insert w collection.eligibleIds = (windows.insert w snapshot).keys := by
    rw [keys_insert, h.eligible]
  unfold insertBounded
  dsimp only
  split_ifs with hfull
  · obtain ⟨m, hm, hmem, hmax⟩ := largestKey_eq_some (Finset.card_pos.mp (Nat.lt_of_le_of_lt (Nat.zero_le _) hfull))
    rw [hm]
    dsimp only
    rw [hkeys] at hfull hmem hmax
    refine ⟨heligible, ?_, fun k hk => ?_⟩
    · dsimp only
      rw [Finmap.keys_erase, hkeys, keys_insert]
      exact h.smallest.insert_erase hfull hmem hmax
    · obtain ⟨hne, hk⟩ := Finmap.mem_erase.mp hk
      dsimp only
      rw [Finmap.lookup_erase_ne hne]
      exact hlookup k hk
  · refine ⟨heligible, ?_, hlookup⟩
    dsimp only
    rw [hkeys, keys_insert]
    exact h.smallest.insert (by rw [← hkeys]; omega)

theorem lists_empty : Collects ∅ ⟨∅, ∅, 0⟩ :=
  ⟨⟨Finmap.keys_empty.symm, by rw [Finmap.keys_empty]; exact isSmallest_empty _, fun _ _ => rfl⟩, rfl⟩

theorem foldlM_collects {list : List WindowId} (hnodup : list.Nodup) {seen : Snapshots}
    {result : AstreaToplevelCollection}
    (hseen : ∀ w ∈ list, w ∉ seen) (hlist : ∀ w ∈ list, w ∈ windows) (h : Collects seen collection)
    (hrun : list.foldlM (fun collection windowId => match windows.lookup windowId with
      | none => some collection
      | some snapshot => if maxAstreaEligibleWindows ≤ collection.eligibleIds.card then none
        else some ⟨insertBounded collection.snapshots windowId snapshot, Insert.insert windowId collection.eligibleIds,
          min (collection.total + 1) U32.top⟩) collection = some result) :
    ∃ seen', Collects seen' result ∧ ∀ w, seen'.lookup w = if w ∈ list then windows.lookup w else seen.lookup w := by
  induction list generalizing seen collection with
  | nil =>
    cases hrun
    exact ⟨seen, h, fun w => by simp⟩
  | cons w list ih =>
    obtain ⟨hw, hnodup⟩ := List.nodup_cons.mp hnodup
    obtain ⟨snapshot, hsnapshot⟩ := Finmap.mem_iff.mp (hlist w List.mem_cons_self)
    rw [List.foldlM_cons, hsnapshot] at hrun
    dsimp only at hrun
    split_ifs at hrun with hroom
    · cases hrun
    have hfresh := hseen w List.mem_cons_self
    have hstep : Collects (seen.insert w snapshot) ⟨insertBounded collection.snapshots w snapshot,
        Insert.insert w collection.eligibleIds, min (collection.total + 1) U32.top⟩ := by
      refine ⟨h.toLists.add w snapshot _, ?_⟩
      have htotal := h.total
      dsimp only
      rw [keys_insert, Finset.card_insert_of_notMem (fun hmem => hfresh (Finmap.mem_keys.mp hmem))]
      omega
    obtain ⟨seen', hcollects, hlookup⟩ := ih hnodup
      (fun k hk hmem => (Finmap.mem_insert.mp hmem).elim (fun heq => hw (by rwa [heq] at hk))
        (hseen k (List.mem_cons_of_mem _ hk)))
      (fun k hk => hlist k (List.mem_cons_of_mem _ hk)) hstep hrun
    refine ⟨seen', hcollects, fun k => ?_⟩
    rw [hlookup k, lookup_insert]
    by_cases hk : k = w
    · subst hk
      simp [hw, hsnapshot]
    · simp [hk]

theorem collects_of_collect {order : HashMap.Order WindowId}
    (h : collectAstreaToplevels order windows = some collection) : Collects windows collection := by
  have hmem : ∀ w, w ∈ order.visit windows.keys ↔ w ∈ windows := fun w =>
    (order.mem_visit _ w).trans Finmap.mem_keys
  obtain ⟨seen, hcollects, hlookup⟩ := foldlM_collects (order.nodup_visit _) (fun _ _ => Finmap.notMem_empty)
    (fun w hw => (hmem w).mp hw) lists_empty h
  obtain rfl : seen = windows := by
    refine Finmap.ext_lookup fun w => ?_
    rw [hlookup w, lookup_empty]
    split_ifs with hw
    · rfl
    · exact (Finmap.lookup_eq_none.mpr fun hmem' => hw ((hmem w).mpr hmem')).symm
  exact hcollects

/-! ### Dirty snapshots -/

theorem Lists.remove_absent (h : Lists windows collection) {w : WindowId} (hw : windows.lookup w = none) :
    applyDirtySnapshot collection w none = collection := by
  have hnot : w ∉ windows.keys := fun hmem => Finmap.lookup_eq_none.mp hw (Finmap.mem_keys.mp hmem)
  have hsnapshots : collection.snapshots.lookup w = none :=
    Finmap.lookup_eq_none.mpr fun hmem => hnot (h.smallest.subset (Finmap.mem_keys.mpr hmem))
  obtain ⟨snapshots, eligibleIds, total⟩ := collection
  obtain rfl := h.eligible
  simp only [applyDirtySnapshot, erase_of_lookup_none hsnapshots, Finset.erase_eq_of_notMem hnot]

theorem foldl_lists {dirty : DirtySnapshots} {list : List WindowId} (hnodup : list.Nodup) (h : Lists windows collection)
    (hkept : ∀ w ∈ list, dirty.lookup w = some none → windows.lookup w = none) :
    ∃ windows', Lists windows' (list.foldl (fun target w => match dirty.lookup w with
        | some snapshot => applyDirtySnapshot target w snapshot
        | none => target) collection) ∧
      ∀ w, windows'.lookup w = if w ∈ list then (dirty.lookup w).getD (windows.lookup w) else windows.lookup w := by
  induction list generalizing windows collection with
  | nil => exact ⟨windows, h, fun w => by simp⟩
  | cons w list ih =>
    obtain ⟨hw, hnodup⟩ := List.nodup_cons.mp hnodup
    have htail : ∀ k ∈ list, dirty.lookup k = some none → windows.lookup k = none :=
      fun k hk => hkept k (List.mem_cons_of_mem _ hk)
    rw [List.foldl_cons]
    rcases hdirty : dirty.lookup w with _ | _ | snapshot
    · obtain ⟨windows', hlists, hlookup⟩ := ih hnodup h htail
      refine ⟨windows', hlists, fun k => ?_⟩
      rw [hlookup k]
      by_cases hk : k = w
      · subst hk
        simp [hw, hdirty]
      · simp [hk]
    · have habsent := hkept w List.mem_cons_self hdirty
      dsimp only
      rw [h.remove_absent habsent]
      obtain ⟨windows', hlists, hlookup⟩ := ih hnodup h htail
      refine ⟨windows', hlists, fun k => ?_⟩
      rw [hlookup k]
      by_cases hk : k = w
      · subst hk
        simp [hw, hdirty, habsent]
      · simp [hk]
    · obtain ⟨windows', hlists, hlookup⟩ := ih hnodup (h.add w snapshot collection.total) fun k hk hnone => by
        rw [lookup_insert, if_neg (by rintro rfl; exact hw hk)]
        exact htail k hk hnone
      refine ⟨windows', hlists, fun k => ?_⟩
      rw [hlookup k, lookup_insert]
      by_cases hk : k = w
      · subst hk
        simp [hw, hdirty]
      · simp [hk]

theorem applyDirtySnapshots_collects {before : Snapshots} {dirty : DirtySnapshots} (h : Lists before collection)
    (hkept : ∀ w, dirty.lookup w = some none → before.lookup w = none)
    (hwindows : ∀ w, windows.lookup w = (dirty.lookup w).getD (before.lookup w)) :
    Collects windows (applyDirtySnapshots collection dirty) := by
  obtain ⟨windows', hlists, hlookup⟩ := foldl_lists (nodup_ascending dirty.keys) h fun w _ => hkept w
  obtain rfl : windows' = windows := by
    refine Finmap.ext_lookup fun w => ?_
    rw [hlookup w, hwindows w]
    split_ifs with hw
    · rfl
    · rw [mem_ascending, Finmap.mem_keys] at hw
      rw [Finmap.lookup_eq_none.mpr hw]
      rfl
  refine ⟨⟨hlists.eligible, hlists.smallest, hlists.lookup⟩, ?_⟩
  exact congrArg (fun ids => min ids.card U32.top) hlists.eligible

/-! ### The books of the publisher -/

structure Ahead (before : Snapshots) (s : Desktop) : Prop where
  lookup : ∀ w, w ∉ s.publisher.dirtyWindows →
    s.windows.lookup w = (s.publisher.nextDirtySnapshots.lookup w).getD (before.lookup w)
  waiting : ∀ w, s.publisher.nextDirtySnapshots.lookup w = some none → before.lookup w = none
  absent : ∀ w, s.windows.lookup w = none → before.lookup w = none

/-- A full reconciliation is due, or the target was right when it was made and what has changed since is known. -/
structure Tracked (s : Desktop) : Prop where
  next : s.publisher.nextCollection.isSome = true → s.publisher.nextStructureDirty = true
  removed : s.publisher.removedWindows ≠ ∅ → s.publisher.structureDirty = true
  target : s.publisher.needsFullReconciliation = false →
    ∃ before, Collects before s.publisher.admissionCollection ∧ Ahead before s

/-- The changes a run may make: none takes a published window away with a dirty mark alone, windows can always be
collected, and no manager is bound while a dirty mark waits for the reconciliation. -/
def Desktop.Allowed (order : HashMap.Order WindowId) (s : Desktop) : DesktopEvent → Prop
  | .change windowId snapshot mark => mark = .dirty → snapshot = none → s.windows.lookup windowId = none
  | .reconcile _ => (collectAstreaToplevels order s.windows).isSome = true
  | .bind _ _ _ admitted _ => (collectAstreaToplevels order s.windows).isSome = true ∧
      (admitted = true → s.publisher.hasActiveTransaction = true ∨ s.publisher.needsFullReconciliation = true ∨
        s.publisher.dirtyWindows = ∅)
  | _ => True

instance (order : HashMap.Order WindowId) (s : Desktop) : (e : DesktopEvent) → Decidable (s.Allowed order e)
  | .change .. => inferInstanceAs (Decidable (_ → _ → _))
  | .reconcile .. => inferInstanceAs (Decidable (_ = _))
  | .bind .. => inferInstanceAs (Decidable (_ ∧ (_ → _ ∨ _ ∨ _)))
  | .removeManager .. => .isTrue trivial
  | .removeHandle .. => .isTrue trivial

section books
variable {p : AstreaToplevelPublisher} {deliveries : Deliveries}

theorem Tracked.managers (h : Tracked ⟨windows, p⟩) (managers : List (ManagerId × AstreaToplevelManagerBinding))
    (terminalManagers : List ManagerId) :
    Tracked ⟨windows, { p with managers := managers, terminalManagers := terminalManagers }⟩ := by
  refine ⟨h.next, h.removed, fun hfull => ?_⟩
  obtain ⟨before, hcollects, hahead⟩ := h.target hfull
  exact ⟨before, hcollects, hahead.lookup, hahead.waiting, hahead.absent⟩

theorem Tracked.processTransaction (h : Tracked ⟨windows, p⟩) : Tracked ⟨windows, p.processTransaction deliveries⟩ := by
  unfold AstreaToplevelPublisher.processTransaction
  split
  · exact h
  · rename_i transaction htransaction
    have htarget : p.admissionCollection = transaction.target := by
      rw [admissionCollection, htransaction]
    dsimp only
    split_ifs with hfinished
    · refine Tracked.managers (p := { p.setCanonical transaction.target with transaction := none })
        ⟨h.next, h.removed, fun hfull => ?_⟩ _ _
      obtain ⟨before, hcollects, hahead⟩ := h.target hfull
      exact ⟨before, htarget ▸ hcollects, hahead.lookup, hahead.waiting, hahead.absent⟩
    · refine ⟨h.next, h.removed, fun hfull => ?_⟩
      obtain ⟨before, hcollects, hahead⟩ := h.target hfull
      exact ⟨before, htarget ▸ hcollects, hahead.lookup, hahead.waiting, hahead.absent⟩

theorem tracked_publishTarget (htransaction : p.transaction = none) (hnext : p.nextCollection = none)
    (hdirty : p.nextDirtySnapshots = ∅) (h : Collects windows collection) :
    Tracked ⟨windows, p.publishTarget deliveries collection⟩ := by
  have hahead : ∀ q : AstreaToplevelPublisher, q.nextDirtySnapshots = ∅ → Ahead windows ⟨windows, q⟩ := by
    intro q hq
    refine ⟨fun w _ => ?_, fun w hw => ?_, fun w hw => hw⟩ <;> dsimp only at *
    · rw [hq, lookup_empty]
      rfl
    · rw [hq, lookup_empty] at hw
      cases hw
  have htracked : ∀ q : AstreaToplevelPublisher, q.nextCollection = none → q.removedWindows = ∅ →
      q.nextDirtySnapshots = ∅ → q.admissionCollection = collection → Tracked ⟨windows, q⟩ := by
    intro q hq hremoved hq' hcollection
    refine ⟨fun hsome => ?_, fun hne => absurd hremoved hne, fun _ => ⟨windows, hcollection ▸ h, hahead q hq'⟩⟩
    rw [hq] at hsome
    cases hsome
  unfold AstreaToplevelPublisher.publishTarget
  dsimp only
  split_ifs with hcount hdiffers
  · refine Tracked.managers (htracked (p.clearMarks.setCanonical collection) hnext rfl hdirty ?_) _ _
    simp [admissionCollection, AstreaToplevelPublisher.setCanonical,
      clearMarks, AstreaToplevelPublisher.canonicalCollection, htransaction]
  · exact (htracked (p.clearMarks.startTransaction collection) hnext rfl hdirty rfl).processTransaction
  · refine Tracked.managers (htracked p.clearMarks hnext rfl hdirty ?_) _ _
    rw [not_not] at hdiffers
    rw [← hdiffers]
    simp [admissionCollection, clearMarks, htransaction]

theorem foldl_queueDirtySnapshot {dirty : DirtySnapshots} {list : List WindowId} (hnodup : list.Nodup)
    (p : AstreaToplevelPublisher) : ∃ waiting full, list.foldl (fun publisher w => match dirty.lookup w with
        | some snapshot => publisher.queueDirtySnapshot w snapshot
        | none => publisher) p = { p with nextDirtySnapshots := waiting, nextStructureDirty := full } ∧
      (p.nextStructureDirty = true → full = true) ∧
      (full = false → ∀ w, waiting.lookup w =
        if w ∈ list then (dirty.lookup w).or (p.nextDirtySnapshots.lookup w) else p.nextDirtySnapshots.lookup w) := by
  induction list generalizing p with
  | nil => exact ⟨p.nextDirtySnapshots, p.nextStructureDirty, rfl, id, fun _ w => by simp⟩
  | cons w list ih =>
    obtain ⟨hw, hnodup⟩ := List.nodup_cons.mp hnodup
    rw [List.foldl_cons]
    rcases hdirty : dirty.lookup w with _ | snapshot
    · obtain ⟨waiting, full, hfold, hkeeps, hwaiting⟩ := ih hnodup p
      refine ⟨waiting, full, hfold, hkeeps, fun hfull k => ?_⟩
      rw [hwaiting hfull k]
      by_cases hk : k = w
      · subst hk
        simp [hw, hdirty]
      · simp [hk]
    · dsimp only
      unfold AstreaToplevelPublisher.queueDirtySnapshot
      split_ifs with hroom
      · obtain ⟨waiting, full, hfold, hkeeps, hwaiting⟩ :=
          ih hnodup { p with nextDirtySnapshots := p.nextDirtySnapshots.insert w snapshot }
        refine ⟨waiting, full, hfold, hkeeps, fun hfull k => ?_⟩
        rw [hwaiting hfull k, lookup_insert]
        by_cases hk : k = w
        · subst hk
          simp [hw, hdirty]
        · simp [hk]
      · obtain ⟨waiting, full, hfold, hkeeps, -⟩ := ih hnodup { p with nextStructureDirty := true }
        have hfull := hkeeps rfl
        exact ⟨waiting, full, hfold, fun _ => hfull, fun hfalse => absurd (hfull.symm.trans hfalse) nofun⟩

theorem queueFollowUp_some (p : AstreaToplevelPublisher) (c : AstreaToplevelCollection) (dirty : DirtySnapshots) :
    ∃ waiting, p.queueFollowUp (some c) dirty =
      { p with nextCollection := some c, nextDirtySnapshots := waiting, nextStructureDirty := true } := by
  obtain ⟨waiting, full, hfold, hkeeps, -⟩ := foldl_queueDirtySnapshot (nodup_ascending dirty.keys)
    { p with nextCollection := some c, nextStructureDirty := true }
  obtain rfl := hkeeps rfl
  exact ⟨waiting, hfold⟩

theorem queueFollowUp_none (p : AstreaToplevelPublisher) (dirty : DirtySnapshots) :
    ∃ waiting full, p.queueFollowUp none dirty =
        { p with nextDirtySnapshots := waiting, nextStructureDirty := full } ∧
      (p.nextStructureDirty = true → full = true) ∧
      (full = false → ∀ w, waiting.lookup w = (dirty.lookup w).or (p.nextDirtySnapshots.lookup w)) := by
  obtain ⟨waiting, full, hfold, hkeeps, hwaiting⟩ := foldl_queueDirtySnapshot (nodup_ascending dirty.keys) p
  refine ⟨waiting, full, hfold, hkeeps, fun hfalse w => ?_⟩
  rw [hwaiting hfalse w]
  split_ifs with hw
  · rfl
  · rw [mem_ascending, Finmap.mem_keys] at hw
    rw [Finmap.lookup_eq_none.mpr hw]
    rfl

theorem Ahead.merged {before : Snapshots} (h : Ahead before ⟨windows, p⟩) {dirty all : DirtySnapshots}
    (hdirty : ∀ w snapshot, dirty.lookup w = some snapshot → snapshot = windows.lookup w)
    (hknown : ∀ w ∈ p.dirtyWindows, (dirty.lookup w).isSome = true)
    (hall : ∀ w, all.lookup w = (dirty.lookup w).or (p.nextDirtySnapshots.lookup w)) :
    (∀ w, windows.lookup w = (all.lookup w).getD (before.lookup w)) ∧
      ∀ w, all.lookup w = some none → before.lookup w = none := by
  refine ⟨fun w => ?_, fun w hw => ?_⟩
  · rw [hall w]
    cases hw : dirty.lookup w with
    | some snapshot => exact (hdirty w snapshot hw).symm
    | none => exact h.lookup w fun hmem => by simpa [hw] using hknown w hmem
  · rw [hall w] at hw
    cases hsnapshot : dirty.lookup w with
    | some snapshot =>
      rw [hsnapshot] at hw
      obtain rfl : snapshot = none := Option.some.inj hw
      exact h.absent w (hdirty w none hsnapshot).symm
    | none =>
      rw [hsnapshot] at hw
      exact h.waiting w hw

theorem Tracked.reconcile (h : Tracked ⟨windows, p⟩) {collection : Option AstreaToplevelCollection}
    {dirty : DirtySnapshots} (hcollection : ∀ c ∈ collection, Collects windows c)
    (hdue : p.needsFullReconciliation = true → collection.isSome = true)
    (hdirty : ∀ w snapshot, dirty.lookup w = some snapshot → snapshot = windows.lookup w)
    (hknown : collection = none ∨ p.transaction = none → p.needsFullReconciliation = false →
      ∀ w ∈ p.dirtyWindows, (dirty.lookup w).isSome = true) :
    Tracked ⟨windows, p.reconcile deliveries collection dirty⟩ := by
  unfold AstreaToplevelPublisher.reconcile
  -- while a transaction runs, what arrives waits for the next one
  by_cases htransaction : p.transaction.isSome = true
  · rw [if_pos htransaction]
    refine Tracked.processTransaction ?_
    cases collection with
    | some c =>
      obtain ⟨waiting, hqueue⟩ := queueFollowUp_some p c dirty
      rw [hqueue]
      refine ⟨fun _ => rfl, fun hne => absurd rfl hne, fun hnot => ?_⟩
      simp [needsFullReconciliation, clearMarks] at hnot
    | none =>
      have hnot : p.needsFullReconciliation = false := by
        by_contra hne
        exact absurd (hdue (Bool.eq_true_of_not_eq_false hne)) nofun
      obtain ⟨before, hcollects, hahead⟩ := h.target hnot
      obtain ⟨waiting, full, hqueue, hkeeps, hall⟩ := queueFollowUp_none p dirty
      rw [hqueue]
      refine ⟨fun hsome => hkeeps (h.next hsome), fun hne => absurd rfl hne, fun hfull => ?_⟩
      have hfalse : full = false := by
        simp only [needsFullReconciliation, clearMarks,
          Bool.or_eq_false_iff] at hfull
        exact hfull.2
      obtain ⟨hlookup, hnone⟩ := hahead.merged hdirty (hknown (.inl rfl) hnot) (hall hfalse)
      exact ⟨before, hcollects, fun w _ => hlookup w, hnone, hahead.absent⟩
  rw [if_neg htransaction]
  have hnone : p.transaction = none := Option.not_isSome_iff_eq_none.mp htransaction
  by_cases hfull : p.needsFullReconciliation = true
  · rw [if_pos hfull]
    cases collection with
    | none => exact absurd (hdue hfull) nofun
    | some c => exact tracked_publishTarget hnone rfl rfl (hcollection c rfl)
  · rw [if_neg hfull]
    have hnot := Bool.eq_false_of_not_eq_true hfull
    obtain ⟨before, hcollects, hahead⟩ := h.target hnot
    have hcanonical : p.admissionCollection = p.canonicalCollection := by
      rw [admissionCollection, hnone]
    split
    · rename_i c hnext
      have hstructure : p.nextStructureDirty = true := h.next (by dsimp only; rw [hnext]; rfl)
      simp [needsFullReconciliation, hstructure] at hnot
    rename_i hnext
    split_ifs with hsome
    · have hall : ∀ w, (extend p.nextDirtySnapshots dirty).lookup w =
          (dirty.lookup w).or (p.nextDirtySnapshots.lookup w) := by
        intro w
        unfold extend
        cases hw : dirty.lookup w with
        | some snapshot =>
          rw [Finmap.lookup_union_left (Finmap.mem_of_lookup_eq_some hw), hw]
          rfl
        | none =>
          rw [Finmap.lookup_union_right (Finmap.lookup_eq_none.mp hw)]
          rfl
      obtain ⟨hlookup, hkept⟩ := hahead.merged hdirty (hknown (.inr hnone) hnot) hall
      rw [hcanonical] at hcollects
      exact tracked_publishTarget hnone hnext rfl (applyDirtySnapshots_collects hcollects.toLists hkept hlookup)
    · obtain ⟨hwaiting, hempty⟩ := not_or.mp hsome
      rw [not_not] at hwaiting hempty
      have hclean : p.dirtyWindows = ∅ := by
        refine Finset.eq_empty_of_forall_notMem fun w hw => ?_
        have hsome := hknown (.inr hnone) hnot w hw
        rw [hempty, lookup_empty] at hsome
        cases hsome
      refine ⟨h.next, fun hne => absurd rfl hne, fun _ =>
        ⟨before, hcollects, fun w _ => ?_, hahead.waiting, hahead.absent⟩⟩
      exact hahead.lookup w (by dsimp only; rw [hclean]; exact Finset.notMem_empty w)

theorem Tracked.mark {s : Desktop} (h : Tracked s) {w : WindowId} {snapshot : Option AstreaToplevelSnapshot}
    {mark : Mark} (hallowed : mark = .dirty → snapshot = none → s.windows.lookup w = none) :
    Tracked ⟨s.windows.set w snapshot, Desktop.mark s.publisher w mark⟩ := by
  -- a structural mark leaves nothing to show
  have hstructural : ∀ q : AstreaToplevelPublisher, q.nextCollection = s.publisher.nextCollection →
      q.nextStructureDirty = s.publisher.nextStructureDirty → q.structureDirty = true →
      Tracked ⟨s.windows.set w snapshot, q⟩ := by
    intro q hnext hstructure hdirty
    refine ⟨fun hsome => ?_, fun _ => hdirty, fun hfull => ?_⟩
    · dsimp only at hsome ⊢
      rw [hstructure]
      exact h.next (hnext ▸ hsome)
    · simp [needsFullReconciliation, hdirty] at hfull
  cases mark with
  | removed =>
    unfold Desktop.mark AstreaToplevelPublisher.markWindowRemoved markWindowDirty
    dsimp only
    split_ifs <;> exact hstructural _ rfl rfl rfl
  | structural => exact hstructural _ rfl rfl rfl
  | dirty =>
    unfold Desktop.mark markWindowDirty
    dsimp only
    split_ifs with hroom
    · exact hstructural _ rfl rfl rfl
    refine ⟨h.next, h.removed, fun hfull => ?_⟩
    obtain ⟨before, hcollects, hahead⟩ := h.target hfull
    refine ⟨before, hcollects, fun k hk => ?_, hahead.waiting, fun k hk => ?_⟩
    · dsimp only at hk ⊢
      rw [Finset.mem_insert, not_or] at hk
      rw [lookup_set, if_neg hk.1]
      exact hahead.lookup k hk.2
    · dsimp only at hk
      rw [lookup_set] at hk
      split_ifs at hk with heq
      · subst heq
        exact hahead.absent k (hallowed rfl hk)
      · exact hahead.absent k hk

theorem lookup_dirtySnapshots (s : Desktop) (w : WindowId) : s.dirtySnapshots.lookup w =
    if w ∈ s.publisher.dirtyWindows ∪ s.publisher.removedWindows then some (s.windows.lookup w) else none := by
  have hnodup : (((ascending (s.publisher.dirtyWindows ∪ s.publisher.removedWindows)).map fun w =>
      (w, s.windows.lookup w)).map Prod.fst).Nodup := by
    rw [List.map_map]
    exact (nodup_ascending _).map fun a b hab => hab
  refine Option.ext fun snapshot => ?_
  rw [Desktop.dirtySnapshots, lookup_collect hnodup]
  simp only [List.mem_map, mem_ascending, Prod.mk.injEq]
  split_ifs with hw
  · refine ⟨?_, fun hsome => ⟨w, hw, rfl, Option.some.inj hsome⟩⟩
    rintro ⟨k, -, rfl, rfl⟩
    rfl
  · refine ⟨?_, nofun⟩
    rintro ⟨k, hk, rfl, -⟩
    exact absurd hk hw

theorem Tracked.step {order : HashMap.Order WindowId} {s : Desktop} {e : DesktopEvent} (h : Tracked s)
    (hallowed : s.Allowed order e) : Tracked (s.step order e) := by
  have hdirty : ∀ w snapshot, s.dirtySnapshots.lookup w = some snapshot → snapshot = s.windows.lookup w := by
    intro w snapshot hw
    rw [lookup_dirtySnapshots] at hw
    split_ifs at hw
    exact (Option.some.inj hw).symm
  have hknown : ∀ w ∈ s.publisher.dirtyWindows, (s.dirtySnapshots.lookup w).isSome = true := by
    intro w hw
    rw [lookup_dirtySnapshots, if_pos (Finset.mem_union_left _ hw)]
    rfl
  cases e with
  | change w snapshot mark => exact h.mark hallowed
  | reconcile deliveries =>
    obtain ⟨c, hc⟩ := Option.isSome_iff_exists.mp hallowed
    unfold Desktop.step Desktop.reconcileAstreaToplevels
    rw [hc]
    dsimp only
    split_ifs with hpending hfull
    · exact h
    · exact h.reconcile (fun c' hc' => Option.some.inj hc' ▸ collects_of_collect hc) (fun _ => rfl) hdirty
        fun _ _ => hknown
    · exact h.reconcile (fun _ hc' => absurd hc' nofun) (fun hdue => absurd hdue hfull) hdirty fun _ _ => hknown
  | bind managerId version deliveries admitted allocated =>
    obtain ⟨hcollect, hquiet⟩ := hallowed
    obtain ⟨c, hc⟩ := Option.isSome_iff_exists.mp hcollect
    unfold Desktop.step Desktop.bind
    rw [hc]
    dsimp only
    by_cases hadmitted : admitted = true
    swap
    · rw [if_neg hadmitted]
      exact h
    rw [if_pos hadmitted]
    have hreconciled : Tracked ⟨s.windows, s.publisher.reconcile deliveries (some c) ∅⟩ := by
      refine h.reconcile (fun c' hc' => Option.some.inj hc' ▸ collects_of_collect hc) (fun _ => rfl)
        (fun w snapshot hw => ?_) fun hnone hfull w hw => ?_
      · rw [lookup_empty] at hw
        cases hw
      · rcases hquiet hadmitted with htransaction | hdue | hclean
        · have hnone := hnone.resolve_left nofun
          rw [AstreaToplevelPublisher.hasActiveTransaction, hnone] at htransaction
          cases htransaction
        · exact absurd (hfull.symm.trans hdue) nofun
        · rw [hclean] at hw
          exact absurd hw (Finset.notMem_empty w)
    split_ifs with hallocated
    · unfold AstreaToplevelPublisher.bindManager
      dsimp only
      split_ifs
      · exact hreconciled
      · exact hreconciled.managers _ _
      all_goals split <;> exact hreconciled.managers _ _
    · exact hreconciled
  | removeManager managerId => exact h.managers _ _
  | removeHandle managerId w => exact h.managers _ _

theorem tracked_start : Tracked Desktop.start :=
  ⟨nofun, fun hne => absurd rfl hne, nofun⟩

theorem Tracked.collects_of_quiet {s : Desktop} (h : Tracked s) (hquiet : s.publisher.hasPendingPublication = false) :
    Collects s.windows s.publisher.canonicalCollection := by
  simp only [AstreaToplevelPublisher.hasPendingPublication, Bool.or_eq_false_iff, decide_eq_false_iff_not,
    not_not, Option.isSome_eq_false_iff, Option.isNone_iff_eq_none] at hquiet
  obtain ⟨⟨⟨⟨⟨⟨⟨htransaction, hinitial⟩, hstructure⟩, hnextStructure⟩, hdirty⟩, -⟩, hwaiting⟩, -⟩ := hquiet
  obtain ⟨before, hcollects, hahead⟩ := h.target (by
    simp [needsFullReconciliation, hinitial, hstructure, hnextStructure])
  obtain rfl : s.windows = before := by
    refine Finmap.ext_lookup fun w => ?_
    rw [hahead.lookup w (by rw [hdirty]; exact Finset.notMem_empty w), hwaiting, lookup_empty]
    rfl
  rwa [admissionCollection, htransaction] at hcollects

end books

/-- When nothing is pending, the published windows are those that would be collected now, and those with the
smallest ids where there are too many. -/
theorem published_is_collected {order : HashMap.Order WindowId} {events : List DesktopEvent} {s : Desktop}
    (hrun : Along (Desktop.step order) (Desktop.Allowed order) events Desktop.start)
    (hs : s = events.foldl (Desktop.step order) Desktop.start)
    (hquiet : s.publisher.hasPendingPublication = false) {collection : AstreaToplevelCollection}
    (hcollection : collectAstreaToplevels order s.windows = some collection) :
    s.publisher.canonicalCollection = collection ∧
      IsSmallest maxAstreaToplevelsPerManager s.windows.keys s.publisher.canonical.keys := by
  have htracked : Tracked s := by
    rw [hs]
    exact hrun.invariant Tracked (fun s e h hallowed => h.step hallowed) tracked_start
  have hcollects := htracked.collects_of_quiet hquiet
  exact ⟨hcollects.unique (collects_of_collect hcollection), hcollects.smallest⟩

/-! ### A title that changes before a manager binds -/

def allDelivered : Deliveries := ⟨fun _ _ => true, fun _ => true, fun _ => true, fun _ => true⟩

def titled (title : String) : AstreaToplevelSnapshot := ⟨"editor", title, 1, .xdgToplevel, 0, 0, none⟩

def retitling : List DesktopEvent :=
  [.change 1 (some (titled "old")) .structural, .reconcile allDelivered, .change 1 (some (titled "new")) .dirty]

def retitled : List DesktopEvent := retitling ++ [DesktopEvent.reconcile allDelivered]

theorem published_is_collected_retitled :
    (retitled.foldl (Desktop.step ascendingOrder) Desktop.start).publisher.canonicalCollection =
        ⟨Finmap.singleton 1 (titled "new"), {1}, 1⟩ ∧
      IsSmallest maxAstreaToplevelsPerManager
        (retitled.foldl (Desktop.step ascendingOrder) Desktop.start).windows.keys
        (retitled.foldl (Desktop.step ascendingOrder) Desktop.start).publisher.canonical.keys := by
  have hrun : Along (Desktop.step ascendingOrder) (Desktop.Allowed ascendingOrder) retitled Desktop.start := by
    decide +kernel
  have hcollection : collectAstreaToplevels ascendingOrder
      (retitled.foldl (Desktop.step ascendingOrder) Desktop.start).windows =
        some ⟨Finmap.singleton 1 (titled "new"), {1}, 1⟩ := by
    decide +kernel
  exact published_is_collected hrun rfl (by decide +kernel) hcollection

def boundEarly : List DesktopEvent := retitling ++ [DesktopEvent.bind 0 1 allDelivered true true]

theorem bind_loses_dirty_mark : ∃ s, s = boundEarly.foldl (Desktop.step ascendingOrder) Desktop.start ∧
      s.publisher.hasPendingPublication = false ∧
      collectAstreaToplevels ascendingOrder s.windows = some ⟨Finmap.singleton 1 (titled "new"), {1}, 1⟩ ∧
      s.publisher.canonicalCollection = ⟨Finmap.singleton 1 (titled "old"), {1}, 1⟩ :=
  ⟨_, rfl, by decide +kernel, by decide +kernel, by decide +kernel⟩

end Typhon.Toplevels
