import Typhon.Surfaces.Extraction

/-! Forests of subsurface roles built by surface commits: the cached commits are in order, so every commit carries
exactly its synchronized children. -/

namespace Typhon.Surfaces
open Foundation

structure CommitState where
  roles : Roles
  latestReceived : ℕ → ℕ
  nextSequence : ℕ

structure CommitContent where
  attachment : Option PendingSurfaceAttachment
  frameCallbacks : List ℕ
  explicitSync : Option CapturedExplicitSyncState
  presentationFeedbacks : List ℕ
  pacing : CapturedSurfacePacing
deriving DecidableEq, Repr

def freezeNewest (captured : Roles × List ContentUpdateRef) (childId : ℕ) : Roles × List ContentUpdateRef :=
  match captured.1.lookup childId with
  | none => captured
  | some role =>
    match role.cachedCommits.getLast? with
    | none => captured
    | some commit =>
      if commit.lineage.mergeFrozen then captured
      else
        let frozen := { commit with lineage := { commit.lineage with mergeFrozen := true } }
        (captured.1.insert childId { role with cachedCommits := role.cachedCommits.dropLast ++ [frozen] },
          captured.2 ++ [commit.contentUpdateRef childId])

def captureDirectChildDependencies (roles : Roles) (parentId : ℕ) : Roles × List ContentUpdateRef :=
  ((roles.keys.filter fun child => (roles.lookup child).any (·.parentId = parentId)).sort (· ≤ ·)).foldl
    freezeNewest (roles, [])

def captureCommit (s : CommitState) (surfaceId : ℕ) (content : CommitContent) : Roles × CachedSubsurfaceCommit :=
  let sequence := s.nextSequence + 1
  let predecessor := if s.latestReceived surfaceId = 0 then none
    else some ⟨surfaceId, s.latestReceived surfaceId, s.latestReceived surfaceId⟩
  let captured := captureDirectChildDependencies s.roles surfaceId
  (captured.1,
    { commitId := sequence
      commitSequence := sequence
      lineage := ⟨predecessor, captured.2, false⟩
      attachment := content.attachment
      frameCallbacks := content.frameCallbacks
      explicitSync := content.explicitSync
      presentationFeedbacks := content.presentationFeedbacks
      pacing := content.pacing })

/-- What happens to the forest. A synchronized commit is cached if it is `admitted`; any other commit is the root of an
extraction. `take` stands for commits that leave the front of a queue when they are promoted or drained. -/
inductive CommitEvent where
  | register (surfaceId : ℕ) (role : SubsurfaceRoleState)
  | commit (surfaceId : ℕ) (content : CommitContent) (synchronized admitted : Bool) (settled : Settlements)
  | take (surfaceId count : ℕ)
  | detach (surfaceId : ℕ)
  | unlink (parentId : ℕ) (promoted : List ContentUpdateRef)

def CachedSubsurfaceCommit.unlink (promoted : List ContentUpdateRef) (c : CachedSubsurfaceCommit) :
    CachedSubsurfaceCommit :=
  { c with lineage :=
    { c.lineage with childDependencies := c.lineage.childDependencies.filter (· ∉ promoted) } }

def updateQueue (roles : Roles) (surfaceId : ℕ) (f : List CachedSubsurfaceCommit → List CachedSubsurfaceCommit) :
    Roles :=
  match roles.lookup surfaceId with
  | none => roles
  | some role => roles.insert surfaceId { role with cachedCommits := f role.cachedCommits }

namespace CommitState

def start : CommitState := ⟨∅, fun _ => 0, 0⟩

def step (s : CommitState) : CommitEvent → CommitState
  | .register surfaceId role =>
    if (s.roles.lookup surfaceId).isSome then s
    else { s with roles := s.roles.insert surfaceId { role with cachedCommits := [] } }
  | .commit surfaceId content synchronized admitted settled =>
    let (roles, commit) := captureCommit s surfaceId content
    let roles :=
      if synchronized then
        match roles.lookup surfaceId with
        | some role =>
          if admitted then roles.insert surfaceId
            { role with cachedCommits := SurfaceTransactionState.queueWith role commit }
          else roles
        | none => roles
      else ((extractContentUpdateCandidate settled roles surfaceId commit).map (·.roles)).getD roles
    ⟨roles, Function.update s.latestReceived surfaceId (s.nextSequence + 1), s.nextSequence + 1⟩
  | .take surfaceId count => { s with roles := updateQueue s.roles surfaceId (·.drop count) }
  | .detach surfaceId => { s with roles := s.roles.erase surfaceId }
  | .unlink parentId promoted => { s with roles := updateQueue s.roles parentId (·.map (·.unlink promoted)) }

def run (events : List CommitEvent) : CommitState := events.foldl step start

end CommitState

structure InOrder (bound : ℕ) (commits : List CachedSubsurfaceCommit) : Prop where
  sorted : commits.Pairwise fun c d => c.commitSequence < d.commitSequence
  below : ∀ c ∈ commits, ∀ r ∈ c.dependencies, r.commitSequence < c.commitSequence
  bounded : ∀ c ∈ commits, c.commitSequence ≤ bound

def AllInOrder (bound : ℕ) (roles : Roles) : Prop := ∀ surfaceId, InOrder bound (queue roles surfaceId)

section Order
variable {bound bound' : ℕ} {commits commits' : List CachedSubsurfaceCommit} {roles : Roles}

theorem inOrder_nil : InOrder bound [] := ⟨List.Pairwise.nil, nofun, nofun⟩

theorem InOrder.sublist (h : InOrder bound commits) (hsub : commits'.Sublist commits) : InOrder bound commits' :=
  ⟨h.sorted.sublist hsub, fun c hc => h.below c (hsub.subset hc), fun c hc => h.bounded c (hsub.subset hc)⟩

theorem InOrder.mono (h : InOrder bound commits) (hle : bound ≤ bound') : InOrder bound' commits :=
  ⟨h.sorted, h.below, fun c hc => (h.bounded c hc).trans hle⟩

theorem InOrder.map (h : InOrder bound commits) {f : CachedSubsurfaceCommit → CachedSubsurfaceCommit}
    (hnumber : ∀ c, (f c).commitSequence = c.commitSequence) (hdeps : ∀ c, (f c).dependencies ⊆ c.dependencies) :
    InOrder bound (commits.map f) where
  sorted := by
    rw [List.pairwise_map]
    exact h.sorted.imp fun hlt => by rwa [hnumber, hnumber]
  below c hc r hr := by
    obtain ⟨d, hd, rfl⟩ := List.mem_map.mp hc
    rw [hnumber]
    exact h.below d hd r (hdeps d hr)
  bounded c hc := by
    obtain ⟨d, hd, rfl⟩ := List.mem_map.mp hc
    rw [hnumber]
    exact h.bounded d hd

theorem InOrder.snoc {commit : CachedSubsurfaceCommit} (h : InOrder bound commits)
    (hnumber : ∀ c ∈ commits, c.commitSequence < commit.commitSequence) (hbound : commit.commitSequence ≤ bound)
    (hdeps : ∀ r ∈ commit.dependencies, r.commitSequence < commit.commitSequence) :
    InOrder bound (commits ++ [commit]) where
  sorted := by
    rw [List.pairwise_append]
    refine ⟨h.sorted, List.pairwise_singleton _ _, fun c hc d hd => ?_⟩
    rw [List.mem_singleton.mp hd]
    exact hnumber c hc
  below c hc := by
    rcases List.mem_append.mp hc with hc | hc
    · exact h.below c hc
    · rw [List.mem_singleton.mp hc]
      exact hdeps
  bounded c hc := by
    rcases List.mem_append.mp hc with hc | hc
    · exact h.bounded c hc
    · rw [List.mem_singleton.mp hc]
      exact hbound

variable {role : SubsurfaceRoleState} {surfaceId : ℕ}

theorem queue_of_lookup (h : roles.lookup surfaceId = some role) : queue roles surfaceId = role.cachedCommits := by
  rw [queue, h, Option.elim_some]

theorem AllInOrder.insert (h : AllInOrder bound roles)
    (hrole : InOrder bound role.cachedCommits) : AllInOrder bound (roles.insert surfaceId role) := by
  intro surfaceId'
  rw [queue, HashMap.lookup_insert]
  split_ifs with hsame
  · exact hrole
  · exact h surfaceId'

theorem AllInOrder.updateQueue {f : List CachedSubsurfaceCommit → List CachedSubsurfaceCommit}
    (h : AllInOrder bound roles) (hf : ∀ commits, InOrder bound commits → InOrder bound (f commits)) :
    AllInOrder bound (updateQueue roles surfaceId f) := by
  unfold Surfaces.updateQueue
  cases hrole : roles.lookup surfaceId with
  | none => exact h
  | some role =>
    refine h.insert (hf _ ?_)
    rw [← queue_of_lookup hrole]
    exact h surfaceId

theorem AllInOrder.ordered (h : AllInOrder bound roles) : Ordered roles :=
  ⟨fun surfaceId => (h surfaceId).sorted, fun surfaceId => (h surfaceId).below⟩

theorem freezeNewest_spec {captured : Roles × List ContentUpdateRef} (h : AllInOrder bound captured.1)
    (hrefs : ∀ r ∈ captured.2, r.commitSequence ≤ bound) (childId : ℕ) :
    AllInOrder bound (freezeNewest captured childId).1 ∧
      ∀ r ∈ (freezeNewest captured childId).2, r.commitSequence ≤ bound := by
  unfold freezeNewest
  cases hrole : captured.1.lookup childId with
  | none => exact ⟨h, hrefs⟩
  | some role =>
    dsimp only
    cases hlast : role.cachedCommits.getLast? with
    | none => exact ⟨h, hrefs⟩
    | some commit =>
      dsimp only
      split_ifs
      · exact ⟨h, hrefs⟩
      · have hsplit := List.dropLast_append_getLast? commit hlast
        have hqueue := h childId
        rw [queue_of_lookup hrole, ← hsplit] at hqueue
        have hcommit : commit ∈ role.cachedCommits.dropLast ++ [commit] :=
          List.mem_append_right _ (List.mem_singleton_self _)
        refine ⟨h.insert ?_, fun r hr => ?_⟩
        · refine (hqueue.sublist (List.sublist_append_left _ _)).snoc (fun c hc => ?_) (hqueue.bounded commit hcommit)
            (hqueue.below commit hcommit)
          exact (List.pairwise_append.mp hqueue.sorted).2.2 c hc commit (List.mem_singleton_self _)
        · rcases List.mem_append.mp hr with hr | hr
          · exact hrefs r hr
          · rw [List.mem_singleton.mp hr]
            exact hqueue.bounded commit hcommit

theorem captureDirectChildDependencies_spec (h : AllInOrder bound roles) (parentId : ℕ) :
    AllInOrder bound (captureDirectChildDependencies roles parentId).1 ∧
      ∀ r ∈ (captureDirectChildDependencies roles parentId).2, r.commitSequence ≤ bound := by
  have key : ∀ (children : List ℕ) (captured : Roles × List ContentUpdateRef), AllInOrder bound captured.1 →
      (∀ r ∈ captured.2, r.commitSequence ≤ bound) → AllInOrder bound (children.foldl freezeNewest captured).1 ∧
        ∀ r ∈ (children.foldl freezeNewest captured).2, r.commitSequence ≤ bound := by
    intro children
    induction children with
    | nil => exact fun captured h hrefs => ⟨h, hrefs⟩
    | cons child children ih =>
      intro captured h hrefs
      obtain ⟨h', hrefs'⟩ := freezeNewest_spec h hrefs child
      exact ih _ h' hrefs'
  exact key _ _ h nofun

theorem mem_dependencies_merge {c newer : CachedSubsurfaceCommit} {r : ContentUpdateRef}
    (hr : r ∈ (c.merge newer).dependencies) : r ∈ c.dependencies ∨ r ∈ newer.dependencies := by
  have key : ∀ (new old : List ContentUpdateRef), r ∈ new.foldl (fun dependencies dependency =>
      if dependency ∈ dependencies then dependencies else dependencies ++ [dependency]) old → r ∈ old ∨ r ∈ new := by
    intro new
    induction new with
    | nil => exact fun old h => .inl h
    | cons d new ih =>
      intro old h
      rcases ih _ h with h | h
      · dsimp only at h
        split_ifs at h
        · exact .inl h
        · rcases List.mem_append.mp h with h | h
          · exact .inl h
          · rw [List.mem_singleton.mp h]
            exact .inr List.mem_cons_self
      · exact .inr (List.mem_cons_of_mem _ h)
  rcases List.mem_append.mp hr with hr | hr
  · exact .inl (List.mem_append_left _ hr)
  · exact (key _ _ hr).imp (List.mem_append_right _) (List.mem_append_right _)

theorem InOrder.queueWith {commit : CachedSubsurfaceCommit}
    (h : InOrder bound role.cachedCommits) (hnumber : commit.commitSequence = bound + 1)
    (hdeps : ∀ r ∈ commit.dependencies, r.commitSequence ≤ bound) :
    InOrder (bound + 1) (SurfaceTransactionState.queueWith role commit) := by
  have hbelow : ∀ r ∈ commit.dependencies, r.commitSequence < commit.commitSequence := fun r hr => by
    rw [hnumber]
    exact Nat.lt_succ_of_le (hdeps r hr)
  unfold SurfaceTransactionState.queueWith
  split
  · rename_i tail _ htail
    have htailIn : tail ∈ role.cachedCommits := List.mem_of_getLast? htail
    refine ((h.sublist (List.dropLast_sublist _)).mono (Nat.le_succ _)).snoc (fun c hc => ?_) hnumber.le fun r hr => ?_
    · change c.commitSequence < commit.commitSequence
      rw [hnumber]
      exact Nat.lt_succ_of_le (h.bounded c (List.dropLast_subset _ hc))
    · change r.commitSequence < commit.commitSequence
      rcases mem_dependencies_merge hr with hr | hr
      · have := h.below tail htailIn r hr
        have := h.bounded tail htailIn
        omega
      · exact hbelow r hr
  · refine (h.mono (Nat.le_succ _)).snoc (fun c hc => ?_) hnumber.le hbelow
    rw [hnumber]
    exact Nat.lt_succ_of_le (h.bounded c hc)

end Order

namespace CommitState
variable {s : CommitState}

structure Sound (s : CommitState) : Prop where
  queues : AllInOrder s.nextSequence s.roles
  received : ∀ surfaceId, s.latestReceived surfaceId ≤ s.nextSequence

theorem sound_start : start.Sound := ⟨fun _ => inOrder_nil, fun _ => le_refl _⟩

theorem captureCommit_spec (h : s.Sound) (surfaceId : ℕ) (content : CommitContent) :
    AllInOrder s.nextSequence (captureCommit s surfaceId content).1 ∧
      ∀ r ∈ (captureCommit s surfaceId content).2.dependencies, r.commitSequence ≤ s.nextSequence := by
  obtain ⟨hroles, hrefs⟩ := captureDirectChildDependencies_spec h.queues surfaceId
  refine ⟨hroles, fun r hr => ?_⟩
  rcases List.mem_append.mp hr with hr | hr
  · simp only [captureCommit] at hr
    split_ifs at hr
    · cases hr
    · rw [Option.toList_some, List.mem_singleton] at hr
      rw [hr]
      exact h.received surfaceId
  · exact hrefs r hr

theorem captureCommit_rootFits (h : s.Sound) (surfaceId : ℕ) (content : CommitContent) :
    RootFits (captureCommit s surfaceId content).1 surfaceId (captureCommit s surfaceId content).2 := by
  obtain ⟨hroles, hdeps⟩ := captureCommit_spec h surfaceId content
  refine ⟨fun r hr => Nat.lt_succ_of_le (hdeps r hr), fun c hc heq => ?_⟩
  have := (hroles surfaceId).bounded c hc
  rw [heq] at this
  exact Nat.not_succ_le_self _ this

theorem Sound.step (h : s.Sound) (event : CommitEvent) : (s.step event).Sound := by
  cases event with
  | register surfaceId role =>
    rw [CommitState.step]
    split_ifs
    · exact h
    · exact ⟨h.queues.insert inOrder_nil, h.received⟩
  | commit surfaceId content synchronized admitted settled =>
    obtain ⟨hroles, hdeps⟩ := captureCommit_spec h surfaceId content
    have hfits := captureCommit_rootFits h surfaceId content
    have hnumber : (captureCommit s surfaceId content).2.commitSequence = s.nextSequence + 1 := rfl
    have hlater : AllInOrder (s.nextSequence + 1) (captureCommit s surfaceId content).1 := fun id =>
      (hroles id).mono (Nat.le_succ _)
    refine ⟨?_, fun id => ?_⟩
    · simp only [CommitState.step]
      generalize captureCommit s surfaceId content = captured at hroles hdeps hfits hnumber hlater
      obtain ⟨roles, commit⟩ := captured
      dsimp only at hroles hdeps hfits hnumber hlater ⊢
      cases synchronized with
      | true =>
        rw [if_pos rfl]
        cases hrole : roles.lookup surfaceId with
        | none => exact hlater
        | some role =>
          dsimp only
          split_ifs
          · refine hlater.insert (InOrder.queueWith ?_ hnumber hdeps)
            rw [← queue_of_lookup hrole]
            exact hroles surfaceId
          · exact hlater
      | false =>
        rw [if_neg Bool.false_ne_true]
        obtain ⟨e, he, hcarries⟩ := extract_carries settled hroles.ordered hfits
        rw [he, Option.map_some, Option.getD_some]
        intro id
        obtain ⟨front, hsplit, -⟩ := hcarries.cache id
        have := hlater id
        rw [← hsplit] at this
        exact this.sublist (List.sublist_append_right _ _)
    · by_cases hid : id = surfaceId
      · subst hid
        simp [CommitState.step]
      · simp only [CommitState.step, Function.update_of_ne hid]
        exact Nat.le_succ_of_le (h.received id)
  | take surfaceId count =>
    exact ⟨h.queues.updateQueue fun commits hc => hc.sublist (List.drop_sublist _ _), h.received⟩
  | detach surfaceId =>
    refine ⟨fun id => ?_, h.received⟩
    simp only [CommitState.step, queue, HashMap.lookup_erase]
    split_ifs
    · exact inOrder_nil
    · exact h.queues id
  | unlink parentId promoted =>
    refine ⟨h.queues.updateQueue fun commits hc => hc.map (fun c => rfl) fun c => ?_, h.received⟩
    exact List.append_subset.mpr ⟨List.subset_append_left _ _,
      List.Subset.trans (List.filter_subset_self _) (List.subset_append_right _ _)⟩

theorem sound_run (events : List CommitEvent) : (run events).Sound := by
  have key : ∀ (events : List CommitEvent) (s : CommitState), s.Sound → (events.foldl CommitState.step s).Sound := by
    intro events
    induction events with
    | nil => exact fun s h => h
    | cons event events ih => exact fun s h => ih _ (h.step event)
  exact key events start sound_start

end CommitState

/-- The commits that are extracted: a client's commit at its arrival, or one that was cached and has left the cache
because its surface is no longer synchronized. -/
inductive IsRoot : ℕ → CachedSubsurfaceCommit → Roles → Prop where
  | client (events : List CommitEvent) (surfaceId : ℕ) (content : CommitContent) :
    IsRoot surfaceId (captureCommit (CommitState.run events) surfaceId content).2
      (captureCommit (CommitState.run events) surfaceId content).1
  | promoted (before after : List CommitEvent) (surfaceId : ℕ) (c : CachedSubsurfaceCommit)
    (hwas : c ∈ queue (CommitState.run before).roles surfaceId)
    (hleft : c ∉ queue (CommitState.run (before ++ after)).roles surfaceId) :
    IsRoot surfaceId c (CommitState.run (before ++ after)).roles

/-- In every forest built by surface commits, an extracted commit carries exactly its synchronized children. -/
theorem commit_carries_children {surfaceId : ℕ} {commit : CachedSubsurfaceCommit} {roles : Roles}
    (hroot : IsRoot surfaceId commit roles) (settled : Settlements) :
    ∃ e, extractContentUpdateCandidate settled roles surfaceId commit = some e ∧
      Carries roles settled surfaceId commit e := by
  cases hroot with
  | client events _ content =>
    have hsound := CommitState.sound_run events
    exact extract_carries settled (CommitState.captureCommit_spec hsound surfaceId content).1.ordered
      (CommitState.captureCommit_rootFits hsound surfaceId content)
  | promoted before after _ _ hwas hleft =>
    refine extract_carries settled (CommitState.sound_run (before ++ after)).queues.ordered ⟨?_, fun c hc heq => ?_⟩
    · exact ((CommitState.sound_run before).queues surfaceId).below commit hwas
    · rw [heq] at hc
      exact hleft hc

def plainContent : CommitContent := ⟨none, [], none, [], ⟨false, false, false, false⟩⟩

def twoChildCommits : List CommitEvent :=
  [.register 2 ⟨1, 1, none, .synchronized, .applied, []⟩,
    .commit 2 { plainContent with pacing := ⟨true, false, false, false⟩ } true true ⟨fun _ => false, fun _ => false⟩,
    .commit 2 plainContent true true ⟨fun _ => false, fun _ => false⟩]

theorem commit_carries_children_two : ∃ e, extractContentUpdateCandidate ⟨fun _ => false, fun _ => false⟩
        (captureCommit (CommitState.run twoChildCommits) 1 plainContent).1 1
        (captureCommit (CommitState.run twoChildCommits) 1 plainContent).2 = some e ∧
      Carries (captureCommit (CommitState.run twoChildCommits) 1 plainContent).1 ⟨fun _ => false, fun _ => false⟩ 1
        (captureCommit (CommitState.run twoChildCommits) 1 plainContent).2 e :=
  commit_carries_children (.client twoChildCommits 1 plainContent) ⟨fun _ => false, fun _ => false⟩

end Typhon.Surfaces
