import Typhon.Foundation.Machine
import Typhon.Timing.CommitTiming

/-! Runs of the commit timing state: every commit that was applied early keeps a claim until its timestamp is due, and
the claims of a frame batch belong to the planner's clock. -/

namespace Typhon.Timing
open Foundation CommitTimingConstraint

theorem commitTimingRequest_spec {nodes : List CommitNode} {node : CommitNode} {timing : CommitTimingConstraint}
    (hnode : node ∈ nodes) (htiming : node.commitTiming = some timing) :
    ∃ requested, commitTimingRequest nodes = some requested ∧ timing.asNanos ≤ requested.asNanos := by
  -- a step that keeps what an earlier node asked for, and asks for what this node does
  have key : ∀ step : Option CommitTimingConstraint → CommitNode → Option CommitTimingConstraint,
      (∀ (l : CommitTimingConstraint) head, timing.asNanos ≤ l.asNanos →
        ∃ r, step (some l) head = some r ∧ timing.asNanos ≤ r.asNanos) →
      (∀ latest, ∃ r, step latest node = some r ∧ timing.asNanos ≤ r.asNanos) →
      ∀ (nodes : List CommitNode) latest, ((∃ l, latest = some l ∧ timing.asNanos ≤ l.asNanos) ∨ node ∈ nodes) →
        ∃ requested, nodes.foldl step latest = some requested ∧ timing.asNanos ≤ requested.asNanos := by
    intro step hkeep htake nodes
    induction nodes with
    | nil =>
      rintro latest (h | h)
      · exact h
      · cases h
    | cons head nodes ih =>
      intro latest h
      rw [List.foldl_cons]
      apply ih
      rcases h with ⟨l, rfl, hl⟩ | h
      · exact .inl (hkeep l head hl)
      rcases List.mem_cons.mp h with rfl | h
      · exact .inl (htake latest)
      · exact .inr h
  refine key _ (fun l head hl => ?_) (fun latest => ?_) nodes none (.inr hnode)
  · cases head.commitTiming with
    | none => exact ⟨l, rfl, hl⟩
    | some requested =>
      by_cases hlater : l.ordered requested = true
      · exact ⟨requested, by simp [hlater], hl.trans ((ordered_iff _ _).mp hlater)⟩
      · exact ⟨l, by simp [hlater], hl⟩
  · rw [htiming]
    cases latest with
    | none => exact ⟨timing, rfl, le_refl _⟩
    | some l =>
      by_cases hlater : l.ordered timing = true
      · exact ⟨timing, by simp [hlater], le_refl _⟩
      · rw [ordered_iff] at hlater
        refine ⟨l, by simp [ordered_iff, hlater], by omega⟩

namespace CompositorState
variable {s s' : CompositorState} {event : TimingEvent}

theorem discardClaims_eq (s : CompositorState) (claims : List CommitTimingTargetClaim) : s.discardClaims claims =
      { s with activeCommitTimingTargets := s.activeCommitTimingTargets.diff claims } := by
  induction claims generalizing s with
  | nil => rfl
  | cons claim claims ih =>
    change (s.discardCommitTimingClaim claim).discardClaims claims = _
    rw [ih, List.diff_cons]
    rfl

def endedBatch (s : CompositorState) : TimingEvent → Option CompositorFrameBatch
  | .discard id | .presented id | .presentedDirect id _ | .noVisualChange id => s.frameBatch id
  | .abandon id => (s.frameBatch id).or (s.retiredFrameBatch id)
  | _ => none

structure Loses (s : CompositorState) (claims : List CommitTimingTargetClaim) (s' : CompositorState) : Prop where
  monotonic : s'.monotonic = s.monotonic
  clock : s'.presentationClock = s.presentationClock
  generation : s'.clockGeneration = s.clockGeneration
  pending : s'.pendingTransactions = s.pendingTransactions
  contents : s'.contents = s.contents
  claims : s'.activeCommitTimingTargets = s.activeCommitTimingTargets.diff claims
  batches : s'.frameBatches ⊆ s.frameBatches
  nextId : s'.nextFrameBatchId = s.nextFrameBatchId

theorem loses_discardClaims (s : CompositorState) (id : ℕ) (claims : List CommitTimingTargetClaim) :
    s.Loses claims ((s.removeFrameBatch id).discardClaims claims) := by
  rw [discardClaims_eq]
  exact ⟨rfl, rfl, rfl, rfl, rfl, rfl, List.filter_subset_self _, rfl⟩

variable {batch : CompositorFrameBatch}

theorem step_ends (h : s.endedBatch event = some batch) :
    s.Loses batch.commitTimingTargetClaims (s.step event) := by
  cases event with
  | discard id =>
    simp only [endedBatch] at h
    have hloses := loses_discardClaims s id batch.commitTimingTargetClaims
    simp only [step, discardFrameBatch, h]
    exact ⟨hloses.monotonic, hloses.clock, hloses.generation, hloses.pending, hloses.contents, hloses.claims,
      hloses.batches, hloses.nextId⟩
  | abandon id =>
    simp only [endedBatch] at h
    simp only [step, completeFrameBatchAfterSafeAbandonment]
    cases hframe : s.frameBatch id with
    | some frame =>
      rw [hframe] at h
      cases h
      exact loses_discardClaims s id batch.commitTimingTargetClaims
    | none =>
      rw [hframe, Option.none_or] at h
      simp only [h, discardClaims_eq]
      exact ⟨rfl, rfl, rfl, rfl, rfl, rfl, List.Subset.refl _, rfl⟩
  | presented id =>
    simp only [endedBatch] at h
    simp only [step, completePresentedFrameBatch, h]
    exact loses_discardClaims s id batch.commitTimingTargetClaims
  | presentedDirect id surfaceId =>
    simp only [endedBatch] at h
    simp only [step, completeDirectPresentedFrameBatch, completeCommitTimingClaim, h, ite_self]
    exact loses_discardClaims s id batch.commitTimingTargetClaims
  | noVisualChange id =>
    simp only [endedBatch] at h
    simp only [step, completeNoVisualChangeFrameBatch, h]
    exact loses_discardClaims s id batch.commitTimingTargetClaims
  | _ => cases h

def Ends : TimingEvent → Prop
  | .discard _ | .abandon _ | .presented _ | .presentedDirect .. | .noVisualChange _ => True
  | _ => False

theorem step_unknown (hends : Ends event) (h : s.endedBatch event = none) : s.step event = s := by
  cases event with
  | discard id => simp only [step, discardFrameBatch, show s.frameBatch id = none from h]
  | abandon id =>
    simp only [endedBatch, Option.or_eq_none_iff] at h
    simp only [step, completeFrameBatchAfterSafeAbandonment, h.1, h.2]
  | presented id => simp only [step, completePresentedFrameBatch, show s.frameBatch id = none from h]
  | presentedDirect id surfaceId =>
    simp only [step, completeDirectPresentedFrameBatch, show s.frameBatch id = none from h]
  | noVisualChange id => simp only [step, completeNoVisualChangeFrameBatch, show s.frameBatch id = none from h]
  | _ => exact hends.elim

variable {readiness : Option CommitTimingReadiness}

theorem setCommitTimingReadiness_pending {id : ℕ} {transaction : PendingSurfaceTreeTransaction}
    (h : transaction ∈ (s.setCommitTimingReadiness id readiness).pendingTransactions) :
    transaction ∈ s.pendingTransactions ∨ transaction.commitTimingReadiness = readiness := by
  obtain ⟨old, hold, rfl⟩ := List.mem_map.mp h
  by_cases hid : old.id = id
  · exact .inr (by rw [if_pos hid])
  · exact .inl (by rw [if_neg hid]; exact hold)

def Planned (s : CompositorState) (pending : List PendingSurfaceTreeTransaction) : Prop :=
  ∀ transaction ∈ pending, transaction ∈ s.pendingTransactions ∨
    ∃ readiness, transaction.commitTimingReadiness = some readiness ∧ readiness.clockGeneration = s.clockGeneration ∧
      readiness.clockMapping.sample.presentationClock = s.presentationClock

theorem planCommitTimingTarget_spec (s : CompositorState) (readable : Bool)
    (id presentationTime releaseAt sequence : ℕ) :
    ∃ pending, s.planCommitTimingTarget readable id presentationTime releaseAt sequence =
        { s with pendingTransactions := pending } ∧ s.Planned pending := by
  have same : ∃ pending, s = { s with pendingTransactions := pending } ∧ s.Planned pending :=
    ⟨s.pendingTransactions, rfl, fun _ h => .inl h⟩
  have armed : ∀ readiness : CommitTimingReadiness, readiness.clockGeneration = s.clockGeneration →
      ∃ pending, s.armCommitTimingTarget readiness = { s with pendingTransactions := pending } ∧ s.Planned pending := by
    intro readiness hgeneration
    unfold armCommitTimingTarget
    split
    · exact same
    · rename_i hclock
      split
      · exact same
      · split
        · exact same
        · split
          · exact same
          · refine ⟨_, rfl, fun transaction h => ?_⟩
            refine (setCommitTimingReadiness_pending h).imp_right fun hreadiness =>
              ⟨readiness, hreadiness, hgeneration, ?_⟩
            by_contra hother
            exact hclock (.inl hother)
  unfold planCommitTimingTarget
  split
  · split
    · dsimp only
      split
      · exact armed _ rfl
      · exact same
    · exact same
  · exact same

def Covered (now : ℕ) (claims : List CommitTimingTargetClaim) (content : SurfaceContent) : Prop :=
  ∀ requested, content.commitTiming = some requested → content.dueWhenApplied = false →
    requested.asNanos ≤ now ∨ ∃ claim ∈ claims, claim.surfaceId = content.surfaceId ∧
      claim.commitSequence = content.commitSequence ∧
      requested.asNanos ≤ claim.readiness.requestedNotBefore.asNanos

theorem Covered.mono {now now' : ℕ} {claims claims' : List CommitTimingTargetClaim} {content : SurfaceContent}
    (h : Covered now claims content) (hnow : now ≤ now')
    (hclaims : ∀ claim ∈ claims, claim.surfaceId = content.surfaceId → claim ∈ claims') :
    Covered now' claims' content := by
  intro requested htiming hearly
  rcases h requested htiming hearly with hdue | ⟨claim, hclaim, hsurface, hrest⟩
  · exact .inl (hdue.trans hnow)
  · exact .inr ⟨claim, hclaims claim hclaim hsurface, hsurface, hrest⟩

structure Guarded (s : CompositorState) : Prop where
  clock : s.presentationClock = .monotonic
  surfaces : ∀ content ∈ s.contents, Covered s.monotonic s.activeCommitTimingTargets content
  batches : ∀ batch ∈ s.frameBatches, ∀ content ∈ batch.contents,
    Covered s.monotonic batch.commitTimingTargetClaims content

theorem guarded_start : (start .monotonic).Guarded where
  clock := rfl
  surfaces content h := by cases h
  batches batch h := by cases h

theorem Guarded.congr (h : s.Guarded) (hclock : s'.presentationClock = s.presentationClock)
    (hmonotonic : s'.monotonic = s.monotonic) (hcontents : s'.contents = s.contents)
    (hclaims : s'.activeCommitTimingTargets = s.activeCommitTimingTargets)
    (hbatches : s'.frameBatches ⊆ s.frameBatches) : s'.Guarded := by
  constructor
  · rw [hclock]
    exact h.clock
  · rw [hmonotonic, hcontents, hclaims]
    exact h.surfaces
  · rw [hmonotonic]
    exact fun batch hbatch => h.batches batch (hbatches hbatch)

theorem Guarded.loses {claims : List CommitTimingTargetClaim} (h : s.Guarded) (hloses : s.Loses claims s')
    (hdue : ∀ claim ∈ claims, (∃ content ∈ s.contents, content.surfaceId = claim.surfaceId ∧
      content.commitSequence = claim.commitSequence) → claim.readiness.requestedNotBefore.isDueAt s.now = true) :
    s'.Guarded where
  clock := hloses.clock.trans h.clock
  surfaces := by
    intro content hcontent requested htiming hearly
    rw [hloses.contents] at hcontent
    rw [hloses.monotonic, hloses.claims]
    rcases h.surfaces content hcontent requested htiming hearly with hnow | ⟨claim, hclaim, hsurface, hsequence, hle⟩
    · exact .inl hnow
    · by_cases hgone : claim ∈ claims
      · have hclaimDue := hdue claim hgone ⟨content, hcontent, hsurface.symm, hsequence.symm⟩
        rw [isDueAt_iff, now, h.clock, fromClock, PresentationTimestamp.asNanos_ofNanos]
          at hclaimDue
        exact .inl (hle.trans hclaimDue)
      · exact .inr ⟨claim, List.mem_diff_of_mem hclaim hgone, hsurface, hsequence, hle⟩
  batches := by
    rw [hloses.monotonic]
    exact fun batch hbatch => h.batches batch (hloses.batches hbatch)

theorem Guarded.capture (h : s.Guarded) (surfaceIds : List ℕ) : (s.takeFrameBatchForRender surfaceIds).Guarded := by
  unfold takeFrameBatchForRender
  split
  · refine ⟨h.clock, h.surfaces, fun batch hbatch => ?_⟩
    rcases List.mem_append.mp hbatch with hold | hnew
    · exact h.batches batch hold
    · rw [List.mem_singleton] at hnew
      subst hnew
      intro content hcontent
      obtain ⟨surfaceId, hsurfaceId, hshown⟩ := List.mem_flatMap.mp hcontent
      obtain ⟨hshown, hon⟩ := List.mem_filter.mp hshown
      refine (h.surfaces content hshown).mono (le_refl _) fun claim hclaim hsurface => ?_
      refine List.mem_flatMap.mpr ⟨surfaceId, hsurfaceId, List.mem_filter.mpr ⟨hclaim, ?_⟩⟩
      rw [hsurface]
      exact hon
  · exact h

theorem Guarded.teardown (h : s.Guarded) (surfaceId : ℕ) : (s.teardownSurface surfaceId).Guarded := by
  refine ⟨h.clock, fun content hcontent => ?_, h.batches⟩
  obtain ⟨hcontent, hother⟩ := List.mem_filter.mp hcontent
  refine (h.surfaces content hcontent).mono (le_refl _) fun claim hclaim hsurface => ?_
  refine List.mem_filter.mpr ⟨hclaim, ?_⟩
  rw [hsurface]
  exact hother

theorem Guarded.applyNode {node : CommitNode} (h : s.Guarded)
    (hready : ∀ timing, node.commitTiming = some timing → s.monotonic < timing.asNanos →
      ∃ r, readiness = some r ∧ timing.asNanos ≤ r.requestedNotBefore.asNanos) :
    (s.applyNode readiness node).Guarded := by
  refine ⟨h.clock, fun content hcontent => ?_, h.batches⟩
  rcases List.mem_append.mp hcontent with hold | hnew
  · have hshown : content ∈ s.contents := by
      by_cases hattachment : node.attachment = true
      · rw [if_pos hattachment] at hold
        exact List.mem_of_mem_filter hold
      · rw [if_neg hattachment] at hold
        exact hold
    exact (h.surfaces content hshown).mono (le_refl _) fun claim hclaim _ => List.mem_append_left _ hclaim
  · rw [List.mem_singleton] at hnew
    subst hnew
    intro timing htiming hearly
    dsimp only at htiming hearly
    rw [htiming, Option.all_some, ← Bool.not_eq_true, isDueAt_iff, now, h.clock, fromClock,
      PresentationTimestamp.asNanos_ofNanos, Nat.not_le] at hearly
    obtain ⟨r, rfl, hle⟩ := hready timing htiming hearly
    refine .inr ⟨⟨node.surfaceId, s.presentationGenerations node.surfaceId, node.commitSequence, r⟩, ?_, rfl, rfl, hle⟩
    refine List.mem_append_right _ ?_
    rw [htiming]
    exact List.mem_singleton_self _

theorem Guarded.applyNodes {nodes : List CommitNode} (h : s.Guarded)
    (hready : ∀ node ∈ nodes, ∀ timing, node.commitTiming = some timing → s.monotonic < timing.asNanos →
      ∃ r, readiness = some r ∧ timing.asNanos ≤ r.requestedNotBefore.asNanos) :
    (nodes.foldl (fun s node => s.applyNode readiness node) s).Guarded := by
  induction nodes generalizing s with
  | nil => exact h
  | cons node nodes ih =>
    exact ih (h.applyNode (hready node List.mem_cons_self))
      fun other hother => hready other (List.mem_cons_of_mem _ hother)

theorem transactionIsReady_spec {readable partsReady : Bool} {transaction : PendingSurfaceTreeTransaction}
    {requested : CommitTimingConstraint} (hready : s.transactionIsReady readable partsReady transaction = true)
    (hrequest : commitTimingRequest transaction.nodes = some requested) : requested.isDueAt s.now = true ∨
      ∃ r, transaction.commitTimingReadiness = some r ∧ r.requestedNotBefore = requested := by
  simp only [transactionIsReady, hrequest] at hready
  split_ifs at hready with hmismatch hwaiting
  cases hreadiness : transaction.commitTimingReadiness with
  | none =>
    left
    simp only [hreadiness, Option.any_none, Bool.not_false, Bool.and_true, Bool.not_eq_true', Bool.not_eq_false,
      isDue, Bool.and_eq_true] at hwaiting
    exact hwaiting.2
  | some r =>
    right
    simp only [hreadiness, Option.any_some, decide_eq_true_eq, not_or, not_not] at hmismatch
    exact ⟨r, rfl, hmismatch.2⟩

theorem Guarded.publish (h : s.Guarded) (readable partsReady : Bool) (id : ℕ) :
    (s.publishTransaction readable partsReady id).Guarded := by
  unfold publishTransaction
  split
  · exact h
  · rename_i transaction _
    split
    · rename_i hpublished
      rw [Bool.and_eq_true] at hpublished
      have hwithdrawn : (s.withdrawTransaction id).Guarded :=
        h.congr rfl rfl rfl rfl (List.Subset.refl _)
      refine hwithdrawn.applyNodes fun node hnode timing htiming hearly => ?_
      change s.monotonic < timing.asNanos at hearly
      obtain ⟨requested, hrequest, hle⟩ := commitTimingRequest_spec hnode htiming
      rcases transactionIsReady_spec hpublished.2 hrequest with hdue | ⟨r, hr, hrequested⟩
      · rw [isDueAt_iff, now, h.clock, fromClock, PresentationTimestamp.asNanos_ofNanos] at hdue
        omega
      · exact ⟨r, hr, by rw [hrequested]; exact hle⟩
    · exact h

def MonotonicClock : TimingEvent → Prop
  | .setClock clock => clock = .monotonic
  | _ => True

/-- A batch ends only when each of its claims is due, or is on a commit that its surface no longer shows. -/
def EndsDue (s : CompositorState) (event : TimingEvent) : Prop :=
  ∀ batch, s.endedBatch event = some batch → ∀ claim ∈ batch.commitTimingTargetClaims,
    (∃ content ∈ s.contents, content.surfaceId = claim.surfaceId ∧ content.commitSequence = claim.commitSequence) →
      claim.readiness.requestedNotBefore.isDueAt s.now = true

instance (event : TimingEvent) : Decidable (MonotonicClock event) :=
  match event with
  | .setClock clock => inferInstanceAs (Decidable (clock = .monotonic))
  | .advance .. | .renew .. | .submit .. | .withdraw _ | .plan .. | .publish .. | .invalidatePending | .rearm
  | .teardown _ | .capture _ | .restore _ | .discard _ | .abandon _ | .presented _ | .presentedDirect .. |
    .noVisualChange _ => .isTrue trivial

instance (s : CompositorState) (event : TimingEvent) : Decidable (s.EndsDue event) :=
  match h : s.endedBatch event with
  | none => .isTrue fun batch hbatch => by rw [h] at hbatch; cases hbatch
  | some batch =>
    decidable_of_iff (∀ claim ∈ batch.commitTimingTargetClaims,
      (∃ content ∈ s.contents, content.surfaceId = claim.surfaceId ∧
        content.commitSequence = claim.commitSequence) →
        claim.readiness.requestedNotBefore.isDueAt s.now = true)
      ⟨fun hall batch' hbatch' => by rw [h] at hbatch'; cases hbatch'; exact hall, fun hall => hall batch h⟩

theorem Guarded.step (h : s.Guarded) (hclock : MonotonicClock event) (hdue : s.EndsDue event) :
    (s.step event).Guarded := by
  have hend : Ends event → (s.step event).Guarded := by
    intro hevent
    cases hbatch : s.endedBatch event with
    | none =>
      rw [step_unknown hevent hbatch]
      exact h
    | some batch => exact h.loses (step_ends hbatch) (hdue batch hbatch)
  have hquiet : ∀ s' : CompositorState, s'.presentationClock = s.presentationClock → s'.monotonic = s.monotonic →
      s'.contents = s.contents → s'.activeCommitTimingTargets = s.activeCommitTimingTargets →
      s'.frameBatches = s.frameBatches → s'.Guarded := fun s' h₁ h₂ h₃ h₄ h₅ =>
    h.congr h₁ h₂ h₃ h₄ (by rw [h₅]; exact List.Subset.refl _)
  cases event with
  | advance elapsed realtime =>
    exact ⟨h.clock, fun content hcontent => (h.surfaces content hcontent).mono (Nat.le_add_right _ _) fun _ hc _ => hc,
      fun batch hbatch content hcontent =>
        (h.batches batch hbatch content hcontent).mono (Nat.le_add_right _ _) fun _ hc _ => hc⟩
  | renew surfaceId generation => exact hquiet _ rfl rfl rfl rfl rfl
  | submit rootSurfaceId nodes => exact hquiet _ rfl rfl rfl rfl rfl
  | withdraw id => exact hquiet _ rfl rfl rfl rfl rfl
  | plan readable id presentationTime releaseAt sequence =>
    obtain ⟨pending, hplan, -⟩ := planCommitTimingTarget_spec s readable id presentationTime releaseAt sequence
    simp only [CompositorState.step, hplan]
    exact hquiet _ rfl rfl rfl rfl rfl
  | publish readable partsReady id => exact h.publish readable partsReady id
  | invalidatePending => exact hquiet _ rfl rfl rfl rfl rfl
  | rearm => exact hquiet _ rfl rfl rfl rfl rfl
  | setClock clock =>
    have hsame : s.presentationClock = clock := h.clock.trans hclock.symm
    simp only [CompositorState.step, setPresentationClock, hsame, ne_eq, not_true_eq_false, if_false]
    exact h
  | teardown surfaceId => exact h.teardown surfaceId
  | capture surfaceIds => exact h.capture surfaceIds
  | restore id => exact h.congr rfl rfl rfl rfl (List.filter_subset_self _)
  | discard id => exact hend trivial
  | abandon id => exact hend trivial
  | presented id => exact hend trivial
  | presentedDirect id surfaceId => exact hend trivial
  | noVisualChange id => exact hend trivial

theorem claim_of_safe {readable : Bool} {id planned generation : ℕ}
    {claim : CommitTimingTargetClaim} (hclock : s.presentationClock = .monotonic)
    (hbatch : s.frameBatch id = some batch)
    (hsafe : s.commitTimingSubmissionIsSafeForBatch readable id planned generation = true)
    (hclaim : claim ∈ batch.commitTimingTargetClaims) :
    claim.readiness.requestedNotBefore.asNanos ≤ max planned s.monotonic := by
  simp only [commitTimingSubmissionIsSafeForBatch, hbatch] at hsafe
  have hnonempty : batch.commitTimingTargetClaims.isEmpty = false := by
    cases hclaims : batch.commitTimingTargetClaims with
    | nil => rw [hclaims] at hclaim; cases hclaim
    | cons => rfl
  rw [hnonempty] at hsafe
  cases readable with
  | false => simp [currentCommitTimingClockSample] at hsafe
  | true =>
    simp only [currentCommitTimingClockSample, Bool.false_eq_true, if_true, if_false, List.all_eq_true] at hsafe
    have hthis := hsafe claim hclaim
    rw [schedulerDeadline_monotonic _ hclock] at hthis
    split_ifs at hthis
    simp only [fromClock, PresentationTimestamp.asNanos_ofNanos, Bool.and_eq_true, decide_eq_true_eq] at hthis
    omega

/-- Whenever a batch may be submitted on the monotonic clock, every commit it shows that was applied early asks for no
later time than the effective one, in every run in which batches end only when their claims are due. -/
theorem timed_commit_not_early {events : List TimingEvent}
    (hrun : Along CompositorState.step (fun s event => MonotonicClock event ∧ s.EndsDue event) events
      (start .monotonic))
    (hs : s = events.foldl CompositorState.step (start .monotonic)) {readable : Bool} {id planned generation : ℕ}
    {batch : CompositorFrameBatch} (hbatch : s.frameBatch id = some batch)
    (hsafe : s.commitTimingSubmissionIsSafeForBatch readable id planned generation = true) :
    ∀ content ∈ batch.contents, ∀ requested, content.commitTiming = some requested →
      content.dueWhenApplied = false → requested.asNanos ≤ max planned s.monotonic := by
  have hguarded : s.Guarded := by
    rw [hs]
    exact hrun.invariant Guarded (fun s event h hallowed => h.step hallowed.1 hallowed.2) guarded_start
  intro content hcontent requested htiming hearly
  have hmem : batch ∈ s.frameBatches := List.mem_of_find?_eq_some hbatch
  rcases hguarded.batches batch hmem content hcontent requested htiming hearly with
    hnow | ⟨claim, hclaim, -, -, hle⟩
  · exact hnow.trans (le_max_right _ _)
  · exact hle.trans (claim_of_safe hguarded.clock hbatch hsafe hclaim)

def appliedEarly : List TimingEvent :=
  [.submit 1 [⟨1, 1, true, some ⟨1, 0, by decide⟩⟩], .plan true 1 1000000000 984000000 60, .advance 984000000 0,
    .publish true true 1, .capture [1]]

def presentedWhenDue : List TimingEvent := appliedEarly ++ [.advance 16000000 0, .presented 1, .capture [1]]

theorem timed_commit_not_early_presentedWhenDue :
    (presentedWhenDue.foldl CompositorState.step (start .monotonic)).commitTimingSubmissionIsSafeForBatch
        true 2 0 1 = true ∧
    ∀ content ∈ (((presentedWhenDue.foldl CompositorState.step (start .monotonic)).frameBatch 2).get
        (by decide +kernel)).contents,
      ∀ requested, content.commitTiming = some requested → content.dueWhenApplied = false →
        requested.asNanos ≤ max 0 (presentedWhenDue.foldl CompositorState.step (start .monotonic)).monotonic := by
  have hsafe : (presentedWhenDue.foldl CompositorState.step
      (start .monotonic)).commitTimingSubmissionIsSafeForBatch true 2 0 1 = true := by decide +kernel
  exact ⟨hsafe, timed_commit_not_early (by decide +kernel) rfl (Option.some_get _).symm hsafe⟩

def discardedEarly : List TimingEvent := appliedEarly ++ [.discard 1, .capture [1]]

/-- The frame is discarded before it is shown: the next frame shows the same commit without its claim and may be
submitted for the refresh before the requested one. -/
theorem timed_commit_early_after_discard : let s := discardedEarly.foldl CompositorState.step (start .monotonic)
    s.commitTimingSubmissionIsSafeForBatch true 2 984000000 1 = true ∧ s.monotonic = 984000000 ∧
      ∃ batch, s.frameBatch 2 = some batch ∧ ∃ content ∈ batch.contents,
        content.commitTiming = some ⟨1, 0, by decide⟩ ∧ content.dueWhenApplied = false := by
  refine ⟨by decide +kernel, by decide +kernel, _, (Option.some_get (by decide +kernel)).symm, ?_⟩
  decide +kernel

def Current (s : CompositorState) (readiness : CommitTimingReadiness) : Prop :=
  readiness.clockGeneration = s.clockGeneration ∧
    readiness.clockMapping.sample.presentationClock = s.presentationClock

structure Passed (s : CompositorState) (batch : CompositorFrameBatch) : Prop where
  bound : s.monotonic ≤ U64.top
  selected : ∀ claim ∈ batch.commitTimingTargetClaims,
    claim.readiness.selectedMonotonicPresentationTime ≤ s.monotonic
  due : ∀ claim ∈ batch.commitTimingTargetClaims, claim.readiness.requestedNotBefore.isDueAt s.now = true

theorem safe_of_current {id : ℕ} (hbatch : s.frameBatch id = some batch)
    (hcurrent : ∀ claim ∈ batch.commitTimingTargetClaims, s.Current claim.readiness) (hpassed : s.Passed batch)
    (planned : ℕ) : s.commitTimingSubmissionIsSafeForBatch true id planned s.clockGeneration = true := by
  simp only [commitTimingSubmissionIsSafeForBatch, hbatch]
  split
  · rfl
  · simp only [currentCommitTimingClockSample, if_true, List.all_eq_true]
    intro claim hclaim
    have hmonotonic : (s.fromClock .monotonic).asNanos = s.monotonic := PresentationTimestamp.asNanos_ofNanos _
    have hselected := hpassed.selected claim hclaim
    obtain ⟨hgeneration, hclock⟩ := hcurrent claim hclaim
    have hbound := hpassed.bound
    have heffective : s.monotonic ≤ max planned (min s.monotonic U64.top) := by omega
    rw [hmonotonic, if_neg (by simp only [hgeneration, hclock, ne_eq, not_true_eq_false, false_or]; omega)]
    have hnow : s.presentationClock = .monotonic → s.now = s.fromClock .monotonic := fun h => by rw [now, h]
    obtain ⟨hrepresentable, hdeadline⟩ := schedulerDeadline_of_due
      claim.readiness.requestedNotBefore
      ⟨s.fromClock .monotonic, s.fromClock .monotonic, s.now, s.presentationClock⟩
      (by rw [hmonotonic]; exact hbound) hnow (hpassed.due claim hclaim)
    rw [hrepresentable, Bool.true_and, decide_eq_true_eq]
    exact hdeadline.trans (hmonotonic.le.trans heffective)

end CompositorState

structure Session where
  state : CompositorState
  freshFrom : ℕ

namespace Session

def invalidates (s : CompositorState) : TimingEvent → Bool
  | .rearm => true
  | .setClock clock => decide (s.presentationClock ≠ clock)
  | _ => false

def step (t : Session) (event : TimingEvent) : Session where
  state := t.state.step event
  freshFrom := if invalidates t.state event then t.state.nextFrameBatchId else t.freshFrom

def start (clock : PresentationClock) : Session := ⟨.start clock, 0⟩

def Unclaimed (t : Session) (event : TimingEvent) : Prop :=
  invalidates t.state event = true → t.state.activeCommitTimingTargets = []

instance (t : Session) (event : TimingEvent) : Decidable (t.Unclaimed event) :=
  inferInstanceAs (Decidable (_ → _))

end Session

namespace CompositorState
variable {s s' : CompositorState} {event : TimingEvent} {freshFrom : ℕ}

structure InSync (s : CompositorState) (freshFrom : ℕ) : Prop where
  pending : ∀ transaction ∈ s.pendingTransactions, ∀ readiness,
    transaction.commitTimingReadiness = some readiness → s.Current readiness
  claims : ∀ claim ∈ s.activeCommitTimingTargets, s.Current claim.readiness
  batches : ∀ batch ∈ s.frameBatches, freshFrom < batch.id → ∀ claim ∈ batch.commitTimingTargetClaims,
    s.Current claim.readiness
  ids : ∀ batch ∈ s.frameBatches, batch.id ≤ s.nextFrameBatchId

theorem inSync_start (clock : PresentationClock) : (start clock).InSync 0 where
  pending transaction h := by cases h
  claims claim h := by cases h
  batches batch h := by cases h
  ids batch h := by cases h

theorem current_congr (hclock : s'.presentationClock = s.presentationClock)
    (hgeneration : s'.clockGeneration = s.clockGeneration) {readiness : CommitTimingReadiness} :
    s'.Current readiness ↔ s.Current readiness := by
  rw [Current, Current, hclock, hgeneration]

theorem InSync.drop (h : s.InSync freshFrom) (hclock : s'.presentationClock = s.presentationClock)
    (hgeneration : s'.clockGeneration = s.clockGeneration)
    (hpending : ∀ transaction ∈ s'.pendingTransactions, transaction ∈ s.pendingTransactions ∨
      ∀ readiness, transaction.commitTimingReadiness = some readiness → s.Current readiness)
    (hclaims : s'.activeCommitTimingTargets ⊆ s.activeCommitTimingTargets)
    (hbatches : s'.frameBatches ⊆ s.frameBatches) (hids : s'.nextFrameBatchId = s.nextFrameBatchId) :
    s'.InSync freshFrom where
  pending transaction htransaction readiness hreadiness := by
    rw [current_congr hclock hgeneration]
    rcases hpending transaction htransaction with hold | hnew
    · exact h.pending transaction hold readiness hreadiness
    · exact hnew readiness hreadiness
  claims claim hclaim := (current_congr hclock hgeneration).mpr (h.claims claim (hclaims hclaim))
  batches batch hbatch hfresh claim hclaim :=
    (current_congr hclock hgeneration).mpr (h.batches batch (hbatches hbatch) hfresh claim hclaim)
  ids batch hbatch := by
    rw [hids]
    exact h.ids batch (hbatches hbatch)

theorem InSync.capture (h : s.InSync freshFrom) (surfaceIds : List ℕ) :
    (s.takeFrameBatchForRender surfaceIds).InSync freshFrom := by
  unfold takeFrameBatchForRender
  split
  · refine ⟨h.pending, h.claims, fun batch hbatch => ?_, fun batch hbatch => ?_⟩ <;>
      rcases List.mem_append.mp hbatch with hold | hnew
    · exact h.batches batch hold
    · rw [List.mem_singleton] at hnew
      subst hnew
      intro _ claim hclaim
      obtain ⟨surfaceId, -, hclaim⟩ := List.mem_flatMap.mp hclaim
      exact h.claims claim (List.mem_of_mem_filter hclaim)
    · exact Nat.le_succ_of_le (h.ids batch hold)
    · rw [List.mem_singleton] at hnew
      subst hnew
      exact le_refl _
  · exact h

theorem InSync.applyNodes {readiness : Option CommitTimingReadiness} {nodes : List CommitNode}
    (h : s.InSync freshFrom) (hcurrent : ∀ r, readiness = some r → s.Current r) :
    (nodes.foldl (fun s node => s.applyNode readiness node) s).InSync freshFrom := by
  induction nodes generalizing s with
  | nil => exact h
  | cons node nodes ih =>
    refine ih ⟨h.pending, fun claim hclaim => ?_, h.batches, h.ids⟩ hcurrent
    rcases List.mem_append.mp hclaim with hold | hnew
    · exact h.claims claim hold
    · split at hnew
      · rw [List.mem_singleton] at hnew
        subst hnew
        exact hcurrent _ rfl
      · cases hnew

theorem InSync.publish (h : s.InSync freshFrom) (readable partsReady : Bool) (id : ℕ) :
    (s.publishTransaction readable partsReady id).InSync freshFrom := by
  unfold publishTransaction
  split
  · exact h
  · rename_i transaction hfound
    split
    · have hwithdrawn : (s.withdrawTransaction id).InSync freshFrom :=
        h.drop rfl rfl (fun _ ht => .inl (List.mem_of_mem_filter ht)) (List.Subset.refl _) (List.Subset.refl _) rfl
      exact hwithdrawn.applyNodes (h.pending transaction (List.mem_of_find?_eq_some hfound))
    · exact h

theorem InSync.invalidate (h : s.InSync freshFrom) (hclaims : s.activeCommitTimingTargets = [])
    (hpending : s'.pendingTransactions = s.invalidatePendingCommitTimingTargets.pendingTransactions)
    (hactive : s'.activeCommitTimingTargets = s.activeCommitTimingTargets)
    (hbatches : s'.frameBatches = s.frameBatches) (hids : s'.nextFrameBatchId = s.nextFrameBatchId) :
    s'.InSync s.nextFrameBatchId where
  pending transaction htransaction readiness hreadiness := by
    rw [hpending] at htransaction
    obtain ⟨old, -, rfl⟩ := List.mem_map.mp htransaction
    cases hreadiness
  claims claim hclaim := by
    rw [hactive, hclaims] at hclaim
    cases hclaim
  batches batch hbatch hfresh := by
    rw [hbatches] at hbatch
    exact absurd (h.ids batch hbatch) (Nat.not_le.mpr hfresh)
  ids batch hbatch := by
    rw [hids]
    rw [hbatches] at hbatch
    exact h.ids batch hbatch

end CompositorState

namespace Session
variable {t : Session} {event : TimingEvent}
open CompositorState

theorem inSync_step (h : t.state.InSync t.freshFrom) (hunclaimed : t.Unclaimed event) :
    (t.step event).state.InSync (t.step event).freshFrom := by
  obtain ⟨s, freshFrom⟩ := t
  dsimp only at h
  have hend : invalidates s event = false → Ends event →
        (step ⟨s, freshFrom⟩ event).state.InSync (step ⟨s, freshFrom⟩ event).freshFrom := by
    intro hquiet hevent
    simp only [step, hquiet, Bool.false_eq_true, if_false]
    cases hbatch : s.endedBatch event with
    | none =>
      rw [step_unknown hevent hbatch]
      exact h
    | some batch =>
      have hloses := step_ends hbatch
      refine h.drop hloses.clock hloses.generation (fun _ ht => .inl (hloses.pending ▸ ht)) ?_ hloses.batches
        hloses.nextId
      rw [hloses.claims]
      exact List.diff_subset _ _
  -- an event that only drops what is held keeps the rest in sync
  have hkept : ∀ s' : CompositorState, s'.presentationClock = s.presentationClock →
      s'.clockGeneration = s.clockGeneration → s'.pendingTransactions ⊆ s.pendingTransactions →
      s'.activeCommitTimingTargets ⊆ s.activeCommitTimingTargets → s'.frameBatches ⊆ s.frameBatches →
      s'.nextFrameBatchId = s.nextFrameBatchId → s'.InSync freshFrom := fun s' h₁ h₂ h₃ h₄ h₅ h₆ =>
    h.drop h₁ h₂ (fun _ ht => .inl (h₃ ht)) h₄ h₅ h₆
  cases event with
  | advance elapsed realtime =>
    exact hkept _ rfl rfl (List.Subset.refl _) (List.Subset.refl _) (List.Subset.refl _) rfl
  | renew surfaceId generation =>
    exact hkept _ rfl rfl (List.Subset.refl _) (List.Subset.refl _) (List.Subset.refl _) rfl
  | submit rootSurfaceId nodes =>
    refine h.drop rfl rfl (fun transaction ht => ?_) (List.Subset.refl _) (List.Subset.refl _) rfl
    refine (List.mem_append.mp ht).imp_right fun hnew readiness hreadiness => ?_
    rw [List.mem_singleton] at hnew
    subst hnew
    cases hreadiness
  | withdraw id =>
    exact hkept _ rfl rfl (List.filter_subset_self _) (List.Subset.refl _) (List.Subset.refl _) rfl
  | plan readable id presentationTime releaseAt sequence =>
    obtain ⟨pending, hplan, harmed⟩ := planCommitTimingTarget_spec s readable id presentationTime releaseAt sequence
    simp only [step, CompositorState.step, invalidates, hplan, Bool.false_eq_true, if_false]
    refine h.drop rfl rfl (fun transaction ht => ?_) (List.Subset.refl _) (List.Subset.refl _) rfl
    refine (harmed transaction ht).imp_right fun ⟨armed, harmed, hcurrent⟩ readiness hreadiness => ?_
    rw [harmed] at hreadiness
    cases hreadiness
    exact hcurrent
  | publish readable partsReady id => exact h.publish readable partsReady id
  | invalidatePending =>
    refine h.drop rfl rfl (fun transaction ht => .inr fun readiness hreadiness => ?_) (List.Subset.refl _)
      (List.Subset.refl _) rfl
    obtain ⟨old, -, rfl⟩ := List.mem_map.mp ht
    cases hreadiness
  | rearm => exact h.invalidate (hunclaimed rfl) rfl rfl rfl rfl
  | setClock clock =>
    by_cases hsame : s.presentationClock = clock
    · simp only [step, invalidates, CompositorState.step, setPresentationClock, hsame, ne_eq, not_true_eq_false,
        decide_false, Bool.false_eq_true, if_false]
      exact h
    · have hchanges : invalidates s (.setClock clock) = true := decide_eq_true hsame
      simp only [step, hchanges, if_true, CompositorState.step, setPresentationClock, ne_eq, hsame, not_false_eq_true]
      exact h.invalidate (hunclaimed hchanges) rfl rfl rfl rfl
  | teardown surfaceId =>
    exact hkept _ rfl rfl (List.Subset.refl _) (List.filter_subset_self _) (List.Subset.refl _) rfl
  | capture surfaceIds => exact h.capture surfaceIds
  | restore id => exact hkept _ rfl rfl (List.Subset.refl _) (List.Subset.refl _) (List.filter_subset_self _) rfl
  | discard id => exact hend rfl trivial
  | abandon id => exact hend rfl trivial
  | presented id => exact hend rfl trivial
  | presentedDirect id surfaceId => exact hend rfl trivial
  | noVisualChange id => exact hend rfl trivial

/-- Every batch captured after the latest invalidation carries only claims of the planner's clock, and it may be
submitted once all its times have passed, in every run that invalidates the clock only while no claim waits. -/
theorem timing_never_blocks {clock : PresentationClock} {events : List TimingEvent}
    (hrun : Along step Unclaimed events (start clock)) (ht : t = events.foldl step (start clock)) {id : ℕ}
    {batch : CompositorFrameBatch} (hbatch : t.state.frameBatch id = some batch) (hfresh : t.freshFrom < id) :
    (∀ claim ∈ batch.commitTimingTargetClaims, t.state.Current claim.readiness) ∧ ∀ planned, t.state.Passed batch →
        t.state.commitTimingSubmissionIsSafeForBatch true id planned t.state.clockGeneration = true := by
  have hsync : t.state.InSync t.freshFrom := by
    rw [ht]
    exact hrun.invariant (fun t => t.state.InSync t.freshFrom) (fun t event h hallowed => inSync_step h hallowed)
      (inSync_start clock)
  have hid : batch.id = id := by simpa using List.find?_some hbatch
  have hcurrent := hsync.batches batch (List.mem_of_find?_eq_some hbatch) (hid ▸ hfresh)
  exact ⟨hcurrent, fun planned hpassed => safe_of_current hbatch hcurrent hpassed planned⟩

def resumedBefore : List TimingEvent :=
  [.submit 1 [⟨1, 1, true, some ⟨1, 0, by decide⟩⟩], .plan true 1 1000000000 984000000 60, .rearm,
    .plan true 1 1000000000 984000000 60, .advance 984000000 0, .publish true true 1, .capture [1]]

theorem timing_never_blocks_resumedBefore :
    ((resumedBefore.foldl step (start .monotonic)).state.frameBatch 1).isSome = true ∧
    ∀ claim ∈ (((resumedBefore.foldl step (start .monotonic)).state.frameBatch 1).get
        (by decide +kernel)).commitTimingTargetClaims,
      (resumedBefore.foldl step (start .monotonic)).state.Current claim.readiness :=
  ⟨by decide +kernel,
    (timing_never_blocks (by decide +kernel) rfl (Option.some_get _).symm (by decide +kernel)).1⟩

def resumedAfter : List TimingEvent :=
  CompositorState.appliedEarly ++ [.restore 1, .rearm, .capture [1], .advance 60000000000 0]

/-- The session is resumed after the commit was applied: its claim keeps the old clock generation, and a minute later
the batch that shows the commit may still not be submitted. -/
theorem timing_blocks_after_resume : let t := resumedAfter.foldl step (start .monotonic)
    t.freshFrom < 2 ∧ ∃ batch, t.state.frameBatch 2 = some batch ∧
      (∀ claim ∈ batch.commitTimingTargetClaims,
        claim.readiness.selectedMonotonicPresentationTime ≤ t.state.monotonic ∧
          claim.readiness.requestedNotBefore.isDueAt t.state.now = true) ∧
      t.state.commitTimingSubmissionIsSafeForBatch true 2 t.state.monotonic t.state.clockGeneration = false := by
  refine ⟨by decide +kernel, _, (Option.some_get (by decide +kernel)).symm, by decide +kernel, by decide +kernel⟩

end Session
end Typhon.Timing
