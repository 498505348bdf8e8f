import Mathlib.Data.List.Basic
import Mathlib.Order.Lattice
import Mathlib.Order.Nat
import Typhon.Foundation.Word64

/-! Commit timing: a client asks that a commit is not shown before a timestamp. The planner arms the waiting
transaction for a refresh, the transaction is applied shortly before it, and a claim then travels with every frame
batch that shows the commit. -/

namespace Typhon.Timing
open Foundation

inductive PresentationClock where
  | monotonic
  | realtime
deriving DecidableEq, Repr

structure PresentationTimestamp where
  seconds : ℕ
  nanoseconds : ℕ
  inSecond : nanoseconds < 1000000000
deriving DecidableEq, Repr

def PresentationTimestamp.ofNanos (n : ℕ) : PresentationTimestamp where
  seconds := n / 1000000000
  nanoseconds := n % 1000000000
  inSecond := Nat.mod_lt _ (by decide)

def PresentationTimestamp.asNanos (t : PresentationTimestamp) : ℕ := t.seconds * 1000000000 + t.nanoseconds

theorem PresentationTimestamp.asNanos_ofNanos (n : ℕ) : (ofNanos n).asNanos = n := by
  simp only [ofNanos, asNanos]
  omega

structure CommitTimingConstraint where
  seconds : ℕ
  nanoseconds : ℕ
  inSecond : nanoseconds < 1000000000
deriving DecidableEq, Repr

structure CommitTimingClockSample where
  monotonicBefore : PresentationTimestamp
  monotonicAfter : PresentationTimestamp
  presentationNow : PresentationTimestamp
  presentationClock : PresentationClock
deriving DecidableEq, Repr

structure CommitTimingSchedulerDeadline where
  monotonicNotBefore : ℕ
  isRepresentable : Bool
deriving DecidableEq, Repr

namespace CommitTimingConstraint

variable (c : CommitTimingConstraint)

def asNanos : ℕ := c.seconds * 1000000000 + c.nanoseconds

def isDueAt (now : PresentationTimestamp) : Bool :=
  decide (c.seconds < now.seconds ∨ c.seconds = now.seconds ∧ c.nanoseconds ≤ now.nanoseconds)

def ordered (c d : CommitTimingConstraint) : Bool :=
  decide (c.seconds < d.seconds ∨ c.seconds = d.seconds ∧ c.nanoseconds ≤ d.nanoseconds)

def schedulerDeadline (sample : CommitTimingClockSample) :
    CommitTimingSchedulerDeadline :=
  let monotonicNow := sample.monotonicAfter.asNanos
  let mapped := match sample.presentationClock with
    | .monotonic => c.asNanos
    | .realtime =>
      if c.asNanos ≤ sample.presentationNow.asNanos then monotonicNow
      else monotonicNow + (c.asNanos - sample.presentationNow.asNanos)
  { monotonicNotBefore := min mapped U64.top, isRepresentable := decide (mapped ≤ U64.top) }

theorem isDueAt_iff (now : PresentationTimestamp) : c.isDueAt now = true ↔ c.asNanos ≤ now.asNanos := by
  have := c.inSecond
  have := now.inSecond
  simp only [isDueAt, asNanos, PresentationTimestamp.asNanos, decide_eq_true_eq]
  omega

theorem ordered_iff (c d : CommitTimingConstraint) : c.ordered d = true ↔ c.asNanos ≤ d.asNanos := by
  have := c.inSecond
  have := d.inSecond
  simp only [ordered, asNanos, decide_eq_true_eq]
  omega

theorem schedulerDeadline_monotonic {sample : CommitTimingClockSample}
    (hclock : sample.presentationClock = .monotonic) :
    c.schedulerDeadline sample = ⟨min c.asNanos U64.top, decide (c.asNanos ≤ U64.top)⟩ := by
  simp only [schedulerDeadline, hclock]

theorem schedulerDeadline_of_due (sample : CommitTimingClockSample)
    (hbound : sample.monotonicAfter.asNanos ≤ U64.top)
    (hnow : sample.presentationClock = .monotonic → sample.presentationNow = sample.monotonicAfter)
    (hdue : c.isDueAt sample.presentationNow = true) : (c.schedulerDeadline sample).isRepresentable = true ∧
      (c.schedulerDeadline sample).monotonicNotBefore ≤ sample.monotonicAfter.asNanos := by
  rw [isDueAt_iff] at hdue
  cases hclock : sample.presentationClock with
  | monotonic =>
    rw [schedulerDeadline_monotonic c hclock]
    rw [hnow hclock] at hdue
    exact ⟨decide_eq_true (hdue.trans hbound), (min_le_left _ _).trans hdue⟩
  | realtime =>
    simp only [schedulerDeadline, hclock, if_pos hdue, decide_eq_true_eq]
    exact ⟨hbound, min_le_left _ _⟩

end CommitTimingConstraint

structure CommitTimingClockMappingMetadata where
  sample : CommitTimingClockSample
  monotonicNotBefore : ℕ
  isRepresentable : Bool
deriving DecidableEq, Repr

structure CommitTimingReadiness where
  transactionId : ℕ
  requestedNotBefore : CommitTimingConstraint
  selectedMonotonicPresentationTime : ℕ
  releaseForRenderAt : ℕ
  selectedSequence : ℕ
  clockGeneration : ℕ
  clockMapping : CommitTimingClockMappingMetadata
deriving DecidableEq, Repr

inductive CommitTimingRevalidation where
  | keep
  | replan
  | alreadyDue
deriving DecidableEq, Repr

def revalidateCommitTimingReadiness (readiness : CommitTimingReadiness) (sample : CommitTimingClockSample) :
    CommitTimingRevalidation :=
  if sample.presentationClock ≠ .realtime ∨ readiness.clockMapping.sample.presentationClock ≠ .realtime then .keep
  else
    let deadline := readiness.requestedNotBefore.schedulerDeadline sample
    if !deadline.isRepresentable ∨ readiness.selectedMonotonicPresentationTime < deadline.monotonicNotBefore then
      .replan
    else if readiness.requestedNotBefore.isDueAt sample.presentationNow ∧
        ¬ readiness.requestedNotBefore.isDueAt readiness.clockMapping.sample.presentationNow then .alreadyDue
    else .keep

structure CommitTimingTargetClaim where
  surfaceId : ℕ
  surfaceGeneration : ℕ
  commitSequence : ℕ
  readiness : CommitTimingReadiness
deriving DecidableEq, Repr

structure CommitNode where
  surfaceId : ℕ
  commitSequence : ℕ
  attachment : Bool
  commitTiming : Option CommitTimingConstraint
deriving DecidableEq, Repr

structure PendingSurfaceTreeTransaction where
  id : ℕ
  rootSurfaceId : ℕ
  nodes : List CommitNode
  commitTimingReadiness : Option CommitTimingReadiness
deriving DecidableEq, Repr

structure SurfaceContent where
  surfaceId : ℕ
  commitSequence : ℕ
  commitTiming : Option CommitTimingConstraint
  dueWhenApplied : Bool
deriving DecidableEq, Repr

structure CompositorFrameBatch where
  id : ℕ
  contents : List SurfaceContent
  commitTimingTargetClaims : List CommitTimingTargetClaim
deriving DecidableEq, Repr

/-- The clocks, the planner's clock generation, the waiting transactions, what the surfaces show, the claims of applied
commits (`active_commit_timing_targets` as one list) and the frame batches. -/
structure CompositorState where
  monotonic : ℕ
  realtime : ℕ
  presentationClock : PresentationClock
  clockGeneration : ℕ
  pendingTransactions : List PendingSurfaceTreeTransaction
  nextTransactionId : ℕ
  presentationGenerations : ℕ → ℕ
  contents : List SurfaceContent
  activeCommitTimingTargets : List CommitTimingTargetClaim
  frameBatches : List CompositorFrameBatch
  retiredFrameBatches : List CompositorFrameBatch
  nextFrameBatchId : ℕ

def commitTimingRequest (nodes : List CommitNode) : Option CommitTimingConstraint :=
  nodes.foldl (fun latest node => match latest, node.commitTiming with
    | latest, none => latest
    | none, some requested => some requested
    | some latest, some requested => some (if latest.ordered requested then requested else latest)) none

namespace CompositorState
variable (s : CompositorState)

def fromClock : PresentationClock → PresentationTimestamp
  | .monotonic => .ofNanos s.monotonic
  | .realtime => .ofNanos s.realtime

def now : PresentationTimestamp := s.fromClock s.presentationClock

variable (readable : Bool)

def currentCommitTimingClockSample : Option CommitTimingClockSample :=
  if readable then
    some { monotonicBefore := s.fromClock .monotonic, monotonicAfter := s.fromClock .monotonic,
           presentationNow := s.now, presentationClock := s.presentationClock }
  else none

def isDue (c : CommitTimingConstraint) : Bool := readable && c.isDueAt s.now

def commitTimingReadinessIsSafe (readiness : CommitTimingReadiness) : Bool :=
  match s.currentCommitTimingClockSample readable with
  | none => false
  | some sample =>
    if readiness.clockMapping.sample.presentationClock ≠ s.presentationClock then false
    else if sample.presentationClock = .realtime then
      revalidateCommitTimingReadiness readiness sample != .replan
    else
      let deadline := readiness.requestedNotBefore.schedulerDeadline sample
      deadline.isRepresentable && decide (deadline.monotonicNotBefore ≤ readiness.selectedMonotonicPresentationTime)

variable (id : ℕ)

def transactionById : Option PendingSurfaceTreeTransaction :=
  s.pendingTransactions.find? (·.id = id)

def isRootHead : Bool :=
  match s.transactionById id with
  | none => false
  | some transaction =>
    ((s.pendingTransactions.takeWhile (·.id ≠ id)).all (·.rootSurfaceId ≠ transaction.rootSurfaceId))

def setCommitTimingReadiness (readiness : Option CommitTimingReadiness) : CompositorState :=
  { s with pendingTransactions := s.pendingTransactions.map fun transaction =>
      if transaction.id = id then { transaction with commitTimingReadiness := readiness } else transaction }

def armCommitTimingTarget (readiness : CommitTimingReadiness) : CompositorState :=
  if readiness.clockMapping.sample.presentationClock ≠ s.presentationClock ∨
      readiness.clockMapping.isRepresentable ∧
        readiness.selectedMonotonicPresentationTime < readiness.clockMapping.monotonicNotBefore then s
  else match s.transactionById readiness.transactionId with
    | none => s
    | some transaction =>
      if ¬ s.isRootHead readiness.transactionId then s
      else if commitTimingRequest transaction.nodes ≠ some readiness.requestedNotBefore then s
      else s.setCommitTimingReadiness readiness.transactionId (some readiness)

/-- One turn of `plan_commit_timing_targets`: a root head that is not armed yet is armed for the refresh the planner
found, if its timestamp can be mapped to the monotonic clock. -/
def planCommitTimingTarget (id presentationTime releaseAt sequence : ℕ) : CompositorState :=
  match s.currentCommitTimingClockSample readable, s.transactionById id with
  | some sample, some transaction =>
    match transaction.commitTimingReadiness, commitTimingRequest transaction.nodes with
    | none, some requested =>
      let deadline := requested.schedulerDeadline sample
      if deadline.isRepresentable then
        s.armCommitTimingTarget
          { transactionId := id
            requestedNotBefore := requested
            selectedMonotonicPresentationTime := presentationTime
            releaseForRenderAt := releaseAt
            selectedSequence := sequence
            clockGeneration := s.clockGeneration
            clockMapping := ⟨sample, deadline.monotonicNotBefore, deadline.isRepresentable⟩ }
      else s
    | _, _ => s
  | _, _ => s

/-- `partsReady` stands for the content update dependencies, the acquire points and the FIFO barriers. -/
def transactionIsReady (readable partsReady : Bool) (transaction : PendingSurfaceTreeTransaction) : Bool :=
  match commitTimingRequest transaction.nodes with
  | none => partsReady
  | some requested =>
    if transaction.commitTimingReadiness.any fun readiness =>
        readiness.transactionId ≠ transaction.id ∨ readiness.requestedNotBefore ≠ requested then false
    else if !s.isDue readable requested && !transaction.commitTimingReadiness.any fun readiness =>
        decide (readiness.releaseForRenderAt ≤ s.monotonic) && s.commitTimingReadinessIsSafe readable readiness then
      false
    else partsReady

/-- `apply_captured_surface_pacing`, and the commit becomes part of what its surface shows: a new attachment replaces
what was shown before. -/
def applyNode (readiness : Option CommitTimingReadiness) (node : CommitNode) : CompositorState :=
  let kept := if node.attachment then s.contents.filter (·.surfaceId ≠ node.surfaceId) else s.contents
  let content : SurfaceContent :=
    { surfaceId := node.surfaceId, commitSequence := node.commitSequence, commitTiming := node.commitTiming
      dueWhenApplied := node.commitTiming.all (·.isDueAt s.now) }
  let claim := match node.commitTiming, readiness with
    | some _, some readiness =>
      [{ surfaceId := node.surfaceId, surfaceGeneration := s.presentationGenerations node.surfaceId,
         commitSequence := node.commitSequence, readiness := readiness : CommitTimingTargetClaim }]
    | _, _ => []
  { s with contents := kept ++ [content], activeCommitTimingTargets := s.activeCommitTimingTargets ++ claim }

def withdrawTransaction : CompositorState :=
  { s with pendingTransactions := s.pendingTransactions.filter (·.id ≠ id) }

def publishTransaction (readable partsReady : Bool) (id : ℕ) : CompositorState :=
  match s.transactionById id with
  | none => s
  | some transaction =>
    if s.isRootHead id && s.transactionIsReady readable partsReady transaction then
      transaction.nodes.foldl (fun s node => s.applyNode transaction.commitTimingReadiness node)
        (s.withdrawTransaction id)
    else s

def submitTransaction (rootSurfaceId : ℕ) (nodes : List CommitNode) : CompositorState :=
  { s with
    pendingTransactions := s.pendingTransactions ++ [⟨s.nextTransactionId, rootSurfaceId, nodes, none⟩]
    nextTransactionId := s.nextTransactionId + 1 }

def invalidatePendingCommitTimingTargets : CompositorState :=
  { s with pendingTransactions := s.pendingTransactions.map ({ · with commitTimingReadiness := none }) }

/-- `PresentationDeadlinePlanner::invalidate` with the server's invalidation, as a refresh change or a resumed session
runs them. -/
def rearmScheduler : CompositorState :=
  { s.invalidatePendingCommitTimingTargets with
    clockGeneration := if s.clockGeneration < U64.top then s.clockGeneration + 1 else 1 }

def setPresentationClock (clock : PresentationClock) : CompositorState :=
  if s.presentationClock ≠ clock then
    { s.invalidatePendingCommitTimingTargets with presentationClock := clock }
  else s

def commitTimingClaimsForFrame (surfaceIds : List ℕ) : List CommitTimingTargetClaim :=
  surfaceIds.flatMap fun surfaceId => s.activeCommitTimingTargets.filter (·.surfaceId = surfaceId)

def contentsForFrame (surfaceIds : List ℕ) : List SurfaceContent :=
  surfaceIds.flatMap fun surfaceId => s.contents.filter (·.surfaceId = surfaceId)

/-- At most two batches are alive; a third capture is a failed assertion and ends the process. -/
def takeFrameBatchForRender (surfaceIds : List ℕ) : CompositorState :=
  if s.frameBatches.length < 2 then
    { s with
      nextFrameBatchId := s.nextFrameBatchId + 1
      frameBatches := s.frameBatches ++
        [⟨s.nextFrameBatchId + 1, s.contentsForFrame surfaceIds, s.commitTimingClaimsForFrame surfaceIds⟩] }
  else s

def frameBatch : Option CompositorFrameBatch := s.frameBatches.find? (·.id = id)

def retiredFrameBatch : Option CompositorFrameBatch := s.retiredFrameBatches.find? (·.id = id)

def commitTimingSubmissionIsSafeForBatch (id planned clockGeneration : ℕ) : Bool :=
  match s.frameBatch id with
  | none => false
  | some batch =>
    if batch.commitTimingTargetClaims.isEmpty then true
    else match s.currentCommitTimingClockSample readable with
      | none => false
      | some sample =>
        let effective := max planned (min sample.monotonicAfter.asNanos U64.top)
        batch.commitTimingTargetClaims.all fun claim =>
          let readiness := claim.readiness
          if readiness.clockGeneration ≠ clockGeneration ∨
              readiness.clockMapping.sample.presentationClock ≠ s.presentationClock ∨
              effective < readiness.selectedMonotonicPresentationTime then false
          else
            let deadline := readiness.requestedNotBefore.schedulerDeadline sample
            deadline.isRepresentable && decide (deadline.monotonicNotBefore ≤ effective)

def discardCommitTimingClaim (claim : CommitTimingTargetClaim) : CompositorState :=
  { s with activeCommitTimingTargets := s.activeCommitTimingTargets.erase claim }

def completeCommitTimingClaim (claim : CommitTimingTargetClaim) : CompositorState :=
  s.discardCommitTimingClaim claim

def discardClaims (claims : List CommitTimingTargetClaim) : CompositorState :=
  claims.foldl discardCommitTimingClaim s

def removeFrameBatch : CompositorState :=
  { s with frameBatches := s.frameBatches.filter (·.id ≠ id) }

def removeRetiredFrameBatch : CompositorState :=
  { s with retiredFrameBatches := s.retiredFrameBatches.filter (·.id ≠ id) }

def restoreFrameBatchAfterRenderFailure : CompositorState := s.removeFrameBatch id

def discardFrameBatch : CompositorState :=
  match s.frameBatch id with
  | none => s
  | some batch =>
    let s := (s.removeFrameBatch id).discardClaims batch.commitTimingTargetClaims
    { s with retiredFrameBatches := s.retiredFrameBatches ++ [batch] }

def completeFrameBatchAfterSafeAbandonment : CompositorState :=
  match s.frameBatch id, s.retiredFrameBatch id with
  | some batch, _ => (s.removeFrameBatch id).discardClaims batch.commitTimingTargetClaims
  | none, some batch => (s.removeRetiredFrameBatch id).discardClaims batch.commitTimingTargetClaims
  | none, none => s

def completePresentedFrameBatch : CompositorState :=
  match s.frameBatch id with
  | none => s
  | some batch => batch.commitTimingTargetClaims.foldl completeCommitTimingClaim (s.removeFrameBatch id)

def completeDirectPresentedFrameBatch (id directSurfaceId : ℕ) : CompositorState :=
  match s.frameBatch id with
  | none => s
  | some batch => batch.commitTimingTargetClaims.foldl (fun s claim =>
      if claim.surfaceId = directSurfaceId then s.completeCommitTimingClaim claim
      else s.discardCommitTimingClaim claim) (s.removeFrameBatch id)

def completeNoVisualChangeFrameBatch : CompositorState :=
  match s.frameBatch id with
  | none => s
  | some batch => (s.removeFrameBatch id).discardClaims batch.commitTimingTargetClaims

def teardownSurface (surfaceId : ℕ) : CompositorState :=
  { s with
    contents := s.contents.filter (·.surfaceId ≠ surfaceId)
    activeCommitTimingTargets := s.activeCommitTimingTargets.filter (·.surfaceId ≠ surfaceId) }

end CompositorState

inductive TimingEvent where
  | advance (elapsed realtime : ℕ)
  | renew (surfaceId generation : ℕ)
  | submit (rootSurfaceId : ℕ) (nodes : List CommitNode)
  | withdraw (id : ℕ)
  | plan (readable : Bool) (id presentationTime releaseAt sequence : ℕ)
  | publish (readable partsReady : Bool) (id : ℕ)
  | invalidatePending
  | rearm
  | setClock (clock : PresentationClock)
  | teardown (surfaceId : ℕ)
  | capture (surfaceIds : List ℕ)
  | restore (id : ℕ)
  | discard (id : ℕ)
  | abandon (id : ℕ)
  | presented (id : ℕ)
  | presentedDirect (id surfaceId : ℕ)
  | noVisualChange (id : ℕ)

def CompositorState.step (s : CompositorState) : TimingEvent → CompositorState
  | .advance elapsed realtime => { s with monotonic := s.monotonic + elapsed, realtime := realtime }
  | .renew surfaceId generation =>
    { s with presentationGenerations := Function.update s.presentationGenerations surfaceId generation }
  | .submit rootSurfaceId nodes => s.submitTransaction rootSurfaceId nodes
  | .withdraw id => s.withdrawTransaction id
  | .plan readable id presentationTime releaseAt sequence =>
    s.planCommitTimingTarget readable id presentationTime releaseAt sequence
  | .publish readable partsReady id => s.publishTransaction readable partsReady id
  | .invalidatePending => s.invalidatePendingCommitTimingTargets
  | .rearm => s.rearmScheduler
  | .setClock clock => s.setPresentationClock clock
  | .teardown surfaceId => s.teardownSurface surfaceId
  | .capture surfaceIds => s.takeFrameBatchForRender surfaceIds
  | .restore id => s.restoreFrameBatchAfterRenderFailure id
  | .discard id => s.discardFrameBatch id
  | .abandon id => s.completeFrameBatchAfterSafeAbandonment id
  | .presented id => s.completePresentedFrameBatch id
  | .presentedDirect id surfaceId => s.completeDirectPresentedFrameBatch id surfaceId
  | .noVisualChange id => s.completeNoVisualChangeFrameBatch id

def CompositorState.start (clock : PresentationClock) : CompositorState where
  monotonic := 0
  realtime := 0
  presentationClock := clock
  clockGeneration := 1
  pendingTransactions := []
  nextTransactionId := 1
  presentationGenerations := fun _ => 0
  contents := []
  activeCommitTimingTargets := []
  frameBatches := []
  retiredFrameBatches := []
  nextFrameBatchId := 0

end Typhon.Timing
