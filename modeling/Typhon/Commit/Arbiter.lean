import Typhon.Foundation.Word64
import Typhon.Foundation.HashMap
import Typhon.Scanout.Swapchain

/-! The arbiter of the Atomic commits of one output: at most one commit is in the kernel, and at most one more is
queued in the worker. A pageflip that comes before the worker's acknowledgement is kept until then. -/

namespace Typhon.Commit
open Foundation Scanout

def bump (counter : ℕ) : ℕ := U64.saturatingAdd counter 1

inductive AtomicCommitKind where
  | compositedPrimary (transactionId : OutputTransactionId) (frameId framebufferId : ℕ)
  | directPrimary (transactionId : OutputTransactionId) (directToken : PageFlipToken) (framebufferId : ℕ)
  | planeDelta (transactionId : OutputTransactionId) (cursorEpoch : ℕ) (framebufferId : Option ℕ)
  deriving DecidableEq

inductive AtomicCommitPhase where
  | workerQueued (queuedAt : ℕ)
  | kernelSubmitted (submittedAt submitReturnedAt watchdogDeadline : ℕ)
  deriving DecidableEq

structure PendingAtomicCommit where
  token : PageFlipToken
  generation : ℕ
  crtcId : ℕ
  kind : AtomicCommitKind
  phase : AtomicCommitPhase
  submittedAt : ℕ
  watchdogDeadline : ℕ
  watchdogReported : Bool
  deriving DecidableEq

structure DrmPresentationEvent where
  userData : ℕ
  sequence : ℕ
  timestampSeconds : ℕ
  timestampMicroseconds : ℕ
  crtcId : ℕ
  deriving DecidableEq

inductive AtomicCommitCompletion where
  | completed (kind : AtomicCommitKind) (submittedAt : ℕ)
  | deferredUntilSubmitAck
  | duplicateEarlyPageflip
  | mismatched
  | wrongCrtc
  | wrongGeneration
  | stale
  deriving DecidableEq

structure AtomicCommitArbiter where
  kernelSubmitted : Option PendingAtomicCommit
  workerQueued : Option PendingAtomicCommit
  earlyPageflip : Option DrmPresentationEvent
  watchdogInterval : ℕ
  atomicCommitWatchdogTimeoutsTotal : ℕ
  atomicCursorWatchdogTimeouts : ℕ
  atomicPrimaryWatchdogTimeouts : ℕ
  atomicCommitsSubmittedTotal : ℕ
  atomicCommitsCompletedTotal : ℕ
  deriving DecidableEq

def pageFlipToken (value : ℕ) : Option PageFlipToken :=
  if h : 0 < value ∧ value < 18446744073709551616 then some ⟨value, h⟩ else none

def isWorkerQueued : AtomicCommitPhase → Bool
  | .workerQueued _ => true
  | .kernelSubmitted .. => false

namespace AtomicCommitArbiter

def withWatchdog (watchdogInterval : ℕ) : AtomicCommitArbiter where
  kernelSubmitted := none
  workerQueued := none
  earlyPageflip := none
  watchdogInterval := if watchdogInterval = 0 then 1 else watchdogInterval
  atomicCommitWatchdogTimeoutsTotal := 0
  atomicCursorWatchdogTimeouts := 0
  atomicPrimaryWatchdogTimeouts := 0
  atomicCommitsSubmittedTotal := 0
  atomicCommitsCompletedTotal := 0

variable (a : AtomicCommitArbiter)

/-- An early pageflip that is left over is not dropped. -/
def reserve (token : PageFlipToken) (generation crtcId : ℕ) (kind : AtomicCommitKind)
    (submittedAt : ℕ) : Except String Unit × AtomicCommitArbiter :=
  if a.kernelSubmitted.isSome || a.workerQueued.isSome then (.error "an Atomic commit is already pending", a)
  else
    let watchdogDeadline := U64.saturatingAdd submittedAt a.watchdogInterval
    (.ok (), { a with
      kernelSubmitted := some ⟨token, generation, crtcId, kind,
        .kernelSubmitted submittedAt submittedAt watchdogDeadline, submittedAt, watchdogDeadline, false⟩
      atomicCommitsSubmittedTotal := bump a.atomicCommitsSubmittedTotal })

def reserveWorkerQueued (token : PageFlipToken) (generation crtcId : ℕ)
    (kind : AtomicCommitKind) (queuedAt : ℕ) : Except String Unit × AtomicCommitArbiter :=
  if a.workerQueued.isSome then (.error "an Atomic worker commit is already queued", a)
  else (.ok (), { a with
    earlyPageflip := none
    workerQueued := some ⟨token, generation, crtcId, kind, .workerQueued queuedAt, 0, 0, false⟩ })

def markKernelSubmitted (token : PageFlipToken) (submittedAt submitReturnedAt : ℕ) :
    Except String Unit × AtomicCommitArbiter :=
  if a.kernelSubmitted.isSome then (.error "an Atomic commit is already kernel submitted", a)
  else
    match a.workerQueued with
    | none => (.error "Atomic submit token does not match queued commit", a)
    | some pending =>
      if pending.token ≠ token then (.error "Atomic submit token does not match queued commit", a)
      else if !isWorkerQueued pending.phase then
        (.error "Atomic commit is not worker queued", { a with workerQueued := none })
      else
        let watchdogDeadline := U64.saturatingAdd submittedAt a.watchdogInterval
        (.ok (), { a with
          workerQueued := none
          kernelSubmitted := some { pending with
            phase := .kernelSubmitted submittedAt submitReturnedAt watchdogDeadline
            submittedAt
            watchdogDeadline }
          atomicCommitsSubmittedTotal := bump a.atomicCommitsSubmittedTotal })

def rejectWorkerQueued (token : PageFlipToken) :
    Option PendingAtomicCommit × AtomicCommitArbiter :=
  if a.workerQueued.any fun pending => decide (pending.token = token) && isWorkerQueued pending.phase then
    (a.workerQueued, { a with earlyPageflip := none, workerQueued := none })
  else (none, a)

def pendingAtomicCommit : Option PendingAtomicCommit :=
  match a.kernelSubmitted with
  | some pending => some pending
  | none => a.workerQueued

def completePageflip (pageflip : DrmPresentationEvent) (generation : ℕ) :
    AtomicCommitCompletion × AtomicCommitArbiter :=
  match pageFlipToken pageflip.userData with
  | none => (.stale, a)
  | some token =>
    match a.pendingAtomicCommit with
    | none => (.stale, a)
    | some pending =>
      if token ≠ pending.token then (.mismatched, a)
      else if generation ≠ pending.generation then (.wrongGeneration, a)
      else if pageflip.crtcId ≠ pending.crtcId then (.wrongCrtc, a)
      else if isWorkerQueued pending.phase then
        if a.earlyPageflip.isSome then (.duplicateEarlyPageflip, a)
        else (.deferredUntilSubmitAck, { a with earlyPageflip := some pageflip })
      else (.completed pending.kind pending.submittedAt, { a with
        kernelSubmitted := none
        atomicCommitsCompletedTotal := bump a.atomicCommitsCompletedTotal })

/-- The stored pageflip is not compared with the commit. -/
def replayDeferredPageflip : Option AtomicCommitCompletion × AtomicCommitArbiter :=
  match a.kernelSubmitted with
  | none => (none, a)
  | some pending =>
    if a.earlyPageflip.isNone then (none, a)
    else if isWorkerQueued pending.phase then (none, { a with earlyPageflip := none })
    else (some (.completed pending.kind pending.submittedAt), { a with
      earlyPageflip := none
      kernelSubmitted := none
      atomicCommitsCompletedTotal := bump a.atomicCommitsCompletedTotal })

def cancel (token : PageFlipToken) : Option PendingAtomicCommit × AtomicCommitArbiter :=
  if a.kernelSubmitted.any fun pending => decide (pending.token = token) then
    (a.kernelSubmitted, { a with kernelSubmitted := none })
  else if a.workerQueued.any fun pending => decide (pending.token = token) then
    (a.workerQueued, { a with workerQueued := none })
  else (none, a)

def isPlaneDelta : AtomicCommitKind → Bool
  | .planeDelta .. => true
  | .compositedPrimary .. | .directPrimary .. => false

def watchdogExpired (now : ℕ) : Option AtomicCommitKind × AtomicCommitArbiter :=
  match a.kernelSubmitted with
  | none => (none, a)
  | some pending =>
    match pending.phase with
    | .workerQueued _ => (none, a)
    | .kernelSubmitted _ _ watchdogDeadline =>
      if pending.watchdogReported || decide (now < watchdogDeadline) then (none, a)
      else
        let a := { a with
          kernelSubmitted := some { pending with watchdogReported := true }
          atomicCommitWatchdogTimeoutsTotal := bump a.atomicCommitWatchdogTimeoutsTotal }
        (some pending.kind, if isPlaneDelta pending.kind then
            { a with atomicCursorWatchdogTimeouts := bump a.atomicCursorWatchdogTimeouts }
          else { a with atomicPrimaryWatchdogTimeouts := bump a.atomicPrimaryWatchdogTimeouts })

def abandonForRecovery : AtomicCommitArbiter :=
  { a with kernelSubmitted := none, workerQueued := none, earlyPageflip := none }

end AtomicCommitArbiter
end Typhon.Commit
