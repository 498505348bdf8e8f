import Typhon.Foundation.HashMap

/-! Releases of client DMA-BUFs. A token that a surface stops showing passes between the pending and deferred lists,
frame batches, GPU leases and signal retries until its release is sent. -/

namespace Typhon.Surfaces
open Foundation

inductive ReleaseToken where
  | wlBuffer (resource : ℕ)
  | explicitSync (point : ℕ)
  deriving DecidableEq

structure DmabufGpuReleaseLease where
  sourceBatch : Option ℕ
  obligations : List ReleaseToken
  fence : ℕ
  deriving DecidableEq

structure SentRelease where
  token : ReleaseToken
  shown : Bool
  unfinished : Bool
  deriving DecidableEq

/-- The collections that own tokens. The last four fields are not the compositor's: the batches whose GPU work has
finished are those up to `finished`, `used` is the last batch captured while a token was active, `owed` holds the tokens
that a surface stopped showing and whose release has not been sent. -/
structure BufferReleases where
  active : HashMap ℕ ReleaseToken
  pending : List ReleaseToken
  deferred : List ReleaseToken
  retries : List ReleaseToken
  frameBatches : HashMap ℕ (List ReleaseToken)
  retiredFrameBatches : HashMap ℕ (List ReleaseToken)
  gpuReleaseLeases : HashMap ℕ DmabufGpuReleaseLease
  retained : List ReleaseToken
  nextFrameBatchId : ℕ
  nextLeaseId : ℕ
  finished : ℕ
  used : ReleaseToken → ℕ
  owed : Finset ReleaseToken
  sent : List SentRelease

namespace BufferReleases
variable (s : BufferReleases) (token : ReleaseToken)

def releaseTokenIsActive : Bool := HashMap.anyValue (fun active => active = token) s.active

def bufferReleaseIsOwned : Bool :=
  s.pending.contains token || s.deferred.contains token || s.retries.contains token ||
    HashMap.anyValue (fun releases => releases.contains token) s.frameBatches ||
    HashMap.anyValue (fun releases => releases.contains token) s.retiredFrameBatches ||
    HashMap.anyValue (fun lease => lease.obligations.contains token) s.gpuReleaseLeases || s.retained.contains token

def queueDmabufBufferRelease : BufferReleases :=
  let s := { s with owed := insert token s.owed }
  if s.bufferReleaseIsOwned token then s else { s with pending := s.pending ++ [token] }

def pushDeferred : BufferReleases :=
  if token ∈ s.deferred then s else { s with deferred := s.deferred ++ [token] }

def queueExplicitReleaseSignalRetry : BufferReleases :=
  if token ∈ s.retries then s else { s with retries := s.retries ++ [token] }

def reclassifyReactivated : BufferReleases :=
  if token ∈ s.retries then pushDeferred { s with retries := s.retries.erase token } token else s

def trackCommittedBufferLifetime (surface : ℕ) (token : ReleaseToken) : BufferReleases :=
  if token ∈ s.retained then s
  else
    let s := s.reclassifyReactivated token
    let previous := s.active.lookup surface
    let s := { s with active := s.active.insert surface token }
    match previous with
    | some previous => if previous = token then s else s.queueDmabufBufferRelease previous
    | none => s

def stopShowing (surface : ℕ) : BufferReleases :=
  match s.active.lookup surface with
  | some token => queueDmabufBufferRelease { s with active := s.active.erase surface } token
  | none => s

variable (goesThrough : ReleaseToken → Bool)

def completeDmabufRelease (token : ReleaseToken) : BufferReleases :=
  if goesThrough token then
    { s with
      owed := s.owed.erase token
      sent := s.sent ++ [⟨token, s.releaseTokenIsActive token, decide (s.finished < s.used token)⟩] }
  else match token with
    | .wlBuffer _ => { s with owed := s.owed.erase token }
    | .explicitSync _ => s.queueExplicitReleaseSignalRetry token

def completeIfInactive (s : BufferReleases) (token : ReleaseToken) :
    BufferReleases :=
  if s.releaseTokenIsActive token then s.pushDeferred token else s.completeDmabufRelease goesThrough token

def takeFrameBatchForRender : BufferReleases :=
  if 2 ≤ s.frameBatches.len then s
  else
    let batch := s.nextFrameBatchId + 1
    let releases := s.deferred.filter (fun token => !s.releaseTokenIsActive token) ++ s.pending
    { s with
      nextFrameBatchId := batch
      deferred := s.deferred.filter s.releaseTokenIsActive
      pending := []
      frameBatches := s.frameBatches.insert batch releases
      used := fun token => if s.releaseTokenIsActive token then batch else s.used token }

def restoreFrameBatch (batch : ℕ) : BufferReleases :=
  match s.frameBatches.lookup batch with
  | some releases => { s with frameBatches := s.frameBatches.erase batch, pending := releases ++ s.pending }
  | none => s

def discardFrameBatch (batch : ℕ) : BufferReleases :=
  match s.frameBatches.lookup batch with
  | some releases =>
    { s with
      frameBatches := s.frameBatches.erase batch
      retiredFrameBatches := s.retiredFrameBatches.insert batch releases }
  | none => s

def completeFrameBatch (batch : ℕ) : BufferReleases :=
  match s.frameBatches.lookup batch with
  | some releases =>
    releases.foldl (completeIfInactive goesThrough) { s with frameBatches := s.frameBatches.erase batch }
  | none =>
    match s.retiredFrameBatches.lookup batch with
    | some releases =>
      releases.foldl (completeIfInactive goesThrough)
        { s with retiredFrameBatches := s.retiredFrameBatches.erase batch }
    | none => s

def completeNoVisualChangeFrameBatch (batch : ℕ) : BufferReleases :=
  match s.frameBatches.lookup batch with
  | some releases => releases.foldl pushDeferred { s with frameBatches := s.frameBatches.erase batch }
  | none => s

def openLease (lease : DmabufGpuReleaseLease) : BufferReleases :=
  if lease.obligations = [] then s
  else { s with gpuReleaseLeases := s.gpuReleaseLeases.insert s.nextLeaseId lease, nextLeaseId := s.nextLeaseId + 1 }

def transferDeferredToGpuLease : BufferReleases :=
  openLease { s with deferred := s.deferred.filter s.releaseTokenIsActive }
    ⟨none, s.deferred.filter (fun token => !s.releaseTokenIsActive token), s.nextFrameBatchId⟩

def transferFrameBatchToGpuLease (pending : Bool) (batch : ℕ) : BufferReleases :=
  match s.frameBatches.lookup batch with
  | some releases =>
    openLease { s with frameBatches := s.frameBatches.insert batch [] }
      ⟨if pending then none else some batch, releases, batch⟩
  | none => s

def requeueGpuLease (lease : ℕ) : BufferReleases :=
  match s.gpuReleaseLeases.lookup lease with
  | some held =>
    let s := { s with gpuReleaseLeases := s.gpuReleaseLeases.erase lease }
    match held.sourceBatch with
    | some batch =>
      match s.frameBatches.lookup batch with
      | some releases => { s with frameBatches := s.frameBatches.insert batch (releases ++ held.obligations) }
      | none => held.obligations.foldl pushDeferred s
    | none => held.obligations.foldl pushDeferred s
  | none => s

def completeGpuLease (lease : ℕ) : BufferReleases :=
  match s.gpuReleaseLeases.lookup lease with
  | some held =>
    held.obligations.foldl (completeIfInactive goesThrough)
      { s with gpuReleaseLeases := s.gpuReleaseLeases.erase lease }
  | none => s

def serviceRetries : BufferReleases :=
  s.retries.foldl (completeIfInactive goesThrough) { s with retries := [] }

end BufferReleases

inductive ReleaseEvent where
  | commit (surface : ℕ) (token : ReleaseToken)
  | stopShowing (surface : ℕ)
  | capture
  | restore (batch : ℕ)
  | discard (batch : ℕ)
  | complete (goesThrough : ReleaseToken → Bool) (batch : ℕ)
  | completeUnchanged (batch : ℕ)
  | leaseDeferred
  | leaseBatch (pending : Bool) (batch : ℕ)
  | requeueLease (lease : ℕ)
  | completeLease (goesThrough : ReleaseToken → Bool) (lease : ℕ)
  | serviceRetries (goesThrough : ReleaseToken → Bool)
  | gpuFinished (batch : ℕ)

namespace BufferReleases

def step (s : BufferReleases) : ReleaseEvent → BufferReleases
  | .commit surface token => s.trackCommittedBufferLifetime surface token
  | .stopShowing surface => s.stopShowing surface
  | .capture => s.takeFrameBatchForRender
  | .restore batch => s.restoreFrameBatch batch
  | .discard batch => s.discardFrameBatch batch
  | .complete goesThrough batch => s.completeFrameBatch goesThrough batch
  | .completeUnchanged batch => s.completeNoVisualChangeFrameBatch batch
  | .leaseDeferred => s.transferDeferredToGpuLease
  | .leaseBatch pending batch => s.transferFrameBatchToGpuLease pending batch
  | .requeueLease lease => s.requeueGpuLease lease
  | .completeLease goesThrough lease => s.completeGpuLease goesThrough lease
  | .serviceRetries goesThrough => s.serviceRetries goesThrough
  -- batches finish in capture order
  | .gpuFinished batch => { s with finished := max s.finished (min batch s.nextFrameBatchId) }

def start (retained : List ReleaseToken) : BufferReleases where
  active := ∅
  pending := []
  deferred := []
  retries := []
  frameBatches := ∅
  retiredFrameBatches := ∅
  gpuReleaseLeases := ∅
  retained := retained
  nextFrameBatchId := 0
  nextLeaseId := 0
  finished := 0
  used := fun _ => 0
  owed := ∅
  sent := []

end BufferReleases
end Typhon.Surfaces
