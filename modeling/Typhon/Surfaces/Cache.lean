import Typhon.Foundation.Word64
import Typhon.Foundation.Fault
import Typhon.Foundation.HashMap

/-! Subsurface roles with their cached commits, and the counters that bound the cache. -/

namespace Typhon.Surfaces
open Foundation

structure ContentUpdateRef where
  surfaceId : ℕ
  commitId : ℕ
  commitSequence : ℕ
deriving DecidableEq, Repr

structure ContentUpdateLineage where
  predecessor : Option ContentUpdateRef
  childDependencies : List ContentUpdateRef
  mergeFrozen : Bool
deriving DecidableEq, Repr

/-- A buffer is named by the commit that attached it; a DMA-BUF has planes, a shared-memory buffer none. -/
inductive PendingSurfaceAttachment where
  | buffer (buffer planes : ℕ)
  | removeContent
deriving DecidableEq, Repr

structure CapturedExplicitSyncState where
  acquire : Option ℕ
  release : Option ℕ
deriving DecidableEq, Repr

structure CapturedSurfacePacing where
  fifoSetBarrier : Bool
  fifoWaitBarrier : Bool
  fifoWaitIgnoredForSynchronizedSubsurface : Bool
  commitTiming : Bool
deriving DecidableEq, Repr

def CapturedSurfacePacing.isBoundary (pacing : CapturedSurfacePacing) : Bool :=
  pacing.fifoSetBarrier || (pacing.fifoWaitBarrier && !pacing.fifoWaitIgnoredForSynchronizedSubsurface) ||
    pacing.commitTiming

structure CachedSubsurfaceCommit where
  commitId : ℕ
  commitSequence : ℕ
  lineage : ContentUpdateLineage
  attachment : Option PendingSurfaceAttachment
  frameCallbacks : List ℕ
  explicitSync : Option CapturedExplicitSyncState
  presentationFeedbacks : List ℕ
  pacing : CapturedSurfacePacing
deriving DecidableEq, Repr

def cachedAttachmentObligationCount : Option PendingSurfaceAttachment → ℕ
  | some (.buffer _ planes) => 1 + planes
  | some .removeContent | none => 0

def cachedExplicitSyncObligationCount : Option CapturedExplicitSyncState → ℕ
  | some state => state.acquire.isSome.toNat + state.release.isSome.toNat
  | none => 0

namespace CachedSubsurfaceCommit

def contentUpdateRef (c : CachedSubsurfaceCommit) (surfaceId : ℕ) : ContentUpdateRef :=
  ⟨surfaceId, c.commitId, c.commitSequence⟩

def cachedObligationCount (c : CachedSubsurfaceCommit) : ℕ :=
  c.frameCallbacks.length + c.presentationFeedbacks.length + cachedAttachmentObligationCount c.attachment +
    cachedExplicitSyncObligationCount c.explicitSync

def mergedCachedObligationCount (c newer : CachedSubsurfaceCommit) : ℕ :=
  let attachment := newer.attachment.or c.attachment
  let explicitSync := if newer.attachment.isSome || newer.explicitSync.isSome then newer.explicitSync else
    c.explicitSync
  newer.frameCallbacks.length + c.frameCallbacks.length + newer.presentationFeedbacks.length +
    cachedAttachmentObligationCount attachment + cachedExplicitSyncObligationCount explicitSync

def merge (c newer : CachedSubsurfaceCommit) : CachedSubsurfaceCommit where
  commitId := newer.commitId
  commitSequence := newer.commitSequence
  lineage :=
    { c.lineage with
      childDependencies := newer.lineage.childDependencies.foldl
        (fun dependencies dependency =>
          if dependency ∈ dependencies then dependencies else dependencies ++ [dependency]) c.lineage.childDependencies
      mergeFrozen := c.lineage.mergeFrozen || newer.lineage.mergeFrozen }
  attachment := newer.attachment.or c.attachment
  frameCallbacks := c.frameCallbacks ++ newer.frameCallbacks
  explicitSync := if newer.attachment.isSome || newer.explicitSync.isSome then newer.explicitSync else c.explicitSync
  presentationFeedbacks := newer.presentationFeedbacks
  pacing := c.pacing

def supersededBuffer (c newer : CachedSubsurfaceCommit) : Option ℕ :=
  match newer.attachment, c.attachment with
  | some _, some (.buffer buffer _) => some buffer
  | _, _ => none

theorem cachedObligationCount_merge (c newer : CachedSubsurfaceCommit) :
    (c.merge newer).cachedObligationCount = c.mergedCachedObligationCount newer := by
  simp only [cachedObligationCount, mergedCachedObligationCount, merge, List.length_append]
  omega

end CachedSubsurfaceCommit
/-! ### Roles and their queues -/

def maxCommitsPerSurface : ℕ := 8

def maxCommitsPerClient : ℕ := 256

def maxCommitsTotal : ℕ := 4096

def maxObligationsPerSurface : ℕ := 1024

def maxObligationsPerClient : ℕ := 8192

def maxObligationsTotal : ℕ := 65536

inductive SubsurfaceSyncMode where
  | synchronized
  | desynchronized
deriving DecidableEq, Repr

inductive SubsurfaceRelationshipPhase where
  | pendingParentCommit
  | latched
  | applied
deriving DecidableEq, Repr

structure SubsurfaceRoleState where
  relationshipId : ℕ
  parentId : ℕ
  clientId : Option ℕ
  requestedMode : SubsurfaceSyncMode
  relationshipPhase : SubsurfaceRelationshipPhase
  cachedCommits : List CachedSubsurfaceCommit
deriving DecidableEq, Repr

def obligationsOf (commits : List CachedSubsurfaceCommit) : ℕ :=
  (commits.map CachedSubsurfaceCommit.cachedObligationCount).sum

structure SurfaceTransactionState where
  roles : HashMap ℕ SubsurfaceRoleState
  nextRelationshipId : ℕ
  cachedEntriesPerSurface : HashMap ℕ ℕ
  cachedObligationsPerSurface : HashMap ℕ ℕ
  cachedEntriesPerClient : HashMap ℕ ℕ
  cachedObligationsPerClient : HashMap ℕ ℕ
  cachedEntriesTotal : ℕ
  cachedObligationsTotal : ℕ
  cachedNodes : ℕ

inductive CacheAdmissionFailure where
  | missingRole
  | perSurfaceEntryLimit
  | perClientEntryLimit
  | totalEntryLimit
  | perSurfaceObligationLimit
  | perClientObligationLimit
  | totalObligationLimit
  | accountingInvariant
deriving DecidableEq, Repr

inductive CacheCommitOutcome where
  | inserted
  | merged (supersededBuffer : Option ℕ)
  | rejected (commit : CachedSubsurfaceCommit) (reason : CacheAdmissionFailure)
deriving DecidableEq, Repr

abbrev CacheCall (α : Type) := Run Empty α

def checkedAdd (a b : ℕ) : Option ℕ := if a + b ≤ U64.top then some (a + b) else none

def checkedReplaceCachedCount (current old new : ℕ) : Option ℕ :=
  if old ≤ current then checkedAdd (current - old) new else none

def replaceCachedCount (current old new : ℕ) : CacheCall ℕ :=
  Run.expect "synchronized cache accounting drift" (checkedReplaceCachedCount current old new)

def replaceCachedMapCount (counts : HashMap ℕ ℕ) (key old new : ℕ) : CacheCall (HashMap ℕ ℕ) := do
  let updated ← replaceCachedCount ((counts.lookup key).getD 0) old new
  return if updated = 0 then counts.erase key else counts.insert key updated

def replaceCachedNodes (nodes oldEntries newEntries : ℕ) : CacheCall ℕ :=
  if oldEntries = 0 ∧ newEntries ≠ 0 then
    Run.expect "synchronized cache node count overflow" (checkedAdd nodes 1)
  else if oldEntries ≠ 0 ∧ newEntries = 0 then
    Run.expect "synchronized cache node count underflow" (if 1 ≤ nodes then some (nodes - 1) else none)
  else .ok nodes

namespace SurfaceTransactionState

def empty : SurfaceTransactionState where
  roles := ∅
  nextRelationshipId := 0
  cachedEntriesPerSurface := ∅
  cachedObligationsPerSurface := ∅
  cachedEntriesPerClient := ∅
  cachedObligationsPerClient := ∅
  cachedEntriesTotal := 0
  cachedObligationsTotal := 0
  cachedNodes := 0

variable (s : SurfaceTransactionState)

def replaceClientCounts (clientId : Option ℕ) (counts : HashMap ℕ ℕ) (old new : ℕ) : CacheCall (HashMap ℕ ℕ) :=
  match clientId with
  | some client => replaceCachedMapCount counts client old new
  | none => .ok counts

variable (surfaceId : ℕ)

def replaceCachedAccounting (clientId : Option ℕ)
    (oldEntries newEntries oldObligations newObligations : ℕ) : CacheCall SurfaceTransactionState := do
  let entriesTotal ← replaceCachedCount s.cachedEntriesTotal oldEntries newEntries
  let obligationsTotal ← replaceCachedCount s.cachedObligationsTotal oldObligations newObligations
  let entriesPerSurface ← replaceCachedMapCount s.cachedEntriesPerSurface surfaceId oldEntries newEntries
  let obligationsPerSurface ←
    replaceCachedMapCount s.cachedObligationsPerSurface surfaceId oldObligations newObligations
  let entriesPerClient ← replaceClientCounts clientId s.cachedEntriesPerClient oldEntries newEntries
  let obligationsPerClient ← replaceClientCounts clientId s.cachedObligationsPerClient oldObligations newObligations
  let nodes ← replaceCachedNodes s.cachedNodes oldEntries newEntries
  return { s with
    cachedEntriesPerSurface := entriesPerSurface
    cachedObligationsPerSurface := obligationsPerSurface
    cachedEntriesPerClient := entriesPerClient
    cachedObligationsPerClient := obligationsPerClient
    cachedEntriesTotal := entriesTotal
    cachedObligationsTotal := obligationsTotal
    cachedNodes := nodes }

def ancestorsAvoid (roles : HashMap ℕ SubsurfaceRoleState) (surfaceId : ℕ) : ℕ → ℕ → CacheCall Bool
  | 0, _ => Run.diverge
  | fuel + 1, id =>
    if id = surfaceId then .ok false
    else match roles.lookup id with
      | some role => ancestorsAvoid roles surfaceId fuel role.parentId
      | none => .ok true

def registerWithClient (fuel surfaceId parentId : ℕ) (clientId : Option ℕ) :
    CacheCall (SurfaceTransactionState × Bool) := do
  if surfaceId = parentId ∨ (s.roles.lookup surfaceId).isSome then return (s, false)
  if !(← ancestorsAvoid s.roles surfaceId fuel parentId) then return (s, false)
  if U64.top ≤ s.nextRelationshipId then return (s, false)
  let role : SubsurfaceRoleState :=
    ⟨s.nextRelationshipId + 1, parentId, clientId, .synchronized, .pendingParentCommit, []⟩
  return ({ s with nextRelationshipId := s.nextRelationshipId + 1, roles := s.roles.insert surfaceId role }, true)

def withCommits (role : SubsurfaceRoleState) (commits : List CachedSubsurfaceCommit) :
    SurfaceTransactionState :=
  { s with roles := s.roles.insert surfaceId { role with cachedCommits := commits } }

def canMerge (role : SubsurfaceRoleState) (commit : CachedSubsurfaceCommit) : Bool :=
  role.cachedCommits.getLast?.any fun tail =>
    !tail.lineage.mergeFrozen && !tail.pacing.isBoundary && !commit.pacing.isBoundary

def cacheRejection (clientId : Option ℕ) (newEntries newObligations newClientEntries newClientObligations
    newTotalEntries newTotalObligations : ℕ) : Option CacheAdmissionFailure :=
  if maxCommitsPerSurface < newEntries then some .perSurfaceEntryLimit
  else if maxObligationsPerSurface < newObligations then some .perSurfaceObligationLimit
  else if clientId.isSome ∧ maxCommitsPerClient < newClientEntries then some .perClientEntryLimit
  else if clientId.isSome ∧ maxObligationsPerClient < newClientObligations then some .perClientObligationLimit
  else if maxCommitsTotal < newTotalEntries then some .totalEntryLimit
  else if maxObligationsTotal < newTotalObligations then some .totalObligationLimit
  else none

/-- What `cache_commit` computes before it touches anything: the surface's new entry and obligation counts, or why the
commit is rejected. -/
def admitCommit (role : SubsurfaceRoleState) (commit : CachedSubsurfaceCommit) :
    Except CacheAdmissionFailure (ℕ × ℕ) :=
  let oldEntries := role.cachedCommits.length
  let oldObligations := (s.cachedObligationsPerSurface.lookup surfaceId).getD 0
  let newEntries? := if canMerge role commit then some oldEntries else checkedAdd oldEntries 1
  -- a merge counts the merged tail only, whatever stands before it in the queue
  let newObligations? := if canMerge role commit then
      role.cachedCommits.getLast?.map (·.mergedCachedObligationCount commit)
    else checkedAdd oldObligations commit.cachedObligationCount
  match newEntries?, newObligations? with
  | some newEntries, some newObligations =>
    let client (counts : HashMap ℕ ℕ) := (role.clientId.bind counts.lookup).getD 0
    let clientCount (counts : HashMap ℕ ℕ) (old new : ℕ) :=
      if role.clientId.isSome then checkedReplaceCachedCount (client counts) old new else some 0
    match checkedReplaceCachedCount s.cachedEntriesTotal oldEntries newEntries,
      checkedReplaceCachedCount s.cachedObligationsTotal oldObligations newObligations,
      clientCount s.cachedEntriesPerClient oldEntries newEntries,
      clientCount s.cachedObligationsPerClient oldObligations newObligations with
    | some totalEntries, some totalObligations, some clientEntries, some clientObligations =>
      match cacheRejection role.clientId newEntries newObligations clientEntries clientObligations totalEntries
        totalObligations with
      | some reason => .error reason
      | none => .ok (newEntries, newObligations)
    | _, _, _, _ => .error .accountingInvariant
  | _, _ => .error .accountingInvariant

def queueWith (role : SubsurfaceRoleState) (commit : CachedSubsurfaceCommit) : List CachedSubsurfaceCommit :=
  match canMerge role commit, role.cachedCommits.getLast? with
  | true, some tail => role.cachedCommits.dropLast ++ [tail.merge commit]
  | _, _ => role.cachedCommits ++ [commit]

def cacheCommit (commit : CachedSubsurfaceCommit) :
    CacheCall (SurfaceTransactionState × CacheCommitOutcome) :=
  match s.roles.lookup surfaceId with
  | none => .ok (s, .rejected commit .missingRole)
  | some role =>
    match s.admitCommit surfaceId role commit with
    | .error reason => .ok (s, .rejected commit reason)
    | .ok (newEntries, newObligations) => do
      let outcome := if canMerge role commit then
          CacheCommitOutcome.merged (role.cachedCommits.getLast?.bind (·.supersededBuffer commit))
        else .inserted
      let s' ← (s.withCommits surfaceId role (queueWith role commit)).replaceCachedAccounting surfaceId role.clientId
        role.cachedCommits.length newEntries ((s.cachedObligationsPerSurface.lookup surfaceId).getD 0) newObligations
      return (s', outcome)

def takeCachedCommitsForSurface :
    CacheCall (SurfaceTransactionState × List CachedSubsurfaceCommit) :=
  match s.roles.lookup surfaceId with
  | none => .ok (s, [])
  | some role => do
    let s' ← (s.withCommits surfaceId role []).replaceCachedAccounting surfaceId role.clientId
      role.cachedCommits.length 0 ((s.cachedObligationsPerSurface.lookup surfaceId).getD 0) 0
    return (s', role.cachedCommits)

def takeCachedCommitsThrough (reference : ContentUpdateRef) :
    CacheCall (SurfaceTransactionState × Option (List CachedSubsurfaceCommit)) :=
  match s.roles.lookup reference.surfaceId with
  | none => .ok (s, none)
  | some role =>
    match role.cachedCommits.findIdx? (·.contentUpdateRef reference.surfaceId = reference) with
    | none => .ok (s, none)
    | some target => do
      let remaining := role.cachedCommits.drop (target + 1)
      let s' ← (s.withCommits reference.surfaceId role remaining).replaceCachedAccounting reference.surfaceId
        role.clientId role.cachedCommits.length remaining.length
        ((s.cachedObligationsPerSurface.lookup reference.surfaceId).getD 0) (obligationsOf remaining)
      return (s', some (role.cachedCommits.take (target + 1)))

def detachRole :
    CacheCall (SurfaceTransactionState × Option (SubsurfaceRoleState × List CachedSubsurfaceCommit)) :=
  match s.roles.lookup surfaceId with
  | none => .ok (s, none)
  | some role => do
    let s' ← { s with roles := s.roles.erase surfaceId : SurfaceTransactionState }.replaceCachedAccounting surfaceId
      role.clientId role.cachedCommits.length 0 (obligationsOf role.cachedCommits) 0
    return (s', some (role, role.cachedCommits))

def childrenOf (id : ℕ) : List ℕ :=
  (s.roles.keys.filter fun child => (s.roles.lookup child).any (·.parentId = id)).sort (· ≤ ·)

def removePending (s : SurfaceTransactionState) :
    ℕ → List ℕ → List CachedSubsurfaceCommit → CacheCall (SurfaceTransactionState × List CachedSubsurfaceCommit)
  | _, [], removed => .ok (s, removed)
  | 0, _ :: _, _ => Run.diverge
  | fuel + 1, id :: pending, removed => do
    let children := s.childrenOf id
    let (s', detached) ← s.detachRole id
    removePending s' fuel (children.reverse ++ pending) (removed ++ (detached.map (·.2)).getD [])

def removeSubtree (fuel surfaceId : ℕ) : CacheCall (SurfaceTransactionState × List CachedSubsurfaceCommit) :=
  s.removePending fuel [surfaceId] []

def takeAll (s : SurfaceTransactionState) :
    List ℕ → List CachedSubsurfaceCommit → CacheCall (SurfaceTransactionState × List CachedSubsurfaceCommit)
  | [], commits => .ok (s, commits)
  | surfaceId :: surfaceIds, commits => do
    let (s', taken) ← s.takeCachedCommitsForSurface surfaceId
    takeAll s' surfaceIds (commits ++ taken)

def drainCachedCommits : CacheCall (SurfaceTransactionState × List CachedSubsurfaceCommit) :=
  s.takeAll (s.roles.keys.sort (· ≤ ·)) []

end SurfaceTransactionState
end Typhon.Surfaces
