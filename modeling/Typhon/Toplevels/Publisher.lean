import Typhon.Foundation.Word64
import Typhon.Foundation.Smallest

/-! The publisher of the window list. Changes of windows are marked, collected into a target and sent to the bound
managers in batches; a target that arrives during a transaction waits for its end. -/

namespace Typhon.Toplevels
open Foundation

abbrev WindowId := ℕ

abbrev ManagerId := ℕ

abbrev HandleId := ℕ

def maxAstreaToplevelsPerManager : ℕ := 4096

def maxAstreaToplevelUpdatesPerCycle : ℕ := 256

def maxAstreaEligibleWindows : ℕ := 65536

def maxAstreaToplevelDirtyWindows : ℕ := 8192

/-! ### Snapshots -/

structure ToplevelIcon where
  name : String
  image : Option (List ℕ)
  deriving DecidableEq

inductive AstreaToplevelKind where
  | xdgToplevel | x11Toplevel | x11Dialog
  deriving DecidableEq

structure AstreaToplevelSnapshot where
  appId : String
  title : String
  pid : ℕ
  kind : AstreaToplevelKind
  states : ℕ
  focusSerial : ℕ
  icon : Option ToplevelIcon
  deriving DecidableEq

abbrev Snapshots := HashMap WindowId AstreaToplevelSnapshot

structure AstreaToplevelCollection where
  snapshots : Snapshots
  eligibleIds : Finset WindowId
  total : ℕ
  deriving DecidableEq

def largestKey (snapshots : Snapshots) : Option WindowId :=
  if h : snapshots.keys.Nonempty then some (snapshots.keys.max' h) else none

def insertBounded (snapshots : Snapshots) (windowId : WindowId) (snapshot : AstreaToplevelSnapshot) : Snapshots :=
  let snapshots := snapshots.insert windowId snapshot
  if maxAstreaToplevelsPerManager < snapshots.keys.card then
    match largestKey snapshots with
    | some largest => snapshots.erase largest
    | none => snapshots
  else snapshots

/-- The windows are those that may be published, each with its snapshot. They are visited in the order of the hash
map that holds all windows. -/
def collectAstreaToplevels (order : HashMap.Order WindowId) (windows : Snapshots) : Option AstreaToplevelCollection :=
  (order.visit windows.keys).foldlM (fun collection windowId =>
    match windows.lookup windowId with
    | none => some collection
    | some snapshot =>
      if maxAstreaEligibleWindows ≤ collection.eligibleIds.card then none
      else some ⟨insertBounded collection.snapshots windowId snapshot, insert windowId collection.eligibleIds,
        min (collection.total + 1) U32.top⟩) ⟨∅, ∅, 0⟩

def applyDirtySnapshot (target : AstreaToplevelCollection) (windowId : WindowId) :
    Option AstreaToplevelSnapshot → AstreaToplevelCollection
  | some snapshot =>
    { target with
      eligibleIds := insert windowId target.eligibleIds
      snapshots := insertBounded target.snapshots windowId snapshot }
  | none =>
    { target with
      eligibleIds := target.eligibleIds.erase windowId
      snapshots := target.snapshots.erase windowId }

abbrev DirtySnapshots := HashMap WindowId (Option AstreaToplevelSnapshot)

def applyDirtySnapshots (target : AstreaToplevelCollection) (dirtySnapshots : DirtySnapshots) :
    AstreaToplevelCollection :=
  let target := (ascending dirtySnapshots.keys).foldl (fun target windowId =>
    match dirtySnapshots.lookup windowId with
    | some snapshot => applyDirtySnapshot target windowId snapshot
    | none => target) target
  { target with total := min target.eligibleIds.card U32.top }

/-! ### Managers -/

inductive HandleEvent where
  | identifier (windowId : WindowId)
  | appId (appId : String)
  | title (title : String)
  | pid (pid : ℕ)
  | kind (kind : AstreaToplevelKind)
  | state (states : ℕ)
  | focusSerial (serial : ℕ)
  | iconName (name : String)
  | iconPixels (image : List ℕ)
  | done (revision : ℕ)
  | closed

/-- What passes between the publisher and the client of a manager: the events that are sent, and the requests by
which the client destroys a handle. -/
inductive Message where
  | toplevel (handle : HandleId)
  | handle (handle : HandleId) (event : HandleEvent)
  | done (revision total : ℕ) (truncated : Bool)
  | destroyed (handle : HandleId)

def wireStates (states : ℕ) : ℕ := states % 16

def sendIcon (version : ℕ) (icon : Option ToplevelIcon) : List HandleEvent :=
  if version < 4 then []
  else .iconName ((icon.map (·.name)).getD "") :: ((icon.bind (·.image)).map HandleEvent.iconPixels).toList

def sendInitialHandle (version : ℕ) (windowId : WindowId) (snapshot : AstreaToplevelSnapshot) (revision : ℕ) :
    List HandleEvent :=
  [.identifier windowId, .appId snapshot.appId, .title snapshot.title, .pid snapshot.pid, .kind snapshot.kind,
      .state (wireStates snapshot.states), .focusSerial snapshot.focusSerial] ++
    (if snapshot.icon.isSome then sendIcon version snapshot.icon else []) ++ [.done revision]

def whenChanged {α : Type} [DecidableEq α] (old new : α) (events : List HandleEvent) : List HandleEvent :=
  if old = new then [] else events

def sendChangedHandle (version : ℕ) (old new : AstreaToplevelSnapshot) (revision : ℕ) : List HandleEvent :=
  whenChanged old.appId new.appId [.appId new.appId] ++ whenChanged old.title new.title [.title new.title] ++
    whenChanged old.pid new.pid [.pid new.pid] ++ whenChanged old.kind new.kind [.kind new.kind] ++
    whenChanged old.states new.states [.state (wireStates new.states)] ++
    whenChanged old.focusSerial new.focusSerial [.focusSerial new.focusSerial] ++
    whenChanged old.icon new.icon (sendIcon version new.icon) ++ [.done revision]

inductive AstreaManagerLifecycle where
  | pendingInitial | active
  deriving DecidableEq

/-- The messages of the manager stand in `messages`, the oldest first; `nextHandle` is the next unused object. -/
structure AstreaToplevelManagerBinding where
  version : ℕ
  activeHandles : HashMap WindowId (HandleId × AstreaToplevelSnapshot)
  suppressed : Finset WindowId
  lifecycle : AstreaManagerLifecycle
  lastTotal : ℕ
  lastTruncated : Bool
  lastRevision : ℕ
  nextHandle : HandleId
  messages : List Message

namespace AstreaToplevelManagerBinding
variable (binding : AstreaToplevelManagerBinding)

def createHandle (windowId : WindowId) (snapshot : AstreaToplevelSnapshot) (revision : ℕ) :
    AstreaToplevelManagerBinding :=
  { binding with
    activeHandles := binding.activeHandles.insert windowId (binding.nextHandle, snapshot)
    nextHandle := binding.nextHandle + 1
    messages := binding.messages ++ .toplevel binding.nextHandle ::
      (sendInitialHandle binding.version windowId snapshot revision).map (.handle binding.nextHandle) }

def closeActiveHandle (windowId : WindowId) : AstreaToplevelManagerBinding :=
  match binding.activeHandles.lookup windowId with
  | none => binding
  | some (handle, _) =>
    { binding with
      activeHandles := binding.activeHandles.erase windowId
      messages := binding.messages ++ [.handle handle .closed] }

def publishWindow (oldCanonical : Snapshots) (target : AstreaToplevelCollection) (revision : ℕ) (windowId : WindowId) :
    AstreaToplevelManagerBinding :=
  match target.snapshots.lookup windowId with
  | none =>
    let binding := binding.closeActiveHandle windowId
    if windowId ∈ target.eligibleIds then binding
    else { binding with suppressed := binding.suppressed.erase windowId }
  | some snapshot =>
    if windowId ∈ binding.suppressed then binding
    else
      match binding.activeHandles.lookup windowId with
      | some (handle, shown) =>
        if oldCanonical.lookup windowId ≠ some snapshot then
          { binding with
            activeHandles := binding.activeHandles.insert windowId (handle, snapshot)
            messages := binding.messages ++
              (sendChangedHandle binding.version shown snapshot revision).map (.handle handle) }
        else binding
      | none => binding.createHandle windowId snapshot revision

def sendManagerDone (revision total : ℕ) : AstreaToplevelManagerBinding :=
  { binding with
    messages := binding.messages ++ [.done revision total (maxAstreaToplevelsPerManager < total)]
    lastTotal := total
    lastTruncated := maxAstreaToplevelsPerManager < total
    lastRevision := revision }

def createInitialHandles (collection : AstreaToplevelCollection) (revision : ℕ) : AstreaToplevelManagerBinding :=
  (ascending collection.snapshots.keys).foldl (fun binding windowId =>
    match collection.snapshots.lookup windowId with
    | some snapshot => binding.createHandle windowId snapshot revision
    | none => binding) binding

def removeHandle (windowId : WindowId) : AstreaToplevelManagerBinding :=
  match binding.activeHandles.lookup windowId with
  | none => binding
  | some (handle, _) =>
    { binding with
      activeHandles := binding.activeHandles.erase windowId
      suppressed := insert windowId binding.suppressed
      messages := binding.messages ++ [.destroyed handle] }

end AstreaToplevelManagerBinding

/-! ### The publisher -/

structure AstreaToplevelPublicationTransaction where
  revision : ℕ
  target : AstreaToplevelCollection
  remainingIds : Finset WindowId

/-- The managers stand in the order in which they were bound. Only the number of the failed ones matters. -/
structure AstreaToplevelPublisher where
  revision : ℕ
  canonical : Snapshots
  canonicalEligibleIds : Finset WindowId
  canonicalTotal : ℕ
  managers : List (ManagerId × AstreaToplevelManagerBinding)
  terminalManagers : List ManagerId
  dirtyWindows : Finset WindowId
  removedWindows : Finset WindowId
  structureDirty : Bool
  initialReconciliationPending : Bool
  transaction : Option AstreaToplevelPublicationTransaction
  nextCollection : Option AstreaToplevelCollection
  nextDirtySnapshots : DirtySnapshots
  nextStructureDirty : Bool

/-- What the resources of the clients allow during a call: a window or the end of a batch may fail to be delivered
to a manager, or a manager to be admitted, by the limits on resources or by a connection that is gone. -/
structure Deliveries where
  window : ManagerId → WindowId → Bool
  done : ManagerId → Bool
  admits : ManagerId → Bool
  alive : ManagerId → Bool

namespace AstreaToplevelPublisher

def start : AstreaToplevelPublisher :=
  ⟨0, ∅, ∅, 0, [], [], ∅, ∅, false, true, none, none, ∅, false⟩

variable (publisher : AstreaToplevelPublisher) (deliveries : Deliveries)

def hasActiveTransaction : Bool := publisher.transaction.isSome

def hasPendingPublication : Bool :=
  publisher.transaction.isSome || publisher.initialReconciliationPending || publisher.structureDirty ||
    publisher.nextStructureDirty || decide (publisher.dirtyWindows ≠ ∅) || decide (publisher.removedWindows ≠ ∅) ||
    decide (publisher.nextDirtySnapshots ≠ ∅) || publisher.nextCollection.isSome

def needsFullReconciliation : Bool :=
  publisher.initialReconciliationPending || publisher.structureDirty || publisher.nextStructureDirty

def managerCount : ℕ := publisher.managers.length + publisher.terminalManagers.length

def canonicalCollection : AstreaToplevelCollection :=
  ⟨publisher.canonical, publisher.canonicalEligibleIds, publisher.canonicalTotal⟩

def admissionCollection : AstreaToplevelCollection :=
  match publisher.transaction with
  | some transaction => transaction.target
  | none => publisher.canonicalCollection

variable (target : AstreaToplevelCollection)

def setCanonical : AstreaToplevelPublisher :=
  { publisher with
    canonical := target.snapshots
    canonicalEligibleIds := target.eligibleIds
    canonicalTotal := target.total }

def markWindowDirty (windowId : WindowId) : AstreaToplevelPublisher :=
  if maxAstreaToplevelDirtyWindows ≤ publisher.dirtyWindows.card ∧ windowId ∉ publisher.dirtyWindows then
    { publisher with structureDirty := true }
  else { publisher with dirtyWindows := insert windowId publisher.dirtyWindows }

def markStructureDirty : AstreaToplevelPublisher := { publisher with structureDirty := true }

def markWindowRemoved (windowId : WindowId) : AstreaToplevelPublisher :=
  (({ publisher with removedWindows := insert windowId publisher.removedWindows }).markWindowDirty
    windowId).markStructureDirty

def updateManagers (step : ManagerId → AstreaToplevelManagerBinding → Option AstreaToplevelManagerBinding) :
    AstreaToplevelPublisher :=
  { publisher with
    managers := publisher.managers.filterMap fun m => (step m.1 m.2).map fun binding => (m.1, binding)
    terminalManagers := publisher.terminalManagers ++
      (publisher.managers.filter fun m => (step m.1 m.2).isNone && deliveries.alive m.1).map Prod.fst }

def publishToManager (processIds : List WindowId) (revision : ℕ)
    (finalBatch : Bool) (managerId : ManagerId) (binding : AstreaToplevelManagerBinding) :
    Option AstreaToplevelManagerBinding := do
  let binding ← processIds.foldlM (fun binding windowId =>
    if deliveries.window managerId windowId then
      some (binding.publishWindow publisher.canonical target revision windowId)
    else none) binding
  if finalBatch then
    if deliveries.done managerId then some (binding.sendManagerDone revision target.total) else none
  else some binding

def publishDelta (processIds : List WindowId) (revision : ℕ) (finalBatch : Bool) :
    AstreaToplevelPublisher :=
  publisher.updateManagers deliveries fun managerId binding =>
    if binding.lifecycle = .active then
      publisher.publishToManager deliveries target processIds revision finalBatch managerId binding
    else some binding

def enumerate (collection : AstreaToplevelCollection) (revision : ℕ) (managerId : ManagerId)
    (binding : AstreaToplevelManagerBinding) : Option AstreaToplevelManagerBinding :=
  if (ascending collection.snapshots.keys).all (deliveries.window managerId) && deliveries.done managerId then
    some ((binding.createInitialHandles collection revision).sendManagerDone revision collection.total)
  else none

def initializePendingManagers (revision : ℕ) : AstreaToplevelPublisher :=
  publisher.updateManagers deliveries fun managerId binding =>
    if binding.lifecycle = .pendingInitial then
      if deliveries.admits managerId then
        enumerate deliveries publisher.canonicalCollection revision managerId { binding with lifecycle := .active }
      else none
    else some binding

def nextPublicationIds (transaction : AstreaToplevelPublicationTransaction) : List WindowId :=
  let ids := ((ascending transaction.remainingIds).filter fun windowId =>
    windowId ∉ transaction.target.snapshots).take maxAstreaToplevelUpdatesPerCycle
  if ids.length < maxAstreaToplevelUpdatesPerCycle then
    ids ++ ((ascending transaction.remainingIds).filter fun windowId => windowId ∉ ids).take
      (maxAstreaToplevelUpdatesPerCycle - ids.length)
  else ids

def processTransaction : AstreaToplevelPublisher :=
  match publisher.transaction with
  | none => publisher
  | some transaction =>
    let processIds := nextPublicationIds transaction
    let finalBatch := decide (transaction.remainingIds.card ≤ processIds.length)
    let publisher := publisher.publishDelta deliveries transaction.target processIds transaction.revision finalBatch
    let remainingIds := transaction.remainingIds \ processIds.toFinset
    if remainingIds = ∅ then
      ({ publisher.setCanonical transaction.target with transaction := none }).initializePendingManagers deliveries
        transaction.revision
    else { publisher with transaction := some { transaction with remainingIds := remainingIds } }

def diffIds : Finset WindowId :=
  (publisher.canonical.keys ∪ target.snapshots.keys ∪ publisher.canonicalEligibleIds ∪ target.eligibleIds).filter
    fun windowId => publisher.canonical.lookup windowId ≠ target.snapshots.lookup windowId ∨
      ¬(windowId ∈ publisher.canonicalEligibleIds ↔ windowId ∈ target.eligibleIds)

def startTransaction : AstreaToplevelPublisher :=
  { publisher with
    revision := (publisher.revision + 1) % 18446744073709551616
    transaction := some ⟨(publisher.revision + 1) % 18446744073709551616, target, publisher.diffIds target⟩ }

def queueDirtySnapshot (windowId : WindowId) (snapshot : Option AstreaToplevelSnapshot) : AstreaToplevelPublisher :=
  if publisher.nextDirtySnapshots.keys.card < maxAstreaToplevelDirtyWindows ∨
    windowId ∈ publisher.nextDirtySnapshots then
    { publisher with nextDirtySnapshots := publisher.nextDirtySnapshots.insert windowId snapshot }
  else { publisher with nextStructureDirty := true }

def queueFollowUp (collection : Option AstreaToplevelCollection) (dirtySnapshots : DirtySnapshots) :
    AstreaToplevelPublisher :=
  let publisher :=
    match collection with
    | some collection => { publisher with nextCollection := some collection, nextStructureDirty := true }
    | none => publisher
  (ascending dirtySnapshots.keys).foldl (fun publisher windowId =>
    match dirtySnapshots.lookup windowId with
    | some snapshot => publisher.queueDirtySnapshot windowId snapshot
    | none => publisher) publisher

def clearMarks : AstreaToplevelPublisher := { publisher with dirtyWindows := ∅, removedWindows := ∅ }

def publishTarget : AstreaToplevelPublisher :=
  let publisher := publisher.clearMarks
  if publisher.managerCount = 0 then
    (publisher.setCanonical target).initializePendingManagers deliveries publisher.revision
  else if publisher.canonicalCollection ≠ target then (publisher.startTransaction target).processTransaction deliveries
  else publisher.initializePendingManagers deliveries publisher.revision

def extend (snapshots dirtySnapshots : DirtySnapshots) : DirtySnapshots := dirtySnapshots ∪ snapshots

def reconcile (collection : Option AstreaToplevelCollection) (dirtySnapshots : DirtySnapshots) :
    AstreaToplevelPublisher :=
  if publisher.transaction.isSome then
    (({ publisher.queueFollowUp collection dirtySnapshots with structureDirty := false }).clearMarks).processTransaction
      deliveries
  else if publisher.needsFullReconciliation then
    match collection with
    | none => publisher
    | some collection =>
      ({ publisher with
        initialReconciliationPending := false
        structureDirty := false
        nextStructureDirty := false
        nextCollection := none
        nextDirtySnapshots := ∅ }).publishTarget deliveries collection
  else
    match publisher.nextCollection with
    | some collection =>
      ({ publisher with nextCollection := none, nextStructureDirty := false, nextDirtySnapshots := ∅ }).publishTarget
        deliveries (applyDirtySnapshots collection publisher.nextDirtySnapshots)
    | none =>
      if publisher.nextDirtySnapshots ≠ ∅ ∨ dirtySnapshots ≠ ∅ then
        ({ publisher with nextDirtySnapshots := ∅ }).publishTarget deliveries
          (applyDirtySnapshots publisher.canonicalCollection (extend publisher.nextDirtySnapshots dirtySnapshots))
      else publisher.clearMarks

def failAllManagers : AstreaToplevelPublisher := publisher.updateManagers deliveries fun _ _ => none

def clearFailedCollectionState : AstreaToplevelPublisher :=
  { publisher.clearMarks with
    initialReconciliationPending := false
    structureDirty := false
    nextStructureDirty := false
    nextCollection := none
    nextDirtySnapshots := ∅ }

def bindManager (managerId : ManagerId) (version : ℕ) : AstreaToplevelPublisher :=
  let collection := publisher.admissionCollection
  if managerId ∈ publisher.managers.map Prod.fst ∨ managerId ∈ publisher.terminalManagers then publisher
  else if publisher.transaction.isSome then
    { publisher with
      managers := publisher.managers ++ [(managerId, ⟨version, ∅, ∅, .pendingInitial, 0, false, 0, 0, []⟩)] }
  else
    match enumerate deliveries collection publisher.revision managerId ⟨version, ∅, ∅, .active, collection.total,
        maxAstreaToplevelsPerManager < collection.total, publisher.revision, 0, []⟩ with
    | some binding => { publisher with managers := publisher.managers ++ [(managerId, binding)] }
    | none =>
      { publisher with
        terminalManagers := publisher.terminalManagers ++ if deliveries.alive managerId then [managerId] else [] }

def removeManager (managerId : ManagerId) : AstreaToplevelPublisher :=
  { publisher with
    managers := publisher.managers.filter fun m => m.1 ≠ managerId
    terminalManagers := publisher.terminalManagers.filter (· ≠ managerId) }

def removeHandle (managerId : ManagerId) (windowId : WindowId) : AstreaToplevelPublisher :=
  { publisher with
    managers := publisher.managers.map fun m => if m.1 = managerId then (m.1, m.2.removeHandle windowId) else m }

end AstreaToplevelPublisher

/-! ### The compositor -/

structure Desktop where
  windows : Snapshots
  publisher : AstreaToplevelPublisher

inductive Mark where
  | dirty | removed | structural
  deriving DecidableEq

inductive DesktopEvent where
  | change (windowId : WindowId) (snapshot : Option AstreaToplevelSnapshot) (mark : Mark)
  | reconcile (deliveries : Deliveries)
  | bind (managerId : ManagerId) (version : ℕ) (deliveries : Deliveries) (admitted allocated : Bool)
  | removeManager (managerId : ManagerId)
  | removeHandle (managerId : ManagerId) (windowId : WindowId)

namespace Desktop
variable (order : HashMap.Order WindowId) (desktop : Desktop)

def start : Desktop := ⟨∅, .start⟩

def dirtySnapshots : DirtySnapshots :=
  HashMap.collect ((ascending (desktop.publisher.dirtyWindows ∪ desktop.publisher.removedWindows)).map fun windowId =>
    (windowId, desktop.windows.lookup windowId))

def reconcileAstreaToplevels (deliveries : Deliveries) : AstreaToplevelPublisher :=
  let publisher := desktop.publisher
  if publisher.hasPendingPublication = false then publisher
  else if publisher.needsFullReconciliation then
    match collectAstreaToplevels order desktop.windows with
    | some collection => publisher.reconcile deliveries (some collection) desktop.dirtySnapshots
    | none =>
      if publisher.hasActiveTransaction then publisher.reconcile deliveries none ∅
      else (publisher.failAllManagers deliveries).clearFailedCollectionState
  else publisher.reconcile deliveries none desktop.dirtySnapshots

def bind (managerId : ManagerId) (version : ℕ) (deliveries : Deliveries) (admitted allocated : Bool) :
    AstreaToplevelPublisher :=
  match collectAstreaToplevels order desktop.windows with
  | none => desktop.publisher
  | some collection =>
    if admitted then
      let publisher := desktop.publisher.reconcile deliveries (some collection) ∅
      if allocated then publisher.bindManager deliveries managerId version else publisher
    else desktop.publisher

def mark (publisher : AstreaToplevelPublisher) (windowId : WindowId) : Mark → AstreaToplevelPublisher
  | .dirty => publisher.markWindowDirty windowId
  | .removed => publisher.markWindowRemoved windowId
  | .structural => publisher.markStructureDirty

def step : DesktopEvent → Desktop
  | .change windowId snapshot m => ⟨desktop.windows.set windowId snapshot, mark desktop.publisher windowId m⟩
  | .reconcile deliveries => { desktop with publisher := desktop.reconcileAstreaToplevels order deliveries }
  | .bind managerId version deliveries admitted allocated =>
    { desktop with publisher := desktop.bind order managerId version deliveries admitted allocated }
  | .removeManager managerId => { desktop with publisher := desktop.publisher.removeManager managerId }
  | .removeHandle managerId windowId => { desktop with publisher := desktop.publisher.removeHandle managerId windowId }

end Desktop
end Typhon.Toplevels
