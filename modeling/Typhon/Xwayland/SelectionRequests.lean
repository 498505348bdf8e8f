import Typhon.Foundation.Word64
import Typhon.Foundation.HashMap
import Typhon.Xwayland.Outgoing

/-! The pending requests of X11 clients for the clipboard, and the transfers that answer them and drag and drop. What
the prepared selection offers, which windows are Typhon's own, which deadlines have passed and what a pipe holds are
inputs of the events. -/

namespace Typhon.Xwayland.Requestors
open Foundation

/-! ### Monitors -/

structure RequestorMonitors where
  references : HashMap ℕ ℕ
  widened : Finset ℕ

namespace RequestorMonitors

def retainRequestor (m : RequestorMonitors) (internal : ℕ → Bool) (requestor : ℕ) : RequestorMonitors × Bool :=
  if internal requestor then (m, false)
  else
    match m.references.lookup requestor with
    | some references => ({ m with references := m.references.insert requestor (references + 1) }, true)
    | none => (⟨m.references.insert requestor 1, insert requestor m.widened⟩, true)

def releaseRequestor (m : RequestorMonitors) (requestor : ℕ) : RequestorMonitors :=
  match m.references.lookup requestor with
  | none => m
  | some references =>
    if 1 < references then { m with references := m.references.insert requestor (references - 1) }
    else ⟨m.references.erase requestor, m.widened.erase requestor⟩

end RequestorMonitors

/-! ### Requests and transfers -/

inductive SelectionKind where
  | clipboard
  | primary
  deriving DecidableEq

structure NotificationSignature where
  requestor : ℕ
  selection : ℕ
  target : ℕ
  time : ℕ
  deriving DecidableEq

inductive RequestState where
  | needsMultipleRead
  | processingMultiple
  | waitingTransfer
  | readySuccess
  | readyFailure
  deriving DecidableEq

def RequestState.ready (success : Bool) : RequestState := if success then .readySuccess else .readyFailure

structure MultipleState where
  property : ℕ
  pairs : List (ℕ × ℕ)
  cursor : ℕ
  deriving DecidableEq

structure TopLevelRequest where
  id : ℕ
  kind : SelectionKind
  signature : NotificationSignature
  effectiveProperty : ℕ
  arrivalSequence : ℕ
  requestorMonitored : Bool
  state : RequestState
  multiple : Option MultipleState
  deriving DecidableEq

structure ConversionOwner where
  requestId : ℕ
  multiplePair : Option ℕ
  deriving DecidableEq

structure ActiveTransfer (ω : Type) where
  id : ℕ
  requestor : ℕ
  property : ℕ
  owner : ω
  transport : OutgoingTransfer
  deriving DecidableEq

def ActiveTransfer.pair {ω : Type} (t : ActiveTransfer ω) : ℕ × ℕ := (t.requestor, t.property)

def ActiveTransfer.waitsForDelete {ω : Type} (t : ActiveTransfer ω) : Bool :=
  decide (t.transport.phase = .waitingForInitialDelete ∨ t.transport.phase = .waitingForChunkDelete)

abbrev SelectionTransfer := ActiveTransfer (SelectionKind × ConversionOwner)

structure Bridge where
  monitors : RequestorMonitors
  requests : List TopLevelRequest
  notificationOrder : List (NotificationSignature × List ℕ)
  nextRequestId : ℕ
  nextArrivalSequence : ℕ
  selection : List SelectionTransfer
  pendingRequests : List ℕ
  nextTransferId : ℕ
  dnd : List (ActiveTransfer ℕ)
  dndRequests : List ℕ
  nextTransferSerial : ℕ

def maxPendingProxySelectionRequests : ℕ := 64
def maxActiveOutgoingSelectionTransfers : ℕ := 64
def maxActiveDndTransfers : ℕ := 64
def maxPendingDndRequests : ℕ := 64

def putTransfer {ω : Type} (t : ActiveTransfer ω) (table : List (ActiveTransfer ω)) : List (ActiveTransfer ω) :=
  table.orderedInsert (fun a b => a.id ≤ b.id) t

inductive TargetBinding where
  | stored
  | unsupported
  | transfer

/-- The surroundings of a call. The binding of a target is what the prepared selection makes of it: `TARGETS` and
`TIMESTAMP` are stored at once. A pipe may fail to be created. -/
structure Surroundings where
  internal : ℕ → Bool
  authority : Bool
  prepared : Bool
  binding : ℕ → TargetBinding
  active : Bool
  maximumRequestBytes : ℕ
  pipe : ℕ → Bool

namespace Bridge

variable (s : Bridge)

def request (id : ℕ) : Option TopLevelRequest := s.requests.find? fun r => decide (r.id = id)

def modifyRequest (id : ℕ) (f : TopLevelRequest → TopLevelRequest) : Bridge :=
  { s with requests := s.requests.map fun r => if r.id = id then f r else r }

def releaseRequestor (requestor : ℕ) : Bridge :=
  { s with monitors := s.monitors.releaseRequestor requestor }

def releaseAll (requestors : List ℕ) : Bridge :=
  { s with monitors := requestors.foldl RequestorMonitors.releaseRequestor s.monitors }

def removeRequest (r : TopLevelRequest) : Bridge :=
  let s := { s with requests := s.requests.eraseP fun q => decide (q.id = r.id) }
  if r.requestorMonitored then s.releaseRequestor r.signature.requestor else s

def flushQueue : List ℕ → Bridge → Bridge × List ℕ
  | [], s => (s, [])
  | id :: ids, s =>
    match s.request id with
    | none => flushQueue ids s
    | some r =>
      if r.state = .readySuccess ∨ r.state = .readyFailure then flushQueue ids (s.removeRequest r)
      else (s, id :: ids)

def flushOrder (acc : Bridge × List (NotificationSignature × List ℕ)) (order : NotificationSignature × List ℕ) :
    Bridge × List (NotificationSignature × List ℕ) :=
  let (s, ids) := flushQueue order.2 acc.1
  (s, if ids = [] then acc.2 else acc.2 ++ [(order.1, ids)])

def flushOrderedNotifies : Bridge :=
  let (s, orders) := s.notificationOrder.foldl flushOrder (s, [])
  { s with notificationOrder := orders }

def setReady (id : ℕ) (success : Bool) : Bridge :=
  match s.request id with
  | none => s
  | some _ => (s.modifyRequest id fun r => { r with state := .ready success }).flushOrderedNotifies

/-! ### Starting conversions -/

def propertyInUse (requestor property : ℕ) : Bool :=
  s.selection.any fun t => decide (t.pair = (requestor, property))

def startTransfer (env : Surroundings) (kind : SelectionKind) (requestor property : ℕ) (owner : ConversionOwner)
    (s : Bridge) : Bridge × Bool :=
  if env.active = false ∨ maxActiveOutgoingSelectionTransfers ≤ s.selection.length ∨
      maxPendingProxySelectionRequests ≤ s.pendingRequests.length ∨ s.propertyInUse requestor property then (s, false)
  else
    match OutgoingTransfer.start env.maximumRequestBytes with
    | none => (s, false)
    | some transport =>
      if U64.top ≤ s.nextTransferId ∨ env.pipe (s.nextTransferId + 1) = false then (s, false)
      else
        match s.monitors.retainRequestor env.internal requestor with
        | (_, false) => (s, false)
        | (monitors, true) =>
          ({ s with
              monitors
              nextTransferId := s.nextTransferId + 1
              pendingRequests := s.pendingRequests ++ [s.nextTransferId + 1]
              selection := putTransfer ⟨s.nextTransferId + 1, requestor, property, (kind, owner), transport⟩
                s.selection }, true)

inductive ConversionStart where
  | ready (success : Bool)
  | waiting

def startConversion (env : Surroundings) (r : TopLevelRequest) (target property : ℕ) (multiplePair : Option ℕ)
    (s : Bridge) : Bridge × ConversionStart :=
  if env.prepared = false ∨ property = 0 then (s, .ready false)
  else if (s.requests.any fun q =>
        decide (q.id ≠ r.id ∧ q.signature.requestor = r.signature.requestor ∧ q.effectiveProperty = property)) ∨
      multiplePair.isSome ∧ (r.multiple.any fun m => decide (m.property = property)) ∨
      s.propertyInUse r.signature.requestor property then (s, .ready false)
  else
    match env.binding target with
    | .stored => (s, .ready true)
    | .unsupported => (s, .ready false)
    | .transfer =>
      match s.startTransfer env r.kind r.signature.requestor property ⟨r.id, multiplePair⟩ with
      | (s, true) => (s, .waiting)
      | (s, false) => (s, .ready false)

def settlePair (success : Bool) (r : TopLevelRequest) : TopLevelRequest :=
  { r with multiple := r.multiple.map fun m =>
      { m with
        pairs := if success then m.pairs else m.pairs.modify m.cursor fun pair => (0, pair.2)
        cursor := m.cursor + 1 } }

def advancePairs (env : Surroundings) (id : ℕ) : List (ℕ × ℕ) → ℕ → Bridge → Bridge
  | [], _, s => s.setReady id true
  | (target, property) :: pairs, index, s =>
    match s.request id with
    | none => s
    | some r =>
      match s.startConversion env r target property (some index) with
      | (s, .ready success) => advancePairs env id pairs (index + 1) (s.modifyRequest id (settlePair success))
      | (s, .waiting) => s.modifyRequest id fun r => { r with state := .waitingTransfer }

def advanceMultiple (env : Surroundings) (id : ℕ) (s : Bridge) : Bridge :=
  match (s.request id).bind (·.multiple) with
  | none => s
  | some m => if env.authority then advancePairs env id (m.pairs.drop m.cursor) m.cursor s else s

def conversionReady (env : Surroundings) (owner : ConversionOwner) (success : Bool) (s : Bridge) : Bridge :=
  match s.request owner.requestId, owner.multiplePair with
  | none, _ => s
  | some _, none =>
    (s.modifyRequest owner.requestId fun r => { r with state := .ready success }).flushOrderedNotifies
  | some r, some pair =>
    match r.multiple with
    | none => s
    | some m =>
      if m.cursor ≠ pair ∨ m.pairs.length ≤ pair then s
      else
        (s.modifyRequest owner.requestId fun r =>
          { settlePair success r with state := .processingMultiple }).advanceMultiple env owner.requestId

/-! ### Ends of clipboard transfers -/

def dropTransfers (p : SelectionTransfer → Bool) (s : Bridge) : Bridge :=
  { s with
    selection := s.selection.filter fun t => !p t
    pendingRequests := s.pendingRequests.filter fun id =>
      !(s.selection.any fun t => p t && decide (t.id = id)) }.releaseAll
    ((s.selection.filter p).map ActiveTransfer.requestor)

def cancelOwner (id : ℕ) : Bridge → Bridge := dropTransfers fun t => decide (t.owner.2.requestId = id)

def takeTransfer (id : ℕ) : Option (SelectionTransfer × Bridge) :=
  (s.selection.find? fun t => decide (t.id = id)).map fun t =>
    (t, { s with selection := s.selection.eraseP fun t => decide (t.id = id) })

def settleTransfer (t : SelectionTransfer) (transport : Option OutgoingTransfer) (s : Bridge) : Bridge :=
  match transport with
  | some transport => { s with selection := putTransfer { t with transport } s.selection }
  | none => s.releaseRequestor t.requestor

def conversionOutcome (before : OutgoingTransfer) (after : Option OutgoingTransfer × List UInt8 × List PropertyEvent) :
    Option Bool :=
  match before.phase with
  | .awaitSourceAcceptance | .readingDirect =>
    match after.1 with
    | some transport => if transport.phase = .waitingForInitialDelete then some true else none
    | none => some (!after.2.2.isEmpty)
  | _ => none

def pumpTransfer (env : Surroundings) (id : ℕ)
    (pump : OutgoingTransfer → Option OutgoingTransfer × List UInt8 × List PropertyEvent) (s : Bridge) : Bridge :=
  match s.takeTransfer id with
  | none => s
  | some (t, s) =>
    let after := pump t.transport
    let s := match conversionOutcome t.transport after with
      | some success => s.conversionReady env t.owner.2 success
      | none => s
    s.settleTransfer t after.1

def expireTransfer (env : Surroundings) (s : Bridge) (id : ℕ) : Bridge :=
  match s.takeTransfer id with
  | none => s
  | some (t, s) =>
    let s := { s with pendingRequests := s.pendingRequests.filter fun id => decide (id ≠ t.id) }
    let s := if t.transport.notifyReady then s else s.conversionReady env t.owner.2 false
    s.releaseRequestor t.requestor

/-! ### Drag and drop -/

def startDndTransfer (env : Surroundings) (source requestor property : ℕ) (s : Bridge) : Bridge :=
  if env.active = false ∨ maxActiveDndTransfers ≤ s.dnd.length ∨ maxPendingDndRequests ≤ s.dndRequests.length ∨
      s.dnd.any fun t => decide (t.pair = (requestor, property)) then s
  else
    match OutgoingTransfer.start env.maximumRequestBytes with
    | none => s
    | some transport =>
      if U64.top ≤ s.nextTransferSerial then s
      else
        match s.monitors.retainRequestor env.internal requestor with
        | (_, false) => s
        | (monitors, true) =>
          let s := { s with monitors }
          if env.pipe (s.nextTransferSerial + 1) = false then s.releaseRequestor requestor
          else
            { s with
              nextTransferSerial := s.nextTransferSerial + 1
              dndRequests := s.dndRequests ++ [s.nextTransferSerial + 1]
              dnd := putTransfer ⟨s.nextTransferSerial + 1, requestor, property, source, transport⟩ s.dnd }

def pumpDndTransfer (p : ActiveTransfer ℕ → Bool) (pump : OutgoingTransfer → Option OutgoingTransfer) (s : Bridge) :
    Bridge :=
  match s.dnd.find? p with
  | none => s
  | some t =>
    match pump t.transport with
    | some transport => { s with dnd := putTransfer { t with transport } (s.dnd.eraseP p) }
    | none => { s with dnd := s.dnd.eraseP p }.releaseRequestor t.requestor

def dropDndTransfers (p : ActiveTransfer ℕ → Bool) (s : Bridge) : Bridge :=
  { s with
    dnd := s.dnd.filter fun t => !p t
    dndRequests := s.dndRequests.filter fun id => !(s.dnd.any fun t => p t && decide (t.id = id)) }.releaseAll
    ((s.dnd.filter p).map ActiveTransfer.requestor)

/-! ### The events -/

def evictOldest : Bridge :=
  if maxPendingProxySelectionRequests ≤ s.requests.length then
    match s.requests.argmin (·.arrivalSequence) with
    | none => s
    | some oldest => ((s.cancelOwner oldest.id).setReady oldest.id false).flushOrderedNotifies
  else s

def pushOrder (signature : NotificationSignature) (id : ℕ) (orders : List (NotificationSignature × List ℕ)) :
    List (NotificationSignature × List ℕ) :=
  if orders.any fun order => decide (order.1 = signature) then
    orders.map fun order => if order.1 = signature then (order.1, order.2 ++ [id]) else order
  else orders ++ [(signature, [id])]

def admitRequest (env : Surroundings) (kind : SelectionKind) (signature : NotificationSignature)
    (effectiveProperty : ℕ) (s : Bridge) : Bridge × Option TopLevelRequest :=
  let s := s.evictOldest
  if maxPendingProxySelectionRequests ≤ s.requests.length ∨ U64.top ≤ s.nextRequestId ∨
      U64.top ≤ s.nextArrivalSequence then (s, none)
  else
    let (monitors, requestorMonitored) := s.monitors.retainRequestor env.internal signature.requestor
    let request : TopLevelRequest :=
      ⟨s.nextRequestId + 1, kind, signature, effectiveProperty, s.nextArrivalSequence + 1, requestorMonitored,
        .waitingTransfer, none⟩
    ({ s with
        monitors
        nextRequestId := s.nextRequestId + 1
        nextArrivalSequence := s.nextArrivalSequence + 1
        notificationOrder := pushOrder signature request.id s.notificationOrder
        requests := s.requests ++ [request] }, some request)

/-- `serves` says whether the selection, the owner and the time of the request are those of the serving authority. -/
def handleSelectionRequest (env : Surroundings) (kind : SelectionKind) (signature : NotificationSignature)
    (property : ℕ) (multiple serves : Bool) (s : Bridge) : Bridge :=
  let effectiveProperty := if property = 0 ∧ multiple = false then signature.target else property
  match s.admitRequest env kind signature effectiveProperty with
  | (s, none) => s
  | (s, some r) =>
    let s :=
      if (multiple = true ∧ property = 0) ∨ env.internal signature.requestor ∨ env.authority = false ∨ serves =
        false then s.setReady r.id false
      else if multiple then s.modifyRequest r.id fun r => { r with state := .needsMultipleRead }
      else
        match s.startConversion env r signature.target effectiveProperty none with
        | (s, .ready success) => s.setReady r.id success
        | (s, .waiting) => s.modifyRequest r.id fun r => { r with state := .waitingTransfer }
    s.flushOrderedNotifies

def multipleReply (env : Surroundings) (id : ℕ) (pairs : Option (List (ℕ × ℕ))) (s : Bridge) : Bridge :=
  match s.request id with
  | none => s
  | some r =>
    if r.state ≠ .needsMultipleRead then s
    else
      match pairs with
      | none => s.setReady id false
      | some pairs =>
        (s.modifyRequest id fun r =>
          { r with multiple := some ⟨r.effectiveProperty, pairs, 0⟩, state :=
            .processingMultiple }).advanceMultiple env id

def expireRequest (id : ℕ) : Bridge :=
  (s.cancelOwner id).modifyRequest id fun r => { r with state := .readyFailure }

def cancelChannel (kind : SelectionKind) (s : Bridge) : Bridge :=
  let ids := (s.requests.filter fun r => decide (r.kind = kind)).map (·.id)
  let s := (ids.foldl (fun s id => s.cancelOwner id) s).dropTransfers fun t => decide (t.owner.1 = kind)
  (ids.foldl (fun s id => s.modifyRequest id fun r => { r with state := .readyFailure }) s).flushOrderedNotifies

def requestorDestroyed (requestor : ℕ) (s : Bridge) : Bridge :=
  let s := s.dropDndTransfers fun t => decide (t.requestor = requestor)
  let gone := (s.requests.filter fun r => decide (r.signature.requestor = requestor)).map (·.id)
  { s with
    monitors := ⟨s.monitors.references.erase requestor, s.monitors.widened.erase requestor⟩
    requests := s.requests.filter fun r => decide (r.signature.requestor ≠ requestor)
    notificationOrder := (s.notificationOrder.map fun order =>
      (order.1, order.2.filter fun id => decide (id ∉ gone))).filter fun order => !order.2.isEmpty
    selection := s.selection.filter fun t => decide (t.requestor ≠ requestor)
    pendingRequests := s.pendingRequests.filter fun id =>
      !(s.selection.any fun t => decide (t.requestor = requestor ∧ t.id = id)) }

def propertyDeleted (requestor property : ℕ) (terminalConsumed : Bool) (s : Bridge) : Bridge :=
  if s.dnd.any fun t => decide (t.pair = (requestor, property)) && t.waitsForDelete then
    s.pumpDndTransfer (fun t => decide (t.pair = (requestor, property)) && t.waitsForDelete) fun transport =>
      (transport.handlePropertyDeleted .dnd terminalConsumed).1
  else
    match s.selection.find? fun t => decide (t.pair = (requestor, property)) && t.waitsForDelete with
    | none => s
    | some found =>
      match s.takeTransfer found.id with
      | none => s
      | some (t, s) => s.settleTransfer t t.transport.propertyDeleted.1

end Bridge

inductive Event where
  | selectionRequest (env : Surroundings) (kind : SelectionKind) (signature : NotificationSignature) (property : ℕ)
      (multiple serves : Bool)
  | multipleReply (env : Surroundings) (id : ℕ) (pairs : Option (List (ℕ × ℕ)))
  | resolveRequest (env : Surroundings) (id : ℕ) (unread : List UInt8) (accepted : Bool) (answers : List ReadAnswer)
  | sourceReady (env : Surroundings) (id : ℕ) (unread : List UInt8) (answers : List ReadAnswer)
  | takeRequests
  | expireTransfers (env : Surroundings) (expired : ℕ → Bool)
  | expireRequests (expired : ℕ → Bool)
  | cancelChannel (kind : SelectionKind)
  | requestorDestroyed (requestor : ℕ)
  | propertyDeleted (requestor property : ℕ) (terminalConsumed : Bool)
  | startDndTransfer (env : Surroundings) (source requestor property : ℕ)
  | resolveDndRequest (id : ℕ) (unread : List UInt8) (accepted current : Bool) (answers : List ReadAnswer)
  | dndSourceReady (id : ℕ) (unread : List UInt8) (terminalConsumed current : Bool) (answers : List ReadAnswer)
  | takeDndRequests
  | cancelDndSource (source : ℕ)
  | cancelDndGeneration
  | expireDndTransfers (expired : ℕ → Bool)

namespace Bridge

def step (s : Bridge) : Event → Bridge
  | .selectionRequest env kind signature property multiple serves =>
    s.handleSelectionRequest env kind signature property multiple serves
  | .multipleReply env id pairs => (s.multipleReply env id pairs).flushOrderedNotifies
  | .resolveRequest env id unread accepted answers =>
    s.pumpTransfer env id fun t => t.resolveAcceptance .selection unread accepted true answers
  | .sourceReady env id unread answers => s.pumpTransfer env id fun t =>
      t.handleSourceReady .selection unread false true answers
  | .takeRequests => { s with pendingRequests := [] }
  | .expireTransfers env expired =>
    ((s.selection.map (·.id)).filter expired).foldl (expireTransfer env) s
  | .expireRequests expired => (((s.requests.map (·.id)).filter expired).foldl expireRequest s).flushOrderedNotifies
  | .cancelChannel kind => s.cancelChannel kind
  | .requestorDestroyed requestor => s.requestorDestroyed requestor
  | .propertyDeleted requestor property terminalConsumed => s.propertyDeleted requestor property terminalConsumed
  | .startDndTransfer env source requestor property => s.startDndTransfer env source requestor property
  | .resolveDndRequest id unread accepted current answers =>
    s.pumpDndTransfer (fun t => decide (t.id = id)) fun t =>
      (t.resolveAcceptance .dnd unread accepted current answers).1
  | .dndSourceReady id unread terminalConsumed current answers =>
    s.pumpDndTransfer (fun t => decide (t.id = id)) fun t =>
      (t.handleSourceReady .dnd unread terminalConsumed current answers).1
  | .takeDndRequests => { s with dndRequests := [] }
  | .cancelDndSource source => s.dropDndTransfers fun t => decide (t.owner = source)
  | .cancelDndGeneration => { s.dropDndTransfers fun _ => true with dndRequests := [] }
  | .expireDndTransfers expired => s.dropDndTransfers fun t => expired t.id

def start : Bridge := ⟨⟨∅, ∅⟩, [], [], 0, 0, [], [], 0, [], [], 0⟩

def run (events : List Event) : Bridge := events.foldl step start

end Bridge
end Typhon.Xwayland.Requestors
