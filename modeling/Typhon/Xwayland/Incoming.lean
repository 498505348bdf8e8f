import Mathlib.Data.List.Basic
import Mathlib.Order.Lattice
import Mathlib.Order.Nat

/-! Data dragged from an X11 client to a Wayland client. The X11 source stores it in a property of a window of ours, at
once or announced by an INCR marker and in chunks; it is read in parts and written to the client's pipe. -/

namespace Typhon.Xwayland

def maxIncomingDndChunkBytes : ℕ := 64 * 1024

def incomingDndChunkUnits : ℕ := maxIncomingDndChunkBytes / 4

def maxWriteCallsPerDispatch : ℕ := 32

def maxWriteEintrRetriesPerDispatch : ℕ := 4

def maxOffsetUnits : ℕ := 4294967295

inductive PropertyType where
  | none
  | incr
  | other (atom : ℕ)
  deriving DecidableEq

structure PropertyValue where
  type : PropertyType
  format : ℕ
  bytes : List UInt8
  deriving DecidableEq

structure GetPropertyReply where
  type : PropertyType
  format : ℕ
  bytesAfter : ℕ
  value : List UInt8
  deriving DecidableEq

/-- The X server's answer to GetProperty from `offsetUnits` on; an offset behind the end is an error. -/
def getProperty : Option PropertyValue → ℕ → Option GetPropertyReply
  | none, _ => some ⟨.none, 0, 0, []⟩
  | some property, offsetUnits =>
    let rest := property.bytes.drop (4 * offsetUnits)
    if property.bytes.length < 4 * offsetUnits then none
    else some ⟨property.type, property.format, rest.length - 4 * incomingDndChunkUnits,
      rest.take (4 * incomingDndChunkUnits)⟩

inductive IncomingTransferPhase where
  | awaitSelectionNotify
  | readingProperty
  | waitingForIncrValue
  deriving DecidableEq

inductive IncomingPropertyMode where
  | initial
  | direct
  | incr
  deriving DecidableEq

inductive ContinueAfterWrite where
  | none
  | readMoreProperty
  | readNextIncrChunk
  | finish
  deriving DecidableEq

/-- `pendingReply` is the answer of the read whose sequence number the transfer waits for; replies to reads that were
replaced by a later one are dropped. -/
structure IncomingTransfer where
  phase : IncomingTransferPhase
  mode : IncomingPropertyMode
  offsetUnits : ℕ
  bytesAfter : ℕ
  expectedTypeFormat : Option (PropertyType × ℕ)
  buffer : List UInt8
  written : ℕ
  continueAfterWrite : ContinueAfterWrite
  sinkOpen : Bool
  sinkWritableInterest : Bool
  pendingReply : Option (Option GetPropertyReply)
  deriving DecidableEq

inductive WriteAnswer where
  | wrote (count : ℕ)
  | wouldBlock
  | interrupted
  | failed
  deriving DecidableEq

inductive TransferEnding where
  | lastPart (sinkOpen : Bool)
  | givenUp
  deriving DecidableEq

/-- A transfer with its surroundings: the property, the values the source has still to store, the new-value events on
their way, and what was written to the sink. -/
structure Incoming where
  transfer : Option IncomingTransfer
  property : Option PropertyValue
  upcoming : List (List UInt8)
  announced : ℕ
  sunk : List UInt8
  ending : Option TransferEnding
  deriving DecidableEq

namespace Incoming
variable (w : Incoming)

def finishTransfer : Incoming := { w with transfer := none, ending := some .givenUp }

/-- `room` is false when as many replies are outstanding, over all transfers, as are allowed. -/
def issueTransferPropertyRead (room : Bool) (t : IncomingTransfer) : Incoming :=
  if room then { w with transfer := some { t with pendingReply := some (getProperty w.property t.offsetUnits) } }
  else { w with transfer := some t }

def resumeAfterTransferBuffer (room : Bool) (t : IncomingTransfer) : Incoming :=
  match t.continueAfterWrite with
  | .readMoreProperty => w.issueTransferPropertyRead room { t with phase := .readingProperty }
  | .readNextIncrChunk =>
    { w with
      property := none
      transfer := some { t with
        phase := .waitingForIncrValue, offsetUnits := 0, bytesAfter := 0, continueAfterWrite := .none } }
  | .finish => { w with property := none, transfer := none, ending := some (.lastPart t.sinkOpen) }
  | .none => { w with transfer := some t }

def writeTransferBuffer (room : Bool) (w : Incoming) (t : IncomingTransfer) (calls eintrRetries : ℕ)
    (answers : List WriteAnswer) : Incoming :=
  if t.buffer.length ≤ t.written then
    w.resumeAfterTransferBuffer room { t with buffer := [], written := 0, sinkWritableInterest := false }
  else if !t.sinkOpen then w.resumeAfterTransferBuffer room { t with buffer := [], written := 0 }
  else if maxWriteCallsPerDispatch ≤ calls then { w with transfer := some { t with sinkWritableInterest := true } }
  else match answers with
    | [] | .wouldBlock :: _ => { w with transfer := some { t with sinkWritableInterest := true } }
    | .wrote count :: answers =>
      let bytes := (t.buffer.drop t.written).take count
      if bytes = [] then w.finishTransfer
      else
        writeTransferBuffer room { w with sunk := w.sunk ++ bytes }
          { t with written := t.written + bytes.length, sinkWritableInterest := false } (calls + 1) eintrRetries answers
    | .interrupted :: answers =>
      if eintrRetries < maxWriteEintrRetriesPerDispatch then
        writeTransferBuffer room w t (calls + 1) (eintrRetries + 1) answers
      else { w with transfer := some { t with sinkWritableInterest := true } }
    | .failed :: _ =>
      w.resumeAfterTransferBuffer room
        { t with sinkOpen := false, sinkWritableInterest := false, buffer := [], written := 0 }
termination_by structural answers

def nextAfterPropertyChunk (mode : IncomingPropertyMode) (bytesAfter : ℕ) (valueEmpty : Bool) : ContinueAfterWrite :=
  if 0 < bytesAfter then .readMoreProperty
  else if mode = .incr ∧ valueEmpty = false then .readNextIncrChunk
  else .finish

def consumeData (room : Bool) (t : IncomingTransfer) (reply : GetPropertyReply) (offsetUnits : ℕ)
    (answers : List WriteAnswer) : Incoming :=
  let buffer := if reply.value = [] then t.buffer else reply.value
  let t := { t with
    expectedTypeFormat := some (reply.type, reply.format)
    mode := if t.mode = .initial then .direct else t.mode
    buffer := buffer
    written := if reply.value = [] then t.written else 0
    bytesAfter := reply.bytesAfter
    offsetUnits := offsetUnits
    continueAfterWrite := nextAfterPropertyChunk t.mode reply.bytesAfter buffer.isEmpty }
  if buffer = [] then w.resumeAfterTransferBuffer room t else writeTransferBuffer room w t 0 0 answers

def consumeTransferPropertyReply (room : Bool) (t : IncomingTransfer) (reply : GetPropertyReply)
    (answers : List WriteAnswer) : Incoming :=
  if maxIncomingDndChunkBytes < reply.value.length ∨ reply.format ∉ [8, 16, 32] ∨ reply.type = .none then
    w.finishTransfer
  else if t.mode = .initial ∧ reply.type = .incr then
    if reply.format ≠ 32 ∨ reply.value.length ≠ 4 ∨ reply.bytesAfter ≠ 0 then w.finishTransfer
    else
      { w with
        property := none
        transfer := some { t with mode := .incr, phase := .waitingForIncrValue, offsetUnits := 0 } }
  else if t.expectedTypeFormat.any (· ≠ (reply.type, reply.format)) then w.finishTransfer
  else if 0 < reply.bytesAfter ∧ (reply.value = [] ∨ reply.value.length % 4 ≠ 0) then w.finishTransfer
  else
    let units := min ((reply.value.length + 3) / 4) maxOffsetUnits
    if 0 < reply.bytesAfter then
      if t.offsetUnits + units ≤ maxOffsetUnits then w.consumeData room t reply (t.offsetUnits + units) answers
      else w.finishTransfer
    else w.consumeData room t reply t.offsetUnits answers

/-- The part of `poll_transfer_replies` that takes this transfer's reply; `ready` is false while it has not arrived. -/
def takeReply (ready room : Bool) (answers : List WriteAnswer) : Incoming :=
  match w.transfer with
  | none => w
  | some t =>
    match ready, t.pendingReply with
    | true, some (some reply) =>
      w.consumeTransferPropertyReply room { t with pendingReply := none } reply answers
    | true, some none => w.finishTransfer
    | _, _ => w

def reissue (room : Bool) : Incoming :=
  match w.transfer with
  | none => w
  | some t =>
    if t.phase = .readingProperty ∧ t.pendingReply = none then w.issueTransferPropertyRead room t else w

def pollTransferReplies (ready room roomAfter : Bool) (answers : List WriteAnswer) : Incoming :=
  (w.takeReply ready room answers).reissue roomAfter

def selectionNotify (accepted room : Bool) : Incoming :=
  match w.transfer with
  | none => w
  | some t =>
    if t.phase ≠ .awaitSelectionNotify ∨ !accepted then w.finishTransfer
    else w.issueTransferPropertyRead room { t with phase := .readingProperty, mode := .initial, offsetUnits := 0 }

def propertyNotify (room : Bool) : Incoming :=
  if w.announced = 0 then w
  else
    let w := { w with announced := w.announced - 1 }
    match w.transfer with
    | none => w
    | some t =>
      if t.phase ≠ .waitingForIncrValue then w
      else w.issueTransferPropertyRead room { t with phase := .readingProperty, mode := .incr, offsetUnits := 0 }

def handleSinkReady (terminal writable room : Bool) (answers : List WriteAnswer) : Incoming :=
  match w.transfer with
  | none => w
  | some t =>
    if terminal then
      w.resumeAfterTransferBuffer room
        { t with sinkOpen := false, sinkWritableInterest := false, buffer := [], written := 0 }
    else if writable then writeTransferBuffer room w t 0 0 answers
    else w

end Incoming

inductive DragOffer where
  | direct (atom : ℕ) (format : ℕ) (bytes : List UInt8)
  | incremental (atom : ℕ) (format : ℕ) (announcement : List UInt8) (chunks : List (List UInt8))
  deriving DecidableEq

namespace DragOffer

def data : DragOffer → List UInt8
  | .direct _ _ bytes => bytes
  | .incremental _ _ _ chunks => chunks.flatten

def type : DragOffer → PropertyType
  | .direct atom _ _ | .incremental atom _ _ _ => .other atom

def format : DragOffer → ℕ
  | .direct _ format _ | .incremental _ format _ _ => format

def first : DragOffer → PropertyValue
  | .direct atom format bytes => ⟨.other atom, format, bytes⟩
  | .incremental _ _ announcement _ => ⟨.incr, 32, announcement⟩

def later : DragOffer → List (List UInt8)
  | .direct .. => []
  | .incremental _ _ _ chunks => chunks ++ [[]]

def Conforms : DragOffer → Prop
  | .direct .. => True
  | .incremental _ _ _ chunks => ∀ chunk ∈ chunks, chunk ≠ []

instance (offer : DragOffer) : Decidable offer.Conforms :=
  match offer with
  | .direct .. => .isTrue trivial
  | .incremental _ _ _ chunks => inferInstanceAs (Decidable (∀ chunk ∈ chunks, chunk ≠ []))

end DragOffer

inductive DragEvent where
  | selectionNotify (accepted room : Bool)
  | sourceStores
  | propertyNotify (room : Bool)
  | poll (ready room roomAfter : Bool) (answers : List WriteAnswer)
  | sinkReady (terminal writable room : Bool) (answers : List WriteAnswer)
  | expire
  deriving DecidableEq

def Incoming.sourceStores (offer : DragOffer) (w : Incoming) : Incoming :=
  match w.property, w.upcoming with
  | none, value :: upcoming =>
    { w with
      property := some ⟨offer.type, offer.format, value⟩, upcoming := upcoming, announced := w.announced + 1 }
  | _, _ => w

def Incoming.step (offer : DragOffer) (w : Incoming) : DragEvent → Incoming
  | .selectionNotify accepted room => w.selectionNotify accepted room
  | .sourceStores => w.sourceStores offer
  | .propertyNotify room => w.propertyNotify room
  | .poll ready room roomAfter answers => w.pollTransferReplies ready room roomAfter answers
  | .sinkReady terminal writable room answers => w.handleSinkReady terminal writable room answers
  | .expire => if w.transfer.isSome then w.finishTransfer else w

def Incoming.start (offer : DragOffer) : Incoming where
  transfer := some
    { phase := .awaitSelectionNotify, mode := .initial, offsetUnits := 0, bytesAfter := 0, expectedTypeFormat := none
      buffer := [], written := 0, continueAfterWrite := .none, sinkOpen := true, sinkWritableInterest := false
      pendingReply := none }
  property := some offer.first
  upcoming := offer.later
  announced := 0
  sunk := []
  ending := none

end Typhon.Xwayland
