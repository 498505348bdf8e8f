import Mathlib.Data.List.Basic

/-! The transfer of a Wayland client's data to an X11 requestor, for the clipboard and for drag and drop. Short data is
stored as one property value. Longer data is announced by an INCR marker and stored in chunks, each after the requestor
has deleted the one before. -/

namespace Typhon.Xwayland

inductive ReadAnswer where
  | bytes (count : ℕ)
  | hangUp
  | wouldBlock
  | interrupted
  | failed
  deriving DecidableEq

inductive ReadResult where
  | data (bytes : List UInt8)
  | eof
  | wouldBlock
  | interrupted
  | failed
  deriving DecidableEq

def readPipe (unread : List UInt8) (limit : ℕ) : ReadAnswer → ReadResult × List UInt8
  | .bytes count =>
    match unread.take (min (count + 1) limit) with
    | [] => (.wouldBlock, unread)
    | byte :: bytes => (.data (byte :: bytes), unread.drop (min (count + 1) limit))
  | .hangUp => if unread = [] then (.eof, unread) else (.wouldBlock, unread)
  | .wouldBlock => (.wouldBlock, unread)
  | .interrupted => (.interrupted, unread)
  | .failed => (.failed, unread)

def maxOutgoingChunkBytes : ℕ := 64 * 1024

def maxEintrRetriesPerDispatch : ℕ := 4

/-- Drag and drop has no phase for the final deletion; the clipboard has one that is never entered. -/
inductive OutgoingPhase where
  | awaitSourceAcceptance
  | readingDirect
  | waitingForInitialDelete
  | waitingForChunkDelete
  | waitingForSource
  | waitingForFinalDelete
  deriving DecidableEq

@[ext]
structure OutgoingTransfer where
  phase : OutgoingPhase
  buffer : List UInt8
  eof : Bool
  notifyReady : Bool
  maxChunkBytes : ℕ
  chunkPos : 0 < maxChunkBytes

instance : DecidableEq OutgoingTransfer := fun _ _ => decidable_of_iff' _ OutgoingTransfer.ext_iff

inductive ReadProgress where
  | wouldBlock
  | eof
  | limitReached
  deriving DecidableEq

inductive PropertyEvent where
  | marker (lowerBound : ℕ)
  | value (bytes : List UInt8)
  | deleted
  | ended
  deriving DecidableEq

namespace OutgoingTransfer

def start (maximumRequestBytes : ℕ) : Option OutgoingTransfer :=
  if h : 0 < min (maximumRequestBytes - 64) maxOutgoingChunkBytes then
    some ⟨.awaitSourceAcceptance, [], false, false, min (maximumRequestBytes - 64) maxOutgoingChunkBytes, h⟩
  else none

def readUntilLimit (answers : List ReadAnswer) (eintrRetries : ℕ) (t : OutgoingTransfer) (unread : List UInt8) :
    Option ReadProgress × OutgoingTransfer × List UInt8 :=
  if t.buffer.length < t.maxChunkBytes ∧ t.eof = false then
    match answers with
    | [] => (some .wouldBlock, t, unread)
    | answer :: answers =>
      match readPipe unread (min (t.maxChunkBytes - t.buffer.length) 8192) answer with
      | (.data bytes, unread) => readUntilLimit answers 0 { t with buffer := t.buffer ++ bytes } unread
      | (.eof, unread) => (some .eof, { t with eof := true }, unread)
      | (.wouldBlock, unread) => (some .wouldBlock, t, unread)
      | (.interrupted, unread) =>
        if eintrRetries < maxEintrRetriesPerDispatch then readUntilLimit answers (eintrRetries + 1) t unread
        else (none, t, unread)
      | (.failed, unread) => (none, t, unread)
  else if t.buffer.length = t.maxChunkBytes then (some .limitReached, t, unread)
  else (some .eof, t, unread)

variable (t : OutgoingTransfer)

def publishChunk : OutgoingTransfer × PropertyEvent :=
  let count := min t.buffer.length t.maxChunkBytes
  ({ t with buffer := t.buffer.drop count, phase := .waitingForChunkDelete }, .value (t.buffer.take count))

def endEvents (before after : OutgoingTransfer) : List PropertyEvent :=
  if after.eof && !before.eof then [.ended] else []

def pumpDirect (unread : List UInt8) (answers : List ReadAnswer) :
    Option OutgoingTransfer × List UInt8 × List PropertyEvent :=
  match readUntilLimit answers 0 t unread with
  | (none, _, unread) => (none, unread, [])
  | (some progress, t', unread) =>
    if progress = .wouldBlock ∧ t'.buffer.length < t'.maxChunkBytes then
      (some { t' with phase := .readingDirect }, unread, endEvents t t')
    else if progress = .eof ∧ t'.buffer.length < t'.maxChunkBytes then
      (none, unread, endEvents t t' ++ [.value t'.buffer])
    else
      (some { t' with phase := .waitingForInitialDelete, notifyReady := true }, unread,
        endEvents t t' ++ [.marker (min t'.buffer.length 4294967295)])

def pumpIncrementalSource (unread : List UInt8) (answers : List ReadAnswer) :
    Option OutgoingTransfer × List UInt8 × List PropertyEvent :=
  match readUntilLimit answers 0 t unread with
  | (none, _, unread) => (none, unread, [.value []])
  | (some progress, t', unread) =>
    if progress = .wouldBlock ∧ t'.buffer = [] then
      (some { t' with phase := .waitingForSource }, unread, endEvents t t')
    else if progress = .eof ∧ t'.buffer = [] then (none, unread, endEvents t t' ++ [.value []])
    else (some t'.publishChunk.1, unread, endEvents t t' ++ [t'.publishChunk.2])

def propertyDeleted : Option OutgoingTransfer × List PropertyEvent :=
  if t.phase = .waitingForInitialDelete ∨ t.phase = .waitingForChunkDelete then
    if t.buffer ≠ [] then (some t.publishChunk.1, [t.publishChunk.2])
    else if t.eof then (none, [.value []])
    else (some { t with phase := .waitingForSource }, [])
  else (some t, [])

def pump (unread : List UInt8) (answers : List ReadAnswer) :
    Option OutgoingTransfer × List UInt8 × List PropertyEvent :=
  match t.phase with
  | .readingDirect => t.pumpDirect unread answers
  | .waitingForSource => t.pumpIncrementalSource unread answers
  | _ => (some t, unread, [])

end OutgoingTransfer

inductive TransferKind where
  | selection
  | dnd
  deriving DecidableEq

namespace OutgoingTransfer

variable (kind : TransferKind)

/-- `current` says whether the generation, and for drag and drop the session, is still the transfer's own. -/
def resolveAcceptance (t : OutgoingTransfer) (unread : List UInt8) (accepted current : Bool)
    (answers : List ReadAnswer) : Option OutgoingTransfer × List UInt8 × List PropertyEvent :=
  if t.phase ≠ .awaitSourceAcceptance ∨ current = false then
    match kind with
    | .selection => (some t, unread, [])
    | .dnd => (none, unread, [])
  else if accepted = false then (none, unread, [])
  else pumpDirect { t with phase := .readingDirect } unread answers

def handleSourceReady (t : OutgoingTransfer) (unread : List UInt8) (terminalConsumed current : Bool)
    (answers : List ReadAnswer) : Option OutgoingTransfer × List UInt8 × List PropertyEvent :=
  match kind with
  | .selection => t.pump unread answers
  | .dnd => if terminalConsumed || !current then (none, unread, []) else t.pump unread answers

def handlePropertyDeleted (t : OutgoingTransfer) (terminalConsumed : Bool) :
    Option OutgoingTransfer × List PropertyEvent :=
  match kind with
  | .selection => t.propertyDeleted
  | .dnd =>
    if t.phase = .waitingForInitialDelete ∨ t.phase = .waitingForChunkDelete then
      if terminalConsumed then (none, []) else t.propertyDeleted
    else (some t, [])

/-- The clipboard drops a cancelled transfer. Drag and drop stores the empty value if it has announced the data. -/
def cancelEvents (t : OutgoingTransfer) : List PropertyEvent :=
  match kind with
  | .selection => []
  | .dnd => if t.notifyReady then [.value []] else []

end OutgoingTransfer
end Typhon.Xwayland
