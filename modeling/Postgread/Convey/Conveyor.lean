import Postgread.Convey.Message

/-!
# The conveyor

The proxy between a frontend and a backend (`convey.rs`). A `Conveyor` holds the two streams, each
plain or inside TLS, and the trace of everything that happened so far; writes always succeed. Its
methods read a message from one side, report it and write it to the other (`readThrough`), and wait
for the next type byte of either side (`readTypeByteFromBoth`). The wait is `future::select` of the
`futures` crate, for which `select` stands.
-/

namespace Postgread

open Body

/-! ## Streams -/

/-- Whether bytes pass in the clear or through a TLS session. -/
inductive Layer where
  | plain
  | tls
deriving DecidableEq, Repr

/-- A stream in the clear, in the middle of a TLS handshake, or inside TLS. -/
inductive StreamWrap where
  | plain (stream : Stream)
  | tlsHandshake
  | tls (stream : Stream)
deriving DecidableEq, Repr

namespace StreamWrap

/-- The wrap of a stream at a layer. -/
def ofLayer : Layer → Stream → StreamWrap
  | .plain, stream => .plain stream
  | .tls, stream => .tls stream

/-- The layer of what is read through the wrap. -/
def layer : StreamWrap → Layer
  | tls _ => .tls
  | _ => .plain

/-- The answers still to come. -/
def stream : StreamWrap → Stream
  | plain stream => stream
  | tlsHandshake => []
  | tls stream => stream

/-- `core::mem::replace`: the old value and the new one. -/
def memReplace (wrap value : StreamWrap) : StreamWrap × StreamWrap := (wrap, value)

/-- The plain stream, if the wrap held one, and the new wrap. -/
def replacePlainWith (wrap value : StreamWrap) :
    Except (Halt ConveyError) (Option Stream) × StreamWrap :=
  match wrap with
  | plain _ =>
    match memReplace wrap value with
    | (plain stream, wrap) => (.ok (some stream), wrap)
    | (_, wrap) => (.error .unreachable, wrap)
  | _ => (.ok none, wrap)

/-- One poll of the future that reads the type byte. -/
def pollTypeByte : StreamWrap → Poll (Except ConveyError UInt8) × StreamWrap
  | plain stream =>
    let (poll, stream) := pollOne stream
    (poll.map (Except.mapError .ioError), plain stream)
  | tlsHandshake => (.ready (.error (.tlsError .handshakeDisrupted)), tlsHandshake)
  | tls stream =>
    let (poll, stream) := pollOne stream
    (poll.map (Except.mapError .ioError), tls stream)

end StreamWrap

/-! ## The state of a conversation -/

/-- Why a TLS library could not complete a handshake. -/
structure HandshakeError where
  text : String
deriving DecidableEq, Repr

/-- A TLS library turns the rest of a plain stream into the stream of a session, or fails. -/
abbrev TlsProvider := Stream → Except HandshakeError Stream

/-- What can be observed of a conveyor. -/
inductive Event where
  /-- A byte was consumed from the stream of a side. -/
  | took (side : Side) (layer : Layer) (byte : UInt8)
  /-- Bytes were written to a side. -/
  | wrote (side : Side) (layer : Layer) (bytes : List UInt8)
  /-- The callback was called. -/
  | callback (msg : Message)
  /-- The rest of the plain stream of a side was handed to the TLS library. -/
  | handshakeBegun (side : Side) (stream : Stream)
  /-- The stream of a side was replaced by that of a TLS session. -/
  | handshakeDone (side : Side)
deriving DecidableEq, Repr

/-- The streams of the two sides, the TLS libraries, whether the build checks overflows, and the
trace so far. -/
structure Conveyor where
  frontend : StreamWrap
  backend : StreamWrap
  frontendTlsServer : TlsProvider
  backendTlsClient : TlsProvider
  overflowChecks : Bool
  trace : List Event

/-- An asynchronous method of the conveyor. -/
abbrev ConveyM (α : Type) := Proc Conveyor (Halt ConveyError) α

namespace Conveyor

/-- The wrap of a side. -/
def wrap (c : Conveyor) : Side → StreamWrap
  | .backend => c.backend
  | .frontend => c.frontend

/-- Replace the wrap of a side. -/
def setWrap (c : Conveyor) : Side → StreamWrap → Conveyor
  | .backend, wrap => { c with backend := wrap }
  | .frontend, wrap => { c with frontend := wrap }

/-- Add events to the trace. -/
def log (c : Conveyor) (events : List Event) : Conveyor :=
  { c with trace := c.trace ++ events }

/-- The wrap that was set is there. -/
@[simp] theorem wrap_setWrap_self (c : Conveyor) (side : Side) (w : StreamWrap) :
    (c.setWrap side w).wrap side = w := by
  cases side <;> rfl

/-- Setting the wrap of a side leaves the other side alone. -/
@[simp] theorem wrap_setWrap_other (c : Conveyor) (side : Side) (w : StreamWrap) :
    (c.setWrap side w).wrap side.other = c.wrap side.other := by
  cases side <;> rfl

/-- Setting the wrap of the other side leaves the side alone. -/
@[simp] theorem wrap_setWrap_of_other (c : Conveyor) (side : Side) (w : StreamWrap) :
    (c.setWrap side.other w).wrap side = c.wrap side := by
  cases side <;> rfl

/-- Of two wraps for one side the second one counts. -/
@[simp] theorem setWrap_setWrap (c : Conveyor) (side : Side) (w w' : StreamWrap) :
    (c.setWrap side w).setWrap side w' = c.setWrap side w' := by
  cases side <;> rfl

/-- Setting the wrap that is already there changes nothing. -/
@[simp] theorem setWrap_wrap (c : Conveyor) (side : Side) : c.setWrap side (c.wrap side) = c := by
  cases side <;> rfl

/-- Logging leaves the wraps alone. -/
@[simp] theorem wrap_log (c : Conveyor) (events : List Event) (side : Side) :
    (c.log events).wrap side = c.wrap side := by
  cases side <;> rfl

/-- Logging and setting a wrap commute. -/
@[simp] theorem setWrap_log (c : Conveyor) (events : List Event) (side : Side) (w : StreamWrap) :
    (c.log events).setWrap side w = (c.setWrap side w).log events := by
  cases side <;> rfl

/-- Two entries in the log are one. -/
@[simp] theorem log_log (c : Conveyor) (events events' : List Event) :
    (c.log events).log events' = c.log (events ++ events') := by
  simp [log]

/-- Logging nothing changes nothing. -/
@[simp] theorem log_nil (c : Conveyor) : c.log [] = c := by
  simp [log]

/-- The trace grows by what is logged. -/
@[simp] theorem trace_log (c : Conveyor) (events : List Event) :
    (c.log events).trace = c.trace ++ events := rfl

/-- Setting a wrap leaves the trace alone. -/
@[simp] theorem trace_setWrap (c : Conveyor) (side : Side) (w : StreamWrap) :
    (c.setWrap side w).trace = c.trace := by
  cases side <;> rfl

/-- The build does not change with the log. -/
@[simp] theorem overflowChecks_log (c : Conveyor) (events : List Event) :
    (c.log events).overflowChecks = c.overflowChecks := rfl

/-- The build does not change with the wraps. -/
@[simp] theorem overflowChecks_setWrap (c : Conveyor) (side : Side) (w : StreamWrap) :
    (c.setWrap side w).overflowChecks = c.overflowChecks := by
  cases side <;> rfl

/-- The TLS library of a side. -/
def provider (c : Conveyor) : Side → TlsProvider
  | .backend => c.backendTlsClient
  | .frontend => c.frontendTlsServer

/-- The TLS libraries do not change with the log. -/
@[simp] theorem provider_log (c : Conveyor) (events : List Event) (side : Side) :
    (c.log events).provider side = c.provider side := by
  cases side <;> rfl

/-- The TLS libraries do not change with the wraps. -/
@[simp] theorem provider_setWrap (c : Conveyor) (side side' : Side) (w : StreamWrap) :
    (c.setWrap side w).provider side' = c.provider side' := by
  cases side <;> cases side' <;> rfl

/-! ## Reading and writing -/

/-- Read from the stream of a side at its layer. -/
def readAt {α : Type} (side : Side) (layer : Layer) (stream : Stream)
    (read : Reading ConveyError α) : ConveyM α := fun c =>
  let (result, reader) := read ⟨stream, []⟩
  (result, (c.setWrap side (.ofLayer layer reader.script)).log
    (reader.taken.map (Event.took side layer)))

/-- `unwrap_stream` with a function that reads. -/
def unwrapStream {α : Type} (side : Side) (read : Reading ConveyError α) : ConveyM α := fun c =>
  match c.wrap side with
  | .plain stream => readAt side .plain stream read c
  | .tlsHandshake => (.error (.error (.tlsError .handshakeDisrupted)), c)
  | .tls stream => readAt side .tls stream read c

/-- `unwrap_stream` with `write_bytes`. -/
def write (side : Side) (bytes : List UInt8) : ConveyM Unit := fun c =>
  match c.wrap side with
  | .plain _ => (.ok ⟨⟩, c.log [.wrote side .plain bytes])
  | .tlsHandshake => (.error (.error (.tlsError .handshakeDisrupted)), c)
  | .tls _ => (.ok ⟨⟩, c.log [.wrote side .tls bytes])

/-- Call the callback. -/
def callback (msg : Message) : ConveyM Unit :=
  Proc.modify fun c => c.log [.callback msg]

/-- How `read_msg_mapping_err` maps the errors of a read. -/
def readErrorToConveyError : ReadError → ConveyError
  | .ioError error => .ioError error
  | .encodeError error => .encodeError error

/-- How `read_msg_mapping_err` maps the errors of a message. -/
def msgErrorToConveyError : MsgError → ConveyError
  | .decodeError error => .decodeError error
  | .leftUndecoded left => .leftUndecoded left

/-- `read_msg_mapping_err`: the bytes of the frame and the message, if its body was decoded. -/
def readMsgMappingErr (Msg : Type) [MsgDecode Msg] (overflowChecks : Bool) :
    Reading ConveyError (List UInt8 × Msg) := do
  let data ← (readMsg Msg overflowChecks).mapError (Halt.map readErrorToConveyError)
  match data.msgResult with
  | .ok msg => pure (data.bytes, msg)
  | .error error => Proc.fail (.error (msgErrorToConveyError error))

/-- `read_backend` and `read_frontend`. -/
def read (t : MsgType) : ConveyM (List UInt8 × t.Body) := fun c =>
  unwrapStream t.side (readMsgMappingErr t.Body c.overflowChecks) c

/-- `read_through!`: read a message, report it, and write it to the other side. -/
def readThrough (t : MsgType) : ConveyM t.Body := do
  let (bytes, msg) ← read t
  callback (t.wrap msg)
  write t.side.other bytes
  pure msg

/-- `read_backend_through`. -/
def readBackendThrough (t : BackendType) : ConveyM t.Body := readThrough (.backend t)

/-- `read_frontend_through`. -/
def readFrontendThrough (t : FrontendType) : ConveyM t.Body := readThrough (.frontend t)

/-- The byte that tells the type of the next message. -/
def readTypeByte : Reading ConveyError UInt8 := readU8.mapError (Halt.map .ioError)

/-- The byte with which the backend replies to a request for TLS. -/
def readBackendTypeByte : ConveyM UInt8 := unwrapStream .backend readTypeByte

/-- As many polls as both streams have answers for, and one more round. -/
def rounds (c : Conveyor) : ℕ := c.backend.stream.length + c.frontend.stream.length + 1

/-- The byte that one of the two futures came up with. -/
def tookTypeByte (side : Side) (layer : Layer) (result : Except ConveyError UInt8) :
    ConveyM (Side × UInt8) := fun c =>
  match result with
  | .ok byte => (.ok (side, byte), c.log [.took side layer byte])
  | .error error => (.error (.error error), c)

/-- The race of the two type bytes. The backend is polled first. -/
def selectTypeByte : ConveyM (Side × UInt8) := fun c =>
  match select StreamWrap.pollTypeByte StreamWrap.pollTypeByte c.rounds c.backend c.frontend with
  | (.pending, backend, frontend) =>
    (.error .waiting, { c with backend := backend, frontend := frontend })
  | (.ready (.inl result), backend, frontend) =>
    tookTypeByte .backend backend.layer result
      { c with backend := backend, frontend := frontend }
  | (.ready (.inr result), backend, frontend) =>
    tookTypeByte .frontend frontend.layer result
      { c with backend := backend, frontend := frontend }

/-- The winner of the race of the two type bytes, if its byte is known. -/
def readTypeByteFromBoth : ConveyM (Side × TypeByte) := do
  let (side, byte) ← selectTypeByte
  match TypeByte.tryFrom byte with
  | some typeByte => pure (side, typeByte)
  | none => Proc.fail (.error (.unknownType side byte))

end Conveyor

end Postgread
