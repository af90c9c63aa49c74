import Postgread.Foundations.Writes
import Postgread.Convey.Transparency

/-!
# The conveyor with writes that may fail

In `Conveyor.go` every write succeeds at once. Here the streams are also written to as
`ConveyWriter::write_bytes` does it, with `write_all` of the `futures` crate, for which `writeAll`
stands: a writer may be busy, accept a part, or fail. The definitions are those of `convey.rs` once
more, with `writeBytes` for the writes and the operations of the conveyor for all the rest.
-/

namespace Postgread

open Body

/-- `ErrorKind::WriteZero` with its text. -/
instance : WriteZero IoError := ⟨.other "write zero"⟩

/-- The answers to the writes on each stream. What is written inside TLS is answered by the TLS
library. -/
abbrev Writers := Side → Layer → WriteScript IoError

/-- The writers after some answers of one of them. -/
def Writers.set (w : Writers) (side : Side) (layer : Layer) (rest : WriteScript IoError) : Writers :=
  fun side' layer' => if side' = side ∧ layer' = layer then rest else w side' layer'

/-- An asynchronous method of a conveyor with writers. -/
abbrev WiredM (α : Type) := Proc (Conveyor × Writers) (Halt ConveyError) α

namespace Wired

/-- `write_bytes`. The trace gets the bytes that were accepted. -/
def writeBytes (side : Side) (layer : Layer) (bytes : List UInt8) : WiredM Unit := fun (c, w) =>
  let (result, sent, rest) := writeAll (w side layer) bytes
  (result.mapError (Halt.map .ioError), c.log [.wrote side layer sent], w.set side layer rest)

/-- `unwrap_stream` with `write_bytes`. -/
def write (side : Side) (bytes : List UInt8) : WiredM Unit := fun (c, w) =>
  match c.wrap side with
  | .plain _ => writeBytes side .plain bytes (c, w)
  | .tlsHandshake => (.error (.error (.tlsError .handshakeDisrupted)), c, w)
  | .tls _ => writeBytes side .tls bytes (c, w)

/-- `read_through!`. -/
def readThrough (t : MsgType) : WiredM t.Body := do
  let (bytes, msg) ← (Conveyor.read t).onFst
  (Conveyor.callback (t.wrap msg)).onFst
  write t.side.other bytes
  pure msg

/-- `read_backend_through`. -/
def readBackendThrough (t : BackendType) : WiredM t.Body := readThrough (.backend t)

/-- `read_frontend_through`. -/
def readFrontendThrough (t : FrontendType) : WiredM t.Body := readThrough (.frontend t)

/-- Tell the frontend to begin TLS, and shake hands with it. -/
def acceptTls : WiredM Unit := do
  write .frontend [Conveyor.tlsSupported]
  Conveyor.switchServerToTls.onFst

/-- The reply of the backend to a request for TLS. It tells whether the conversation goes on. -/
def replyToTls : WiredM Bool := do
  let tlsResponse ← Conveyor.readBackendTypeByte.onFst
  if tlsResponse = Conveyor.tlsNotSupported then
    acceptTls
    pure true
  else if tlsResponse = Conveyor.tlsSupported then
    Conveyor.switchClientToTls.onFst
    acceptTls
    pure true
  else if tlsResponse = ErrorResponse.typeByte then
    let _ ← readBackendThrough .errorResponse
    pure false
  else
    Proc.fail (.error (.unknownType .backend tlsResponse))

/-- `process_backend_authentication`. -/
def processBackendAuthentication (typeByte : TypeByte) (state : State) : WiredM State := do
  let authentication ← readBackendThrough .authentication
  match Conveyor.afterAuthentication typeByte authentication state with
  | .ok state => pure state
  | .error error => Proc.fail (.error error)

/-- A round of the main loop. -/
def loopBody (state : State) : WiredM (Option State) := do
  let (side, typeByte) ← Conveyor.readTypeByteFromBoth.onFst
  match Conveyor.arm side typeByte state with
  | .authentication => some <$> processBackendAuthentication typeByte state
  | .through t next =>
    let _ ← readThrough t
    pure next
  | .unexpected => Proc.fail (.error (.unexpectedType state side typeByte))

/-- The main loop. -/
def loop (state : State) : WiredM Unit := fun (c, w) =>
  iterate loopBody (c.bytesLeft + 1) state (c, w)

/-- What follows a request for TLS. -/
def continueWithTls : WiredM Unit := do
  if ← replyToTls then
    match ← readFrontendThrough .initial with
    | .startup _ => loop .gotStartup
    | .cancel _ => pure ⟨⟩
    | .tls => Proc.fail (.error (.tlsError .tlsRequestedInsideTls))

/-- `Conveyor::go`. -/
def go : WiredM Unit := do
  match ← readFrontendThrough .initial with
  | .startup _ => loop .gotStartup
  | .cancel _ => pure ⟨⟩
  | .tls => continueWithTls

/-! ## The ideal conveyor, cut short -/

/-- The writers as a device: a write uses up answers, and the other events none. -/
def writing : Device Writers ConveyError Event
  | .wrote side layer bytes, w =>
    match writeAll (w side layer) bytes with
    | (.ok _, _, rest) => .ok (w.set side layer rest)
    | (.error halt, sent, _) => .error (halt.map .ioError, .wrote side layer sent)
  | _, w => .ok w

/-- The wired procedure is the one of the conveyor, up to the first write that fails. -/
abbrev CutsWrites {α : Type} (x : ConveyM α) (x' : WiredM α) : Prop :=
  Cuts writing Conveyor.trace x x'

/-- Writing to a stream is the ideal write, cut short where a writer fails. -/
theorem writeBytes_cuts (side : Side) (layer : Layer) (bytes : List UInt8) :
    CutsWrites (fun c => (.ok ⟨⟩, c.log [.wrote side layer bytes]))
      (writeBytes side layer bytes) := by
  intro c w
  -- the ideal write logs one event; the device replays it with the answers of the writer
  refine ⟨[.wrote side layer bytes], rfl, ?_⟩
  obtain ⟨-, hall⟩ := writeAll_sent (w side layer) bytes
  rcases hwrite : writeAll (w side layer) bytes with ⟨halt | _, sent, rest⟩
  · simp only [replay, writing, writeBytes, hwrite]
    exact ⟨_, _, rfl, rfl⟩
  · rw [hwrite] at hall
    obtain rfl : sent = bytes := hall.mp rfl
    simp only [replay, writing, writeBytes, hwrite]
    rfl

/-- Writing to a side is the ideal write, cut short where a writer fails. -/
theorem write_cuts (side : Side) (bytes : List UInt8) :
    CutsWrites (Conveyor.write side bytes) (write side bytes) := by
  intro c w
  have hlayer (layer : Layer) := writeBytes_cuts side layer bytes c w
  rcases hwrap : c.wrap side with s | _ | s
  · simpa only [Conveyor.write, write, hwrap] using hlayer .plain
  -- in the middle of a handshake both fail before they write
  · exact ⟨[], by simp [Conveyor.write, hwrap], by simp [Conveyor.write, write, hwrap, replay]⟩
  · simpa only [Conveyor.write, write, hwrap] using hlayer .tls

/-! ## What does not write -/

/-- Events that are no writes. -/
def AreSilent (events : List Event) : Prop := ∀ e ∈ events, ∀ w, writing e w = .ok w

/-- A procedure that writes nothing. -/
def Silent {α : Type} (x : ConveyM α) : Prop :=
  ∀ c, ∃ events, (x c).2.trace = c.trace ++ events ∧ AreSilent events

/-- Without events nothing is written. -/
theorem areSilent_nil : AreSilent [] := fun _ h => absurd h List.not_mem_nil

/-- Bytes that are taken are no writes. -/
theorem areSilent_took (side : Side) (layer : Layer) (bytes : List UInt8) :
    AreSilent (bytes.map (Event.took side layer)) := by
  intro e he w
  obtain ⟨byte, -, rfl⟩ := List.mem_map.mp he
  rfl

namespace Silent

/-- What writes nothing does the same with any writers. -/
theorem cuts {α : Type} {x : ConveyM α} (hx : Silent x) : CutsWrites x x.onFst := .onFst hx

/-- A result is no write. -/
theorem pure {α : Type} (a : α) : Silent (Pure.pure a) :=
  fun _ => ⟨[], (List.append_nil _).symm, areSilent_nil⟩

/-- A failure is no write. -/
theorem fail {α : Type} (e : Halt ConveyError) : Silent (Proc.fail e : ConveyM α) :=
  fun _ => ⟨[], (List.append_nil _).symm, areSilent_nil⟩

/-- Two procedures that write nothing write nothing one after the other. -/
theorem bind {α β : Type} {x : ConveyM α} {f : α → ConveyM β} (hx : Silent x)
    (hf : ∀ a, Silent (f a)) : Silent (x >>= f) := by
  intro c
  obtain ⟨events, htrace, hevents⟩ := hx c
  rcases h : x c with ⟨e | a, c'⟩
  · rw [h] at htrace
    exact ⟨events, by rw [Proc.bind_of_error h]; exact htrace, hevents⟩
  · rw [h] at htrace
    obtain ⟨events', htrace', hevents'⟩ := hf a c'
    refine ⟨events ++ events', ?_, List.forall_mem_append.mpr ⟨hevents, hevents'⟩⟩
    rw [Proc.bind_of_ok h, htrace', htrace, List.append_assoc]

/-- Reading through a wrap writes nothing. -/
theorem unwrapStream {α : Type} (side : Side) (read : Reading ConveyError α) :
    Silent (Conveyor.unwrapStream side read) := by
  intro c
  have hread (layer : Layer) (s : Stream) :
      ∃ events, (Conveyor.readAt side layer s read c).2.trace = c.trace ++ events ∧
        AreSilent events :=
    ⟨_, congrArg (· ++ _) (Conveyor.trace_setWrap _ _ _), areSilent_took side layer _⟩
  rw [Conveyor.unwrapStream]
  rcases c.wrap side with s | _ | s
  · exact hread .plain s
  · exact fail _ c
  · exact hread .tls s

/-- Calling the callback writes nothing. -/
theorem callback (msg : Message) : Silent (Conveyor.callback msg) :=
  fun _ => ⟨[.callback msg], rfl, fun _ he _ => by rw [List.mem_singleton.mp he]; rfl⟩

/-- A switch to TLS writes nothing of the proxy's own. -/
theorem switchToTls (side : Side) (handshake : TlsProvider) :
    Silent (Conveyor.switchToTls side handshake) := by
  intro c
  rcases hwrap : c.wrap side with s | _ | s
  · rw [Conveyor.switchToTls_of_plain hwrap]
    rcases handshake s with e | s'
    · exact ⟨[.handshakeBegun side s], by simp, by simp [AreSilent, writing]⟩
    · exact ⟨[.handshakeBegun side s, .handshakeDone side], by simp, by simp [AreSilent, writing]⟩
  · exact ⟨[], by simp [Conveyor.switchToTls, hwrap, StreamWrap.replacePlainWith], areSilent_nil⟩
  · exact ⟨[], by simp [Conveyor.switchToTls, hwrap, StreamWrap.replacePlainWith], areSilent_nil⟩

/-- The race of the two type bytes writes nothing. -/
theorem selectTypeByte : Silent Conveyor.selectTypeByte := by
  intro c
  have htook (side : Side) (layer : Layer) (result : Except ConveyError UInt8) :
      Silent (Conveyor.tookTypeByte side layer result) := by
    intro c
    rcases result with e | byte
    · exact fail _ c
    · exact ⟨[.took side layer byte], rfl, areSilent_took side layer [byte]⟩
  rw [Conveyor.selectTypeByte]
  split
  · exact ⟨[], (List.append_nil _).symm, areSilent_nil⟩
  · exact htook _ _ _ _
  · exact htook _ _ _ _

/-- Waiting for the next type byte writes nothing. -/
theorem readTypeByteFromBoth : Silent Conveyor.readTypeByteFromBoth := by
  refine selectTypeByte.bind fun (side, byte) => ?_
  dsimp only
  split
  · exact pure _
  · exact fail _

end Silent

/-! ## The whole conversation -/

/-- Conveying a message is its ideal, cut short in its one write. -/
theorem readThrough_cuts (t : MsgType) : CutsWrites (Conveyor.readThrough t) (readThrough t) := by
  have hread : Silent (Conveyor.read t) := fun c => Silent.unwrapStream t.side _ c
  exact hread.cuts.bind fun _ => (Silent.callback _).cuts.bind fun _ =>
    (write_cuts _ _).bind fun _ => .pure _

/-- Accepting TLS is its ideal, cut short in the write of the reply. -/
theorem acceptTls_cuts : CutsWrites Conveyor.acceptTls acceptTls := by
  have hserver : Silent Conveyor.switchServerToTls := fun c => Silent.switchToTls .frontend _ c
  exact (write_cuts _ _).bind fun _ => hserver.cuts

/-- Replying to a request for TLS is its ideal, cut short where a writer fails. -/
theorem replyToTls_cuts : CutsWrites Conveyor.replyToTls replyToTls := by
  have hclient : Silent Conveyor.switchClientToTls := fun c => Silent.switchToTls .backend _ c
  refine (Silent.unwrapStream .backend Conveyor.readTypeByte).cuts.bind fun byte => ?_
  -- the three replies that are known, in the order in which the source compares them
  split
  · exact acceptTls_cuts.bind fun _ => .pure _
  split
  · exact hclient.cuts.bind fun _ => acceptTls_cuts.bind fun _ => .pure _
  split
  · exact (readThrough_cuts _).bind fun _ => .pure _
  · exact .fail _

/-- A round of the main loop is its ideal, cut short where a writer fails. -/
theorem loopBody_cuts (s : State) : CutsWrites (Conveyor.loopBody s) (loopBody s) := by
  refine Silent.readTypeByteFromBoth.cuts.bind fun (side, typeByte) => ?_
  dsimp only
  rcases Conveyor.arm side typeByte s with _ | ⟨t, next⟩ | _
  · refine .map _ ((readThrough_cuts _).bind fun authentication => ?_)
    rcases Conveyor.afterAuthentication typeByte authentication s with e | s'
    · exact .fail _
    · exact .pure _
  · exact (readThrough_cuts t).bind fun _ => .pure _
  · exact .fail _

/-- The main loop is its ideal, cut short where a writer fails. -/
theorem loop_cuts (s : State) : CutsWrites (Conveyor.loop s) (loop s) :=
  fun c w => Cuts.iterate loopBody_cuts (c.bytesLeft + 1) s c w

/-- The whole conversation is its ideal, cut short where a writer fails. -/
theorem go_cuts : CutsWrites Conveyor.go go := by
  refine (readThrough_cuts _).bind fun i => ?_
  rcases i with cancel | _ | startup
  · exact .pure _
  · refine replyToTls_cuts.bind fun accepted => ?_
    rcases accepted with _ | _
    · exact .pure _
    · refine (readThrough_cuts _).bind fun i => ?_
      rcases i with cancel | _ | startup
      · exact .pure _
      · exact .fail _
      · exact loop_cuts _
  · exact loop_cuts _

/-! ## What is delivered -/

/-- All writes of the first trace succeed up to one that stops with the halt. The second trace ends
with what was accepted of it. -/
inductive StopsInWrite (w : Writers) : List Event → List Event → Halt ConveyError → Prop where
  | intro {before after : List Event} {side : Side} {layer : Layer} {bytes sent : List UInt8}
      {w' : Writers} {halt : Halt IoError} {rest : WriteScript IoError}
      (hbefore : replay writing before w = (.ok w', before))
      (hwrite : writeAll (w' side layer) bytes = (.error halt, sent, rest)) :
      StopsInWrite w (before ++ .wrote side layer bytes :: after)
        (before ++ [.wrote side layer sent]) (halt.map .ioError)

namespace StopsInWrite

variable {w : Writers} {tr tr' : List Event} {halt : Halt ConveyError}

/-- A write waits, or its error is the one that the run returns. -/
theorem halt_cases (h : StopsInWrite w tr tr' halt) :
    halt = .waiting ∨ ∃ e, halt = .error (.ioError e) := by
  cases h with
  | intro hbefore hwrite =>
    rcases writeAll_error_cases hwrite with rfl | ⟨e, rfl⟩
    · exact .inl rfl
    · exact .inr ⟨e, rfl⟩

/-- A write that stops takes no callback back. -/
theorem callbacks_isPrefix (h : StopsInWrite w tr tr' halt) :
    Event.callbacks tr' <+: Event.callbacks tr := by
  cases h with
  | intro hbefore hwrite => simp [Event.callbacks]

/-- A write that stops takes no byte back that was read. -/
theorem taken_isPrefix (h : StopsInWrite w tr tr' halt) (side : Side) :
    Event.taken side tr' <+: Event.taken side tr := by
  cases h with
  | intro hbefore hwrite => simp [Event.taken]

/-- The write that stops is not completed. -/
theorem written_isPrefix (h : StopsInWrite w tr tr' halt) (side : Side) :
    Event.written side tr' <+: Event.written side tr := by
  cases h with
  | @intro before after side' layer bytes sent w' halt rest hbefore hwrite =>
    obtain ⟨hsent, -⟩ := writeAll_sent (w' side' layer) bytes
    rw [hwrite] at hsent
    rw [Event.written_append, Event.written_append, List.prefix_append_right_inj]
    by_cases hside : side' = side
    · have hcons : Event.written side (.wrote side' layer bytes :: after) =
          bytes ++ Event.written side after := by simp [Event.written, Event.writes, hside]
      have hlast : Event.written side [.wrote side' layer sent] = sent := by
        simp [Event.written, Event.writes, hside]
      rw [hcons, hlast]
      exact hsent.trans (List.prefix_append _ _)
    · simp [Event.written, Event.writes, hside]

end StopsInWrite

end Wired

open Conveyor

/-- Whatever the writers answer, a run does what the run of the ideal conveyor does, up to the first
write that fails or is never completed; then it returns the error of the writer, or waits. If all
writes are completed, however slowly and in however small parts, nothing differs. So what was taken
and reported, and what the two sides have got, is always a beginning of what it would be if no write
could fail. -/
theorem go_delivered (frontend backend : Stream)
    (frontendTlsServer backendTlsClient : TlsProvider) (overflowChecks : Bool) (w : Writers) :
    let c := new frontend backend frontendTlsServer backendTlsClient overflowChecks
    let ideal := go c
    let run := Wired.go (c, w)
    ((∃ w', replay Wired.writing ideal.2.trace w = (.ok w', ideal.2.trace) ∧
        run = (ideal.1, ideal.2, w')) ∨
      ∃ halt, run.1 = .error halt ∧ (halt = .waiting ∨ ∃ e, halt = .error (.ioError e)) ∧
        Wired.StopsInWrite w ideal.2.trace run.2.1.trace halt) ∧
    Event.callbacks run.2.1.trace <+: Event.callbacks ideal.2.trace ∧
    ∀ side, Event.taken side run.2.1.trace <+: Event.taken side ideal.2.trace ∧
      Event.written side run.2.1.trace <+: Event.written side ideal.2.trace := by
  intro c ideal run
  obtain ⟨events, htrace, hcut⟩ := Wired.go_cuts c w
  obtain rfl : ideal.2.trace = events := htrace.trans (List.nil_append _)
  rcases replay_cases ideal.2.trace w with
    ⟨w', hall⟩ | ⟨before, e, after, w', halt, part, hevents, hbefore, he, hpart⟩
  · rw [hall] at hcut
    have hrun : run = (ideal.1, ideal.2, w') := hcut
    refine ⟨.inl ⟨w', hall, hrun⟩, ?_⟩
    rw [hrun]
    exact ⟨List.prefix_rfl, fun _ => ⟨List.prefix_rfl, List.prefix_rfl⟩⟩
  · rw [hpart] at hcut
    obtain ⟨c', w'', hrun, htrace'⟩ := hcut
    have hstops : Wired.StopsInWrite w ideal.2.trace run.2.1.trace halt := by
      rw [show run = (.error halt, c', w'') from hrun, htrace', hevents]
      rcases e with _ | ⟨side, layer, bytes⟩ | _ | _ | _
      · cases he
      · rcases hwrite : writeAll (w' side layer) bytes with ⟨halt' | _, sent, rest⟩
        · rw [Wired.writing, hwrite] at he
          obtain ⟨rfl, rfl⟩ := Prod.mk.injEq .. ▸ Except.error.inj he
          exact .intro hbefore hwrite
        · rw [Wired.writing, hwrite] at he
          cases he
      · cases he
      · cases he
      · cases he
    exact ⟨.inr ⟨halt, congrArg Prod.fst hrun, hstops.halt_cases, hstops⟩,
      hstops.callbacks_isPrefix, fun side => ⟨hstops.taken_isPrefix side,
        hstops.written_isPrefix side⟩⟩

end Postgread
