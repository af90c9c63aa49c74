import Postgread.Convey.Conveyor

/-!
# What the conveyor reads and writes

A `Packet` is a message in its frame: a body that fits and that the decoder of its type uses up. The
theorems of this file say what each operation of the conveyor does when both streams are open:
`readThrough_eq_ok` and `readThrough_eq_error` for a message, `selectTypeByte_eq_ok` for the race of
the two type bytes.
-/

namespace Postgread

open Conveyor

/-- A message in its frame. -/
structure Packet where
  type : MsgType
  body : List UInt8
  msg : type.Body
  fits : Fits type.Body body
  decodes : msgResult type.Body body = .ok msg

namespace Packet

/-- The side that sends the packet. -/
def side (p : Packet) : Side := p.type.side

/-- The frame of the packet, as it stands on the wire. -/
def bytes (p : Packet) : List UInt8 := frameBytes p.type.typeByteOpt p.body

/-- What the callback gets. -/
def message (p : Packet) : Message := p.type.wrap p.msg

/-- The report of a packet and its way to the other side. -/
def report (p : Packet) (layers : Side → Layer) : List Event :=
  [.callback p.message, .wrote p.side.other (layers p.side.other) p.bytes]

/-- What can be observed when the packet is conveyed. -/
def events (p : Packet) (layers : Side → Layer) : List Event :=
  p.bytes.map (Event.took p.side (layers p.side)) ++ p.report layers

/-- A packet has at least its four bytes of length. -/
theorem bytes_ne_nil (p : Packet) : p.bytes ≠ [] := by
  have hlen : 4 ≤ p.bytes.length := by
    simp [bytes, frameBytes, length_toBigEndian]
    omega
  intro hnil
  simp [hnil] at hlen

end Packet

namespace StreamWrap

/-- The stream that was put into a wrap is the one that is read through it. -/
@[simp] theorem stream_ofLayer (layer : Layer) (s : Stream) : (ofLayer layer s).stream = s := by
  cases layer <;> rfl

/-- The layer that a wrap was made for is the one that it is read at. -/
@[simp] theorem layer_ofLayer (layer : Layer) (s : Stream) : (ofLayer layer s).layer = layer := by
  cases layer <;> rfl

/-- A wrap tells its layer and its stream. -/
theorem ofLayer_injective {layer layer' : Layer} {s s' : Stream}
    (h : ofLayer layer s = ofLayer layer' s') : layer = layer' ∧ s = s' := by
  cases layer <;> cases layer' <;> simp_all [ofLayer]

/-- A stream at a layer is no stream in the middle of a handshake. -/
theorem ofLayer_ne_tlsHandshake (layer : Layer) (s : Stream) : ofLayer layer s ≠ tlsHandshake := by
  cases layer <;> exact nofun

/-- The type byte is polled from the stream inside the wrap, and the layer stays. -/
theorem pollTypeByte_ofLayer (layer : Layer) (s : Stream) :
    pollTypeByte (ofLayer layer s) =
      ((pollOne s).1.map (Except.mapError .ioError), ofLayer layer (pollOne s).2) := by
  cases layer <;> rfl

end StreamWrap

namespace Conveyor

/-- The streams of both sides are open, each at its layer. -/
def Open (c : Conveyor) (layers : Side → Layer) : Prop :=
  ∀ side, ∃ s, c.wrap side = .ofLayer (layers side) s

namespace Open

variable {c : Conveyor} {layers : Side → Layer}

/-- A stream of an open conveyor can be replaced by what is left of it. -/
theorem setWrap (h : c.Open layers) (side : Side) (s : Stream) :
    (c.setWrap side (.ofLayer (layers side) s)).Open layers := by
  intro side'
  by_cases heq : side' = side
  · subst heq
    exact ⟨s, wrap_setWrap_self _ _ _⟩
  · obtain rfl := (side.eq_or_eq_other side').resolve_left heq
    obtain ⟨s', hs'⟩ := h side.other
    exact ⟨s', by rw [wrap_setWrap_other, hs']⟩

/-- The trace has no bearing on the streams. -/
theorem log (h : c.Open layers) (events : List Event) : (c.log events).Open layers := by
  intro side
  rw [wrap_log]
  exact h side

end Open

variable {c c' : Conveyor} {layers : Side → Layer}

/-! ## Messages -/

/-- With open streams `unwrap_stream` reads at the layer of the side. -/
theorem unwrapStream_of_open (h : c.Open layers) {α : Type} (side : Side)
    (read : Reading ConveyError α) :
    unwrapStream side read c = readAt side (layers side) (c.wrap side).stream read c := by
  obtain ⟨s, hs⟩ := h side
  rw [unwrapStream, hs]
  cases layers side <;> rfl

/-- With open streams a write succeeds and is logged at the layer of the side. -/
theorem write_of_open (h : c.Open layers) (side : Side) (bytes : List UInt8) :
    write side bytes c = (.ok ⟨⟩, c.log [.wrote side (layers side) bytes]) := by
  obtain ⟨s, hs⟩ := h side
  rw [write, hs]
  cases layers side <;> rfl

/-- What a read through a wrap does: the stream is left where the read left it, and the bytes that
it took are logged. -/
theorem readAt_eq {α : Type} {side : Side} {layer : Layer} {stream : Stream}
    {read : Reading ConveyError α} {r : Except (Halt ConveyError) α} :
    readAt side layer stream read c = (r, c') ↔ ∃ reader, read ⟨stream, []⟩ = (r, reader) ∧
      c' = (c.setWrap side (.ofLayer layer reader.script)).log
        (reader.taken.map (Event.took side layer)) := by
  rcases h : read ⟨stream, []⟩ with ⟨r', reader⟩
  simp only [readAt, h, Prod.mk.injEq]
  constructor
  · rintro ⟨rfl, rfl⟩; exact ⟨reader, ⟨rfl, rfl⟩, rfl⟩
  · rintro ⟨reader', ⟨rfl, rfl⟩, rfl⟩; exact ⟨rfl, rfl⟩

/-- A message is read if the stream brings a body that fits and that its decoder uses up. -/
theorem readMsgMappingErr_eq_ok {Msg : Type} [MsgDecode Msg] {checks : Bool}
    {r r' : Reader UInt8 IoError} {bytes : List UInt8} {msg : Msg} :
    readMsgMappingErr Msg checks r = (.ok (bytes, msg), r') ↔ ∃ body, Fits Msg body ∧
      Brings r.script (lengthAndBody body) r'.script ∧
      r'.taken = r.taken ++ lengthAndBody body ∧
      bytes = frameBytes (MsgDecode.typeByteOpt Msg) body ∧ msgResult Msg body = .ok msg := by
  simp only [readMsgMappingErr, Proc.bind_eq_ok, Proc.mapError_eq_ok, readMsg_eq_ok]
  constructor
  · rintro ⟨data, r₁, ⟨body, hfits, hbrings, htaken, rfl⟩, hrest⟩
    -- the frame has been read; what is left is the decoder's verdict on its body
    rcases hres : msgResult Msg body with e | msg'
    · simp [hres] at hrest
    · obtain ⟨⟨rfl, rfl⟩, rfl⟩ : (frameBytes (MsgDecode.typeByteOpt Msg) body = bytes ∧
          msg' = msg) ∧ r₁ = r' := by simpa [hres] using hrest
      exact ⟨body, hfits, hbrings, htaken, rfl, hres⟩
  · rintro ⟨body, hfits, hbrings, htaken, rfl, hres⟩
    exact ⟨_, r', ⟨body, hfits, hbrings, htaken, rfl⟩, by simp [hres]⟩

/-- A halt that tells nothing but why a message could not be read. -/
def IsReadHalt : Halt ConveyError → Prop
  | .error (.decodeError _) | .error (.encodeError _) | .error (.ioError _)
  | .error (.leftUndecoded _) | .panic | .waiting => True
  | _ => False

/-- The length and the body of a message that fits are within the length that they state. -/
theorem withinLength_lengthAndBody {Msg : Type} [MsgDecode Msg] {body : List UInt8}
    (h : Fits Msg body) : WithinLength (lengthAndBody body) := by
  unfold Fits at h
  refine .inr ?_
  rw [lengthAndBody, List.take_left' (length_toBigEndian 4 _), ofBigEndian_toBigEndian,
    Nat.mod_eq_of_lt (by omega), List.length_append, length_toBigEndian]

/-- A read that fails stops inside the length that was stated, or at its end. -/
theorem readMsgMappingErr_eq_error {Msg : Type} [MsgDecode Msg] {checks : Bool}
    {r r' : Reader UInt8 IoError} {halt : Halt ConveyError}
    (h : readMsgMappingErr Msg checks r = (.error halt, r')) :
    IsReadHalt halt ∧ ∃ got, WithinLength got ∧ r'.taken = r.taken ++ got := by
  simp only [readMsgMappingErr, Proc.bind_eq_error, Proc.mapError_eq_error, Proc.mapError_eq_ok,
    readMsg_eq_ok] at h
  rcases h with ⟨e, hread, rfl⟩ | ⟨data, r₁, ⟨body, hfits, -, htaken, rfl⟩, hrest⟩
  · obtain ⟨hunreachable, houtOfFuel, hgot⟩ := readMsg_eq_error hread
    refine ⟨?_, hgot⟩
    -- of the ways in which `readMsg` stops, two are excluded; all others are read halts
    rcases e with (e | e) | _ | _ | _ | _
    all_goals first
      | exact absurd rfl hunreachable
      | exact absurd rfl houtOfFuel
      | trivial
  · rcases hres : msgResult Msg body with e | msg'
    · obtain ⟨rfl, rfl⟩ : Halt.error (msgErrorToConveyError e) = halt ∧ r₁ = r' := by
        simpa [hres] using hrest
      refine ⟨?_, _, withinLength_lengthAndBody hfits, htaken⟩
      cases e <;> trivial
    · simp [hres] at hrest

/-- Reading a message accounts for every byte that it takes from the stream. -/
theorem readMsgMappingErr_honest {Msg : Type} [MsgDecode Msg] (checks : Bool) :
    Honest (readMsgMappingErr Msg checks) := by
  refine ((readMsg_honest checks).mapError _).bind fun data => ?_
  split
  · exact Honest.pure _
  · exact Honest.fail _

/-- `read_backend` and `read_frontend` with open streams, in terms of the reader alone. -/
theorem read_eq (h : c.Open layers) (t : MsgType) {r : Except (Halt ConveyError) _} :
    read t c = (r, c') ↔ ∃ reader,
      readMsgMappingErr t.Body c.overflowChecks ⟨(c.wrap t.side).stream, []⟩ = (r, reader) ∧
      c' = (c.setWrap t.side (.ofLayer (layers t.side) reader.script)).log
        (reader.taken.map (Event.took t.side (layers t.side))) := by
  rw [read, unwrapStream_of_open h, readAt_eq]

/-- The second half of `read_through!`. -/
theorem report_of_open (h : c.Open layers) (t : MsgType) (msg : t.Body) (bytes : List UInt8) :
    (do
      callback (t.wrap msg)
      write t.side.other bytes
      pure msg : ConveyM t.Body) c =
      (.ok msg, c.log
        [.callback (t.wrap msg), .wrote t.side.other (layers t.side.other) bytes]) := by
  rw [callback, Proc.modify_bind_apply,
    Proc.bind_of_ok (write_of_open (h.log [.callback (t.wrap msg)]) _ _)]
  simp

/-- A message is read, reported and written to the other side. -/
theorem readThrough_eq_ok (h : c.Open layers) {t : MsgType} {msg : t.Body} :
    readThrough t c = (.ok msg, c') ↔ ∃ body fits decodes s',
      Brings (c.wrap t.side).stream (lengthAndBody body) s' ∧
      c' = (c.setWrap t.side (.ofLayer (layers t.side) s')).log
        ((lengthAndBody body).map (Event.took t.side (layers t.side)) ++
          (Packet.mk t body msg fits decodes).report layers) := by
  have hopen (s' : Stream) (taken : List UInt8) :=
    (h.setWrap t.side s').log (taken.map (Event.took t.side (layers t.side)))
  rw [readThrough, Proc.bind_eq_ok]
  constructor
  · rintro ⟨⟨bytes, msg'⟩, c₁, hread, hrest⟩
    obtain ⟨reader, hreader, rfl⟩ := (read_eq h t).mp hread
    obtain ⟨body, hfits, hbrings, htaken, rfl, hres⟩ := readMsgMappingErr_eq_ok.mp hreader
    rw [List.nil_append] at htaken
    replace hrest := (report_of_open (hopen _ _) t msg' _).symm.trans hrest
    obtain ⟨rfl, rfl⟩ : msg' = msg ∧ _ = c' := by simpa using hrest
    exact ⟨body, hfits, hres, reader.script, hbrings, by rw [htaken]; rfl⟩
  · rintro ⟨body, hfits, hres, s', hbrings, rfl⟩
    refine ⟨(frameBytes t.typeByteOpt body, msg), _, (read_eq h t).mpr
      ⟨⟨s', lengthAndBody body⟩,
        readMsgMappingErr_eq_ok.mpr ⟨body, hfits, hbrings, rfl, rfl, hres⟩, rfl⟩, ?_⟩
    refine (report_of_open (hopen _ _) t msg _).trans ?_
    rw [log_log]
    rfl

/-- A message that cannot be read leaves no other trace than the bytes that were consumed. -/
theorem readThrough_eq_error (h : c.Open layers) {t : MsgType} {halt : Halt ConveyError}
    (hread : readThrough t c = (.error halt, c')) : IsReadHalt halt ∧
      ∃ got s', WithinLength got ∧
        Script.tokens (c.wrap t.side).stream = got ++ Script.tokens s' ∧
        c' = (c.setWrap t.side (.ofLayer (layers t.side) s')).log
          (got.map (Event.took t.side (layers t.side))) := by
  rw [readThrough, Proc.bind_eq_error] at hread
  rcases hread with hread | ⟨⟨bytes, msg⟩, c₁, hread, hrest⟩
  · obtain ⟨reader, hreader, rfl⟩ := (read_eq h t).mp hread
    obtain ⟨hhalt, got, hwithin, htaken⟩ := readMsgMappingErr_eq_error hreader
    rw [List.nil_append] at htaken
    obtain ⟨got', htaken', htokens⟩ := @readMsgMappingErr_honest t.Body _ c.overflowChecks
      ⟨(c.wrap t.side).stream, []⟩
    rw [hreader] at htaken' htokens
    obtain rfl : got = got' := by simpa [htaken] using htaken'
    exact ⟨hhalt, got, reader.script, hwithin, htokens, by rw [htaken]⟩
  · obtain ⟨reader, -, rfl⟩ := (read_eq h t).mp hread
    -- the report and the write cannot fail with open streams
    replace hrest :=
      (report_of_open ((h.setWrap t.side reader.script).log _) t msg bytes).symm.trans hrest
    simp at hrest

/-! ## The race of the two type bytes -/

/-- Waiting polls of a wrap are waiting polls of its stream. -/
theorem exists_of_waits {layer : Layer} {s : Stream} {w : StreamWrap}
    (h : Waits StreamWrap.pollTypeByte (.ofLayer layer s) w) :
    ∃ s', w = .ofLayer layer s' ∧ Waits pollOne s s' := by
  refine @Waits.preserves _ _ StreamWrap.pollTypeByte
    (fun w => ∃ s', w = .ofLayer layer s' ∧ Waits pollOne s s') ?_ _ _ h ⟨s, rfl, .refl⟩
  rintro w w' hpoll ⟨s', rfl, hs'⟩
  rw [StreamWrap.pollTypeByte_ofLayer] at hpoll
  rcases hone : pollOne s' with ⟨_ | r, s''⟩
  · obtain rfl : StreamWrap.ofLayer layer s'' = w' := by simpa [hone, Poll.map] using hpoll
    exact ⟨s'', rfl, hs'.tail hone⟩
  · simp [hone, Poll.map] at hpoll

/-- A ready poll of a wrap is a ready poll of its stream. -/
theorem exists_of_ready {layer : Layer} {s : Stream} {w : StreamWrap}
    {r : Except ConveyError UInt8}
    (h : StreamWrap.pollTypeByte (.ofLayer layer s) = (.ready r, w)) :
    ∃ s' r', pollOne s = (.ready r', s') ∧ r = r'.mapError .ioError ∧ w = .ofLayer layer s' := by
  rw [StreamWrap.pollTypeByte_ofLayer] at h
  rcases hone : pollOne s with ⟨_ | r', s'⟩
  · simp [hone, Poll.map] at h
  · obtain ⟨rfl, rfl⟩ : Except.mapError ConveyError.ioError r' = r ∧
        StreamWrap.ofLayer layer s' = w := by simpa [hone, Poll.map] using h
    exact ⟨s', r', rfl, rfl, rfl⟩

/-- The outcome of the race. The winner's poll was ready, the other side only waited. -/
theorem selectTypeByte_cases (h : c.Open layers) {r : Except (Halt ConveyError) (Side × UInt8)}
    (hselect : selectTypeByte c = (r, c')) :
    (∃ s s', Waits pollOne c.backend.stream s ∧ Waits pollOne c.frontend.stream s' ∧
      r = .error .waiting ∧
      c' = (c.setWrap .backend (.ofLayer (layers .backend) s)).setWrap .frontend
        (.ofLayer (layers .frontend) s')) ∨
    ∃ side s₁ s s' result, Waits pollOne (c.wrap side).stream s₁ ∧
      pollOne s₁ = (.ready result, s) ∧ Waits pollOne (c.wrap side.other).stream s' ∧
      (r, c') = tookTypeByte side (layers side) (result.mapError .ioError)
        ((c.setWrap side (.ofLayer (layers side) s)).setWrap side.other
          (.ofLayer (layers side.other) s')) := by
  obtain ⟨b, hb⟩ := h .backend
  obtain ⟨f, hf⟩ := h .frontend
  have hb' : c.backend = .ofLayer (layers .backend) b := hb
  have hf' : c.frontend = .ofLayer (layers .frontend) f := hf
  rw [selectTypeByte] at hselect
  rcases hsel : select StreamWrap.pollTypeByte StreamWrap.pollTypeByte c.rounds c.backend c.frontend
    with ⟨_ | (r' | r'), wb, wf⟩
  all_goals
    simp only [hsel] at hselect
    rw [hb', hf'] at hsel
  · -- both sides are pending for ever
    obtain ⟨hwb, hwf⟩ := select_pending hsel
    obtain ⟨s, rfl, hs⟩ := exists_of_waits hwb
    obtain ⟨s', rfl, hs'⟩ := exists_of_waits hwf
    obtain ⟨rfl, rfl⟩ : .error .waiting = r ∧ _ = c' := by simpa using hselect
    exact .inl ⟨s, s', by simpa [hb'] using hs, by simpa [hf'] using hs', rfl, rfl⟩
  · -- the backend is ready, and the frontend has been polled as often as before
    obtain ⟨w₁, hwait, hready, hother⟩ := select_left hsel
    obtain ⟨s₁, rfl, hs₁⟩ := exists_of_waits hwait
    obtain ⟨s, result, hone, rfl, rfl⟩ := exists_of_ready hready
    obtain ⟨s', rfl, hs'⟩ := exists_of_waits hother
    rw [StreamWrap.layer_ofLayer] at hselect
    refine .inr ⟨.backend, s₁, s, s', result, ?_, hone, ?_, hselect.symm⟩
    · simpa [wrap, hb'] using hs₁
    · simpa [wrap, Side.other, hf'] using hs'
  · -- the frontend is ready after the backend has been pending once more
    obtain ⟨w₁, hother, hwait, hready⟩ := select_right hsel
    obtain ⟨s₁, rfl, hs₁⟩ := exists_of_waits hwait
    obtain ⟨s, result, hone, rfl, rfl⟩ := exists_of_ready hready
    obtain ⟨s', rfl, hs'⟩ := exists_of_waits hother
    rw [StreamWrap.layer_ofLayer] at hselect
    refine .inr ⟨.frontend, s₁, s, s', result, ?_, hone, ?_, hselect.symm⟩
    · simpa [wrap, hf'] using hs₁
    · simpa [wrap, Side.other, hb'] using hs'

/-- The winner of the race: the next byte of its side is taken, the other side only waits. -/
theorem selectTypeByte_eq_ok (h : c.Open layers) {side : Side} {byte : UInt8}
    (hselect : selectTypeByte c = (.ok (side, byte), c')) :
    ∃ s s', Brings (c.wrap side).stream [byte] s ∧ Waits pollOne (c.wrap side.other).stream s' ∧
      c' = ((c.setWrap side (.ofLayer (layers side) s)).setWrap side.other
        (.ofLayer (layers side.other) s')).log [.took side (layers side) byte] := by
  rcases selectTypeByte_cases h hselect with ⟨s, s', -, -, hr, -⟩ |
    ⟨side', s₁, s, s', result, hwait, hone, hother, heq⟩
  · cases hr
  rcases result with e | byte'
  · cases heq
  · simp only [Except.mapError, tookTypeByte, Prod.mk.injEq, Except.ok.injEq] at heq
    obtain ⟨⟨rfl, rfl⟩, rfl⟩ := heq
    exact ⟨s, s', hwait.brings (by simp) (pollOne_ready hone), hother, rfl⟩

/-- Without a winner no byte is consumed. -/
theorem selectTypeByte_eq_error (h : c.Open layers) {halt : Halt ConveyError}
    (hselect : selectTypeByte c = (.error halt, c')) : IsReadHalt halt ∧ c'.trace = c.trace := by
  rcases selectTypeByte_cases h hselect with ⟨s, s', -, -, hr, rfl⟩ |
    ⟨side', s₁, s, s', result, hwait, hone, hother, heq⟩
  · obtain rfl : halt = .waiting := by simpa using hr
    exact ⟨trivial, by simp⟩
  rcases result with e | byte'
  · simp only [Except.mapError, tookTypeByte, Prod.mk.injEq, Except.error.injEq] at heq
    obtain ⟨rfl, rfl⟩ := heq
    exact ⟨trivial, by simp⟩
  · cases heq

end Conveyor

end Postgread
