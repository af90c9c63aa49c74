import Postgread.Convey.Past
import Postgread.Convey.Segmentation
import Postgread.Foundations.Fate
import Postgread.Msg.Framing

/-!
# How runs end

The error that a run returns is all that an operator gets to see of its end. `go_outcome` says that
it tells the truth: it is the one that the bytes after the last conveyed message call for, whatever
the streams were, and an error of a stream or an endless wait comes only where these bytes do not
settle the matter. A process that runs out of memory, be it for a long message or for the room that
`decode_vec` reserves for an announced count, is aborted without a result; this is outside the model.
-/

namespace Postgread

open Body Conveyor

/-! ## Reading one message -/

/-- What becomes of the read of a message that has consumed some bytes and not returned a message.
Without a verdict it is up to the stream. -/
def readVerdict (Msg : Type) [MsgDecode Msg] (overflowChecks : Bool) (got : List UInt8) :
    Option (Halt ConveyError) :=
  let len := ofBigEndian (got.take 4)
  if got.length < 4 then
    none
  else if len < 4 then
    some (.error (.encodeError (.outOfSpace (4 - len))))
  else if 2 ^ 32 ≤ typeLen Msg + len then
    some (if overflowChecks then .panic else .error (.encodeError (.outOfSpace 1)))
  else if got.length < len then
    none
  else
    match msgResult Msg (got.drop 4) with
    | .ok _ => none
    | .error error => some (.error (msgErrorToConveyError error))

/-- The halt is the one of the verdict. Without a verdict the stream has come to its end with these
bytes, and the halt is its own. -/
inductive Explains (s : Stream) (got : List UInt8) :
    Option (Halt ConveyError) → Halt ConveyError → Prop where
  | verdict (halt : Halt ConveyError) : Explains s got (some halt) halt
  | stopped {e : Halt IoError} (h : s.fate = (got, e)) : Explains s got none (e.map .ioError)

/-- A read that its stream has stopped. -/
theorem Explains.of_fate {s : Stream} {got : List UInt8} {e : Halt IoError}
    (h : s.fate = (got, e)) :
    Explains s got none ((e.map ReadError.ioError).map readErrorToConveyError) := by
  rw [show (e.map ReadError.ioError).map readErrorToConveyError = e.map .ioError by cases e <;> rfl]
  exact .stopped h

/-- A read that goes on from some bytes is explained with these bytes in addition. -/
theorem Explains.append {s s' : Stream} {before got : List UInt8}
    {verdict : Option (Halt ConveyError)} {halt : Halt ConveyError}
    (h : Explains s' got verdict halt) (hbrings : Brings s before s') :
    Explains s (before ++ got) verdict halt := by
  cases h with
  | verdict => exact .verdict halt
  | stopped hfate => exact .stopped (by rw [hbrings.fate_eq, hfate])

section

variable {Msg : Type} [MsgDecode Msg]

/-- Without a complete length field there is no verdict. -/
theorem readVerdict_of_length_lt (overflowChecks : Bool) {got : List UInt8} (h : got.length < 4) :
    readVerdict Msg overflowChecks got = none :=
  if_pos h

/-- The verdict once the length field is complete. -/
theorem readVerdict_append (overflowChecks : Bool) (len : UInt32) (got : List UInt8) :
    readVerdict Msg overflowChecks (toBigEndian 4 len.toNat ++ got) =
      if len.toNat < 4 then some (.error (.encodeError (.outOfSpace (4 - len.toNat))))
      else if 2 ^ 32 ≤ typeLen Msg + len.toNat then
        some (if overflowChecks then .panic else .error (.encodeError (.outOfSpace 1)))
      else if 4 + got.length < len.toNat then none
      else match msgResult Msg got with
        | .ok _ => none
        | .error error => some (.error (msgErrorToConveyError error)) := by
  have hlt := len.toNat_lt
  have htake : (toBigEndian 4 len.toNat ++ got).take 4 = toBigEndian 4 len.toNat :=
    List.take_left' (length_toBigEndian 4 _)
  have hdrop : (toBigEndian 4 len.toNat ++ got).drop 4 = got :=
    List.drop_left' (length_toBigEndian 4 _)
  simp only [readVerdict, htake, hdrop, ofBigEndian_toBigEndian, List.length_append,
    length_toBigEndian]
  rw [if_neg (by omega), Nat.mod_eq_of_lt (by omega)]

/-- A length that does not cover its own field leaves too little space for the header. -/
theorem putHeader_of_short {len : UInt32} (hshort : len.toNat < 4) : ∃ target,
    putHeader Msg len (BytesTarget.new (List.replicate (typeLen Msg + len.toNat) 0)) =
      (.error (.outOfSpace (4 - len.toNat)), target) := by
  have hfield (target : BytesTarget) (hleft : target.left = len.toNat) : ∃ target',
      BytesTarget.putU32 len target = (.error (.outOfSpace (4 - len.toNat)), target') := by
    have hpos := target.pos_add_left
    obtain ⟨target', hput⟩ := BytesTarget.putBounded_of_lt target (toBigEndian 4 len.toNat)
      (by rw [length_toBigEndian]; omega)
    rw [length_toBigEndian, hleft] at hput
    exact ⟨target', hput⟩
  rw [putHeader, typeLen_eq_length]
  rcases MsgDecode.typeByteOpt Msg with _ | typeByte
  · exact hfield _ (by simp [Cursor.left])
  · obtain ⟨target₁, hput, -, hrest⟩ := BytesTarget.putBounded_of_le
      (BytesTarget.new (List.replicate (1 + len.toNat) 0)) [typeByte.toU8] (by simp)
    have hleft : target₁.left = len.toNat := by
      rw [← Cursor.length_rest, hrest]
      simp [Cursor.rest]
    obtain ⟨target, hfield⟩ := hfield target₁ hleft
    exact ⟨target, (Proc.bind_of_ok hput).trans hfield⟩

/-- Without overflow checks the greatest length leaves no space for the type byte. -/
theorem putHeader_of_overflow {len : UInt32} (h : 2 ^ 32 ≤ typeLen Msg + len.toNat) :
    ∃ target, allocVec Msg false len = .ok [] ∧
      putHeader Msg len (BytesTarget.new []) = (.error (.outOfSpace 1), target) := by
  have hle := typeLen_le_one Msg
  have hlt := len.toNat_lt
  have hone : typeLen Msg = 1 := by omega
  have hzero : UInt32.ofNat 1 + len = 0 := by
    rw [← UInt32.toNat_inj, UInt32.toNat_add, UInt32.toNat_ofNat_of_lt' (by decide)]
    have hlen : len.toNat = 2 ^ 32 - 1 := by omega
    rw [hlen]
    rfl
  have halloc : allocVec Msg false len = .ok [] := by
    rw [allocVec, if_neg (by simp), hone]
    simp only [hzero]
    rfl
  rw [putHeader]
  rw [typeLen_eq_length] at hone
  generalize MsgDecode.typeByteOpt Msg = typeByteOpt at hone
  rcases typeByteOpt with _ | typeByte
  · cases hone
  · obtain ⟨target, hput⟩ := BytesTarget.putBounded_of_lt (BytesTarget.new []) [typeByte.toU8]
      (Nat.lt_succ_self 0)
    exact ⟨target, halloc, Proc.bind_of_error hput⟩

/-- Where the length leaves no buffer for the message, the verdict is known with the length. -/
theorem readMsg_of_not_fits {overflowChecks : Bool} {r r₁ : Reader UInt8 IoError} {len : UInt32}
    (hread : readU32 r = (.ok len, r₁))
    (hfits : ¬ (4 ≤ len.toNat ∧ typeLen Msg + len.toNat < 2 ^ 32)) :
    ∃ halt, readMsg Msg overflowChecks r = (.error halt, r₁) ∧
      readVerdict Msg overflowChecks (toBigEndian 4 len.toNat) =
        some (halt.map readErrorToConveyError) := by
  have hverdict := @readVerdict_append Msg _ overflowChecks len []
  rw [List.append_nil] at hverdict
  have hbind := Proc.mapError_eq_ok (f := Halt.map ReadError.ioError).mpr hread
  by_cases hshort : len.toNat < 4
  -- the sum does not overflow, and it is the length field that has too little space
  · have halloc := @allocVec_of_fits Msg _ overflowChecks len
      (by have := typeLen_le_one Msg; omega)
    obtain ⟨target, hput⟩ := @putHeader_of_short Msg _ len hshort
    refine ⟨.error (.encodeError (.outOfSpace (4 - len.toNat))), ?_, ?_⟩
    · rw [readMsg, Proc.bind_of_ok hbind, halloc]
      simp only [hput, Proc.fail_apply]
    · rw [hverdict, if_pos hshort]
      rfl
  -- the length is long enough, so that it is the type byte that leaves too little space
  have hoverflow : 2 ^ 32 ≤ typeLen Msg + len.toNat := by omega
  rw [if_neg hshort, if_pos hoverflow] at hverdict
  cases overflowChecks with
  | true =>
    refine ⟨.panic, ?_, hverdict⟩
    rw [readMsg, Proc.bind_of_ok hbind, allocVec, if_pos ⟨rfl, hoverflow⟩]
    rfl
  | false =>
    obtain ⟨target, halloc, hput⟩ := @putHeader_of_overflow Msg _ len hoverflow
    refine ⟨.error (.encodeError (.outOfSpace 1)), ?_, hverdict⟩
    rw [readMsg, Proc.bind_of_ok hbind, halloc]
    simp only [hput, Proc.fail_apply]

/-- A frame that is not read to its end is explained by its length field and its stream. -/
theorem readMsg_explained {overflowChecks : Bool} {r r' : Reader UInt8 IoError}
    {halt : Halt ReadError} (h : readMsg Msg overflowChecks r = (.error halt, r')) :
    ∃ got, r'.taken = r.taken ++ got ∧ Explains r.script got (readVerdict Msg overflowChecks got)
      (halt.map readErrorToConveyError) := by
  have hcases := h
  simp only [readMsg, Proc.bind_eq_error, Proc.mapError_eq_ok, Proc.mapError_eq_error] at hcases
  rcases hcases with ⟨e, hread, rfl⟩ | ⟨len, r₁, hread, hrest⟩
  · -- the length field itself cannot be read
    rw [readU32, Proc.map_eq_error, readExact_eq_error] at hread
    obtain ⟨got, hfill, htaken⟩ := hread
    refine ⟨got, htaken, ?_⟩
    rw [readVerdict_of_length_lt _ (fill_error_length hfill)]
    exact .of_fate (fate_of_fill_error hfill)
  obtain ⟨hbrings₁, htaken₁⟩ := readU32_eq_ok.mp hread
  by_cases hfits : 4 ≤ len.toNat ∧ typeLen Msg + len.toNat < 2 ^ 32
  · -- the body is cut short
    obtain ⟨bytes, target, halloc, hput, -, hleft⟩ :=
      allocVec_putHeader_of_fits overflowChecks hfits.1 hfits.2
    simp only [halloc, hput, Proc.bind_eq_error, Proc.mapError_eq_error, readExact_eq_error,
      Proc.pure_apply, Prod.mk.injEq, reduceCtorEq, false_and, and_false, exists_false,
      or_false] at hrest
    obtain ⟨e, ⟨got, hfill, htaken⟩, rfl⟩ := hrest
    have hlt := fill_error_length hfill
    refine ⟨toBigEndian 4 len.toNat ++ got, by rw [htaken, htaken₁, List.append_assoc], ?_⟩
    rw [readVerdict_append, if_neg (by omega), if_neg (by omega), if_pos (by omega)]
    exact .of_fate (by rw [hbrings₁.fate_eq, fate_of_fill_error hfill])
  · obtain ⟨halt', hnot, hverdict⟩ := readMsg_of_not_fits hread hfits
    rw [h, Prod.mk.injEq, Except.error.injEq] at hnot
    obtain ⟨rfl, rfl⟩ := hnot
    refine ⟨toBigEndian 4 len.toNat, htaken₁, ?_⟩
    rw [hverdict]
    exact .verdict _

/-- The verdict on a whole frame is that on its body. -/
theorem readVerdict_of_fits (overflowChecks : Bool) {body : List UInt8} (h : Fits Msg body) :
    readVerdict Msg overflowChecks (lengthAndBody body) = match msgResult Msg body with
      | .ok _ => none
      | .error error => some (.error (msgErrorToConveyError error)) := by
  unfold Fits at h
  have hlen : (UInt32.ofNat (4 + body.length)).toNat = 4 + body.length :=
    UInt32.toNat_ofNat_of_lt' (show _ < 2 ^ 32 by omega)
  have hverdict := @readVerdict_append Msg _ overflowChecks (.ofNat (4 + body.length)) body
  rwa [hlen, if_neg (by omega), if_neg (by omega), if_neg (by omega)] at hverdict

/-- A read that fails does so for the reason that the bytes show. -/
theorem readMsgMappingErr_explained {overflowChecks : Bool} {r r' : Reader UInt8 IoError}
    {halt : Halt ConveyError} (h : readMsgMappingErr Msg overflowChecks r = (.error halt, r')) :
    ∃ got, r'.taken = r.taken ++ got ∧
      Explains r.script got (readVerdict Msg overflowChecks got) halt := by
  simp only [readMsgMappingErr, Proc.bind_eq_error, Proc.mapError_eq_error, Proc.mapError_eq_ok,
    readMsg_eq_ok] at h
  rcases h with ⟨e, hread, rfl⟩ | ⟨data, r₁, ⟨body, hfits, -, htaken, rfl⟩, hrest⟩
  · exact readMsg_explained hread
  · -- the frame is complete
    refine ⟨lengthAndBody body, ?_⟩
    rw [readVerdict_of_fits overflowChecks hfits]
    rcases hres : msgResult Msg body with e | msg
    · simp only [hres, Proc.fail_apply, Prod.mk.injEq, Except.error.injEq] at hrest
      obtain ⟨rfl, rfl⟩ := hrest
      exact ⟨htaken, .verdict _⟩
    · simp [hres] at hrest

end

namespace Conveyor

variable {c c' : Conveyor} {layers : Side → Layer}

/-- A message that cannot be conveyed is explained by its bytes and its stream. -/
theorem readThrough_explained (h : c.Open layers) {t : MsgType} {halt : Halt ConveyError}
    (hread : readThrough t c = (.error halt, c')) : ∃ got, WithinLength got ∧
      c'.trace = c.trace ++ got.map (Event.took t.side (layers t.side)) ∧
      Explains (c.wrap t.side).stream got (readVerdict t.Body c.overflowChecks got) halt := by
  obtain ⟨-, got, s', hwithin, -, hc'⟩ := readThrough_eq_error h hread
  rw [readThrough, Proc.bind_eq_error] at hread
  rcases hread with hread | ⟨⟨bytes, msg⟩, c₁, hread, hrest⟩
  · obtain ⟨reader, hreader, rfl⟩ := (read_eq h t).mp hread
    obtain ⟨got', htaken, hexplains⟩ := readMsgMappingErr_explained hreader
    have htrace := congrArg trace hc'
    have hinjective (byte byte' : UInt8) (heq : Event.took t.side (layers t.side) byte =
        Event.took t.side (layers t.side) byte') : byte = byte' := by
      cases heq
      rfl
    obtain rfl : got' = got := by
      simpa [htaken, List.map_inj_right hinjective] using htrace
    exact ⟨got', hwithin, by simp [htaken], hexplains⟩
  · -- the report and the write cannot fail with open streams
    obtain ⟨reader, -, rfl⟩ := (read_eq h t).mp hread
    replace hrest :=
      (report_of_open ((h.setWrap t.side reader.script).log _) t msg bytes).symm.trans hrest
    simp at hrest

/-- The race has no winner only where both sides stay silent. -/
theorem fate_of_select_pending (h : c.Open layers) {w w' : StreamWrap}
    (hselect : select StreamWrap.pollTypeByte StreamWrap.pollTypeByte c.rounds c.backend
      c.frontend = (.pending, w, w')) (side : Side) : (c.wrap side).stream.fate = ([], .waiting) := by
  have hsilent {side : Side} {w : StreamWrap} (hwaits : Waits StreamWrap.pollTypeByte (c.wrap side) w)
      (hstuck : w.pollTypeByte = (.pending, w)) : (c.wrap side).stream.fate = ([], .waiting) := by
    obtain ⟨s, hs⟩ := h side
    rw [hs] at hwaits
    obtain ⟨s', rfl, hs'⟩ := exists_of_waits hwaits
    rw [hs, StreamWrap.stream_ofLayer, ← hs'.fate_eq]
    rw [StreamWrap.pollTypeByte_ofLayer] at hstuck
    rcases hone : pollOne s' with ⟨_ | r, s''⟩
    · rw [hone] at hstuck
      obtain rfl := (StreamWrap.ofLayer_injective (congrArg Prod.snd hstuck)).2
      rcases pollOne_pending hone with ⟨rfl, -⟩ | hcons
      · rfl
      · exact absurd hcons.symm (List.cons_ne_self _ _)
    · rw [hone] at hstuck
      cases congrArg Prod.fst hstuck
  obtain ⟨hb, hf⟩ := stuck_of_select_pending settles_pollTypeByte settles_pollTypeByte
    (Nat.lt_succ_self _) hselect
  obtain ⟨hwb, hwf⟩ := select_pending hselect
  cases side with
  | backend => exact hsilent hwb hb
  | frontend => exact hsilent hwf hf

/-- A type byte fails to come only where a stream fails, or where both stay silent. -/
theorem selectTypeByte_explained (h : c.Open layers) {halt : Halt ConveyError}
    (hselect : selectTypeByte c = (.error halt, c')) :
    ∃ side, Explains (c.wrap side).stream [] none halt ∧
      (halt = .waiting → (c.wrap side.other).stream.fate = ([], .waiting)) := by
  rcases selectTypeByte_cases h hselect with ⟨-, -, -, -, hr, -⟩ |
    ⟨side, s₁, s, s', result, hwait, hone, -, heq⟩
  · obtain rfl : halt = .waiting := by simpa using hr
    rw [selectTypeByte] at hselect
    rcases hsel : select StreamWrap.pollTypeByte StreamWrap.pollTypeByte c.rounds c.backend
      c.frontend with ⟨_ | (result | result), w, w'⟩
    · have hsilent := fate_of_select_pending h hsel
      exact ⟨.backend, .stopped (hsilent .backend), fun _ => hsilent .frontend⟩
    all_goals
      rw [hsel] at hselect
      cases result <;> cases hselect
  rcases result with e | byte
  · simp only [Except.mapError, tookTypeByte, Prod.mk.injEq, Except.error.injEq] at heq
    obtain ⟨rfl, -⟩ := heq
    refine ⟨side, @Explains.stopped _ _ (.error e) ?_, by rintro ⟨⟩⟩
    rw [← hwait.fate_eq, fate_of_pollOne_error hone]
  · cases heq

/-- A reply that does not come is explained by the stream of the backend. -/
theorem readBackendTypeByte_explained (h : c.Open layers) {halt : Halt ConveyError}
    (hread : readBackendTypeByte c = (.error halt, c')) :
    Explains (c.wrap .backend).stream [] none halt := by
  rw [readBackendTypeByte, unwrapStream_of_open h, readAt_eq] at hread
  obtain ⟨reader, hread, -⟩ := hread
  rw [readTypeByte, readU8, Proc.mapError_eq_error] at hread
  obtain ⟨e, hread, rfl⟩ := hread
  rw [Proc.map_eq_error, readExact_eq_error] at hread
  obtain ⟨got, hfill, -⟩ := hread
  obtain rfl : got = [] := List.eq_nil_of_length_eq_zero (by have := fill_error_length hfill; omega)
  exact .stopped (fate_of_fill_error hfill)

/-! ## Steps that fail -/

/-- What becomes of a step that has consumed some bytes of a side and conveyed nothing. -/
def verdict (overflowChecks : Bool) : Phase → Side → List UInt8 → Option (Halt ConveyError)
  | .initial, _, got | .initialInsideTls, _, got => readVerdict Initial overflowChecks got
  | .tlsReply, _, [] | .looping _, _, [] => none
  | .tlsReply, _, byte :: got =>
    if byte = tlsNotSupported ∨ byte = tlsSupported then none
    else if byte = ErrorResponse.typeByte then readVerdict ErrorResponse overflowChecks got
    else some (.error (.unknownType .backend byte))
  | .looping s, side, byte :: got =>
    match TypeByte.tryFrom byte with
    | none => some (.error (.unknownType side byte))
    | some typeByte =>
      match arm side typeByte s with
      | .authentication => readVerdict Authentication overflowChecks got
      | .through t _ => readVerdict t.Body overflowChecks got
      | .unexpected => some (.error (.unexpectedType s side typeByte))

/-- The streams of both sides, without their layers. -/
def streams (c : Conveyor) (side : Side) : Stream := (c.wrap side).stream

/-- `Breaks overflowChecks provider streams layers phase halt events`: with these events a step on
these streams fails in its phase, and the halt is what they call for. -/
inductive Breaks (overflowChecks : Bool) (provider : Side → TlsProvider) (streams : Side → Stream)
    (layers : Side → Layer) : Phase → Halt ConveyError → List Event → Prop where
  /-- The message was not accepted, or not read to its end. Between two messages the main loop waits
  for ever only for both sides. -/
  | reading {ph side got halt} (hread : MayRead ph side got)
      (h : Explains (streams side) got (verdict overflowChecks ph side got) halt)
      (hrace : ∀ s, ph = .looping s → got = [] → halt = .waiting →
        (streams side.other).fate = ([], .waiting)) :
      Breaks overflowChecks provider streams layers ph halt
        (got.map (Event.took side (layers side)))
  /-- The TLS library of a side has refused the rest of its plain stream. -/
  | handshake {before side s e} (r : TlsReply)
      (hbackend : Brings (streams .backend) [r.byte] r.backendRest)
      (hfrontend : streams .frontend = r.frontendRest)
      (hevents : before ++ [.handshakeBegun side s] <+: r.events)
      (h : provider side s = .error e) :
      Breaks overflowChecks provider streams layers .tlsReply .panic
        (before ++ [.handshakeBegun side s])
  /-- The authentication request was conveyed before the state was asked. -/
  | authentication {s p authentication e}
      (hp : Packet.message p = .backend (.authentication authentication))
      (h : afterAuthentication .authentication authentication s = .error e) :
      Breaks overflowChecks provider streams layers (.looping s) (.error e) (p.events layers)
  /-- The second request for TLS was conveyed before it was refused. -/
  | tlsInsideTls {p} (hp : Packet.IsTls p) :
      Breaks overflowChecks provider streams layers .initialInsideTls
        (.error (.tlsError .tlsRequestedInsideTls)) (p.events layers)

/-- A step breaks and leaves its events behind. -/
def BreaksIn (c c' : Conveyor) (layers : Side → Layer) (ph : Phase) (halt : Halt ConveyError) :
    Prop :=
  ∃ events, c'.trace = c.trace ++ events ∧
    Breaks c.overflowChecks c.provider c.streams layers ph halt events

/-- The handshake with the frontend fails after the answer to it. -/
theorem breaksIn_of_acceptTls {c₂ : Conveyor} {halt : Halt ConveyError}
    (h : (acceptTls >>= fun _ => pure true : ConveyM Bool) c₂ = (.error halt, c'))
    (reply : TlsReply) (events : List Event)
    (hbrings : Brings (c.streams .backend) [reply.byte] reply.backendRest)
    (hrest : c.wrap .frontend = .plain reply.frontendRest)
    (hf : c₂.wrap .frontend = .plain reply.frontendRest)
    (hserver : c₂.provider .frontend = c.provider .frontend)
    (htrace : c₂.trace = c.trace ++ events)
    (hevents : reply.events = events ++ [.wrote .frontend .plain [tlsSupported],
      .handshakeBegun .frontend reply.frontendRest, .handshakeDone .frontend]) :
    BreaksIn c c' plainLayers .tlsReply halt := by
  have haccept := acceptTls_of_plain hf
  rw [show c₂.frontendTlsServer = c.provider .frontend from hserver] at haccept
  rcases hhandshake : c.provider .frontend reply.frontendRest with e | f
  · rw [hhandshake] at haccept
    rw [Proc.bind_of_error haccept] at h
    obtain ⟨rfl, rfl⟩ : Halt.panic = halt ∧ _ = c' := by simpa using h
    refine ⟨(events ++ [.wrote .frontend .plain [tlsSupported]]) ++
      [.handshakeBegun .frontend reply.frontendRest], ?_, .handshake reply hbrings
        (congrArg StreamWrap.stream hrest) ?_ hhandshake⟩
    · rw [trace_log, trace_setWrap, htrace]
      simp
    · exact ⟨[.handshakeDone .frontend], by simp [hevents]⟩
  · rw [hhandshake] at haccept
    rw [Proc.bind_of_ok haccept] at h
    cases h

/-- The handshake with the backend fails, or after it that with the frontend. -/
theorem Heard.breaksIn_of_supported {c₁ : Conveyor} {b f : Stream} {halt : Halt ConveyError}
    (hheard : Heard c c₁ tlsSupported b f)
    (hbrings : Brings (c.streams .backend) [tlsSupported] b)
    (h : (switchClientToTls >>= fun _ => acceptTls >>= fun _ => pure true : ConveyM Bool) c₁ =
      (.error halt, c')) : BreaksIn c c' plainLayers .tlsReply halt := by
  have hfirst : switchClientToTls c₁ = switchToTls .backend (c.provider .backend) c₁ := by
    rw [← hheard.provider_eq]
    rfl
  rw [switchToTls_of_plain hheard.backend_eq] at hfirst
  rcases hhandshake : c.provider .backend b with e | b'
  · rw [hhandshake] at hfirst
    rw [Proc.bind_of_error hfirst] at h
    obtain ⟨rfl, rfl⟩ : Halt.panic = halt ∧ _ = c' := by simpa using h
    refine ⟨[.took .backend .plain tlsSupported] ++ [.handshakeBegun .backend b], ?_,
      .handshake ⟨true, b, f⟩ hbrings (congrArg StreamWrap.stream hheard.before_eq) ⟨_, rfl⟩
        hhandshake⟩
    rw [trace_log, trace_setWrap, hheard.trace_eq, List.append_assoc]
  · rw [hhandshake] at hfirst
    rw [Proc.bind_of_ok hfirst] at h
    refine breaksIn_of_acceptTls h ⟨true, b, f⟩ [.took .backend .plain tlsSupported,
      .handshakeBegun .backend b, .handshakeDone .backend] hbrings hheard.before_eq
      hheard.frontend_eq
      (hheard.provider_eq .frontend) ?_ rfl
    rw [trace_log, trace_setWrap, hheard.trace_eq, List.append_assoc]
    rfl

/-- A reply to a request for TLS that fails breaks for the reason that its byte shows. -/
theorem replyToTls_breaksIn (hopen : c.Open plainLayers) {halt : Halt ConveyError}
    (h : replyToTls c = (.error halt, c')) : BreaksIn c c' plainLayers .tlsReply halt := by
  obtain ⟨f, hf⟩ := hopen .frontend
  rw [replyToTls] at h
  rcases hread : readBackendTypeByte c with ⟨halt' | byte, c₁⟩
  · rw [Proc.bind_of_error hread] at h
    obtain ⟨rfl, rfl⟩ : halt' = halt ∧ c₁ = c' := by simpa using h
    exact ⟨[], by simp [(readBackendTypeByte_eq_error hopen hread).2],
      @Breaks.reading _ _ _ _ _ .backend [] _ ⟨rfl, .inl rfl, by rintro _ ⟨⟩⟩
        (readBackendTypeByte_explained hopen hread) (by rintro s ⟨⟩)⟩
  obtain ⟨b, hheard⟩ := heard_of_readBackendTypeByte hopen hf hread
  have hbrings : Brings (c.streams .backend) [byte] b := hheard.brings
  have hchecks : c₁.overflowChecks = c.overflowChecks := by
    obtain ⟨s, -, rfl⟩ := (readBackendTypeByte_eq_ok hopen).mp hread
    simp
  rw [Proc.bind_of_ok hread] at h
  split_ifs at h with hnot hsupported herror
  -- the backend does not know TLS: the handshake with the frontend is the only one
  · subst hnot
    exact breaksIn_of_acceptTls h ⟨false, b, f⟩ _ hbrings hheard.before_eq hheard.frontend_eq
      (hheard.provider_eq .frontend) hheard.trace_eq rfl
  · subst hsupported
    exact hheard.breaksIn_of_supported hbrings h
  -- an error of the backend whose frame is not complete or cannot be decoded
  · subst herror
    have hopen₁ : c₁.Open plainLayers := by
      rintro (_ | _)
      · exact ⟨b, hheard.backend_eq⟩
      · exact ⟨f, hheard.frontend_eq⟩
    rcases hthrough : readThrough (.backend .errorResponse) c₁ with ⟨halt' | msg, c₂⟩
    · rw [readBackendThrough, Proc.bind_of_error hthrough] at h
      obtain ⟨rfl, rfl⟩ : halt' = halt ∧ c₂ = c' := by simpa using h
      obtain ⟨got, hwithin, htrace, hexplains⟩ := readThrough_explained hopen₁ hthrough
      refine ⟨(ErrorResponse.typeByte :: got).map (Event.took .backend .plain), ?_,
        @Breaks.reading _ _ _ _ _ .backend _ _
          ⟨rfl, .inr ⟨_, _, rfl, hwithin⟩, by rintro _ ⟨⟩; decide⟩ ?_ (by rintro s ⟨⟩)⟩
      · rw [htrace, hheard.trace_eq, List.append_assoc]
        rfl
      · rw [hchecks, MsgType.side, hheard.backend_eq] at hexplains
        exact hexplains.append hbrings
    · rw [readBackendThrough, Proc.bind_of_ok hthrough] at h
      cases h
  · obtain ⟨rfl, rfl⟩ : Halt.error (.unknownType .backend byte) = halt ∧ _ = c' := by
      simpa using h
    refine ⟨[byte].map (Event.took .backend .plain), hheard.trace_eq,
      @Breaks.reading _ _ _ _ _ .backend _ _
        ⟨rfl, .inr ⟨byte, [], rfl, .inl (Nat.zero_le _)⟩,
          by rintro _ ⟨⟩; exact ⟨hsupported, hnot⟩⟩ ?_ (by rintro s ⟨⟩)⟩
    rw [verdict, if_neg (not_or.mpr ⟨hnot, hsupported⟩), if_neg herror]
    exact .verdict _

/-- An initial packet that cannot be read breaks for the reason that its bytes show. -/
theorem readInitial_breaksIn (h : c.Open layers) {ph : Phase} {halt : Halt ConveyError}
    (hread : readThrough (.frontend .initial) c = (.error halt, c'))
    (hph : ∀ s, ph ≠ .looping s) (hmay : ∀ got, WithinLength got → MayRead ph .frontend got)
    (hverdict : ∀ got, verdict c.overflowChecks ph .frontend got =
      readVerdict Initial c.overflowChecks got) : BreaksIn c c' layers ph halt := by
  obtain ⟨got, hwithin, htrace, hexplains⟩ := readThrough_explained h hread
  refine ⟨_, htrace, .reading (hmay got hwithin) ?_ fun s hs => absurd hs (hph s)⟩
  exact (hverdict got).symm ▸ hexplains

/-- A message that cannot be read after its type byte. -/
theorem breaksIn_of_readThrough (h : c.Open layers) {s : State} {side : Side} {byte : UInt8}
    {c₁ : Conveyor} {halt : Halt ConveyError} (hselect : selectTypeByte c = (.ok (side, byte), c₁))
    {t : MsgType} (hside : t.side = side)
    (hverdict : ∀ got, verdict c.overflowChecks (.looping s) side (byte :: got) =
      readVerdict t.Body c.overflowChecks got)
    (hread : readThrough t c₁ = (.error halt, c')) : BreaksIn c c' layers (.looping s) halt := by
  obtain ⟨d, rfl, htrace, hopen, hbrings, -⟩ := exists_of_selectTypeByte h hselect
  obtain ⟨got, hwithin, htrace', hexplains⟩ := readThrough_explained (hopen.log _) hread
  refine ⟨(byte :: got).map (Event.took side (layers side)), ?_,
    .reading (.inr ⟨_, _, rfl, hwithin⟩) ?_ (by rintro _ _ ⟨⟩)⟩
  · simp [htrace', htrace, hside]
  · rw [hverdict]
    have hchecks : d.overflowChecks = c.overflowChecks := by
      have hkeeps := (fixed_overflowChecks c.overflowChecks).selectTypeByte c rfl
      rwa [hselect] at hkeeps
    rw [overflowChecks_log, hchecks, wrap_log, hside] at hexplains
    exact hexplains.append hbrings

/-- A type byte that the main loop cannot do anything with. -/
theorem breaksIn_of_typeByte (h : c.Open layers) {s : State} {side : Side} {byte : UInt8}
    {c₁ : Conveyor} {halt : Halt ConveyError} (hselect : selectTypeByte c = (.ok (side, byte), c₁))
    (hverdict : verdict c.overflowChecks (.looping s) side [byte] = some halt) :
    BreaksIn c c₁ layers (.looping s) halt := by
  obtain ⟨d, rfl, htrace, -⟩ := exists_of_selectTypeByte h hselect
  refine ⟨[byte].map (Event.took side (layers side)), by simp [htrace],
    .reading (.inr ⟨byte, [], rfl, .inl (Nat.zero_le _)⟩) ?_ (by rintro _ _ ⟨⟩)⟩
  rw [hverdict]
  exact .verdict _

/-- A round of the main loop that fails breaks for the reason that its bytes show. -/
theorem loopBody_breaksIn (h : c.Open layers) {s : State} {halt : Halt ConveyError}
    (hbody : loopBody s c = (.error halt, c')) : BreaksIn c c' layers (.looping s) halt := by
  simp only [loopBody, readTypeByteFromBoth, Proc.bind_eq_error, Proc.bind_eq_ok] at hbody
  rcases hbody with (hselect | ⟨⟨side, byte⟩, c₁, hselect, htry⟩) |
    ⟨⟨side, typeByte⟩, c₂, ⟨⟨side', byte⟩, c₁, hselect, htry⟩, hrest⟩
  · -- neither side brings a type byte
    obtain ⟨side, hexplains, hrace⟩ := selectTypeByte_explained h hselect
    exact ⟨[], by simp [(selectTypeByte_eq_error h hselect).2],
      @Breaks.reading _ _ _ _ _ side [] _ (.inl rfl) hexplains fun _ _ _ => hrace⟩
  · -- the byte is no type byte
    rcases hbyte : TypeByte.tryFrom byte with _ | t
    · obtain ⟨rfl, rfl⟩ : Halt.error (.unknownType side byte) = halt ∧ c₁ = c' := by
        simpa [hbyte] using htry
      exact breaksIn_of_typeByte h hselect (by rw [verdict, hbyte])
    · simp [hbyte] at htry
  rcases hbyte : TypeByte.tryFrom byte with _ | t
  · simp [hbyte] at htry
  obtain ⟨⟨rfl, rfl⟩, rfl⟩ : (side' = side ∧ t = typeByte) ∧ c₁ = c₂ := by
    simpa [hbyte] using htry
  rcases harm : arm side' t s with _ | ⟨t', next⟩ | _
  · obtain ⟨rfl, rfl⟩ := arm_eq_authentication.mp harm
    simp only [harm, Proc.map_eq_error, processBackendAuthentication, Proc.bind_eq_error] at hrest
    rcases hrest with hread | ⟨a, c₃, hread, hafter⟩
    · refine breaksIn_of_readThrough h hselect rfl (fun got => ?_) hread
      rw [verdict, hbyte]
      rfl
    · rcases hnext : afterAuthentication .authentication a s with e | s₂
      · -- the message has been conveyed, and its state is not the one it asks for
        obtain ⟨rfl, rfl⟩ : Halt.error e = halt ∧ c₃ = c' := by simpa [hnext] using hafter
        have htype : MsgType.typeByteOpt (.backend .authentication) = some .authentication := rfl
        obtain rfl := TypeByte.tryFrom_eq_some.mp hbyte
        obtain ⟨p, c₄, -, hmsg, ho, rfl⟩ := offers_of_readThrough h htype hselect hread
        refine ⟨_, ?_, .authentication hmsg hnext⟩
        rw [trace_log, (ho.streams h).2.1]
      · simp [hnext] at hafter
  -- a message of the table, which is conveyed if it can be read
  · simp only [harm, Proc.bind_eq_error] at hrest
    rcases hrest with hread | ⟨msg, c₃, -, hnext⟩
    · refine breaksIn_of_readThrough h hselect (arm_through harm).1 (fun got => ?_) hread
      rw [verdict, hbyte]
      simp only [harm]
    · cases hnext
  · obtain ⟨rfl, rfl⟩ : Halt.error (.unexpectedType s side' t) = halt ∧ c₁ = c' := by
      simpa [harm] using hrest
    refine breaksIn_of_typeByte h hselect ?_
    rw [verdict, hbyte]
    simp only [harm]

/-- A step that fails breaks for the reason that its bytes show. -/
theorem step_breaksIn {ph : Phase} {halt : Halt ConveyError} (hat : At ph layers c)
    (h : step ph c = (.error halt, c')) : BreaksIn c c' layers ph halt := by
  cases ph with
  | initial =>
    simp only [step, readFrontendThrough, Proc.bind_eq_error] at h
    rcases h with hread | ⟨i, c₁, -, hrest⟩
    · exact readInitial_breaksIn hat.isOpen hread (by rintro s ⟨⟩)
        (fun got h => ⟨rfl, h⟩) fun got => by rw [verdict]
    · rcases i with cancel | _ | startup <;> simp at hrest
  | tlsReply =>
    obtain rfl := hat.plain (.inr rfl)
    simp only [step, Proc.bind_eq_error] at h
    rcases h with hreply | ⟨accepted, c₁, -, hrest⟩
    · exact replyToTls_breaksIn hat.isOpen hreply
    · cases accepted <;> simp at hrest
  | initialInsideTls =>
    simp only [step, readFrontendThrough, Proc.bind_eq_error] at h
    rcases h with hread | ⟨i, c₁, hread, hrest⟩
    · exact readInitial_breaksIn hat.isOpen hread (by rintro s ⟨⟩)
        (fun got h => ⟨rfl, h⟩) fun got => by rw [verdict]
    -- the packet inside TLS has been conveyed, and only another request for TLS is an error then
    · obtain ⟨p, hp, -, -, -, htrace⟩ := exists_of_readInitial hat.isOpen hread
      rcases i with cancel | _ | startup
      · simp at hrest
      · obtain ⟨rfl, rfl⟩ : Halt.error (.tlsError .tlsRequestedInsideTls) = halt ∧ c₁ = c' := by
          simpa using hrest
        exact ⟨_, htrace, .tlsInsideTls hp⟩
      · simp at hrest
  | looping s =>
    simp only [step, Proc.map_eq_error] at h
    exact loopBody_breaksIn hat.isOpen h

/-! ## Runs -/

/-- The TLS libraries do not change during a run. -/
theorem fixed_provider (provider : Side → TlsProvider) : Fixed fun c => c.provider = provider where
  log events h := by simpa [funext_iff] using h
  setWrap side w h := by simpa [funext_iff] using h

/-- How a run ends that has led to a phase and these streams: with the entry that ends it, or it
breaks. -/
inductive Ending (overflowChecks : Bool) (provider : Side → TlsProvider) (streams : Side → Stream)
    (layers : Side → Layer) (ph : Phase) :
    List Event → Except (Halt ConveyError) PUnit → Prop where
  | finished {e layers'} (h : Emits ph layers e none layers') :
      Ending overflowChecks provider streams layers ph e.events (.ok ⟨⟩)
  | broken {halt events} (h : Breaks overflowChecks provider streams layers ph halt events) :
      Ending overflowChecks provider streams layers ph events (.error halt)

end Conveyor

/-- Every run conveys the packets of a session. Its result is then the one that the rest of its
trace calls for, or where this rest is no reason to stop, the one in which a stream stops. -/
theorem go_outcome (frontend backend : Stream) (frontendTlsServer backendTlsClient : TlsProvider)
    (overflowChecks : Bool) :
    let c := new frontend backend frontendTlsServer backendTlsClient overflowChecks
    ∃ (σ : Session) (ph : Phase) (c₁ : Conveyor) (events : List Event), σ.At ph ∧
      Reaches step (.initial, c) (ph, c₁) ∧ c₁.trace = σ.events ∧
      (go c).2.trace = σ.events ++ events ∧
      Ending overflowChecks c.provider c₁.streams σ.layers ph events (go c).1 := by
  intro c
  have hfresh : c.Fresh :=
    fresh_new frontend backend frontendTlsServer backendTlsClient overflowChecks
  rcases hgo : go c with ⟨r, c'⟩
  obtain ⟨⟨ph, c₁⟩, hreach, hlast⟩ := ((go_eq_iff hfresh.at_initial).mp hgo).exists_last
  obtain ⟨σ, hσ, hat, htrace⟩ := reaches_inv hfresh hreach
  simp only at hσ hat htrace hlast
  refine ⟨σ, ph, c₁, ?_⟩
  rcases hlast with ⟨rfl, hstep⟩ | ⟨halt, rfl, hstep⟩
  · obtain ⟨e, layers', hemits, -, htrace', -⟩ := step_eq_ok hat hstep
    exact ⟨e.events, hσ, hreach, htrace, by rw [htrace', htrace], .finished hemits⟩
  · obtain ⟨events, htrace', hbreaks⟩ := step_breaksIn hat hstep
    have hchecks : c₁.overflowChecks = overflowChecks :=
      (fixed_overflowChecks overflowChecks).reaches hreach rfl
    have hprovider : c₁.provider = c.provider := (fixed_provider c.provider).reaches hreach rfl
    rw [hchecks, hprovider] at hbreaks
    exact ⟨events, hσ, hreach, htrace, by rw [htrace', htrace], .broken hbreaks⟩

end Postgread
