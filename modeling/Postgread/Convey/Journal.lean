import Postgread.Convey.Automaton

/-!
# The journal of a conversation

A conversation is a list of entries: packets that were conveyed, and at most one reply to a request
for TLS. `Emits` is the machine that writes the journal: from each phase of `go` and the layers of
the two sides, which entry may come and where it leads. `step_eq_ok` and `step_eq_error` say that
each step of the conveyor writes the events of one such entry to the trace, or fails inside one.
-/

namespace Postgread

open Body Conveyor

/-- The reply of the backend to a request for TLS, with the rests of the plain streams that were
handed to the TLS libraries. -/
structure TlsReply where
  supported : Bool
  backendRest : Stream
  frontendRest : Stream

namespace TlsReply

/-- The byte that the backend sent. -/
def byte (r : TlsReply) : UInt8 := if r.supported then tlsSupported else tlsNotSupported

/-- The layers after the reply. -/
def layers (r : TlsReply) : Side → Layer
  | .backend => if r.supported then .tls else .plain
  | .frontend => .tls

/-- What can be observed of the reply. -/
def events (r : TlsReply) : List Event :=
  .took .backend .plain r.byte ::
    ((if r.supported then [.handshakeBegun .backend r.backendRest, .handshakeDone .backend]
      else []) ++
      [.wrote .frontend .plain [tlsSupported], .handshakeBegun .frontend r.frontendRest,
        .handshakeDone .frontend])

end TlsReply

/-- What a conversation consists of: packets that were conveyed, and a reply to a request for TLS.
-/
inductive Entry where
  | conveyed (p : Packet) (layers : Side → Layer)
  | replied (r : TlsReply)

/-- What can be observed of an entry. -/
def Entry.events : Entry → List Event
  | conveyed p layers => p.events layers
  | replied r => r.events

/-- The packet that the entry is about, if it is about one. -/
def Entry.packets : Entry → List Packet
  | conveyed p _ => [p]
  | replied _ => []

/-- Both sides in the clear. -/
def plainLayers : Side → Layer := fun _ => .plain

/-- What the entry takes from the streams. -/
def Entry.Moves (c c' : Conveyor) : Entry → Prop
  | .conveyed p _ =>
    Script.tokens (c.wrap p.side).stream = p.bytes ++ Script.tokens (c'.wrap p.side).stream ∧
      Script.tokens (c'.wrap p.side.other).stream = Script.tokens (c.wrap p.side.other).stream
  | .replied r =>
    Script.tokens c.backend.stream = r.byte :: Script.tokens r.backendRest ∧
      r.frontendRest = c.frontend.stream ∧
      c.frontendTlsServer r.frontendRest = .ok c'.frontend.stream ∧
      if r.supported then c.backendTlsClient r.backendRest = .ok c'.backend.stream
      else c'.backend.stream = r.backendRest

namespace Conveyor

/-- Where the conveyor goes from the initial packet. -/
def afterInitial : Initial → Option Phase
  | .startup _ => some (.looping .gotStartup)
  | .cancel _ => none
  | .tls => some .tlsReply

/-- `Emits phase layers entry next layers'`: the entry can be written in a phase, and leads to the
next phase and to new layers. -/
inductive Emits : Phase → (Side → Layer) → Entry → Option Phase → (Side → Layer) → Prop where
  | initial {layers p i} (h : p.message = .frontend (.initial i)) :
      Emits .initial layers (.conveyed p layers) (afterInitial i) layers
  | replied {layers} (r : TlsReply) :
      Emits .tlsReply layers (.replied r) (some .initialInsideTls) r.layers
  | errorReply {layers p} (h : p.type = .backend .errorResponse) :
      Emits .tlsReply layers (.conveyed p layers) none layers
  | initialInsideTls {layers p i} (h : p.message = .frontend (.initial i)) (htls : i ≠ .tls) :
      Emits .initialInsideTls layers (.conveyed p layers) (afterInitial i) layers
  | looping {s layers p next} (h : accept s p.kind = some next) :
      Emits (.looping s) layers (.conveyed p layers) (next.map .looping) layers

/-- The streams are open, and before the reply to a request for TLS both are plain. -/
structure At (ph : Phase) (layers : Side → Layer) (c : Conveyor) : Prop where
  isOpen : c.Open layers
  plain : ph = .initial ∨ ph = .tlsReply → layers = plainLayers

variable {c c' : Conveyor} {layers : Side → Layer}

/-- After the reply to a request for TLS the layers do not matter. -/
theorem at_of_ne {ph : Phase} (hopen : c.Open layers) (hinitial : ph ≠ .initial)
    (hreply : ph ≠ .tlsReply) : At ph layers c :=
  ⟨hopen, fun hph => (hph.elim hinitial hreply).elim⟩

/-! ## The switch to TLS -/

/-- A plain stream is handed over whole, and the wrap is in the middle of a handshake until that is
done. -/
theorem switchToTls_of_plain {side : Side} {handshake : TlsProvider} {s : Stream}
    (h : c.wrap side = .plain s) :
    switchToTls side handshake c = match handshake s with
      | .error _ => (.error .panic,
          (c.setWrap side .tlsHandshake).log [.handshakeBegun side s])
      | .ok s' => (.ok ⟨⟩,
          (c.setWrap side (.tls s')).log [.handshakeBegun side s, .handshakeDone side]) := by
  simp only [switchToTls, h, StreamWrap.replacePlainWith, StreamWrap.memReplace]
  -- a handshake that fails leaves the wrap in the middle of it
  rcases handshake s with e | s'
  · rfl
  · simp

/-- The reply to the frontend and the switch to TLS after it. -/
theorem acceptTls_of_plain {f : Stream} (hf : c.wrap .frontend = .plain f) :
    acceptTls c = match c.frontendTlsServer f with
      | .error _ => (.error .panic, (c.setWrap .frontend .tlsHandshake).log
          [.wrote .frontend .plain [tlsSupported], .handshakeBegun .frontend f])
      | .ok f' => (.ok ⟨⟩, (c.setWrap .frontend (.tls f')).log
          [.wrote .frontend .plain [tlsSupported], .handshakeBegun .frontend f,
            .handshakeDone .frontend]) := by
  have hwrite : write .frontend [tlsSupported] c =
      (.ok ⟨⟩, c.log [.wrote .frontend .plain [tlsSupported]]) := by
    rw [write, hf]
  rw [acceptTls, Proc.bind_of_ok hwrite, switchServerToTls]
  rw [switchToTls_of_plain (by rw [wrap_log, hf])]
  have hserver : (c.log [.wrote .frontend .plain [tlsSupported]]).frontendTlsServer =
      c.frontendTlsServer := rfl
  rw [hserver]
  rcases c.frontendTlsServer f with e | f' <;> simp

/-- The reply is the next byte of the backend. -/
theorem readBackendTypeByte_eq_ok (h : c.Open layers) {byte : UInt8} :
    readBackendTypeByte c = (.ok byte, c') ↔ ∃ s, Brings (c.wrap .backend).stream [byte] s ∧
      c' = (c.setWrap .backend (.ofLayer (layers .backend) s)).log
        [.took .backend (layers .backend) byte] := by
  rw [readBackendTypeByte, unwrapStream_of_open h, readAt_eq]
  constructor
  · rintro ⟨reader, hread, rfl⟩
    rw [readTypeByte, readU8, Proc.mapError_eq_ok, Proc.map_eq_ok] at hread
    obtain ⟨buf, hread, rfl⟩ := hread
    obtain ⟨hlen, hbrings, htaken⟩ := readExact_eq_ok_iff.mp hread
    obtain ⟨byte, rfl⟩ := List.length_eq_one_iff.mp hlen
    exact ⟨reader.script, hbrings, by rw [htaken]; rfl⟩
  · rintro ⟨s, hbrings, rfl⟩
    refine ⟨⟨s, [byte]⟩, ?_, rfl⟩
    rw [readTypeByte, readU8, Proc.mapError_eq_ok, Proc.map_eq_ok]
    exact ⟨[byte], readExact_eq_ok_iff.mpr ⟨rfl, hbrings, rfl⟩, rfl⟩

/-- Without a reply no byte is consumed. -/
theorem readBackendTypeByte_eq_error (h : c.Open layers) {halt : Halt ConveyError}
    (hread : readBackendTypeByte c = (.error halt, c')) :
    IsReadHalt halt ∧ c'.trace = c.trace := by
  rw [readBackendTypeByte, unwrapStream_of_open h, readAt_eq] at hread
  obtain ⟨reader, hread, rfl⟩ := hread
  rw [readTypeByte, readU8, Proc.mapError_eq_error] at hread
  obtain ⟨e, hread, rfl⟩ := hread
  rw [Proc.map_eq_error, readExact_eq_error] at hread
  obtain ⟨got, hfill, htaken⟩ := hread
  obtain rfl : got = [] := List.eq_nil_of_length_eq_zero (by have := fill_error_length hfill; omega)
  refine ⟨?_, by simp [htaken]⟩
  rcases fill_error_cases hfill with rfl | ⟨e', rfl⟩ <;> trivial

/-- The bytes do not begin with one of the two replies that lead to an upgrade. -/
def Unanswered (got : List UInt8) : Prop :=
  ∀ byte ∈ got.head?, byte ≠ tlsSupported ∧ byte ≠ tlsNotSupported

/-- What the reply to a request for TLS comes to when both streams are plain. -/
inductive Replies (c c' : Conveyor) : Except (Halt ConveyError) Bool → Prop where
  /-- Both sides go on, the frontend inside TLS. -/
  | accepted (reply : TlsReply) (hmoves : (Entry.replied reply).Moves c c')
      (hbrings : Brings c.backend.stream [reply.byte] reply.backendRest)
      (hopen : c'.Open reply.layers) (htrace : c'.trace = c.trace ++ reply.events) :
      Replies c c' (.ok true)
  /-- An error of the backend was conveyed. -/
  | refused (p : Packet) (htype : p.type = .backend .errorResponse)
      (hmoves : (Entry.conveyed p plainLayers).Moves c c')
      (hbrings : ∃ s, Brings c.backend.stream p.bytes s) (hopen : c'.Open plainLayers)
      (htrace : c'.trace = c.trace ++ p.events plainLayers) : Replies c c' (.ok false)
  /-- The reply could not be read. -/
  | unread {halt : Halt ConveyError} {got : List UInt8} (hhalt : Ordinary halt)
      (hwithin : WithinFrame got) (hreply : Unanswered got)
      (htrace : c'.trace = c.trace ++ got.map (Event.took .backend .plain)) :
      Replies c c' (.error halt)
  /-- A handshake failed. -/
  | failed {events : List Event} (reply : TlsReply) (hevents : events <+: reply.events)
      (htrace : c'.trace = c.trace ++ events) (hfail : ∃ side s e, c.provider side s = .error e) :
      Replies c c' (.error .panic)

/-- The backend has sent a byte in reply to the request for TLS, and both streams are still
plain. -/
structure Heard (c c₁ : Conveyor) (byte : UInt8) (backend frontend : Stream) : Prop where
  backend_eq : c₁.wrap .backend = .plain backend
  frontend_eq : c₁.wrap .frontend = .plain frontend
  before_eq : c.wrap .frontend = .plain frontend
  provider_eq : ∀ side, c₁.provider side = c.provider side
  brings : Brings c.backend.stream [byte] backend
  trace_eq : c₁.trace = c.trace ++ [.took .backend .plain byte]

/-- After the reply both streams are still plain, and that of the backend has moved on by its byte.
-/
theorem heard_of_readBackendTypeByte {f : Stream} {byte : UInt8} {c₁ : Conveyor}
    (h : c.Open plainLayers) (hf : c.wrap .frontend = .plain f)
    (hread : readBackendTypeByte c = (.ok byte, c₁)) : ∃ b, Heard c c₁ byte b f := by
  obtain ⟨b, hbrings, rfl⟩ := (readBackendTypeByte_eq_ok h).mp hread
  exact ⟨b, rfl, hf, hf, fun side => by rw [provider_log, provider_setWrap], hbrings, rfl⟩

/-- The last part of a reply that the backend does not refuse. -/
theorem replies_of_acceptTls {c₂ : Conveyor} {s : Stream} {r : Except (Halt ConveyError) Bool}
    (h : (acceptTls >>= fun _ => pure true : ConveyM Bool) c₂ = (r, c')) (reply : TlsReply)
    (events : List Event)
    (hbrings : Brings c.backend.stream [reply.byte] reply.backendRest)
    (hrest : c.wrap .frontend = .plain reply.frontendRest)
    (hclient : if reply.supported then c.backendTlsClient reply.backendRest = .ok s
      else s = reply.backendRest)
    (hb : c₂.wrap .backend = .ofLayer (reply.layers .backend) s)
    (hf : c₂.wrap .frontend = .plain reply.frontendRest)
    (hserver : c₂.provider .frontend = c.provider .frontend)
    (htrace : c₂.trace = c.trace ++ events)
    (hevents : reply.events = events ++ [.wrote .frontend .plain [tlsSupported],
      .handshakeBegun .frontend reply.frontendRest, .handshakeDone .frontend]) :
    Replies c c' r := by
  -- the answer to the frontend has been written when the handshake begins
  have haccept := acceptTls_of_plain hf
  rw [show c₂.frontendTlsServer = c.provider .frontend from hserver] at haccept
  rcases hhandshake : c.provider .frontend reply.frontendRest with e | f
  · rw [hhandshake] at haccept
    rw [Proc.bind_of_error haccept] at h
    obtain ⟨rfl, rfl⟩ : .error .panic = r ∧ _ = c' := by simpa using h
    refine @Replies.failed _ _ (events ++ [.wrote .frontend .plain [tlsSupported],
      .handshakeBegun .frontend reply.frontendRest]) reply ⟨[.handshakeDone .frontend], ?_⟩ ?_
      ⟨_, _, e, hhandshake⟩
    · rw [hevents, List.append_assoc]
      rfl
    · rw [trace_log, trace_setWrap, htrace, List.append_assoc]
  · rw [hhandshake] at haccept
    rw [Proc.bind_of_ok haccept] at h
    obtain ⟨rfl, rfl⟩ : .ok true = r ∧ _ = c' := by simpa using h
    have hstream : c₂.backend.stream = s := by
      rw [show c₂.backend = _ from hb, StreamWrap.stream_ofLayer]
    refine .accepted reply ⟨hbrings.tokens_eq, ?_, hhandshake, ?_⟩ hbrings ?_ ?_
    · exact (congrArg StreamWrap.stream hrest).symm
    · rw [← hstream] at hclient
      exact hclient
    · rintro (_ | _)
      · exact ⟨s, hb⟩
      · exact ⟨f, rfl⟩
    · rw [trace_log, trace_setWrap, htrace, hevents, List.append_assoc]

/-- The backend knows TLS. -/
theorem Heard.replies_of_supported {c₁ : Conveyor} {b f : Stream}
    {r : Except (Halt ConveyError) Bool} (hheard : Heard c c₁ tlsSupported b f)
    (h : (switchClientToTls >>= fun _ => acceptTls >>= fun _ => pure true : ConveyM Bool) c₁ =
      (r, c')) : Replies c c' r := by
  have hfirst : switchClientToTls c₁ = switchToTls .backend (c.provider .backend) c₁ := by
    rw [← hheard.provider_eq]
    rfl
  rw [switchToTls_of_plain hheard.backend_eq] at hfirst
  rcases hhandshake : c.provider .backend b with e | b'
  · rw [hhandshake] at hfirst
    rw [Proc.bind_of_error hfirst] at h
    obtain ⟨rfl, rfl⟩ : .error .panic = r ∧ _ = c' := by simpa using h
    refine @Replies.failed _ _ [.took .backend .plain tlsSupported, .handshakeBegun .backend b]
      ⟨true, b, f⟩ ⟨_, rfl⟩ ?_ ⟨_, _, e, hhandshake⟩
    rw [trace_log, trace_setWrap, hheard.trace_eq, List.append_assoc]
    rfl
  · rw [hhandshake] at hfirst
    rw [Proc.bind_of_ok hfirst] at h
    refine replies_of_acceptTls h ⟨true, b, f⟩ [.took .backend .plain tlsSupported,
      .handshakeBegun .backend b, .handshakeDone .backend] hheard.brings hheard.before_eq
      hhandshake rfl hheard.frontend_eq (hheard.provider_eq .frontend) ?_ rfl
    rw [trace_log, trace_setWrap, hheard.trace_eq, List.append_assoc]
    rfl

/-- The backend answers with an error. -/
theorem Heard.replies_of_error {c₁ : Conveyor} {b f : Stream} {r : Except (Halt ConveyError) Bool}
    (hheard : Heard c c₁ ErrorResponse.typeByte b f) (hopen : c₁.Open plainLayers)
    (h : (readBackendThrough .errorResponse >>= fun _ => pure false : ConveyM Bool) c₁ =
      (r, c')) : Replies c c' r := by
  rcases hthrough : readThrough (.backend .errorResponse) c₁ with ⟨halt | msg, c₂⟩
  -- the error is not read to its end: its type byte and what is there of its frame were taken
  · rw [readBackendThrough, Proc.bind_of_error hthrough] at h
    obtain ⟨rfl, rfl⟩ : .error halt = r ∧ _ = c' := by simpa using h
    obtain ⟨hhalt, got, s, hwithin, -, rfl⟩ := readThrough_eq_error hopen hthrough
    refine @Replies.unread _ _ _ (ErrorResponse.typeByte :: got) (ordinary_of_isReadHalt hhalt)
      (.inr ⟨_, _, rfl, hwithin⟩) (by rintro _ ⟨⟩; decide) ?_
    rw [trace_log, trace_setWrap, hheard.trace_eq, List.append_assoc]
    rfl
  · rw [readBackendThrough, Proc.bind_of_ok hthrough] at h
    obtain ⟨rfl, rfl⟩ : .ok false = r ∧ _ = c' := by simpa using h
    obtain ⟨body, fits, decodes, s, hbrings, rfl⟩ := (readThrough_eq_ok hopen).mp hthrough
    rw [MsgType.side, hheard.backend_eq] at hbrings
    have hframe := brings_append.mpr ⟨_, hheard.brings, hbrings⟩
    refine .refused ⟨.backend .errorResponse, body, msg, fits, decodes⟩ rfl ⟨?_, ?_⟩ ⟨s, hframe⟩
      ((hopen.setWrap _ _).log _) ?_
    · rw [wrap_log]
      exact hframe.tokens_eq
    · rw [wrap_log]
      exact congrArg (fun w => Script.tokens (StreamWrap.stream w))
        (hheard.frontend_eq.trans hheard.before_eq.symm)
    · rw [trace_log, trace_setWrap, hheard.trace_eq, List.append_assoc]
      rfl

/-- What the reply to a request for TLS comes to, in the order in which `replyToTls` compares the
byte. -/
theorem replies_of_replyToTls (hopen : c.Open plainLayers) {r : Except (Halt ConveyError) Bool}
    (h : replyToTls c = (r, c')) : Replies c c' r := by
  obtain ⟨f, hf⟩ := hopen .frontend
  rw [replyToTls] at h
  rcases hread : readBackendTypeByte c with ⟨halt | byte, c₁⟩
  · rw [Proc.bind_of_error hread] at h
    obtain ⟨rfl, rfl⟩ : .error halt = r ∧ c₁ = c' := by simpa using h
    obtain ⟨hhalt, htrace⟩ := readBackendTypeByte_eq_error hopen hread
    exact @Replies.unread _ _ _ [] (ordinary_of_isReadHalt hhalt) (.inl rfl)
      (by rintro _ ⟨⟩) (by simp [htrace])
  obtain ⟨b, hheard⟩ := heard_of_readBackendTypeByte hopen hf hread
  rw [Proc.bind_of_ok hread] at h
  split_ifs at h with hnot hsupported herror
  · -- the backend does not know TLS, but the frontend gets it from the proxy
    subst hnot
    exact replies_of_acceptTls h ⟨false, b, f⟩ _ hheard.brings hheard.before_eq rfl
      hheard.backend_eq hheard.frontend_eq (hheard.provider_eq .frontend) hheard.trace_eq rfl
  · subst hsupported
    exact hheard.replies_of_supported h
  · subst herror
    refine hheard.replies_of_error ?_ h
    rintro (_ | _)
    · exact ⟨b, hheard.backend_eq⟩
    · exact ⟨f, hheard.frontend_eq⟩
  · obtain ⟨rfl, rfl⟩ : .error (.error (.unknownType .backend byte)) = r ∧ _ = c' := by
      simpa using h
    exact @Replies.unread _ _ _ [byte] trivial (.inr ⟨byte, [], rfl, .inl (Nat.zero_le _)⟩)
      (by rintro _ ⟨⟩; exact ⟨hsupported, hnot⟩) hheard.trace_eq

/-! ## Steps -/

/-- The initial packet has no type byte, so its frame is what the read consumes. -/
theorem exists_of_readInitial (h : c.Open layers) {i : Initial}
    (hread : readThrough (.frontend .initial) c = (.ok i, c')) :
    ∃ p : Packet, p.message = .frontend (.initial i) ∧
      (∃ s, Brings (c.wrap .frontend).stream p.bytes s) ∧ (Entry.conveyed p layers).Moves c c' ∧
      c'.Open layers ∧ c'.trace = c.trace ++ p.events layers := by
  obtain ⟨body, fits, decodes, s, hbrings, rfl⟩ := (readThrough_eq_ok h).mp hread
  refine ⟨⟨.frontend .initial, body, i, fits, decodes⟩, rfl, ⟨s, hbrings⟩, ⟨?_, ?_⟩,
    (h.setWrap _ _).log _, ?_⟩
  · rw [wrap_log]
    exact hbrings.tokens_eq.trans (by
      rw [Packet.side, wrap_setWrap_self, StreamWrap.stream_ofLayer]; rfl)
  · rw [wrap_log]
    rfl
  · rw [trace_log, trace_setWrap]
    rfl

/-- A step that goes well writes one entry. -/
theorem step_eq_ok {ph : Phase} {next : Option Phase} (hat : At ph layers c)
    (h : step ph c = (.ok next, c')) :
    ∃ e layers', Emits ph layers e next layers' ∧ e.Moves c c' ∧ c'.trace = c.trace ++ e.events ∧
      ∀ ph', next = some ph' → At ph' layers' c' := by
  cases ph with
  | initial =>
    simp only [step, readFrontendThrough, Proc.bind_eq_ok] at h
    obtain ⟨i, c₁, hread, hrest⟩ := h
    obtain ⟨hnext, rfl⟩ : afterInitial i = next ∧ c₁ = c' := by
      rcases i with cancel | _ | startup <;> simpa [afterInitial] using hrest
    obtain ⟨p, hp, -, hmoves, hopen, htrace⟩ := exists_of_readInitial hat.isOpen hread
    exact ⟨_, layers, hnext ▸ .initial hp, hmoves, htrace,
      fun ph' _ => ⟨hopen, fun _ => hat.plain (.inl rfl)⟩⟩
  | tlsReply =>
    obtain rfl := hat.plain (.inr rfl)
    simp only [step, Proc.bind_eq_ok] at h
    obtain ⟨accepted, c₁, hreply, hrest⟩ := h
    cases replies_of_replyToTls hat.isOpen hreply with
    -- the handshakes went well, and the layers are those of the reply
    | accepted reply hmoves _ hopen htrace =>
      obtain ⟨rfl, rfl⟩ : some Phase.initialInsideTls = next ∧ c₁ = c' := by simpa using hrest
      refine ⟨_, _, .replied reply, hmoves, htrace, fun ph' hph' => ?_⟩
      obtain rfl : Phase.initialInsideTls = ph' := Option.some.inj hph'
      exact at_of_ne hopen nofun nofun
    -- the error of the backend ends the session
    | refused p htype hmoves _ hopen htrace =>
      obtain ⟨rfl, rfl⟩ : none = next ∧ c₁ = c' := by simpa using hrest
      exact ⟨_, _, .errorReply htype, hmoves, htrace, nofun⟩
  | initialInsideTls =>
    simp only [step, readFrontendThrough, Proc.bind_eq_ok] at h
    obtain ⟨i, c₁, hread, hrest⟩ := h
    obtain ⟨hnext, htls, rfl⟩ : afterInitial i = next ∧ i ≠ .tls ∧ c₁ = c' := by
      rcases i with cancel | _ | startup <;> simp_all [afterInitial]
    obtain ⟨p, hp, -, hmoves, hopen, htrace⟩ := exists_of_readInitial hat.isOpen hread
    refine ⟨_, layers, hnext ▸ .initialInsideTls hp htls, hmoves, htrace, fun ph' hph' => ?_⟩
    rcases i with cancel | _ | startup
    · rw [← hnext] at hph'; cases hph'
    · exact absurd rfl htls
    · rw [← hnext] at hph'
      obtain rfl : Phase.looping .gotStartup = ph' := Option.some.inj hph'
      exact at_of_ne hopen nofun nofun
  | looping s =>
    -- a round of the main loop conveys a packet that the automaton accepts
    simp only [step, Proc.map_eq_ok] at h
    obtain ⟨next', hbody, rfl⟩ := h
    obtain ⟨p, c₁, ho, haccept, rfl⟩ := (loopBody_eq_ok hat.isOpen).mp hbody
    obtain ⟨hopen, htrace, hbrings, hwaits⟩ := ho.streams hat.isOpen
    refine ⟨_, layers, .looping haccept, ⟨?_, ?_⟩, ?_, fun ph' hph' => ?_⟩
    · rw [wrap_log]
      exact hbrings.tokens_eq
    · rw [wrap_log]
      exact hwaits.tokens_eq
    · rw [trace_log, htrace]
      rfl
    · obtain ⟨s', -, rfl⟩ := Option.map_eq_some_iff.mp hph'
      exact at_of_ne (hopen.log _) nofun nofun

/-- The bytes of one side that a step may have consumed when it fails to read. -/
def MayRead : Phase → Side → List UInt8 → Prop
  | .initial, side, got => side = .frontend ∧ WithinLength got
  | .tlsReply, side, got => side = .backend ∧ WithinFrame got ∧ Unanswered got
  | .initialInsideTls, side, got => side = .frontend ∧ WithinLength got
  | .looping _, _, got => WithinFrame got

/-- How a step fails, and what it leaves in the trace. -/
inductive Fails (c : Conveyor) :
    Phase → (Side → Layer) → Halt ConveyError → List Event → Prop where
  /-- The message could not be read, or its type byte did not belong to the state. -/
  | reading {ph layers halt side got} (hhalt : Ordinary halt) (h : MayRead ph side got) :
      Fails c ph layers halt (got.map (Event.took side (layers side)))
  /-- A handshake failed. -/
  | handshake {layers events} (r : TlsReply) (h : events <+: r.events)
      (hfail : ∃ side s e, c.provider side s = .error e) : Fails c .tlsReply layers .panic events
  /-- An authentication request did not belong to the state, but was conveyed. -/
  | authentication {s : State} {layers : Side → Layer} {e : ConveyError} {p : Packet}
      (htype : p.type = .backend .authentication) (ho : ∃ c', Offers c p c')
      (hnone : accept s p.kind = none) (hhalt : Ordinary (.error e)) :
      Fails c (.looping s) layers (.error e) (p.events layers)
  /-- The frontend asked for TLS inside TLS, and the packet was conveyed. -/
  | tlsInsideTls {layers : Side → Layer} {p : Packet} (h : p.message = .frontend (.initial .tls))
      (hbrings : ∃ s, Brings (c.wrap .frontend).stream p.bytes s) :
      Fails c .initialInsideTls layers (.error (.tlsError .tlsRequestedInsideTls))
        (p.events layers)

/-- A step that fails leaves in the trace what it took of a message, or a message that it conveyed.
-/
theorem step_eq_error {ph : Phase} {halt : Halt ConveyError} (hat : At ph layers c)
    (h : step ph c = (.error halt, c')) :
    ∃ events, Fails c ph layers halt events ∧ c'.trace = c.trace ++ events := by
  -- an initial packet that cannot be read
  have hinitial {halt : Halt ConveyError} {c' : Conveyor} (ph : Phase)
      (hph : ∀ got, WithinLength got → MayRead ph .frontend got)
      (hread : readThrough (.frontend .initial) c = (.error halt, c')) :
      ∃ events, Fails c ph layers halt events ∧ c'.trace = c.trace ++ events := by
    obtain ⟨hhalt, got, s', hwithin, -, rfl⟩ := readThrough_eq_error hat.isOpen hread
    exact ⟨_, .reading (ordinary_of_isReadHalt hhalt) (hph got hwithin),
      by rw [trace_log, trace_setWrap]; rfl⟩
  cases ph with
  | initial =>
    simp only [step, readFrontendThrough, Proc.bind_eq_error] at h
    rcases h with hread | ⟨i, c₁, -, hrest⟩
    · exact hinitial .initial (fun got h => ⟨rfl, h⟩) hread
    · rcases i with cancel | _ | startup <;> simp at hrest
  | tlsReply =>
    obtain rfl := hat.plain (.inr rfl)
    simp only [step, Proc.bind_eq_error] at h
    rcases h with hreply | ⟨accepted, c₁, -, hrest⟩
    · cases replies_of_replyToTls hat.isOpen hreply with
      | unread hhalt hwithin hreply htrace =>
        exact ⟨_, .reading hhalt ⟨rfl, hwithin, hreply⟩, htrace⟩
      | failed reply hevents htrace hfail =>
        exact ⟨_, .handshake reply hevents hfail, htrace⟩
    · cases accepted <;> simp at hrest
  | initialInsideTls =>
    simp only [step, readFrontendThrough, Proc.bind_eq_error] at h
    rcases h with hread | ⟨i, c₁, hread, hrest⟩
    · exact hinitial .initialInsideTls (fun got h => ⟨rfl, h⟩) hread
    -- the packet has been conveyed before `go` looks at it
    · obtain ⟨p, hp, hbrings, -, -, htrace⟩ := exists_of_readInitial hat.isOpen hread
      rcases i with cancel | _ | startup
      · simp at hrest
      · obtain ⟨rfl, rfl⟩ : Halt.error (.tlsError .tlsRequestedInsideTls) = halt ∧ c₁ = c' := by
          simpa using hrest
        exact ⟨_, .tlsInsideTls hp hbrings, htrace⟩
      · simp at hrest
  | looping s =>
    simp only [step, Proc.map_eq_error] at h
    obtain ⟨hhalt, ⟨side, got, hwithin, htrace⟩ | ⟨p, c₁, e, ho, htype, hnone, rfl, rfl⟩⟩ :=
      loopBody_eq_error hat.isOpen h
    · exact ⟨_, .reading hhalt hwithin, htrace⟩
    · refine ⟨_, .authentication htype ⟨_, ho⟩ hnone hhalt, ?_⟩
      rw [trace_log, (ho.streams hat.isOpen).2.1]

end Conveyor

end Postgread
