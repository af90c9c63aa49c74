import Postgread.Convey.Tls
import Postgread.Msg.Framing

/-!
# Handshakes that fail

The result of a handshake is unwrapped, so a handshake that fails aborts the run instead of ending it
with an error. `panics_step` says which steps panic: those with such a handshake, and in a checked
build those that read a message whose length overflows. `go_handled_iff` says of all runs that begin
with a request for TLS when they deal with their handshakes as with any other error.
-/

namespace Postgread

open Body Conveyor Event

namespace Conveyor

variable {c c' : Conveyor} {layers : Side → Layer}

/-! ## Reads that panic -/

/-- Reading a message panics where the length of its frame does not fit into 32 bits. -/
theorem panics_readMsgMappingErr {Msg : Type} [MsgDecode Msg] {checks : Bool}
    {r : Reader UInt8 IoError} :
    (readMsgMappingErr Msg checks).Panics r ↔ checks = true ∧
      (MsgDecode.typeByteOpt Msg).isSome ∧ AnnouncesMax r.script := by
  rw [readMsgMappingErr, Proc.panics_bind, Proc.panics_mapError, panics_readMsg, or_iff_left]
  rintro ⟨data, r', -, h⟩
  rcases hres : data.msgResult with e | msg
  · simp [hres] at h
  · simp [hres] at h

/-- Conveying a message panics where reading it does. -/
theorem panics_readThrough (h : c.Open layers) {t : MsgType} :
    (readThrough t).Panics c ↔ c.overflowChecks = true ∧ t.typeByteOpt.isSome ∧
      AnnouncesMax (c.wrap t.side).stream := by
  rw [readThrough, Proc.panics_bind, or_iff_left]
  · rw [MsgType.typeByteOpt, ← @panics_readMsgMappingErr t.Body _ c.overflowChecks
      ⟨(c.wrap t.side).stream, []⟩, Proc.panics_iff, Proc.panics_iff]
    constructor
    · rintro ⟨c', hread⟩
      obtain ⟨reader, hreader, -⟩ := (read_eq h t).mp hread
      exact ⟨reader, hreader⟩
    · rintro ⟨reader, hreader⟩
      exact ⟨_, (read_eq h t).mpr ⟨reader, hreader, rfl⟩⟩
  · -- the report and the write cannot fail with open streams
    rintro ⟨⟨bytes, msg⟩, c₁, hread, hpanics⟩
    obtain ⟨reader, -, rfl⟩ := (read_eq h t).mp hread
    replace hpanics := (congrArg Prod.fst
      (report_of_open ((h.setWrap t.side reader.script).log _) t msg bytes)).symm.trans hpanics
    cases hpanics

/-- The race of the two type bytes does not panic. -/
theorem not_panics_selectTypeByte (c : Conveyor) : ¬ selectTypeByte.Panics c := by
  have htook (side : Side) (layer : Layer) (result : Except ConveyError UInt8) (c : Conveyor) :
      ¬ (tookTypeByte side layer result).Panics c := by
    rcases result with e | byte
    · rintro ⟨⟩
    · rintro ⟨⟩
  rw [Proc.Panics, selectTypeByte]
  split
  · rintro ⟨⟩
  · exact htook _ _ _ _
  · exact htook _ _ _ _

/-- Waiting for the next type byte does not panic. -/
theorem not_panics_readTypeByteFromBoth (c : Conveyor) : ¬ readTypeByteFromBoth.Panics c := by
  rw [readTypeByteFromBoth, Proc.panics_bind, not_or]
  refine ⟨not_panics_selectTypeByte c, ?_⟩
  rintro ⟨⟨side, byte⟩, c₁, -, h⟩
  rcases htry : TypeByte.tryFrom byte with _ | typeByte
  · simp [htry] at h
  · simp [htry] at h

/-- A round of the main loop panics where it reads a message. -/
theorem panics_loopBody (h : c.Open layers) {s : State} :
    (loopBody s).Panics c ↔ c.overflowChecks = true ∧ ∃ side typeByte c₁,
      readTypeByteFromBoth c = (.ok (side, typeByte), c₁) ∧ arm side typeByte s ≠ .unexpected ∧
        AnnouncesMax (c₁.wrap side).stream := by
  rw [loopBody, Proc.panics_bind, or_iff_right (not_panics_readTypeByteFromBoth c), Prod.exists]
  simp only [← exists_and_left]
  refine exists_congr fun side => exists_congr fun typeByte => exists_congr fun c₁ => ?_
  rw [and_left_comm]
  refine and_congr_right fun hread => ?_
  obtain ⟨s₁, s₂, -, -, hc₁⟩ := selectTypeByte_eq_ok h (readTypeByteFromBoth_eq_ok.mp hread)
  have hchecks : c₁.overflowChecks = c.overflowChecks := by simp [hc₁]
  have hopen : c₁.Open layers := by
    rw [hc₁]
    exact ((h.setWrap side s₁).setWrap side.other s₂).log _
  rcases harm : arm side typeByte s with _ | ⟨t, next⟩ | _
  · obtain ⟨rfl, rfl⟩ := arm_eq_authentication.mp harm
    simp only [Proc.panics_map, processBackendAuthentication, readBackendThrough]
    rw [Proc.panics_bind, or_iff_left, panics_readThrough hopen, hchecks]
    · simp [MsgType.typeByteOpt, MsgDecode.typeByteOpt, MsgType.side]
    · rintro ⟨a, c₂, -, hpanics⟩
      rcases hafter : afterAuthentication .authentication a s with e | s'
      · simp [hafter] at hpanics
      · simp [hafter] at hpanics
  -- the arms of the table convey a message that has a type byte
  · obtain ⟨rfl, htype, -⟩ := arm_through harm
    dsimp only
    rw [Proc.panics_bind, or_iff_left (by simp), panics_readThrough hopen, hchecks, htype]
    simp
  · simp

/-! ## The reply to a request for TLS -/

/-- One of the handshakes fails that the reply of the backend asks for, when the streams of both
sides go on like this. -/
inductive HandshakeFails (frontend backend : Stream) (server client : TlsProvider) : Prop where
  /-- The backend knows TLS, and the handshake with it fails. -/
  | client {s : Stream} {e : HandshakeError} (hreply : Brings backend [tlsSupported] s)
      (hfail : client s = .error e)
  /-- The handshake with the backend succeeds, and that with the frontend fails. -/
  | server {s s' : Stream} {e : HandshakeError} (hreply : Brings backend [tlsSupported] s)
      (hclient : client s = .ok s') (hfail : server frontend = .error e)
  /-- The backend does not know TLS, and the handshake with the frontend fails. -/
  | serverOnly {s : Stream} {e : HandshakeError} (hreply : Brings backend [tlsNotSupported] s)
      (hfail : server frontend = .error e)

/-- Reading the reply to a request for TLS does not panic. -/
theorem not_panics_readBackendTypeByte (h : c.Open layers) : ¬ readBackendTypeByte.Panics c := by
  rw [readBackendTypeByte, Proc.panics_iff, unwrapStream_of_open h]
  rintro ⟨c', hread⟩
  obtain ⟨reader, hreader, -⟩ := readAt_eq.mp hread
  have hpanics : readTypeByte.Panics ⟨(c.wrap .backend).stream, []⟩ :=
    Proc.panics_iff.mpr ⟨reader, hreader⟩
  rw [readTypeByte, Proc.panics_mapError, readU8, Proc.panics_map] at hpanics
  exact not_panics_readExact 1 _ hpanics

/-- Accepting TLS panics where the handshake with the frontend fails. -/
theorem panics_acceptTls {f : Stream} (hf : c.wrap .frontend = .plain f) :
    acceptTls.Panics c ↔ ∃ e, c.frontendTlsServer f = .error e := by
  rw [Proc.Panics, acceptTls_of_plain hf]
  rcases c.frontendTlsServer f with e | f'
  · simp
  · simp

/-- Switching to TLS with the backend panics where the handshake with it fails. -/
theorem panics_switchClientToTls {b : Stream} (hb : c.wrap .backend = .plain b) :
    switchClientToTls.Panics c ↔ ∃ e, c.backendTlsClient b = .error e := by
  rw [Proc.Panics, switchClientToTls, switchToTls_of_plain hb]
  rcases c.backendTlsClient b with e | b'
  · simp
  · simp

/-- Which handshakes fail once the reply of the backend is known. -/
theorem handshakeFails_iff {frontend backend b : Stream} {server client : TlsProvider}
    {byte : UInt8} (hreply : Brings backend [byte] b) :
    HandshakeFails frontend backend server client ↔
      (byte = tlsSupported ∧ ((∃ e, client b = .error e) ∨
        (∃ s, client b = .ok s) ∧ ∃ e, server frontend = .error e)) ∨
      byte = tlsNotSupported ∧ ∃ e, server frontend = .error e := by
  have hunique {byte' : UInt8} {b' : Stream} (h : Brings backend [byte'] b') :
      byte = byte' ∧ b = b' := by
    have heq := hreply.symm.trans h
    simpa using heq
  constructor
  · rintro (⟨h, hfail⟩ | ⟨h, hclient, hfail⟩ | ⟨h, hfail⟩)
    · obtain ⟨rfl, rfl⟩ := hunique h
      exact .inl ⟨rfl, .inl ⟨_, hfail⟩⟩
    · obtain ⟨rfl, rfl⟩ := hunique h
      exact .inl ⟨rfl, .inr ⟨⟨_, hclient⟩, _, hfail⟩⟩
    · obtain ⟨rfl, rfl⟩ := hunique h
      exact .inr ⟨rfl, _, hfail⟩
  · rintro (⟨rfl, ⟨e, hfail⟩ | ⟨⟨s, hclient⟩, e, hfail⟩⟩ | ⟨rfl, e, hfail⟩)
    · exact .client hreply hfail
    · exact .server hreply hclient hfail
    · exact .serverOnly hreply hfail

/-- The reply to a request for TLS panics where a handshake fails, and where the error of a backend
that does not know TLS is read. -/
theorem panics_replyToTls (h : c.Open plainLayers) : replyToTls.Panics c ↔
    HandshakeFails c.frontend.stream c.backend.stream c.frontendTlsServer c.backendTlsClient ∨
      c.overflowChecks = true ∧ ∃ c₁, readBackendTypeByte c = (.ok ErrorResponse.typeByte, c₁) ∧
        AnnouncesMax (c₁.wrap .backend).stream := by
  rw [replyToTls, Proc.panics_bind, or_iff_right (not_panics_readBackendTypeByte h)]
  rcases hread : readBackendTypeByte c with ⟨halt | byte, c₁⟩
  · -- without a reply there is no handshake
    have hnone (byte : UInt8) (s : Stream) : ¬ Brings c.backend.stream [byte] s := by
      intro hbrings
      have hok := (readBackendTypeByte_eq_ok h).mpr ⟨s, hbrings, rfl⟩
      rw [hread] at hok
      cases hok
    refine iff_of_false (by simp) ?_
    rintro ((⟨hreply, -⟩ | ⟨hreply, -, -⟩ | ⟨hreply, -⟩) | ⟨-, c₁, hok, -⟩)
    · exact hnone _ _ hreply
    · exact hnone _ _ hreply
    · exact hnone _ _ hreply
    · cases hok
  obtain ⟨f, hf⟩ := h .frontend
  obtain ⟨b, hbrings, hc₁⟩ : ∃ b, Brings c.backend.stream [byte] b ∧ _ :=
    (readBackendTypeByte_eq_ok h).mp hread
  obtain ⟨hb₁, hf₁, hserver, hclient, hchecks⟩ : c₁.wrap .backend = .plain b ∧
      c₁.wrap .frontend = .plain f ∧ c₁.frontendTlsServer = c.frontendTlsServer ∧
      c₁.backendTlsClient = c.backendTlsClient ∧ c₁.overflowChecks = c.overflowChecks := by
    rw [hc₁]
    exact ⟨rfl, hf, rfl, rfl, rfl⟩
  have hopen : c₁.Open plainLayers := by
    rw [hc₁]
    exact (h.setWrap .backend b).log _
  rw [handshakeFails_iff hbrings, show c.frontend.stream = f from congrArg StreamWrap.stream hf]
  simp only [Prod.mk.injEq, Except.ok.injEq, and_assoc, exists_and_left, exists_eq_left']
  split_ifs with hnot hsupported herror
  -- the backend does not know TLS: only the frontend shakes hands
  · subst hnot
    rw [Proc.panics_bind, or_iff_left (by simp), panics_acceptTls hf₁, hserver]
    simp [show tlsNotSupported ≠ tlsSupported by decide,
      show tlsNotSupported ≠ ErrorResponse.typeByte by decide]
  -- the backend knows TLS: the frontend shakes hands once the backend has
  · subst hsupported
    have hrest : (∃ (u : Unit) (c₂ : Conveyor), switchClientToTls c₁ = (.ok u, c₂) ∧
        (acceptTls >>= fun _ => pure true : ConveyM Bool).Panics c₂) ↔
          (∃ s, c.backendTlsClient b = .ok s) ∧ ∃ e, c.frontendTlsServer f = .error e := by
      rw [switchClientToTls, switchToTls_of_plain hb₁, hclient]
      rcases c.backendTlsClient b with e | s
      · simp
      · simp only [Prod.mk.injEq, Except.ok.injEq, exists_eq_left', exists_eq', true_and]
        have hf₂ : ((c₁.setWrap .backend (.tls s)).log [.handshakeBegun .backend b,
            .handshakeDone .backend]).wrap .frontend = .plain f := hf₁
        rw [exists_const, Proc.panics_bind, or_iff_left (by simp), panics_acceptTls hf₂]
        exact iff_of_eq (congrArg (fun server => ∃ e, server f = .error e) hserver)
    rw [Proc.panics_bind, panics_switchClientToTls hb₁, hclient, hrest]
    simp [show tlsSupported ≠ tlsNotSupported by decide,
      show tlsSupported ≠ ErrorResponse.typeByte by decide]
  -- the backend refuses with an error, which may be too long to be read
  · subst herror
    rw [Proc.panics_bind, or_iff_left (by simp), readBackendThrough, panics_readThrough hopen,
      hchecks]
    simp [hnot, hsupported, MsgType.typeByteOpt, MsgDecode.typeByteOpt, MsgType.side]
  · simp [hnot, hsupported, herror]

/-! ## Steps that panic -/

/-- In a build that checks overflows, the next message has a type byte and the greatest length field
there is. -/
inductive Overflows (c : Conveyor) : Phase → Prop where
  | tlsReply {c₁ : Conveyor} (hchecks : c.overflowChecks = true)
      (hread : readBackendTypeByte c = (.ok ErrorResponse.typeByte, c₁))
      (hmax : AnnouncesMax (c₁.wrap .backend).stream) : Overflows c .tlsReply
  | looping {s : State} {side : Side} {typeByte : TypeByte} {c₁ : Conveyor}
      (hchecks : c.overflowChecks = true)
      (hread : readTypeByteFromBoth c = (.ok (side, typeByte), c₁))
      (harm : arm side typeByte s ≠ .unexpected) (hmax : AnnouncesMax (c₁.wrap side).stream) :
      Overflows c (.looping s)

/-- An initial packet has no type byte, so its length does not overflow. -/
theorem not_panics_of_readInitial (h : c.Open layers) {f : Initial → ConveyM (Option Phase)}
    (hf : ∀ i c₁, ¬ (f i).Panics c₁) : ¬ (readFrontendThrough .initial >>= f).Panics c := by
  rw [Proc.panics_bind, readFrontendThrough, panics_readThrough h]
  rintro (⟨-, htyped, -⟩ | ⟨i, c₁, -, hpanics⟩)
  · cases htyped
  · exact hf i c₁ hpanics

/-- A step panics where a handshake fails or a length overflows. -/
theorem panics_step {ph : Phase} (hat : At ph layers c) : (step ph).Panics c ↔
    (ph = .tlsReply ∧ HandshakeFails c.frontend.stream c.backend.stream c.frontendTlsServer
      c.backendTlsClient) ∨ Overflows c ph := by
  cases ph with
  | initial =>
    refine iff_of_false (not_panics_of_readInitial hat.isOpen ?_) ?_
    · rintro (cancel | _ | startup) c₁
      all_goals simp
    · rintro (⟨h, -⟩ | h)
      · cases h
      · cases h
  | tlsReply =>
    obtain rfl := hat.plain (.inr rfl)
    rw [step, Proc.panics_bind, or_iff_left, panics_replyToTls hat.isOpen]
    · rw [and_iff_right rfl]
      refine or_congr_right ⟨?_, ?_⟩
      · rintro ⟨hchecks, c₁, hread, hmax⟩
        exact .tlsReply hchecks hread hmax
      · rintro (⟨hchecks, hread, hmax⟩)
        exact ⟨hchecks, _, hread, hmax⟩
    · rintro ⟨_ | _, c₁, -, h⟩
      all_goals simp at h
  | initialInsideTls =>
    refine iff_of_false (not_panics_of_readInitial hat.isOpen ?_) ?_
    · rintro (cancel | _ | startup) c₁
      all_goals simp
    · rintro (⟨h, -⟩ | h)
      · cases h
      · cases h
  | looping s =>
    rw [step, Proc.panics_map, panics_loopBody hat.isOpen, or_iff_right (by rintro ⟨⟨⟩, -⟩)]
    constructor
    · rintro ⟨hchecks, side, typeByte, c₁, hread, harm, hmax⟩
      exact .looping hchecks hread harm hmax
    · rintro (_ | ⟨hchecks, hread, harm, hmax⟩)
      exact ⟨hchecks, _, _, _, hread, harm, hmax⟩

/-! ## Runs that begin with a request for TLS -/

/-- After the initial packet the layers are settled, but for the reply to a request for TLS. -/
theorem settled_of_stepsTo {ph ph' : Phase} (hat : At ph layers c) (hph : ph ≠ .initial)
    (h : StepsTo step (ph, c) (ph', c')) : Settled ph' := by
  obtain ⟨e, layers', hemits, -⟩ := step_eq_ok hat h
  generalize hnext : some ph' = next at hemits
  cases hemits with
  | initial => exact absurd rfl hph
  | replied => cases hnext; trivial
  | errorReply => cases hnext
  | @initialInsideTls _ p i hp htls =>
    rcases i with cancel | _ | startup
    · cases hnext
    · exact absurd rfl htls
    · cases hnext
      trivial
  | looping haccept =>
    obtain ⟨s', -, rfl⟩ := Option.map_eq_some_iff.mp hnext.symm
    trivial

/-- The reply to a request for TLS is awaited once: from then on the layers are settled. -/
theorem eq_or_settled_of_reaches (h : c.Fresh) {c₁ : Conveyor}
    (hfirst : Reaches step (.initial, c) (.tlsReply, c₁)) {x : Phase × Conveyor}
    (hreach : Reaches step (.tlsReply, c₁) x) : x = (.tlsReply, c₁) ∨ Settled x.1 := by
  induction hreach with
  | refl => exact .inl rfl
  | @tail y z hreach hlast ih =>
    obtain ⟨σ, -, hat, -⟩ := reaches_inv h (hfirst.trans hreach)
    refine .inr (settled_of_stepsTo hat ?_ hlast)
    rcases ih with rfl | hsettled
    · nofun
    · rintro heq
      rw [heq] at hsettled
      exact hsettled

/-- A run returns, waits for an answer that does not come, or panics. -/
theorem go_returns (h : c.Fresh) {r : Except (Halt ConveyError) PUnit} (hgo : go c = (r, c')) :
    r = .error .panic ∨ r = .ok ⟨⟩ ∨ r = .error .waiting ∨ ∃ e, r = .error (.error e) := by
  have hordinary {halt : Halt ConveyError} (h : Ordinary halt) :
      halt = .panic ∨ halt = .waiting ∨ ∃ e, halt = .error e := by
    rcases halt with e | _ | _ | _ | _
    · exact .inr (.inr ⟨e, rfl⟩)
    · exact .inl rfl
    · exact .inr (.inl rfl)
    · exact h.elim
    · exact h.elim
  obtain ⟨ph, c₁, σ, -, -, -, -, ⟨hr, -⟩ | ⟨halt, events, rfl, hfails, -⟩⟩ := go_cases h hgo
  · exact .inr (.inl hr)
  suffices halt = .panic ∨ halt = .waiting ∨ ∃ e, halt = .error e by
    rcases this with rfl | rfl | ⟨e, rfl⟩
    · exact .inl rfl
    · exact .inr (.inr (.inl rfl))
    · exact .inr (.inr (.inr ⟨e, rfl⟩))
  cases hfails with
  | reading hhalt => exact hordinary hhalt
  | handshake => exact .inl rfl
  | authentication _ _ _ hhalt => exact hordinary hhalt
  | tlsInsideTls => exact .inr (.inr ⟨_, rfl⟩)

/-- In a run from the reply on that does not panic every handshake that is begun succeeds. -/
theorem exists_session_of_ends {r : Except (Halt ConveyError) PUnit}
    (h : Ends step (.tlsReply, c) r c') (hat : At .tlsReply plainLayers c)
    (hr : r ≠ .error .panic) : ∃ post, c'.trace = c.trace ++ post ∧
      ∀ side s, .handshakeBegun side s ∈ post → ∃ s', c.provider side s = .ok s' := by
  have hthrough {layers : Side → Layer} {post : List Event} (h : ∀ e ∈ post, e.Through layers)
      (side : Side) (s : Stream) : .handshakeBegun side s ∉ post :=
    fun hmem => h _ hmem
  cases afterReply_of_ends h hat with
  | upgraded reply hmoves _ htrace hevents =>
    obtain ⟨-, -, hserver, hclient⟩ := hmoves
    refine ⟨_, by rw [htrace, List.append_assoc], ?_⟩
    intro side s hmem
    rw [List.mem_append, or_iff_left (hthrough hevents side s)] at hmem
    -- which handshakes were begun is a matter of the reply
    rcases reply with ⟨_ | _, b, f⟩
    · obtain ⟨rfl, rfl⟩ : side = .frontend ∧ s = f := by simpa [TlsReply.events] using hmem
      exact ⟨_, hserver⟩
    · obtain ⟨rfl, rfl⟩ | ⟨rfl, rfl⟩ : (side = .backend ∧ s = b) ∨ side = .frontend ∧ s = f := by
        simpa [TlsReply.events] using hmem
      · exact ⟨_, hclient⟩
      · exact ⟨_, hserver⟩
  | refused q _ htrace =>
    exact ⟨_, htrace, fun side s hmem => absurd hmem (hthrough (q.through_events _) side s)⟩
  | unread _ _ _ htrace =>
    exact ⟨_, htrace, fun side s hmem => absurd hmem (hthrough (through_map_took plainLayers _ _) side s)⟩
  | failed => exact absurd rfl hr

/-- A run returns or waits for an answer that does not come. After a handshake that fails it returns
an error of TLS, and does nothing before that. -/
structure Handled (tls : Side → TlsProvider) (r : Except (Halt ConveyError) PUnit)
    (tr : List Event) : Prop where
  returns : r = .ok ⟨⟩ ∨ r = .error .waiting ∨ ∃ e, r = .error (.error e)
  handshake : ∀ side s e pre post, tr = pre ++ .handshakeBegun side s :: post →
    tls side s = .error e → post = [] ∧ ∃ e', r = .error (.error (.tlsError e'))

section

variable (server client : TlsProvider) (overflowChecks : Bool) {frontend backend rest : Stream}
  {p : Packet}

/-- A run that begins with a request for TLS panics if and only if a handshake fails or a length
overflows. -/
theorem go_panics_iff (hp : p.IsTls) (hfirst : Brings frontend p.bytes rest) :
    let c₀ := new frontend backend server client overflowChecks
    (go c₀).1 = .error .panic ↔ HandshakeFails rest backend server client ∨
      ∃ x, Reaches step (.initial, c₀) x ∧ Overflows x.2 x.1 := by
  intro c₀
  have hfresh := fresh_new frontend backend server client overflowChecks
  have hreach : Reaches step (.initial, c₀) (.tlsReply, _) := .single (stepsTo_of_tls hp hfirst)
  obtain ⟨hends, hat⟩ :=
    @go_of_tls frontend backend rest server client overflowChecks p hp hfirst
  constructor
  · intro hpanics
    obtain ⟨y, hy, hstep⟩ := hends.panics_iff.mp hpanics
    obtain ⟨σ, -, haty, -⟩ := reaches_inv hfresh (hreach.trans hy)
    rcases (panics_step haty).mp hstep with ⟨hph, hfails⟩ | hoverflows
    · -- the reply to the request for TLS is read only once
      rcases eq_or_settled_of_reaches hfresh hreach hy with rfl | hsettled
      · exact .inl hfails
      · rw [hph] at hsettled
        exact hsettled.elim
    · exact .inr ⟨y, hreach.trans hy, hoverflows⟩
  · rintro (hfails | ⟨x, hx, hoverflows⟩)
    · exact hends.panics_iff.mpr ⟨_, .refl, (panics_step hat).mpr (.inl ⟨rfl, hfails⟩)⟩
    · obtain ⟨σ, -, hatx, -⟩ := reaches_inv hfresh hx
      exact (go_ends hfresh.at_initial).panics_iff.mpr
        ⟨x, hx, (panics_step hatx).mpr (.inr hoverflows)⟩

/-- A run that begins with a request for TLS deals with its handshakes as with any other error if and
only if none of them fails and no length overflows. -/
theorem go_handled_iff (hp : p.IsTls) (hfirst : Brings frontend p.bytes rest) :
    let c₀ := new frontend backend server client overflowChecks
    Handled (bySide server client) (go c₀).1 (go c₀).2.trace ↔
      ¬ HandshakeFails rest backend server client ∧
        ∀ x, Reaches step (.initial, c₀) x → ¬ Overflows x.2 x.1 := by
  intro c₀
  have hnot : (go c₀).1 ≠ .error .panic ↔ ¬ HandshakeFails rest backend server client ∧
      ∀ x, Reaches step (.initial, c₀) x → ¬ Overflows x.2 x.1 := by
    refine (not_congr (go_panics_iff server client overflowChecks hp hfirst)).trans ?_
    rw [not_or, not_exists]
    exact and_congr_right fun _ => forall_congr' fun _ => not_and
  rw [← hnot]
  constructor
  · rintro ⟨hr | hr | ⟨e, hr⟩, -⟩ heq
    all_goals
      rw [hr] at heq
      cases heq
  · intro hr
    refine ⟨(go_returns (fresh_new ..) rfl).resolve_left hr, ?_⟩
    rintro side s e pre post htrace hfail
    obtain ⟨hends, hat⟩ :=
      @go_of_tls frontend backend rest server client overflowChecks p hp hfirst
    obtain ⟨events, hevents, hsession⟩ := exists_session_of_ends hends hat hr
    -- the handshake was begun after the request for TLS, and then it has succeeded
    have hmem : .handshakeBegun side s ∈ p.events plainLayers ++ events := by
      rw [show p.events plainLayers ++ events = (go c₀).2.trace from hevents.symm, htrace]
      simp
    rcases List.mem_append.mp hmem with hmem | hmem
    · exact (p.through_events plainLayers _ hmem).elim
    · obtain ⟨s', hs'⟩ := hsession side s hmem
      have hok : bySide server client side s = .ok s' := by
        rw [← hs']
        cases side <;> rfl
      rw [hfail] at hok
      cases hok

end

/-- A backend that does not know TLS, and a frontend that breaks off its handshake. -/
theorem not_handled_abandoned :
    let server : TlsProvider := fun _ => .error ⟨"unexpected end of the stream"⟩
    let run := go (new [.ready 0 [0, 0, 8, 4, 210, 22, 47]] [.ready 78 []] server .ok false)
    ¬ Handled (bySide server .ok) run.1 run.2.trace :=
  have hfirst : @Brings UInt8 IoError _ [.ready 0 [0, 0, 8, 4, 210, 22, 47]] tlsRequest.bytes [] :=
    rfl
  have htls : tlsRequest.IsTls := rfl
  fun h => ((go_handled_iff _ _ false htls hfirst).mp h).1 (.serverOnly rfl rfl)

/-- A backend that agrees to TLS, and a certificate of it that the proxy does not trust: the run
panics. -/
theorem go_untrusted :
    let client : TlsProvider := fun _ => .error ⟨"unknown issuer"⟩
    let run := go (new [.ready 0 [0, 0, 8, 4, 210, 22, 47]] [.ready 83 []] .ok client true)
    run.1 = .error .panic ∧ (∃ pre, run.2.trace = pre ++ [.handshakeBegun .backend []]) ∧
      ¬ Handled (bySide .ok client) run.1 run.2.trace :=
  ⟨rfl, ⟨_, rfl⟩, fun h => by rcases h.returns with h | h | ⟨e, h⟩ <;> cases h⟩

end Conveyor

end Postgread
