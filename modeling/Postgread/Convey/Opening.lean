import Postgread.Convey.History
import Postgread.Convey.Tls

/-!
# How a session begins

In the start-up the proxy reads one side at a time, so nothing there depends on which side is
faster. An `Opening` is what it reads before the main loop: one initial packet, or a request for TLS
with what follows it. `Opens` says that two streams and two TLS libraries bring an opening;
`exists_opens` finds the opening of a run that ends well, and `reaches_of_opens` says that all runs
with the same opening write the same in it and go on from the streams that are left.
-/

namespace Postgread

open Body Conveyor Event

/-- What is read before the main loop, in a session that gets there or ends well without it. -/
inductive Opening where
  /-- An initial packet in the clear. -/
  | plain (p : Packet)
  /-- A request for TLS and an error of the backend. -/
  | refused (request error : Packet)
  /-- A request for TLS, whether the backend knows TLS, and an initial packet inside TLS. -/
  | upgraded (request : Packet) (supported : Bool) (p : Packet)

namespace Opening

/-- What the proxy writes. -/
def writes : Opening → List (Side × List UInt8)
  | plain p => [(.backend, p.bytes)]
  | refused request error => [(.backend, request.bytes), (.frontend, error.bytes)]
  | upgraded request _ p =>
    [(.backend, request.bytes), (.frontend, [tlsSupported]), (.backend, p.bytes)]

/-- The main loop comes after the opening. -/
def StartsUp : Opening → Prop
  | plain p => p.IsStartup
  | refused _ _ => False
  | upgraded _ _ p => p.IsStartup

end Opening

/-- An initial packet that is the last of an opening: a start-up packet or a request to cancel. -/
def Packet.IsSettling (p : Packet) : Prop := p.type = .frontend .initial ∧ ¬ p.IsTls

/-- `Opens frontend backend server client o f b`: the plain streams and the TLS libraries bring the
opening `o`, and what comes after it are the streams `f` and `b`. -/
inductive Opens (frontend backend : Stream) (server client : TlsProvider) :
    Opening → Stream → Stream → Prop where
  | plain {p : Packet} {f : Stream} (hp : p.IsSettling) (hbrings : Brings frontend p.bytes f) :
      Opens frontend backend server client (.plain p) f backend
  | refused {request error : Packet} {f b : Stream} (hrequest : request.IsTls)
      (herror : error.type = .backend .errorResponse) (hfirst : Brings frontend request.bytes f)
      (hbrings : Brings backend error.bytes b) :
      Opens frontend backend server client (.refused request error) f b
  | upgraded {request p : Packet} {s f b : Stream} (reply : TlsReply) (hrequest : request.IsTls)
      (hp : p.IsSettling) (hfirst : Brings frontend request.bytes reply.frontendRest)
      (hreply : Brings backend [reply.byte] reply.backendRest)
      (hclient : if reply.supported then client reply.backendRest = .ok b
        else b = reply.backendRest)
      (hserver : server reply.frontendRest = .ok s) (hbrings : Brings s p.bytes f) :
      Opens frontend backend server client (.upgraded request reply.supported p) f b

namespace Packet

variable {p : Packet}

/-- An initial packet that is no request for TLS settles the opening. -/
theorem isSettling_of_message {i : Initial} (hp : p.message = .frontend (.initial i))
    (hi : i ≠ .tls) : p.IsSettling := by
  refine ⟨type_of_message_initial hp, fun htls => hi ?_⟩
  rw [IsTls, hp] at htls
  cases htls
  rfl

/-- The initial packet of an opening is a request to cancel, or leads to the main loop. -/
theorem IsSettling.message_cases (hp : p.IsSettling) :
    (∃ startup, p.message = .frontend (.initial (.startup startup))) ∨
      ∃ cancel, p.message = .frontend (.initial (.cancel cancel)) := by
  obtain ⟨htype, htls⟩ := hp
  rcases p with ⟨t, body, msg, fits, decodes⟩
  obtain rfl : t = .frontend .initial := htype
  rcases msg with cancel | _ | startup
  · exact .inr ⟨cancel, rfl⟩
  · exact absurd rfl htls
  · exact .inl ⟨startup, rfl⟩

end Packet

namespace Conveyor

variable {c c' : Conveyor} {layers : Side → Layer}

/-! ## From a run to its opening -/

/-- A run from the reply to a request for TLS that ends well. -/
theorem opens_of_ends_tlsReply {frontend : Stream} {request : Packet} {f : Stream}
    (hrequest : request.IsTls) (hfirst : Brings frontend request.bytes f)
    (hf : c.frontend.stream = f) (hat : At .tlsReply plainLayers c)
    (h : Ends step (.tlsReply, c) (.ok ⟨⟩) c') :
    ∃ o f b, Opens frontend c.backend.stream c.frontendTlsServer c.backendTlsClient o f b := by
  subst hf
  cases h with
  | done hstep =>
    simp only [step, Proc.bind_eq_ok] at hstep
    obtain ⟨accepted, c₁, hreply, hrest⟩ := hstep
    -- a reply that is accepted would lead on, so that it was an error of the backend
    cases replies_of_replyToTls hat.isOpen hreply with
    | accepted => cases congrArg Prod.fst hrest
    | refused p htype _ hbrings =>
      obtain ⟨b, hbrings⟩ := hbrings
      exact ⟨_, _, b, .refused hrequest htype hfirst hbrings⟩
  | @next _ y _ _ hstep hy =>
    simp only [StepsTo, step, Proc.bind_eq_ok] at hstep
    obtain ⟨accepted, c₁, hreply, hrest⟩ := hstep
    cases replies_of_replyToTls hat.isOpen hreply with
    | refused => cases congrArg Prod.fst hrest
    | accepted reply hmoves hbrings hopen =>
      obtain ⟨ph, c₂⟩ := y
      obtain ⟨rfl, rfl⟩ : Phase.initialInsideTls = ph ∧ c₁ = c₂ := by simpa using hrest
      obtain ⟨-, hrest, hserver, hclient⟩ := hmoves
      -- the initial packet inside TLS
      obtain ⟨next, c₂, hstep⟩ : ∃ next c₂, step .initialInsideTls c₁ = (.ok next, c₂) := by
        cases hy with
        | done hstep => exact ⟨_, _, hstep⟩
        | next hstep => exact ⟨_, _, hstep⟩
      simp only [step, readFrontendThrough, Proc.bind_eq_ok] at hstep
      obtain ⟨i, c₃, hread, hrest'⟩ := hstep
      obtain ⟨p, hp, ⟨f, hp'⟩, -⟩ := exists_of_readInitial hopen hread
      have hi : i ≠ .tls := by
        rintro rfl
        cases congrArg Prod.fst hrest'
      rw [← hrest] at hfirst
      exact ⟨_, f, _, .upgraded reply hrequest (Packet.isSettling_of_message hp hi) hfirst hbrings
        hclient hserver hp'⟩

/-- A run that ends well has an opening. -/
theorem exists_opens {frontend backend : Stream} {server client : TlsProvider} {checks : Bool}
    (h : (go (new frontend backend server client checks)).1 = .ok ⟨⟩) :
    ∃ o f b, Opens frontend backend server client o f b := by
  have hfresh := fresh_new frontend backend server client checks
  have hends := go_ends hfresh.at_initial
  rw [h] at hends
  obtain ⟨next, c₁, hstep⟩ :
      ∃ next c₁, step .initial (new frontend backend server client checks) = (.ok next, c₁) := by
    cases hends with
    | done hstep => exact ⟨_, _, hstep⟩
    | next hstep => exact ⟨_, _, hstep⟩
  simp only [step, readFrontendThrough, Proc.bind_eq_ok] at hstep
  obtain ⟨i, c₂, hread, -⟩ := hstep
  obtain ⟨p, hp, ⟨f, hbrings⟩, -⟩ := exists_of_readInitial hfresh.isOpen hread
  by_cases hi : i = .tls
  · subst hi
    have hfirst := @stepsTo_of_tls frontend backend f server client checks p hp hbrings
    obtain ⟨layers', hat⟩ := step_at hfresh.at_initial hfirst
    obtain rfl := hat.plain (.inr rfl)
    exact opens_of_ends_tlsReply hp hbrings rfl hat (hends.tail hfirst)
  · exact ⟨_, f, _, .plain (Packet.isSettling_of_message hp hi) hbrings⟩

/-! ## From an opening to runs -/

/-- The answer to the frontend and a handshake with it that succeeds. -/
theorem acceptTls_of_ok {f s : Stream} (hf : c.wrap .frontend = .plain f)
    (hserver : c.frontendTlsServer f = .ok s) :
    (acceptTls >>= fun _ => pure true : ConveyM Bool) c = (.ok true,
      (c.setWrap .frontend (.tls s)).log [.wrote .frontend .plain [tlsSupported],
        .handshakeBegun .frontend f, .handshakeDone .frontend]) := by
  have hok := acceptTls_of_plain hf
  rw [hserver] at hok
  exact Proc.bind_of_ok hok

/-- With two plain streams a conveyor is open. -/
theorem open_plain {f b : Stream} (hf : c.wrap .frontend = .plain f)
    (hb : c.wrap .backend = .plain b) : c.Open plainLayers := by
  rintro (_ | _)
  · exact ⟨b, hb⟩
  · exact ⟨f, hf⟩

/-- The reply to a request for TLS is accepted, and the handshakes succeed. -/
theorem replyToTls_of_brings {b s b' : Stream} {reply : TlsReply}
    (hf : c.wrap .frontend = .plain reply.frontendRest) (hb : c.wrap .backend = .plain b)
    (hreply : Brings b [reply.byte] reply.backendRest)
    (hclient : if reply.supported then c.backendTlsClient reply.backendRest = .ok b'
      else b' = reply.backendRest)
    (hserver : c.frontendTlsServer reply.frontendRest = .ok s) :
    replyToTls c = (.ok true, ((c.setWrap .backend (.ofLayer (reply.layers .backend) b')).setWrap
      .frontend (.tls s)).log reply.events) := by
  have hread := (readBackendTypeByte_eq_ok (open_plain hf hb)).mpr ⟨_, by rwa [hb], rfl⟩
  rw [replyToTls, Proc.bind_of_ok hread]
  rcases reply with ⟨_ | _, b₁, f⟩
  · obtain rfl : b' = b₁ := hclient
    have haccept := @acceptTls_of_ok ((c.setWrap .backend (.plain b')).log
      [.took .backend .plain tlsNotSupported]) f s hf hserver
    refine haccept.trans ?_
    simp only [log_log, setWrap_log]
    rfl
  · -- the backend is switched first
    have hswitch := @switchToTls_of_plain ((c.setWrap .backend (.plain b₁)).log
      [.took .backend .plain tlsSupported]) .backend c.backendTlsClient b₁ rfl
    rw [show c.backendTlsClient b₁ = .ok b' from hclient] at hswitch
    have haccept := @acceptTls_of_ok (((c.setWrap .backend (.plain b₁)).log
      [.took .backend .plain tlsSupported]).setWrap .backend (.tls b') |>.log
        [.handshakeBegun .backend b₁, .handshakeDone .backend]) f s hf hserver
    refine (Proc.bind_of_ok hswitch).trans (haccept.trans ?_)
    simp only [log_log, setWrap_log, setWrap_setWrap]
    rfl

/-- An error of the backend in reply to a request for TLS is conveyed. -/
theorem replyToTls_of_error (hopen : c.Open plainLayers) {p : Packet}
    (htype : p.type = .backend .errorResponse) {s : Stream}
    (hbrings : Brings c.backend.stream p.bytes s) : replyToTls c =
      (.ok false, (c.setWrap .backend (.plain s)).log (p.events plainLayers)) := by
  rcases p with ⟨t, body, msg, fits, decodes⟩
  obtain rfl : t = .backend .errorResponse := htype
  obtain ⟨s₁, hbyte, hbody⟩ := (@brings_append _ _ _ _ _ [ErrorResponse.typeByte] _).mp hbrings
  have hread := (readBackendTypeByte_eq_ok hopen).mpr ⟨s₁, hbyte, rfl⟩
  have hthrough := (readThrough_eq_ok ((hopen.setWrap .backend s₁).log
    [.took .backend .plain ErrorResponse.typeByte])).mpr
      ⟨body, fits, decodes, s, hbody, rfl⟩
  rw [replyToTls, Proc.bind_of_ok hread]
  refine (Proc.bind_of_ok hthrough).trans ?_
  simp only [log_log, setWrap_log]
  rfl

/-- An opening is over: the main loop begins with what is left of the streams, or the session ends. -/
structure Opened (o : Opening) (f b : Stream) (c₀ : Conveyor) : Prop where
  startsUp : o.StartsUp → ∃ c, Reaches step (.initial, c₀) (.looping .gotStartup, c) ∧
    c.frontend.stream = f ∧ c.backend.stream = b ∧ Event.writes c.trace = o.writes
  ends : ¬ o.StartsUp → (go c₀).1 = .ok ⟨⟩ ∧ Event.writes (go c₀).2.trace = o.writes

/-- The last packet of an opening, in a phase that waits for an initial packet. -/
theorem opened_of_isSettling {c₀ : Conveyor} (hfresh : c₀.Fresh) {ph : Phase} {p : Packet}
    {f b : Stream} {o : Opening} (hph : ph = .initial ∨ ph = .initialInsideTls) (hp : p.IsSettling)
    (hreach : Reaches step (.initial, c₀) (ph, c)) (hopen : c.Open layers)
    (hbrings : Brings c.frontend.stream p.bytes f) (hstarts : o.StartsUp ↔ p.IsStartup)
    (hb : c.backend.stream = b)
    (hwrites : o.writes = Event.writes c.trace ++ [(.backend, p.bytes)]) :
    Opened o f b c₀ := by
  have hside : p.side = .frontend := by rw [Packet.side, hp.1]; rfl
  let c₁ := (c.setWrap .frontend (.ofLayer (layers .frontend) f)).log (p.events layers)
  have htrace : Event.writes c₁.trace = o.writes := by
    rw [trace_log, trace_setWrap, writes_append, p.writes_events, hside, hwrites]
    rfl
  -- a start-up packet leads to the main loop, a request to cancel ends the run
  rcases hp.message_cases with ⟨startup, hmessage⟩ | ⟨cancel, hmessage⟩
  · have hstep : StepsTo step (ph, c) (.looping .gotStartup, c₁) := by
      rcases hph with rfl | rfl
      all_goals exact Proc.bind_of_ok (readInitial_of_brings hopen hmessage hbrings)
    refine ⟨fun _ => ⟨c₁, hreach.tail hstep, ?_, hb, htrace⟩, fun hnot => ?_⟩
    · exact StreamWrap.stream_ofLayer _ _
    · exact absurd (hstarts.mpr ⟨startup, hmessage⟩) hnot
  · have hlast : step ph c = (.ok none, c₁) := by
      rcases hph with rfl | rfl
      all_goals exact Proc.bind_of_ok (readInitial_of_brings hopen hmessage hbrings)
    have hgo := (go_eq_iff hfresh.at_initial).mpr (Ends.of_reaches hreach (.done hlast))
    refine ⟨fun h => ?_, fun _ => by rw [hgo]; exact ⟨rfl, htrace⟩⟩
    obtain ⟨startup, hstartup⟩ := hstarts.mp h
    rw [hmessage] at hstartup
    cases hstartup

/-- A run whose frontend brings a request for TLS waits for the reply of the backend. -/
theorem exists_tlsReply {frontend backend f : Stream} {server client : TlsProvider} {checks : Bool}
    {request : Packet} (hrequest : request.IsTls) (hfirst : Brings frontend request.bytes f) :
    ∃ c, StepsTo step (.initial, new frontend backend server client checks) (.tlsReply, c) ∧
      c.wrap .frontend = .plain f ∧ c.wrap .backend = .plain backend ∧
      c.frontendTlsServer = server ∧ c.backendTlsClient = client ∧
      Event.writes c.trace = [(.backend, request.bytes)] := by
  refine ⟨_, stepsTo_of_tls hrequest hfirst, rfl, rfl, rfl, rfl, ?_⟩
  rw [trace_log, trace_setWrap, writes_append, request.writes_events,
    Packet.side_of_isTls hrequest]
  rfl

/-- A run whose backend replies, with handshakes that succeed, waits for the initial packet inside
TLS. -/
theorem exists_initialInsideTls {b s b' : Stream} {reply : TlsReply}
    (hf : c.wrap .frontend = .plain reply.frontendRest) (hb : c.wrap .backend = .plain b)
    (hreply : Brings b [reply.byte] reply.backendRest)
    (hclient : if reply.supported then c.backendTlsClient reply.backendRest = .ok b'
      else b' = reply.backendRest)
    (hserver : c.frontendTlsServer reply.frontendRest = .ok s) :
    ∃ c', StepsTo step (.tlsReply, c) (.initialInsideTls, c') ∧ c'.frontend.stream = s ∧
      c'.backend.stream = b' ∧
      Event.writes c'.trace = Event.writes c.trace ++ [(.frontend, [tlsSupported])] := by
  refine ⟨((c.setWrap .backend (.ofLayer (reply.layers .backend) b')).setWrap .frontend
    (.tls s)).log reply.events, Proc.bind_of_ok (replyToTls_of_brings hf hb hreply hclient hserver),
    rfl, StreamWrap.stream_ofLayer _ _, ?_⟩
  rw [trace_log, trace_setWrap, trace_setWrap, writes_append, reply.writes_events]

/-- In a run whose streams bring an opening, the opening comes to its end. -/
theorem opened_of_opens {frontend backend : Stream} {server client : TlsProvider} {o : Opening}
    {f b : Stream} (h : Opens frontend backend server client o f b) (checks : Bool) :
    Opened o f b (new frontend backend server client checks) := by
  have hfresh := fresh_new frontend backend server client checks
  cases h with
  | plain hp hbrings =>
    exact opened_of_isSettling hfresh (.inl rfl) hp .refl hfresh.isOpen hbrings .rfl rfl rfl
  -- the backend refuses, and its error is the last thing that the frontend gets
  | @refused request error _ _ hrequest herror hfirst hbrings =>
    obtain ⟨c, hstep, hf, hb, -, -, hwrites⟩ :=
      @exists_tlsReply frontend backend f server client checks request hrequest hfirst
    have hopen : c.Open plainLayers := open_plain hf hb
    have hlast : step .tlsReply c = (.ok none, _) := Proc.bind_of_ok
      (replyToTls_of_error hopen herror (by rwa [show c.backend = _ from hb]))
    have hgo := (go_eq_iff hfresh.at_initial).mpr (.next hstep (.done hlast))
    refine ⟨False.elim, fun _ => ?_⟩
    rw [hgo]
    refine ⟨rfl, ?_⟩
    rw [trace_log, trace_setWrap, writes_append, hwrites, error.writes_events,
      show error.side = .backend by rw [Packet.side, herror]; rfl]
    rfl
  -- the reply, one or two handshakes, and the last packet inside TLS
  | @upgraded request p s _ _ reply hrequest hp hfirst hreply hclient hserver hbrings =>
    obtain ⟨c, hstep, hf, hb, rfl, rfl, hwrites⟩ :=
      @exists_tlsReply frontend backend reply.frontendRest server client checks request hrequest
        hfirst
    obtain ⟨c', hsecond, hf', hb', hwrites'⟩ :=
      exists_initialInsideTls hf hb hreply hclient hserver
    obtain ⟨layers, hat⟩ := step_at (At.mk (open_plain hf hb) fun _ => rfl) hsecond
    subst hf' hb'
    exact opened_of_isSettling hfresh (.inr rfl) hp (.head hstep (.single hsecond)) hat.isOpen
      hbrings .rfl rfl (by rw [hwrites', hwrites]; rfl)

end Conveyor

end Postgread
