import Postgread.Convey.Transparency

/-!
# The switch to TLS

What a run looks like that begins with a request for TLS, with handshakes that succeed. `go_tls`
says that nothing but the request is consumed from the plain stream of the frontend and nothing but
the reply from that of a backend that knows TLS, that everything after the reply passes at the
layers that the reply has chosen, and that no operation ever meets a stream in the middle of a
handshake.
-/

namespace Postgread

open Body Conveyor Event

namespace Event

/-- The event is not part of a handshake, and it passes at these layers. -/
def Through (layers : Side → Layer) : Event → Prop
  | took side layer _ => layer = layers side
  | wrote side layer _ => layer = layers side
  | callback _ => True
  | handshakeBegun _ _ => False
  | handshakeDone _ => False

/-- The handshakes of a side. -/
def handshakes (side : Side) (tr : List Event) : List Event :=
  tr.filter fun
    | handshakeBegun side' _ => side' = side
    | handshakeDone side' => side' = side
    | _ => false

/-- Bytes that are consumed at the layer of their side. -/
theorem through_map_took (layers : Side → Layer) (side : Side) (bytes : List UInt8) :
    ∀ e ∈ bytes.map (took side (layers side)), e.Through layers := by
  intro e he
  obtain ⟨byte, -, rfl⟩ := List.mem_map.mp he
  rfl

/-- What passes through the layers is no handshake. -/
theorem handshakes_of_through {layers : Side → Layer} {tr : List Event}
    (h : ∀ e ∈ tr, e.Through layers) (side : Side) : handshakes side tr = [] := by
  refine List.filter_eq_nil_iff.mpr fun e he => ?_
  have hthrough := h e he
  cases e <;> simp_all [Through]

/-- What passes through the layers is consumed at them. -/
theorem atLayers_of_through {layers : Side → Layer} {tr : List Event}
    (h : ∀ e ∈ tr, e.Through layers) : AtLayers layers tr :=
  fun side layer byte hmem => h (took side layer byte) hmem

end Event

/-- A packet that is conveyed passes through the layers. -/
theorem Packet.through_events (p : Packet) (layers : Side → Layer) :
    ∀ e ∈ p.events layers, e.Through layers := by
  intro e he
  rcases List.mem_append.mp he with htook | hreport
  · exact through_map_took _ _ _ e htook
  · rcases List.mem_pair.mp hreport with rfl | rfl
    · trivial
    · rfl

namespace Conveyor

/-- No operation has met a stream in the middle of a handshake. -/
def Undisrupted (r : Except (Halt ConveyError) PUnit) : Prop :=
  r ≠ .error (.error (.tlsError .handshakeDisrupted)) ∧ r ≠ .error .unreachable

variable {c c' : Conveyor} {layers : Side → Layer}

/-- An ordinary failure has nothing to do with handshakes. -/
theorem undisrupted_of_ordinary {halt : Halt ConveyError} (h : Ordinary halt) :
    Undisrupted (.error halt) := by
  constructor
  all_goals
    rintro heq
    cases heq
    exact h

/-- Where the layers do not change any more. -/
def Settled : Phase → Prop
  | .initialInsideTls | .looping _ => True
  | _ => False

/-- Once the layers are settled, everything passes through them. -/
theorem ends_through {x : Phase × Conveyor} {r : Except (Halt ConveyError) PUnit}
    (h : Ends step x r c') (hsettled : Settled x.1) (hat : At x.1 layers x.2) :
    Undisrupted r ∧ ∃ post, c'.trace = x.2.trace ++ post ∧ ∀ e ∈ post, e.Through layers := by
  -- one step: a settled phase leads to a settled phase and keeps the layers
  have hemits {ph : Phase} {e : Entry} {next : Option Phase} {layers' : Side → Layer}
      (hph : Settled ph) (h : Emits ph layers e next layers') :
      layers' = layers ∧ (∀ ph', next = some ph' → Settled ph') ∧
        ∀ event ∈ e.events, event.Through layers := by
    cases h with
    | initial => exact hph.elim
    | replied => exact hph.elim
    | errorReply => exact hph.elim
    | @initialInsideTls _ p i hp htls =>
      refine ⟨rfl, fun ph' hph' => ?_, p.through_events _⟩
      rcases i with cancel | _ | startup
      · cases hph'
      · exact absurd rfl htls
      · cases hph'
        trivial
    | @looping s _ p next' haccept =>
      refine ⟨rfl, fun ph' hph' => ?_, p.through_events _⟩
      obtain ⟨s', -, rfl⟩ := Option.map_eq_some_iff.mp hph'
      trivial
  induction h with
  | done h =>
    obtain ⟨e, layers', he, -, htrace, -⟩ := step_eq_ok hat h
    exact ⟨⟨nofun, nofun⟩, e.events, htrace, (hemits hsettled he).2.2⟩
  | @halt x _ _ h =>
    obtain ⟨events, hfails, htrace⟩ := step_eq_error hat h
    generalize x.1 = ph at hfails hsettled
    cases hfails with
    | reading hhalt =>
      exact ⟨undisrupted_of_ordinary hhalt, _, htrace, through_map_took _ _ _⟩
    | handshake => exact hsettled.elim
    | authentication htype ho hnone hhalt =>
      exact ⟨undisrupted_of_ordinary hhalt, _, htrace, Packet.through_events _ _⟩
    | tlsInsideTls => exact ⟨⟨nofun, nofun⟩, _, htrace, Packet.through_events _ _⟩
  | @next x y _ _ h _ ih =>
    obtain ⟨e, layers', he, -, htrace, hat'⟩ := step_eq_ok hat h
    obtain ⟨rfl, hsettled', hevents⟩ := hemits hsettled he
    obtain ⟨hr, post, hpost, hthrough⟩ := ih (hsettled' _ rfl) (hat' _ rfl)
    refine ⟨hr, e.events ++ post, by rw [hpost, htrace, List.append_assoc], fun event hevent => ?_⟩
    exact (List.mem_append.mp hevent).elim (hevents event) (hthrough event)

/-- The first step of a run that begins with a request for TLS. -/
theorem stepsTo_of_tls {frontend backend rest : Stream} {server client : TlsProvider} {checks : Bool}
    {p : Packet} (hp : p.IsTls) (hfirst : Brings frontend p.bytes rest) :
    let c₀ := new frontend backend server client checks
    StepsTo step (.initial, c₀)
      (.tlsReply, (c₀.setWrap .frontend (.plain rest)).log (p.events plainLayers)) := by
  intro c₀
  have hfresh := fresh_new frontend backend server client checks
  exact Proc.bind_of_ok (readInitial_of_brings hfresh.isOpen hp hfirst)

/-- A run that begins with a request for TLS, from its second step on. -/
theorem go_of_tls {frontend backend rest : Stream} {server client : TlsProvider} {checks : Bool}
    {p : Packet} (hp : p.IsTls) (hfirst : Brings frontend p.bytes rest) :
    let c₀ := new frontend backend server client checks
    let c₁ := (c₀.setWrap .frontend (.plain rest)).log (p.events plainLayers)
    Ends step (.tlsReply, c₁) (go c₀).1 (go c₀).2 ∧ At .tlsReply plainLayers c₁ := by
  intro c₀ c₁
  have hfresh := fresh_new frontend backend server client checks
  have hstep : StepsTo step (.initial, c₀) (.tlsReply, c₁) := stepsTo_of_tls hp hfirst
  refine ⟨(go_ends hfresh.at_initial).tail hstep, ?_⟩
  obtain ⟨layers', hat⟩ := step_at hfresh.at_initial hstep
  obtain rfl := hat.plain (.inr rfl)
  exact hat

/-- How a run goes on from the reply to a request for TLS. -/
inductive AfterReply (c c' : Conveyor) : Except (Halt ConveyError) PUnit → Prop where
  /-- The reply is accepted, and what follows it passes at the layers that it has chosen. -/
  | upgraded {r : Except (Halt ConveyError) PUnit} {c₁ : Conveyor} {post : List Event}
      (reply : TlsReply) (hmoves : (Entry.replied reply).Moves c c₁) (hr : Undisrupted r)
      (htrace : c'.trace = c.trace ++ reply.events ++ post)
      (hthrough : ∀ e ∈ post, e.Through reply.layers) : AfterReply c c' r
  /-- An error of the backend is conveyed. -/
  | refused (q : Packet) (htype : q.type = .backend .errorResponse)
      (htrace : c'.trace = c.trace ++ q.events plainLayers) : AfterReply c c' (.ok ⟨⟩)
  /-- The reply cannot be read. -/
  | unread {halt : Halt ConveyError} {got : List UInt8} (hhalt : Ordinary halt)
      (hwithin : WithinFrame got) (hreply : Unanswered got)
      (htrace : c'.trace = c.trace ++ got.map (took .backend .plain)) :
      AfterReply c c' (.error halt)
  /-- A handshake fails. -/
  | failed {side : Side} {s : Stream} {e : HandshakeError} (hfail : c.provider side s = .error e) :
      AfterReply c c' (.error .panic)

/-- Every end of a run after the request is one of the four. -/
theorem afterReply_of_ends {r : Except (Halt ConveyError) PUnit} (h : Ends step (.tlsReply, c) r c')
    (hat : At .tlsReply plainLayers c) : AfterReply c c' r := by
  cases h with
  | done h =>
    -- an error of the backend is the only reply that ends the run well
    obtain ⟨e, layers', he, -, htrace, -⟩ := step_eq_ok hat h
    cases he with
    | errorReply hq => exact .refused _ hq htrace
  -- the reading of the reply has failed, or one of the handshakes
  | halt h =>
    obtain ⟨events, hfails, htrace⟩ := step_eq_error hat h
    cases hfails with
    | reading hhalt hgot =>
      obtain ⟨rfl, hwithin, hreply⟩ := hgot
      exact .unread hhalt hwithin hreply htrace
    | handshake _ _ hfail =>
      obtain ⟨side, s, e, hfail⟩ := hfail
      exact .failed hfail
  -- the reply has been accepted, and the layers are settled from here on
  | @next _ y _ _ h hy =>
    obtain ⟨e, layers', he, hmoves, htrace, hat'⟩ := step_eq_ok hat h
    generalize hnext : some y.1 = next at he
    cases he with
    | replied reply =>
      obtain hph : y.1 = .initialInsideTls := Option.some.inj hnext
      obtain ⟨hr, post, hpost, hthrough⟩ := ends_through hy (by rw [hph]; trivial) (hat' _ rfl)
      exact .upgraded reply hmoves hr (by rw [hpost, htrace]; rfl) hthrough
    | errorReply => cases hnext

/-- The three ways on after the request for TLS, when handshakes succeed: the upgrade, an error of
the backend that is conveyed, or a failure to read the reply. -/
theorem ends_tlsReply {r : Except (Halt ConveyError) PUnit} (h : Ends step (.tlsReply, c) r c')
    (hat : At .tlsReply plainLayers c) (hproviders : ∀ side s, ∃ s', c.provider side s = .ok s') :
    Undisrupted r ∧
      ((∃ (reply : TlsReply) (post : List Event), c'.trace = c.trace ++ reply.events ++ post ∧
          (∀ e ∈ post, e.Through reply.layers) ∧ reply.frontendRest = c.frontend.stream ∧
          Script.tokens c.backend.stream = reply.byte :: Script.tokens reply.backendRest) ∨
        (∃ q : Packet, q.type = .backend .errorResponse ∧ r = .ok ⟨⟩ ∧
          c'.trace = c.trace ++ q.events plainLayers) ∨
        ∃ halt got, r = .error halt ∧ WithinFrame got ∧ Unanswered got ∧
          c'.trace = c.trace ++ got.map (took .backend .plain)) := by
  cases afterReply_of_ends h hat with
  | upgraded reply hmoves hr htrace hthrough =>
    obtain ⟨htokens, hrest, -⟩ := hmoves
    exact ⟨hr, .inl ⟨reply, _, htrace, hthrough, hrest, htokens⟩⟩
  | refused q htype htrace => exact ⟨⟨nofun, nofun⟩, .inr (.inl ⟨q, htype, rfl, htrace⟩)⟩
  | unread hhalt hwithin hreply htrace =>
    exact ⟨undisrupted_of_ordinary hhalt, .inr (.inr ⟨_, _, rfl, hwithin, hreply, htrace⟩)⟩
  | @failed side s e hfail =>
    obtain ⟨s', hs'⟩ := hproviders side s
    rw [hfail] at hs'
    cases hs'

end Conveyor

/-! ## What is consumed in the clear -/

/-- A packet is consumed at the layer of its side. -/
theorem Packet.takenAt_events (p : Packet) (layers : Side → Layer) (side : Side) (layer : Layer) :
    takenAt side layer (p.events layers) =
      if layers side = layer ∧ p.side = side then p.bytes else [] := by
  rw [(p.atLayers_events layers).takenAt_eq, p.taken_events, ite_and]

/-- The reply is read in the clear, and nothing else. -/
theorem TlsReply.takenAt_events (r : TlsReply) (side : Side) (layer : Layer) :
    takenAt side layer r.events = if layer = .plain ∧ side = .backend then [r.byte] else [] := by
  rw [r.atLayers_events.takenAt_eq, r.taken_events, ite_and]
  simp only [plainLayers, eq_comm]

/-- The frontend goes into TLS in any case, the backend if it knows TLS. -/
theorem TlsReply.handshakes_events (r : TlsReply) :
    handshakes .frontend r.events =
        [.handshakeBegun .frontend r.frontendRest, .handshakeDone .frontend] ∧
      handshakes .backend r.events = if r.supported then
        [.handshakeBegun .backend r.backendRest, .handshakeDone .backend] else [] := by
  rcases r with ⟨_ | _, b, f⟩ <;> exact ⟨rfl, rfl⟩

/-- Every handshake that has begun is on the list. -/
theorem mem_handshakes {side : Side} {s : Stream} {tr : List Event} :
    .handshakeBegun side s ∈ handshakes side tr ↔ .handshakeBegun side s ∈ tr := by
  simp [handshakes]

/-- The handshakes of a trace in two parts. -/
@[simp] theorem handshakes_append (side : Side) (tr tr' : List Event) :
    handshakes side (tr ++ tr') = handshakes side tr ++ handshakes side tr' :=
  List.filter_append _ _

namespace Conveyor

/-- What is consumed in the clear in a run that begins with the request for TLS `p`, and what is
handed to the TLS libraries. -/
structure NoPlaintext (p : Packet) (rest backend : Stream) (tr : List Event) : Prop where
  taken_frontend : takenAt .frontend .plain tr = p.bytes
  handed_frontend : ∀ s, .handshakeBegun .frontend s ∈ tr → s = rest
  handed_backend : ∀ s, .handshakeBegun .backend s ∈ tr →
    takenAt .backend .plain tr = [tlsSupported] ∧
      Script.tokens backend = tlsSupported :: Script.tokens s
  once : ∀ side, handshakes side tr = [] ∨
    ∃ s, handshakes side tr = [.handshakeBegun side s, .handshakeDone side]

/-- After the upgrade only the reply has been consumed in the clear, unless the backend does not
know TLS. -/
theorem noPlaintext_of_upgrade {p : Packet} {r : TlsReply} {backend : Stream} {post : List Event}
    (hp : p.IsTls) (hpost : ∀ e ∈ post, e.Through r.layers)
    (htokens : Script.tokens backend = r.byte :: Script.tokens r.backendRest) :
    NoPlaintext p r.frontendRest backend (p.events plainLayers ++ r.events ++ post) := by
  have hside := Packet.side_of_isTls hp
  have hpacket (side : Side) := handshakes_of_through (p.through_events plainLayers) side
  have hnone (side : Side) := handshakes_of_through hpost side
  obtain ⟨hfrontend, hbackend⟩ := r.handshakes_events
  constructor
  · simp only [takenAt_append, p.takenAt_events, r.takenAt_events,
      (atLayers_of_through hpost).takenAt_eq]
    simp [plainLayers, hside, TlsReply.layers]
  · intro s hs
    -- the frontend is handed over once, with the stream that the reply left
    rw [← mem_handshakes] at hs
    simpa [hpacket, hfrontend, hnone] using hs
  · intro s hs
    rw [← mem_handshakes] at hs
    obtain ⟨hsupported, rfl⟩ : r.supported = true ∧ s = r.backendRest := by
      simpa [hpacket, hbackend, hnone] using hs
    have hbyte : r.byte = tlsSupported := by simp [TlsReply.byte, hsupported]
    refine ⟨?_, by rw [htokens, hbyte]⟩
    simp only [takenAt_append, p.takenAt_events, r.takenAt_events,
      (atLayers_of_through hpost).takenAt_eq]
    simp [hside, TlsReply.layers, hsupported, hbyte]
  · rintro (_ | _)
    · rcases hsupported : r.supported with _ | _
      · exact .inl (by simp [hpacket, hbackend, hnone, hsupported])
      · exact .inr ⟨r.backendRest, by simp [hpacket, hbackend, hnone, hsupported]⟩
    · exact .inr ⟨r.frontendRest, by simp [hpacket, hfrontend, hnone]⟩

/-- Without the upgrade nothing more is consumed of the frontend. -/
theorem noPlaintext_of_plain {p : Packet} {rest backend : Stream} {post : List Event}
    (hp : p.IsTls) (hpost : ∀ e ∈ post, e.Through plainLayers)
    (htaken : takenAt .frontend .plain post = []) :
    NoPlaintext p rest backend (p.events plainLayers ++ post) := by
  have hside := Packet.side_of_isTls hp
  have hnone (side : Side) : handshakes side (p.events plainLayers ++ post) = [] := by
    rw [handshakes_append, handshakes_of_through (p.through_events plainLayers),
      handshakes_of_through hpost]
    rfl
  constructor
  · rw [takenAt_append, p.takenAt_events, htaken]
    simp [plainLayers, hside]
  · intro s hs
    rw [← mem_handshakes, hnone] at hs
    cases hs
  · intro s hs
    rw [← mem_handshakes, hnone] at hs
    cases hs
  · exact fun side => .inl (hnone side)

/-- In every run whose first message is a request for TLS, with handshakes that succeed: nothing but
the request is consumed from the plain stream of the frontend, nothing but the reply from that of a
backend that is handed to the TLS library, no operation meets a stream in the middle of its
handshake, and after the reply everything passes at the layers that it has chosen and comes from the
streams that the TLS libraries have returned. Without an upgrade the run ends with an error of the
backend, or with a reply that cannot be read and does not begin with one of the two answers. -/
theorem go_tls (server client : Stream → Stream) (overflowChecks : Bool)
    {frontend backend rest : Stream} {p : Packet} (hp : p.IsTls)
    (hfirst : Brings frontend p.bytes rest) :
    let run := go (new frontend backend (fun s => .ok (server s)) (fun s => .ok (client s))
      overflowChecks)
    let tr := run.2.trace
    Undisrupted run.1 ∧ NoPlaintext p rest backend tr ∧
      takenAt .backend .plain tr <+: Script.tokens backend ∧
      ((∃ (r : TlsReply) (post : List Event), tr = p.events plainLayers ++ r.events ++ post ∧
          (∀ e ∈ post, e.Through r.layers) ∧
          takenAt .frontend .tls tr <+: Script.tokens (server rest) ∧
          takenAt .backend .tls tr <+: Script.tokens (client r.backendRest)) ∨
        (∃ q : Packet, q.type = .backend .errorResponse ∧ run.1 = .ok ⟨⟩ ∧
          tr = p.events plainLayers ++ q.events plainLayers) ∨
        ∃ halt got, run.1 = .error halt ∧ WithinFrame got ∧ Unanswered got ∧
          tr = p.events plainLayers ++ got.map (took .backend .plain)) := by
  intro run tr
  obtain ⟨hends, hat⟩ := @go_of_tls frontend backend rest (fun s => .ok (server s))
    (fun s => .ok (client s)) overflowChecks p hp hfirst
  obtain ⟨hundisrupted, hways⟩ := ends_tlsReply hends hat
    (fun side s => by cases side <;> exact ⟨_, rfl⟩)
  have haccounted : Accounted (bySide frontend backend) _ run.2 :=
    (accounted_new frontend backend (fun s => .ok (server s)) (fun s => .ok (client s))
      overflowChecks).go (fresh_new _ _ _ _ _)
  -- what was consumed of each stream is a beginning of it
  have hclear := (haccounted.consumed .backend).1
  refine ⟨hundisrupted, ?_⟩
  rcases hways with ⟨r, post, htrace, hpost, hrest, htokens⟩ | ⟨q, hq, hok, htrace⟩ |
    ⟨halt, got, herror, hgot, hreply, htrace⟩
  · -- an upgrade
    have htr : tr = p.events plainLayers ++ r.events ++ post := htrace
    obtain rfl : r.frontendRest = rest := hrest
    have hno := noPlaintext_of_upgrade hp hpost htokens
    rw [← htr] at hno
    refine ⟨hno, hclear, .inl ⟨r, post, htr, hpost, ?_, ?_⟩⟩
    · rcases (haccounted.consumed .frontend).2 with hnil | ⟨s, session, hs, -, hsession, hpre⟩
      · exact hnil ▸ List.nil_prefix
      · obtain rfl := hno.handed_frontend s hs
        obtain rfl : server r.frontendRest = session := Except.ok.inj hsession
        exact hpre
    · rcases (haccounted.consumed .backend).2 with hnil | ⟨s, session, hs, -, hsession, hpre⟩
      · exact hnil ▸ List.nil_prefix
      · obtain rfl : s = r.backendRest := by
          rw [← mem_handshakes] at hs
          replace hs : .handshakeBegun .backend s ∈ handshakes .backend tr := hs
          rw [htr, handshakes_append, handshakes_append, r.handshakes_events.2,
            handshakes_of_through (p.through_events _), handshakes_of_through hpost] at hs
          split at hs <;> simp_all
        obtain rfl : client r.backendRest = session := Except.ok.inj hsession
        exact hpre
  · -- an error of the backend
    have htr : tr = p.events plainLayers ++ q.events plainLayers := htrace
    have hside : q.side = .backend := by rw [Packet.side, hq]; rfl
    refine ⟨?_, hclear, .inr (.inl ⟨q, hq, hok, htr⟩)⟩
    rw [htr]
    exact noPlaintext_of_plain hp (q.through_events _) (by rw [q.takenAt_events]; simp [hside])
  · -- a reply that cannot be read
    have htr : tr = p.events plainLayers ++ got.map (took .backend .plain) := htrace
    refine ⟨?_, hclear, .inr (.inr ⟨halt, got, herror, hgot, hreply, htr⟩)⟩
    rw [htr]
    exact noPlaintext_of_plain hp (through_map_took plainLayers .backend got)
      (takenAt_map_took_of_ne (by simp) got)

/-- The request for TLS, which is always the same packet. -/
def tlsRequest : Packet where
  type := .frontend .initial
  body := [4, 210, 22, 47]
  msg := .tls
  fits := by decide
  decodes := rfl

/-- A query that follows the request for TLS in the same segment is not read, whether the TLS
library makes the same bytes of it or not. -/
theorem go_tls_pipelined :
    let frontend : Stream := [.ready 0 [0, 0, 8, 4, 210, 22, 47, 81, 0, 0, 0, 5, 0]]
    let run := go (new frontend [.ready 83 []] (fun s => .ok (id s)) (fun s => .ok (id s)) true)
    takenAt .frontend .plain run.2.trace = [0, 0, 0, 8, 4, 210, 22, 47] :=
  have hfirst : @Brings UInt8 IoError _ [.ready 0 [0, 0, 8, 4, 210, 22, 47, 81, 0, 0, 0, 5, 0]]
      tlsRequest.bytes [.ready 81 [0, 0, 0, 5, 0]] := rfl
  have htls : tlsRequest.IsTls := rfl
  (go_tls id id true htls hfirst).2.1.taken_frontend

end Conveyor

end Postgread
