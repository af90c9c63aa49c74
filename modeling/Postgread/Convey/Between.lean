import Postgread.Foundations.Relay
import Postgread.Convey.Transparency
import Postgread.Convey.Timing

/-!
# Between two programs

A proxy should not change what two programs can do together. `go_between` puts the conveyor between
any two programs that send and receive bytes: whatever they do with it in between, they can do
connected to each other, and all that the proxy adds to the channels is the message in progress. This
holds from the beginning if the frontend does not ask for TLS, and else from the end of the exchange
about TLS on, for the bytes inside the sessions.

The converse `between_go` needs programs that send whole messages which the main loop conveys: the
proxy does not pass on anything else.
-/

namespace Postgread

open Body Conveyor Event

/-- Some run begins with these events. -/
def MayBegin (tr : List Event) : Prop :=
  ∃ frontend backend frontendTlsServer backendTlsClient overflowChecks,
    tr <+: (go (new frontend backend frontendTlsServer backendTlsClient overflowChecks)).2.trace

/-- The beginning of a run, and the end of the exchange about TLS. -/
inductive Settled : List Event → Prop where
  | fresh : Settled []
  | upgraded {p : Packet} (r : TlsReply) (hp : p.IsTls) :
      Settled (p.events plainLayers ++ r.events)

/-- The conveyor as a relay that has a past. Without one, it must not convey a request for TLS. -/
def relay (past : List Event) : Relay Side UInt8 Event where
  takes e side := taken side [e]
  writes e side := written side [e]
  may tr := MayBegin (past ++ tr) ∧
    (past = [] → Message.frontend (.initial .tls) ∉ callbacks tr)

/-- What a function of traces makes of the single events, if it respects concatenation. -/
theorem flatMap_events {α : Type} (f : List Event → List α) (hnil : f [] = [])
    (happend : ∀ tr tr', f (tr ++ tr') = f tr ++ f tr') (tr : List Event) :
    (tr.flatMap fun e => f [e]) = f tr := by
  induction tr with
  | nil => exact hnil.symm
  | cons e tr ih => rw [List.flatMap_cons, ih, ← happend, List.singleton_append]

/-- What the relay takes is what its events take. -/
@[simp] theorem taken_relay (past : List Event) (side : Side) (tr : List Event) :
    (relay past).taken side tr = taken side tr :=
  flatMap_events (taken side) rfl (taken_append side) tr

/-- What the relay writes is what its events write. -/
@[simp] theorem written_relay (past : List Event) (side : Side) (tr : List Event) :
    (relay past).written side tr = written side tr :=
  flatMap_events (written side) rfl (written_append side) tr

/-! ## What is held back -/

section

variable {σ : Session} {past tr events : List Event} {sent : Side → List Packet}
  {reply answer : List UInt8} {rest : Side → List UInt8}

/-- Where no request for TLS is called back, none is conveyed. -/
theorem not_isTls_of_quiet
    (h : Message.frontend (.initial .tls) ∉ callbacks (σ.events ++ events)) :
    ∀ p ∈ σ.conveyed, ¬ p.IsTls := by
  intro p hp htls
  rw [callbacks_append, σ.callbacks_events] at h
  exact h (List.mem_append_left _ (List.mem_map.mpr ⟨p, hp, htls⟩))

/-- Nothing is exchanged about TLS where no request for it is conveyed. -/
theorem upgrade_eq_none_of_quiet
    (h : Message.frontend (.initial .tls) ∉ callbacks (σ.events ++ events)) :
    σ.upgrade = none := by
  rcases hupgrade : σ.upgrade with _ | ⟨p, r⟩
  · rfl
  · refine absurd (σ.isTls (p, r) (by simp [hupgrade])) (not_isTls_of_quiet h p ?_)
    simp [Session.conveyed, hupgrade]

/-- Where no request for TLS is called back, there is no reply to one. -/
theorem reply_answer_of_quiet
    (h : Message.frontend (.initial .tls) ∉ callbacks (σ.events ++ events)) :
    σ.reply = [] ∧ σ.answer = [] := by
  have hupgrade := upgrade_eq_none_of_quiet h
  exact ⟨by simp [Session.reply, hupgrade], by simp [Session.answer, hupgrade]⟩

/-- Without a request for TLS all that is forwarded are messages. -/
theorem forwards_of_quiet (hevents : σ.Unfinished events)
    (h : Message.frontend (.initial .tls) ∉ callbacks (σ.events ++ events)) :
    ∃ sent rest, Forwards (σ.events ++ events) sent [] [] rest := by
  obtain ⟨hreply, hanswer⟩ := reply_answer_of_quiet h
  have hforwards {side : Side} {got : List UInt8} (hgot : σ.Awaits side got)
      (htaken : ∀ side', taken side' events = if side = side' then got else [])
      (hwrites : Event.writes events = []) :
      ∃ sent rest, Forwards (σ.events ++ events) sent [] [] rest := by
    have hforwards := Session.forwards_of_awaits hgot htaken hwrites
    rw [hreply, hanswer] at hforwards
    exact ⟨_, _, hforwards⟩
  cases hevents with
  | tail htail =>
    cases htail with
    | reading hgot => exact hforwards hgot (fun side' => taken_map_took side' _ _ _) (by simp)
    | @replying p r events hp hσ =>
      subst hσ
      exact absurd hp (not_isTls_of_quiet h p (by simp [Session.conveyed, Session.add]))
  | reported p hp =>
    refine hforwards (Session.awaits_of_expects hp) (fun side => ?_) ?_
    · rw [taken_append, taken_map_took]
      simp [taken]
    · rw [writes_append, writes_map_took]
      rfl

/-- Since the exchange about TLS, too, a side has got a beginning of what the other one has sent. -/
theorem taken_eq_of_forwards (hpast : Settled past)
    (h : Forwards (past ++ tr) sent reply answer rest)
    (hquiet : past = [] → reply = [] ∧ answer = []) (side : Side) :
    taken side tr = written side.other tr ++ rest side := by
  cases hpast with
  | fresh =>
    obtain ⟨rfl, rfl⟩ := hquiet rfl
    rw [List.nil_append] at h
    cases side with
    | backend =>
      rw [h.taken_backend, show Side.backend.other = .frontend from rfl, h.written_frontend]
    | frontend =>
      rw [h.taken_frontend, show Side.frontend.other = .backend from rfl, h.written_backend]
  | @upgraded p r hp =>
    have hside := Packet.side_of_isTls hp
    -- the request and the reply are the first bytes that each side has sent
    have htaken (side : Side) : taken side (p.events plainLayers ++ r.events ++ tr) =
        (if side = .frontend then p.bytes else [r.byte]) ++ taken side tr := by
      cases side <;> simp [Packet.taken_events, hside]
    have hwritten (side : Side) : written side.other (p.events plainLayers ++ r.events ++ tr) =
        (if side = .frontend then p.bytes else [tlsSupported]) ++ written side.other tr := by
      cases side <;> simp [written, hside, Side.other]
    cases side with
    | backend =>
      have htaken := (htaken .backend).symm.trans h.taken_backend
      have hwritten := (hwritten .backend).symm.trans h.written_frontend
      rcases h.exchange with ⟨rfl, rfl⟩ | ⟨hreply, rfl, -⟩
      -- the reply and the answer are then the same bytes, and cancel out
      · rw [List.nil_append] at htaken hwritten
        rw [← hwritten, List.append_assoc] at htaken
        exact (List.append_inj htaken rfl).2
      · obtain ⟨byte, rfl⟩ : ∃ byte, reply = [byte] := by
          rcases hreply with hreply | hreply
          · exact ⟨_, hreply⟩
          · exact ⟨_, hreply⟩
        rw [List.append_assoc] at htaken
        rw [(List.append_inj htaken rfl).2, (List.append_inj hwritten rfl).2]
    | frontend =>
      have htaken := (htaken .frontend).symm.trans h.taken_frontend
      rw [← (hwritten .frontend).symm.trans h.written_backend, List.append_assoc] at htaken
      exact List.append_cancel_left htaken

end

/-- What the conveyor has done as a relay leaves at most a message in progress inside it. -/
theorem exists_rest {past tr : List Event} (hpast : Settled past) (h : (relay past).may tr) :
    ∃ rest : Side → List UInt8, (∀ side, taken side tr = written side.other tr ++ rest side) ∧
      ∃ side, rest side.other = [] ∧
        (WithinFrame (rest side) ∨ side = .frontend ∧ WithinLength (rest side)) := by
  obtain ⟨⟨frontend, backend, server, client, checks, hpre⟩, hquiet⟩ := h
  obtain ⟨σ, events, hevents, htr⟩ :=
    stopped_of_isPrefix (fresh_new frontend backend server client checks) hpre
  obtain ⟨sent, reply, answer, rest, hforwards, hnone⟩ : ∃ sent reply answer rest,
      Forwards (past ++ tr) sent reply answer rest ∧ (past = [] → reply = [] ∧ answer = []) := by
    rw [htr]
    by_cases hnil : past = []
    · have htr' : tr = σ.events ++ events := by rw [← htr, hnil, List.nil_append]
      obtain ⟨sent, rest, hforwards⟩ := forwards_of_quiet hevents (htr' ▸ hquiet hnil)
      exact ⟨sent, [], [], rest, hforwards, fun _ => ⟨rfl, rfl⟩⟩
    · obtain ⟨sent, reply, answer, rest, hforwards⟩ := forwards_of_unfinished hevents
      exact ⟨sent, reply, answer, rest, hforwards, fun h => absurd h hnil⟩
  obtain ⟨side, hother, hprogress⟩ := hforwards.one_frame
  exact ⟨rest, taken_eq_of_forwards hpast hforwards hnone, side, hother,
    hprogress.imp_right fun h => ⟨h.1, h.2.2⟩⟩

/-! ## Whole messages -/

section

variable {c c' c₀ : Conveyor} {layers : Side → Layer} {s : State}

/-- The trace of a point of a run is a beginning of that of the run. -/
theorem trace_isPrefix_of_reaches (h : c₀.Fresh)
    (hreach : Reaches step (.initial, c₀) (.looping s, c)) : c.trace <+: (go c₀).2.trace := by
  obtain ⟨σ, -, -, -, -, -, hopen, -⟩ := session_of_reaches h hreach
  obtain ⟨post, hpost⟩ := exists_trace_of_ends ((go_ends h.at_initial).drop hreach)
    (at_of_ne hopen (by rintro ⟨⟩) (by rintro ⟨⟩))
  exact ⟨post, hpost.symm⟩

/-- Packets that arrive and are a word of the main loop are conveyed whole. -/
theorem trace_isPrefix_of_conveys (h : c₀.Fresh)
    (hreach : Reaches step (.initial, c₀) (.looping s, c)) (hopen : c.Open layers)
    {ps : List Packet} (harrives : Arrives c ps c') (hps : Conveys s (ps.map Packet.kind)) :
    c.trace ++ (ps.flatMap fun p => p.events layers) <+: (go c₀).2.trace := by
  induction ps generalizing c c' s with
  | nil =>
    rw [List.flatMap_nil, List.append_nil]
    exact trace_isPrefix_of_reaches h hreach
  | cons p ps ih =>
    rw [List.map_cons] at hps
    generalize hks : ps.map Packet.kind = ks at hps
    cases harrives with
    | @cons _ c₁ _ _ _ ho harrives =>
      -- a last packet ends the run after it has been conveyed
      have hlast {r : Except (Halt ConveyError) PUnit} (hps : ps = [])
          (hends : Ends step (.looping s, c) r (c₁.log (p.events layers))) :
          c.trace ++ ((p :: ps).flatMap fun p => p.events layers) <+: (go c₀).2.trace := by
        rw [(go_eq_iff h.at_initial).mpr (Ends.of_reaches hreach hends), hps, List.flatMap_singleton,
          trace_log, ho.trace_eq]
      cases hps with
      | next hk hks' =>
        subst hks
        have hstep := (stepsTo_looping_iff hopen).mpr ⟨p, c₁, ho, hk, rfl⟩
        have hrest := ih (hreach.tail hstep) ((ho.streams hopen).1.log _) (harrives.log _) hks'
        rw [trace_log, ho.trace_eq, List.append_assoc] at hrest
        exact hrest
      | last hk =>
        have hbody := (loopBody_eq_ok hopen).mpr ⟨p, c₁, ho, hk, rfl⟩
        exact hlast (List.map_eq_nil_iff.mp hks)
          (.done (Proc.map_eq_ok.mpr ⟨none, hbody, rfl⟩))
      | rejected htype hk =>
        rw [p.kind_type] at htype
        obtain ⟨e, hbody⟩ := loopBody_eq_error_of_authentication hopen ho htype hk
        exact hlast (List.map_eq_nil_iff.mp hks) (.halt (Proc.map_eq_error.mpr hbody))

end

/-- What the main loop conveys has a type byte. -/
theorem exists_typeByte_of_conveys {s : State} {ps : List Packet}
    (h : Conveys s (ps.map Packet.kind)) :
    ∀ p ∈ ps, ∃ typeByte, p.type.typeByteOpt = some typeByte := by
  induction ps generalizing s with
  | nil => exact fun p hp => absurd hp List.not_mem_nil
  | cons p ps ih =>
    rw [List.map_cons] at h
    generalize hks : ps.map Packet.kind = ks at h
    have haccept {next : Option State} (h : accept s p.kind = some next) :
        ∃ typeByte, p.type.typeByteOpt = some typeByte := by
      obtain ⟨typeByte, htype⟩ := exists_typeByte_of_accept h
      exact ⟨typeByte, by rwa [p.kind_type] at htype⟩
    cases h with
    | next hk hks' =>
      subst hks
      exact List.forall_mem_cons.mpr ⟨haccept (advance_eq_some.mp hk), ih hks'⟩
    | last hk =>
      obtain rfl := List.map_eq_nil_iff.mp hks
      exact List.forall_mem_singleton.mpr (haccept hk)
    | rejected htype hk =>
      obtain rfl := List.map_eq_nil_iff.mp hks
      rw [p.kind_type] at htype
      exact List.forall_mem_singleton.mpr ⟨.authentication, by rw [htype]; rfl⟩

/-- A start-up packet and a word of the main loop are what some run conveys. -/
theorem mayBegin_of_conveys {p : Packet} {ps : List Packet} (hp : p.IsStartup)
    (hps : Conveys .gotStartup (ps.map Packet.kind)) :
    MayBegin ((p :: ps).flatMap fun q => q.events plainLayers) := by
  have htypes := exists_typeByte_of_conveys hps
  obtain ⟨c, c', hreach, htrace, harrives, -⟩ := exists_arrives_arranged hp htypes .ok .ok true
  have hfresh : (arrangedConveyor p ps .ok .ok true).Fresh := fresh_new _ _ _ _ _
  refine ⟨readyBytes p.bytes ++ arranged .frontend ps, arranged .backend ps, .ok, .ok, true, ?_⟩
  obtain ⟨σ, -, -, -, -, -, hopen, hσ⟩ := session_of_reaches hfresh hreach
  have hlayers : σ.layers = plainLayers := by
    rw [Session.layers, @upgrade_eq_none_of_quiet σ [] ?_]
    rw [List.append_nil, ← hσ, htrace, p.callbacks_events, List.mem_singleton]
    exact fun htls => Packet.not_isStartup_of_isTls htls.symm hp
  rw [hlayers] at hopen
  rw [List.flatMap_cons, ← htrace]
  exact trace_isPrefix_of_conveys hfresh hreach hopen harrives hps

/-- No such packet asks for TLS. -/
theorem quiet_of_conveys {p : Packet} {ps : List Packet} (hp : p.IsStartup)
    (hps : Conveys .gotStartup (ps.map Packet.kind)) : Message.frontend (.initial .tls) ∉
      callbacks ((p :: ps).flatMap fun q => q.events plainLayers) := by
  rw [callbacks_flatMap_events]
  intro hmem
  obtain ⟨q, hq, htls⟩ := List.mem_map.mp hmem
  rcases List.mem_cons.mp hq with rfl | hq
  · exact Packet.not_isStartup_of_isTls htls hp
  · obtain ⟨typeByte, htype⟩ := exists_typeByte_of_conveys hps q hq
    rw [Packet.type_of_message_initial htls] at htype
    cases htype

/-- The conveyor may do what some run does that conveys such packets. -/
theorem may_of_conveys {p : Packet} {ps : List Packet} (hp : p.IsStartup)
    (hps : Conveys .gotStartup (ps.map Packet.kind)) {tr : List Event}
    (htr : tr <+: (p :: ps).flatMap fun q => q.events plainLayers) : (relay []).may tr := by
  refine ⟨?_, fun _ hmem => ?_⟩
  · obtain ⟨frontend, backend, server, client, checks, hpre⟩ := mayBegin_of_conveys hp hps
    exact ⟨frontend, backend, server, client, checks, htr.trans hpre⟩
  · exact quiet_of_conveys hp hps ((htr.filterMap _).subset hmem)

/-- Each packet is taken whole and then written whole. -/
theorem passes_packets (ps : List Packet) :
    (relay []).Passes Side.other (ps.map fun p => (p.side, p.bytes))
      (ps.flatMap fun p => p.events plainLayers) := by
  induction ps using List.reverseRecOn with
  | nil => exact .nil
  | append_singleton ps p ih =>
    rw [List.map_append, List.flatMap_append, List.flatMap_singleton]
    refine ih.append (fun side => ?_) fun side => ?_
    · rw [taken_relay, p.taken_events]
      exact if_congr eq_comm rfl rfl
    · rw [written_relay, written, p.writes_events]
      by_cases hside : side = p.side.other <;> simp [hside, eq_comm]

/-! ## Programs that follow a script -/

/-- Programs that do one thing after the other. -/
def scripted : Relay.Parties UInt8 (fun _ : Side => List (Relay.Action UInt8)) :=
  fun _ x action y => x = action :: y

/-- What a side does when each packet is sent by one side and then received by the other. -/
def scripts (ps : List Packet) (side : Side) : List (Relay.Action UInt8) :=
  ps.flatMap fun p => p.bytes.map fun byte => if p.side = side then .send byte else .receive byte

/-- What both sides do then, in order. -/
def exchanged (ps : List Packet) : List (Side × Relay.Action UInt8) :=
  ps.flatMap fun p => (p.bytes.map fun byte => (p.side, .send byte)) ++
    p.bytes.map fun byte => (p.side.other, .receive byte)

/-- A program sends what is next in its script. -/
theorem sends_scripted (side : Side) (bytes : List UInt8) (rest : List (Relay.Action UInt8)) :
    Relay.Sends scripted side (bytes.map .send ++ rest) bytes rest := by
  induction bytes using List.reverseRecOn generalizing rest with
  | nil => exact .refl
  | append_singleton bytes byte ih =>
    rw [List.map_append, List.append_assoc]
    exact (ih (.send byte :: rest)).tail rfl

/-- A side receives what is on its way to it. -/
theorem talks_receive_scripted {d d' : Relay.Direct UInt8 fun _ => List (Relay.Action UInt8)}
    {labels : List (Side × Relay.Action UInt8)} {words : List (Side × List UInt8)}
    (h : Relay.Talks scripted Side.other d labels words d') {side : Side} {bytes : List UInt8}
    {rest : List (Relay.Action UInt8)} (hstates : d'.states side = bytes.map .receive ++ rest)
    (harriving : d'.arriving side = bytes) :
    Relay.Talks scripted Side.other d (labels ++ bytes.map fun byte => (side, .receive byte)) words
      ⟨Function.update d'.states side rest, Function.update d'.arriving side []⟩ := by
  induction bytes generalizing labels d' with
  | nil =>
    rw [List.map_nil, List.nil_append] at hstates
    rw [List.map_nil, List.append_nil, ← hstates, ← harriving, Function.update_eq_self,
      Function.update_eq_self]
    exact h
  | cons byte bytes ih =>
    have hrest := ih (h.receive hstates harriving) (Function.update_self ..)
      (Function.update_self ..)
    simpa using hrest

/-- Connected to each other, the two sides exchange the packets. -/
theorem talks_scripted (ps : List Packet) (rest : Side → List (Relay.Action UInt8)) :
    Relay.Talks scripted Side.other ⟨fun side => scripts ps side ++ rest side, fun _ => []⟩
      (exchanged ps) (ps.map fun p => (p.side, p.bytes)) ⟨rest, fun _ => []⟩ := by
  induction ps using List.reverseRecOn generalizing rest with
  | nil => exact .refl
  | append_singleton ps p ih =>
    let rest' (side : Side) : List (Relay.Action UInt8) :=
      (p.bytes.map fun byte => if p.side = side then .send byte else .receive byte) ++ rest side
    have hstates : (fun side => scripts (ps ++ [p]) side ++ rest side) =
        fun side => scripts ps side ++ rest' side := by
      funext side
      simp [scripts, rest']
    have hsends : Relay.Sends scripted p.side (rest' p.side) p.bytes (rest p.side) := by
      simpa [rest'] using sends_scripted p.side p.bytes (rest p.side)
    have hreceive := @talks_receive_scripted _ _ _ _ ((ih rest').send hsends) p.side.other p.bytes
      (rest p.side.other) (by simp [rest', Side.other_ne, (Side.other_ne p.side).symm]) (by simp)
    have hlast : Function.update (Function.update rest' p.side (rest p.side)) p.side.other
        (rest p.side.other) = rest := by
      funext side
      obtain rfl | rfl := p.side.eq_or_eq_other side <;> simp [(Side.other_ne _).symm]
    rw [hlast] at hreceive
    rw [hstates]
    simpa [exchanged] using hreceive

/-- The two sides exchange the packets and have done what their scripts say. -/
theorem talks_scripts (ps : List Packet) :
    Relay.Talks scripted Side.other ⟨scripts ps, fun _ => []⟩ (exchanged ps)
      (ps.map fun p => (p.side, p.bytes)) ⟨fun _ => [], fun _ => []⟩ := by
  simpa using talks_scripted ps fun _ => []

/-- A session that starts up and is terminated. -/
def terminated : List Packet := conversation [.terminate]

/-- A start-up may be followed by the end of the session. -/
theorem conveys_terminated : Conveys .gotStartup (terminated.map Packet.kind) :=
  .next rfl (.next rfl (.next rfl (.last rfl)))

/-! ## Any two programs -/

/-- The conveyor passes on what it takes. -/
theorem transparent_relay {past : List Event} (hpast : Settled past) :
    (relay past).Transparent Side.other := by
  intro tr hmay side
  obtain ⟨rest, hrest, -⟩ := exists_rest hpast hmay
  rw [written_relay, taken_relay, hrest]
  exact List.prefix_append _ _

/-- Whatever two programs do with the conveyor between them, they can do in the same order when they
are connected to each other. What is on its way from one to the other is then behind the conveyor,
inside it, or in front of it. Inside it is at most one message in progress, and nothing once a run
has succeeded. -/
theorem go_between {σ : Side → Type} (parties : Relay.Parties UInt8 σ) {past : List Event}
    (hpast : Settled past) (states : ∀ side, σ side) {labels : List (Side × Relay.Action UInt8)}
    {t : Relay.Relayed UInt8 Event σ}
    (h : Relay.Runs (Relay.Relayed.Step parties (relay past)) (.start states) labels t) :
    ∃ rest : Side → List UInt8,
      Relay.Runs (Relay.Direct.Step parties Side.other) ⟨states, fun _ => []⟩ labels
        ⟨t.states, fun side => t.arriving side ++ rest side.other ++ t.sent side.other⟩ ∧
      (∀ side, taken side t.done = written side.other t.done ++ rest side) ∧
      (∃ side, rest side.other = [] ∧
        (WithinFrame (rest side) ∨ side = .frontend ∧ WithinLength (rest side))) ∧
      ∀ frontend backend server client checks,
        let run := go (new frontend backend server client checks)
        run.1 = .ok ⟨⟩ → run.2.trace = past ++ t.done → ∀ side, rest side = [] := by
  obtain ⟨hforwarding, hdirect⟩ := h.direct Side.other_other (transparent_relay hpast)
    Relay.forwarding_nil
  have hheld {rest : Side → List UInt8}
      (hrest : ∀ side, taken side t.done = written side.other t.done ++ rest side) (side : Side) :
      (relay past).held Side.other t.done side = rest side :=
    Relay.held_eq (by rw [taken_relay, written_relay, hrest])
  refine ⟨(relay past).held Side.other t.done, hdirect, fun side => ?_, ?_, ?_⟩
  · rw [← written_relay past, ← taken_relay past, hforwarding.written_append_held]
  · rcases h.done_eq_or_may with hnil | hmay
    · have hnone := @hheld (fun _ => []) fun side => by rw [hnil]; rfl
      exact ⟨.frontend, hnone _, .inl (.inl (hnone _))⟩
    · obtain ⟨rest, hrest, side, hother, hprogress⟩ := exists_rest hpast hmay
      rw [← hheld hrest] at hother
      rw [← hheld hrest] at hprogress
      exact ⟨side, hother, hprogress⟩
  · intro frontend backend server client checks run hok htrace
    obtain ⟨σ, events, hσ, -, -, hnil⟩ := go_session
      (fresh_new frontend backend server client checks) (show _ = (run.1, run.2) from rfl)
    rw [htrace, hnil hok, List.append_nil] at hσ
    have hquiet : past = [] → σ.reply = [] ∧ σ.answer = [] := by
      intro hnil
      rw [hnil, List.nil_append] at hσ
      refine @reply_answer_of_quiet σ [] ?_
      rw [List.append_nil, ← hσ]
      rcases h.done_eq_or_may with hdone | hmay
      · rw [hdone]
        exact List.not_mem_nil
      · exact hmay.2 hnil
    exact hheld (taken_eq_of_forwards hpast (hσ ▸ forwards_of_session σ) hquiet)

/-- A session that the conveyor conveys to the end is also one without it. -/
theorem go_between_session :
    Relay.Runs (Relay.Direct.Step scripted Side.other)
      ⟨scripts (.startup :: terminated), fun _ => []⟩ (exchanged (.startup :: terminated))
      ⟨fun _ => [], fun _ => []⟩ := by
  have hruns := (talks_scripts (.startup :: terminated)).relayed
    (passes_packets (.startup :: terminated)) fun _ htr _ =>
      @may_of_conveys .startup terminated ⟨_, rfl⟩ conveys_terminated _ htr
  have hrun : (go (inOrder terminated)).1 = .ok ⟨⟩ ∧ (go (inOrder terminated)).2.trace =
      [] ++ (.startup :: terminated).flatMap fun p => p.events plainLayers := by decide +kernel
  obtain ⟨rest, hdirect, -, -, hnone⟩ := go_between scripted .fresh _ hruns
  unfold inOrder arrangedConveyor at hrun
  have hnil := hnone _ _ _ _ _ hrun.1 hrun.2
  simpa only [hnil, List.append_nil] using hdirect

/-- Whatever two programs do when they are connected to each other, they can also do with the
conveyor between them, if they send whole messages, first a start-up packet and then a word of the
main loop. -/
theorem between_go {σ : Side → Type} (parties : Relay.Parties UInt8 σ) (states : ∀ side, σ side)
    {labels : List (Side × Relay.Action UInt8)} {p : Packet} {ps : List Packet}
    {d : Relay.Direct UInt8 σ} (hp : p.IsStartup) (hps : Conveys .gotStartup (ps.map Packet.kind))
    (h : Relay.Talks parties Side.other ⟨states, fun _ => []⟩ labels
      ((p :: ps).map fun q => (q.side, q.bytes)) d) :
    Relay.Runs (Relay.Relayed.Step parties (relay [])) (.start states) labels
      ⟨d.states, fun _ => [], d.arriving, (p :: ps).flatMap fun q => q.events plainLayers⟩ :=
  h.relayed (passes_packets (p :: ps)) fun _ htr _ => may_of_conveys hp hps htr

/-- The same session with the conveyor in between, which takes each packet and passes it on. -/
theorem between_go_session :
    Relay.Runs (Relay.Relayed.Step scripted (relay [])) (.start (scripts (.startup :: terminated)))
      (exchanged (.startup :: terminated)) ⟨fun _ => [], fun _ => [], fun _ => [],
        (.startup :: terminated).flatMap fun p => p.events plainLayers⟩ :=
  @between_go _ scripted (scripts (.startup :: terminated)) _ .startup terminated _ ⟨_, rfl⟩
    conveys_terminated (talks_scripts (.startup :: terminated))

end Postgread
