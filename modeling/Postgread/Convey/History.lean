import Postgread.Convey.Arrival
import Postgread.Convey.Transitions

/-!
# Histories

The history of a conversation are the kinds of the messages that have been reported after the
start-up packet. In the main loop the state is the one that the automaton reaches with the history
(`advanceAll_history`), and the whole history of a run is a word that the main loop may convey
(`conveys_history`). `reaches_looping_iff` describes all runs between two states of the main loop.
-/

namespace Postgread

open Body Conveyor Event

/-- The message of the start-up packet. -/
def Message.isStartup : Message → Bool
  | frontend (.initial (.startup _)) => true
  | _ => false

/-- The kinds of the messages after the start-up packet. -/
def afterStartup : List Message → List Kind
  | [] => []
  | m :: ms => if m.isStartup then ms.map Message.kind else afterStartup ms

/-- A packet is a start-up packet if its message is one. -/
theorem Packet.isStartup_message {p : Packet} : p.message.isStartup ↔ p.IsStartup := by
  constructor
  · intro h
    unfold Message.isStartup at h
    split at h
    · exact ⟨_, by assumption⟩
    · cases h
  · rintro ⟨startup, hp⟩
    rw [hp]
    rfl

/-- What comes before the start-up packet does not count. -/
theorem afterStartup_append_of_not {ms : List Message} (h : ∀ m ∈ ms, ¬ m.isStartup)
    (ms' : List Message) : afterStartup (ms ++ ms') = afterStartup ms' := by
  induction ms with
  | nil => rfl
  | cons m ms ih =>
    rw [List.cons_append, afterStartup, if_neg (h m List.mem_cons_self)]
    exact ih fun m' hm' => h m' (List.mem_cons_of_mem _ hm')

/-- Without a start-up packet nothing counts. -/
theorem afterStartup_of_not {ms : List Message} (h : ∀ m ∈ ms, ¬ m.isStartup) :
    afterStartup ms = [] := by
  rw [← List.append_nil ms, afterStartup_append_of_not h]
  rfl

/-- After the start-up packet every message counts. -/
theorem afterStartup_append {ms : List Message} (h : ∃ m ∈ ms, m.isStartup) (ms' : List Message) :
    afterStartup (ms ++ ms') = afterStartup ms ++ ms'.map Message.kind := by
  induction ms with
  | nil => simp at h
  | cons m ms ih =>
    rw [List.cons_append, afterStartup, afterStartup]
    split
    · exact List.map_append
    · rename_i hm
      exact ih (by simpa [hm] using h)

/-- What counts has been conveyed. -/
theorem exists_mem_of_mem_afterStartup {ms : List Message} {k : Kind} (h : k ∈ afterStartup ms) :
    ∃ m ∈ ms, m.kind = k := by
  induction ms with
  | nil => cases h
  | cons m ms ih =>
    rw [afterStartup] at h
    split at h
    · obtain ⟨m', hm', hk⟩ := List.mem_map.mp h
      exact ⟨m', List.mem_cons_of_mem _ hm', hk⟩
    · obtain ⟨m', hm', hk⟩ := ih h
      exact ⟨m', List.mem_cons_of_mem _ hm', hk⟩

namespace Session

variable {σ : Session}

/-- The request for TLS is no start-up packet. -/
theorem isStartup_of_mem_upgrade {m : Message}
    (h : m ∈ (σ.upgrade.map Prod.fst).toList.map Packet.message) : ¬ m.isStartup := by
  obtain ⟨p, hp, rfl⟩ := List.mem_map.mp h
  obtain ⟨x, hx, rfl⟩ : ∃ x, σ.upgrade = some x ∧ x.1 = p := by simpa using hp
  have htls : x.1.IsTls := σ.isTls x (by simp [hx])
  rw [Packet.isStartup_message]
  exact Packet.not_isStartup_of_isTls htls

/-- After a start-up packet. -/
theorem afterStartup_conveyed {p : Packet} {ps : List Packet} (hp : p.IsStartup)
    (hps : σ.packets = p :: ps) :
    afterStartup (σ.conveyed.map Packet.message) = ps.map Packet.kind := by
  rw [conveyed, hps, List.map_append, afterStartup_append_of_not fun _ => isStartup_of_mem_upgrade,
    List.map_cons, afterStartup, if_pos (Packet.isStartup_message.mpr hp), List.map_map]
  rfl

/-- What a run may have conveyed is a word of the main loop. -/
theorem conveys_afterStartup (h : σ.Lawful) :
    Conveys .gotStartup (afterStartup (σ.conveyed.map Packet.message)) := by
  rw [conveyed, List.map_append, afterStartup_append_of_not fun _ => isStartup_of_mem_upgrade]
  rcases hps : σ.packets with _ | ⟨p, ps⟩
  · exact .nil _
  -- the first of the other packets starts the main loop, or at most an error comes after it
  obtain ⟨htype, ⟨hp, hconveys⟩ | ⟨hp, herrors⟩⟩ := h p ps hps
  · rw [List.map_cons, afterStartup, if_pos (Packet.isStartup_message.mpr hp), List.map_map]
    exact hconveys
  · rw [afterStartup_of_not]
    · exact .nil _
    · intro m hm
      obtain ⟨q, hq, rfl⟩ := List.mem_map.mp hm
      rw [Packet.isStartup_message]
      rcases List.mem_cons.mp hq with rfl | hq
      · exact hp
      · intro hstartup
        exact absurd ((Packet.type_of_isStartup hstartup).symm.trans (herrors q hq)) (by decide)

/-- A message that is neither an initial packet nor an error comes after a start-up packet. -/
theorem exists_startup_of_split (h : σ.Lawful) {ms ms' : List Message} {m : Message}
    (hsplit : ms ++ m :: ms' = σ.conveyed.map Packet.message)
    (hinitial : m.kind.type ≠ .frontend .initial) (herror : m.kind.type ≠ .backend .errorResponse) :
    ∃ m₀ ∈ ms, m₀.isStartup := by
  have hne {q : Packet} (hq : q.type = .frontend .initial) : q.message ≠ m := by
    rintro rfl
    exact hinitial (q.kind_type.trans hq)
  -- the request for TLS is an initial packet
  have hupgrade : m ∉ (σ.upgrade.map Prod.fst).toList.map Packet.message := by
    intro hm
    obtain ⟨q, hq, heq⟩ := List.mem_map.mp hm
    obtain ⟨x, hx, rfl⟩ : ∃ x, σ.upgrade = some x ∧ x.1 = q := by simpa using hq
    exact hne (Packet.type_of_message_initial (σ.isTls x (by simp [hx]))) heq
  -- among the packets after it, `m` comes after the start-up packet
  have hpackets {u : List Message} (hu : σ.packets.map Packet.message = u ++ m :: ms') :
      ∃ m₀ ∈ u, m₀.isStartup := by
    rcases hps : σ.packets with _ | ⟨p, ps⟩
    · simp [hps] at hu
    obtain ⟨htype, ⟨hp, -⟩ | ⟨-, herrors⟩⟩ := h p ps hps
    · rw [hps, List.map_cons] at hu
      rcases u with _ | ⟨m₀, u⟩
      · exact absurd (List.cons.inj hu).1 (hne htype)
      · obtain ⟨rfl, -⟩ := List.cons.inj hu
        exact ⟨p.message, by simp, Packet.isStartup_message.mpr hp⟩
    · obtain ⟨q, hq, rfl⟩ : ∃ q ∈ p :: ps, q.message = m := by
        rw [← List.mem_map, ← hps, hu]
        simp
      rcases List.mem_cons.mp hq with rfl | hq
      · exact absurd rfl (hne htype)
      · exact absurd (q.kind_type.trans (herrors q hq)) herror
  rw [conveyed, List.map_append] at hsplit
  rcases List.append_eq_append_iff.mp hsplit with ⟨_ | ⟨m₀, u⟩, hu, hm⟩ | ⟨u, rfl, hu⟩
  · obtain ⟨m₀, hm₀, -⟩ := @hpackets [] hm.symm
    cases hm₀
  · obtain ⟨rfl, -⟩ := List.cons.inj hm
    exact absurd (by rw [hu]; simp) hupgrade
  · obtain ⟨m₀, hm₀, hstartup⟩ := hpackets hu
    exact ⟨m₀, List.mem_append_right _ hm₀, hstartup⟩

end Session

namespace Conveyor

/-- The kinds of the messages that have been reported after the start-up packet. -/
def history (c : Conveyor) : List Kind := afterStartup (callbacks c.trace)

variable {c c' c₀ : Conveyor} {layers : Side → Layer} {s s' : State}

/-- Every history is a word of the main loop. -/
theorem conveys_history (h : c.Fresh) : Conveys .gotStartup (go c).2.history := by
  obtain ⟨σ, events, htrace, hlawful, htail, -⟩ :=
    go_session h (show _ = ((go c).1, (go c).2) from rfl)
  rw [history, htrace, callbacks_append, σ.callbacks_events, (callbacks_of_tail htail).1,
    List.append_nil]
  exact Session.conveys_afterStartup hlawful

/-- A message that is neither an initial packet nor an error is in the history. -/
theorem history_split (h : c.Fresh) {ms ms' : List Message} {m : Message}
    (hsplit : callbacks (go c).2.trace = ms ++ m :: ms')
    (hinitial : m.kind.type ≠ .frontend .initial) (herror : m.kind.type ≠ .backend .errorResponse) :
    (go c).2.history = afterStartup ms ++ m.kind :: ms'.map Message.kind := by
  obtain ⟨σ, events, htrace, hlawful, htail, -⟩ :=
    go_session h (show _ = ((go c).1, (go c).2) from rfl)
  rw [history, hsplit]
  rw [htrace, callbacks_append, σ.callbacks_events, (callbacks_of_tail htail).1,
    List.append_nil] at hsplit
  rw [afterStartup_append (Session.exists_startup_of_split hlawful hsplit.symm hinitial herror)]
  rfl

/-- A point of a run in the main loop. -/
theorem session_of_reaches (h : c₀.Fresh) (hreach : Reaches step (.initial, c₀) (.looping s, c)) :
    ∃ (σ : Session) (p : Packet) (ps : List Packet), p.IsStartup ∧ σ.packets = p :: ps ∧
      advanceAll .gotStartup (ps.map Packet.kind) = some s ∧ c.Open σ.layers ∧
      c.trace = σ.events := by
  obtain ⟨σ, ⟨p, ps, hp, hps, hadvance⟩, hat, htrace⟩ := reaches_inv h hreach
  exact ⟨σ, p, ps, hp, hps, hadvance, hat.isOpen, htrace⟩

/-- The state of the main loop is the one that the automaton reaches with the history. -/
theorem advanceAll_history (h : c₀.Fresh) (hreach : Reaches step (.initial, c₀) (.looping s, c)) :
    advanceAll .gotStartup c.history = some s := by
  obtain ⟨σ, p, ps, hp, hps, hadvance, -, htrace⟩ := session_of_reaches h hreach
  rwa [history, htrace, σ.callbacks_events, Session.afterStartup_conveyed hp hps]

/-- Each packet is reported once. -/
theorem callbacks_flatMap_events (ps : List Packet) (layers : Side → Layer) :
    callbacks (ps.flatMap fun p => p.events layers) = ps.map Packet.message := by
  induction ps with
  | nil => rfl
  | cons p ps ih =>
    rw [List.flatMap_cons, callbacks_append, p.callbacks_events, ih]
    rfl

/-- Each packet is written once, to the other side. -/
theorem writes_flatMap_events (ps : List Packet) (layers : Side → Layer) :
    Event.writes (ps.flatMap fun p => p.events layers) =
      ps.map fun p => (p.side.other, p.bytes) := by
  induction ps with
  | nil => rfl
  | cons p ps ih =>
    rw [List.flatMap_cons, writes_append, p.writes_events, ih]
    rfl

/-- In the main loop the start-up packet has been reported. -/
theorem exists_isStartup_of_reaches (h : c₀.Fresh)
    (hreach : Reaches step (.initial, c₀) (.looping s, c)) :
    ∃ m ∈ callbacks c.trace, m.isStartup := by
  obtain ⟨σ, p, ps, hp, hps, -, -, hσ⟩ := session_of_reaches h hreach
  rw [hσ, σ.callbacks_events, Session.conveyed, hps]
  exact ⟨p.message, by simp, Packet.isStartup_message.mpr hp⟩

/-- Whatever is reported after a point in the main loop is in the history. -/
theorem history_of_trace (h : c₀.Fresh) (hreach : Reaches step (.initial, c₀) (.looping s, c))
    {post : List Event} (htrace : c'.trace = c.trace ++ post) :
    c'.history = c.history ++ (callbacks post).map Message.kind := by
  rw [history, history, htrace, callbacks_append,
    afterStartup_append (exists_isStartup_of_reaches h hreach)]

/-- Whatever has been conveyed in the main loop is in the history. -/
theorem history_log (h : c₀.Fresh) (hreach : Reaches step (.initial, c₀) (.looping s, c))
    (htrace : c'.trace = c.trace) (ps : List Packet) :
    (c'.log (ps.flatMap fun p => p.events layers)).history = c.history ++ ps.map Packet.kind := by
  rw [history_of_trace h hreach (by rw [trace_log, htrace]), callbacks_flatMap_events, List.map_map]
  rfl

/-- The next packet that is conveyed. -/
theorem history_of_offers (h : c₀.Fresh) (hreach : Reaches step (.initial, c₀) (.looping s, c))
    {p : Packet} (ho : Offers c p c') :
    (c'.log (p.events layers)).history = c.history ++ [p.kind] := by
  have hp := @history_log c c' c₀ layers s h hreach ho.trace_eq [p]
  rwa [List.flatMap_singleton] at hp

/-- The start-up packet leads to the main loop. -/
theorem stepsTo_of_isStartup (hopen : c.Open layers) {p : Packet} (hp : p.IsStartup) {rest : Stream}
    (hbrings : Brings (c.wrap .frontend).stream p.bytes rest) :
    StepsTo step (.initial, c) (.looping .gotStartup,
      (c.setWrap .frontend (.ofLayer (layers .frontend) rest)).log (p.events layers)) := by
  obtain ⟨startup, hp⟩ := hp
  exact Proc.bind_of_ok (readInitial_of_brings hopen hp hbrings)

/-- A run only adds to the trace. -/
theorem exists_trace_of_ends {x : Phase × Conveyor} {r : Except (Halt ConveyError) PUnit}
    (h : Ends step x r c') (hat : At x.1 layers x.2) : ∃ post, c'.trace = x.2.trace ++ post := by
  induction h generalizing layers with
  | done h =>
    obtain ⟨e, -, -, -, htrace, -⟩ := step_eq_ok hat h
    exact ⟨_, htrace⟩
  | halt h =>
    obtain ⟨events, -, htrace⟩ := step_eq_error hat h
    exact ⟨_, htrace⟩
  | next h _ ih =>
    obtain ⟨e, layers', -, -, htrace, hat'⟩ := step_eq_ok hat h
    obtain ⟨post, hpost⟩ := ih (hat' _ rfl)
    exact ⟨_, by rw [hpost, htrace, List.append_assoc]⟩

/-- The history of a run begins with that of each of its points. -/
theorem exists_history (h : c₀.Fresh) (hreach : Reaches step (.initial, c₀) (.looping s, c)) :
    ∃ w, (go c₀).2.history = c.history ++ w := by
  obtain ⟨σ, -, -, -, -, -, hopen, -⟩ := session_of_reaches h hreach
  obtain ⟨post, hpost⟩ := exists_trace_of_ends ((go_ends h.at_initial).drop hreach)
    (at_of_ne hopen nofun nofun)
  exact ⟨_, history_of_trace h hreach hpost⟩

/-- From a point in the main loop a run goes on as the main loop does. -/
theorem go_of_reaches (h : c₀.Fresh) (hreach : Reaches step (.initial, c₀) (.looping s, c)) :
    go c₀ = loop s c := by
  obtain ⟨σ, -, -, -, -, -, hopen, -⟩ := session_of_reaches h hreach
  exact (go_eq_iff h.at_initial).mpr ((loop_ends hopen s).of_reaches hreach)

/-- A step between two states of the main loop conveys an offered packet that the automaton
reads. -/
theorem stepsTo_looping_iff (hopen : c.Open layers) :
    StepsTo step (.looping s, c) (.looping s', c') ↔
      ∃ p c₁, Offers c p c₁ ∧ advance s p.kind = some s' ∧ c' = c₁.log (p.events layers) := by
  rw [StepsTo, step, Proc.map_eq_ok]
  constructor
  · rintro ⟨next, hbody, hnext⟩
    obtain ⟨s₁, rfl, hs₁⟩ := Option.map_eq_some_iff.mp hnext
    obtain rfl : s₁ = s' := by simpa using hs₁
    obtain ⟨p, c₁, ho, haccept, rfl⟩ := (loopBody_eq_ok hopen).mp hbody
    exact ⟨p, c₁, ho, advance_eq_some.mpr haccept, rfl⟩
  · rintro ⟨p, c₁, ho, hadvance, rfl⟩
    exact ⟨some s', (loopBody_eq_ok hopen).mpr ⟨p, c₁, ho, advance_eq_some.mp hadvance, rfl⟩, rfl⟩

/-- A step of a run in the main loop, with the message that it adds to the history. -/
theorem exists_offers_of_stepsTo (h : c₀.Fresh)
    (hreach : Reaches step (.initial, c₀) (.looping s, c))
    (hstep : StepsTo step (.looping s, c) (.looping s', c')) :
    ∃ p c₁, Offers c p c₁ ∧ advance s p.kind = some s' ∧ c'.history = c.history ++ [p.kind] := by
  obtain ⟨σ, -, -, -, -, -, hopen, -⟩ := session_of_reaches h hreach
  obtain ⟨p, c₁, ho, hadvance, rfl⟩ := (stepsTo_looping_iff hopen).mp hstep
  exact ⟨p, c₁, ho, hadvance, history_of_offers h hreach ho⟩

/-- What has been conveyed between two points of a run. -/
structure Conveyed (c c' : Conveyor) (ps : List Packet) : Prop where
  callbacks_eq : callbacks c'.trace = callbacks c.trace ++ ps.map Packet.message
  writes_eq : Event.writes c'.trace =
    Event.writes c.trace ++ ps.map fun p => (p.side.other, p.bytes)

/-- What has been conveyed in two parts of a run adds up. -/
theorem Conveyed.trans {c₁ c₂ : Conveyor} {ps qs : List Packet} (h : Conveyed c c₁ ps)
    (h' : Conveyed c₁ c₂ qs) : Conveyed c c₂ (ps ++ qs) := by
  constructor
  · rw [h'.callbacks_eq, h.callbacks_eq, List.map_append, List.append_assoc]
  · rw [h'.writes_eq, h.writes_eq, List.map_append, List.append_assoc]

/-- Logging the events of packets conveys them. -/
theorem conveyed_log {ps : List Packet} (htrace : c'.trace = c.trace) :
    Conveyed c (c'.log (ps.flatMap fun p => p.events layers)) ps := by
  constructor
  · rw [trace_log, callbacks_append, callbacks_flatMap_events, htrace]
  · rw [trace_log, writes_append, writes_flatMap_events, htrace]

/-- An offered packet whose events are logged is conveyed. -/
theorem conveyed_of_offers {p : Packet} (ho : Offers c p c') :
    Conveyed c (c'.log (p.events layers)) [p] := by
  have hlog := @conveyed_log c c' layers [p] ho.trace_eq
  rwa [List.flatMap_singleton] at hlog

/-- An offered packet that the automaton reads is conveyed. -/
theorem exists_stepsTo_of_offers (h : c₀.Fresh)
    (hreach : Reaches step (.initial, c₀) (.looping s, c)) {p : Packet} {c₁ : Conveyor}
    (ho : Offers c p c₁) (hadvance : advance s p.kind = some s') : ∃ events,
      StepsTo step (.looping s, c) (.looping s', c₁.log events) ∧
      (c₁.log events).history = c.history ++ [p.kind] ∧ Conveyed c (c₁.log events) [p] := by
  obtain ⟨σ, -, -, -, -, -, hopen, -⟩ := session_of_reaches h hreach
  exact ⟨_, (stepsTo_looping_iff hopen).mpr ⟨p, c₁, ho, hadvance, rfl⟩,
    history_of_offers h hreach ho, conveyed_of_offers ho⟩

/-- Nothing comes after the main loop. -/
theorem phase_of_stepsTo_looping {y : Phase × Conveyor}
    (h : StepsTo step (.looping s, c) y) : ∃ s', y.1 = .looping s' := by
  obtain ⟨next, -, hnext⟩ := Proc.map_eq_ok.mp h
  obtain ⟨s', rfl, hs'⟩ := Option.map_eq_some_iff.mp hnext
  exact ⟨s', hs'.symm⟩

/-- A run between two states of the main loop conveys a word that leads from one to the other. -/
theorem reaches_looping_iff (hopen : c.Open layers) :
    Reaches step (.looping s, c) (.looping s', c') ↔ ∃ ps c₁, Arrives c ps c₁ ∧
      advanceAll s (ps.map Packet.kind) = some s' ∧
      c' = c₁.log (ps.flatMap fun p => p.events layers) := by
  constructor
  · intro h
    -- induction from the front, since `Arrives` goes forward
    generalize hx : ((.looping s, c) : Phase × Conveyor) = x at h
    generalize hy : ((.looping s', c') : Phase × Conveyor) = y at h
    induction h using Relation.ReflTransGen.head_induction_on generalizing s c with
    | refl =>
      obtain ⟨rfl, rfl⟩ : s = s' ∧ c = c' := by simpa [← hy] using hx
      exact ⟨[], c, .nil c, rfl, by simp⟩
    | @head x z hfirst hrest ih =>
      subst hx hy
      obtain ⟨s₁, hs₁⟩ := phase_of_stepsTo_looping hfirst
      obtain ⟨ph, c₁⟩ := z
      obtain rfl : ph = .looping s₁ := hs₁
      obtain ⟨p, c₂, ho, hadvance, rfl⟩ := (stepsTo_looping_iff hopen).mp hfirst
      obtain ⟨hopen₂, htrace, -⟩ := ho.streams hopen
      obtain ⟨ps, c₃, harrives, hps, rfl⟩ := ih (hopen₂.log _) rfl
      obtain ⟨c₄, harrives₄, rfl⟩ := harrives.of_log
      refine ⟨p :: ps, c₄, .cons ho harrives₄, ?_, by rw [log_log, List.flatMap_cons]⟩
      rw [List.map_cons, advanceAll_cons, hadvance]
      exact hps
  · rintro ⟨ps, c₁, harrives, hadvance, rfl⟩
    exact reaches_of_arrives hopen harrives hadvance

/-- One message more does not make a history. -/
theorem afterStartup_concat {ms : List Message} (h : ∀ m ∈ ms, ¬ m.isStartup) {ms' : List Message}
    (hlen : ms'.length ≤ 1) : afterStartup (ms ++ ms') = [] := by
  rw [afterStartup_append_of_not h]
  rcases ms' with _ | ⟨m, _ | _⟩
  · rfl
  · rw [afterStartup]
    split <;> rfl
  · simp at hlen

/-- Before the main loop no start-up packet has been reported. -/
theorem not_isStartup_of_at {ph : Phase} {σ : Session} (hσ : σ.At ph) (hph : ∀ s, ph ≠ .looping s) :
    ∀ m ∈ σ.conveyed.map Packet.message, ¬ m.isStartup := by
  have htls {p : Packet} (hp : p.IsTls) : ∀ m ∈ [p.message], ¬ m.isStartup := by
    intro m hm
    rw [List.mem_singleton.mp hm, Packet.isStartup_message]
    exact Packet.not_isStartup_of_isTls hp
  cases ph with
  | initial =>
    obtain rfl := hσ
    simp
  | tlsReply =>
    obtain ⟨p, hp, rfl⟩ := hσ
    exact htls hp
  | initialInsideTls =>
    obtain ⟨p, r, hp, rfl⟩ := hσ
    exact htls hp
  | looping s => exact absurd rfl (hph s)

/-- An entry reports at most one message. -/
theorem length_callbacks_entry (e : Entry) : (callbacks e.events).length ≤ 1 := by
  cases e with
  | conveyed p layers => simp [Entry.events]
  | replied r => simp [Entry.events]

/-- The history begins with the first step of the main loop. -/
theorem history_of_step {ph : Phase} {next : Option Phase} (h : c₀.Fresh)
    (hreach : Reaches step (.initial, c₀) (ph, c)) (hph : ∀ s, ph ≠ .looping s)
    (hstep : step ph c = (.ok next, c')) : c'.history = [] := by
  obtain ⟨σ, hσ, hat, htrace⟩ := reaches_inv h hreach
  obtain ⟨e, layers', -, -, htrace', -⟩ := step_eq_ok hat hstep
  simp only at hσ htrace htrace'
  rw [history, htrace', htrace, callbacks_append, σ.callbacks_events]
  exact afterStartup_concat (not_isStartup_of_at hσ hph) (length_callbacks_entry e)

/-- A run that returns after some messages has conveyed the last of them without a next state. -/
theorem exists_offers_of_ok (h : c₀.Fresh) (hok : (go c₀).1 = .ok ⟨⟩) {u : List Kind} {k : Kind}
    (hhistory : (go c₀).2.history = u ++ [k]) :
    ∃ s c p c₁, Reaches step (.initial, c₀) (.looping s, c) ∧ c.history = u ∧ Offers c p c₁ ∧
      p.kind = k ∧ accept s k = some none := by
  obtain ⟨⟨ph, c⟩, hreach, ⟨-, hlast⟩ | ⟨halt, hr, -⟩⟩ := (go_ends h.at_initial).exists_last
  · obtain ⟨σ, -, hat, -⟩ := reaches_inv h hreach
    -- only a step of the main loop can add a message to the history
    by_cases hph : ∃ s, ph = .looping s
    · obtain ⟨s, rfl⟩ := hph
      obtain ⟨next, hbody, hnext⟩ := Proc.map_eq_ok.mp hlast
      obtain rfl := Option.map_eq_none_iff.mp hnext
      obtain ⟨p, c₁, ho, haccept, hc⟩ := (loopBody_eq_ok hat.isOpen).mp hbody
      have hp := @history_of_offers c c₁ c₀ σ.layers s h hreach p ho
      rw [← hc, hhistory] at hp
      obtain ⟨rfl, hk⟩ := List.append_inj' hp rfl
      obtain rfl : k = p.kind := (List.cons.inj hk).1
      exact ⟨s, c, p, c₁, hreach, rfl, ho, rfl, haccept⟩
    · rw [history_of_step h hreach (fun s hs => hph ⟨s, hs⟩) hlast] at hhistory
      simp at hhistory
  · rw [hok] at hr
    cases hr

/-- Every beginning of the history of a point is the history of an earlier point. -/
theorem exists_point (h : c₀.Fresh) (hreach : Reaches step (.initial, c₀) (.looping s, c))
    {u : List Kind} (hu : u <+: c.history) :
    ∃ s' c', Reaches step (.initial, c₀) (.looping s', c') ∧ c'.history = u := by
  generalize hx : ((.looping s, c) : Phase × Conveyor) = x at hreach
  induction hreach generalizing s c with
  | refl => cases hx
  | @tail y x hy hstep ih =>
    subst hx
    obtain ⟨ph, c₁⟩ := y
    by_cases hph : ∃ s₁, ph = .looping s₁
    · -- a step of the main loop adds one message
      obtain ⟨s₁, rfl⟩ := hph
      obtain ⟨p, c₂, -, -, hp⟩ := exists_offers_of_stepsTo h hy hstep
      rw [hp] at hu
      rcases List.prefix_concat_iff.mp hu with rfl | hu
      · exact ⟨s, c, .tail hy hstep, hp⟩
      · exact ih hu rfl
    · -- the step into the main loop
      have hnil := history_of_step h hy (fun s₁ hs₁ => hph ⟨s₁, hs₁⟩) hstep
      rw [hnil] at hu
      obtain rfl := List.prefix_nil.mp hu
      exact ⟨s, c, .tail hy hstep, hnil⟩

/-- The last step of a run reports at most one message. -/
theorem exists_last_point (h : c₀.Fresh) : ∃ (ph : Phase) (c : Conveyor) (σ : Session)
    (ms : List Message), Reaches step (.initial, c₀) (ph, c) ∧ σ.At ph ∧ c.trace = σ.events ∧
      callbacks (go c₀).2.trace = callbacks c.trace ++ ms ∧ ms.length ≤ 1 := by
  obtain ⟨ph, c, σ, hreach, hσ, hat, htrace, hlast⟩ :=
    go_cases h (show _ = ((go c₀).1, (go c₀).2) from rfl)
  -- the last step writes the entry that ends the run, or fails
  rcases hlast with ⟨-, e, layers', hemits, -, htrace'⟩ | ⟨halt, events, -, hfails, htrace'⟩
  · rcases Session.expects_of_emits hσ hemits with ⟨p, rfl, -⟩ | ⟨p, r, rfl, -, -⟩
    · refine ⟨ph, c, σ, [p.message], hreach, hσ, htrace, ?_, le_rfl⟩
      rw [htrace', callbacks_append, htrace]
      exact congrArg _ (p.callbacks_events _)
    · cases hemits
  · rcases Session.tail_of_fails hσ hfails with htail | ⟨p, -, rfl, -⟩
    · refine ⟨ph, c, σ, [], hreach, hσ, htrace, ?_, Nat.zero_le _⟩
      rw [htrace', callbacks_append, htrace, (callbacks_of_tail htail).1]
    · refine ⟨ph, c, σ, [p.message], hreach, hσ, htrace, ?_, le_rfl⟩
      rw [htrace', callbacks_append, htrace, p.callbacks_events]

/-- Every message of the history of a run was read at a point with the history before it. -/
theorem exists_point_of_split (h : c₀.Fresh) {u v : List Kind} {k : Kind}
    (hsplit : (go c₀).2.history = u ++ k :: v) :
    ∃ s c, Reaches step (.initial, c₀) (.looping s, c) ∧ c.history = u := by
  obtain ⟨ph, c, σ, ms, hreach, hσ, htrace, hcallbacks, hlen⟩ := exists_last_point h
  rw [history, hcallbacks] at hsplit
  by_cases hph : ∃ s, ph = .looping s
  · obtain ⟨s, rfl⟩ := hph
    -- the last point has all of the history but one message
    rw [afterStartup_append (exists_isStartup_of_reaches h hreach)] at hsplit
    refine exists_point h hreach ?_
    refine List.prefix_of_prefix_length_le (List.prefix_append u (k :: v)) ⟨_, hsplit⟩ ?_
    have hsum := congrArg List.length hsplit
    simp only [List.length_append, List.length_map, List.length_cons] at hsum
    rw [history]
    omega
  · -- the run ends before the main loop
    rw [htrace, σ.callbacks_events, afterStartup_concat
      (not_isStartup_of_at hσ fun s hs => hph ⟨s, hs⟩) hlen] at hsplit
    simp at hsplit

/-- If the next message of the history is one that the automaton reads, a run takes this step. -/
theorem stepsTo_of_split (h : c₀.Fresh) (hreach : Reaches step (.initial, c₀) (.looping s, c))
    {k : Kind} {v : List Kind} (hsplit : (go c₀).2.history = c.history ++ k :: v)
    (hk : advance s k = some s') :
    ∃ c', StepsTo step (.looping s, c) (.looping s', c') ∧ c'.history = c.history ++ [k] := by
  obtain ⟨σ, -, -, -, -, -, hopen, -⟩ := session_of_reaches h hreach
  have hat : At (.looping s) σ.layers c := at_of_ne hopen nofun nofun
  have hlast {p : Packet} (hp : (go c₀).2.trace = c.trace ++ p.events σ.layers) : p.kind = k := by
    have hhistory := history_of_trace h hreach hp
    rw [p.callbacks_events, hsplit] at hhistory
    exact (List.cons.inj (List.append_cancel_left hhistory)).1.symm
  -- the run has to go on, and its next step can only report `k`
  have hends := (go_ends h.at_initial).drop hreach
  generalize (go c₀).1 = r at hends
  cases hends with
  | done hstep =>
    obtain ⟨e, layers', hemits, -, htrace, -⟩ := step_eq_ok hat hstep
    generalize hnext : (none : Option Phase) = next at hemits
    cases hemits with
    | looping haccept =>
      obtain rfl := Option.map_eq_none_iff.mp hnext.symm
      rw [hlast htrace, advance_eq_some.mp hk] at haccept
      cases haccept
  | halt hstep =>
    obtain ⟨events, hfails, htrace⟩ := step_eq_error hat hstep
    cases hfails with
    | reading =>
      have hhistory := history_of_trace h hreach htrace
      rw [callbacks_map_took, hsplit] at hhistory
      exact absurd (List.append_cancel_left hhistory) (by simp)
    | authentication htype ho hnone =>
      rw [hlast htrace, advance_eq_some.mp hk] at hnone
      cases hnone
  | @next _ y _ _ hstep hy =>
    obtain ⟨s₁, hs₁⟩ := phase_of_stepsTo_looping hstep
    obtain ⟨ph, c₁⟩ := y
    obtain rfl : ph = .looping s₁ := hs₁
    obtain ⟨p, c₂, -, hadvance, hp⟩ := exists_offers_of_stepsTo h hreach hstep
    obtain ⟨w, hw⟩ := exists_history h (hreach.tail hstep)
    rw [hsplit, hp, List.append_assoc] at hw
    obtain rfl : k = p.kind := (List.cons.inj (List.append_cancel_left hw)).1
    obtain rfl : s₁ = s' := Option.some.inj (hadvance.symm.trans hk)
    exact ⟨_, hstep, hp⟩

/-- What is conveyed after a point of a run in the main loop, with the word that it leads
through. -/
theorem history_of_reaches (h : c₀.Fresh) (hreach : Reaches step (.initial, c₀) (.looping s, c))
    (hreach' : Reaches step (.looping s, c) (.looping s', c')) :
    ∃ w, advanceAll s w = some s' ∧ c'.history = c.history ++ w := by
  obtain ⟨σ, -, -, -, -, -, hopen, -⟩ := session_of_reaches h hreach
  obtain ⟨ps, c₁, harrives, hadvance, rfl⟩ := (reaches_looping_iff hopen).mp hreach'
  exact ⟨ps.map Packet.kind, hadvance, history_log h hreach harrives.trace_eq ps⟩

/-- A word that arrives after a point of a run, and that the automaton reads, is conveyed whole. -/
theorem conveyed_of_arrives (h : c₀.Fresh) (hreach : Reaches step (.initial, c₀) (.looping s, c))
    {ps : List Packet} (harrives : Arrives c ps c')
    (hadvance : advanceAll s (ps.map Packet.kind) = some s') :
    ∃ c₂, Reaches step (.looping s, c) (.looping s', c₂) ∧
      callbacks c₂.trace = callbacks c.trace ++ ps.map Packet.message ∧
      Event.writes c₂.trace = Event.writes c.trace ++ ps.map fun p => (p.side.other, p.bytes) := by
  obtain ⟨σ, -, -, -, -, -, hopen, -⟩ := session_of_reaches h hreach
  obtain ⟨hcallbacks, hwrites⟩ := @conveyed_log c c' σ.layers ps harrives.trace_eq
  exact ⟨_, reaches_of_arrives hopen harrives hadvance, hcallbacks, hwrites⟩

/-- A start-up packet and packets that arrive after it in any order. -/
def arrangedConveyor (p₀ : Packet) (ps : List Packet)
    (frontendTlsServer backendTlsClient : TlsProvider) (overflowChecks : Bool) : Conveyor :=
  new (readyBytes p₀.bytes ++ arranged .frontend ps) (arranged .backend ps) frontendTlsServer
    backendTlsClient overflowChecks

/-- What the automaton reads has a type byte. -/
theorem exists_typeByte_of_advanceAll {ps : List Packet}
    (h : advanceAll s (ps.map Packet.kind) = some s') :
    ∀ p ∈ ps, ∃ typeByte, p.type.typeByteOpt = some typeByte := by
  induction ps generalizing s with
  | nil => simp
  | cons p ps ih =>
    rw [List.map_cons, advanceAll_cons] at h
    obtain ⟨s₁, hk, h⟩ := Option.bind_eq_some_iff.mp h
    obtain ⟨typeByte, htype⟩ := exists_typeByte_of_accept (advance_eq_some.mp hk)
    rintro q (_ | ⟨_, hq⟩)
    · exact ⟨typeByte, by rwa [p.kind_type] at htype⟩
    · exact ih h q hq

/-- Packets arrive in the main loop in the order in which they are arranged. -/
theorem exists_arrives_arranged {p₀ : Packet} {ps : List Packet} (hp₀ : p₀.IsStartup)
    (htypes : ∀ p ∈ ps, ∃ typeByte, p.type.typeByteOpt = some typeByte)
    (frontendTlsServer backendTlsClient : TlsProvider) (overflowChecks : Bool) :
    ∃ c c', Reaches step
        (.initial, arrangedConveyor p₀ ps frontendTlsServer backendTlsClient overflowChecks)
        (.looping .gotStartup, c) ∧
      c.trace = p₀.events plainLayers ∧ Arrives c ps c' ∧ c'.bytesLeft = 0 := by
  set c₀ := arrangedConveyor p₀ ps frontendTlsServer backendTlsClient overflowChecks
  have hfresh : c₀.Fresh := fresh_new _ _ _ _ _
  have hfirst := stepsTo_of_isStartup hfresh.isOpen hp₀
    (brings_readyBytes p₀.bytes (arranged .frontend ps))
  obtain ⟨c', harrives, hleft⟩ := @arrives_arranged
    ((c₀.setWrap .frontend (.plain (arranged .frontend ps))).log (p₀.events plainLayers))
    plainLayers _ htypes (fun side => by cases side <;> rfl)
  exact ⟨_, c', .single hfirst, by rw [trace_log, trace_setWrap, hfresh.trace_eq]; rfl, harrives,
    hleft⟩

/-- Every word that the automaton reads is conveyed in some run. -/
theorem reaches_arranged {p₀ : Packet} {ps : List Packet} (hp₀ : p₀.IsStartup)
    (hadvance : advanceAll .gotStartup (ps.map Packet.kind) = some s)
    (frontendTlsServer backendTlsClient : TlsProvider) (overflowChecks : Bool) :
    ∃ c, Reaches step
        (.initial, arrangedConveyor p₀ ps frontendTlsServer backendTlsClient overflowChecks)
        (.looping s, c) ∧
      callbacks c.trace = (p₀ :: ps).map Packet.message ∧ c.bytesLeft = 0 := by
  obtain ⟨c, c', hreach, htrace, harrives, hleft⟩ := exists_arrives_arranged hp₀
    (exists_typeByte_of_advanceAll hadvance) frontendTlsServer backendTlsClient overflowChecks
  obtain ⟨σ, -, -, -, -, -, hopen, -⟩ := session_of_reaches (fresh_new _ _ _ _ _) hreach
  refine ⟨_, hreach.trans (reaches_of_arrives hopen harrives hadvance), ?_, hleft⟩
  rw [(conveyed_log harrives.trace_eq).callbacks_eq, htrace, p₀.callbacks_events]
  rfl

end Conveyor

/-! ## Conversations in order -/

namespace Packet

/-- A start-up packet without parameters. -/
def startup : Packet where
  type := .frontend .initial
  body := [0, 3, 0, 0, 0]
  msg := .startup _
  fits := by decide
  decodes := rfl

/-- The message that ends the authentication, which is always the same packet. -/
def authenticationOk : Packet where
  type := .backend .authentication
  body := [0, 0, 0, 0]
  msg := .ok
  fits := by decide
  decodes := rfl

/-- A key that is all zeros. -/
def backendKeyData : Packet where
  type := .backend .backendKeyData
  body := [0, 0, 0, 0, 0, 0, 0, 0]
  msg := _
  fits := by decide
  decodes := rfl

/-- Outside a transaction. -/
def readyForQuery : Packet where
  type := .backend .readyForQuery
  body := [73]
  msg := _
  fits := by decide
  decodes := rfl

/-- A `Sync` in its frame, which is always the same packet. -/
def sync : Packet where
  type := .frontend .sync
  body := []
  msg := ⟨⟩
  fits := by decide
  decodes := rfl

end Packet

/-- The packets of a start-up and then those of a conversation, all after the start-up packet. -/
def conversation (ps : List Packet) : List Packet :=
  [.authenticationOk, .backendKeyData, .readyForQuery] ++ ps

/-- The two sides of a conversation, where each packet comes when the one before it has been
read. -/
def inOrder (ps : List Packet) : Conveyor := arrangedConveyor .startup ps .ok .ok true

/-- Packets with type bytes arrive in order after the start-up packet. -/
theorem exists_arrives_inOrder {ps : List Packet} (htypes : ∀ p ∈ ps, p.type.typeByteOpt.isSome) :
    ∃ c c', Reaches step (.initial, inOrder ps) (.looping .gotStartup, c) ∧
      c.trace = Packet.startup.events plainLayers ∧ Arrives c ps c' ∧ c'.bytesLeft = 0 :=
  exists_arrives_arranged ⟨_, rfl⟩ (fun p hp => Option.isSome_iff_exists.mp (htypes p hp)) .ok .ok
    true

end Postgread
