import Postgread.Convey.Journal

/-!
# Runs

`go_ends` splits a run of `go` into steps from phase to phase, each of which writes an entry of the
journal. A `Session` is what the entries of a run always look like: all in the clear, or a request
for TLS, the reply to it and then the rest at the layers that the reply chose. `go_session`
describes the whole trace of a run, and `stopped_of_isPrefix` every beginning of it.
-/

namespace Postgread

open Body Conveyor

namespace Conveyor

variable {c c' : Conveyor} {layers : Side → Layer}

/-! ## From `go` to steps -/

/-- The bytes left are those of both streams, from whichever side they are counted. -/
theorem bytesLeft_eq (c : Conveyor) (side : Side) :
    c.bytesLeft = (Script.tokens (c.wrap side).stream).length +
      (Script.tokens (c.wrap side.other).stream).length := by
  cases side
  · rfl
  · exact Nat.add_comm _ _

/-- A round of the main loop consumes at least a type byte. -/
theorem loopBody_bytesLeft (h : c.Open layers) {s : State} {next : Option State}
    (hbody : loopBody s c = (.ok next, c')) : c'.Open layers ∧ c'.bytesLeft < c.bytesLeft := by
  obtain ⟨p, c₁, ho, -, rfl⟩ := (loopBody_eq_ok h).mp hbody
  obtain ⟨hopen, -, hbrings, hwaits⟩ := ho.streams h
  refine ⟨hopen.log _, ?_⟩
  obtain ⟨typeByte, -, -, htype, -⟩ := ho
  -- a packet of the main loop has a type byte, so that its frame is not empty
  have hlen : 0 < p.bytes.length := by rw [Packet.bytes, htype, frameBytes_some]; simp
  rw [bytesLeft_eq _ p.side, bytesLeft_eq c p.side, wrap_log, wrap_log, hbrings.tokens_eq,
    hwaits.tokens_eq, List.length_append]
  omega

/-- The rounds of the main loop are steps. -/
theorem ends_looping {x : State × Conveyor} {r : Except (Halt ConveyError) PUnit}
    (h : Ends loopBody x r c') : Ends step (.looping x.1, x.2) r c' := by
  induction h with
  | done h => exact .done (Proc.map_eq_ok.mpr ⟨none, h, rfl⟩)
  | halt h => exact .halt (Proc.map_eq_error.mpr h)
  | @next x y _ _ h _ ih =>
    have hstep : StepsTo step (.looping x.1, x.2) (.looping y.1, y.2) :=
      Proc.map_eq_ok.mpr ⟨some y.1, h, rfl⟩
    exact .next hstep ih

/-- The main loop does not run out of rounds: there are more of them than bytes left. -/
theorem loop_ends (h : c.Open layers) (s : State) :
    Ends step (.looping s, c) (loop s c).1 (loop s c).2 := by
  have hstep (x y : State × Conveyor) (hx : x.2.Open layers) (hxy : StepsTo loopBody x y) :
      y.2.Open layers ∧ y.2.bytesLeft < x.2.bytesLeft := loopBody_bytesLeft hx hxy
  exact ends_looping (@iterate_ends _ _ _ loopBody (fun c => c.Open layers) bytesLeft hstep
    (c.bytesLeft + 1) s c h (Nat.lt_succ_self _))

/-- A step leads to a phase at which the streams are open. -/
theorem step_at {ph ph' : Phase} (hat : At ph layers c)
    (h : StepsTo step (ph, c) (ph', c')) : ∃ layers', At ph' layers' c' := by
  obtain ⟨-, layers', -, -, -, hat'⟩ := step_eq_ok hat h
  exact ⟨layers', hat' ph' rfl⟩

/-- The way of `go` after a request for TLS, step by step. -/
theorem continueWithTls_ends (h : At .tlsReply layers c) :
    Ends step (.tlsReply, c) (continueWithTls c).1 (continueWithTls c).2 := by
  rcases hreply : replyToTls c with ⟨halt | _ | _, c₁⟩
  · rw [continueWithTls, Proc.bind_of_error hreply]
    exact .halt (Proc.bind_of_error hreply)
  · rw [continueWithTls, Proc.bind_of_ok hreply]
    exact .done (Proc.bind_of_ok hreply)
  -- as in the source: the reply first, then the initial packet inside TLS, then the main loop
  have hfirst : StepsTo step (.tlsReply, c) (.initialInsideTls, c₁) := Proc.bind_of_ok hreply
  obtain ⟨layers₁, hat₁⟩ := step_at h hfirst
  rw [continueWithTls, Proc.bind_of_ok hreply, if_pos rfl]
  refine .next hfirst ?_
  rcases hread : readFrontendThrough .initial c₁ with ⟨halt | (cancel | _ | startup), c₂⟩
  · rw [Proc.bind_of_error hread]
    exact .halt (Proc.bind_of_error hread)
  · rw [Proc.bind_of_ok hread]
    exact .done (Proc.bind_of_ok hread)
  · rw [Proc.bind_of_ok hread]
    exact .halt (Proc.bind_of_ok hread)
  · have hsecond : StepsTo step (.initialInsideTls, c₁) (.looping .gotStartup, c₂) :=
      Proc.bind_of_ok hread
    obtain ⟨layers₂, hat₂⟩ := step_at hat₁ hsecond
    rw [Proc.bind_of_ok hread]
    exact .next hsecond (loop_ends hat₂.isOpen _)

/-- A run of `go` is a run of its steps. -/
theorem go_ends (h : At .initial layers c) : Ends step (.initial, c) (go c).1 (go c).2 := by
  -- of the three initial packets a cancel request ends the run, and the other two lead on
  rcases hread : readFrontendThrough .initial c with ⟨halt | (cancel | _ | startup), c₁⟩
  · rw [go, Proc.bind_of_error hread]
    exact .halt (Proc.bind_of_error hread)
  · rw [go, Proc.bind_of_ok hread]
    exact .done (Proc.bind_of_ok hread)
  · have hfirst : StepsTo step (.initial, c) (.tlsReply, c₁) := Proc.bind_of_ok hread
    obtain ⟨layers₁, hat₁⟩ := step_at h hfirst
    rw [go, Proc.bind_of_ok hread]
    exact .next hfirst (continueWithTls_ends hat₁)
  · have hfirst : StepsTo step (.initial, c) (.looping .gotStartup, c₁) := Proc.bind_of_ok hread
    obtain ⟨layers₁, hat₁⟩ := step_at h hfirst
    rw [go, Proc.bind_of_ok hread]
    exact .next hfirst (loop_ends hat₁.isOpen _)

/-- `go` ends as its steps do. -/
theorem go_eq_iff (h : At .initial layers c) {r : Except (Halt ConveyError) PUnit} :
    go c = (r, c') ↔ Ends step (.initial, c) r c' := by
  constructor
  · intro hgo
    have hends := go_ends h
    rwa [hgo] at hends
  · intro hends
    obtain ⟨hr, hc⟩ := (go_ends h).unique hends
    exact Prod.ext hr hc

end Conveyor

/-! ## Sessions -/

/-- The initial packet that asks for TLS. -/
def Packet.IsTls (p : Packet) : Prop := p.message = .frontend (.initial .tls)

/-- The initial packet that starts the main loop. -/
def Packet.IsStartup (p : Packet) : Prop :=
  ∃ startup, p.message = .frontend (.initial (.startup startup))

namespace Packet

/-- Only initial packets hold an initial message. -/
theorem type_of_message_initial {p : Packet} {i : Initial}
    (hp : p.message = .frontend (.initial i)) : p.type = .frontend .initial := by
  rw [← p.kind_type, Packet.kind, hp]
  rfl

/-- A request for TLS starts nothing. -/
theorem not_isStartup_of_isTls {p : Packet} (hp : p.IsTls) : ¬ p.IsStartup := by
  rintro ⟨startup, hstartup⟩
  rw [Packet.IsTls, hstartup] at hp
  cases hp

/-- A start-up packet is an initial packet. -/
theorem type_of_isStartup {p : Packet} (h : p.IsStartup) : p.type = .frontend .initial := by
  obtain ⟨startup, hp⟩ := h
  exact type_of_message_initial hp

/-- A request for TLS comes from the frontend. -/
theorem side_of_isTls {p : Packet} (h : p.IsTls) : p.side = .frontend := by
  rw [side, type_of_message_initial h]
  rfl

end Packet

/-- An initial packet that the frontend brings is read and conveyed. -/
theorem Conveyor.readInitial_of_brings {c : Conveyor} {layers : Side → Layer} (h : c.Open layers)
    {p : Packet} {i : Initial} (hp : p.message = .frontend (.initial i)) {rest : Stream}
    (hbrings : Brings (c.wrap .frontend).stream p.bytes rest) :
    readThrough (.frontend .initial) c =
      (.ok i, (c.setWrap .frontend (.ofLayer (layers .frontend) rest)).log (p.events layers)) := by
  rcases p with ⟨t, body, msg, fits, decodes⟩
  obtain rfl : t = .frontend .initial := Packet.type_of_message_initial hp
  obtain rfl : msg = i := by simpa [Packet.message, MsgType.wrap, FrontendType.wrap] using hp
  exact (readThrough_eq_ok h).mpr ⟨body, fits, decodes, rest, hbrings, rfl⟩

/-- What a run has conveyed: the request for TLS with the reply to it, if there was one that was
accepted, and all other packets in the order in which they were read. -/
structure Session where
  upgrade : Option (Packet × TlsReply)
  packets : List Packet
  isTls : ∀ x ∈ upgrade, x.1.IsTls

namespace Session

/-- The layers of all packets but the request for TLS. -/
def layers (σ : Session) : Side → Layer :=
  match σ.upgrade with
  | none => plainLayers
  | some (_, r) => r.layers

/-- The journal of the session. -/
def entries (σ : Session) : List Entry :=
  (match σ.upgrade with
    | none => []
    | some (p, r) => [.conveyed p plainLayers, .replied r]) ++
    σ.packets.map (.conveyed · σ.layers)

/-- What can be observed of the session. -/
def events (σ : Session) : List Event := σ.entries.flatMap Entry.events

/-- All packets, in the order in which they were conveyed. -/
def conveyed (σ : Session) : List Packet := (σ.upgrade.map Prod.fst).toList ++ σ.packets

/-- No packet yet. -/
def empty : Session := ⟨none, [], by simp⟩

/-- One more packet. -/
def add (σ : Session) (p : Packet) : Session := ⟨σ.upgrade, σ.packets ++ [p], σ.isTls⟩

/-- The request for TLS and the reply to it. -/
def upgraded (p : Packet) (r : TlsReply) (h : p.IsTls) : Session :=
  ⟨some (p, r), [], by simpa using h⟩

/-- A further packet keeps the layers. -/
@[simp] theorem layers_add (σ : Session) (p : Packet) : (σ.add p).layers = σ.layers := rfl

/-- A session begins in the clear. -/
@[simp] theorem layers_empty : empty.layers = plainLayers := rfl

/-- The reply to a request for TLS chooses the layers. -/
@[simp] theorem layers_upgraded {p : Packet} {r : TlsReply} (h : p.IsTls) :
    (upgraded p r h).layers = r.layers := rfl

/-- At first nothing has been conveyed. -/
@[simp] theorem conveyed_empty : empty.conveyed = [] := rfl

/-- A further packet is conveyed last. -/
@[simp] theorem conveyed_add (σ : Session) (p : Packet) :
    (σ.add p).conveyed = σ.conveyed ++ [p] := by
  simp [conveyed, add]

/-- The request for TLS is the first packet that was conveyed. -/
@[simp] theorem conveyed_upgraded {p : Packet} {r : TlsReply} (h : p.IsTls) :
    (upgraded p r h).conveyed = [p] := rfl

/-- At first nothing can be observed. -/
@[simp] theorem events_empty : empty.events = [] := rfl

/-- A further packet adds its events. -/
theorem events_add (σ : Session) (p : Packet) :
    (σ.add p).events = σ.events ++ p.events σ.layers := by
  simp [events, entries, add, layers, Entry.events]

/-- The reply to a request for TLS adds its events to those of the request. -/
theorem events_upgraded {p : Packet} {r : TlsReply} (h : p.IsTls) :
    (upgraded p r h).events = (empty.add p).events ++ r.events := by
  simp [events, entries, add, upgraded, empty, layers, Entry.events]

/-- The sessions of a phase. In the main loop the state is the one that the automaton reaches with
the packets after the start-up packet. -/
def At : Phase → Session → Prop
  | .initial, σ => σ = empty
  | .tlsReply, σ => ∃ p, p.IsTls ∧ σ = empty.add p
  | .initialInsideTls, σ => ∃ p r h, σ = upgraded p r h
  | .looping s, σ => ∃ p ps, p.IsStartup ∧ σ.packets = p :: ps ∧
      advanceAll .gotStartup (ps.map Packet.kind) = some s

/-- An entry that leads on leads to a session of the next phase. -/
theorem at_of_emits {ph ph' : Phase} {σ : Session} {e : Entry} {layers' : Side → Layer}
    (hat : σ.At ph) (h : Emits ph σ.layers e (some ph') layers') :
    ∃ σ' : Session, σ'.At ph' ∧ σ'.layers = layers' ∧ σ'.events = σ.events ++ e.events ∧
      σ'.conveyed = σ.conveyed ++ e.packets := by
  generalize hlayers : σ.layers = layers at h
  generalize hnext : some ph' = next at h
  cases h with
  | @initial _ p i hp =>
    obtain rfl := hat
    refine ⟨empty.add p, ?_, hlayers, by rw [events_add, hlayers]; rfl,
      conveyed_add _ _⟩
    rcases i with cancel | _ | startup
    · cases hnext
    · obtain rfl : ph' = .tlsReply := Option.some.inj hnext
      exact ⟨p, hp, rfl⟩
    · obtain rfl : ph' = .looping .gotStartup := Option.some.inj hnext
      exact ⟨p, [], ⟨startup, hp⟩, rfl, rfl⟩
  | replied r =>
    obtain ⟨p, hp, rfl⟩ := hat
    obtain rfl : ph' = .initialInsideTls := Option.some.inj hnext
    exact ⟨upgraded p r hp, ⟨p, r, hp, rfl⟩, rfl, events_upgraded hp, rfl⟩
  | errorReply => cases hnext
  | @initialInsideTls _ p i hp htls =>
    refine ⟨σ.add p, ?_, hlayers, by rw [events_add, hlayers]; rfl,
      conveyed_add _ _⟩
    obtain ⟨p₀, r, h₀, rfl⟩ := hat
    rcases i with cancel | _ | startup
    · cases hnext
    · exact absurd rfl htls
    · obtain rfl : ph' = .looping .gotStartup := Option.some.inj hnext
      exact ⟨p, [], ⟨startup, hp⟩, rfl, rfl⟩
  | @looping s _ p next' haccept =>
    obtain ⟨s', rfl, rfl⟩ := Option.map_eq_some_iff.mp hnext.symm
    obtain ⟨p₀, ps, hstartup, hps, hadvance⟩ := hat
    refine ⟨σ.add p, ⟨p₀, ps ++ [p], hstartup, by rw [add, hps]; rfl, ?_⟩, hlayers,
      by rw [events_add, hlayers]; rfl, conveyed_add _ _⟩
    rw [List.map_append]
    exact advanceAll_concat hadvance (advance_eq_some.mpr haccept)

/-! ## Beginnings of a trace -/

/-- What may have been read of the next message. An initial packet has no type byte. -/
def Awaits (σ : Session) (side : Side) (got : List UInt8) : Prop :=
  match σ.packets with
  | [] => side = .frontend ∧ WithinLength got
  | _ :: _ => WithinFrame got

/-- The packet is of the form that comes next. -/
def Expects (σ : Session) (p : Packet) : Prop :=
  match σ.packets with
  | [] => p.type = .frontend .initial
  | _ :: _ => ∃ typeByte, p.type.typeByteOpt = some typeByte

/-- What a run that fails leaves in the trace after the last entry. -/
inductive Tail (σ : Session) : List Event → Prop where
  /-- The bytes of a message that was not read to its end, or was not accepted. -/
  | reading {side : Side} {got : List UInt8} (h : σ.Awaits side got) :
      Tail σ (got.map (Event.took side (σ.layers side)))
  /-- The beginning of a reply to a request for TLS. -/
  | replying {p : Packet} {r : TlsReply} {events : List Event} (hp : p.IsTls)
      (hσ : σ = empty.add p) (h : events <+: r.events) : Tail σ events

/-- The part of an entry that is already in the trace when a run is stopped. -/
inductive Unfinished (σ : Session) : List Event → Prop where
  | tail {events : List Event} (h : σ.Tail events) : Unfinished σ events
  /-- A packet has been read and reported, but not yet written. -/
  | reported (p : Packet) (h : σ.Expects p) :
      Unfinished σ (p.bytes.map (Event.took p.side (σ.layers p.side)) ++ [.callback p.message])

/-- A run may fail with nothing left in the trace. -/
theorem tail_nil (σ : Session) : σ.Tail [] := by
  refine @Tail.reading σ .frontend [] ?_
  unfold Awaits
  split
  · exact ⟨rfl, .inl (Nat.zero_le _)⟩
  · exact .inl rfl

end Session

/-- A beginning of what is within the length that it states is so too. -/
theorem WithinLength.of_isPrefix {got got' : List UInt8} (h : WithinLength got)
    (hpre : got' <+: got) : WithinLength got' := by
  by_cases hlen : got'.length ≤ 4
  · exact .inl hlen
  have hle := hpre.length_le
  rcases h with h | h
  · exact .inl (by omega)
  · obtain ⟨rest, rfl⟩ := hpre
    -- the first four bytes state the same length in both
    rw [List.take_append_of_le_length (by omega)] at h
    exact .inr (by omega)

/-- A beginning of what is within its frame is so too. -/
theorem WithinFrame.of_isPrefix {got got' : List UInt8} (h : WithinFrame got)
    (hpre : got' <+: got) : WithinFrame got' := by
  rcases h with rfl | ⟨byte, rest, rfl, hwithin⟩
  · exact .inl (List.prefix_nil.mp hpre)
  · rcases List.prefix_cons_iff.mp hpre with rfl | ⟨rest', rfl, hpre'⟩
    · exact .inl rfl
    · exact .inr ⟨byte, rest', rfl, hwithin.of_isPrefix hpre'⟩

namespace Session

variable {σ : Session}

/-- A part of what was read of the next message may have been read of it. -/
theorem Awaits.of_isPrefix {side : Side} {got got' : List UInt8} (h : σ.Awaits side got)
    (hpre : got' <+: got) : σ.Awaits side got' := by
  unfold Awaits at h ⊢
  split at h
  · exact ⟨h.1, h.2.of_isPrefix hpre⟩
  · exact WithinFrame.of_isPrefix h hpre

/-- A beginning of a tail is a tail. -/
theorem Tail.of_isPrefix {events events' : List Event} (h : σ.Tail events)
    (hpre : events' <+: events) : σ.Tail events' := by
  cases h with
  | reading hgot =>
    obtain ⟨got', hgot', rfl⟩ := List.prefix_map_iff.mp hpre
    exact .reading (hgot.of_isPrefix hgot')
  | replying hp hσ h => exact .replying hp hσ (hpre.trans h)

/-- A packet of the form that comes next is a thing that may have been read of the next message. -/
theorem awaits_of_expects {p : Packet} (h : σ.Expects p) : σ.Awaits p.side p.bytes := by
  unfold Expects at h
  unfold Awaits
  split at h
  · rcases p with ⟨t, body, msg, fits, decodes⟩
    obtain rfl : t = .frontend .initial := h
    exact ⟨rfl, withinLength_lengthAndBody fits⟩
  · obtain ⟨typeByte, htype⟩ := h
    rw [Packet.bytes, htype, frameBytes_some]
    exact .inr ⟨_, _, rfl, withinLength_lengthAndBody p.fits⟩

/-- A run that is stopped while it conveys a packet. -/
theorem unfinished_of_isPrefix {p : Packet} (h : σ.Expects p) {events : List Event}
    (hpre : events <+: p.events σ.layers) : σ.Unfinished events ∨ events = p.events σ.layers := by
  have hevents : p.events σ.layers = p.bytes.map (Event.took p.side (σ.layers p.side)) ++
      [.callback p.message] ++ [.wrote p.side.other (σ.layers p.side.other) p.bytes] := by
    rw [List.append_assoc]
    rfl
  rw [hevents] at hpre ⊢
  -- peel off the write, then the callback; what is before is a part of the frame
  rcases List.prefix_concat_iff.mp hpre with rfl | hpre
  · exact .inr rfl
  rcases List.prefix_concat_iff.mp hpre with rfl | hpre
  · exact .inl (.reported p h)
  obtain ⟨got, hgot, rfl⟩ := List.prefix_map_iff.mp hpre
  exact .inl (.tail (.reading ((awaits_of_expects h).of_isPrefix hgot)))

/-- The packets that a run may have conveyed: after a start-up packet a word of the main loop, and
after any other initial packet at most an error of the backend. -/
def Lawful (σ : Session) : Prop :=
  ∀ p ps, σ.packets = p :: ps → p.type = .frontend .initial ∧
    ((p.IsStartup ∧ Conveys .gotStartup (ps.map Packet.kind)) ∨
      (¬ p.IsStartup ∧ ∀ q ∈ ps, q.type = .backend .errorResponse))

/-- A session is lawful if its packets are. -/
theorem lawful_of_packets {p : Packet} {ps : List Packet} (hps : σ.packets = p :: ps)
    (htype : p.type = .frontend .initial)
    (h : (p.IsStartup ∧ Conveys .gotStartup (ps.map Packet.kind)) ∨
      (¬ p.IsStartup ∧ ∀ q ∈ ps, q.type = .backend .errorResponse)) : σ.Lawful := by
  intro p' ps' hps'
  obtain ⟨rfl, rfl⟩ : p = p' ∧ ps = ps' := by simpa [hps] using hps'
  exact ⟨htype, h⟩

/-- A packet that the main loop conveys keeps the session lawful. -/
theorem lawful_add_looping {s : State} {p₀ p : Packet} {ps : List Packet} (h₀ : p₀.IsStartup)
    (hps : σ.packets = p₀ :: ps) (hadvance : advanceAll .gotStartup (ps.map Packet.kind) = some s)
    (hp : Conveys s [p.kind]) : (σ.add p).Lawful := by
  refine @lawful_of_packets _ p₀ (ps ++ [p]) (by rw [add, hps]; rfl) (Packet.type_of_isStartup h₀)
    (.inl ⟨h₀, ?_⟩)
  rw [List.map_append]
  exact conveys_append hadvance hp

/-- Without packets a session is lawful. -/
theorem lawful_of_nil (hnil : σ.packets = []) : σ.Lawful := by
  intro p ps hps
  rw [hnil] at hps
  exact absurd hps (List.cons_ne_nil p ps).symm

/-- The sessions of a phase are lawful. -/
theorem lawful_of_at {ph : Phase} (h : σ.At ph) : σ.Lawful := by
  cases ph with
  | initial =>
    obtain rfl := h
    exact lawful_of_nil rfl
  | tlsReply =>
    obtain ⟨p, hp, rfl⟩ := h
    exact @lawful_of_packets _ p [] rfl (Packet.type_of_message_initial hp)
      (.inr ⟨Packet.not_isStartup_of_isTls hp, by simp⟩)
  | initialInsideTls =>
    obtain ⟨p, r, hp, rfl⟩ := h
    exact lawful_of_nil rfl
  | looping s =>
    obtain ⟨p₀, ps, h₀, hps, hadvance⟩ := h
    refine lawful_of_packets hps (Packet.type_of_isStartup h₀) (.inl ⟨h₀, ?_⟩)
    rw [← List.append_nil (ps.map Packet.kind)]
    exact conveys_append hadvance (.nil s)

/-- A packet that is written leads to a lawful session. -/
theorem lawful_of_emits {ph : Phase} {p : Packet} {next : Option Phase}
    {layers layers' : Side → Layer} (hat : σ.At ph)
    (h : Emits ph layers (.conveyed p layers) next layers') : (σ.add p).Lawful := by
  -- both phases that read an initial packet begin a session with it
  have hinitial {i : Initial} (hp : p.message = .frontend (.initial i)) (hnil : σ.packets = []) :
      (σ.add p).Lawful := by
    refine @lawful_of_packets _ p [] (by rw [add, hnil]; rfl) (Packet.type_of_message_initial hp) ?_
    by_cases hstartup : p.IsStartup
    · exact .inl ⟨hstartup, .nil _⟩
    · exact .inr ⟨hstartup, by simp⟩
  cases h with
  | initial hp =>
    obtain rfl := hat
    exact hinitial hp rfl
  | errorReply hp =>
    obtain ⟨p₀, h₀, rfl⟩ := hat
    exact @lawful_of_packets _ p₀ [p] rfl (Packet.type_of_message_initial h₀)
      (.inr ⟨Packet.not_isStartup_of_isTls h₀, by simpa using hp⟩)
  | initialInsideTls hp =>
    obtain ⟨p₀, r, h₀, rfl⟩ := hat
    exact hinitial hp rfl
  | @looping s _ _ next' haccept =>
    obtain ⟨p₀, ps, h₀, hps, hadvance⟩ := hat
    refine lawful_add_looping h₀ hps hadvance ?_
    rcases next' with _ | s'
    · exact .last haccept
    · exact .next (advance_eq_some.mpr haccept) (.nil s')

/-- An entry is expected in its phase. -/
theorem expects_of_emits {ph : Phase} {e : Entry} {next : Option Phase}
    {layers layers' : Side → Layer} (hat : σ.At ph) (h : Emits ph layers e next layers') :
    (∃ p, e = .conveyed p layers ∧ σ.Expects p) ∨
      ∃ p r, e = .replied r ∧ p.IsTls ∧ σ = empty.add p := by
  cases h with
  | initial hp =>
    obtain rfl := hat
    exact .inl ⟨_, rfl, Packet.type_of_message_initial hp⟩
  | replied r =>
    obtain ⟨p, hp, rfl⟩ := hat
    exact .inr ⟨p, r, rfl, hp, rfl⟩
  | errorReply hp =>
    obtain ⟨p₀, -, rfl⟩ := hat
    exact .inl ⟨_, rfl, .executeOrErrorResponse, by rw [hp]; rfl⟩
  | initialInsideTls hp =>
    obtain ⟨p₀, r, h₀, rfl⟩ := hat
    exact .inl ⟨_, rfl, Packet.type_of_message_initial hp⟩
  | @looping s _ p next' haccept =>
    obtain ⟨p₀, ps, -, hps, -⟩ := hat
    refine .inl ⟨p, rfl, ?_⟩
    unfold Expects
    rw [hps]
    rw [← p.kind_type]
    exact exists_typeByte_of_accept haccept

/-- A run that is stopped inside an entry. -/
theorem unfinished_of_emits {ph : Phase} {e : Entry} {next : Option Phase} {layers' : Side → Layer}
    (hat : σ.At ph) (h : Emits ph σ.layers e next layers') {events : List Event}
    (hpre : events <+: e.events) : σ.Unfinished events ∨ events = e.events := by
  rcases expects_of_emits hat h with ⟨p, rfl, hp⟩ | ⟨p, r, rfl, hp, hσ⟩
  · exact unfinished_of_isPrefix hp hpre
  · exact .inl (.tail (.replying hp hσ hpre))

/-- What a failing step leaves in the trace: the tail of the run, or a packet that was conveyed and
then rejected. -/
theorem tail_of_fails {c : Conveyor} {ph : Phase} {halt : Halt ConveyError} {events : List Event}
    (hat : σ.At ph) (h : Fails c ph σ.layers halt events) :
    σ.Tail events ∨ ∃ p : Packet, σ.Expects p ∧ events = p.events σ.layers ∧ (σ.add p).Lawful := by
  generalize hlayers : σ.layers = layers at h
  cases h with
  -- the bytes of a message, in the four phases in which one is awaited
  | @reading _ _ _ side got hhalt hreading =>
    subst hlayers
    refine .inl (.reading ?_)
    cases ph with
    | initial => obtain rfl := hat; exact hreading
    | tlsReply => obtain ⟨p, -, rfl⟩ := hat; exact hreading.2.1
    | initialInsideTls => obtain ⟨p, r, h, rfl⟩ := hat; exact hreading
    | looping s =>
      obtain ⟨p, ps, -, hps, -⟩ := hat
      unfold Awaits
      rw [hps]
      exact hreading
  | handshake r hevents =>
    obtain ⟨p, hp, rfl⟩ := hat
    exact .inl (.replying hp rfl hevents)
  -- the authentication message that the main loop conveyed and had no state for
  | @authentication s _ e p htype ho hnone hhalt =>
    obtain ⟨p₀, ps, hstartup, hps, hadvance⟩ := hat
    refine .inr ⟨p, ?_, rfl, lawful_add_looping hstartup hps hadvance (.rejected ?_ hnone)⟩
    · unfold Expects
      rw [hps]
      exact ⟨.authentication, by rw [htype]; rfl⟩
    · rw [p.kind_type, htype]
  -- the second request for TLS
  | @tlsInsideTls _ p hp hbrings =>
    obtain ⟨p₀, r, h₀, rfl⟩ := hat
    have htype := Packet.type_of_message_initial hp
    refine .inr ⟨p, htype, rfl, @lawful_of_packets _ p [] rfl htype ?_⟩
    exact .inr ⟨Packet.not_isStartup_of_isTls hp, by simp⟩

end Session

/-! ## The trace of a run -/

namespace Conveyor

/-- What holds between the steps of a run: the trace is the journal of a session of the phase. -/
def Inv (x : Phase × Conveyor) : Prop :=
  ∃ σ : Session, σ.At x.1 ∧ At x.1 σ.layers x.2 ∧ x.2.trace = σ.events

/-- A step keeps the invariant. -/
theorem step_inv {x y : Phase × Conveyor} (h : StepsTo step x y) (hx : Inv x) : Inv y := by
  obtain ⟨σ, hσ, hat, htrace⟩ := hx
  obtain ⟨e, layers', hemits, -, htrace', hat'⟩ := step_eq_ok hat h
  obtain ⟨σ', hσ', rfl, hevents, -⟩ := Session.at_of_emits hσ hemits
  exact ⟨σ', hσ', hat' _ rfl, by rw [htrace', htrace, hevents]⟩

/-- A conveyor before its run: two plain streams and an empty trace. -/
structure Fresh (c : Conveyor) : Prop where
  isOpen : c.Open plainLayers
  trace_eq : c.trace = []

/-- `Conveyor::new` makes a conveyor that is fresh. -/
theorem fresh_new (frontend backend : Stream) (frontendTlsServer backendTlsClient : TlsProvider)
    (overflowChecks : Bool) :
    (new frontend backend frontendTlsServer backendTlsClient overflowChecks).Fresh where
  isOpen side := by cases side <;> exact ⟨_, rfl⟩
  trace_eq := rfl

variable {c c' : Conveyor}

/-- A fresh conveyor is ready for the initial packet. -/
theorem Fresh.at_initial (h : c.Fresh) : At .initial plainLayers c := ⟨h.isOpen, fun _ => rfl⟩

/-- The invariant holds whenever a step of a run begins. -/
theorem reaches_inv (h : c.Fresh) {x : Phase × Conveyor}
    (hreach : Reaches step (.initial, c) x) : Inv x := by
  refine hreach.preserves (fun _ _ => step_inv) ⟨.empty, rfl, h.at_initial, ?_⟩
  rw [h.trace_eq]
  rfl

/-- How a run ends, after steps that have written the journal of a session. -/
theorem go_cases (h : c.Fresh) {r : Except (Halt ConveyError) PUnit} (hgo : go c = (r, c')) :
    ∃ (ph : Phase) (c₁ : Conveyor) (σ : Session), Reaches step (.initial, c) (ph, c₁) ∧
      σ.At ph ∧ At ph σ.layers c₁ ∧ c₁.trace = σ.events ∧
      ((r = .ok ⟨⟩ ∧ ∃ e layers', Emits ph σ.layers e none layers' ∧ e.Moves c₁ c' ∧
          c'.trace = σ.events ++ e.events) ∨
        ∃ halt events, r = .error halt ∧ Fails c₁ ph σ.layers halt events ∧
          c'.trace = σ.events ++ events) := by
  obtain ⟨⟨ph, c₁⟩, hreach, hlast⟩ := ((go_eq_iff h.at_initial).mp hgo).exists_last
  obtain ⟨σ, hσ, hat, htrace⟩ := reaches_inv h hreach
  simp only at hσ hat htrace hlast
  refine ⟨ph, c₁, σ, hreach, hσ, hat, htrace, ?_⟩
  rcases hlast with ⟨rfl, hstep⟩ | ⟨halt, rfl, hstep⟩
  · obtain ⟨e, layers', hemits, hmoves, htrace', -⟩ := step_eq_ok hat hstep
    exact .inl ⟨rfl, e, layers', hemits, hmoves, by rw [htrace', htrace]⟩
  · obtain ⟨events, hfails, htrace'⟩ := step_eq_error hat hstep
    exact .inr ⟨halt, events, rfl, hfails, by rw [htrace', htrace]⟩

/-- The whole trace of a run: the journal of a lawful session and, if the run fails, a tail. -/
theorem go_session (h : c.Fresh) {r : Except (Halt ConveyError) PUnit} (hgo : go c = (r, c')) :
    ∃ (σ : Session) (events : List Event), c'.trace = σ.events ++ events ∧ σ.Lawful ∧
      σ.Tail events ∧ (r = .ok ⟨⟩ → events = []) := by
  obtain ⟨ph, c₁, σ, -, hσ, -, -, hlast⟩ := go_cases h hgo
  rcases hlast with ⟨rfl, e, layers', hemits, -, htrace⟩ | ⟨halt, events, rfl, hfails, htrace⟩
  · rcases Session.expects_of_emits hσ hemits with ⟨p, rfl, -⟩ | ⟨p, r, rfl, -, -⟩
    · exact ⟨σ.add p, [], by rw [htrace, σ.events_add, List.append_nil]; rfl,
        Session.lawful_of_emits hσ hemits, Session.tail_nil _, fun _ => rfl⟩
    · cases hemits
  · rcases Session.tail_of_fails hσ hfails with htail | ⟨p, -, rfl, hlawful⟩
    · exact ⟨σ, events, htrace, Session.lawful_of_at hσ, htail, nofun⟩
    · exact ⟨σ.add p, [], by rw [htrace, σ.events_add, List.append_nil], hlawful,
        Session.tail_nil _, fun _ => rfl⟩

/-- A trace of a run that may have been stopped anywhere. -/
def Stopped (tr : List Event) : Prop :=
  ∃ σ : Session, ∃ events, σ.Unfinished events ∧ tr = σ.events ++ events

/-- A run can be stopped between two entries. -/
theorem stopped_events (σ : Session) : Stopped σ.events :=
  ⟨σ, [], .tail σ.tail_nil, (List.append_nil _).symm⟩

/-- A run can be stopped in the events of an entry if it can be stopped before them. -/
theorem stopped_of_prefix_append {σ : Session} {events tr : List Event}
    (h : ∀ tr, tr <+: σ.events → Stopped tr)
    (hevents : ∀ events', events' <+: events → σ.Unfinished events' ∨
      ∃ σ' : Session, σ'.events = σ.events ++ events')
    (hpre : tr <+: σ.events ++ events) : Stopped tr := by
  rcases List.prefix_or_prefix_of_prefix hpre (List.prefix_append σ.events events) with
    hshort | ⟨events', rfl⟩
  · exact h tr hshort
  · rcases hevents events' ((List.prefix_append_right_inj _).mp hpre) with hunfinished | ⟨σ', hσ'⟩
    · exact ⟨σ, events', hunfinished, rfl⟩
    · rw [← hσ']
      exact stopped_events σ'

/-- If a run can be stopped anywhere before a step, it can be stopped anywhere in it. -/
theorem step_stopped {x y : Phase × Conveyor} (h : StepsTo step x y)
    (hx : Inv x ∧ ∀ tr, tr <+: x.2.trace → Stopped tr) :
    Inv y ∧ ∀ tr, tr <+: y.2.trace → Stopped tr := by
  refine ⟨step_inv h hx.1, fun tr hpre => ?_⟩
  obtain ⟨⟨σ, hσ, hat, htrace⟩, hstopped⟩ := hx
  obtain ⟨e, layers', hemits, -, htrace', -⟩ := step_eq_ok hat h
  obtain ⟨σ', -, -, hevents, -⟩ := Session.at_of_emits hσ hemits
  rw [htrace'] at hpre
  rw [htrace] at hpre hstopped
  refine stopped_of_prefix_append hstopped (fun events' hpre' => ?_) hpre
  rcases Session.unfinished_of_emits hσ hemits hpre' with hunfinished | rfl
  · exact .inl hunfinished
  · exact .inr ⟨σ', hevents⟩

/-- Every beginning of the trace of a run is the journal of a session and a part of one entry. -/
theorem stopped_of_isPrefix (h : c.Fresh) {tr : List Event} (hpre : tr <+: (go c).2.trace) :
    Stopped tr := by
  rcases hgo : go c with ⟨r, c'⟩
  rw [hgo] at hpre
  obtain ⟨ph, c₁, σ, hreach, hσ, hat, htrace, hlast⟩ := go_cases h hgo
  have hstart : ∀ tr, tr <+: c.trace → Stopped tr := by
    intro tr htr
    rw [h.trace_eq] at htr
    obtain rfl := List.prefix_nil.mp htr
    exact stopped_events .empty
  have hstopped := (hreach.preserves (fun _ _ => step_stopped) ⟨reaches_inv h .refl, hstart⟩).2
  rw [htrace] at hstopped
  rcases hlast with ⟨-, e, layers', hemits, -, htrace'⟩ | ⟨halt, events, -, hfails, htrace'⟩
  · rw [htrace'] at hpre
    refine stopped_of_prefix_append hstopped (fun events' hpre' => ?_) hpre
    rcases Session.unfinished_of_emits hσ hemits hpre' with hunfinished | rfl
    · exact .inl hunfinished
    · rcases Session.expects_of_emits hσ hemits with ⟨p, rfl, -⟩ | ⟨p, r, rfl, hp, rfl⟩
      · exact .inr ⟨σ.add p, σ.events_add p⟩
      · exact .inr ⟨.upgraded p r hp, Session.events_upgraded hp⟩
  · rw [htrace'] at hpre
    refine stopped_of_prefix_append hstopped (fun events' hpre' => ?_) hpre
    rcases Session.tail_of_fails hσ hfails with htail | ⟨p, hp, rfl, -⟩
    · exact .inl (.tail (htail.of_isPrefix hpre'))
    · rcases Session.unfinished_of_isPrefix hp hpre' with hunfinished | rfl
      · exact .inl hunfinished
      · exact .inr ⟨σ.add p, σ.events_add p⟩

end Conveyor

end Postgread
