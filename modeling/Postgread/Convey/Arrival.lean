import Postgread.Convey.Transparency

/-!
# Orders of arrival

`Arrives c ps c'` says that the two streams of `c` bring the frames of `ps`, of both sides, in this
order, and leave those of `c'`; it does not depend on what the main loop makes of them. A word that
the automaton reads is conveyed whole when it arrives (`reaches_of_arrives`), and every order of
packets is one in which they can arrive (`arrives_arranged`).

`afterStartup` are the kinds of the messages that a run has conveyed after its start-up packet.
-/

namespace Postgread

open Body Conveyor Event

variable {c c' : Conveyor} {layers : Side → Layer}

/-! ## Frames in a row -/

namespace Conveyor

/-- Another trace. -/
def setTrace (c : Conveyor) (tr : List Event) : Conveyor := { c with trace := tr }

/-- The trace that is there can be set. -/
theorem setTrace_trace (c : Conveyor) : c.setTrace c.trace = c := rfl

/-- Logging sets a longer trace. -/
theorem log_eq_setTrace (c : Conveyor) (events : List Event) :
    c.log events = c.setTrace (c.trace ++ events) := rfl

/-- Setting the trace leaves the wraps alone. -/
@[simp] theorem wrap_setTrace (c : Conveyor) (tr : List Event) (side : Side) :
    (c.setTrace tr).wrap side = c.wrap side := by
  cases side <;> rfl

/-- The race does not depend on the trace. -/
theorem selectTypeByte_setTrace (c : Conveyor) (tr : List Event) : ∃ tr',
    selectTypeByte (c.setTrace tr) =
      ((selectTypeByte c).1, (selectTypeByte c).2.setTrace tr') := by
  rcases hsel : select StreamWrap.pollTypeByte StreamWrap.pollTypeByte c.rounds c.backend c.frontend
    with ⟨_ | ((e | byte) | (e | byte)), b, f⟩
  all_goals
    have hsel' : select StreamWrap.pollTypeByte StreamWrap.pollTypeByte (c.setTrace tr).rounds
        (c.setTrace tr).backend (c.setTrace tr).frontend = _ := hsel
    simp only [selectTypeByte, hsel, hsel', tookTypeByte]
    exact ⟨_, rfl⟩

end Conveyor

/-- What is offered does not depend on the trace. -/
theorem Offers.setTrace {p : Packet} (ho : Offers c p c') (tr : List Event) :
    Offers (c.setTrace tr) p (c'.setTrace tr) := by
  obtain ⟨typeByte, c₁, s, htype, hselect, hbrings, rfl⟩ := ho
  obtain ⟨tr', hselect'⟩ := selectTypeByte_setTrace c tr
  rw [hselect] at hselect'
  refine ⟨typeByte, _, s, htype, hselect', by rwa [wrap_setTrace], ?_⟩
  rw [wrap_setTrace]
  cases p.side <;> rfl

/-- `Arrives c ps c'`: the streams of `c` bring the frames of `ps` in this order. -/
inductive Arrives : Conveyor → List Packet → Conveyor → Prop where
  | nil (c : Conveyor) : Arrives c [] c
  | cons {c c₁ c' : Conveyor} {p : Packet} {ps : List Packet} (ho : Offers c p c₁)
      (h : Arrives c₁ ps c') : Arrives c (p :: ps) c'

/-- An offer leaves the trace alone. -/
theorem Offers.trace_eq {p : Packet} (ho : Offers c p c') : c'.trace = c.trace := by
  obtain ⟨typeByte, c₁, s, -, -, -, rfl⟩ := ho
  rfl

/-- What is offered does not depend on what has been conveyed. -/
theorem Offers.log {p : Packet} (ho : Offers c p c') (events : List Event) :
    Offers (c.log events) p (c'.log events) := by
  rw [log_eq_setTrace, log_eq_setTrace, ho.trace_eq]
  exact ho.setTrace _

/-- What arrives does not depend on the trace. -/
theorem Arrives.setTrace {ps : List Packet} (h : Arrives c ps c') (tr : List Event) :
    Arrives (c.setTrace tr) ps (c'.setTrace tr) := by
  induction h with
  | nil c => exact .nil _
  | cons ho _ ih => exact .cons (ho.setTrace tr) ih

/-- An arrival leaves the trace alone. -/
theorem Arrives.trace_eq {ps : List Packet} (h : Arrives c ps c') : c'.trace = c.trace := by
  induction h with
  | nil => rfl
  | cons ho _ ih => rw [ih, ho.trace_eq]

/-- What arrives does not depend on what has been conveyed. -/
theorem Arrives.log {ps : List Packet} (h : Arrives c ps c') (events : List Event) :
    Arrives (c.log events) ps (c'.log events) := by
  rw [log_eq_setTrace, log_eq_setTrace, h.trace_eq]
  exact h.setTrace _

/-- What arrives after something was conveyed would have arrived without it. -/
theorem Arrives.of_log {ps : List Packet} {events : List Event} (h : Arrives (c.log events) ps c') :
    ∃ c₁, Arrives c ps c₁ ∧ c' = c₁.log events := by
  refine ⟨c'.setTrace c.trace, h.setTrace c.trace, ?_⟩
  have htrace : c'.trace = c.trace ++ events := h.trace_eq
  rw [log_eq_setTrace, ← setTrace_trace c', htrace]
  rfl

/-- What arrives in two parts arrives part by part. -/
theorem arrives_append {ps qs : List Packet} (h : Arrives c (ps ++ qs) c') :
    ∃ c₁, Arrives c ps c₁ ∧ Arrives c₁ qs c' := by
  induction ps generalizing c with
  | nil => exact ⟨c, .nil c, h⟩
  | cons p ps ih =>
    cases h with
    | cons ho h =>
      obtain ⟨c₁, h₁, h₂⟩ := ih h
      exact ⟨c₁, .cons ho h₁, h₂⟩

/-- What arrives is what the streams bring, and it leaves them open. -/
theorem arrives_streams (hopen : c.Open layers) {ps : List Packet} (h : Arrives c ps c') :
    c'.Open layers ∧ ∀ side, Script.tokens (c.wrap side).stream =
      frames (ps.filter fun p => p.side = side) ++ Script.tokens (c'.wrap side).stream := by
  induction h with
  | nil c => exact ⟨hopen, fun _ => rfl⟩
  | @cons c c₁ c' p ps ho _ ih =>
    obtain ⟨hopen₁, -, hbrings, hwaits⟩ := ho.streams hopen
    obtain ⟨hopen', htokens⟩ := ih hopen₁
    refine ⟨hopen', fun side => ?_⟩
    -- the side of the packet loses its frame, the other one nothing
    rcases p.side.eq_or_eq_other side with rfl | rfl
    · rw [hbrings.tokens_eq, htokens, List.filter_cons_of_pos (by simp), frames_cons,
        List.append_assoc]
    · rw [← hwaits.tokens_eq, htokens,
        List.filter_cons_of_neg (by simp [(Side.other_ne p.side).symm])]

/-- A word that the automaton reads is conveyed whole when it arrives. -/
theorem reaches_of_arrives (hopen : c.Open layers) {ps : List Packet} (h : Arrives c ps c')
    {s s' : State} (hadvance : advanceAll s (ps.map Packet.kind) = some s') :
    Reaches step (.looping s, c) (.looping s', c'.log (ps.flatMap fun p => p.events layers)) := by
  induction ps generalizing c c' s with
  | nil =>
    cases h
    obtain rfl : s = s' := Option.some.inj hadvance
    rw [List.flatMap_nil, log_nil]
    exact .refl
  | cons p ps ih =>
    -- each packet is a round of the main loop, and the events of the rounds add up
    cases h with
    | @cons _ c₁ _ _ _ ho h =>
      rw [List.map_cons, advanceAll_cons] at hadvance
      obtain ⟨s₁, hk, hadvance⟩ := Option.bind_eq_some_iff.mp hadvance
      obtain ⟨hopen₁, -, -⟩ := ho.streams hopen
      have hbody := (loopBody_eq_ok hopen).mpr ⟨p, c₁, ho, advance_eq_some.mp hk, rfl⟩
      have hstep : StepsTo step (.looping s, c) (.looping s₁, c₁.log (p.events layers)) :=
        Proc.map_eq_ok.mpr ⟨some s₁, hbody, rfl⟩
      have hrest := ih (hopen₁.log (p.events layers)) (h.log (p.events layers)) hadvance
      rw [log_log] at hrest
      exact .head hstep hrest

/-! ## Every order is possible -/

/-- A stream that brings some bytes at once. -/
def readyBytes : List UInt8 → Stream
  | [] => []
  | head :: tail => [.ready head tail]

/-- The first of the bytes is there at once. -/
theorem pollOne_readyBytes (byte : UInt8) (bytes : List UInt8) (s : Stream) :
    pollOne (readyBytes (byte :: bytes) ++ s) = (.ready (.ok byte), readyBytes bytes ++ s) := by
  cases bytes <;> rfl

/-- The stream brings the bytes that it was made of. -/
theorem brings_readyBytes (bytes : List UInt8) (s : Stream) :
    Brings (readyBytes bytes ++ s) bytes s := by
  rcases bytes with _ | ⟨head, tail⟩
  · simp [readyBytes, Brings, fill]
  · simp [readyBytes, Brings, fill]

/-- The answers of one side when the packets of both sides come in this order, each as soon as the
one before it has been conveyed. The backend is polled first, so it is pending before each packet of
the frontend. -/
def arranged (side : Side) (ps : List Packet) : Stream :=
  ps.flatMap fun p =>
    if p.side = side then readyBytes p.bytes
    else match side with
      | .backend => [.pending]
      | .frontend => []

/-- A byte of the backend wins the race. -/
theorem selectTypeByte_of_backend {byte : UInt8} {b : StreamWrap}
    (hpoll : c.backend.pollTypeByte = (.ready (.ok byte), b)) :
    selectTypeByte c =
      (.ok (.backend, byte), (c.setWrap .backend b).log [.took .backend b.layer byte]) := by
  rw [selectTypeByte, rounds, select]
  simp only [hpoll]
  rfl

/-- A byte of the frontend wins the race if the backend is pending. -/
theorem selectTypeByte_of_frontend {byte : UInt8} {b f : StreamWrap}
    (hpending : c.backend.pollTypeByte = (.pending, b))
    (hpoll : c.frontend.pollTypeByte = (.ready (.ok byte), f)) :
    selectTypeByte c = (.ok (.frontend, byte),
      ((c.setWrap .backend b).setWrap .frontend f).log [.took .frontend f.layer byte]) := by
  rw [selectTypeByte, rounds, select]
  simp only [hpending, hpoll]
  rfl

/-- For its own side the first packet is its bytes. -/
theorem arranged_cons_self (p : Packet) (ps : List Packet) :
    arranged p.side (p :: ps) = readyBytes p.bytes ++ arranged p.side ps := by
  simp [arranged]

/-- The backend is pending while the frontend brings a packet. -/
theorem arranged_backend_cons {p : Packet} (hside : p.side = .frontend) (ps : List Packet) :
    arranged .backend (p :: ps) = .pending :: arranged .backend ps := by
  simp [arranged, hside]

/-- The frontend has nothing to do with a packet of the backend. -/
theorem arranged_frontend_cons {p : Packet} (hside : p.side = .backend) (ps : List Packet) :
    arranged .frontend (p :: ps) = arranged .frontend ps := by
  simp [arranged, hside]

/-- The packet whose type byte has won the race is offered, and the other side stays as it is. -/
theorem offers_of_readyBytes {p : Packet} {typeByte : TypeByte} {d : Conveyor} {layer : Layer}
    {s : Stream} {events : List Event} (htype : p.type.typeByteOpt = some typeByte)
    (hselect : selectTypeByte c = (.ok (p.side, typeByte.toU8), d.log events))
    (hwrap : d.wrap p.side = .ofLayer layer (readyBytes (lengthAndBody p.body) ++ s)) :
    ∃ c', Offers c p c' ∧ c'.wrap p.side = .ofLayer layer s ∧
      c'.wrap p.side.other = d.wrap p.side.other := by
  refine ⟨_, ⟨typeByte, _, s, htype, hselect, ?_, rfl⟩, ?_, ?_⟩
  · rw [wrap_log, hwrap, StreamWrap.stream_ofLayer]
    exact brings_readyBytes _ _
  · rw [wrap_log, hwrap, StreamWrap.layer_ofLayer]
    cases p.side <;> rfl
  · cases p.side <;> rfl

/-- The next of the arranged packets is offered. -/
theorem offers_arranged {p : Packet} {ps : List Packet} {typeByte : TypeByte}
    (htype : p.type.typeByteOpt = some typeByte)
    (h : ∀ side, c.wrap side = .ofLayer (layers side) (arranged side (p :: ps))) :
    ∃ c', Offers c p c' ∧ ∀ side, c'.wrap side = .ofLayer (layers side) (arranged side ps) := by
  have hpoll : (c.wrap p.side).pollTypeByte = (.ready (.ok typeByte.toU8),
      .ofLayer (layers p.side) (readyBytes (lengthAndBody p.body) ++ arranged p.side ps)) := by
    rw [h, arranged_cons_self, Packet.bytes, htype, frameBytes_some,
      StreamWrap.pollTypeByte_ofLayer, pollOne_readyBytes]
    rfl
  -- a packet of the frontend wins the race because the backend is pending once
  rcases hside : p.side with _ | _
  · have hselect := selectTypeByte_of_backend (hside ▸ hpoll)
    obtain ⟨c', ho, hself, hother⟩ := offers_of_readyBytes htype (hside ▸ hselect)
      (by rw [hside]; rfl)
    rw [hside] at hself hother
    refine ⟨c', ho, ?_⟩
    rintro (_ | _)
    · exact hself
    · exact hother.trans ((h .frontend).trans (by rw [arranged_frontend_cons hside]))
  · have hpending : (c.wrap .backend).pollTypeByte =
        (.pending, .ofLayer (layers .backend) (arranged .backend ps)) := by
      rw [h, arranged_backend_cons hside, StreamWrap.pollTypeByte_ofLayer]
      rfl
    have hselect := selectTypeByte_of_frontend hpending (hside ▸ hpoll)
    obtain ⟨c', ho, hself, hother⟩ := offers_of_readyBytes htype (hside ▸ hselect)
      (by rw [hside]; rfl)
    rw [hside] at hself hother
    refine ⟨c', ho, ?_⟩
    rintro (_ | _)
    · exact hother
    · exact hself

/-- Every order of packets with type bytes is one in which they can arrive. -/
theorem arrives_arranged {ps : List Packet}
    (htypes : ∀ p ∈ ps, ∃ typeByte, p.type.typeByteOpt = some typeByte)
    (h : ∀ side, c.wrap side = .ofLayer (layers side) (arranged side ps)) :
    ∃ c', Arrives c ps c' ∧ c'.bytesLeft = 0 := by
  induction ps generalizing c with
  | nil =>
    refine ⟨c, .nil c, ?_⟩
    rw [bytesLeft_eq c .backend, h, h]
    simp [arranged]
  | cons p ps ih =>
    obtain ⟨typeByte, htype⟩ := htypes p List.mem_cons_self
    obtain ⟨c₁, ho, h₁⟩ := offers_arranged htype h
    obtain ⟨c', harrives, hleft⟩ := ih (fun q hq => htypes q (List.mem_cons_of_mem _ hq)) h₁
    exact ⟨c', .cons ho harrives, hleft⟩

end Postgread
