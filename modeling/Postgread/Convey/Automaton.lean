import Postgread.Convey.Go
import Postgread.Convey.Packet

/-!
# The main loop as an automaton

A `Kind` is what the main loop distinguishes of a message: its type, and for an authentication its
sub-type. `accept` is the automaton that the table `arm` and the authentication arm add up to, on
kinds instead of bytes: no step, the end of the session, or the next state.

`loopBody_eq_ok` connects the two: with open streams, a round of the main loop succeeds exactly when
the next frame that the race of both sides brings is a packet that the automaton accepts, and then
the round conveys this packet.
-/

namespace Postgread

open Body Conveyor

/-- The sub-types of an authentication. -/
inductive AuthType where
  | cleartextPassword
  | gss
  | gssContinue
  | kerberosV5
  | md5Password
  | ok
  | sasl
  | saslContinue
  | saslFinal
  | scmCredential
  | sspi
deriving DecidableEq, Repr

/-- The sub-type of an authentication. -/
def Body.Authentication.type : Authentication → AuthType
  | .cleartextPassword => .cleartextPassword
  | .gss => .gss
  | .gssContinue _ => .gssContinue
  | .kerberosV5 => .kerberosV5
  | .md5Password _ => .md5Password
  | .ok => .ok
  | .sasl _ => .sasl
  | .saslContinue _ => .saslContinue
  | .saslFinal _ => .saslFinal
  | .scmCredential => .scmCredential
  | .sspi => .sspi

/-- What the main loop distinguishes of a message. -/
inductive Kind where
  | authentication (t : AuthType)
  | backend (t : BackendType)
  | frontend (t : FrontendType)
deriving DecidableEq, Repr

namespace Kind

/-- The type of the messages of a kind. -/
def type : Kind → MsgType
  | authentication _ => .backend .authentication
  | backend t => .backend t
  | frontend t => .frontend t

/-- The side that sends the messages of a kind. -/
def side (k : Kind) : Side := k.type.side

end Kind

/-- The kind of a message. -/
def Message.kind : Message → Kind
  | backend (.authentication msg) => .authentication msg.type
  | backend msg => .backend msg.type
  | frontend msg => .frontend msg.type

/-- The kind of the message of a packet. -/
def Packet.kind (p : Packet) : Kind := p.message.kind

/-- The state after an authentication request, by its sub-type. -/
def AuthType.next : AuthType → State → Option State
  | .cleartextPassword, .gotStartup => some .askedCleartextPassword
  | .gss, .gotStartup => some .askedGssResponse
  | .sspi, .gotStartup => some .askedGssResponse
  | .gssContinue, .gotGssResponse => some .askedGssResponse
  | .md5Password, .gotStartup => some .askedMd5Password
  | .ok, .finishedSasl => some .authenticated
  | .ok, .gotCleartextPassword => some .authenticated
  | .ok, .gotGssResponse => some .authenticated
  | .ok, .gotMd5Password => some .authenticated
  | .ok, .gotStartup => some .authenticated
  | .sasl, .gotStartup => some .askedSaslInitialResponse
  | .saslContinue, .gotAnySaslResponse => some .askedSaslResponse
  | .saslFinal, .gotAnySaslResponse => some .finishedSasl
  | _, _ => none

/-- What the main loop does in a state about a message of a kind: nothing but fail, return, or go on
in the next state. -/
def accept (s : State) (k : Kind) : Option (Option State) :=
  match k.type.typeByteOpt with
  | none => none
  | some typeByte =>
    match arm k.side typeByte s with
    | .authentication =>
      match k with
      | .authentication t => (t.next s).map some
      | _ => none
    | .through t next => if t = k.type then some next else none
    | .unexpected => none

/-- The next state, if the session goes on. -/
def advance (s : State) (k : Kind) : Option State := (accept s k).join

/-- The state after a word of messages, if the session goes on. -/
def advanceAll (s : State) (ks : List Kind) : Option State := ks.foldlM advance s

/-- A message leads to a state if it is accepted with this state. -/
theorem advance_eq_some {s s' : State} {k : Kind} :
    advance s k = some s' ↔ accept s k = some (some s') := Option.join_eq_some_iff

/-- Without messages the state stays. -/
@[simp] theorem advanceAll_nil (s : State) : advanceAll s [] = some s := rfl

/-- A word is read from its first message on. -/
theorem advanceAll_cons (s : State) (k : Kind) (ks : List Kind) :
    advanceAll s (k :: ks) = (advance s k).bind fun s' => advanceAll s' ks := rfl

/-- Two words in a row are read one after the other. -/
theorem advanceAll_append (s : State) (ks ks' : List Kind) :
    advanceAll s (ks ++ ks') = (advanceAll s ks).bind fun s' => advanceAll s' ks' :=
  List.foldlM_append

/-- A word is read up to its last message. -/
theorem advanceAll_concat {s s' s'' : State} {ks : List Kind} {k : Kind}
    (h : advanceAll s ks = some s') (hk : advance s' k = some s'') :
    advanceAll s (ks ++ [k]) = some s'' := by
  rw [advanceAll_append, h, Option.bind_some, advanceAll_cons, hk]
  rfl

/-- What one message preserves, a word preserves: `P` summarises the word in the state. -/
theorem advanceAll_induction {P : List Kind → State → Prop} {s₀ s : State} {ks : List Kind}
    (hnil : P [] s₀)
    (hstep : ∀ ks s k s', P ks s → advance s k = some s' → P (ks ++ [k]) s')
    (h : advanceAll s₀ ks = some s) : P ks s := by
  -- the words are taken apart at their ends, since `P` speaks of what was read so far
  induction ks using List.reverseRecOn generalizing s with
  | nil =>
    obtain rfl : s₀ = s := Option.some.inj h
    exact hnil
  | append_singleton ks k ih =>
    rw [advanceAll_append] at h
    obtain ⟨s₁, hks, hk⟩ := Option.bind_eq_some_iff.mp h
    rw [advanceAll_cons, Option.bind_eq_some_iff] at hk
    obtain ⟨s₂, hk, hs₂⟩ := hk
    obtain rfl : s₂ = s := Option.some.inj hs₂
    exact hstep ks s₁ k s₂ (ih hks) hk

/-- The words that the main loop may convey from a state. The last message may end the session, or
be an authentication request that is rejected after it has been conveyed. -/
inductive Conveys : State → List Kind → Prop where
  | nil (s : State) : Conveys s []
  | next {s s' : State} {k : Kind} {ks : List Kind} (h : advance s k = some s')
      (hks : Conveys s' ks) : Conveys s (k :: ks)
  | last {s : State} {k : Kind} (h : accept s k = some none) : Conveys s [k]
  | rejected {s : State} {k : Kind} (hk : k.type = .backend .authentication)
      (h : accept s k = none) : Conveys s [k]

/-- What the main loop may convey after a word it may convey together with it. -/
theorem conveys_append {s s' : State} {ks ks' : List Kind} (h : advanceAll s ks = some s')
    (h' : Conveys s' ks') : Conveys s (ks ++ ks') := by
  induction ks generalizing s with
  | nil =>
    obtain rfl : s = s' := Option.some.inj h
    exact h'
  | cons k ks ih =>
    rw [advanceAll_cons] at h
    obtain ⟨s₁, hk, hks⟩ := Option.bind_eq_some_iff.mp h
    exact .next hk (ih hks)

/-- Before every message that is conveyed stands a word that leads to a state. -/
theorem Conveys.exists_advanceAll {s : State} {ks ks' : List Kind} {k : Kind}
    (h : Conveys s (ks ++ k :: ks')) : ∃ s', advanceAll s ks = some s' ∧ Conveys s' (k :: ks') := by
  induction ks generalizing s with
  | nil => exact ⟨s, rfl, h⟩
  | cons k₀ ks ih =>
    -- a word that ends with its first message has nothing after it
    generalize hword : k₀ :: ks ++ k :: ks' = word at h
    cases h with
    | nil => simp at hword
    | @next _ s₁ k₁ ks₁ hk hks =>
      obtain ⟨rfl, rfl⟩ : k₀ = k₁ ∧ ks ++ k :: ks' = ks₁ := by simpa using hword
      obtain ⟨s', hs', hconveys⟩ := ih hks
      exact ⟨s', by rw [advanceAll_cons, hk]; exact hs', hconveys⟩
    | last => simp at hword
    | rejected => simp at hword

/-- Everything that is conveyed but an authentication request has been accepted. -/
theorem Conveys.exists_accept {s : State} {k : Kind} {ks : List Kind} (h : Conveys s (k :: ks))
    (hk : k.type ≠ .backend .authentication) : ∃ next, accept s k = some next := by
  cases h with
  | next h => exact ⟨_, advance_eq_some.mp h⟩
  | last h => exact ⟨_, h⟩
  | rejected hk' => exact absurd hk' hk

/-- Wrapping a message does not change its type. -/
theorem kind_wrap_type (t : MsgType) (msg : t.Body) : (t.wrap msg).kind.type = t := by
  rcases t with t | t <;> cases t <;> rfl

/-- The kind of a packet has its type. -/
theorem Packet.kind_type (p : Packet) : p.kind.type = p.type :=
  kind_wrap_type p.type p.msg

/-- The kind of a packet has its side. -/
theorem Packet.kind_side (p : Packet) : p.kind.side = p.side := by
  rw [Kind.side, p.kind_type, Packet.side]

/-! ## The table -/

/-- An arm reads a message of the side and the type byte that it is about. -/
theorem arm_through {side : Side} {typeByte : TypeByte} {s : State} {t : MsgType}
    {next : Option State} (h : arm side typeByte s = .through t next) :
    t.side = side ∧ t.typeByteOpt = some typeByte ∧ t ≠ .backend .authentication := by
  unfold arm at h
  -- each row of the table names one type, and its side and type byte are those of the row
  split at h <;> cases h <;> exact ⟨rfl, rfl, by decide⟩

/-- Only the authentications of the backend are dealt with outside the table. -/
theorem arm_eq_authentication {side : Side} {typeByte : TypeByte} {s : State} :
    arm side typeByte s = .authentication ↔ side = .backend ∧ typeByte = .authentication := by
  constructor
  · intro h
    unfold arm at h
    split at h <;> cases h
    exact ⟨rfl, rfl⟩
  · rintro ⟨rfl, rfl⟩
    rfl

/-- The state after an authentication depends on its sub-type alone. -/
theorem toOption_afterAuthentication (typeByte : TypeByte) (authentication : Authentication)
    (s : State) :
    (afterAuthentication typeByte authentication s).toOption = authentication.type.next s := by
  cases authentication
  all_goals cases s
  all_goals rfl

/-- An authentication leads to a state if its sub-type does. -/
theorem afterAuthentication_eq_ok {typeByte : TypeByte} {authentication : Authentication}
    {s s' : State} :
    afterAuthentication typeByte authentication s = .ok s' ↔
      authentication.type.next s = some s' := by
  rw [← toOption_afterAuthentication typeByte]
  rcases afterAuthentication typeByte authentication s with e | s₁ <;> simp [Except.toOption]

/-- An authentication is accepted as its sub-type is. -/
theorem accept_authentication (s : State) (t : AuthType) :
    accept s (.authentication t) = (t.next s).map some := rfl

/-- What is accepted has a type byte. -/
theorem exists_typeByte_of_accept {s : State} {k : Kind} {next : Option State}
    (h : accept s k = some next) : ∃ typeByte, k.type.typeByteOpt = some typeByte := by
  rcases htype : k.type.typeByteOpt with _ | typeByte
  · simp [accept, htype] at h
  · exact ⟨typeByte, rfl⟩

/-- What is accepted and no authentication is what an arm reads. -/
theorem accept_eq_some {s : State} {k : Kind} {next : Option State}
    (hk : k.type ≠ .backend .authentication) :
    accept s k = some next ↔ ∃ typeByte, k.type.typeByteOpt = some typeByte ∧
      arm k.side typeByte s = .through k.type next := by
  unfold accept
  rcases htype : k.type.typeByteOpt with _ | typeByte
  · simp
  · simp only [Option.some.injEq, exists_eq_left']
    rcases harm : arm k.side typeByte s with _ | ⟨t, next'⟩ | _
    · obtain ⟨hside, rfl⟩ := arm_eq_authentication.mp harm
      rcases k with t | t | t
      · exact absurd rfl hk
      · simp
      · simp
    · simp only [Arm.through.injEq]
      split <;> simp_all
    · simp

/-! ## Frames that arrive -/

/-- The race of both sides and the read after it bring the frame of a packet. Nothing here depends
on the state of the main loop or on the trace. -/
def Offers (c : Conveyor) (p : Packet) (c' : Conveyor) : Prop :=
  ∃ typeByte c₁ s, p.type.typeByteOpt = some typeByte ∧
    selectTypeByte c = (.ok (p.side, typeByte.toU8), c₁) ∧
    Brings (c₁.wrap p.side).stream (lengthAndBody p.body) s ∧
    c' = { c₁.setWrap p.side (.ofLayer (c₁.wrap p.side).layer s) with trace := c.trace }

/-- Whether a packet is offered can be found by evaluation. -/
theorem exists_offers {c : Conveyor} {p : Packet} {typeByte : TypeByte}
    (htype : p.type.typeByteOpt = some typeByte)
    (hselect : (selectTypeByte c).1 = .ok (p.side, typeByte.toU8))
    (hresult : (fill ((selectTypeByte c).2.wrap p.side).stream (lengthAndBody p.body).length).1 =
      .ok ⟨⟩)
    (htaken : (fill ((selectTypeByte c).2.wrap p.side).stream (lengthAndBody p.body).length).2.1 =
      lengthAndBody p.body) : ∃ c', Offers c p c' :=
  ⟨_, typeByte, _, _, htype, Prod.ext hselect rfl, Prod.ext hresult (Prod.ext htaken rfl), rfl⟩

section

variable {c c' : Conveyor} {layers : Side → Layer}

/-- The race leaves open streams open. -/
theorem exists_of_selectTypeByte (h : c.Open layers) {c₁ : Conveyor} {side : Side} {byte : UInt8}
    (hselect : selectTypeByte c = (.ok (side, byte), c₁)) :
    ∃ d : Conveyor, c₁ = d.log [.took side (layers side) byte] ∧ d.trace = c.trace ∧
      d.Open layers ∧ Brings (c.wrap side).stream [byte] (d.wrap side).stream ∧
      Waits pollOne (c.wrap side.other).stream (d.wrap side.other).stream := by
  obtain ⟨s, s', hbrings, hwaits, rfl⟩ := selectTypeByte_eq_ok h hselect
  exact ⟨_, rfl, by simp, (h.setWrap side s).setWrap side.other s', by simpa using hbrings,
    by simpa using hwaits⟩

/-- A stream is moved on, and what has been logged meanwhile is taken back. -/
theorem setWrap_log_with_trace {d : Conveyor} (h : d.Open layers) (htrace : d.trace = c.trace)
    (events : List Event) (side : Side) (s : Stream) :
    { (d.log events).setWrap side (.ofLayer ((d.log events).wrap side).layer s) with
      trace := c.trace } = d.setWrap side (.ofLayer (layers side) s) := by
  obtain ⟨s', hs'⟩ := h side
  rw [setWrap_log, wrap_log, hs', StreamWrap.layer_ofLayer, ← htrace,
    ← trace_setWrap d side (.ofLayer (layers side) s)]
  rfl

/-- With open streams, a packet is offered if the race brings its type byte and the stream of its
side the rest of its frame. -/
theorem offers_iff (h : c.Open layers) {p : Packet} :
    Offers c p c' ↔ ∃ (typeByte : TypeByte) (d : Conveyor) (s : Stream),
      p.type.typeByteOpt = some typeByte ∧
      selectTypeByte c =
        (.ok (p.side, typeByte.toU8), d.log [.took p.side (layers p.side) typeByte.toU8]) ∧
      d.trace = c.trace ∧ d.Open layers ∧
      Brings (d.wrap p.side).stream (lengthAndBody p.body) s ∧
      c' = d.setWrap p.side (.ofLayer (layers p.side) s) := by
  constructor
  · rintro ⟨typeByte, c₁, s, htype, hselect, hbrings, rfl⟩
    obtain ⟨d, rfl, htrace, hopen, -, -⟩ := exists_of_selectTypeByte h hselect
    -- the race takes the type byte, and the read the rest of the frame
    exact ⟨typeByte, d, s, htype, hselect, htrace, hopen, by simpa using hbrings,
      setWrap_log_with_trace hopen htrace _ p.side s⟩
  · rintro ⟨typeByte, d, s, htype, hselect, htrace, hopen, hbrings, rfl⟩
    exact ⟨typeByte, _, s, htype, hselect, by simpa using hbrings,
      (setWrap_log_with_trace hopen htrace _ p.side s).symm⟩

/-- An offered packet is the next frame of its side, and the other side loses nothing. -/
theorem Offers.streams (h : c.Open layers) {p : Packet} (ho : Offers c p c') :
    c'.Open layers ∧ c'.trace = c.trace ∧
      Brings (c.wrap p.side).stream p.bytes (c'.wrap p.side).stream ∧
      Waits pollOne (c.wrap p.side.other).stream (c'.wrap p.side.other).stream := by
  obtain ⟨typeByte, d, s, htype, hselect, htrace, hopen, hbrings, rfl⟩ := (offers_iff h).mp ho
  obtain ⟨d', heq, -, -, hfirst, hwaits⟩ := exists_of_selectTypeByte h hselect
  have hwrap (side : Side) : d'.wrap side = d.wrap side := by
    rw [← wrap_log d' [.took p.side (layers p.side) typeByte.toU8], ← heq, wrap_log]
  refine ⟨hopen.setWrap _ _, by simpa using htrace, ?_, ?_⟩
  · rw [Packet.bytes, htype, frameBytes_some, wrap_setWrap_self, StreamWrap.stream_ofLayer]
    rw [hwrap] at hfirst
    exact brings_append.mpr ⟨_, hfirst, hbrings⟩
  · rw [hwrap] at hwaits
    simpa using hwaits

/-! ## One round of the main loop -/

/-- The winner of the race counts if its byte is known. -/
theorem readTypeByteFromBoth_eq_ok {side : Side} {typeByte : TypeByte} :
    readTypeByteFromBoth c = (.ok (side, typeByte), c') ↔
      selectTypeByte c = (.ok (side, typeByte.toU8), c') := by
  rw [readTypeByteFromBoth, Proc.bind_eq_ok]
  constructor
  · rintro ⟨⟨side', byte⟩, c₁, hselect, hrest⟩
    simp only at hrest
    rcases htry : TypeByte.tryFrom byte with _ | t
    · simp [htry] at hrest
    · obtain ⟨⟨rfl, rfl⟩, rfl⟩ : (side' = side ∧ t = typeByte) ∧ c₁ = c' := by
        simpa [htry] using hrest
      rwa [TypeByte.tryFrom_eq_some.mp htry]
  · intro hselect
    exact ⟨_, c', hselect, by simp [TypeByte.tryFrom_toU8]⟩

/-- The packet that is read after its type byte has won the race was offered. -/
theorem offers_of_readThrough (h : c.Open layers) {t : MsgType} {typeByte : TypeByte}
    {c₁ : Conveyor} {msg : t.Body} (htype : t.typeByteOpt = some typeByte)
    (hselect : selectTypeByte c = (.ok (t.side, typeByte.toU8), c₁))
    (hread : readThrough t c₁ = (.ok msg, c')) :
    ∃ p c₂, p.type = t ∧ p.message = t.wrap msg ∧ Offers c p c₂ ∧
      c' = c₂.log (p.events layers) := by
  obtain ⟨d, rfl, htrace, hopen, -, -⟩ := exists_of_selectTypeByte h hselect
  obtain ⟨body, fits, decodes, s, hbrings, rfl⟩ := (readThrough_eq_ok (hopen.log _)).mp hread
  rw [wrap_log] at hbrings
  refine ⟨⟨t, body, msg, fits, decodes⟩, d.setWrap t.side (.ofLayer (layers t.side) s), rfl, rfl,
    (offers_iff h).mpr ⟨typeByte, d, s, htype, hselect, htrace, hopen, hbrings, rfl⟩, ?_⟩
  simp only [setWrap_log, log_log, Packet.events, Packet.bytes, Packet.side, htype,
    frameBytes_some, List.map_cons, List.cons_append, List.nil_append]

/-- An offered packet is read after its type byte has won the race. -/
theorem readThrough_of_offers (h : c.Open layers) {p : Packet} (ho : Offers c p c') :
    ∃ typeByte c₁, p.type.typeByteOpt = some typeByte ∧
      selectTypeByte c = (.ok (p.side, typeByte.toU8), c₁) ∧
      readThrough p.type c₁ = (.ok p.msg, c'.log (p.events layers)) := by
  obtain ⟨typeByte, d, s, htype, hselect, htrace, hopen, hbrings, rfl⟩ := (offers_iff h).mp ho
  refine ⟨typeByte, _, htype, hselect, (readThrough_eq_ok (hopen.log _)).mpr
    ⟨p.body, p.fits, p.decodes, s, by rwa [wrap_log], ?_⟩⟩
  simp only [setWrap_log, log_log, Packet.events, Packet.bytes, Packet.side, htype,
    frameBytes_some, List.map_cons, List.cons_append, List.nil_append]

/-- An authentication without a state to go to is an error after it has been conveyed. -/
theorem processBackendAuthentication_of_error {typeByte : TypeByte} {s : State}
    {a : Authentication} {e : ConveyError}
    (hread : readThrough (.backend .authentication) c = (.ok a, c'))
    (hafter : afterAuthentication typeByte a s = .error e) :
    processBackendAuthentication typeByte s c = (.error (.error e), c') := by
  rw [processBackendAuthentication, readBackendThrough, Proc.bind_of_ok hread]
  simp only [hafter, Proc.fail_apply]

/-- With open streams, a round of the main loop goes well exactly on an offered packet of a kind
that the automaton accepts, and it conveys this packet. -/
theorem loopBody_eq_ok (h : c.Open layers) {s : State} {next : Option State} :
    loopBody s c = (.ok next, c') ↔ ∃ p c₁, Offers c p c₁ ∧ accept s p.kind = some next ∧
      c' = c₁.log (p.events layers) := by
  simp only [loopBody, Proc.bind_eq_ok, Prod.exists, readTypeByteFromBoth_eq_ok]
  constructor
  · rintro ⟨side, typeByte, c₁, hselect, hrest⟩
    rcases harm : arm side typeByte s with _ | ⟨t, next'⟩ | _
    · -- the state is judged only after the message has been conveyed
      obtain ⟨rfl, rfl⟩ := arm_eq_authentication.mp harm
      simp only [harm, Proc.map_eq_ok, processBackendAuthentication, Proc.bind_eq_ok] at hrest
      obtain ⟨s', ⟨a, c₂, hread, hafter⟩, rfl⟩ := hrest
      rcases hnext : afterAuthentication .authentication a s with e | s₂
      · simp [hnext] at hafter
      obtain ⟨rfl, rfl⟩ : s₂ = s' ∧ c₂ = c' := by simpa [hnext] using hafter
      have htype : MsgType.typeByteOpt (.backend .authentication) = some .authentication := rfl
      obtain ⟨p, c₃, -, hmsg, ho, rfl⟩ := offers_of_readThrough h htype hselect hread
      refine ⟨p, c₃, ho, ?_, rfl⟩
      have hkind : p.kind = .authentication a.type := by rw [Packet.kind, hmsg]; rfl
      rw [hkind, accept_authentication, afterAuthentication_eq_ok.mp hnext, Option.map_some]
    -- an arm of the table: it reads a message of the type that the state decides
    · simp only [harm, Proc.bind_eq_ok] at hrest
      obtain ⟨msg, c₂, hread, hnext⟩ := hrest
      obtain ⟨rfl, rfl⟩ : next' = next ∧ c₂ = c' := by simpa using hnext
      obtain ⟨rfl, htype, hne⟩ := arm_through harm
      obtain ⟨p, c₃, rfl, hmsg, ho, rfl⟩ := offers_of_readThrough h htype hselect hread
      refine ⟨p, c₃, ho, (accept_eq_some ?_).mpr ⟨typeByte, ?_, ?_⟩, rfl⟩
      · rwa [p.kind_type]
      · rwa [p.kind_type]
      · rwa [p.kind_side, p.kind_type]
    · simp [harm] at hrest
  · rintro ⟨p, c₁, ho, haccept, rfl⟩
    obtain ⟨typeByte, c₂, htype, hselect, hread⟩ := readThrough_of_offers h ho
    refine ⟨p.side, typeByte, c₂, hselect, ?_⟩
    by_cases hauth : p.type = .backend .authentication
    · -- `accept` knows the sub-type of an authentication, `arm` does not
      rcases p with ⟨t, body, msg, fits, decodes⟩
      obtain rfl : t = .backend .authentication := hauth
      obtain rfl : TypeByte.authentication = typeByte := Option.some.inj htype
      have hkind : Packet.kind ⟨.backend .authentication, body, msg, fits, decodes⟩ =
        .authentication (Authentication.type msg) := rfl
      rw [hkind, accept_authentication] at haccept
      obtain ⟨s', hs', rfl⟩ := Option.map_eq_some_iff.mp haccept
      have hafter : afterAuthentication .authentication msg s = .ok s' :=
        afterAuthentication_eq_ok.mpr hs'
      simp only [Packet.side, MsgType.side, arm, Proc.map_eq_ok, processBackendAuthentication,
        Proc.bind_eq_ok]
      exact ⟨s', ⟨msg, _, hread, by simp [hafter]⟩, rfl⟩
    -- the table decides on the type, so that the packet has the one that its arm reads
    · rw [← p.kind_type] at hauth
      obtain ⟨typeByte', htype', harm⟩ := (accept_eq_some hauth).mp haccept
      rw [p.kind_type, htype] at htype'
      obtain rfl : typeByte = typeByte' := by simpa using htype'
      rw [p.kind_side, p.kind_type] at harm
      simp only [harm, Proc.bind_eq_ok]
      exact ⟨p.msg, _, hread, rfl⟩

/-- No more bytes than one frame with a type byte. -/
def WithinFrame (got : List UInt8) : Prop :=
  got = [] ∨ ∃ byte rest, got = byte :: rest ∧ WithinLength rest

/-- A halt that does not come from a switch to TLS and not from the model itself. -/
def Ordinary : Halt ConveyError → Prop
  | .error (.tlsError _) | .unreachable | .outOfFuel => False
  | _ => True

/-- Failing to read is nothing unusual. -/
theorem ordinary_of_isReadHalt {halt : Halt ConveyError} (h : IsReadHalt halt) : Ordinary halt := by
  rcases halt with (_ | _ | _ | _ | _ | _ | _ | _ | _) | _ | _ | _ | _ <;> trivial

/-- No authentication leads to an error of TLS. -/
theorem afterAuthentication_ordinary {typeByte : TypeByte} {authentication : Authentication}
    {s : State} {e : ConveyError} (h : afterAuthentication typeByte authentication s = .error e) :
    Ordinary (.error e) := by
  cases authentication
  all_goals cases s
  all_goals cases h
  all_goals trivial

/-- A round that fails has either stopped within the frame of one side, or it has conveyed an
authentication request that does not belong to the state. -/
theorem loopBody_eq_error (h : c.Open layers) {s : State} {halt : Halt ConveyError}
    (hbody : loopBody s c = (.error halt, c')) : Ordinary halt ∧
      ((∃ side got, WithinFrame got ∧
          c'.trace = c.trace ++ got.map (Event.took side (layers side))) ∨
        ∃ p c₁ e, Offers c p c₁ ∧ p.type = .backend .authentication ∧ accept s p.kind = none ∧
          halt = .error e ∧ c' = c₁.log (p.events layers)) := by
  simp only [loopBody, readTypeByteFromBoth, Proc.bind_eq_error, Proc.bind_eq_ok] at hbody
  rcases hbody with (hselect | ⟨⟨side, byte⟩, c₁, hselect, htry⟩) |
    ⟨⟨side, typeByte⟩, c₂, ⟨⟨side', byte⟩, c₁, hselect, htry⟩, hrest⟩
  · -- neither side brings a type byte
    obtain ⟨hhalt, htrace⟩ := selectTypeByte_eq_error h hselect
    exact ⟨ordinary_of_isReadHalt hhalt, .inl ⟨.backend, [], .inl rfl, by simp [htrace]⟩⟩
  · -- the byte is no type byte
    obtain ⟨d, rfl, htrace, -⟩ := exists_of_selectTypeByte h hselect
    rcases hbyte : TypeByte.tryFrom byte with _ | t
    · obtain ⟨rfl, rfl⟩ : Halt.error (.unknownType side byte) = halt ∧ _ = c' := by
        simpa [hbyte] using htry
      exact ⟨trivial, .inl ⟨side, [byte], .inr ⟨byte, [], rfl, .inl (Nat.zero_le _)⟩,
        by simp [htrace]⟩⟩
    · simp [hbyte] at htry
  obtain ⟨d, rfl, htrace, hopen, -⟩ := exists_of_selectTypeByte h hselect
  rcases hbyte : TypeByte.tryFrom byte with _ | t
  · simp [hbyte] at htry
  obtain ⟨⟨rfl, rfl⟩, rfl⟩ : (side' = side ∧ t = typeByte) ∧ _ = c₂ := by
    simpa [hbyte] using htry
  obtain rfl := TypeByte.tryFrom_eq_some.mp hbyte
  -- a message that cannot be read after its type byte
  have hfailed (t' : MsgType) (hside : t'.side = side') {c₃ : Conveyor} {halt' : Halt ConveyError}
      (hread : readThrough t' (d.log [.took side' (layers side') t.toU8]) = (.error halt', c₃)) :
      IsReadHalt halt' ∧ ∃ side got, WithinFrame got ∧
        c₃.trace = c.trace ++ got.map (Event.took side (layers side)) := by
    obtain ⟨hhalt, got, s', hwithin, -, rfl⟩ := readThrough_eq_error (hopen.log _) hread
    refine ⟨hhalt, side', t.toU8 :: got, .inr ⟨_, _, rfl, hwithin⟩, ?_⟩
    simp [htrace, hside]
  -- the arms are those of `loopBody_eq_ok`; the authentication can fail after its message was read
  rcases harm : arm side' t s with _ | ⟨t', next⟩ | _
  · obtain ⟨rfl, rfl⟩ := arm_eq_authentication.mp harm
    simp only [harm, Proc.map_eq_error, processBackendAuthentication, Proc.bind_eq_error] at hrest
    rcases hrest with hread | ⟨a, c₃, hread, hafter⟩
    · obtain ⟨hhalt, hleft⟩ := hfailed _ rfl hread
      exact ⟨ordinary_of_isReadHalt hhalt, .inl hleft⟩
    · rcases hnext : afterAuthentication .authentication a s with e | s₂
      · -- the message has been conveyed, and its state is not the one it asks for
        obtain ⟨rfl, rfl⟩ : Halt.error e = halt ∧ c₃ = c' := by simpa [hnext] using hafter
        have htype : MsgType.typeByteOpt (.backend .authentication) = some .authentication := rfl
        obtain ⟨p, c₄, htype', hmsg, ho, rfl⟩ := offers_of_readThrough h htype hselect hread
        refine ⟨afterAuthentication_ordinary hnext, .inr ⟨p, c₄, e, ho, htype', ?_, rfl, rfl⟩⟩
        have hkind : p.kind = .authentication a.type := by rw [Packet.kind, hmsg]; rfl
        rw [hkind, accept_authentication, Option.map_eq_none_iff, Option.eq_none_iff_forall_ne_some]
        intro s' hs'
        rw [afterAuthentication_eq_ok.mpr hs'] at hnext
        cases hnext
      · simp [hnext] at hafter
  · simp only [harm, Proc.bind_eq_error] at hrest
    rcases hrest with hread | ⟨msg, c₃, -, hnext⟩
    · obtain ⟨hhalt, hleft⟩ := hfailed _ (arm_through harm).1 hread
      exact ⟨ordinary_of_isReadHalt hhalt, .inl hleft⟩
    · cases hnext
  -- the type byte does not belong to the state, and nothing but it was taken
  · obtain ⟨rfl, rfl⟩ : Halt.error (.unexpectedType s side' t) = halt ∧ _ = c' := by
      simpa [harm] using hrest
    exact ⟨trivial, .inl ⟨side', [t.toU8], .inr ⟨_, [], rfl, .inl (Nat.zero_le _)⟩,
      by simp [htrace]⟩⟩

/-- An authentication request that does not belong to the state is conveyed all the same. -/
theorem loopBody_eq_error_of_authentication (h : c.Open layers) {s : State} {p : Packet}
    {c₁ : Conveyor} (ho : Offers c p c₁) (htype : p.type = .backend .authentication)
    (hnone : accept s p.kind = none) :
    ∃ e, loopBody s c = (.error (.error e), c₁.log (p.events layers)) := by
  obtain ⟨typeByte, c₂, hbyte, hselect, hread⟩ := readThrough_of_offers h ho
  rcases p with ⟨t, body, msg, fits, decodes⟩
  obtain rfl : t = .backend .authentication := htype
  obtain rfl : TypeByte.authentication = typeByte := Option.some.inj hbyte
  have hkind : Packet.kind ⟨.backend .authentication, body, msg, fits, decodes⟩ =
    .authentication (Authentication.type msg) := rfl
  rw [hkind, accept_authentication, Option.map_eq_none_iff] at hnone
  simp only [loopBody, Proc.bind_of_ok (readTypeByteFromBoth_eq_ok.mpr hselect)]
  rcases hafter : afterAuthentication .authentication msg s with e | s'
  · exact ⟨e, Proc.map_eq_error.mpr (processBackendAuthentication_of_error hread hafter)⟩
  · rw [afterAuthentication_eq_ok.mp hafter] at hnone
    cases hnone

/-- Where the type byte of an offered packet decides its type, a kind that the automaton does not
accept makes the round fail. -/
theorem loopBody_error_of_offers (h : c.Open layers) {s : State} {p : Packet} {c₁ : Conveyor}
    (ho : Offers c p c₁) (hnone : accept s p.kind = none)
    (hclear : ∀ typeByte t next, arm p.side typeByte s = .through t next →
      p.type.typeByteOpt = some typeByte → t = p.type) :
    ∃ e c', loopBody s c = (.error (.error e), c') := by
  by_cases hauth : p.type = .backend .authentication
  · obtain ⟨e, hbody⟩ := loopBody_eq_error_of_authentication h ho hauth hnone
    exact ⟨e, _, hbody⟩
  obtain ⟨typeByte, c₂, htype, hselect, hread⟩ := readThrough_of_offers h ho
  simp only [loopBody, Proc.bind_of_ok (readTypeByteFromBoth_eq_ok.mpr hselect)]
  -- a row that reads a message reads one of the packet's type, and then it would be accepted
  rcases harm : arm p.side typeByte s with _ | ⟨t, next⟩ | _
  · obtain ⟨hside, rfl⟩ := arm_eq_authentication.mp harm
    refine absurd ?_ hauth
    rcases p with ⟨⟨t⟩ | ⟨t⟩, body, msg, fits, decodes⟩
    · cases t <;> first | rfl | cases htype
    · cases hside
  · obtain rfl := hclear typeByte t next harm htype
    have hsome := (accept_eq_some (by rwa [p.kind_type])).mpr
      ⟨typeByte, by rwa [p.kind_type], by rwa [p.kind_side, p.kind_type]⟩
    rw [hnone] at hsome
    cases hsome
  · exact ⟨_, _, rfl⟩

end

end Postgread
