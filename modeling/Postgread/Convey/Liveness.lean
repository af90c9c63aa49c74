import Postgread.Convey.Timing
import Postgread.Convey.Wire

/-!
# Which states are live

`behind` leads from the start-up to a state and `ahead` from there to `State::ReadyForQuery`. There
is a packet of every kind, so both can be turned into runs: `go_live` says that every state but one
is reached, in front of any packet, and that no run ever gets to a point from which the session
cannot be brought to a regular end.
-/

namespace Postgread

open Body Conveyor Event

/-! ## A message of every kind -/

/-- A message of the sub-type that holds as little as possible. -/
def AuthType.least : AuthType → Authentication
  | cleartextPassword => .cleartextPassword
  | gss => .gss
  | gssContinue => .gssContinue []
  | kerberosV5 => .kerberosV5
  | md5Password => .md5Password (Vector.replicate 4 0)
  | ok => .ok
  | sasl => .sasl []
  | saslContinue => .saslContinue []
  | saslFinal => .saslFinal []
  | scmCredential => .scmCredential
  | sspi => .sspi

/-- A message of the type that holds as little as possible. -/
def BackendType.least : BackendType → BackendMsg
  | authentication => .authentication .ok
  | backendKeyData => .backendKeyData ⟨0, 0⟩
  | bindComplete => .bindComplete {}
  | commandComplete => .commandComplete ⟨[]⟩
  | dataRow => .dataRow ⟨[]⟩
  | emptyQueryResponse => .emptyQueryResponse {}
  | errorResponse => .errorResponse ⟨.default⟩
  | negotiateProtocolVersion => .negotiateProtocolVersion ⟨0, []⟩
  | noticeResponse => .noticeResponse ⟨.default⟩
  | parameterStatus => .parameterStatus ⟨[], []⟩
  | parseComplete => .parseComplete {}
  | portalSuspended => .portalSuspended {}
  | readyForQuery => .readyForQuery ⟨.idle⟩
  | rowDescription => .rowDescription ⟨[]⟩

/-- A message of the type that holds as little as possible. -/
def FrontendType.least : FrontendType → FrontendMsg
  | bind => .bind ⟨⟨[]⟩, ⟨[]⟩, [], [], []⟩
  | execute => .execute ⟨⟨[]⟩, 0⟩
  | gssResponse => .gssResponse ⟨[]⟩
  | initial => .initial .tls
  | parse => .parse ⟨⟨[]⟩, ⟨[]⟩, []⟩
  | password => .password ⟨[]⟩
  | query => .query ⟨[]⟩
  | saslInitialResponse => .saslInitialResponse ⟨[], none⟩
  | saslResponse => .saslResponse ⟨[]⟩
  | sync => .sync {}
  | terminate => .terminate {}

/-- A message of the kind. -/
def Kind.least : Kind → Message
  | authentication t => .backend (.authentication t.least)
  | backend t => .backend t.least
  | frontend t => .frontend t.least

/-- An authentication has a sub-type, so its type alone is not the kind of a message. -/
theorem Kind.kind_least {k : Kind} (hk : k ≠ .backend .authentication) : k.least.kind = k := by
  rcases k with t | t | t
  · cases t <;> rfl
  · cases t with
    | authentication => exact absurd rfl hk
    | _ => rfl
  · cases t <;> rfl

/-- The least message is well formed: its strings and lists are empty. -/
theorem Kind.wellFormed_least (k : Kind) : k.least.WellFormed := by
  have hfields : (ErrorOrNoticeFields.default).WellFormed := by
    intro name value hvalue
    rw [ErrorOrNoticeFields.get_default] at hvalue
    cases hvalue
  rcases k with t | t | t
  · cases t with
    | sasl => exact fun mechanism hmem => absurd hmem List.not_mem_nil
    | _ => trivial
  · cases t with
    | commandComplete => exact List.not_mem_nil
    | dataRow => exact ⟨by decide, fun _ hmem => absurd hmem List.not_mem_nil⟩
    | errorResponse => exact hfields
    | negotiateProtocolVersion => exact ⟨by decide, fun _ hmem => absurd hmem List.not_mem_nil⟩
    | noticeResponse => exact hfields
    | parameterStatus => exact ⟨List.not_mem_nil, List.not_mem_nil⟩
    | rowDescription => exact ⟨by decide, fun _ hmem => absurd hmem List.not_mem_nil⟩
    | _ => trivial
  · cases t with
    | bind => exact (by decide : Bind.WellFormed ⟨⟨[]⟩, ⟨[]⟩, [], [], []⟩)
    | execute => exact List.not_mem_nil
    | parse => exact ⟨List.not_mem_nil, List.not_mem_nil, by decide⟩
    | password => exact List.not_mem_nil
    | query => exact List.not_mem_nil
    | saslInitialResponse => exact ⟨List.not_mem_nil, fun _ hmem => by cases hmem⟩
    | _ => trivial

/-- The least message fits into a frame. -/
theorem Kind.fits_least (k : Kind) : Fits k.least.type.Body k.least.encode := by
  rcases k with t | t | t <;> cases t <;> decide

/-- There is a packet of every kind. -/
theorem Kind.exists_packet {k : Kind} (hk : k ≠ .backend .authentication) :
    ∃ p : Packet, p.kind = k := by
  obtain ⟨p, hp⟩ := (exists_packet_iff k.least).mpr ⟨k.wellFormed_least, k.fits_least⟩
  exact ⟨p, by rw [Packet.kind, hp, Kind.kind_least hk]⟩

/-- An authentication request without its sub-type is not accepted. -/
theorem ne_of_accept {s : State} {k : Kind} {next : Option State} (h : accept s k = some next) :
    k ≠ .backend .authentication := by
  rintro rfl
  exact Option.some_ne_none _ h.symm

/-! ## Ways through the table -/

namespace State

open AuthType

/-- The shortest start-up. -/
def shortStartup : List Kind :=
  [.authentication .ok, .backend .backendKeyData, .backend .readyForQuery]

/-- A word that leads from the start-up to the state. -/
def behind : State → List Kind
  | abortedExtendedQuery => shortStartup ++ [.frontend .execute, .backend .errorResponse]
  | abortedParsingOrBinding => shortStartup ++ [.frontend .parse, .backend .errorResponse]
  | abortedSimpleQuery => shortStartup ++ [.frontend .query, .backend .errorResponse]
  | answeringToExtendedQuery => shortStartup ++ [.frontend .execute, .backend .dataRow]
  | answeringToSimpleQuery => shortStartup ++ [.frontend .query, .backend .rowDescription]
  | askedCleartextPassword => [.authentication cleartextPassword]
  | askedGssResponse => [.authentication gss]
  | askedMd5Password => [.authentication md5Password]
  | askedSaslInitialResponse => [.authentication sasl]
  | askedSaslResponse =>
    [.authentication sasl, .frontend .saslInitialResponse, .authentication saslContinue]
  | authenticated => [.authentication ok]
  | completedExtendedQuery => shortStartup ++ [.frontend .execute, .backend .commandComplete]
  | completedSimpleCommand => shortStartup ++ [.frontend .query, .backend .commandComplete]
  | executingExtendedQuery => shortStartup ++ [.frontend .execute]
  | finishedSasl =>
    [.authentication sasl, .frontend .saslInitialResponse, .authentication saslFinal]
  | gotAnySaslResponse => [.authentication sasl, .frontend .saslInitialResponse]
  | gotBinding => shortStartup ++ [.frontend .bind]
  | gotCleartextPassword => [.authentication cleartextPassword, .frontend .password]
  | gotGssResponse => [.authentication gss, .frontend .gssResponse]
  | gotMd5Password => [.authentication md5Password, .frontend .password]
  | gotPreparedStatement => shortStartup ++ [.frontend .parse]
  | gotSimpleQuery => shortStartup ++ [.frontend .query]
  | gotSync =>
    shortStartup ++ [.frontend .execute, .backend .commandComplete, .frontend .sync]
  | readyForQuery => shortStartup
  | seenEmptyExtendedQuery => shortStartup ++ [.frontend .execute, .backend .emptyQueryResponse]
  | seenEmptySimpleQuery => shortStartup ++ [.frontend .query, .backend .emptyQueryResponse]
  | sentAllBackendParams => [.authentication ok, .backend .backendKeyData]
  | suspendedExtendedQuery =>
    shortStartup ++ [.frontend .execute, .backend .dataRow, .backend .portalSuspended]
  | bound => []
  | gotStartup => []

/-- A shortest word that leads from the state to `State::ReadyForQuery`. -/
def ahead : State → List Kind
  | abortedExtendedQuery => [.frontend .sync, .backend .readyForQuery]
  | abortedParsingOrBinding => [.backend .readyForQuery]
  | abortedSimpleQuery => [.backend .readyForQuery]
  | answeringToExtendedQuery =>
    [.backend .commandComplete, .frontend .sync, .backend .readyForQuery]
  | answeringToSimpleQuery => [.backend .commandComplete, .backend .readyForQuery]
  | askedCleartextPassword => .frontend .password :: shortStartup
  | askedGssResponse => .frontend .gssResponse :: shortStartup
  | askedMd5Password => .frontend .password :: shortStartup
  | askedSaslInitialResponse =>
    .frontend .saslInitialResponse :: .authentication saslFinal :: shortStartup
  | askedSaslResponse => .frontend .saslResponse :: .authentication saslFinal :: shortStartup
  | authenticated => [.backend .backendKeyData, .backend .readyForQuery]
  | completedExtendedQuery => [.frontend .sync, .backend .readyForQuery]
  | completedSimpleCommand => [.backend .readyForQuery]
  | executingExtendedQuery =>
    [.backend .commandComplete, .frontend .sync, .backend .readyForQuery]
  | gotAnySaslResponse => .authentication saslFinal :: shortStartup
  | gotBinding => [.backend .bindComplete]
  | gotPreparedStatement => [.backend .parseComplete]
  | gotSimpleQuery => [.backend .commandComplete, .backend .readyForQuery]
  | gotSync => [.backend .readyForQuery]
  | seenEmptyExtendedQuery => [.frontend .sync, .backend .readyForQuery]
  | seenEmptySimpleQuery => [.backend .readyForQuery]
  | sentAllBackendParams => [.backend .readyForQuery]
  | suspendedExtendedQuery => [.frontend .sync, .backend .readyForQuery]
  | finishedSasl | gotCleartextPassword | gotGssResponse | gotMd5Password | gotStartup =>
    shortStartup
  | readyForQuery | bound => []

/-- The word behind a state leads to it. -/
theorem advanceAll_behind {s : State} (hs : s ≠ bound) :
    advanceAll .gotStartup s.behind = some s := by
  -- the table is checked state by state
  have hall : ∀ s ∈ all, s ≠ bound → advanceAll .gotStartup s.behind = some s := by decide +kernel
  exact hall s s.mem_all hs

/-- No transition leads to the state that the source never mentions again. -/
theorem ne_bound_of_advanceAll {s : State} {w : List Kind}
    (h : advanceAll .gotStartup w = some s) : s ≠ bound := by
  refine @advanceAll_induction (fun _ s => s ≠ bound) _ _ _ (by decide) (fun _ _ _ _ hs hk => ?_) h
  exact @advance_cases (fun s _ s' => s ≠ bound → s' ≠ bound) (by decide +kernel) _ _ _ hk hs

/-- The word ahead of a state leads to `State::ReadyForQuery` in at most five messages. -/
theorem advanceAll_ahead {s : State} (hs : s ≠ bound) :
    advanceAll s s.ahead = some .readyForQuery ∧ s.ahead.length ≤ 5 := by
  have hall : ∀ s ∈ all, s ≠ bound → advanceAll s s.ahead = some .readyForQuery ∧
      s.ahead.length ≤ 5 := by decide +kernel
  exact hall s s.mem_all hs

end State

/-- Only the initial packet has no type byte. -/
theorem exists_typeByte_of_ne {t : MsgType} (ht : t ≠ .frontend .initial) :
    ∃ typeByte, t.typeByteOpt = some typeByte := by
  rcases t with t | t
  · cases t <;> exact ⟨_, rfl⟩
  · cases t with
    | initial => exact absurd rfl ht
    | _ => exact ⟨_, rfl⟩

/-- From `State::ReadyForQuery` a session can be terminated. -/
theorem completes_terminate : Completes .readyForQuery [.frontend .terminate] := .last rfl

/-! ## Words that become runs -/

/-- There are packets for every word that the automaton reads. -/
theorem exists_packets_of_advanceAll {s s' : State} {w : List Kind}
    (h : advanceAll s w = some s') : ∃ ps : List Packet, ps.map Packet.kind = w := by
  induction w generalizing s with
  | nil => exact ⟨[], rfl⟩
  | cons k w ih =>
    rw [advanceAll_cons] at h
    obtain ⟨s₁, hk, h⟩ := Option.bind_eq_some_iff.mp h
    obtain ⟨p, hp⟩ := Kind.exists_packet (ne_of_accept (advance_eq_some.mp hk))
    obtain ⟨ps, hps⟩ := ih h
    exact ⟨p :: ps, by rw [List.map_cons, hp, hps]⟩

/-- There are packets for every word that completes the session. -/
theorem exists_packets_of_completes {s : State} {w : List Kind} (h : Completes s w) :
    ∃ ps : List Packet, ps.map Packet.kind = w ∧
      ∀ p ∈ ps, ∃ typeByte, p.type.typeByteOpt = some typeByte := by
  have hpacket {s : State} {k : Kind} {next : Option State} (hk : accept s k = some next) :
      ∃ p : Packet, p.kind = k ∧ ∃ typeByte, p.type.typeByteOpt = some typeByte := by
    obtain ⟨p, rfl⟩ := Kind.exists_packet (ne_of_accept hk)
    obtain ⟨typeByte, htype⟩ := exists_typeByte_of_accept hk
    exact ⟨p, rfl, typeByte, by rwa [p.kind_type] at htype⟩
  induction h with
  | last hk =>
    obtain ⟨p, rfl, htype⟩ := hpacket hk
    exact ⟨[p], rfl, by simpa using htype⟩
  | next hk _ ih =>
    obtain ⟨p, rfl, htype⟩ := hpacket (advance_eq_some.mp hk)
    obtain ⟨ps, rfl, htypes⟩ := ih
    exact ⟨p :: ps, rfl, List.forall_mem_cons.mpr ⟨htype, htypes⟩⟩

/-- Every word that completes the session is the history of a run. -/
theorem exists_go_of_completes {w : List Kind} (h : Completes .gotStartup w)
    (frontendTlsServer backendTlsClient : TlsProvider) (overflowChecks : Bool) :
    ∃ frontend backend,
      let run := go (new frontend backend frontendTlsServer backendTlsClient overflowChecks)
      run.1 = .ok ⟨⟩ ∧ run.2.history = w ∧ ∃ msg ∈ callbacks run.2.trace, msg.isStartup := by
  obtain ⟨ps, rfl, htypes⟩ := exists_packets_of_completes h
  have hstartup : Packet.startup.IsStartup := ⟨_, rfl⟩
  obtain ⟨c, c', hreach, htrace, harrives, -⟩ := exists_arrives_arranged hstartup htypes
    frontendTlsServer backendTlsClient overflowChecks
  have hfresh := fresh_new (readyBytes Packet.startup.bytes ++ arranged .frontend ps)
    (arranged .backend ps) frontendTlsServer backendTlsClient overflowChecks
  obtain ⟨hok, hconveyed⟩ := go_of_completes hfresh hreach harrives h
  have hcallbacks := hconveyed.callbacks_eq
  rw [htrace, Packet.callbacks_events] at hcallbacks
  refine ⟨_, _, hok, ?_, Packet.startup.message, ?_, Packet.isStartup_message.mpr hstartup⟩
  · rw [history]
    refine (congrArg afterStartup hcallbacks).trans ?_
    rw [List.singleton_append, afterStartup, if_pos (Packet.isStartup_message.mpr hstartup),
      List.map_map]
    rfl
  · refine hcallbacks ▸ ?_
    simp

/-- There is a run to every state but one, with any packet after it. -/
theorem exists_reaches_offers {s : State} (hs : s ≠ .bound) {p : Packet}
    (hp : p.type ≠ .frontend .initial) (frontendTlsServer backendTlsClient : TlsProvider)
    (overflowChecks : Bool) : ∃ frontend backend c c',
      Reaches step (.initial, new frontend backend frontendTlsServer backendTlsClient
        overflowChecks) (.looping s, c) ∧ Offers c p c' := by
  have hbehind := State.advanceAll_behind hs
  obtain ⟨ps, hps⟩ := exists_packets_of_advanceAll hbehind
  have hadvance : advanceAll .gotStartup (ps.map Packet.kind) = some s := by rw [hps, hbehind]
  have htypes : ∀ q ∈ ps ++ [p], ∃ typeByte, q.type.typeByteOpt = some typeByte := by
    intro q hq
    rcases List.mem_append.mp hq with hq | hq
    · exact exists_typeByte_of_advanceAll hadvance q hq
    · obtain rfl := List.mem_singleton.mp hq
      exact exists_typeByte_of_ne hp
  obtain ⟨c, c', hreach, -, harrives, -⟩ := exists_arrives_arranged
    (⟨_, rfl⟩ : Packet.startup.IsStartup) htypes frontendTlsServer backendTlsClient overflowChecks
  -- the last packet is the one that is offered in the state
  obtain ⟨c₁, hps, hlast⟩ := arrives_append harrives
  obtain ⟨σ, -, -, -, -, -, hopen, -⟩ := session_of_reaches (fresh_new _ _ _ _ _) hreach
  cases hlast with
  | cons ho _ => exact ⟨_, _, _, _, hreach.trans (reaches_of_arrives hopen hps hadvance), ho.log _⟩

/-- The states of the main loop are all reached, but for one. Before a run goes on from a state, any
packet can be what comes next. From every point that a run reaches, at most five messages lead to
`State::ReadyForQuery`, where `Terminate` ends the session: the history goes on to that of a run that
succeeds. -/
theorem go_live :
    (∀ s, (∃ frontend backend frontendTlsServer backendTlsClient overflowChecks c,
      Reaches step (.initial, new frontend backend frontendTlsServer backendTlsClient
        overflowChecks) (.looping s, c)) ↔ s ≠ .bound) ∧
    (∀ s, s ≠ .bound → ∀ p : Packet, p.type ≠ .frontend .initial →
      ∀ frontendTlsServer backendTlsClient overflowChecks, ∃ frontend backend c c',
        Reaches step (.initial, new frontend backend frontendTlsServer backendTlsClient
          overflowChecks) (.looping s, c) ∧ Offers c p c') ∧
    ∀ frontend backend frontendTlsServer backendTlsClient overflowChecks s c,
      Reaches step (.initial, new frontend backend frontendTlsServer backendTlsClient
        overflowChecks) (.looping s, c) →
      ∃ w, w.length ≤ 5 ∧ advanceAll s w = some .readyForQuery ∧ ∃ frontend' backend',
        let run := go (new frontend' backend' frontendTlsServer backendTlsClient overflowChecks)
        run.1 = .ok ⟨⟩ ∧ run.2.history = c.history ++ w ++ [.frontend .terminate] := by
  refine ⟨fun s => ⟨?_, fun hs => ?_⟩, fun s hs p hp frontendTlsServer backendTlsClient checks =>
    exists_reaches_offers hs hp frontendTlsServer backendTlsClient checks, ?_⟩
  · rintro ⟨frontend, backend, frontendTlsServer, backendTlsClient, overflowChecks, c, hreach⟩
    exact State.ne_bound_of_advanceAll (advanceAll_history (fresh_new _ _ _ _ _) hreach)
  · obtain ⟨frontend, backend, c, -, hreach, -⟩ :=
      @exists_reaches_offers s hs Packet.terminate (by decide) .ok .ok true
    exact ⟨frontend, backend, _, _, _, c, hreach⟩
  · intro frontend backend frontendTlsServer backendTlsClient overflowChecks s c hreach
    have hhistory := advanceAll_history (fresh_new _ _ _ _ _) hreach
    obtain ⟨hahead, hlen⟩ := State.advanceAll_ahead (State.ne_bound_of_advanceAll hhistory)
    have hcompletes : Completes .gotStartup (c.history ++ s.ahead ++ [.frontend .terminate]) := by
      rw [List.append_assoc]
      exact completes_of_advanceAll hhistory (completes_of_advanceAll hahead completes_terminate)
    obtain ⟨frontend', backend', hok, hrun, -⟩ :=
      exists_go_of_completes hcompletes frontendTlsServer backendTlsClient overflowChecks
    exact ⟨s.ahead, hlen, hahead, frontend', backend', hok, hrun⟩

/-! ## Messages that are reported -/

/-- Whatever a step of a run does stays in the trace of the run. -/
theorem exists_trace_of_step {c₀ c : Conveyor} (h : c₀.Fresh) {x : Phase × Conveyor}
    (hreach : Reaches step (.initial, c₀) x) {r : Except (Halt ConveyError) (Option Phase)}
    (hstep : step x.1 x.2 = (r, c)) : ∃ post, (go c₀).2.trace = c.trace ++ post := by
  -- an entry that ends the run is its last one; else the run goes on from the next phase
  have hends := go_ends h.at_initial
  rcases r with halt | _ | ph
  · exact ⟨[], by rw [(hends.unique (.of_reaches hreach (.halt hstep))).2, List.append_nil]⟩
  · exact ⟨[], by rw [(hends.unique (.of_reaches hreach (.done hstep))).2, List.append_nil]⟩
  · have hnext : Reaches step (.initial, c₀) (ph, c) := hreach.tail hstep
    obtain ⟨σ, -, hat, -⟩ := reaches_inv h hnext
    exact exists_trace_of_ends (hends.drop hnext) hat

/-- The kinds that are accepted in some state that is reached. -/
theorem exists_accept {k : Kind} (hinitial : k.type ≠ .frontend .initial)
    (hauthentication : k.type ≠ .backend .authentication) :
    ∃ s next, s ≠ .bound ∧ accept s k = some next := by
  have hall : ∀ k ∈ Kind.all, k.type ≠ .frontend .initial → k.type ≠ .backend .authentication →
      ∃ s ∈ State.all, s ≠ .bound ∧ (accept s k).isSome := by decide +kernel
  obtain ⟨s, -, hs, haccept⟩ := hall k k.mem_all hinitial hauthentication
  obtain ⟨next, hnext⟩ := Option.isSome_iff_exists.mp haccept
  exact ⟨s, next, hs, hnext⟩

/-- Some run reports the packet. -/
def Packet.Reported (p : Packet) : Prop :=
  ∃ frontend backend, p.message ∈ callbacks (go (new frontend backend .ok .ok true)).2.trace

section

variable {p : Packet}

/-- A packet whose events a step of some run logs is reported. -/
theorem Packet.reported_of_step {frontend backend : Stream} {x : Phase × Conveyor} {c : Conveyor}
    {layers : Side → Layer} {r : Except (Halt ConveyError) (Option Phase)}
    (hreach : Reaches step (.initial, new frontend backend .ok .ok true) x)
    (hstep : step x.1 x.2 = (r, c.log (p.events layers))) : p.Reported := by
  obtain ⟨post, hpost⟩ := exists_trace_of_step (fresh_new _ _ _ _ _) hreach hstep
  refine ⟨frontend, backend, ?_⟩
  rw [hpost, trace_log]
  simp

/-- A packet without a type byte comes first. -/
theorem Packet.reported_of_initial (hinitial : p.type = .frontend .initial) : p.Reported := by
  obtain ⟨i, hi⟩ : ∃ i, p.message = .frontend (.initial i) := by
    rcases p with ⟨t, body, msg, fits, decodes⟩
    obtain rfl : t = .frontend .initial := hinitial
    exact ⟨msg, rfl⟩
  have hfresh := fresh_new (readyBytes p.bytes ++ []) [] .ok .ok true
  have hread := readInitial_of_brings hfresh.isOpen hi (brings_readyBytes p.bytes [])
  rcases i with cancel | _ | startup
  all_goals exact reported_of_step .refl (Proc.bind_of_ok hread)

/-- A round of the main loop that conveys the packet reports it, accepted or not. -/
theorem Packet.reported_of_loopBody (hinitial : p.type ≠ .frontend .initial) {s : State}
    (hs : s ≠ .bound)
    (hbody : ∀ (c c' : Conveyor) (layers : Side → Layer), c.Open layers → Offers c p c' →
      ∃ r, loopBody s c = (r, c'.log (p.events layers))) : p.Reported := by
  obtain ⟨frontend, backend, c, c', hreach, ho⟩ := exists_reaches_offers hs hinitial .ok .ok true
  obtain ⟨σ, -, -, -, -, -, hopen, -⟩ := session_of_reaches (fresh_new _ _ _ _ _) hreach
  obtain ⟨r | next, hbody⟩ := hbody c c' σ.layers hopen ho
  · exact reported_of_step hreach (Proc.map_eq_error.mpr hbody)
  · exact reported_of_step hreach (Proc.map_eq_ok.mpr ⟨next, hbody, rfl⟩)

/-- A packet that is accepted in some state is reported. -/
theorem Packet.reported_of_accept (hinitial : p.type ≠ .frontend .initial) {s : State}
    (hs : s ≠ .bound) {next : Option State} (haccept : accept s p.kind = some next) : p.Reported :=
  reported_of_loopBody hinitial hs fun _ c' _ hopen ho =>
    ⟨_, (loopBody_eq_ok hopen).mpr ⟨p, c', ho, haccept, rfl⟩⟩

end

/-- Every packet is reported in some run. -/
theorem Packet.reported (p : Packet) : p.Reported := by
  by_cases hinitial : p.type = .frontend .initial
  · exact reported_of_initial hinitial
  by_cases hauthentication : p.type = .backend .authentication
  · -- a request that does not belong to the state is reported, too
    rcases haccept : accept .gotStartup p.kind with _ | next
    · refine @reported_of_loopBody p hinitial .gotStartup (by decide) fun c c' layers hopen ho => ?_
      obtain ⟨e, hbody⟩ := loopBody_eq_error_of_authentication hopen ho hauthentication haccept
      exact ⟨_, hbody⟩
    · exact @reported_of_accept p hinitial .gotStartup (by decide) _ haccept
  · obtain ⟨s, next, hs, haccept⟩ :=
      @exists_accept p.kind (by rwa [p.kind_type]) (by rwa [p.kind_type])
    exact reported_of_accept hinitial hs haccept

/-- The messages that the callback can ever get are the well formed ones whose canonical frame fits
into 32 bits. -/
theorem reported_iff (msg : Message) :
    (∃ frontend backend frontendTlsServer backendTlsClient overflowChecks, msg ∈ callbacks
      (go (new frontend backend frontendTlsServer backendTlsClient overflowChecks)).2.trace) ↔
      msg.WellFormed ∧ Fits msg.type.Body msg.encode := by
  rw [← exists_packet_iff]
  constructor
  · rintro ⟨frontend, backend, frontendTlsServer, backendTlsClient, overflowChecks, hmsg⟩
    have hfresh := fresh_new frontend backend frontendTlsServer backendTlsClient overflowChecks
    obtain ⟨r, c, hgo⟩ : ∃ r c, go (new frontend backend frontendTlsServer backendTlsClient
      overflowChecks) = (r, c) := ⟨_, _, rfl⟩
    obtain ⟨σ, tail, htrace, -, htail, -⟩ := go_session hfresh hgo
    rw [hgo, htrace, callbacks_append, (callbacks_of_tail htail).1, List.append_nil,
      σ.callbacks_events] at hmsg
    obtain ⟨p, -, hp⟩ := List.mem_map.mp hmsg
    exact ⟨p, hp⟩
  · rintro ⟨p, rfl⟩
    obtain ⟨frontend, backend, hmsg⟩ := p.reported
    exact ⟨frontend, backend, _, _, _, hmsg⟩

end Postgread
