import Postgread.Convey.Automaton
import Postgread.Foundations.Automaton

/-!
# The table of all transitions

All states, all kinds and the transitions between them as lists, so that what is said about every
transition of the main loop can be checked by evaluation (`advance_cases`). Notices of the backend
never change the state; `arrivals_of_transitions` is about the automaton without them.
-/

namespace Postgread

/-- All forms of `Authentication`. -/
def AuthType.all : List AuthType :=
  [cleartextPassword, gss, gssContinue, kerberosV5, md5Password, ok, sasl, saslContinue, saslFinal,
    scmCredential, sspi]

/-- All types of the backend. -/
def BackendType.all : List BackendType :=
  [authentication, backendKeyData, bindComplete, commandComplete, dataRow, emptyQueryResponse,
    errorResponse, negotiateProtocolVersion, noticeResponse, parameterStatus, parseComplete,
    portalSuspended, readyForQuery, rowDescription]

/-- All types of the frontend. -/
def FrontendType.all : List FrontendType :=
  [bind, execute, gssResponse, initial, parse, password, query, saslInitialResponse, saslResponse,
    sync, terminate]

/-- The list is complete. -/
theorem BackendType.mem_all (t : BackendType) : t ∈ all := by
  cases t <;> decide

/-- The list is complete. -/
theorem FrontendType.mem_all (t : FrontendType) : t ∈ all := by
  cases t <;> decide

/-- All kinds of messages. -/
def Kind.all : List Kind :=
  AuthType.all.map authentication ++ BackendType.all.map backend ++ FrontendType.all.map frontend

/-- The list is complete. -/
theorem Kind.mem_all (k : Kind) : k ∈ Kind.all := by
  rcases k with t | t | t <;> cases t <;> decide

/-- The type byte of a message of the backend decides its type. -/
theorem BackendType.eq_of_typeByteOpt {t t' : BackendType}
    (h : (MsgType.backend t).typeByteOpt = (MsgType.backend t').typeByteOpt) : t = t' := by
  have hall : ∀ t ∈ all, ∀ t' ∈ all,
      (MsgType.backend t).typeByteOpt = (MsgType.backend t').typeByteOpt → t = t' := by decide
  exact hall t t.mem_all t' t'.mem_all h

namespace State

/-- All states of the main loop. -/
def all : List State :=
  [abortedExtendedQuery, abortedParsingOrBinding, abortedSimpleQuery, answeringToExtendedQuery,
    answeringToSimpleQuery, askedCleartextPassword, askedGssResponse, askedMd5Password,
    askedSaslInitialResponse, askedSaslResponse, authenticated, bound, completedExtendedQuery,
    completedSimpleCommand, executingExtendedQuery, finishedSasl, gotAnySaslResponse, gotBinding,
    gotCleartextPassword, gotGssResponse, gotMd5Password, gotPreparedStatement, gotSimpleQuery,
    gotStartup, gotSync, readyForQuery, seenEmptyExtendedQuery, seenEmptySimpleQuery,
    sentAllBackendParams, suspendedExtendedQuery]

/-- The list is complete. -/
theorem mem_all (s : State) : s ∈ all := by
  cases s <;> decide

/-- The transitions of a state. -/
def transitions (s : State) : List (Kind × State) :=
  Kind.all.filterMap fun k => (advance s k).map fun s' => (k, s')

/-- The table holds the transitions of `advance`. -/
theorem mem_transitions {s s' : State} {k : Kind} :
    (k, s') ∈ s.transitions ↔ advance s k = some s' := by
  simp only [transitions, List.mem_filterMap, Option.map_eq_some_iff, Prod.mk.injEq]
  constructor
  · rintro ⟨k', -, s'', h, rfl, rfl⟩
    exact h
  · exact fun h => ⟨k, k.mem_all, s', h, rfl, rfl⟩

/-- What holds of every transition in the table holds of every transition. -/
theorem advance_cases {P : State → Kind → State → Prop}
    (h : ∀ s ∈ all, ∀ t ∈ s.transitions, P s t.1 t.2) {s s' : State} {k : Kind}
    (hk : advance s k = some s') : P s k s' :=
  h s s.mem_all (k, s') (mem_transitions.mpr hk)

/-- States that only one kind of message can leave. -/
theorem mem_of_advanceAll {ss : List State} {k₀ : Kind}
    (hclosed : ∀ s ∈ all, ∀ t ∈ s.transitions, t.1 ≠ k₀ → s ∈ ss → t.2 ∈ ss) {s₀ s : State}
    {ks : List Kind} (hs₀ : s₀ ∈ ss) (h : advanceAll s₀ ks = some s) (hks : k₀ ∉ ks) : s ∈ ss := by
  refine @advanceAll_induction (fun ks s => k₀ ∉ ks → s ∈ ss) _ _ _ (fun _ => hs₀)
    (fun ks s k s' ih hk hmem => ?_) h hks
  obtain ⟨hks, hne⟩ : k₀ ∉ ks ∧ k₀ ≠ k := by simpa using hmem
  exact @advance_cases (fun s k s' => k ≠ k₀ → s ∈ ss → s' ∈ ss) hclosed _ _ _ hk (Ne.symm hne)
    (ih hks)

/-- States that can only be left for a target, on the way to its first visit. -/
theorem mem_or_eq_of_advanceAll {ss : List State} {target : State}
    (hclosed : ∀ s ∈ ss, ∀ t ∈ s.transitions, t.2 ∈ ss ∨ t.2 = target) {s s' : State}
    {ks : List Kind} (hs : s ∈ ss) (h : advanceAll s ks = some s')
    (hfirst : ∀ u, u <+: ks → u ≠ ks → advanceAll s u ≠ some target) : s' ∈ ss ∨ s' = target := by
  induction ks generalizing s with
  | nil =>
    obtain rfl : s = s' := Option.some.inj h
    exact .inl hs
  | cons k ks ih =>
    rw [advanceAll_cons] at h
    obtain ⟨s₁, hk, h⟩ := Option.bind_eq_some_iff.mp h
    have hnext (u : List Kind) : advanceAll s (k :: u) = advanceAll s₁ u := by
      rw [advanceAll_cons, hk, Option.bind_some]
    -- the first message stays among the states, or arrives at the target
    rcases hclosed s hs (k, s₁) (mem_transitions.mpr hk) with hs₁ | rfl
    · refine ih hs₁ h fun u hu hne => ?_
      rw [← hnext]
      exact hfirst (k :: u) (List.cons_prefix_cons.mpr ⟨rfl, hu⟩) (by simpa using hne)
    · by_cases hks : ks = []
      · subst hks
        exact .inr (Option.some.inj h).symm
      · exact absurd (hnext []) (hfirst [k] (by simp) (by simpa using Ne.symm hks))

/-- Where `ReadyForQuery` is accepted it leads to the state of its name. -/
theorem accept_readyForQuery (s : State) : accept s (.backend .readyForQuery) = none ∨
    advance s (.backend .readyForQuery) = some .readyForQuery :=
  have h : ∀ s ∈ all, accept s (.backend .readyForQuery) = none ∨
    advance s (.backend .readyForQuery) = some .readyForQuery := by decide
  h s s.mem_all

end State

/-! ## Notices -/

/-- The backend may send a notice at any time. -/
def Kind.isNotice (k : Kind) : Bool := k = .backend .noticeResponse

/-- A word without its notices. -/
def eraseNotices (ks : List Kind) : List Kind := ks.filter (! Kind.isNotice ·)

/-- A notice leaves the state as it is. -/
theorem advance_of_isNotice (s : State) (k : Kind) (h : k.isNotice) : advance s k = some s := by
  obtain rfl : k = .backend .noticeResponse := by simpa [Kind.isNotice] using h
  cases s <;> rfl

/-- The main loop as an automaton that gets no notices. -/
abbrev advanceQuiet : State → Kind → Option State := without Kind.isNotice advance

/-- The transitions of a state that are not notices. -/
def State.quietTransitions (s : State) : List (Kind × State) :=
  s.transitions.filter fun t => ! t.1.isNotice

/-- The table without notices holds the transitions of the automaton without them. -/
theorem State.mem_quietTransitions {s s' : State} {k : Kind} :
    advanceQuiet s k = some s' ↔ (k, s') ∈ s.quietTransitions := by
  rw [quietTransitions, List.mem_filter, mem_transitions, advanceQuiet, without]
  rcases k.isNotice with _ | _ <;> simp

/-- The equation of a state whose transitions are known. -/
theorem arrivals_of_transitions {s target : State} (hs : s ≠ target) {ts : List (Kind × State)}
    (hts : s.quietTransitions = ts) :
    arrivals advanceQuiet target s =
      (ts.map fun t => letter t.1 * arrivals advanceQuiet target t.2).sum :=
  arrivals_eq_sum hs fun _ _ => by rw [State.mem_quietTransitions, hts]

end Postgread
