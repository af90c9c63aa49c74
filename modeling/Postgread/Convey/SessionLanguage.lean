import Postgread.Convey.ExecuteLanguage
import Postgread.Convey.Liveness

/-!
# The language of a session

`session` is what a frontend and a backend say from the start-up packet to the end of a session that
the proxy ends without an error, without notices: a start-up, any number of cycles, and one of the
ways in which a session ends. `completes_iff_session` derives it from the table of the main loop,
`go_sessions` says that the histories of the runs that succeed are exactly its words.
-/

open scoped Computability

namespace Postgread

open Body Conveyor Event

/-! ## Words that complete a session -/

/-- The words that complete the session from a state, without notices. -/
def completions (s : State) : Language Kind := {w | Completes s w ∧ ∀ k ∈ w, ¬ k.isNotice}

/-- What comes after a message: nothing if the session is over. -/
def completionsAfter : Option State → Language Kind
  | none => 1
  | some s => completions s

/-- What the main loop takes in a state but for notices, with what comes after it. -/
def State.acceptances (s : State) : List (Kind × Option State) :=
  (Kind.all.filter (! Kind.isNotice ·)).filterMap fun k =>
    (accept s k).map fun next => (k, next)

/-- The list holds what `accept` takes and is not a notice. -/
theorem State.mem_acceptances {s : State} {k : Kind} {next : Option State} :
    (k, next) ∈ s.acceptances ↔ accept s k = some next ∧ ¬ k.isNotice := by
  simp only [acceptances, List.mem_filterMap, List.mem_filter, Option.map_eq_some_iff,
    Prod.mk.injEq]
  constructor
  · rintro ⟨k', ⟨-, hk⟩, next', h, rfl, rfl⟩
    exact ⟨h, by simpa using hk⟩
  · rintro ⟨h, hk⟩
    exact ⟨k, ⟨k.mem_all, by simpa using hk⟩, next, h, rfl, rfl⟩

/-- A word that completes the session begins with a message that the state takes. -/
theorem cons_mem_completions {s : State} {k : Kind} {w : List Kind} : k :: w ∈ completions s ↔
    ¬ k.isNotice ∧ ∃ next, accept s k = some next ∧ w ∈ completionsAfter next := by
  constructor
  · rintro ⟨hw, hnotices⟩
    obtain ⟨hk, hnotices⟩ := List.forall_mem_cons.mp hnotices
    refine ⟨hk, ?_⟩
    cases hw with
    | last h => exact ⟨none, h, Language.nil_mem_one⟩
    | next h hw => exact ⟨some _, advance_eq_some.mp h, hw, hnotices⟩
  · rintro ⟨hk, next, h, hw⟩
    rcases next with _ | s'
    · obtain rfl := (Language.mem_one w).mp hw
      exact ⟨.last h, by simpa using hk⟩
    · exact ⟨.next (advance_eq_some.mpr h) hw.1, List.forall_mem_cons.mpr ⟨hk, hw.2⟩⟩

/-- The session is never over before a message. -/
theorem nil_notMem_completions (s : State) : [] ∉ completions s := fun h => h.1.ne_nil rfl

/-- The equation of a state whose acceptances are known. -/
theorem completions_eq (s : State) (ts : List (Kind × Option State)) (hts : s.acceptances = ts) :
    completions s = (ts.map fun t => letter t.1 * completionsAfter t.2).sum := by
  ext w
  rw [mem_sum_map]
  rcases w with _ | ⟨k, w⟩
  · refine iff_of_false (nil_notMem_completions s) ?_
    rintro ⟨t, -, ht⟩
    exact nil_notMem_letter_mul _ _ ht
  · rw [cons_mem_completions]
    simp only [cons_mem_letter_mul, ← hts]
    constructor
    · rintro ⟨hk, next, h, hw⟩
      exact ⟨(k, next), State.mem_acceptances.mpr ⟨h, hk⟩, rfl, hw⟩
    · rintro ⟨⟨k', next⟩, hmem, rfl, hw⟩
      obtain ⟨h, hk⟩ := State.mem_acceptances.mp hmem
      exact ⟨hk, next, h, hw⟩

/-- States that take the same messages are completed by the same words. -/
theorem completions_congr {s s' : State} (h : s.acceptances = s'.acceptances) :
    completions s = completions s' :=
  (completions_eq s _ h).trans (completions_eq s' _ rfl).symm

/-- A session that is completed gets to `State::ReadyForQuery`, or ends before it. -/
theorem completions_cases {s : State} {w : List Kind} (h : w ∈ completions s) :
    w ∈ toReady s * completions .readyForQuery ∨
      ∃ u k s', w = u ++ [k] ∧ u.foldlM advanceQuiet s = some s' ∧
        (∀ v, v <+: u → v.foldlM advanceQuiet s ≠ some .readyForQuery) ∧
        accept s' k = some none := by
  by_cases hs : s = .readyForQuery
  · subst hs
    rw [toReady_readyForQuery, one_mul]
    exact .inl h
  -- along the word, until it reaches `State::ReadyForQuery`
  induction w generalizing s with
  | nil => exact absurd h (nil_notMem_completions s)
  | cons k w ih =>
    obtain ⟨hk, next, haccept, hw⟩ := cons_mem_completions.mp h
    rcases next with _ | s₁
    · -- the word ends here, with a message that ends the session
      obtain rfl := (Language.mem_one w).mp hw
      refine .inr ⟨[], k, s, rfl, rfl, fun v hv => ?_, haccept⟩
      rw [List.prefix_nil.mp hv]
      exact fun heq => hs (Option.some.inj heq)
    · -- one message on, and the rest is completed from the state it leads to
      have hquiet : advanceQuiet s k = some s₁ := by
        rw [advanceQuiet, without, if_neg hk]
        exact advance_eq_some.mpr haccept
      by_cases hs₁ : s₁ = .readyForQuery
      · subst hs₁
        refine .inl (Language.append_mem_mul ?_ hw : [k] ++ w ∈ _)
        exact (cons_mem_arrivals hs).mpr ⟨_, hquiet, nil_mem_arrivals.mpr rfl⟩
      rcases ih hw hs₁ with hw | ⟨u, k', s', rfl, hu, hno, hlast⟩
      · obtain ⟨u, hu, v, hv, rfl⟩ := Language.mem_mul.mp hw
        exact .inl (Language.append_mem_mul
          ((cons_mem_arrivals hs).mpr ⟨s₁, hquiet, hu⟩) hv : k :: u ++ v ∈ _)
      · refine .inr ⟨k :: u, k', s', rfl, ?_, fun v hv => ?_, hlast⟩
        · rw [List.foldlM_cons, hquiet]
          exact hu
        · rcases List.prefix_cons_iff.mp hv with rfl | ⟨v', rfl, hv'⟩
          · exact fun heq => hs (Option.some.inj heq)
          · rw [List.foldlM_cons, hquiet]
            exact hno v' hv'

/-- A session that gets to `State::ReadyForQuery` is completed from there. -/
theorem mul_completions_subset {s : State} {w : List Kind}
    (h : w ∈ toReady s * completions .readyForQuery) : w ∈ completions s := by
  obtain ⟨u, hu, v, ⟨hv, hnotices⟩, rfl⟩ := Language.mem_mul.mp h
  have hfold := foldlM_of_mem_arrivals hu
  refine ⟨completes_of_advanceAll (foldlM_of_foldlM_without hfold) hv, fun k hk => ?_⟩
  rcases List.mem_append.mp hk with hk | hk
  · exact not_quiet_of_foldlM_without hfold k hk
  · exact hnotices k hk

/-! ## The language -/

namespace SessionLanguage

open BackendType FrontendType ExecuteLanguage
open StartupLanguage (startup)
open SimpleQueryLanguage (simpleQuery)

/-- A start-up that has begun and is not over. -/
def begun : Language Kind := {u | ∃ v, v ≠ [] ∧ u ++ v ∈ startup}

/-- The preparation of a statement. -/
def preparation : Language Kind :=
  parse.word * (parseComplete.word + errorResponse.word * readyForQuery.word)

/-- The binding of a portal. -/
def binding : Language Kind :=
  bind.word * (bindComplete.word + errorResponse.word * readyForQuery.word)

/-- From `State::ReadyForQuery` to `State::ReadyForQuery`. -/
def cycle : Language Kind := simpleQuery + preparation + binding + execution

/-- The ways in which a session ends from `State::ReadyForQuery`. But for `Terminate` these are
errors, where an error does not wait for the end of a cycle. -/
def ending : Language Kind :=
  terminate.word + errorResponse.word +
    (parse.word + bind.word) * (errorResponse.word * errorResponse.word) +
    execute.word * ((suspension * execute.word)∗ *
      (answer * (sync.word * errorResponse.word) + suspension * errorResponse.word))

/-- A whole session after the start-up packet. -/
def session : Language Kind := begun * errorResponse.word + startup * (cycle∗ * ending)

/-! ### The equations of the states -/

/-- After `Sync` the cycle ends, or an error ends the session. -/
theorem completions_gotSync : completions .gotSync =
    readyForQuery.word * completions .readyForQuery + errorResponse.word := by
  have h := completions_eq .gotSync
    [(.backend .errorResponse, none), (.backend .readyForQuery, some .readyForQuery)] rfl
  rw [h]
  simp only [List.map_cons, List.map_nil, List.sum_cons, List.sum_nil, completionsAfter, mul_one]
  abel

/-- A second error does not wait for the end of the cycle. -/
theorem completions_abortedParsingOrBinding : completions .abortedParsingOrBinding =
    readyForQuery.word * completions .readyForQuery + errorResponse.word := by
  rw [← completions_gotSync]
  exact completions_congr rfl

/-- A statement is prepared, or the cycle is aborted. -/
theorem completions_gotPreparedStatement : completions .gotPreparedStatement =
    parseComplete.word * completions .readyForQuery +
      errorResponse.word * completions .abortedParsingOrBinding := by
  have h := completions_eq .gotPreparedStatement
    [(.backend .errorResponse, some .abortedParsingOrBinding),
      (.backend .parseComplete, some .readyForQuery)] rfl
  rw [h]
  simp only [List.map_cons, List.map_nil, List.sum_cons, List.sum_nil, completionsAfter]
  abel

/-- A portal is bound, or the cycle is aborted. -/
theorem completions_gotBinding : completions .gotBinding =
    bindComplete.word * completions .readyForQuery +
      errorResponse.word * completions .abortedParsingOrBinding := by
  have h := completions_eq .gotBinding
    [(.backend .bindComplete, some .readyForQuery),
      (.backend .errorResponse, some .abortedParsingOrBinding)] rfl
  rw [h]
  simp only [List.map_cons, List.map_nil, List.sum_cons, List.sum_nil, completionsAfter, add_zero]

/-- A simple query is always brought to its end. -/
theorem completions_gotSimpleQuery : completions .gotSimpleQuery =
    SimpleQueryLanguage.answer * completions .readyForQuery := by
  rw [← SimpleQueryLanguage.toReady_gotSimpleQuery]
  ext w
  refine ⟨fun h => ?_, mul_completions_subset⟩
  rcases completions_cases h with hw | ⟨u, k, s, -, hu, hno, hlast⟩
  · exact hw
  · have hs : s ∈ SimpleQueryLanguage.answering := by
      refine (SimpleQueryLanguage.mem_answering (by decide) (foldlM_of_foldlM_without hu)
        fun v hv hne => ?_).resolve_right fun hs => hno u (List.prefix_refl u) (by rw [hu, hs])
      rw [advanceAll, ← foldlM_without_of_isPrefix hu hv]
      exact hno v hv
    have hgoesOn : ∀ s ∈ SimpleQueryLanguage.answering, ∀ k ∈ Kind.all,
        accept s k ≠ some none := by decide
    exact absurd hlast (hgoesOn s hs k k.mem_all)

/-- Errors may follow one another. -/
theorem completions_abortedExtendedQuery : completions .abortedExtendedQuery =
    errorResponse.word∗ * (sync.word * completions .gotSync) := by
  have h := completions_eq .abortedExtendedQuery
    [(.backend .errorResponse, some .abortedExtendedQuery), (.frontend .sync, some .gotSync)] rfl
  refine (Language.self_eq_mul_add_iff (nil_notMem_letter _)).mp (h.trans ?_)
  simp only [List.map_cons, List.map_nil, List.sum_cons, List.sum_nil, completionsAfter, add_zero]

/-- After its last answer an execution waits for `Sync`. -/
theorem completions_answered {s : State} (hts : s.acceptances =
    [(.backend .errorResponse, some .abortedExtendedQuery), (.frontend .sync, some .gotSync)]) :
    completions s = errorResponse.word∗ * (sync.word * completions .gotSync) := by
  rw [← completions_abortedExtendedQuery]
  exact completions_congr hts

/-- A suspended portal waits for the frontend; an error of the backend ends the session. -/
theorem completions_suspendedExtendedQuery : completions .suspendedExtendedQuery =
    execute.word * completions .executingExtendedQuery + sync.word * completions .gotSync +
      errorResponse.word := by
  have h := completions_eq .suspendedExtendedQuery
    [(.backend .errorResponse, none), (.frontend .execute, some .executingExtendedQuery),
      (.frontend .sync, some .gotSync)] rfl
  rw [h]
  simp only [List.map_cons, List.map_nil, List.sum_cons, List.sum_nil, completionsAfter, mul_one]
  abel

/-- Rows come until the portal has completed, has failed or is suspended. -/
theorem completions_answeringToExtendedQuery : completions .answeringToExtendedQuery =
    dataRow.word∗ *
      (commandComplete.word * (errorResponse.word∗ * (sync.word * completions .gotSync)) +
        errorResponse.word * (errorResponse.word∗ * (sync.word * completions .gotSync)) +
        portalSuspended.word * completions .suspendedExtendedQuery) := by
  have h := completions_eq .answeringToExtendedQuery
    [(.backend .commandComplete, some .completedExtendedQuery),
      (.backend .dataRow, some .answeringToExtendedQuery),
      (.backend .errorResponse, some .abortedExtendedQuery),
      (.backend .portalSuspended, some .suspendedExtendedQuery)] rfl
  refine (Language.self_eq_mul_add_iff (nil_notMem_letter _)).mp (h.trans ?_)
  simp only [List.map_cons, List.map_nil, List.sum_cons, List.sum_nil, completionsAfter,
    @completions_answered .completedExtendedQuery rfl, completions_abortedExtendedQuery]
  abel

/-- A suspended portal may be executed again, and an error ends the session there. -/
theorem completions_executingExtendedQuery : completions .executingExtendedQuery =
    (suspension * execute.word)∗ *
      (answer * (sync.word * completions .gotSync) + suspension * errorResponse.word) := by
  have h := completions_eq .executingExtendedQuery
    [(.backend .commandComplete, some .completedExtendedQuery),
      (.backend .dataRow, some .answeringToExtendedQuery),
      (.backend .emptyQueryResponse, some .seenEmptyExtendedQuery),
      (.backend .errorResponse, some .abortedExtendedQuery)] rfl
  have hrows (l : Language Kind) : dataRow.word∗ * l = l + dataRow.word * dataRow.word∗ * l := by
    rw [← one_add_mul, one_add_mul_kstar]
  have hnil : [] ∉ suspension * execute.word := by
    rw [suspension, mul_assoc, mul_assoc]
    exact nil_notMem_letter_mul _ _
  -- the states after the answer are put in, then both sides are sums of the same words
  refine (Language.self_eq_mul_add_iff hnil).mp (h.trans ?_)
  rw [answer, mul_assoc dataRow.word∗, hrows (commandComplete.word * _),
    hrows (errorResponse.word * _)]
  simp only [List.map_cons, List.map_nil, List.sum_cons, List.sum_nil, completionsAfter,
    @completions_answered .completedExtendedQuery rfl,
    @completions_answered .seenEmptyExtendedQuery rfl, completions_abortedExtendedQuery,
    completions_answeringToExtendedQuery, completions_suspendedExtendedQuery, suspension, add_mul,
    mul_add, mul_assoc]
  abel

/-- From `State::ReadyForQuery` there are cycles, and then one of the endings. -/
theorem completions_readyForQuery : completions .readyForQuery = cycle∗ * ending := by
  have h := completions_eq .readyForQuery
    [(.backend .errorResponse, none), (.frontend .bind, some .gotBinding),
      (.frontend .execute, some .executingExtendedQuery),
      (.frontend .parse, some .gotPreparedStatement),
      (.frontend .query, some .gotSimpleQuery), (.frontend .terminate, none)] rfl
  have hnil : [] ∉ cycle :=
    nil_notMem_add (nil_notMem_add (nil_notMem_add (nil_notMem_letter_mul _ _)
      (nil_notMem_letter_mul _ _)) (nil_notMem_letter_mul _ _)) (nil_notMem_letter_mul _ _)
  refine (Language.self_eq_mul_add_iff hnil).mp (h.trans ?_)
  simp only [List.map_cons, List.map_nil, List.sum_cons, List.sum_nil, completionsAfter, mul_one,
    add_zero, completions_gotBinding, completions_gotPreparedStatement, completions_gotSimpleQuery,
    completions_executingExtendedQuery, completions_abortedParsingOrBinding, completions_gotSync,
    cycle, ending, simpleQuery, preparation, binding, execution, rest, close, add_mul, mul_add,
    mul_assoc]
  abel

/-! ### The start-up -/

open StartupLanguage (beforeReady)

/-- Before the first `ReadyForQuery` nothing but an error ends the session, and it always does. -/
theorem accept_eq_last_iff {s : State} (hs : s ∈ beforeReady) {k : Kind} :
    accept s k = some none ↔ k = .backend .errorResponse := by
  have hall : ∀ s ∈ beforeReady, ∀ k ∈ Kind.all,
      accept s k = some none ↔ k = .backend .errorResponse := by decide
  exact hall s hs k k.mem_all

/-- A beginning of the start-up leads to one of its states. -/
theorem mem_beforeReady {u : List Kind} {s : State}
    (hu : u.foldlM advanceQuiet .gotStartup = some s)
    (hno : ∀ v, v <+: u → v.foldlM advanceQuiet .gotStartup ≠ some .readyForQuery) :
    s ∈ beforeReady := by
  refine (@State.mem_or_eq_of_advanceAll beforeReady .readyForQuery (by decide +kernel) _ _ u
    (by decide) (foldlM_of_foldlM_without hu) fun v hv _ => ?_).resolve_right fun hs =>
      hno u (List.prefix_refl u) (by rw [hu, hs])
  rw [advanceAll, ← foldlM_without_of_isPrefix hu hv]
  exact hno v hv

/-- Every beginning of the start-up can be completed. -/
theorem ahead_mem_toReady {s : State} (hs : s ∈ beforeReady) :
    s.ahead ≠ [] ∧ s.ahead ∈ toReady s := by
  have hall : ∀ s ∈ beforeReady, s.ahead ≠ [] ∧
      s.ahead.foldlM advanceQuiet s = some .readyForQuery ∧
      ∀ u ∈ s.ahead.inits, u ≠ s.ahead → u.foldlM advanceQuiet s ≠ some .readyForQuery := by
    decide +kernel
  obtain ⟨hne, hready, hfirst⟩ := hall s hs
  exact ⟨hne, hready, fun u hu => hfirst u ((List.mem_inits u s.ahead).mpr hu)⟩

/-- The beginnings of the start-up are the words that lead to one of its states. -/
theorem mem_begun {u : List Kind} : u ∈ begun ↔ ∃ s ∈ beforeReady,
    u.foldlM advanceQuiet .gotStartup = some s ∧
      ∀ v, v <+: u → v.foldlM advanceQuiet .gotStartup ≠ some .readyForQuery := by
  constructor
  · rintro ⟨v, hv, huv⟩
    rw [← StartupLanguage.toReady_gotStartup] at huv
    have hfold := foldlM_of_mem_arrivals huv
    rw [List.foldlM_append] at hfold
    obtain ⟨s, hu, -⟩ := Option.bind_eq_some_iff.mp hfold
    have hno (v' : List Kind) (hv' : v' <+: u) :
        v'.foldlM advanceQuiet .gotStartup ≠ some .readyForQuery := by
      refine huv.2 v' (hv'.trans (List.prefix_append u v)) ?_
      rintro rfl
      exact hv (by simpa using hv'.length_le)
    exact ⟨s, mem_beforeReady hu hno, hu, hno⟩
  · rintro ⟨s, hs, hu, hno⟩
    obtain ⟨hne, hahead⟩ := ahead_mem_toReady hs
    refine ⟨s.ahead, hne, ?_⟩
    rw [← StartupLanguage.toReady_gotStartup]
    exact append_mem_arrivals hu (fun v hv _ => hno v hv) hahead

/-- The words that complete a session after the start-up packet, without notices. -/
theorem completions_gotStartup : completions .gotStartup = session := by
  ext w
  rw [session, Language.mem_add, ← completions_readyForQuery,
    ← StartupLanguage.toReady_gotStartup]
  constructor
  · intro h
    rcases completions_cases h with hw | ⟨u, k, s, rfl, hu, hno, hlast⟩
    · exact .inr hw
    · -- it ends during the start-up, with an error
      have hs := mem_beforeReady hu hno
      obtain rfl := (accept_eq_last_iff hs).mp hlast
      exact .inl (Language.append_mem_mul (mem_begun.mpr ⟨s, hs, hu, hno⟩) (mem_letter.mpr rfl))
  · rintro (h | h)
    · obtain ⟨u, hbegun, v, hv, rfl⟩ := Language.mem_mul.mp h
      obtain ⟨s, hs, hu, -⟩ := mem_begun.mp hbegun
      rw [mem_letter.mp hv]
      refine ⟨completes_of_advanceAll (foldlM_of_foldlM_without hu)
        (.last ((accept_eq_last_iff hs).mpr rfl)), fun k hk => ?_⟩
      rcases List.mem_append.mp hk with hk | hk
      · exact not_quiet_of_foldlM_without hu k hk
      · rw [List.mem_singleton.mp hk]
        decide
    · exact mul_completions_subset h

/-- The words that complete a session after the start-up packet. -/
theorem completes_iff_session {w : List Kind} : Completes .gotStartup w ↔
    eraseNotices w ∈ session ∧ ∀ k ∈ w.getLast?, ¬ k.isNotice := by
  rw [completes_iff_eraseNotices, ← completions_gotStartup]
  have hnotices : ∀ k ∈ eraseNotices w, ¬ k.isNotice := by
    intro k hk
    simpa using (List.mem_filter.mp hk).2
  exact and_congr_left fun _ => ⟨fun h => ⟨h, hnotices⟩, And.left⟩

end SessionLanguage

open SessionLanguage

/-- A run that succeeds after a start-up packet has completed the session. -/
theorem completes_of_ok {c : Conveyor} (h : c.Fresh) (hok : (go c).1 = .ok ⟨⟩)
    (hstartup : ∃ msg ∈ callbacks (go c).2.trace, msg.isStartup) :
    Completes .gotStartup (go c).2.history := by
  obtain ⟨ph, c₁, σ, hreach, hσ, -, htrace, hlast⟩ :=
    go_cases h (show _ = ((go c).1, (go c).2) from rfl)
  rcases hlast with ⟨-, e, layers', hemits, -, hgo⟩ | ⟨halt, -, herror, -⟩
  · -- no start-up packet ends the session before the main loop
    have hbefore {p : Packet} {layers : Side → Layer} (hph : ∀ s, ph ≠ .looping s)
        (he : e = .conveyed p layers) : p.IsStartup := by
      obtain ⟨msg, hmsg, hstartup⟩ := hstartup
      rw [hgo, callbacks_append, σ.callbacks_events, he, Entry.events, p.callbacks_events] at hmsg
      rcases List.mem_append.mp hmsg with hmem | hmem
      · exact absurd hstartup (not_isStartup_of_at hσ hph msg hmem)
      · rw [List.mem_singleton.mp hmem] at hstartup
        exact Packet.isStartup_message.mp hstartup
    have hinitial {p : Packet} {i : Initial} (hp : p.message = .frontend (.initial i))
        (hi : afterInitial i = none) : ¬ p.IsStartup := by
      rintro ⟨startup, hstartup⟩
      obtain rfl : .startup startup = i := by simpa using hstartup.symm.trans hp
      cases hi
    generalize hnext : (none : Option Phase) = next at hemits
    cases hemits with
    | initial hp => exact absurd (hbefore (by simp) rfl) (hinitial hp hnext.symm)
    | replied => cases hnext
    | errorReply hp =>
      have htype := Packet.type_of_isStartup (hbefore (by simp) rfl)
      rw [hp] at htype
      cases htype
    | initialInsideTls hp _ => exact absurd (hbefore (by simp) rfl) (hinitial hp hnext.symm)
    | @looping s _ p next haccept =>
      obtain rfl := Option.map_eq_none_iff.mp hnext.symm
      rw [history_of_trace h hreach (hgo.trans (by rw [htrace])), Entry.events, p.callbacks_events]
      exact completes_of_advanceAll (advanceAll_history h hreach) (.last haccept)
  · rw [hok] at herror
    cases herror

/-- The histories of the runs that succeed after a start-up packet are the words of the language of
sessions, with notices anywhere but at the end. -/
theorem go_sessions (w : List Kind) :
    (∃ frontend backend frontendTlsServer backendTlsClient overflowChecks,
      let run := go (new frontend backend frontendTlsServer backendTlsClient overflowChecks)
      run.1 = .ok ⟨⟩ ∧ (∃ msg ∈ callbacks run.2.trace, msg.isStartup) ∧ run.2.history = w) ↔
      eraseNotices w ∈ session ∧ ∀ k ∈ w.getLast?, ¬ k.isNotice := by
  rw [← completes_iff_session]
  constructor
  · rintro ⟨frontend, backend, frontendTlsServer, backendTlsClient, overflowChecks, hok, hstartup,
      rfl⟩
    exact completes_of_ok (fresh_new _ _ _ _ _) hok hstartup
  · intro h
    obtain ⟨frontend, backend, hok, hhistory, hstartup⟩ := exists_go_of_completes h .ok .ok true
    exact ⟨frontend, backend, _, _, _, hok, hstartup, hhistory⟩

end Postgread
