import Postgread.Convey.StartupLanguage

/-!
# The language of a simple query

`simpleQuery` is what a frontend and a backend say from a `Query` to the `ReadyForQuery` that ends
it, without notices: any number of statements with their rows, and errors. `toReady_readyForQuery`
derives it from the table of the main loop, `go_simpleQuery` says that a run conveys exactly its
words, and fails where the next message leaves them.
-/

open scoped Computability

namespace Postgread

open Body Conveyor Event

namespace SimpleQueryLanguage

open BackendType FrontendType

/-- The rows of a statement, if it has any. -/
def rows : Language Kind := 1 + rowDescription.word * dataRow.word∗

/-- A statement that completes. -/
def statement : Language Kind := rows * commandComplete.word

/-- What the backend answers to a query. -/
def answer : Language Kind :=
  (emptyQueryResponse.word * errorResponse.word∗ + statement * statement∗ +
    statement∗ * rows * (errorResponse.word * errorResponse.word∗)) * readyForQuery.word

/-- A query and its answer. -/
def simpleQuery : Language Kind := query.word * answer

/-- Errors may follow one another. -/
theorem toReady_abortedSimpleQuery :
    toReady .abortedSimpleQuery = errorResponse.word∗ * readyForQuery.word := by
  have h := @toReady_eq .abortedSimpleQuery (by decide)
    [(.backend .errorResponse, .abortedSimpleQuery), (.backend .readyForQuery, .readyForQuery)] rfl
  refine (Language.self_eq_mul_add_iff (nil_notMem_letter _)).mp (h.trans ?_)
  simp only [List.map_cons, List.map_nil, List.sum_cons, List.sum_nil, arrivals_self, mul_one,
    add_zero]

/-- An empty query may be followed by errors, as an aborted one. -/
theorem toReady_seenEmptySimpleQuery :
    toReady .seenEmptySimpleQuery = errorResponse.word∗ * readyForQuery.word := by
  have h := @toReady_eq .seenEmptySimpleQuery (by decide)
    [(.backend .errorResponse, .abortedSimpleQuery), (.backend .readyForQuery, .readyForQuery)] rfl
  have h' := @toReady_eq .abortedSimpleQuery (by decide)
    [(.backend .errorResponse, .abortedSimpleQuery), (.backend .readyForQuery, .readyForQuery)] rfl
  rw [h, ← h', toReady_abortedSimpleQuery]

/-- Rows end with the completion of the statement or with an error. -/
theorem toReady_answeringToSimpleQuery : toReady .answeringToSimpleQuery =
    dataRow.word∗ * (commandComplete.word * toReady .completedSimpleCommand +
      errorResponse.word * toReady .abortedSimpleQuery) := by
  have h := @toReady_eq .answeringToSimpleQuery (by decide)
    [(.backend .commandComplete, .completedSimpleCommand),
      (.backend .dataRow, .answeringToSimpleQuery),
      (.backend .errorResponse, .abortedSimpleQuery)] rfl
  refine (Language.self_eq_mul_add_iff (nil_notMem_letter _)).mp (h.trans ?_)
  simp only [List.map_cons, List.map_nil, List.sum_cons, List.sum_nil]
  abel

/-- A statement without rows, or with some. -/
theorem statement_eq : statement = commandComplete.word +
    rowDescription.word * (dataRow.word∗ * commandComplete.word) := by
  rw [statement, rows, add_mul, one_mul, mul_assoc]

/-- Further statements complete before the query fails or ends. -/
theorem toReady_completedSimpleCommand : toReady .completedSimpleCommand =
    statement∗ *
      (rows * errorResponse.word * toReady .abortedSimpleQuery + readyForQuery.word) := by
  have h := @toReady_eq .completedSimpleCommand (by decide)
    [(.backend .commandComplete, .completedSimpleCommand),
      (.backend .errorResponse, .abortedSimpleQuery),
      (.backend .readyForQuery, .readyForQuery),
      (.backend .rowDescription, .answeringToSimpleQuery)] rfl
  -- every statement brings at least its completion, so the equation has one solution
  have hnil : [] ∉ statement := by
    rw [statement_eq]
    exact nil_notMem_add (nil_notMem_letter _) (nil_notMem_letter_mul _ _)
  refine (Language.self_eq_mul_add_iff hnil).mp (h.trans ?_)
  simp only [List.map_cons, List.map_nil, List.sum_cons, List.sum_nil, arrivals_self, mul_one,
    toReady_answeringToSimpleQuery, statement_eq, rows, add_mul, mul_add, one_mul, mul_assoc]
  abel

/-- The words of an answer are those that lead from the query to `State::ReadyForQuery`. -/
theorem toReady_gotSimpleQuery : toReady .gotSimpleQuery = answer := by
  have h := @toReady_eq .gotSimpleQuery (by decide)
    [(.backend .commandComplete, .completedSimpleCommand),
      (.backend .emptyQueryResponse, .seenEmptySimpleQuery),
      (.backend .errorResponse, .abortedSimpleQuery),
      (.backend .rowDescription, .answeringToSimpleQuery)] rfl
  -- the first of the statements apart from the others
  have hstatements (l : Language Kind) : statement∗ * l = l + statement * statement∗ * l := by
    rw [← one_add_mul, one_add_mul_kstar]
  calc toReady .gotSimpleQuery
      = emptyQueryResponse.word * toReady .seenEmptySimpleQuery +
          statement * toReady .completedSimpleCommand +
          rows * errorResponse.word * toReady .abortedSimpleQuery := by
        rw [h]
        simp only [List.map_cons, List.map_nil, List.sum_cons, List.sum_nil,
          toReady_answeringToSimpleQuery, statement_eq, rows, add_mul, mul_add, one_mul, mul_assoc]
        abel
    _ = answer := by
        rw [toReady_seenEmptySimpleQuery, toReady_completedSimpleCommand,
          toReady_abortedSimpleQuery, answer, mul_assoc statement∗ rows, hstatements (rows * _)]
        simp only [add_mul, mul_add, mul_assoc]
        abel

/-! ## Histories -/

/-- The states of a simple query. -/
def answering : List State :=
  [.gotSimpleQuery, .answeringToSimpleQuery, .completedSimpleCommand, .abortedSimpleQuery,
    .seenEmptySimpleQuery]

/-- From a state of a simple query, one message leads to another or to its end. -/
theorem answering_closed :
    ∀ s ∈ answering, ∀ t ∈ s.transitions, t.2 ∈ answering ∨ t.2 = .readyForQuery := by
  decide

/-- As long as the query has not ended the state is one of a simple query. -/
theorem mem_answering {s s' : State} {w : List Kind} (hs : s ∈ answering)
    (h : advanceAll s w = some s')
    (hfirst : ∀ u, u <+: w → u ≠ w → advanceAll s u ≠ some .readyForQuery) :
    s' ∈ answering ∨ s' = .readyForQuery :=
  State.mem_or_eq_of_advanceAll answering_closed hs h hfirst

/-- Every state of a simple query can be brought to its end. -/
theorem exists_completion {s : State} (hs : s ∈ answering ∨ s = .readyForQuery) :
    ∃ w, eraseNotices w = w ∧ w ∈ arrivals advance .readyForQuery s := by
  rcases hs with hs | rfl
  · have hready : ∀ s ∈ answering, s ≠ .readyForQuery ∧
        (advance s (.backend .readyForQuery) = some .readyForQuery ∨
          advance s (.backend .commandComplete) = some .completedSimpleCommand) := by decide
    have hcompleted : advance .completedSimpleCommand (.backend .readyForQuery) =
        some .readyForQuery := rfl
    obtain ⟨hne, hk | hk⟩ := hready s hs
    · exact ⟨[.backend .readyForQuery], rfl,
        (cons_mem_arrivals hne).mpr ⟨_, hk, nil_mem_arrivals.mpr rfl⟩⟩
    · exact ⟨[.backend .commandComplete, .backend .readyForQuery], rfl,
        (cons_mem_arrivals hne).mpr ⟨_, hk,
          (cons_mem_arrivals (by decide)).mpr ⟨_, hcompleted, nil_mem_arrivals.mpr rfl⟩⟩⟩
  · exact ⟨[], rfl, nil_mem_arrivals.mpr rfl⟩

/-- What comes before a message that is accepted can be completed to an answer. -/
theorem exists_answer {s s' : State} {w : List Kind} {k : Kind}
    (h : advanceAll .gotSimpleQuery w = some s) (hs : s ≠ .readyForQuery)
    (hfirst : ∀ u, u <+: w → u ≠ w → advanceAll .gotSimpleQuery u ≠ some .readyForQuery)
    (hk : advance s k = some s') (hnotice : k.isNotice = false) :
    ∃ w', eraseNotices w ++ k :: w' ∈ answer := by
  have hmem := (mem_answering (by decide) h hfirst).resolve_right hs
  obtain ⟨w', hw', harrives⟩ :=
    exists_completion (answering_closed s hmem (k, s') (State.mem_transitions.mpr hk))
  have hanswer := filter_mem_arrivals advance_of_isNotice
    (append_mem_arrivals h hfirst ((cons_mem_arrivals hs).mpr ⟨s', hk, harrives⟩))
  refine ⟨w', ?_⟩
  rw [← toReady_gotSimpleQuery]
  rw [List.filter_append, List.filter_cons_of_pos (by simp [hnotice])] at hanswer
  rwa [← hw']

/-- In the states of a simple query the type byte of an offered packet decides its type. -/
theorem type_eq_of_arm {s : State} (hs : s ∈ answering) {p : Packet} {typeByte : TypeByte}
    {t : MsgType} {next : Option State} (harm : arm p.side typeByte s = .through t next)
    (htype : p.type.typeByteOpt = some typeByte) : t = p.type := by
  obtain ⟨hside, ht, -⟩ := arm_through harm
  rcases p with ⟨t' | t', body, msg, fits, decodes⟩
  · rcases t with t | t
    · rw [BackendType.eq_of_typeByteOpt (ht.trans htype.symm)]
    · cases hside
  · rcases t with t | t
    · cases hside
    -- none of these states accepts a message of the frontend
    have hnone : ∀ s ∈ answering, ∀ t ∈ FrontendType.all, accept s (.frontend t) = none := by decide
    have hsome := (@accept_eq_some s (.frontend t) next nofun).mpr ⟨typeByte, ht, harm⟩
    rw [hnone s hs t (FrontendType.mem_all t)] at hsome
    cases hsome

/-- A message that leads out of the language makes the round fail. -/
theorem loopBody_error_of_leaves {c c' : Conveyor} {layers : Side → Layer} (hopen : c.Open layers)
    {s : State} {w : List Kind} {p : Packet} (h : advanceAll .gotSimpleQuery w = some s)
    (hs : s ≠ .readyForQuery)
    (hfirst : ∀ u, u <+: w → u ≠ w → advanceAll .gotSimpleQuery u ≠ some .readyForQuery)
    (ho : Offers c p c') (hnotice : p.kind ≠ .backend .noticeResponse)
    (hleaves : ∀ w', eraseNotices w ++ p.kind :: w' ∉ answer) :
    ∃ e c₁, loopBody s c = (.error (.error e), c₁) := by
  have hmem := (mem_answering (by decide) h hfirst).resolve_right hs
  -- none of the states ends the session, so the message is refused or leads to a next state
  have hgoesOn : ∀ s ∈ answering, ∀ k ∈ Kind.all, accept s k ≠ some none := by decide
  rcases haccept : accept s p.kind with _ | _ | s'
  · exact loopBody_error_of_offers hopen ho haccept fun _ _ _ => type_eq_of_arm hmem
  · exact absurd haccept (hgoesOn s hmem _ p.kind.mem_all)
  · obtain ⟨w', hw'⟩ := exists_answer h hs hfirst (advance_eq_some.mpr haccept)
      (by simpa [Kind.isNotice] using hnotice)
    exact absurd hw' (hleaves w')

/-- A word of the language is the query with a word of the answer. -/
theorem cons_mem_simpleQuery {k : Kind} {w : List Kind} :
    k :: w ∈ simpleQuery ↔ k = .frontend .query ∧ w ∈ answer :=
  cons_mem_letter_mul

/-- A word of the language leads back to `State::ReadyForQuery`. -/
theorem advanceAll_of_mem_simpleQuery {ks : List Kind} (h : eraseNotices ks ∈ simpleQuery) :
    advanceAll .readyForQuery ks = some .readyForQuery := by
  rw [simpleQuery, ← toReady_gotSimpleQuery] at h
  exact advanceAll_of_mem_cycle rfl h

end SimpleQueryLanguage

open SimpleQueryLanguage

/-- What a run conveys from a query to the next arrival at `State::ReadyForQuery` is a word of the
language, and on the way there it fails on a message that leads out of the language. Every word of
the language is conveyed whole when it arrives. -/
theorem go_simpleQuery (frontend backend : Stream)
    (frontendTlsServer backendTlsClient : TlsProvider) (overflowChecks : Bool) :
    let c₀ := new frontend backend frontendTlsServer backendTlsClient overflowChecks
    ∀ c, Reaches step (.initial, c₀) (.looping .readyForQuery, c) →
      (∀ s₁ c₁ s c₂, StepsTo step (.looping .readyForQuery, c) (.looping s₁, c₁) →
        c₁.history = c.history ++ [.frontend .query] → Cycle (.looping s₁, c₁) (.looping s, c₂) →
        ∃ w, c₂.history = c.history ++ w ∧
          (s = .readyForQuery → eraseNotices w ∈ simpleQuery) ∧
          (s ≠ .readyForQuery → ∀ p c₃, Offers c₂ p c₃ → p.kind ≠ .backend .noticeResponse →
            (∀ w', eraseNotices w ++ p.kind :: w' ∉ simpleQuery) →
            ∃ e, (go c₀).1 = .error (.error e))) ∧
      ∀ ps c', Arrives c ps c' → eraseNotices (ps.map Packet.kind) ∈ simpleQuery →
        ∃ c₂, Reaches step (.looping .readyForQuery, c) (.looping .readyForQuery, c₂) ∧
          callbacks c₂.trace = callbacks c.trace ++ ps.map Packet.message ∧
          Event.writes c₂.trace =
            Event.writes c.trace ++ ps.map fun p => (p.side.other, p.bytes) := by
  intro c₀ c hreach
  have hfresh : c₀.Fresh := fresh_new _ _ _ _ _
  refine ⟨fun s₁ c₁ s c₂ hstep hquery hcycle => ?_, fun ps c' harrives hps =>
    conveyed_of_arrives hfresh hreach harrives (advanceAll_of_mem_simpleQuery hps)⟩
  obtain ⟨rfl, w, hhistory, hw, hfirst, hready⟩ := history_of_request hfresh hreach rfl hstep hquery
    hcycle
  refine ⟨_, hhistory, fun hs => cons_mem_simpleQuery.mpr ⟨rfl, ?_⟩,
    fun hs p c₃ ho hnotice hleaves => ?_⟩
  · rw [← toReady_gotSimpleQuery]
    exact hready hs
  · have hreach₂ := Relation.ReflTransGen.trans (hreach.tail hstep) hcycle.reaches
    obtain ⟨σ, -, -, -, -, -, hopen, -⟩ := session_of_reaches hfresh hreach₂
    obtain ⟨e, c₄, hbody⟩ := loopBody_error_of_leaves hopen hw hs hfirst ho hnotice
      fun w' hw' => hleaves w' (cons_mem_simpleQuery.mpr ⟨rfl, hw'⟩)
    exact ⟨e, congrArg Prod.fst ((go_eq_iff hfresh.at_initial).mpr
      (Ends.of_reaches hreach₂ (.halt (Proc.map_eq_error.mpr hbody))))⟩

namespace Packet

/-- A query without a statement. -/
def query : Packet where
  type := .frontend .query
  body := [0]
  msg := _
  fits := by decide
  decodes := rfl

/-- The answer to a query without a statement, which is always the same packet. -/
def emptyQueryResponse : Packet where
  type := .backend .emptyQueryResponse
  body := []
  msg := ⟨⟩
  fits := by decide
  decodes := rfl

end Packet

/-- A query without a statement and its answer, right after the start-up. -/
theorem go_simpleQuery_empty :
    ∃ c c₂ c₃, Reaches step
        (.initial, inOrder (conversation [.query, .emptyQueryResponse, .readyForQuery]))
        (.looping .readyForQuery, c) ∧
      Reaches step (.looping .readyForQuery, c) (.looping .readyForQuery, c₂) ∧
      (∃ w, c₂.history = c.history ++ w ∧ eraseNotices w ∈ simpleQuery) ∧
      Reaches step (.looping .readyForQuery, c) (.looping .readyForQuery, c₃) ∧
      Event.writes c₃.trace = Event.writes c.trace ++
        [(.backend, Packet.query.bytes), (.frontend, Packet.emptyQueryResponse.bytes),
          (.frontend, Packet.readyForQuery.bytes)] := by
  have hword : [.backend .emptyQueryResponse, .backend .readyForQuery] ∈
      arrivals advance .readyForQuery .gotSimpleQuery :=
    (cons_mem_arrivals (by decide)).mpr ⟨_, rfl,
      (cons_mem_arrivals (by decide)).mpr ⟨_, rfl, nil_mem_arrivals.mpr rfl⟩⟩
  have hanswer : [.backend .emptyQueryResponse, .backend .readyForQuery] ∈ answer := by
    rw [← toReady_gotSimpleQuery]
    exact filter_mem_arrivals advance_of_isNotice hword
  obtain ⟨c, c₁, c₂, c', hreach, hstep, hquery, hcycle, harrives⟩ :=
    @exists_cycle_inOrder .gotSimpleQuery .query [.emptyQueryResponse, .readyForQuery]
      (by decide) rfl hword
  have hgo := go_simpleQuery _ _ .ok .ok true c hreach
  obtain ⟨w, hhistory, hmem, -⟩ := hgo.1 _ c₁ _ c₂ hstep hquery hcycle
  obtain ⟨c₃, hreach₃, -, hwrites⟩ := hgo.2 _ c' harrives (cons_mem_simpleQuery.mpr ⟨rfl, hanswer⟩)
  exact ⟨c, c₂, c₃, hreach, .head hstep hcycle.reaches, ⟨w, hhistory, hmem rfl⟩, hreach₃,
    hwrites⟩

end Postgread
