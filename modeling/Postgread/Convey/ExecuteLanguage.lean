import Postgread.Convey.SimpleQueryLanguage

/-!
# The language of an execution

`execution` is what a frontend and a backend say from an `Execute` to the `ReadyForQuery` that ends
its cycle, without notices. A suspended portal is executed again, so the rows are a loop inside a
loop. `toReady_executingExtendedQuery` derives the language from the table of the main loop,
`go_execute` says that a run conveys exactly its words.
-/

open scoped Computability

namespace Postgread

open Body Conveyor Event

namespace ExecuteLanguage

open BackendType FrontendType

/-- At least one row, and then the limit is reached. -/
def suspension : Language Kind := dataRow.word * dataRow.word∗ * portalSuspended.word

/-- The last answer to an `Execute`. -/
def answer : Language Kind :=
  emptyQueryResponse.word * errorResponse.word∗ +
  dataRow.word∗ * commandComplete.word * errorResponse.word∗ +
  dataRow.word∗ * (errorResponse.word * errorResponse.word∗) +
  suspension

/-- The end of the cycle. -/
def close : Language Kind := sync.word * readyForQuery.word

/-- What comes after the first `Execute`. -/
def rest : Language Kind := (suspension * execute.word)∗ * answer * close

/-- The whole cycle. -/
def execution : Language Kind := execute.word * rest

/-- After a `Sync` only `ReadyForQuery` is missing. -/
theorem toReady_gotSync : toReady .gotSync = readyForQuery.word := by
  have h := @toReady_eq .gotSync (by decide) [(.backend .readyForQuery, .readyForQuery)] rfl
  rwa [List.map_singleton, List.sum_singleton, toReady_readyForQuery, mul_one] at h

/-- Errors may follow one another. -/
theorem toReady_abortedExtendedQuery :
    toReady .abortedExtendedQuery = errorResponse.word∗ * close := by
  have h := @toReady_eq .abortedExtendedQuery (by decide)
    [(.backend .errorResponse, .abortedExtendedQuery), (.frontend .sync, .gotSync)] rfl
  -- the state leads back to itself, and its equation is solved for it
  refine (Language.self_eq_mul_add_iff (nil_notMem_letter _)).mp (h.trans ?_)
  simp only [List.map_cons, List.map_nil, List.sum_cons, List.sum_nil, toReady_gotSync, close,
    add_zero]

/-- After its last answer an execution waits for `Sync`, and errors may still come. -/
theorem toReady_answered {s : State} (hs : s ≠ .readyForQuery)
    (hts : s.quietTransitions =
      [(.backend .errorResponse, .abortedExtendedQuery), (.frontend .sync, .gotSync)]) :
    toReady s = errorResponse.word∗ * close := by
  have h := @toReady_eq .abortedExtendedQuery (by decide)
    [(.backend .errorResponse, .abortedExtendedQuery), (.frontend .sync, .gotSync)] rfl
  rw [toReady_eq hs hts, ← h, toReady_abortedExtendedQuery]

/-- A suspended portal is executed again or closed. -/
theorem toReady_suspendedExtendedQuery : toReady .suspendedExtendedQuery =
    execute.word * toReady .executingExtendedQuery + close := by
  have h := @toReady_eq .suspendedExtendedQuery (by decide)
    [(.frontend .execute, .executingExtendedQuery), (.frontend .sync, .gotSync)] rfl
  rw [h]
  simp only [List.map_cons, List.map_nil, List.sum_cons, List.sum_nil, toReady_gotSync, close,
    add_zero]

/-- Rows end with the completion of the command, an error, or the limit. -/
theorem toReady_answeringToExtendedQuery : toReady .answeringToExtendedQuery =
    dataRow.word∗ * (commandComplete.word * (errorResponse.word∗ * close) +
      errorResponse.word * (errorResponse.word∗ * close) +
      portalSuspended.word * toReady .suspendedExtendedQuery) := by
  have h := @toReady_eq .answeringToExtendedQuery (by decide)
    [(.backend .commandComplete, .completedExtendedQuery),
      (.backend .dataRow, .answeringToExtendedQuery),
      (.backend .errorResponse, .abortedExtendedQuery),
      (.backend .portalSuspended, .suspendedExtendedQuery)] rfl
  refine (Language.self_eq_mul_add_iff (nil_notMem_letter _)).mp (h.trans ?_)
  simp only [List.map_cons, List.map_nil, List.sum_cons, List.sum_nil,
    @toReady_answered .completedExtendedQuery (by decide) rfl, toReady_abortedExtendedQuery]
  abel

/-- What comes after an `Execute`, as a language. -/
theorem toReady_executingExtendedQuery : toReady .executingExtendedQuery = rest := by
  have h := @toReady_eq .executingExtendedQuery (by decide)
    [(.backend .commandComplete, .completedExtendedQuery),
      (.backend .dataRow, .answeringToExtendedQuery),
      (.backend .emptyQueryResponse, .seenEmptyExtendedQuery),
      (.backend .errorResponse, .abortedExtendedQuery)] rfl
  have hrows (l : Language Kind) : dataRow.word∗ * l = l + dataRow.word * dataRow.word∗ * l := by
    rw [← one_add_mul, one_add_mul_kstar]
  have hnil : [] ∉ suspension * execute.word := by
    rw [suspension, mul_assoc, mul_assoc]
    exact nil_notMem_letter_mul _ _
  rw [rest, mul_assoc]
  -- each time the limit is reached the equation comes back to itself, which makes the outer loop
  refine (Language.self_eq_mul_add_iff hnil).mp (h.trans ?_)
  rw [answer, mul_assoc dataRow.word∗, hrows (commandComplete.word * _),
    hrows (errorResponse.word * _)]
  simp only [List.map_cons, List.map_nil, List.sum_cons, List.sum_nil,
    @toReady_answered .completedExtendedQuery (by decide) rfl,
    @toReady_answered .seenEmptyExtendedQuery (by decide) rfl, toReady_abortedExtendedQuery,
    toReady_answeringToExtendedQuery, toReady_suspendedExtendedQuery, suspension, add_mul, mul_add,
    mul_assoc]
  abel

/-- A word of the language leads back to `State::ReadyForQuery`. -/
theorem advanceAll_of_mem_execution {ks : List Kind} (h : eraseNotices ks ∈ execution) :
    advanceAll .readyForQuery ks = some .readyForQuery := by
  rw [execution, ← toReady_executingExtendedQuery] at h
  exact advanceAll_of_mem_cycle rfl h

/-! ## Histories -/

/-- The states of an execution. -/
def executing : List State :=
  [.executingExtendedQuery, .answeringToExtendedQuery, .suspendedExtendedQuery,
    .completedExtendedQuery, .seenEmptyExtendedQuery, .abortedExtendedQuery, .gotSync]

/-- Before `ReadyForQuery` an execution stays in its states. -/
theorem mem_executing {ks : List Kind} {s : State}
    (h : advanceAll .executingExtendedQuery ks = some s) (hks : .backend .readyForQuery ∉ ks) :
    s ∈ executing :=
  State.mem_of_advanceAll (by decide +kernel) (by decide) h hks

/-- The messages that wait for the end of an execution. -/
def others : List Kind :=
  [.frontend .query, .frontend .parse, .frontend .bind, .frontend .terminate]

/-- None of them is conveyed before the end of the execution. -/
theorem readyForQuery_mem_of_other {u v w : List Kind} {k : Kind}
    (h : Conveys .gotStartup (w ++ (u ++ k :: v)))
    (hw : advanceAll .gotStartup w = some .executingExtendedQuery) (hk : k ∈ others) :
    .backend .readyForQuery ∈ u := by
  by_contra hready
  rw [← List.append_assoc] at h
  obtain ⟨s', hs', hconveys⟩ := h.exists_advanceAll
  rw [advanceAll_append, hw, Option.bind_some] at hs'
  have htype : ∀ k ∈ others, k.type ≠ .backend .authentication := by decide
  have hnone : ∀ s ∈ executing, ∀ k ∈ others, accept s k = none := by decide
  obtain ⟨next, haccept⟩ := hconveys.exists_accept (htype k hk)
  rw [hnone s' (mem_executing hs' hready) k hk] at haccept
  cases haccept

end ExecuteLanguage

open ExecuteLanguage

/-- What a run conveys from an `Execute` to the next arrival at `State::ReadyForQuery` is a word of
the language, and before that no other request is forwarded. Every word of the language is conveyed
whole when it arrives. -/
theorem go_execute (frontend backend : Stream)
    (frontendTlsServer backendTlsClient : TlsProvider) (overflowChecks : Bool) :
    let c₀ := new frontend backend frontendTlsServer backendTlsClient overflowChecks
    ∀ c, Reaches step (.initial, c₀) (.looping .readyForQuery, c) →
      (∀ s₁ c₁, StepsTo step (.looping .readyForQuery, c) (.looping s₁, c₁) →
        c₁.history = c.history ++ [.frontend .execute] →
        (∀ c₂, Cycle (.looping s₁, c₁) (.looping .readyForQuery, c₂) →
          ∃ w, c₂.history = c.history ++ w ∧ eraseNotices w ∈ execution) ∧
        ∃ w, (go c₀).2.history = c₁.history ++ w ∧
          ∀ u k v, w = u ++ k :: v → k ∈ others → .backend .readyForQuery ∈ u) ∧
      ∀ ps c', Arrives c ps c' → eraseNotices (ps.map Packet.kind) ∈ execution →
        ∃ c₂, Reaches step (.looping .readyForQuery, c) (.looping .readyForQuery, c₂) ∧
          callbacks c₂.trace = callbacks c.trace ++ ps.map Packet.message ∧
          Event.writes c₂.trace =
            Event.writes c.trace ++ ps.map fun p => (p.side.other, p.bytes) := by
  intro c₀ c hreach
  have hfresh : c₀.Fresh := fresh_new _ _ _ _ _
  refine ⟨fun s₁ c₁ hstep hexecute => ⟨fun c₂ hcycle => ?_, ?_⟩, fun ps c' harrives hps =>
    conveyed_of_arrives hfresh hreach harrives (advanceAll_of_mem_execution hps)⟩
  · obtain ⟨rfl, w, hhistory, -, -, hready⟩ := history_of_request hfresh hreach rfl hstep hexecute
      hcycle
    refine ⟨_, hhistory, cons_mem_letter_mul.mpr ⟨rfl, ?_⟩⟩
    rw [← toReady_executingExtendedQuery]
    exact hready rfl
  · obtain ⟨rfl, -⟩ := history_of_request hfresh hreach rfl hstep hexecute .refl
    obtain ⟨w, hw⟩ := exists_history hfresh (hreach.tail hstep)
    refine ⟨w, hw, fun u k v hsplit hk => ?_⟩
    subst hsplit
    have hconveys := conveys_history hfresh
    rw [hw] at hconveys
    exact readyForQuery_mem_of_other hconveys (advanceAll_history hfresh (hreach.tail hstep)) hk

namespace Packet

/-- An `Execute` of the unnamed portal without a limit. -/
def execute : Packet where
  type := .frontend .execute
  body := [0, 0, 0, 0, 0]
  msg := _
  fits := by decide
  decodes := rfl

/-- The completion of a command with an empty tag. -/
def commandComplete : Packet where
  type := .backend .commandComplete
  body := [0]
  msg := _
  fits := by decide
  decodes := rfl

end Packet

/-- An execution without rows, right after the start-up. -/
theorem go_execute_command :
    ∃ c c₂ c₃, Reaches step
        (.initial, inOrder (conversation [.execute, .commandComplete, .sync, .readyForQuery]))
        (.looping .readyForQuery, c) ∧
      Reaches step (.looping .readyForQuery, c) (.looping .readyForQuery, c₂) ∧
      (∃ w, c₂.history = c.history ++ w ∧ eraseNotices w ∈ execution) ∧
      Reaches step (.looping .readyForQuery, c) (.looping .readyForQuery, c₃) ∧
      Event.writes c₃.trace = Event.writes c.trace ++
        [(.backend, Packet.execute.bytes), (.frontend, Packet.commandComplete.bytes),
          (.backend, Packet.sync.bytes), (.frontend, Packet.readyForQuery.bytes)] := by
  have hword : [.backend .commandComplete, .frontend .sync, .backend .readyForQuery] ∈
      arrivals advance .readyForQuery .executingExtendedQuery :=
    (cons_mem_arrivals (by decide)).mpr ⟨_, rfl, (cons_mem_arrivals (by decide)).mpr ⟨_, rfl,
      (cons_mem_arrivals (by decide)).mpr ⟨_, rfl, nil_mem_arrivals.mpr rfl⟩⟩⟩
  have hrest : [.backend .commandComplete, .frontend .sync, .backend .readyForQuery] ∈ rest := by
    rw [← toReady_executingExtendedQuery]
    exact filter_mem_arrivals advance_of_isNotice hword
  obtain ⟨c, c₁, c₂, c', hreach, hstep, hexecute, hcycle, harrives⟩ :=
    @exists_cycle_inOrder .executingExtendedQuery .execute
      [.commandComplete, .sync, .readyForQuery] (by decide) rfl hword
  have hgo := go_execute _ _ .ok .ok true c hreach
  obtain ⟨w, hhistory, hmem⟩ := (hgo.1 _ c₁ hstep hexecute).1 c₂ hcycle
  obtain ⟨c₃, hreach₃, -, hwrites⟩ := hgo.2 _ c' harrives (cons_mem_letter_mul.mpr ⟨rfl, hrest⟩)
  exact ⟨c, c₂, c₃, hreach, .head hstep hcycle.reaches, ⟨w, hhistory, hmem⟩, hreach₃, hwrites⟩

end Postgread
