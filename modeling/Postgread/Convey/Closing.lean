import Mathlib.Data.List.DropRight
import Postgread.Convey.History

/-!
# Closing an extended query

A `Sync` should close every extended query whose requests have all been answered. `go_sync_iff` says
when it does: the last request must have been an `Execute`, since after `Parse` and `Bind` the main
loop is back in `State::ReadyForQuery`, or after an error in `State::AbortedParsingOrBinding`, where
it does not accept `Sync`. `InCycle` is the invariant.
-/

namespace Postgread

open Body Conveyor Event

/-! ## Requests and their answers -/

namespace Kind

/-- The requests of an extended query. -/
def isRequest : Kind → Bool
  | frontend .parse | frontend .bind | frontend .execute => true
  | _ => false

/-- Whether a message of the backend is the answer to a request. -/
def answers : Kind → Kind → Bool
  | backend .parseComplete, frontend .parse => true
  | backend .bindComplete, frontend .bind => true
  | backend .commandComplete, frontend .execute => true
  | backend .emptyQueryResponse, frontend .execute => true
  | backend .portalSuspended, frontend .execute => true
  | backend .errorResponse, k => k.isRequest
  | _, _ => false

end Kind

/-- The requests that wait for their answers, after one more message. -/
def awaiting (requests : List Kind) (k : Kind) : List Kind :=
  if k.isRequest then requests ++ [k]
  else match requests with
    | [] => []
    | request :: rest => if k.answers request then rest else request :: rest

/-- The requests of a word that have not been answered, the oldest first. -/
def unanswered (ks : List Kind) : List Kind := ks.foldl awaiting []

/-- What comes after the last `ReadyForQuery`. -/
def sinceReady (ks : List Kind) : List Kind := ks.rtakeWhile (· ≠ .backend .readyForQuery)

/-- The last message of the frontend. -/
def lastOfFrontend (ks : List Kind) : Option Kind := (ks.filter (·.side = .frontend)).getLast?

/-- A `ReadyForQuery` begins anew what comes after the last one. -/
theorem sinceReady_concat (ks : List Kind) (k : Kind) : sinceReady (ks ++ [k]) =
    if k = .backend .readyForQuery then [] else sinceReady ks ++ [k] := by
  rw [sinceReady, List.rtakeWhile_concat]
  by_cases hk : k = .backend .readyForQuery <;> simp [hk, sinceReady]

/-- One more message adds a request, or answers one, or neither. -/
theorem unanswered_concat (ks : List Kind) (k : Kind) :
    unanswered (ks ++ [k]) = awaiting (unanswered ks) k := List.foldl_concat ..

/-- Of two messages of the frontend the later one is the last. -/
theorem lastOfFrontend_concat (ks : List Kind) (k : Kind) :
    lastOfFrontend (ks ++ [k]) = if k.side = .frontend then some k else lastOfFrontend ks := by
  rw [lastOfFrontend, List.filter_append]
  by_cases hk : k.side = .frontend <;> simp [hk, lastOfFrontend]

namespace State

/-- The requests that have not been answered. -/
def outstanding : State → List Kind
  | gotPreparedStatement => [.frontend .parse]
  | gotBinding => [.frontend .bind]
  | executingExtendedQuery | answeringToExtendedQuery => [.frontend .execute]
  | _ => []

/-- The states in which an `Execute` was the last message of the frontend. -/
def isExecution : State → Bool
  | abortedExtendedQuery | answeringToExtendedQuery | completedExtendedQuery
  | executingExtendedQuery | seenEmptyExtendedQuery | suspendedExtendedQuery => true
  | _ => false

/-- Where everything is answered, `Sync` is accepted after an `Execute`. -/
theorem accept_sync {s : State} (h : s.outstanding = []) :
    if s.isExecution then advance s (.frontend .sync) = some .gotSync
    else accept s (.frontend .sync) = none := by
  have hall : ∀ s ∈ all, s.outstanding = [] →
      if s.isExecution then advance s (.frontend .sync) = some .gotSync
      else accept s (.frontend .sync) = none := by decide
  exact hall s s.mem_all h

end State

/-- What the main loop has conveyed since the last `ReadyForQuery`. -/
structure InCycle (s : State) (ks : List Kind) : Prop where
  unanswered_eq : unanswered ks = s.outstanding
  execute_iff : lastOfFrontend ks = some (.frontend .execute) ↔ s.isExecution

/-- What a message does to the requests and to the state. -/
theorem outstanding_of_advance {s s' : State} {k : Kind} (hk : advance s k = some s') :
    if k = .backend .readyForQuery then s'.outstanding = [] ∧ ¬ s'.isExecution
    else s'.outstanding = awaiting s.outstanding k ∧
      (s'.isExecution ↔ if k.side = .frontend then k = .frontend .execute else s.isExecution) :=
  @State.advance_cases (fun s k s' =>
    if k = .backend .readyForQuery then s'.outstanding = [] ∧ ¬ s'.isExecution
    else s'.outstanding = awaiting s.outstanding k ∧
      (s'.isExecution ↔ if k.side = .frontend then k = .frontend .execute else s.isExecution))
    (by decide +kernel) _ _ _ hk

/-- A message keeps what the state says about the cycle. -/
theorem inCycle_of_advance {s s' : State} {k : Kind} {ks : List Kind} (hk : advance s k = some s')
    (h : InCycle s (sinceReady ks)) : InCycle s' (sinceReady (ks ++ [k])) := by
  have htable := outstanding_of_advance hk
  rw [sinceReady_concat]
  split at htable
  · rename_i hready
    rw [if_pos hready]
    exact ⟨htable.1.symm, by simpa [lastOfFrontend] using htable.2⟩
  · rename_i hready
    rw [if_neg hready]
    refine ⟨by rw [unanswered_concat, h.unanswered_eq, htable.1], ?_⟩
    rw [htable.2, lastOfFrontend_concat]
    split
    · exact Option.some_inj
    · exact h.execute_iff

/-- What the state says about the cycle is right after every word. -/
theorem inCycle_of_advanceAll {ks : List Kind} {s : State}
    (h : advanceAll .gotStartup ks = some s) : InCycle s (sinceReady ks) :=
  @advanceAll_induction (fun ks s => InCycle s (sinceReady ks)) _ _ _
    ⟨rfl, by decide⟩ (fun _ _ _ _ ih hk => inCycle_of_advance hk ih) h

namespace Conveyor

variable {c c' c₀ : Conveyor} {s : State}

/-- A `Sync` that is offered and not accepted makes the round fail. -/
theorem not_stepsTo_of_sync (h : c₀.Fresh) (hreach : Reaches step (.initial, c₀) (.looping s, c))
    {p : Packet} (ho : Offers c p c') (hp : p.kind = .frontend .sync)
    (hnone : accept s (.frontend .sync) = none) (y : Phase × Conveyor) :
    ¬ StepsTo step (.looping s, c) y := by
  obtain ⟨σ, -, -, -, -, -, hopen, -⟩ := session_of_reaches h hreach
  have htype : p.type = .frontend .sync := by rw [← p.kind_type, hp]; rfl
  have hclear : ∀ typeByte t next, arm p.side typeByte s = .through t next →
      p.type.typeByteOpt = some typeByte → t = p.type := by
    intro typeByte t next harm hbyte
    rw [htype] at hbyte ⊢
    obtain rfl : TypeByte.parameterStatusOrSync = typeByte := Option.some.inj hbyte
    rw [Packet.side, htype] at harm
    -- from the frontend this type byte stands for nothing but `Sync`
    cases s <;> cases harm <;> rfl
  obtain ⟨e, c₂, hbody⟩ := loopBody_error_of_offers hopen ho (by rw [hp, hnone]) hclear
  intro hstep
  obtain ⟨next, hnext, -⟩ := Proc.map_eq_ok.mp hstep
  rw [hbody] at hnext
  cases hnext

end Conveyor

/-- In every run, where the requests of an extended query have all been answered, a `Sync` that is
read next is forwarded, and a `ReadyForQuery` after it leads to `State::ReadyForQuery`, exactly if
the last of the messages of the frontend since the last `ReadyForQuery` was an `Execute`. -/
theorem go_sync_iff (frontend backend : Stream) (frontendTlsServer backendTlsClient : TlsProvider)
    (overflowChecks : Bool) :
    let c₀ := new frontend backend frontendTlsServer backendTlsClient overflowChecks
    ∀ s c p c₁, Reaches step (.initial, c₀) (.looping s, c) →
      .backend .readyForQuery ∈ c.history →
      (∃ k ∈ sinceReady c.history, k.isRequest) → unanswered (sinceReady c.history) = [] →
      Offers c p c₁ → p.kind = .frontend .sync →
      ((∃ s₂ c₂, StepsTo step (.looping s, c) (.looping s₂, c₂) ∧
          Event.writes c₂.trace = Event.writes c.trace ++ [(.backend, p.bytes)] ∧
          ∀ q c₃, Offers c₂ q c₃ → q.kind = .backend .readyForQuery →
            ∃ c₄, StepsTo step (.looping s₂, c₂) (.looping .readyForQuery, c₄) ∧
              Event.writes c₄.trace = Event.writes c₂.trace ++ [(.frontend, q.bytes)]) ↔
        lastOfFrontend (sinceReady c.history) = some (.frontend .execute)) := by
  intro c₀ s c p c₁ hreach _ _ hanswered ho hp
  have hfresh : c₀.Fresh := fresh_new _ _ _ _ _
  have hcycle := inCycle_of_advanceAll (advanceAll_history hfresh hreach)
  have hsync := State.accept_sync (hcycle.unanswered_eq.symm.trans hanswered)
  have hother {p : Packet} {k : Kind} (hp : p.kind = k) : p.side.other = k.side.other := by
    rw [← p.kind_side, hp]
  rw [hcycle.execute_iff]
  -- `Sync` is accepted exactly in the states of an execution
  split at hsync
  · rename_i hexecution
    obtain ⟨events, hstep, -, hconveyed⟩ :=
      exists_stepsTo_of_offers hfresh hreach ho (by rw [hp, hsync])
    refine iff_of_true ⟨_, _, hstep, ?_, fun q c₃ ho' hq => ?_⟩ hexecution
    · rw [hconveyed.writes_eq, List.map_singleton, hother hp]
      rfl
    · obtain ⟨events', hstep', -, hconveyed'⟩ := exists_stepsTo_of_offers hfresh
        (hreach.tail hstep) ho' (by rw [hq]; exact (rfl : _ = some State.readyForQuery))
      refine ⟨_, hstep', ?_⟩
      rw [hconveyed'.writes_eq, List.map_singleton, hother hq]
      rfl
  · rename_i hexecution
    refine iff_of_false ?_ hexecution
    rintro ⟨s₂, c₂, hstep, -⟩
    exact not_stepsTo_of_sync hfresh hreach ho hp hsync _ hstep

/-- A conversation that has been started up, with these answers of the two sides after it. -/
def startedUp (frontend backend : Stream) : Conveyor :=
  new (.ready 0 [0, 0, 9, 0, 3, 0, 0, 0] :: frontend)
    ([.ready 82 [0, 0, 0, 8, 0, 0, 0, 0], .ready 75 [0, 0, 0, 12, 0, 0, 0, 0, 0, 0, 0, 0],
      .ready 90 [0, 0, 0, 5, 73]] ++ backend) .ok .ok true

/-- An `Execute` that has been completed, and then `Sync`. -/
theorem executed_closed :
    let c₀ := startedUp [.ready 69 [0, 0, 0, 9, 0, 0, 0, 0, 0], .ready 83 [0, 0, 0, 4]]
      [.pending, .ready 67 [0, 0, 0, 5, 0], .pending, .ready 90 [0, 0, 0, 5, 73]]
    let c := (walk step 6 (.initial, c₀)).2
    ∃ s₂ c₂, StepsTo step (.looping .completedExtendedQuery, c) (.looping s₂, c₂) := by
  intro c₀ c
  have hreach : Reaches step (.initial, c₀) (.looping .completedExtendedQuery, c) :=
    reaches_walk (by decide +kernel)
  obtain ⟨c₁, ho⟩ : ∃ c₁, Offers c .sync c₁ :=
    @exists_offers c .sync .parameterStatusOrSync rfl (by decide +kernel) (by decide +kernel)
      (by decide +kernel)
  obtain ⟨s₂, c₂, hstep, -⟩ := (go_sync_iff _ _ .ok .ok true _ c .sync c₁ hreach (by decide +kernel)
    (by decide +kernel) (by decide +kernel) ho rfl).mpr (by decide +kernel)
  exact ⟨s₂, c₂, hstep⟩

/-- A `Parse` that has been completed, and then `Sync`. -/
def prepared : Conveyor :=
  startedUp [.ready 80 [0, 0, 0, 8, 0, 0, 0, 0], .ready 83 [0, 0, 0, 4]]
    [.pending, .ready 49 [0, 0, 0, 4]]

/-- The `Sync` is not accepted, though every request has been answered. -/
theorem prepared_not_closed : ∃ c c₁,
    Reaches step (.initial, prepared) (.looping .readyForQuery, c) ∧
    c.history = [.authentication .ok, .backend .backendKeyData, .backend .readyForQuery,
      .frontend .parse, .backend .parseComplete] ∧
    (∃ k ∈ sinceReady c.history, k.isRequest) ∧ unanswered (sinceReady c.history) = [] ∧
    Offers c .sync c₁ ∧ (∀ y, ¬ StepsTo step (.looping .readyForQuery, c) y) ∧
    (go prepared).1 =
      .error (.error (.unexpectedType .readyForQuery .frontend .parameterStatusOrSync)) := by
  have hreach : Reaches step (.initial, prepared)
      (.looping .readyForQuery, (walk step 6 (.initial, prepared)).2) :=
    reaches_walk (by decide +kernel)
  obtain ⟨c₁, ho⟩ : ∃ c₁, Offers (walk step 6 (.initial, prepared)).2 .sync c₁ :=
    @exists_offers _ .sync .parameterStatusOrSync rfl (by decide +kernel) (by decide +kernel)
      (by decide +kernel)
  exact ⟨_, c₁, hreach, by decide +kernel, by decide +kernel, by decide +kernel, ho,
    not_stepsTo_of_sync (fresh_new _ _ _ _ _) hreach ho rfl rfl, by decide +kernel⟩

end Postgread
