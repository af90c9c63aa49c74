import Postgread.Convey.Closing

/-!
# Recovery from errors

An error in answer to a request should not end a run: the cycle of the request goes on until its
`ReadyForQuery`. `go_resilient_iff` says when this is so. The main loop lists the states in which it
goes on after an error by hand, and in two of the others a request may still be waiting: after a
`Sync`, and after a `Parse` or `Bind` that has failed before. `pending` is the waiting request of a
history, and `State.pendings` the invariant: which requests may be waiting in a state.
-/

namespace Postgread

open Body Conveyor

/-! ## The waiting request -/

namespace Kind

/-- The messages of the frontend that the backend answers. -/
def isAnswered : Kind → Bool
  | frontend .query | frontend .sync => true
  | k => k.isRequest

/-- Whether a message of the backend ends the wait of a request. An error does not. -/
def settles (k request : Kind) : Bool :=
  k = .backend .readyForQuery ∨ k ≠ .backend .errorResponse ∧ k.answers request

end Kind

/-- The request that waits for the backend, after one more message. -/
def waits (request : Option Kind) (k : Kind) : Option Kind :=
  if k.isAnswered then some k else request.filter (! k.settles ·)

/-- The latest request of a word, if it still waits for the backend. -/
def pending (ks : List Kind) : Option Kind := ks.foldl waits none

/-- One more message makes a request wait, or settles it. -/
theorem pending_concat (ks : List Kind) (k : Kind) : pending (ks ++ [k]) = waits (pending ks) k :=
  List.foldl_concat ..

namespace State

/-- What may be waiting in a state. -/
def pendings : State → List (Option Kind)
  | gotSimpleQuery | answeringToSimpleQuery | completedSimpleCommand | seenEmptySimpleQuery
  | abortedSimpleQuery => [some (.frontend .query)]
  | gotPreparedStatement => [some (.frontend .parse)]
  | gotBinding => [some (.frontend .bind)]
  | abortedParsingOrBinding => [some (.frontend .parse), some (.frontend .bind)]
  | executingExtendedQuery | answeringToExtendedQuery => [some (.frontend .execute)]
  | abortedExtendedQuery => [some (.frontend .execute), none]
  | gotSync => [some (.frontend .sync)]
  | _ => [none]

/-- The states after an error in answer to a request, with the latest request. -/
def recovering : List (State × Kind) :=
  [(abortedSimpleQuery, .frontend .query), (abortedParsingOrBinding, .frontend .parse),
    (abortedParsingOrBinding, .frontend .bind), (abortedExtendedQuery, .frontend .execute),
    (gotSync, .frontend .sync)]

/-- The states in which an error is the end, although a request is waiting. -/
def GivesUp (s : State) : Prop := s = gotSync ∨ s = abortedParsingOrBinding

instance : DecidablePred GivesUp := fun _ => inferInstanceAs (Decidable (_ ∨ _))

/-- An error in answer to a request is conveyed and leads to recovery. -/
theorem exists_recovering {s : State} {r : Kind} (hr : some r ∈ s.pendings) (hs : ¬ s.GivesUp) :
    ∃ s', advance s (.backend .errorResponse) = some s' ∧ (s', r) ∈ recovering :=
  have h : ∀ s ∈ all, ∀ o ∈ s.pendings, ∀ r ∈ o, ¬ s.GivesUp →
    ∃ s' ∈ advance s (.backend .errorResponse), (s', r) ∈ recovering := by decide
  h s s.mem_all _ hr r rfl hs

/-- An error without a next state comes while nothing is waiting. -/
theorem pendings_of_accept {s : State} (h : accept s (.backend .errorResponse) = some none)
    (hs : ¬ s.GivesUp) : s.pendings = [none] :=
  have hall : ∀ s ∈ all, accept s (.backend .errorResponse) = some none → ¬ s.GivesUp →
    s.pendings = [none] := by decide
  hall s s.mem_all h hs

/-- Where an error is the end although a request is waiting. -/
theorem GivesUp.accept {s : State} (h : s.GivesUp) :
    Postgread.accept s (.backend .errorResponse) = some none ∧ ∀ o ∈ s.pendings, o.isSome := by
  rcases h with rfl | rfl
  · decide
  · decide

/-- A cycle in recovery is ended by `ReadyForQuery`, but after an `Execute` by `Sync` first. -/
theorem advance_of_recovering {s : State} {r : Kind} (h : (s, r) ∈ recovering) :
    if r = .frontend .execute then advance s (.frontend .sync) = some .gotSync
    else advance s (.backend .readyForQuery) = some .readyForQuery :=
  have hall : ∀ x ∈ recovering,
    if x.2 = .frontend .execute then advance x.1 (.frontend .sync) = some .gotSync
    else advance x.1 (.backend .readyForQuery) = some .readyForQuery := by decide
  hall _ h

end State

/-- What a message does to the waiting request and to the state. -/
theorem pending_mem {ks : List Kind} {s : State} (h : advanceAll .gotStartup ks = some s) :
    pending ks ∈ s.pendings := by
  refine @advanceAll_induction (fun ks s => pending ks ∈ s.pendings) _ _ _ (by decide)
    (fun ks s k s' ih hk => ?_) h
  rw [pending_concat]
  exact @State.advance_cases (fun s k s' => ∀ o ∈ s.pendings, waits o k ∈ s'.pendings)
    (by decide +kernel) _ _ _ hk _ ih

/-- In recovery only `ReadyForQuery` ends the wait of the latest request. -/
theorem recovering_of_advanceAll {s s' : State} {r : Kind} {ks w : List Kind}
    (hs : (s, r) ∈ State.recovering) (hr : pending ks = some r) (h : advanceAll s w = some s')
    (hw : .backend .readyForQuery ∉ w) :
    ∃ r', pending (ks ++ w) = some r' ∧ (s', r') ∈ State.recovering := by
  refine @advanceAll_induction (fun w s' => .backend .readyForQuery ∉ w →
    ∃ r', pending (ks ++ w) = some r' ∧ (s', r') ∈ State.recovering) _ _ _
    (fun _ => ⟨r, by rwa [List.append_nil], hs⟩) (fun w s₁ k s₂ ih hk hnot => ?_) h hw
  obtain ⟨hw, hk'⟩ : .backend .readyForQuery ∉ w ∧ .backend .readyForQuery ≠ k := by
    simpa using hnot
  obtain ⟨r₁, hr₁, hs₁⟩ := ih hw
  have hall : ∀ x ∈ State.recovering, ∀ t ∈ x.1.transitions, t.1 ≠ .backend .readyForQuery →
      ∃ r' ∈ waits (some x.2) t.1, (t.2, r') ∈ State.recovering := by decide +kernel
  obtain ⟨r₂, hr₂, hs₂⟩ := hall _ hs₁ (k, s₂) (State.mem_transitions.mpr hk) (Ne.symm hk')
  exact ⟨r₂, by rw [← List.append_assoc, pending_concat, hr₁]; exact hr₂, hs₂⟩

/-! ## Runs -/

namespace Conveyor

variable {c c' c₀ : Conveyor} {s s' : State}

/-- A packet is conveyed at a point of the main loop and leads to a state. -/
def Passes (s : State) (c : Conveyor) (p : Packet) (s' : State) (c' : Conveyor) : Prop :=
  StepsTo step (.looping s, c) (.looping s', c') ∧ Conveyed c c' [p]

/-- From a point on, every `ReadyForQuery` that ends the cycle is accepted. That of an `Execute`
comes after a `Sync`, which is accepted too.

After a `Parse` or `Bind` that has failed only the `ReadyForQuery` is asked for. The main loop takes
it there without a `Sync`, and the tests of the source end such a cycle so (`ext_query_parse_error`,
`ext_query_bind_error`); that it does not take a `Sync` there is what `go_sync_iff` is about. -/
def CycleEnds (s : State) (c : Conveyor) : Prop :=
  ∀ s' c' w, Reaches step (.looping s, c) (.looping s', c') → c'.history = c.history ++ w →
    .backend .readyForQuery ∉ w → ∀ q c₂, Offers c' q c₂ →
      (q.kind = .backend .readyForQuery → pending c'.history ≠ some (.frontend .execute) →
        ∃ c₃, Passes s' c' q .readyForQuery c₃) ∧
      (q.kind = .frontend .sync → pending c'.history = some (.frontend .execute) →
        ∃ c₃, Passes s' c' q .gotSync c₃)

/-- No error in answer to a request ends the run. -/
structure Resilient (c₀ : Conveyor) : Prop where
  goes_on : ∀ s c p c₁, Reaches step (.initial, c₀) (.looping s, c) →
    (pending c.history).isSome → Offers c p c₁ → p.kind = .backend .errorResponse →
      ∃ s' c', Passes s c p s' c' ∧ CycleEnds s' c'
  returns : (go c₀).1 = .ok ⟨⟩ → ∀ u, (go c₀).2.history = u ++ [.backend .errorResponse] →
    pending u = none

/-- An offered packet that the automaton reads passes. -/
theorem exists_passes_of_offers (h : c₀.Fresh)
    (hreach : Reaches step (.initial, c₀) (.looping s, c)) {p : Packet} {c₁ : Conveyor}
    (ho : Offers c p c₁) (hadvance : advance s p.kind = some s') :
    ∃ c', Passes s c p s' c' ∧ c'.history = c.history ++ [p.kind] := by
  obtain ⟨events, hstep, hhistory, hconveyed⟩ := exists_stepsTo_of_offers h hreach ho hadvance
  exact ⟨_, ⟨hstep, hconveyed⟩, hhistory⟩

/-- In recovery the cycle is ended as it should be. -/
theorem cycleEnds_of_recovering (h : c₀.Fresh)
    (hreach : Reaches step (.initial, c₀) (.looping s, c)) {r : Kind}
    (hr : pending c.history = some r) (hs : (s, r) ∈ State.recovering) : CycleEnds s c := by
  intro s' c' w hreach' hhistory hw q c₂ ho
  obtain ⟨w', hadvance, hw'⟩ := history_of_reaches h hreach hreach'
  obtain rfl : w = w' := List.append_cancel_left (hhistory.symm.trans hw')
  obtain ⟨r', hr', hs'⟩ := recovering_of_advanceAll hs hr hadvance hw
  rw [← hhistory] at hr'
  have htable := State.advance_of_recovering hs'
  -- `Sync` comes next after a failed `Execute`, and `ReadyForQuery` after any other request
  constructor
  · intro hq hne
    rw [if_neg (by simpa [hr'] using hne)] at htable
    obtain ⟨c₃, hpasses, -⟩ :=
      exists_passes_of_offers h (hreach.trans hreach') ho (by rw [hq, htable])
    exact ⟨c₃, hpasses⟩
  · intro hq heq
    rw [if_pos (by simpa [hr'] using heq)] at htable
    obtain ⟨c₃, hpasses, -⟩ :=
      exists_passes_of_offers h (hreach.trans hreach') ho (by rw [hq, htable])
    exact ⟨c₃, hpasses⟩

/-- Where the main loop gives up it takes no step. -/
theorem not_stepsTo_of_givesUp (h : c₀.Fresh)
    (hreach : Reaches step (.initial, c₀) (.looping s, c)) {p : Packet} {c₁ : Conveyor}
    (ho : Offers c p c₁) (hp : p.kind = .backend .errorResponse) (hs : s.GivesUp)
    (y : Phase × Conveyor) : ¬ StepsTo step (.looping s, c) y := by
  obtain ⟨σ, -, -, -, -, -, hopen, -⟩ := session_of_reaches h hreach
  have hbody := (loopBody_eq_ok hopen).mpr ⟨p, c₁, ho, by rw [hp]; exact hs.accept.1, rfl⟩
  intro hstep
  obtain ⟨next, hnext, hy⟩ := Proc.map_eq_ok.mp hstep
  rw [hbody] at hnext
  obtain ⟨rfl, -⟩ : none = next ∧ _ := by simpa using hnext
  cases hy

end Conveyor

/-- In every run every error that is read while a request is waiting is conveyed, the run goes on to
the `ReadyForQuery` of the cycle, and it returns after an error only when no request is waiting,
exactly if no error is offered in the main loop's `State::GotSync` or
`State::AbortedParsingOrBinding`. -/
theorem go_resilient_iff (frontend backend : Stream)
    (frontendTlsServer backendTlsClient : TlsProvider) (overflowChecks : Bool) :
    let c₀ := new frontend backend frontendTlsServer backendTlsClient overflowChecks
    Resilient c₀ ↔ ∀ s c p c₁, Reaches step (.initial, c₀) (.looping s, c) → Offers c p c₁ →
      p.kind = .backend .errorResponse → ¬ s.GivesUp := by
  intro c₀
  have hfresh : c₀.Fresh := fresh_new _ _ _ _ _
  constructor
  -- where the main loop gives up, a request is waiting that no step can serve
  · intro h s c p c₁ hreach ho hp hs
    have hpending := hs.accept.2 _ (pending_mem (advanceAll_history hfresh hreach))
    obtain ⟨s', c', ⟨hstep, -⟩, -⟩ := h.goes_on s c p c₁ hreach hpending ho hp
    exact not_stepsTo_of_givesUp hfresh hreach ho hp hs _ hstep
  · intro hnever
    constructor
    · intro s c p c₁ hreach hpending ho hp
      obtain ⟨r, hr⟩ := Option.isSome_iff_exists.mp hpending
      have hmem := pending_mem (advanceAll_history hfresh hreach)
      rw [hr] at hmem
      obtain ⟨s', hadvance, hs'⟩ :=
        State.exists_recovering hmem (hnever s c p c₁ hreach ho hp)
      obtain ⟨c', hpasses, hhistory⟩ :=
        exists_passes_of_offers hfresh hreach ho (by rw [hp, hadvance])
      refine ⟨s', c', hpasses, cycleEnds_of_recovering hfresh (hreach.tail hpasses.1) ?_ hs'⟩
      -- an error leaves the request waiting
      rw [hhistory, pending_concat, hr, hp]
      rfl
    · intro hok u hhistory
      obtain ⟨s, c, p, c₁, hreach, rfl, ho, hp, haccept⟩ := exists_offers_of_ok hfresh hok hhistory
      have hmem := pending_mem (advanceAll_history hfresh hreach)
      rw [State.pendings_of_accept haccept (hnever s c p c₁ hreach ho hp)] at hmem
      exact List.mem_singleton.mp hmem

/-- An `Execute` that has been completed, and an error of the backend in answer to the `Sync`. -/
def failingSync : Conveyor :=
  startedUp [.ready 69 [0, 0, 0, 9, 0, 0, 0, 0, 0], .ready 83 [0, 0, 0, 4]]
    [.pending, .ready 67 [0, 0, 0, 5, 0], .pending, .ready 69 [0, 0, 0, 5, 0],
      .ready 90 [0, 0, 0, 5, 73]]

/-- The run returns, and the `ReadyForQuery` after the error is not read. -/
theorem failingSync_returns : (go failingSync).1 = .ok ⟨⟩ ∧
    (go failingSync).2.history = [.authentication .ok, .backend .backendKeyData,
      .backend .readyForQuery, .frontend .execute, .backend .commandComplete, .frontend .sync,
      .backend .errorResponse] ∧ ¬ Resilient failingSync := by
  have hok : (go failingSync).1 = .ok ⟨⟩ := by decide +kernel
  have hhistory : (go failingSync).2.history = [.authentication .ok, .backend .backendKeyData,
      .backend .readyForQuery, .frontend .execute, .backend .commandComplete, .frontend .sync] ++
        [.backend .errorResponse] := by decide +kernel
  exact ⟨hok, hhistory, fun h => absurd (h.returns hok _ hhistory) (by decide)⟩

end Postgread
