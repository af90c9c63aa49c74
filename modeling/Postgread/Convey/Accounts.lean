import Postgread.Convey.History
import Postgread.Convey.Transitions

/-!
# Requests for `ReadyForQuery`

Every `ReadyForQuery` after the first should answer one `Query` or one `Sync`.
`go_readyForQuery_iff` says when it does: a run must not read a `ReadyForQuery` after a `Parse` or
`Bind` that has failed. `State.debt` carries the invariant: how many of them are still to come.
-/

namespace Postgread

open Body Conveyor Event

/-! ## Counting `ReadyForQuery` -/

/-- How many requests in a word want a `ReadyForQuery`. -/
def asked (ks : List Kind) : ℕ := ks.count (.frontend .query) + ks.count (.frontend .sync)

/-- How many `ReadyForQuery` are in a word. -/
def readied (ks : List Kind) : ℕ := ks.count (.backend .readyForQuery)

/-- The requests of two words add up. -/
theorem asked_append (ks ks' : List Kind) : asked (ks ++ ks') = asked ks + asked ks' := by
  simp only [asked, List.count_append]
  omega

/-- The `ReadyForQuery` of two words add up. -/
theorem readied_append (ks ks' : List Kind) : readied (ks ++ ks') = readied ks + readied ks' :=
  List.count_append

namespace State

/-- How many `ReadyForQuery` are still to come: one for the start-up, for a `Query` or a `Sync`. -/
def debt : State → ℕ
  | askedCleartextPassword | askedGssResponse | askedMd5Password | askedSaslInitialResponse
  | askedSaslResponse | authenticated | finishedSasl | gotAnySaslResponse | gotCleartextPassword
  | gotGssResponse | gotMd5Password | gotStartup | sentAllBackendParams => 1
  | abortedSimpleQuery | answeringToSimpleQuery | completedSimpleCommand | gotSimpleQuery
  | seenEmptySimpleQuery => 1
  | gotSync => 1
  | _ => 0

end State

/-- A message changes the debt by the request or the answer that it is. Only a `ReadyForQuery` after
a failed `Parse` or `Bind` pays a debt that was not there. -/
theorem debt_of_advance {s s' : State} {k : Kind} (hk : advance s k = some s') :
    readied [k] + s'.debt = asked [k] + s.debt ∨
      readied [k] + s'.debt = asked [k] + s.debt + 1 ∧
        s = .abortedParsingOrBinding ∧ k = .backend .readyForQuery :=
  @State.advance_cases (fun s k s' => readied [k] + s'.debt = asked [k] + s.debt ∨
    readied [k] + s'.debt = asked [k] + s.debt + 1 ∧
      s = .abortedParsingOrBinding ∧ k = .backend .readyForQuery) (by decide +kernel) _ _ _ hk

/-- No debt is forgotten. -/
theorem asked_le {ks : List Kind} {s : State} (h : advanceAll .gotStartup ks = some s) :
    asked ks + 1 ≤ readied ks + s.debt := by
  refine @advanceAll_induction (fun ks s => asked ks + 1 ≤ readied ks + s.debt) _ _ _ (by decide)
    (fun ks s k s' ih hk => ?_) h
  rw [asked_append, readied_append]
  rcases debt_of_advance hk with hdebt | ⟨hdebt, -⟩ <;> omega

/-- No `ReadyForQuery` in a word is read after a failed `Parse` or `Bind`. -/
def Solvent (ks : List Kind) : Prop :=
  ∀ u, u ++ [.backend .readyForQuery] <+: ks →
    advanceAll .gotStartup u ≠ some .abortedParsingOrBinding

/-- A beginning of a solvent word is solvent. -/
theorem Solvent.of_isPrefix {ks ks' : List Kind} (h : Solvent ks) (hpre : ks' <+: ks) :
    Solvent ks' := fun u hu => h u (hu.trans hpre)

/-- Then the accounts balance. -/
theorem readied_add_debt {ks : List Kind} {s : State} (h : advanceAll .gotStartup ks = some s)
    (hsolvent : Solvent ks) : readied ks + s.debt = asked ks + 1 := by
  have hword := @advanceAll_induction
    (fun ks s => Solvent ks → advanceAll .gotStartup ks = some s ∧
      readied ks + s.debt = asked ks + 1)
    .gotStartup s ks (fun _ => ⟨rfl, by decide⟩) (fun ks s k s' ih hk hsolvent => ?_) h
  · exact (hword hsolvent).2
  obtain ⟨hs, hbalance⟩ := ih (hsolvent.of_isPrefix (List.prefix_append ks [k]))
  refine ⟨advanceAll_concat hs hk, ?_⟩
  rw [asked_append, readied_append]
  -- only the exception of `debt_of_advance` could upset the balance, and a solvent word has none
  rcases debt_of_advance hk with hdebt | ⟨-, rfl, rfl⟩
  · omega
  · exact absurd hs (hsolvent ks (List.prefix_refl _))

/-- A word that may be conveyed leads to a state, but for its last message. -/
theorem Conveys.exists_init {ks : List Kind} {s : State} (h : Conveys s ks) (hne : ks ≠ []) :
    ∃ u k s', ks = u ++ [k] ∧ advanceAll s u = some s' ∧
      (k.type ≠ .backend .authentication → ∃ next, accept s' k = some next) := by
  obtain ⟨u, k, rfl⟩ : ∃ u k, ks = u ++ [k] := by
    rcases List.eq_nil_or_concat ks with rfl | ⟨u, k, rfl⟩
    · exact absurd rfl hne
    · exact ⟨u, k, List.concat_eq_append⟩
  obtain ⟨s', hs', hconveys⟩ := h.exists_advanceAll
  exact ⟨u, k, s', rfl, hs', hconveys.exists_accept⟩

/-- What may be conveyed leads to a state, or its last message is no `ReadyForQuery`. -/
theorem Conveys.advances_or_concat {ks : List Kind} {s : State} (h : Conveys s ks) :
    (∃ s', advanceAll s ks = some s') ∨
      ∃ u k s', ks = u ++ [k] ∧ advanceAll s u = some s' ∧ k ≠ .backend .readyForQuery := by
  by_cases hne : ks = []
  · subst hne
    exact .inl ⟨s, rfl⟩
  obtain ⟨u, k, s', rfl, hs', haccept⟩ := h.exists_init hne
  by_cases hk : k = .backend .readyForQuery
  · subst hk
    obtain ⟨next, hnext⟩ := haccept (by decide)
    rcases s'.accept_readyForQuery with hnone | hadvance
    · rw [hnone] at hnext
      cases hnext
    · exact .inl ⟨_, advanceAll_concat hs' hadvance⟩
  · exact .inr ⟨u, k, s', rfl, hs', hk⟩

/-- In a solvent word no `ReadyForQuery` but the first is without a request. -/
theorem Solvent.readied_le {ks : List Kind} (hsolvent : Solvent ks) (h : Conveys .gotStartup ks) :
    readied ks - 1 ≤ asked ks := by
  rcases h.advances_or_concat with ⟨s, hs⟩ | ⟨u, k, s, rfl, hs, hk⟩
  · have := readied_add_debt hs hsolvent
    omega
  · have hbalance := readied_add_debt hs (hsolvent.of_isPrefix (List.prefix_append u [k]))
    have hnone : readied [k] = 0 := List.count_eq_zero.mpr (by simpa using Ne.symm hk)
    rw [asked_append, readied_append]
    omega

/-- A beginning of a word that may be conveyed may be conveyed. -/
theorem Conveys.of_isPrefix {ks u : List Kind} {s : State} (h : Conveys s ks) (hu : u <+: ks) :
    Conveys s u := by
  obtain ⟨_ | ⟨k, v⟩, rfl⟩ := hu
  · rwa [List.append_nil] at h
  · obtain ⟨s', hs', -⟩ := h.exists_advanceAll
    rw [← List.append_nil u]
    exact conveys_append hs' (.nil s')

namespace Conveyor

variable {c c' c₀ : Conveyor}

/-- A `ReadyForQuery` that is offered after a failed `Parse` or `Bind` is conveyed without a
request. -/
theorem asked_lt_of_offers (h : c₀.Fresh)
    (hreach : Reaches step (.initial, c₀) (.looping .abortedParsingOrBinding, c)) {p : Packet}
    (ho : Offers c p c') (hp : p.kind = .backend .readyForQuery) :
    ∃ u, u <+: (go c₀).2.history ∧ asked u < readied u - 1 := by
  have hadvance : advance .abortedParsingOrBinding p.kind = some .readyForQuery := by
    rw [hp]
    rfl
  obtain ⟨events, hstep, hhistory, -⟩ := exists_stepsTo_of_offers h hreach ho hadvance
  obtain ⟨w, hw⟩ := exists_history h (hreach.tail hstep)
  refine ⟨_, ⟨w, hw.symm⟩, ?_⟩
  have hasked : asked c.history + 1 ≤ readied c.history := asked_le (advanceAll_history h hreach)
  have hready : readied [Kind.backend .readyForQuery] = 1 := rfl
  have hnone : asked [Kind.backend .readyForQuery] = 0 := rfl
  rw [hhistory, asked_append, readied_append, hp, hready, hnone]
  omega

/-- If no `ReadyForQuery` is offered after a failed `Parse` or `Bind`, the whole run is solvent. -/
theorem solvent_history (h : c₀.Fresh)
    (hnone : ∀ c p c', Reaches step (.initial, c₀) (.looping .abortedParsingOrBinding, c) →
      Offers c p c' → p.kind ≠ .backend .readyForQuery) : Solvent (go c₀).2.history := by
  rintro u ⟨v, hv⟩ hstate
  have hsplit : (go c₀).2.history = u ++ .backend .readyForQuery :: v := by
    rw [← hv, List.append_assoc]
    rfl
  obtain ⟨s, c, hreach, rfl⟩ := exists_point_of_split h hsplit
  obtain rfl : s = .abortedParsingOrBinding :=
    Option.some.inj ((advanceAll_history h hreach).symm.trans hstate)
  obtain ⟨c', hstep, hhistory⟩ := stepsTo_of_split h hreach hsplit
    (rfl : advance .abortedParsingOrBinding (.backend .readyForQuery) = some .readyForQuery)
  obtain ⟨p, c₁, ho, -, hp⟩ := exists_offers_of_stepsTo h hreach hstep
  refine hnone c p c₁ hreach ho ?_
  rw [hhistory] at hp
  exact (List.cons.inj (List.append_cancel_left hp)).1.symm

end Conveyor

/-- In every run, at every point of it, each `ReadyForQuery` but the first answers one `Query` or
one `Sync`, exactly if none is offered in the main loop's `State::AbortedParsingOrBinding`. -/
theorem go_readyForQuery_iff (frontend backend : Stream)
    (frontendTlsServer backendTlsClient : TlsProvider) (overflowChecks : Bool) :
    let c₀ := new frontend backend frontendTlsServer backendTlsClient overflowChecks
    (∀ u, u <+: (go c₀).2.history → readied u - 1 ≤ asked u) ↔
      ∀ c p c', Reaches step (.initial, c₀) (.looping .abortedParsingOrBinding, c) →
        Offers c p c' → p.kind ≠ .backend .readyForQuery := by
  intro c₀
  have hfresh : c₀.Fresh := fresh_new _ _ _ _ _
  constructor
  · intro hle c p c' hreach ho hp
    obtain ⟨u, hu, hlt⟩ := asked_lt_of_offers hfresh hreach ho hp
    exact absurd (hle u hu) (Nat.not_le.mpr hlt)
  · intro hnone u hu
    have hsolvent := (solvent_history hfresh hnone).of_isPrefix hu
    exact hsolvent.readied_le ((conveys_history hfresh).of_isPrefix hu)

/-- A backend that fails to parse a statement and sends `ReadyForQuery` before the frontend has sent
`Sync`. -/
def readyTooEarly : Conveyor :=
  new [.ready 0 [0, 0, 9, 0, 3, 0, 0, 0], .ready 80 [0, 0, 0, 8, 0, 0, 0, 0]]
    [.ready 82 [0, 0, 0, 8, 0, 0, 0, 0], .ready 75 [0, 0, 0, 12, 0, 0, 0, 0, 0, 0, 0, 0],
      .ready 90 [0, 0, 0, 5, 73], .pending, .ready 69 [0, 0, 0, 5, 0], .ready 90 [0, 0, 0, 5, 73]]
    .ok .ok true

/-- Its second `ReadyForQuery` is conveyed, and answers no request. -/
theorem readyTooEarly_unanswered :
    (go readyTooEarly).2.history = [.authentication .ok, .backend .backendKeyData,
        .backend .readyForQuery, .frontend .parse, .backend .errorResponse,
        .backend .readyForQuery] ∧
      ¬ ∀ u, u <+: (go readyTooEarly).2.history → readied u - 1 ≤ asked u := by
  have hhistory : (go readyTooEarly).2.history = [.authentication .ok, .backend .backendKeyData,
      .backend .readyForQuery, .frontend .parse, .backend .errorResponse,
      .backend .readyForQuery] := by decide +kernel
  refine ⟨hhistory, fun h => ?_⟩
  rw [hhistory] at h
  exact absurd (h _ (List.prefix_refl _)) (by decide)

end Postgread
