import Postgread.Convey.History

/-!
# Cycles

A `Cycle` is a part of a run in the main loop that does not go on from `State::ReadyForQuery`.
`toReady` are the words that lead from a state to its first arrival there, without notices; the
table of the main loop gives an equation for each of these languages (`toReady_eq`), and they
describe what a run conveys in a cycle (`history_of_request`, `advanceAll_of_mem_cycle`).
-/

namespace Postgread

open Body Conveyor Event

/-- The language of one authentication request. -/
abbrev AuthType.word (t : AuthType) : Language Kind := letter (.authentication t)

/-- The language of one message of the backend. -/
abbrev BackendType.word (t : BackendType) : Language Kind := letter (.backend t)

/-- The language of one message of the frontend. -/
abbrev FrontendType.word (t : FrontendType) : Language Kind := letter (.frontend t)

/-- The words that lead from a state to `State::ReadyForQuery`, without notices. -/
abbrev toReady (s : State) : Language Kind := arrivals advanceQuiet .readyForQuery s

/-- The equation of a state whose transitions are known. -/
theorem toReady_eq {s : State} (hs : s ≠ .readyForQuery) {ts : List (Kind × State)}
    (hts : s.quietTransitions = ts) :
    toReady s = (ts.map fun t => letter t.1 * toReady t.2).sum :=
  arrivals_of_transitions hs hts

/-- At `State::ReadyForQuery` the cycle has come to its end. -/
theorem toReady_readyForQuery : toReady .readyForQuery = 1 := arrivals_self

namespace Conveyor

variable {c c' c₀ c₁ : Conveyor} {s s' s₁ : State}

/-- Steps from other states than `State::ReadyForQuery`. -/
def Cycle : Phase × Conveyor → Phase × Conveyor → Prop :=
  Relation.ReflTransGen fun x y => x.1 ≠ .looping .readyForQuery ∧ StepsTo step x y

/-- A cycle is a part of a run. -/
theorem Cycle.reaches {x y : Phase × Conveyor} (h : Cycle x y) : Reaches step x y :=
  Relation.ReflTransGen.mono (fun _ _ hxy => hxy.2) _ _ h

/-- What is conveyed before the next arrival at `State::ReadyForQuery`. -/
theorem history_of_cycle (h : c₀.Fresh) (hreach : Reaches step (.initial, c₀) (.looping s, c))
    (hcycle : Cycle (.looping s, c) (.looping s', c')) :
    ∃ w, c'.history = c.history ++ w ∧ advanceAll s w = some s' ∧
      ∀ u, u <+: w → u ≠ w → advanceAll s u ≠ some .readyForQuery := by
  generalize hx : ((.looping s, c) : Phase × Conveyor) = x at hcycle
  generalize hy : ((.looping s', c') : Phase × Conveyor) = y at hcycle
  -- taken apart at its first step, so that each message is put before the word of the rest
  induction hcycle using Relation.ReflTransGen.head_induction_on generalizing s c with
  | refl =>
    obtain ⟨rfl, rfl⟩ : s = s' ∧ c = c' := by simpa [← hy] using hx
    exact ⟨[], by simp, rfl, fun u hu hne => absurd (List.prefix_nil.mp hu) hne⟩
  | @head x z hfirst hrest ih =>
    subst hx hy
    obtain ⟨hready, hstep⟩ := hfirst
    obtain ⟨s₁, hs₁⟩ := phase_of_stepsTo_looping hstep
    obtain ⟨ph, c₁⟩ := z
    obtain rfl : ph = .looping s₁ := hs₁
    obtain ⟨p, c₂, -, hadvance, hp⟩ := exists_offers_of_stepsTo h hreach hstep
    obtain ⟨w, hhistory, hw, hfirst⟩ := ih (hreach.tail hstep) rfl
    refine ⟨p.kind :: w, by rw [hhistory, hp, List.append_assoc]; rfl, ?_, fun u hu hne => ?_⟩
    · rw [advanceAll_cons, hadvance]
      exact hw
    · rcases List.prefix_cons_iff.mp hu with rfl | ⟨u', rfl, hu'⟩
      · intro hnil
        obtain rfl : s = .readyForQuery := Option.some.inj hnil
        exact hready rfl
      · rw [advanceAll_cons, hadvance]
        exact hfirst u' hu' fun heq => hne (by rw [heq])

/-- What is conveyed from a message in `State::ReadyForQuery` on, before the next arrival there. -/
theorem history_of_request (h : c₀.Fresh)
    (hreach : Reaches step (.initial, c₀) (.looping .readyForQuery, c)) {k : Kind}
    (hk : advance .readyForQuery k = some s)
    (hstep : StepsTo step (.looping .readyForQuery, c) (.looping s₁, c₁))
    (hrequest : c₁.history = c.history ++ [k])
    (hcycle : Cycle (.looping s₁, c₁) (.looping s', c')) :
    s₁ = s ∧ ∃ w, c'.history = c.history ++ k :: w ∧ advanceAll s w = some s' ∧
      (∀ u, u <+: w → u ≠ w → advanceAll s u ≠ some .readyForQuery) ∧
      (s' = .readyForQuery → eraseNotices w ∈ toReady s) := by
  obtain ⟨w₁, hw₁, hhistory₁⟩ := history_of_reaches h hreach (.single hstep)
  obtain rfl : w₁ = [k] := List.append_cancel_left (hhistory₁.symm.trans hrequest)
  rw [advanceAll_cons, hk] at hw₁
  obtain rfl : s = s₁ := Option.some.inj hw₁
  obtain ⟨w, hhistory, hw, hfirst⟩ := history_of_cycle h (hreach.tail hstep) hcycle
  refine ⟨rfl, w, by rw [hhistory, hrequest, List.append_assoc]; rfl, hw, hfirst, ?_⟩
  rintro rfl
  exact filter_mem_arrivals advance_of_isNotice ⟨hw, hfirst⟩

/-- A word that arrives and leads through other states than `State::ReadyForQuery` is conveyed in a
cycle. -/
theorem cycle_of_arrives (h : c₀.Fresh) (hreach : Reaches step (.initial, c₀) (.looping s, c))
    {ps : List Packet} (harrives : Arrives c ps c')
    (hadvance : advanceAll s (ps.map Packet.kind) = some s')
    (hfirst : ∀ u, u <+: ps.map Packet.kind → u ≠ ps.map Packet.kind →
      advanceAll s u ≠ some .readyForQuery) : ∃ c₂, Cycle (.looping s, c) (.looping s', c₂) := by
  induction ps generalizing c c' s with
  | nil =>
    obtain rfl : s = s' := Option.some.inj hadvance
    exact ⟨c, .refl⟩
  | cons p ps ih =>
    cases harrives with
    | @cons _ d _ _ _ ho harrives =>
      rw [List.map_cons, advanceAll_cons] at hadvance
      obtain ⟨s₁, hk, hadvance⟩ := Option.bind_eq_some_iff.mp hadvance
      obtain ⟨σ, -, -, -, -, -, hopen, -⟩ := session_of_reaches h hreach
      have hready : s ≠ .readyForQuery := fun heq =>
        hfirst [] List.nil_prefix (by simp) (by rw [advanceAll_nil, heq])
      have hstep := (stepsTo_looping_iff hopen).mpr ⟨p, d, ho, hk, rfl⟩
      obtain ⟨c₂, hcycle⟩ := ih (hreach.tail hstep) (harrives.log _) hadvance fun u hu hne => by
        have hnot := hfirst (p.kind :: u) (List.cons_prefix_cons.mpr ⟨rfl, hu⟩) (by simpa using hne)
        rwa [advanceAll_cons, hk] at hnot
      exact ⟨c₂, .head ⟨fun heq => hready (by cases heq; rfl), hstep⟩ hcycle⟩

/-- A request with its cycle, right after a start-up. -/
theorem exists_cycle_inOrder {p : Packet} {ps : List Packet}
    (htypes : ∀ q ∈ p :: ps, q.type.typeByteOpt.isSome)
    (hk : advance .readyForQuery p.kind = some s)
    (hword : ps.map Packet.kind ∈ arrivals advance .readyForQuery s) :
    ∃ c c₁ c₂ c', Reaches step (.initial, inOrder (conversation (p :: ps)))
        (.looping .readyForQuery, c) ∧
      StepsTo step (.looping .readyForQuery, c) (.looping s, c₁) ∧
      c₁.history = c.history ++ [p.kind] ∧ Cycle (.looping s, c₁) (.looping .readyForQuery, c₂) ∧
      Arrives c (p :: ps) c' := by
  have hfresh : (inOrder (conversation (p :: ps))).Fresh := fresh_new _ _ _ _ _
  obtain ⟨d, d', hd, -, harrives, -⟩ := @exists_arrives_inOrder (conversation (p :: ps))
    fun q hq => (List.mem_append.mp hq).elim (fun hmem => by
      rcases hmem with _ | ⟨_, _ | ⟨_, _ | ⟨_, ⟨⟩⟩⟩⟩ <;> rfl) (htypes q)
  obtain ⟨d₁, hstartup, harrives⟩ := arrives_append harrives
  obtain ⟨σ, -, -, -, -, -, hopen, -⟩ := session_of_reaches hfresh hd
  have hreach := hd.trans (reaches_of_arrives hopen hstartup
    (show advanceAll .gotStartup _ = some .readyForQuery by rfl))
  have hrequest := harrives.log
    ([.authenticationOk, .backendKeyData, .readyForQuery].flatMap fun q : Packet =>
      q.events σ.layers)
  cases hrequest with
  | cons ho hrest =>
    obtain ⟨σ', -, -, -, -, -, hopen', -⟩ := session_of_reaches hfresh hreach
    have hstep := (stepsTo_looping_iff hopen').mpr ⟨p, _, ho, hk, rfl⟩
    obtain ⟨c₂, hcycle⟩ := cycle_of_arrives hfresh (hreach.tail hstep) (hrest.log _) hword.1 hword.2
    exact ⟨_, _, c₂, _, hreach, hstep, history_of_offers hfresh hreach ho, hcycle, .cons ho hrest⟩

end Conveyor

/-- A message and a word of its cycle lead back to `State::ReadyForQuery`. -/
theorem advanceAll_of_mem_cycle {k : Kind} {s : State} {ks : List Kind}
    (hk : advance .readyForQuery k = some s) (h : eraseNotices ks ∈ letter k * toReady s) :
    advanceAll .readyForQuery ks = some .readyForQuery := by
  obtain ⟨u, hu, v, hv, huv⟩ := Language.mem_mul.mp h
  have hrest : v.foldlM advance s = some .readyForQuery :=
    foldlM_of_foldlM_without (foldlM_of_mem_arrivals hv)
  rw [advanceAll, ← foldlM_filter advance_of_isNotice, ← eraseNotices, ← huv, mem_letter.mp hu]
  show (advance .readyForQuery k).bind (fun s' => v.foldlM advance s') = some .readyForQuery
  rw [hk]
  exact hrest

end Postgread
