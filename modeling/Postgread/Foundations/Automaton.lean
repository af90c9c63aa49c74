import Mathlib.Computability.Language

/-!
# First arrivals in a partial automaton

A partial automaton `δ` reads a word letter by letter and may get stuck. `arrivals δ target s` is
the language of the words that lead from `s` to its first arrival at `target`. `arrivals_eq_sum`
turns the transitions of a state into an equation between such languages, which Arden's lemma
solves; `filter_mem_arrivals` erases letters that never change the state.
-/

universe u v

variable {σ : Type u} {α : Type v}

/-- The language of one letter. -/
def letter (k : α) : Language α := {[k]}

/-- The language of a letter has one word. -/
theorem mem_letter {k : α} {w : List α} : w ∈ letter k ↔ w = [k] := Iff.rfl

/-- Every word of such a product begins with the letter. -/
theorem nil_notMem_letter_mul (k : α) (l : Language α) : [] ∉ letter k * l := by
  rintro h
  obtain ⟨a, ha, b, -, hab⟩ := Language.mem_mul.mp h
  rw [mem_letter.mp ha] at hab
  cases hab

/-- A word of such a product is its letter followed by a word of the second language. -/
theorem cons_mem_letter_mul {k k' : α} {w : List α} {l : Language α} :
    k :: w ∈ letter k' * l ↔ k = k' ∧ w ∈ l := by
  constructor
  · intro h
    obtain ⟨a, ha, b, hb, hab⟩ := Language.mem_mul.mp h
    rw [mem_letter.mp ha] at hab
    obtain ⟨rfl, rfl⟩ : k' = k ∧ b = w := by simpa using hab
    exact ⟨rfl, hb⟩
  · rintro ⟨rfl, hw⟩
    exact Language.append_mem_mul (mem_letter.mpr rfl) hw

/-- The empty word is not added by a sum. -/
theorem nil_notMem_add {l m : Language α} (hl : [] ∉ l) (hm : [] ∉ m) : [] ∉ l + m := by
  rw [Language.mem_add]
  exact not_or_intro hl hm

/-- The word of a letter is not empty. -/
theorem nil_notMem_letter (k : α) : [] ∉ letter k := nofun

/-- A word of a sum belongs to one of the summands. -/
theorem mem_sum_map {ι : Type*} {f : ι → Language α} {ts : List ι} {w : List α} :
    w ∈ (ts.map f).sum ↔ ∃ t ∈ ts, w ∈ f t := by
  induction ts with
  | nil => simp
  | cons t ts ih =>
    rw [List.map_cons, List.sum_cons, Language.mem_add, ih]
    simp

/-- The words that lead from a state to its first arrival at the target. -/
def arrivals (δ : σ → α → Option σ) (target s : σ) : Language α :=
  {w | w.foldlM δ s = some target ∧ ∀ u, u <+: w → u ≠ w → u.foldlM δ s ≠ some target}

section

variable {δ : σ → α → Option σ} {target s : σ}

/-- A first arrival is an arrival. -/
theorem foldlM_of_mem_arrivals {w : List α} (h : w ∈ arrivals δ target s) :
    w.foldlM δ s = some target := h.1

/-- The empty word arrives only where it starts. -/
theorem nil_mem_arrivals : [] ∈ arrivals δ target s ↔ s = target := by
  constructor
  · intro h
    exact Option.some.inj h.1
  · rintro rfl
    exact ⟨rfl, fun u hu hne => absurd (List.prefix_nil.mp hu) hne⟩

/-- At the target nothing has to be read. -/
theorem arrivals_self : arrivals δ target target = 1 := by
  ext w
  rw [Language.mem_one]
  constructor
  · intro h
    by_contra hne
    exact h.2 [] List.nil_prefix (Ne.symm hne) rfl
  · rintro rfl
    exact nil_mem_arrivals.mpr rfl

/-- Elsewhere a letter is read, and the rest arrives from the state after it. -/
theorem cons_mem_arrivals (hs : s ≠ target) {k : α} {w : List α} :
    k :: w ∈ arrivals δ target s ↔ ∃ s', δ s k = some s' ∧ w ∈ arrivals δ target s' := by
  have hcons (u : List α) : (k :: u).foldlM δ s = (δ s k).bind fun s' => u.foldlM δ s' := rfl
  constructor
  · rintro ⟨hw, hfirst⟩
    rw [hcons] at hw
    obtain ⟨s', hk, hw⟩ := Option.bind_eq_some_iff.mp hw
    refine ⟨s', hk, hw, fun u hu hne hreach => ?_⟩
    refine hfirst (k :: u) (List.cons_prefix_cons.mpr ⟨rfl, hu⟩) (by simpa using hne) ?_
    rw [hcons, hk]
    exact hreach
  · rintro ⟨s', hk, hw, hfirst⟩
    refine ⟨by rw [hcons, hk]; exact hw, fun u hu hne hreach => ?_⟩
    rcases List.prefix_cons_iff.mp hu with rfl | ⟨u', rfl, hu'⟩
    · exact hs (Option.some.inj hreach)
    · rw [hcons, hk] at hreach
      exact hfirst u' hu' (by simpa using hne) hreach

/-- The transitions of a state are an equation between languages. -/
theorem arrivals_eq_sum (hs : s ≠ target) {ts : List (α × σ)}
    (hts : ∀ k s', δ s k = some s' ↔ (k, s') ∈ ts) :
    arrivals δ target s = (ts.map fun t => letter t.1 * arrivals δ target t.2).sum := by
  ext w
  rw [mem_sum_map]
  rcases w with _ | ⟨k, w⟩
  · rw [nil_mem_arrivals]
    constructor
    · exact fun h => absurd h hs
    · rintro ⟨t, -, ht⟩
      exact absurd ht (nil_notMem_letter_mul _ _)
  · simp only [cons_mem_arrivals hs, cons_mem_letter_mul, hts]
    constructor
    · rintro ⟨s', hmem, hw⟩
      exact ⟨(k, s'), hmem, rfl, hw⟩
    · rintro ⟨⟨k', s'⟩, hmem, rfl, hw⟩
      exact ⟨s', hmem, hw⟩

/-- A word that has not arrived yet, and a word that arrives after it. -/
theorem append_mem_arrivals {u w : List α} {s' : σ} (hu : u.foldlM δ s = some s')
    (hno : ∀ v, v <+: u → v ≠ u → v.foldlM δ s ≠ some target) (hw : w ∈ arrivals δ target s') :
    u ++ w ∈ arrivals δ target s := by
  induction u generalizing s with
  | nil =>
    obtain rfl : s = s' := Option.some.inj hu
    exact hw
  | cons k u ih =>
    have hs : s ≠ target := fun h => hno [] List.nil_prefix (by simp) (congrArg some h)
    rw [List.foldlM_cons] at hu
    obtain ⟨s₁, hk, hu⟩ := Option.bind_eq_some_iff.mp hu
    refine (cons_mem_arrivals hs).mpr ⟨s₁, hk, ih hu fun v hv hne hreach => ?_⟩
    refine hno (k :: v) (List.cons_prefix_cons.mpr ⟨rfl, hv⟩) (by simpa using hne) ?_
    rw [List.foldlM_cons, hk]
    exact hreach

/-! ## Letters that do not change the state -/

/-- The automaton without some of its letters. -/
def without (quiet : α → Bool) (δ : σ → α → Option σ) (s : σ) (k : α) : Option σ :=
  if quiet k then none else δ s k

variable {quiet : α → Bool}

/-- Quiet letters can be left out of a word without a change of the state. -/
theorem foldlM_filter (hquiet : ∀ s k, quiet k → δ s k = some s) (w : List α) (s : σ) :
    (w.filter (! quiet ·)).foldlM δ s = w.foldlM δ s := by
  induction w generalizing s with
  | nil => rfl
  | cons k w ih =>
    rcases hk : quiet k with _ | _
    · rw [List.filter_cons_of_pos (by simp [hk]), List.foldlM_cons, List.foldlM_cons]
      simp only [ih]
    · rw [List.filter_cons_of_neg (by simp [hk]), ih, List.foldlM_cons, hquiet s k hk]
      rfl

/-- A word that is read by the automaton without quiet letters is read by the automaton itself. -/
theorem foldlM_of_foldlM_without {w : List α} {s' : σ}
    (h : w.foldlM (without quiet δ) s = some s') : w.foldlM δ s = some s' := by
  induction w generalizing s with
  | nil => exact h
  | cons k w ih =>
    rw [List.foldlM_cons] at h
    obtain ⟨s₁, hk, hw⟩ := Option.bind_eq_some_iff.mp h
    rw [without] at hk
    split at hk
    · cases hk
    · rw [List.foldlM_cons, hk]
      exact ih hw

/-- On the way to a state the two automata agree. -/
theorem foldlM_without_of_isPrefix {u v : List α} {s' : σ}
    (hu : u.foldlM (without quiet δ) s = some s') (hv : v <+: u) :
    v.foldlM (without quiet δ) s = v.foldlM δ s := by
  obtain ⟨t, rfl⟩ := hv
  rw [List.foldlM_append] at hu
  obtain ⟨s₁, hv, -⟩ := Option.bind_eq_some_iff.mp hu
  rw [hv, foldlM_of_foldlM_without hv]

/-- The automaton without the quiet letters reads none of them. -/
theorem not_quiet_of_foldlM_without {w : List α} {s' : σ}
    (h : w.foldlM (without quiet δ) s = some s') : ∀ k ∈ w, ¬ quiet k := by
  induction w generalizing s with
  | nil => simp
  | cons k w ih =>
    rw [List.foldlM_cons] at h
    obtain ⟨s₁, hk, hw⟩ := Option.bind_eq_some_iff.mp h
    refine List.forall_mem_cons.mpr ⟨fun hquiet => ?_, ih hw⟩
    rw [without, if_pos hquiet] at hk
    cases hk

/-- Without the quiet letters, a word that arrives is a word of the automaton without them. -/
theorem filter_mem_arrivals (hquiet : ∀ s k, quiet k → δ s k = some s) {w : List α}
    (h : w ∈ arrivals δ target s) :
    w.filter (! quiet ·) ∈ arrivals (without quiet δ) target s := by
  induction w generalizing s with
  | nil => exact nil_mem_arrivals.mpr (nil_mem_arrivals.mp h)
  | cons k w ih =>
    have hs : s ≠ target := by
      rintro rfl
      rw [arrivals_self, Language.mem_one] at h
      cases h
    obtain ⟨s', hk, hw⟩ := (cons_mem_arrivals hs).mp h
    rcases hq : quiet k with _ | _
    · rw [List.filter_cons_of_pos (by simp [hq])]
      exact (cons_mem_arrivals hs).mpr ⟨s', by simpa [without, hq] using hk, ih hw⟩
    · rw [List.filter_cons_of_neg (by simp [hq])]
      obtain rfl : s = s' := by
        rw [hquiet s k hq] at hk
        exact Option.some.inj hk
      exact ih hw

/-- With quiet letters anywhere, a word of the automaton without them still leads to the target. -/
theorem foldlM_of_filter_mem_arrivals (hquiet : ∀ s k, quiet k → δ s k = some s) {w : List α}
    (h : w.filter (! quiet ·) ∈ arrivals (without quiet δ) target s) :
    w.foldlM δ s = some target := by
  rw [← foldlM_filter hquiet]
  exact foldlM_of_foldlM_without (foldlM_of_mem_arrivals h)

end
