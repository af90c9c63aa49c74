import Postgread.Foundations.Proc

/-!
# Sequences of calls

`calls` makes a list of calls on one state, each where the one before has left it, whether that one
has failed or not. `checkedCalls` does the same with calls that may abort. When every single call
does what its checked version does, so do the calls of a sequence (`checkedCalls_eq`).
-/

universe u

variable {ι σ τ ε α ρ : Type u}

/-- Calls one after another, whatever they return. -/
def calls (call : ι → Proc σ ε α) : List ι → σ → List (Except ε α) × σ
  | [], s => ([], s)
  | i :: is, s =>
    let (r, s) := call i s
    let (rs, s) := calls call is s
    (r :: rs, s)

/-- Calls one after another, each of which may abort. -/
def checkedCalls (call : ι → σ → Option (ρ × σ)) : List ι → σ → Option (List ρ × σ)
  | [], s => some ([], s)
  | i :: is, s => do
    let (r, s) ← call i s
    let (rs, s) ← checkedCalls call is s
    pure (r :: rs, s)

section

variable {call : ι → Proc σ ε α}

/-- Without calls nothing happens. -/
@[simp] theorem calls_nil (s : σ) : calls call [] s = ([], s) := rfl

/-- The first call, and then the others from the state that it leaves. -/
@[simp] theorem calls_cons (i : ι) (is : List ι) (s : σ) :
    calls call (i :: is) s =
      ((call i s).1 :: (calls call is (call i s).2).1, (calls call is (call i s).2).2) := rfl

/-- Each call has an answer. -/
@[simp] theorem length_calls (is : List ι) (s : σ) : (calls call is s).1.length = is.length := by
  induction is generalizing s with
  | nil => rfl
  | cons i is ih => simp [ih]

/-- What every call keeps, a sequence keeps. -/
theorem calls_keeps {P : σ → Prop} (hcall : ∀ i, (call i).Keeps P) (is : List ι) {s : σ} (hs : P s) :
    P (calls call is s).2 := by
  induction is generalizing s with
  | nil => exact hs
  | cons i is ih => exact ih (hcall i s hs)

/-- After a failure the state has what every failure leads to and every call keeps. -/
theorem calls_of_error {P : σ → Prop} (hkeeps : ∀ i, (call i).Keeps P)
    (herror : ∀ i s e, (call i s).1 = .error e → P (call i s).2) {is : List ι} {s : σ} {e : ε}
    (he : .error e ∈ (calls call is s).1) : P (calls call is s).2 := by
  induction is generalizing s with
  | nil => cases he
  | cons i is ih =>
    rcases List.mem_cons.mp he with he | he
    · exact calls_keeps hkeeps is (herror i s e he.symm)
    · exact ih he

/-- From a state in which all calls fail, and that all calls keep, every call fails. -/
theorem mem_calls_of_stuck {P : σ → Prop} (hkeeps : ∀ i, (call i).Keeps P)
    (hfails : ∀ i s, P s → ∃ e, (call i s).1 = .error e) {is : List ι} {s : σ} (hs : P s)
    {r : Except ε α} (hr : r ∈ (calls call is s).1) : ∃ e, r = .error e := by
  induction is generalizing s with
  | nil => cases hr
  | cons i is ih =>
    rcases List.mem_cons.mp hr with rfl | hr
    · exact hfails i s hs
    · exact ih (hkeeps i s hs) hr

end

/-- Calls that do what their checked versions do. The precondition `Pre` may depend on the state that
the call is made in. -/
theorem checkedCalls_eq {call : ι → Proc τ ε α} {check : ι → σ → Option (Except ε α × σ)}
    {raw : τ → σ} {Pre : ι → τ → Prop}
    (h : ∀ i t, Pre i t → check i (raw t) = some ((call i t).1, raw (call i t).2))
    {is : List ι} {t : τ}
    (hpre : ∀ is₁ i is₂, is = is₁ ++ i :: is₂ → Pre i (calls call is₁ t).2) :
    checkedCalls check is (raw t) = some ((calls call is t).1, raw (calls call is t).2) := by
  induction is generalizing t with
  | nil => rfl
  | cons i is ih =>
    have hfirst := h i t (hpre [] i is rfl)
    have hrest := @ih (call i t).2 fun is₁ j is₂ his => hpre (i :: is₁) j is₂ (by rw [his]; rfl)
    simp [checkedCalls, hfirst, hrest]
