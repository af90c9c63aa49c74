import Postgread.Foundations.Segments

/-!
# How a stream stops

Whoever reads a stream to its end gets some tokens and then a halt: the end of the stream, an error,
or silence. `Script.fate` is what it comes to. A read that fails has consumed exactly these tokens
and fails with this halt, however large its buffer was, and a race that nobody wins has seen the
silence of both streams.
-/

universe u

variable {τ ε σ α β : Type u}

section

variable [UnexpectedEof ε]

/-- The tokens that a script brings before it stops, and how it stops. -/
def Script.fate : Script τ ε → List τ × Halt ε
  | [] => ([], .waiting)
  | .pending :: s => Script.fate s
  | .ready head tail :: s => (head :: tail ++ (Script.fate s).1, (Script.fate s).2)
  | .eof :: _ => ([], .error UnexpectedEof.unexpectedEof)
  | .error e :: _ => ([], .error e)

/-- A buffer that is filled takes the first tokens of the script, and one that is not takes all. -/
theorem fate_of_fill (s : Script τ ε) (n : ℕ) : s.fate = match fill s n with
    | (.ok _, got, rest) => (got ++ rest.fate.1, rest.fate.2)
    | (.error halt, got, _) => (got, halt) := by
  fun_induction fill s n with
  | case1 => rfl
  | case2 => rfl
  | case3 s n ih => exact ih
  | case4 head tail s n hdrop result got rest heq ih =>
    rw [heq] at ih
    rcases result with halt | u
    · simp only at ih
      simp [Script.fate, ih]
    · simp only at ih
      simp [Script.fate, ih]
  | case5 head tail s n next later hdrop =>
    have htail : tail.take n ++ next :: later = tail := by rw [← hdrop, List.take_append_drop]
    conv_lhs => rw [Script.fate, ← htail]
    simp [Script.fate]
  | case6 => rfl
  | case7 => rfl

/-- A buffer that cannot be filled gets all that the stream has, and the halt is the stream's. -/
theorem fate_of_fill_error {s rest : Script τ ε} {n : ℕ} {got : List τ} {halt : Halt ε}
    (h : fill s n = (.error halt, got, rest)) : s.fate = (got, halt) := by
  rw [fate_of_fill s n, h]

/-- What a stream brings comes first in its fate. -/
theorem Brings.fate_eq {s s' : Script τ ε} {tokens : List τ} (h : Brings s tokens s') :
    s.fate = (tokens ++ s'.fate.1, s'.fate.2) := by
  rw [fate_of_fill s tokens.length, h]

/-- Waiting does not change what becomes of a stream. -/
theorem Waits.fate_eq {s s' : Script τ ε} (h : Waits pollOne s s') : s'.fate = s.fate := by
  refine @Waits.preserves _ _ pollOne (fun t => t.fate = s.fate) (fun t t' ht hs => ?_) s s' h rfl
  rcases pollOne_pending ht with ⟨rfl, rfl⟩ | rfl
  · exact hs
  · exact hs

/-- A stream that fails at once brings nothing. -/
theorem fate_of_pollOne_error {s s' : Script τ ε} {e : ε}
    (h : pollOne s = (.ready (.error e), s')) : s.fate = ([], .error e) := by
  unfold pollOne at h
  split at h
  all_goals simp only [Prod.mk.injEq, Poll.ready.injEq, Except.error.injEq, reduceCtorEq,
    false_and] at h
  · rw [← h.1]
    rfl
  · rw [← h.1]
    rfl

end

section Select

variable {pollLeft : σ → Poll α × σ} {pollRight : τ → Poll β × τ}

/-- With more rounds than both futures need, a race that nobody wins has come to where nothing
happens any more. -/
theorem stuck_of_select_pending {μ : σ → ℕ} {ν : τ → ℕ} (hleft : Settles pollLeft μ)
    (hright : Settles pollRight ν) {rounds : ℕ} {s s' : σ} {t t' : τ} (h : μ s + ν t < rounds)
    (hselect : select pollLeft pollRight rounds s t = (.pending, s', t')) :
    pollLeft s' = (.pending, s') ∧ pollRight t' = (.pending, t') := by
  induction rounds generalizing s t with
  | zero => omega
  | succ rounds ih =>
    rw [select] at hselect
    rcases hs : pollLeft s with ⟨_ | a, s₁⟩
    · rcases ht : pollRight t with ⟨_ | b, t₁⟩
      · simp only [hs, ht] at hselect
        rcases hleft s s₁ hs with rfl | hμ
        · rcases hright t t₁ ht with rfl | hν
          · rw [select_of_stuck hs ht] at hselect
            obtain ⟨rfl, rfl⟩ : s₁ = s' ∧ t₁ = t' := by simpa using hselect
            exact ⟨hs, ht⟩
          · exact ih (by omega) hselect
        · rcases hright t t₁ ht with rfl | hν
          · exact ih (by omega) hselect
          · exact ih (by omega) hselect
      · simp [hs, ht] at hselect
    · simp [hs] at hselect

end Select
