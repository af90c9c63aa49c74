import Postgread.Foundations.Decoder

/-!
# The rounds of a loop

`Rounds step k b c r c'` is the loop over `step` without any fuel: it makes `k` rounds from the
value `b` at the cursor `c`, and ends with `r` at `c'`. When every round that asks for another one
consumes, a loop at a cursor with `n` elements left makes at most `n + 1` rounds (`Rounds.le`), and
`Decoder.loop` is this loop (`rounds_loop`).
-/

universe u

namespace Decoder

variable {τ ε α β : Type u}

/-- So many rounds of a loop, with its result. -/
inductive Rounds (step : β → Decoder τ ε (ForInStep β)) :
    ℕ → β → Cursor τ → Except ε β → Cursor τ → Prop where
  | done {b b' : β} {c c' : Cursor τ} (h : step b c = (.ok (.done b'), c')) :
      Rounds step 1 b c (.ok b') c'
  | fail {b : β} {c c' : Cursor τ} {e : ε} (h : step b c = (.error e, c')) :
      Rounds step 1 b c (.error e) c'
  | next {k : ℕ} {b b' : β} {c c' c'' : Cursor τ} {r : Except ε β}
      (h : step b c = (.ok (.yield b'), c')) (hs : Rounds step k b' c' r c'') :
      Rounds step (k + 1) b c r c''

/-- A round that asks for another one moves on in the same slice. -/
def Advances (step : β → Decoder τ ε (ForInStep β)) : Prop :=
  ∀ ⦃b b' c c'⦄, step b c = (.ok (.yield b'), c') → c'.slice = c.slice ∧ c.pos < c'.pos

/-- What a decoder consumes moves its cursor on. -/
theorem pos_lt_of_parse {d : Decoder τ ε α} (hd : Local d) {c c' : Cursor τ} {a : α}
    (h : d c = (.ok a, c')) (hlt : c'.rest.length < c.rest.length) :
    c'.slice = c.slice ∧ c.pos < c'.pos := by
  have hslice : c'.slice = c.slice := by
    have hslice := hd.slice_eq c
    rwa [h] at hslice
  have hsum := c.pos_add_left
  have hsum' := c'.pos_add_left
  rw [Cursor.length_rest, Cursor.length_rest] at hlt
  rw [hslice] at hsum'
  exact ⟨hslice, by omega⟩

/-- Local rounds that use up the input move the cursor forward. -/
theorem advances_of_consumes {step : β → Decoder τ ε (ForInStep β)} (hstep : ∀ b, Local (step b))
    (hcons : Consumes step) : Advances step := by
  intro b b' c c' h
  have hparse := parseAt_of_ok h
  rw [(hstep b).parseAt_eq] at hparse
  exact pos_lt_of_parse (hstep b) h (hcons hparse)

/-- Every round but the last leaves fewer tokens. -/
theorem Advances.left_lt {step : β → Decoder τ ε (ForInStep β)} (hstep : Advances step) {b b' : β}
    {c c' : Cursor τ} (h : step b c = (.ok (.yield b'), c')) : c'.left < c.left := by
  obtain ⟨hslice, hpos⟩ := hstep h
  have hsum := c.pos_add_left
  have hsum' := c'.pos_add_left
  rw [hslice] at hsum'
  omega

/-- There are no more rounds than elements left, and one. -/
theorem Rounds.le {step : β → Decoder τ ε (ForInStep β)} {k : ℕ} {b : β} {c c' : Cursor τ}
    {r : Except ε β} (hstep : Advances step) (h : Rounds step k b c r c') :
    k ≤ c.left + 1 := by
  induction h with
  | done => omega
  | fail => omega
  | next h _ ih =>
    have hlt := hstep.left_lt h
    omega

section

variable [Inhabited ε] {step : β → Decoder τ ε (ForInStep β)}

/-- With enough fuel the loop with fuel makes the rounds of the loop without. -/
theorem rounds_loopFuel (hstep : Advances step) {fuel : ℕ} {b : β} {c : Cursor τ}
    (hfuel : c.left < fuel) :
    ∃ k, Rounds step k b c (loopFuel step fuel b c).1 (loopFuel step fuel b c).2 := by
  induction fuel generalizing b c with
  | zero => omega
  | succ fuel ih =>
    rcases h : step b c with ⟨e | b' | b', c'⟩
    · rw [loopFuel, Proc.bind_of_error h]
      exact ⟨1, .fail h⟩
    · rw [loopFuel, Proc.bind_of_ok h]
      exact ⟨1, .done h⟩
    · have hlt := hstep.left_lt h
      obtain ⟨k, hk⟩ := @ih b' c' (by omega)
      rw [loopFuel, Proc.bind_of_ok h]
      exact ⟨k + 1, .next h hk⟩

/-- The loop goes round a certain number of times. -/
theorem rounds_loop (hstep : Advances step) (b : β) (c : Cursor τ) :
    ∃ k, Rounds step k b c (loop step b c).1 (loop step b c).2 :=
  rounds_loopFuel hstep (Nat.lt_succ_self _)

end

/-- The decoder is the loop over `step` from `b`, up to a renaming of the result. At a cursor with
`n` elements left the loop ends after at most `n + 1` rounds, because every other round consumes. -/
structure LoopsWithin (d : Decoder τ ε α) (step : β → Decoder τ ε (ForInStep β)) (b : β)
    (f : β → α) : Prop where
  advances : Advances step
  ends : ∀ c, ∃ k r c', Rounds step k b c r c' ∧ d c = (r.map f, c')
  le : ∀ c k r c', Rounds step k b c r c' → k ≤ c.left + 1

/-- A decoder that goes round like the loop stays within the bound of the loop. -/
theorem loopsWithin_of_ends {d : Decoder τ ε α} {step : β → Decoder τ ε (ForInStep β)} {b : β}
    {f : β → α} (hstep : Advances step)
    (hends : ∀ c, ∃ k r c', Rounds step k b c r c' ∧ d c = (r.map f, c')) :
    LoopsWithin d step b f :=
  ⟨hstep, hends, fun _ _ _ _ h => h.le hstep⟩

/-- A loop itself stays within the bound. -/
theorem loopsWithin_loop [Inhabited ε] {step : β → Decoder τ ε (ForInStep β)}
    (hstep : ∀ b, Local (step b)) (hcons : Consumes step) (b : β) (f : β → α) :
    LoopsWithin (f <$> loop step b) step b f := by
  have hadvances := advances_of_consumes hstep hcons
  refine loopsWithin_of_ends hadvances fun c => ?_
  obtain ⟨k, hk⟩ := rounds_loop hadvances b c
  refine ⟨k, _, _, hk, ?_⟩
  rw [← bind_pure_comp]
  rcases h : loop step b c with ⟨e | b', c'⟩
  · rw [Proc.bind_of_error h]
    rfl
  · rw [Proc.bind_of_ok h]
    rfl

end Decoder
