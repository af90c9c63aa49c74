import Mathlib.Logic.Relation
import Postgread.Foundations.Proc

/-!
# Polled streams

A `Script` lists what the successive reads of an asynchronous stream answer, each at most one answer
per poll: not ready, some tokens, the end of the stream, or an error. After its last entry the
stream stays silent, so a finite script describes a run observed up to any point.

`readExact` is the loop that fills a buffer of a fixed size; it is polled again after each
`pending`. `select` polls two futures in turn until one is ready and drops the other.

Programs import these two functions from a library for asynchronous input and output. The
definitions follow what the documentation of such a library says: `read_exact` returns an error of
its own kind when the stream ends before the buffer is full, and leaves the bytes of a failed call
consumed; `select` polls its first argument first, and returns the value that is ready together with
the other future, which the caller drops.
-/

universe u

/-- What one poll of a read answers. A `ready` answer holds at least one token. -/
inductive ReadPoll (τ ε : Type u) where
  | pending
  | ready (head : τ) (tail : List τ)
  | eof
  | error (e : ε)
deriving DecidableEq, Repr

/-- The answers to the successive polls of one stream. -/
abbrev Script (τ ε : Type u) := List (ReadPoll τ ε)

variable {τ ε σ α β : Type u}

/-- The tokens that one answer brings. -/
def ReadPoll.tokens : ReadPoll τ ε → List τ
  | .ready head tail => head :: tail
  | _ => []

/-- All tokens of a script, in order. -/
def Script.tokens (s : Script τ ε) : List τ :=
  s.flatMap ReadPoll.tokens

/-- A silent stream has no tokens. -/
@[simp] theorem Script.tokens_nil : Script.tokens ([] : Script τ ε) = [] := rfl

/-- The tokens of the first answer come first. -/
@[simp] theorem Script.tokens_cons (p : ReadPoll τ ε) (s : Script τ ε) :
    Script.tokens (p :: s) = p.tokens ++ Script.tokens s := rfl

/-! ## Filling a buffer -/

/-- Error types with a value for a stream that ends before the buffer is full. -/
class UnexpectedEof (ε : Type u) where
  unexpectedEof : ε

/-- Fill `n` more places of a buffer from a script. The result holds the way the loop ended, the
tokens it took and the rest of the script. -/
def fill [UnexpectedEof ε] : Script τ ε → ℕ → Except (Halt ε) PUnit.{u + 1} × List τ × Script τ ε
  | s, 0 => (.ok ⟨⟩, [], s)
  | [], _ + 1 => (.error .waiting, [], [])
  | .pending :: s, n + 1 => fill s (n + 1)
  | .ready head tail :: s, n + 1 =>
    match tail.drop n with
    | [] =>
      let (result, got, rest) := fill s (n - tail.length)
      (result, head :: tail ++ got, rest)
    | next :: later => (.ok ⟨⟩, head :: tail.take n, .ready next later :: s)
  | .eof :: s, _ + 1 => (.error (.error UnexpectedEof.unexpectedEof), [], s)
  | .error e :: s, _ + 1 => (.error (.error e), [], s)

/-- A stream being read: the answers still to come and the tokens taken so far. -/
structure Reader (τ ε : Type u) where
  script : Script τ ε
  taken : List τ

/-- Read exactly `n` tokens. -/
def readExact [UnexpectedEof ε] (n : ℕ) : Proc (Reader τ ε) (Halt ε) (List τ) := fun r =>
  match fill r.script n with
  | (.ok _, got, rest) => (.ok got, ⟨rest, r.taken ++ got⟩)
  | (.error h, got, rest) => (.error h, ⟨rest, r.taken ++ got⟩)

section Fill

variable [UnexpectedEof ε]

/-- Filling neither loses, repeats nor reorders a token. -/
theorem fill_tokens (s : Script τ ε) (n : ℕ) :
    (fill s n).2.1 ++ Script.tokens (fill s n).2.2 = Script.tokens s := by
  fun_induction fill s n with
  | case1 => simp
  | case2 => simp
  | case3 s n ih => simpa [ReadPoll.tokens] using ih
  | case4 head tail s n _ _ got rest heq ih =>
    rw [heq] at ih
    simpa [ReadPoll.tokens] using ih
  | case5 head tail s n next later hdrop =>
    simp only [Script.tokens_cons, ReadPoll.tokens, ← hdrop]
    rw [← List.append_assoc, List.cons_append, List.take_append_drop]
  | case6 => simp [ReadPoll.tokens]
  | case7 => simp [ReadPoll.tokens]

/-- A filled buffer holds as many tokens as were asked for. -/
theorem fill_ok_length {s rest : Script τ ε} {n : ℕ} {got : List τ} {u : PUnit}
    (h : fill s n = (.ok u, got, rest)) : got.length = n := by
  fun_induction fill s n generalizing got rest with
  | case1 => simp_all
  | case2 => simp at h
  | case3 s n ih => exact ih h
  | case4 head tail s n hdrop result got' rest' heq ih =>
    obtain ⟨rfl, rfl, rfl⟩ : result = .ok u ∧ head :: tail ++ got' = got ∧ rest' = rest := by
      simpa using h
    have hlen : tail.length ≤ n := List.drop_eq_nil_iff.mp hdrop
    have := ih heq
    simp only [List.cons_append, List.length_cons, List.length_append]
    omega
  | case5 head tail s n next later hdrop =>
    obtain ⟨rfl, -⟩ : head :: tail.take n = got ∧ _ := by simpa using h
    have hlen : n < tail.length := by
      by_contra hle
      rw [List.drop_eq_nil_iff.mpr (by omega)] at hdrop
      cases hdrop
    simp [List.length_take, Nat.min_eq_left (Nat.le_of_lt hlen)]
  | case6 => simp at h
  | case7 => simp at h

/-- A buffer that could not be filled has fewer tokens than were asked for. -/
theorem fill_error_length {s rest : Script τ ε} {n : ℕ} {got : List τ} {e : Halt ε}
    (h : fill s n = (.error e, got, rest)) : got.length < n := by
  fun_induction fill s n generalizing got rest with
  | case1 => simp at h
  | case2 => simp_all
  | case3 s n ih => exact ih h
  | case4 head tail s n hdrop result got' rest' heq ih =>
    obtain ⟨rfl, rfl, rfl⟩ : result = .error e ∧ head :: tail ++ got' = got ∧ rest' = rest := by
      simpa using h
    have hlen : tail.length ≤ n := List.drop_eq_nil_iff.mp hdrop
    have := ih heq
    simp only [List.cons_append, List.length_cons, List.length_append]
    omega
  | case5 => simp at h
  | case6 => simp_all
  | case7 => simp_all

/-- Filling in two goes is filling in one. -/
theorem fill_add (s : Script τ ε) (m n : ℕ) :
    fill s (m + n) = match fill s m with
      | (.ok _, got, rest) =>
        let (result, got', rest') := fill rest n
        (result, got ++ got', rest')
      | (.error e, got, rest) => (.error e, got, rest) := by
  fun_induction fill s m with
  | case1 s => simp
  | case2 m => rw [Nat.succ_add, fill]
  | case3 s m ih =>
    have hadd : m + 1 + n = m + n + 1 := by omega
    rw [← ih, hadd, fill]
  | case4 head tail s m hdrop result got rest heq ih =>
    have hlen : tail.length ≤ m := List.drop_eq_nil_iff.mp hdrop
    have hdrop' : tail.drop (m + n) = [] := List.drop_eq_nil_iff.mpr (by omega)
    have hsub : m + n - tail.length = m - tail.length + n := by omega
    rw [Nat.succ_add, fill, hdrop']
    simp only [hsub, ih, heq]
    rcases result with e | u
    · rfl
    · simp
  | case5 head tail s m next later hdrop =>
    -- the first part ends inside a poll, whose rest the second part goes on with
    obtain ⟨front, rfl, rfl⟩ : ∃ front, tail = front ++ next :: later ∧ m = front.length := by
      have hlt : m < tail.length := by
        by_contra hle
        rw [List.drop_eq_nil_iff.mpr (by omega)] at hdrop
        cases hdrop
      refine ⟨tail.take m, by rw [← hdrop, List.take_append_drop], ?_⟩
      rw [List.length_take_of_le (by omega)]
    rcases n with _ | n
    · simp [fill]
    · have hadd : front.length + 1 + (n + 1) = front.length + 1 + n + 1 := by omega
      have hdrop' : (front ++ next :: later).drop (front.length + 1 + n) = later.drop n := by
        simp [Nat.add_assoc, Nat.add_comm 1 n, List.drop_append]
      have htake : (front ++ next :: later).take (front.length + 1 + n) =
          front ++ next :: later.take n := by
        simp [Nat.add_assoc, Nat.add_comm 1 n, List.take_append, List.take_of_length_le]
      rw [hadd, fill, hdrop', htake]
      simp only [fill, List.take_left]
      rcases hlater : later.drop n with _ | ⟨z, zs⟩
      · have hle : later.length ≤ n := List.drop_eq_nil_iff.mp hlater
        have hsub : front.length + 1 + n - (front ++ next :: later).length = n - later.length := by
          rw [List.length_append, List.length_cons]
          omega
        simp only [hsub, List.cons_append, List.append_assoc]
      · simp
  | case6 s m => rw [Nat.succ_add, fill]
  | case7 e s m => rw [Nat.succ_add, fill]

/-- `Brings s tokens s'`: the next tokens of a script are `tokens`, and `s'` comes after them. -/
def Brings (s : Script τ ε) (tokens : List τ) (s' : Script τ ε) : Prop :=
  fill s tokens.length = (.ok ⟨⟩, tokens, s')

/-- What a stream brings are its first tokens. -/
theorem Brings.tokens_eq {s s' : Script τ ε} {tokens : List τ} (h : Brings s tokens s') :
    Script.tokens s = tokens ++ Script.tokens s' := by
  have := fill_tokens s tokens.length
  rw [h] at this
  exact this.symm

/-- A filled buffer is what the stream has brought. -/
theorem brings_of_fill {s s' : Script τ ε} {n : ℕ} {tokens : List τ} {u : PUnit}
    (h : fill s n = (.ok u, tokens, s')) : tokens.length = n ∧ Brings s tokens s' := by
  obtain rfl := fill_ok_length h
  exact ⟨rfl, h⟩

/-- A stream brings two words one after the other if it brings the first and then the second. -/
theorem brings_append {s s' : Script τ ε} {a b : List τ} :
    Brings s (a ++ b) s' ↔ ∃ s₁, Brings s a s₁ ∧ Brings s₁ b s' := by
  rw [Brings, List.length_append, fill_add]
  rcases h : fill s a.length with ⟨e | u, got, rest⟩
  · simp [Brings, h]
  · have hlen := fill_ok_length h
    constructor
    · intro heq
      rcases h' : fill rest b.length with ⟨r, got', rest'⟩
      simp only [h', Prod.mk.injEq] at heq
      obtain ⟨rfl, happ, rfl⟩ := heq
      obtain ⟨rfl, rfl⟩ := List.append_inj happ hlen
      exact ⟨rest, h, h'⟩
    · rintro ⟨s₁, ha, hb⟩
      rw [Brings, h] at ha
      obtain ⟨rfl, rfl⟩ : got = a ∧ rest = s₁ := by simpa using ha
      rw [Brings] at hb
      simp only [hb]

/-- Filling fails only with an error of the stream, or waits. -/
theorem fill_error_cases {s rest : Script τ ε} {n : ℕ} {got : List τ} {h : Halt ε}
    (hfill : fill s n = (.error h, got, rest)) : h = .waiting ∨ ∃ e, h = .error e := by
  fun_induction fill s n generalizing got rest with
  | case1 => simp at hfill
  | case2 => simp_all
  | case3 s n ih => exact ih hfill
  | case4 head tail s n hdrop result got' rest' heq ih =>
    obtain ⟨rfl, rfl, rfl⟩ : result = .error h ∧ head :: tail ++ got' = got ∧ rest' = rest := by
      simpa using hfill
    exact ih heq
  | case5 => simp at hfill
  | case6 =>
    simp only [Prod.mk.injEq, Except.error.injEq] at hfill
    exact .inr ⟨_, hfill.1.symm⟩
  | case7 =>
    simp only [Prod.mk.injEq, Except.error.injEq] at hfill
    exact .inr ⟨_, hfill.1.symm⟩

/-- A read succeeds if the buffer is filled. -/
theorem readExact_eq_ok {n : ℕ} {r r' : Reader τ ε} {got : List τ} :
    readExact n r = (.ok got, r') ↔
      fill r.script n = (.ok ⟨⟩, got, r'.script) ∧ r'.taken = r.taken ++ got := by
  rcases r' with ⟨rest', taken'⟩
  rcases h : fill r.script n with ⟨e | u, got', rest⟩
  · simp [readExact, h]
  · simp only [readExact, h, Prod.mk.injEq, Except.ok.injEq, Reader.mk.injEq]
    constructor
    · rintro ⟨rfl, rfl, rfl⟩; simp
    · rintro ⟨⟨-, rfl, rfl⟩, rfl⟩; exact ⟨rfl, rfl, rfl⟩

/-- A read succeeds with the tokens that the stream brings, and records them. -/
theorem readExact_eq_ok_iff {n : ℕ} {r r' : Reader τ ε} {got : List τ} :
    readExact n r = (.ok got, r') ↔
      got.length = n ∧ Brings r.script got r'.script ∧ r'.taken = r.taken ++ got := by
  rw [readExact_eq_ok]
  constructor
  · rintro ⟨h, htaken⟩
    obtain ⟨hlen, hbrings⟩ := brings_of_fill h
    exact ⟨hlen, hbrings, htaken⟩
  · rintro ⟨rfl, hbrings, htaken⟩
    exact ⟨hbrings, htaken⟩

/-- A read fails with what has come so far, which is consumed. -/
theorem readExact_eq_error {n : ℕ} {r r' : Reader τ ε} {h : Halt ε} :
    readExact n r = (.error h, r') ↔
      ∃ got, fill r.script n = (.error h, got, r'.script) ∧ r'.taken = r.taken ++ got := by
  rcases r' with ⟨rest', taken'⟩
  rcases hfill : fill r.script n with ⟨e | u, got', rest⟩
  · simp only [readExact, hfill, Prod.mk.injEq, Except.error.injEq, Reader.mk.injEq]
    constructor
    · rintro ⟨rfl, rfl, rfl⟩; exact ⟨got', ⟨rfl, rfl, rfl⟩, rfl⟩
    · rintro ⟨got, ⟨rfl, rfl, rfl⟩, rfl⟩; exact ⟨rfl, rfl, rfl⟩
  · simp [readExact, hfill]

/-- A read of tokens has no reason to panic. -/
theorem not_panics_readExact (n : ℕ) (r : Reader τ ε) :
    ¬ Proc.Panics (readExact n : Proc (Reader τ ε) (Halt ε) (List τ)) r := by
  rw [Proc.panics_iff]
  rintro ⟨r', h⟩
  obtain ⟨got, hfill, -⟩ := readExact_eq_error.mp h
  rcases fill_error_cases hfill with h | ⟨e, h⟩
  · cases h
  · cases h

/-- The reads of a procedure neither lose, repeat nor reorder a token. -/
def Honest (x : Proc (Reader τ ε) (Halt σ) α) : Prop :=
  ∀ r, ∃ got, (x r).2.taken = r.taken ++ got ∧
    Script.tokens r.script = got ++ Script.tokens (x r).2.script

namespace Honest

omit [UnexpectedEof ε]

/-- What takes nothing is honest. -/
theorem pure (a : α) : Honest (Pure.pure a : Proc (Reader τ ε) (Halt σ) α) :=
  fun r => ⟨[], by simp, rfl⟩

/-- What fails without taking anything is honest. -/
theorem fail (e : Halt σ) : Honest (Proc.fail e : Proc (Reader τ ε) (Halt σ) α) :=
  fun r => ⟨[], by simp, rfl⟩

/-- Honest procedures one after the other are honest. -/
theorem bind {x : Proc (Reader τ ε) (Halt σ) α} {f : α → Proc (Reader τ ε) (Halt σ) β}
    (hx : Honest x) (hf : ∀ a, Honest (f a)) : Honest (x >>= f) := by
  intro r
  obtain ⟨got, htaken, htokens⟩ := hx r
  rcases h : x r with ⟨e | a, r'⟩
  · rw [Proc.bind_of_error h]
    rw [h] at htaken htokens
    exact ⟨got, htaken, htokens⟩
  · rw [Proc.bind_of_ok h]
    rw [h] at htaken htokens
    obtain ⟨got', htaken', htokens'⟩ := hf a r'
    refine ⟨got ++ got', by rw [htaken', htaken, List.append_assoc], ?_⟩
    rw [htokens, htokens', List.append_assoc]

/-- Renaming the result of an honest procedure keeps it honest. -/
theorem map {x : Proc (Reader τ ε) (Halt σ) α} (f : α → β) (hx : Honest x) : Honest (f <$> x) := by
  rw [← bind_pure_comp]
  exact hx.bind fun _ => pure _

/-- Renaming its errors keeps it honest. -/
theorem mapError {σ' : Type u} {x : Proc (Reader τ ε) (Halt σ) α} (f : Halt σ → Halt σ')
    (hx : Honest x) : Honest (x.mapError f) :=
  fun r => hx r

end Honest

/-- Filling a buffer is honest: all that leaves the stream is recorded. -/
theorem readExact_honest (n : ℕ) : Honest (readExact n : Proc (Reader τ ε) (Halt ε) (List τ)) := by
  intro r
  have htokens := fill_tokens r.script n
  rcases h : fill r.script n with ⟨e | u, got, rest⟩
  all_goals
    rw [h] at htokens
    exact ⟨got, by simp [readExact, h], by simp only [readExact, h]; exact htokens.symm⟩

end Fill

/-! ## One token, and the race of two futures -/

/-- What one poll of a future answers. -/
inductive Poll (α : Type u) where
  | pending
  | ready (a : α)
deriving DecidableEq, Repr

/-- Rename the value of a poll. -/
def Poll.map (f : α → β) : Poll α → Poll β
  | .pending => .pending
  | .ready a => .ready (f a)

/-- One poll of the future that reads a single token. -/
def pollOne [UnexpectedEof ε] : Script τ ε → Poll (Except ε τ) × Script τ ε
  | [] => (.pending, [])
  | .pending :: s => (.pending, s)
  | .ready head [] :: s => (.ready (.ok head), s)
  | .ready head (next :: later) :: s => (.ready (.ok head), .ready next later :: s)
  | .eof :: s => (.ready (.error UnexpectedEof.unexpectedEof), s)
  | .error e :: s => (.ready (.error e), s)

/-- Poll the left future, then the right one if the left one is pending, for at most `rounds`
rounds. The first that is ready wins and the other is dropped where it stands. -/
def select (pollLeft : σ → Poll α × σ) (pollRight : τ → Poll β × τ) :
    ℕ → σ → τ → Poll (α ⊕ β) × σ × τ
  | 0, s, t => (.pending, s, t)
  | rounds + 1, s, t =>
    match pollLeft s with
    | (.ready a, s') => (.ready (.inl a), s', t)
    | (.pending, s') =>
      match pollRight t with
      | (.ready b, t') => (.ready (.inr b), s', t')
      | (.pending, t') => select pollLeft pollRight rounds s' t'

/-- `Waits poll s s'`: some number of pending polls lead from `s` to `s'`. -/
def Waits (poll : σ → Poll α × σ) : σ → σ → Prop :=
  Relation.ReflTransGen fun s s' => poll s = (.pending, s')

/-- What pending polls preserve, waiting preserves. -/
theorem Waits.preserves {poll : σ → Poll α × σ} {P : σ → Prop}
    (hstep : ∀ s s', poll s = (.pending, s') → P s → P s') {s s' : σ} (h : Waits poll s s')
    (hs : P s) : P s' := by
  induction h with
  | refl => exact hs
  | tail _ hlast ih => exact hstep _ _ hlast ih

section Select

variable {pollLeft : σ → Poll α × σ} {pollRight : τ → Poll β × τ}

/-- The left future wins only on a ready poll of its own; the right one has only been waiting. -/
theorem select_left {rounds : ℕ} {s s' : σ} {t t' : τ} {a : α}
    (h : select pollLeft pollRight rounds s t = (.ready (.inl a), s', t')) :
    ∃ s₁, Waits pollLeft s s₁ ∧ pollLeft s₁ = (.ready a, s') ∧ Waits pollRight t t' := by
  fun_induction select pollLeft pollRight rounds s t with
  | case1 => simp at h
  | case2 rounds s t a' s₁ hs =>
    obtain ⟨rfl, rfl, rfl⟩ : a' = a ∧ s₁ = s' ∧ t = t' := by simpa using h
    exact ⟨s, .refl, hs, .refl⟩
  | case3 => simp at h
  | case4 rounds s t s₁ hs t₁ ht ih =>
    obtain ⟨s₂, hwait, hready, hright⟩ := ih h
    exact ⟨s₂, .head hs hwait, hready, .head ht hright⟩

/-- The right future wins only on a ready poll of its own; the left one has only been waiting. -/
theorem select_right {rounds : ℕ} {s s' : σ} {t t' : τ} {b : β}
    (h : select pollLeft pollRight rounds s t = (.ready (.inr b), s', t')) :
    ∃ t₁, Waits pollLeft s s' ∧ Waits pollRight t t₁ ∧ pollRight t₁ = (.ready b, t') := by
  fun_induction select pollLeft pollRight rounds s t with
  | case1 => simp at h
  | case2 => simp at h
  | case3 rounds s t s₁ hs b' t₁ ht =>
    obtain ⟨rfl, rfl, rfl⟩ : b' = b ∧ s₁ = s' ∧ t₁ = t' := by simpa using h
    exact ⟨t, .single hs, .refl, ht⟩
  | case4 rounds s t s₁ hs t₁ ht ih =>
    obtain ⟨t₂, hleft, hwait, hready⟩ := ih h
    exact ⟨t₂, .head hs hleft, .head ht hwait, hready⟩

/-- The right future only wins after the left one has been pending. -/
theorem pending_of_select_right {rounds : ℕ} {s s' : σ} {t t' : τ} {b : β}
    (h : select pollLeft pollRight rounds s t = (.ready (.inr b), s', t')) :
    ∃ s₁, pollLeft s = (.pending, s₁) := by
  rcases rounds with _ | rounds
  · simp [select] at h
  rw [select] at h
  rcases hs : pollLeft s with ⟨_ | a, s₁⟩
  · exact ⟨s₁, rfl⟩
  · simp [hs] at h

/-- If neither future wins, both have only been waiting. -/
theorem select_pending {rounds : ℕ} {s s' : σ} {t t' : τ}
    (h : select pollLeft pollRight rounds s t = (.pending, s', t')) :
    Waits pollLeft s s' ∧ Waits pollRight t t' := by
  fun_induction select pollLeft pollRight rounds s t with
  | case1 s t =>
    obtain ⟨rfl, rfl⟩ : s = s' ∧ t = t' := by simpa using h
    exact ⟨.refl, .refl⟩
  | case2 => simp at h
  | case3 => simp at h
  | case4 rounds s t s₁ hs t₁ ht ih => exact ⟨.head hs (ih h).1, .head ht (ih h).2⟩

end Select

/-! ## Waiting for one token -/

section PollOne

variable [UnexpectedEof ε]

/-- One poll takes at most one token, the first. -/
theorem pollOne_tokens (s : Script τ ε) : Script.tokens s = (match (pollOne s).1 with
    | .ready (.ok a) => [a]
    | _ => []) ++ Script.tokens (pollOne s).2 := by
  rcases s with _ | ⟨_ | ⟨head, _ | ⟨next, later⟩⟩ | _ | e, s⟩ <;> rfl

/-- A poll is pending because the stream says so, or because the stream is silent. -/
theorem pollOne_pending {s s' : Script τ ε} (h : pollOne s = (.pending, s')) :
    s = [] ∧ s' = [] ∨ s = .pending :: s' := by
  unfold pollOne at h
  split at h <;> simp_all

/-- A poll that is ready has taken the token that the stream brings next. -/
theorem pollOne_ready {s s' : Script τ ε} {a : τ} (h : pollOne s = (.ready (.ok a), s')) :
    Brings s [a] s' := by
  unfold pollOne at h
  split at h
  all_goals simp only [Prod.mk.injEq, Poll.ready.injEq, Except.ok.injEq, reduceCtorEq,
    false_and] at h
  · obtain ⟨rfl, rfl⟩ := h
    simp [Brings, fill]
  · obtain ⟨rfl, rfl⟩ := h
    simp [Brings, fill]

/-- Waiting consumes nothing. -/
theorem Waits.tokens_eq {s s' : Script τ ε} (h : Waits pollOne s s') :
    Script.tokens s' = Script.tokens s := by
  refine @Waits.preserves _ _ pollOne (fun t => Script.tokens t = Script.tokens s)
    (fun t t' ht hs => ?_) s s' h rfl
  have := pollOne_tokens t
  rw [ht] at this
  rw [← hs, this, List.nil_append]

/-- What comes after waiting comes. -/
theorem Waits.brings {s s' t : Script τ ε} {tokens : List τ} (h : Waits pollOne s s')
    (hne : tokens ≠ []) (hbrings : Brings s' tokens t) : Brings s tokens t := by
  induction h using Relation.ReflTransGen.head_induction_on with
  | refl => exact hbrings
  | @head s s₁ hfirst _ ih =>
    obtain ⟨a, tokens, rfl⟩ := List.exists_cons_of_ne_nil hne
    rcases pollOne_pending hfirst with ⟨rfl, rfl⟩ | rfl
    · exact ih
    · exact ih

end PollOne

/-! ## Streams that never pause -/

/-- No read of the stream has to wait before it has brought all its answers. -/
def Script.Restless (s : Script τ ε) : Prop := .pending ∉ s

/-- The rest of a stream that never makes a read wait never does. -/
theorem Script.Restless.of_cons {p : ReadPoll τ ε} {s : Script τ ε} (h : Restless (p :: s)) :
    s.Restless :=
  fun hmem => h (List.mem_cons_of_mem _ hmem)

section Restless

variable [UnexpectedEof ε]

/-- Nor does what is left when a buffer has been filled. -/
theorem restless_of_fill {s rest : Script τ ε} {n : ℕ} {r : Except (Halt ε) PUnit.{u + 1}}
    {got : List τ} (h : s.Restless) (hfill : fill s n = (r, got, rest)) : rest.Restless := by
  fun_induction fill s n generalizing got rest with
  | case1 s =>
    obtain ⟨-, -, rfl⟩ : .ok ⟨⟩ = r ∧ [] = got ∧ s = rest := by simpa using hfill
    exact h
  | case2 n =>
    obtain ⟨-, -, rfl⟩ : .error .waiting = r ∧ [] = got ∧ [] = rest := by simpa using hfill
    exact List.not_mem_nil
  | case3 s n ih => exact absurd List.mem_cons_self h
  | case4 head tail s n hdrop result got' rest' heq ih =>
    obtain ⟨rfl, -, rfl⟩ : result = r ∧ head :: tail ++ got' = got ∧ rest' = rest := by
      simpa using hfill
    exact ih h.of_cons heq
  | case5 head tail s n next later hdrop =>
    obtain ⟨-, -, rfl⟩ : .ok ⟨⟩ = r ∧ _ = got ∧ .ready next later :: s = rest := by
      simpa using hfill
    simpa [Script.Restless] using h
  | case6 s n =>
    obtain ⟨-, -, rfl⟩ : _ = r ∧ [] = got ∧ s = rest := by simpa using hfill
    exact h.of_cons
  | case7 e s n =>
    obtain ⟨-, -, rfl⟩ : _ = r ∧ [] = got ∧ s = rest := by simpa using hfill
    exact h.of_cons

/-- Nor does what comes after some tokens. -/
theorem Script.Restless.brings {s s' : Script τ ε} {tokens : List τ} (h : s.Restless)
    (hbrings : Brings s tokens s') : s'.Restless :=
  restless_of_fill h hbrings

/-- Such a stream makes a read wait only after its last answer. -/
theorem Script.Restless.eq_nil {s s' : Script τ ε} (h : s.Restless)
    (hpoll : pollOne s = (.pending, s')) : s = [] ∧ s' = [] := by
  rcases pollOne_pending hpoll with hnil | rfl
  · exact hnil
  · exact absurd List.mem_cons_self h

/-- No read of such a stream waits. -/
theorem Script.Restless.waits {s s' : Script τ ε} (h : s.Restless) (hwaits : Waits pollOne s s') :
    s' = s := by
  refine @Waits.preserves _ _ pollOne (fun t => t = s) (fun t t' ht hs => ?_) s s' hwaits rfl
  subst hs
  obtain ⟨rfl, rfl⟩ := h.eq_nil ht
  rfl

end Restless
