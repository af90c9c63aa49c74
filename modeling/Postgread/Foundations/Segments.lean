import Postgread.Foundations.Poll

/-!
# How the tokens of a stream are grouped

A stream hands out its tokens in answers of any size, and the sender has no say in that. `Regrouped`
relates scripts that bring the same tokens between the same other answers. A buffer that is filled, a
single read and a race of two of them do not tell such scripts apart.
-/

universe u

variable {τ ε σ α β : Type u}

/-- The same answer, one token at a time. -/
def ReadPoll.split : ReadPoll τ ε → Script τ ε
  | .ready head tail => (head :: tail).map (.ready · [])
  | .pending => [.pending]
  | .eof => [.eof]
  | .error e => [.error e]

namespace Script

/-- The script with one token in each answer. -/
def split (s : Script τ ε) : Script τ ε := s.flatMap ReadPoll.split

/-- Nothing is split into nothing. -/
@[simp] theorem split_nil : split ([] : Script τ ε) = [] := rfl

/-- The answers are split one by one. -/
@[simp] theorem split_cons (p : ReadPoll τ ε) (s : Script τ ε) :
    split (p :: s) = p.split ++ split s := rfl

/-- What is left of an answer comes before the rest of the script. -/
def push : List τ → Script τ ε → Script τ ε
  | [], s => s
  | head :: tail, s => .ready head tail :: s

/-- Tokens that are put in front are split off first. -/
theorem split_push (tokens : List τ) (s : Script τ ε) :
    split (push tokens s) = tokens.map (.ready · []) ++ split s := by
  cases tokens <;> rfl

/-- An answer with several tokens is split into its first token and the others. -/
theorem split_ready (head : τ) (tail : List τ) (s : Script τ ε) :
    split (.ready head tail :: s) = .ready head [] :: split (push tail s) := by
  rw [split_push]
  rfl

/-- Splitting keeps the tokens. -/
@[simp] theorem tokens_split (s : Script τ ε) : (split s).tokens = s.tokens := by
  have hmap (tokens : List τ) (s' : Script τ ε) :
      Script.tokens (tokens.map (.ready · []) ++ s') = tokens ++ s'.tokens := by
    induction tokens with
    | nil => rfl
    | cons a tokens ih => simp [ReadPoll.tokens, ih]
  induction s with
  | nil => rfl
  | cons p s ih =>
    rw [split_cons, tokens_cons, ← ih]
    cases p with
    | ready head tail => exact hmap (head :: tail) (split s)
    | pending => rfl
    | eof => rfl
    | error e => rfl

end Script

/-- Scripts that differ only in how their tokens are grouped into answers. -/
def Regrouped (s t : Script τ ε) : Prop := s.split = t.split

namespace Regrouped

variable {s t : Script τ ε}

/-- A stream is grouped like itself. -/
theorem refl (s : Script τ ε) : Regrouped s s := rfl

/-- The grouping does not change the tokens. -/
theorem tokens_eq (h : Regrouped s t) : s.tokens = t.tokens := by
  rw [← s.tokens_split, h, t.tokens_split]

end Regrouped

section

variable [UnexpectedEof ε]

/-- Filling a buffer takes one token after the other. -/
theorem fill_ready (head : τ) (tail : List τ) (s : Script τ ε) (n : ℕ) :
    fill (.ready head tail :: s) (n + 1) =
      let (result, got, rest) := fill (Script.push tail s) n
      (result, head :: got, rest) := by
  rcases tail with _ | ⟨next, later⟩
  · simp [fill, Script.push]
  rcases n with _ | n
  · simp [fill, Script.push]
  rw [fill, Script.push, fill, List.drop_succ_cons]
  split
  · simp
  · simp

/-- Filling a buffer does not depend on how the tokens are grouped. -/
theorem fill_split (s : Script τ ε) (n : ℕ) :
    fill s.split n = ((fill s n).1, (fill s n).2.1, (fill s n).2.2.split) := by
  -- by induction on the number of answers that hold one token each
  generalize hlen : s.split.length = len
  induction len generalizing s n with
  | zero =>
    rcases s with _ | ⟨p, s⟩
    · cases n <;> rfl
    · rcases p with _ | ⟨head, tail⟩ | _ | e <;> simp [ReadPoll.split] at hlen
  | succ len ih =>
    rcases n with _ | n
    · simp [fill]
    rcases s with _ | ⟨_ | ⟨head, tail⟩ | _ | e, s⟩
    · cases hlen
    · exact ih s (n + 1) (Nat.succ.inj hlen)
    · rw [Script.split_ready, fill_ready, fill_ready, Script.push]
      rw [Script.split_ready, List.length_cons] at hlen
      rw [ih _ n (Nat.succ.inj hlen)]
    · rfl
    · rfl

/-- Readers that have taken the same tokens and go on with regrouped scripts. -/
structure Reader.Regroups (r r' : Reader τ ε) : Prop where
  script : Regrouped r.script r'.script
  taken : r.taken = r'.taken

/-- Filling a buffer does not see the grouping. -/
theorem readExact_regroups (n : ℕ) :
    (readExact n : Proc (Reader τ ε) (Halt ε) (List τ)).Respects Reader.Regroups := by
  intro r r' h
  have hfill := fill_split r.script n
  rw [h.script, fill_split] at hfill
  rcases hr : fill r.script n with ⟨result, got, rest⟩
  rcases hr' : fill r'.script n with ⟨result', got', rest'⟩
  rw [hr, hr'] at hfill
  obtain ⟨hresult, hgot, hrest⟩ : result' = result ∧ got' = got ∧ rest'.split = rest.split := by
    simpa using hfill
  subst hresult hgot
  rcases result' with e | _
  · simp only [readExact, hr, hr', true_and]
    exact ⟨hrest.symm, by rw [h.taken]⟩
  · simp only [readExact, hr, hr', true_and]
    exact ⟨hrest.symm, by rw [h.taken]⟩

/-- Tokens that a stream brings are there one by one, unless it makes the read wait. -/
theorem pollOne_of_brings {s s' : Script τ ε} {a : τ} {tokens : List τ}
    (hready : ∀ s₁, s ≠ .pending :: s₁) (h : Brings s (a :: tokens) s') :
    ∃ s₁, pollOne s = (.ready (.ok a), s₁) ∧ Brings s₁ tokens s' := by
  rw [Brings, List.length_cons] at h
  rcases s with _ | ⟨_ | ⟨head, tail⟩ | _ | e, s⟩
  · cases congrArg Prod.fst h
  · exact absurd rfl (hready s)
  · rw [fill_ready] at h
    rcases hfill : fill (Script.push tail s) tokens.length with ⟨r, got, rest⟩
    obtain ⟨rfl, ⟨rfl, rfl⟩, rfl⟩ : r = .ok ⟨⟩ ∧ (head = a ∧ got = tokens) ∧ rest = s' := by
      simpa [hfill] using h
    exact ⟨Script.push tail s, by cases tail <;> rfl, hfill⟩
  · cases congrArg Prod.fst h
  · cases congrArg Prod.fst h

/-- One read of a single token does not depend on how the tokens are grouped. -/
theorem pollOne_split (s : Script τ ε) :
    pollOne s.split = ((pollOne s).1, (pollOne s).2.split) := by
  rcases s with _ | ⟨_ | ⟨head, _ | ⟨next, later⟩⟩ | _ | e, s⟩ <;> rfl

/-- Nor does a poll for one token. -/
theorem pollOne_regrouped {s t : Script τ ε} (h : Regrouped s t) :
    (pollOne t).1 = (pollOne s).1 ∧ Regrouped (pollOne s).2 (pollOne t).2 := by
  have hpoll := pollOne_split s
  rw [h, pollOne_split] at hpoll
  obtain ⟨hpoll, hrest⟩ := Prod.mk.injEq .. ▸ hpoll
  exact ⟨hpoll, hrest.symm⟩

end

/-! ## The race of two futures -/

section Select

variable {pollLeft : σ → Poll α × σ} {pollRight : τ → Poll β × τ}

/-- Two futures that stay pending where they stand never win. -/
theorem select_of_stuck {s : σ} {t : τ} (hs : pollLeft s = (.pending, s))
    (ht : pollRight t = (.pending, t)) (rounds : ℕ) :
    select pollLeft pollRight rounds s t = (.pending, s, t) := by
  induction rounds with
  | zero => rfl
  | succ rounds ih => simpa only [select, hs, ht] using ih

/-- A future that is pending for at most `μ s` rounds before it is ready or stays as it is. -/
def Settles (poll : σ → Poll α × σ) (μ : σ → ℕ) : Prop :=
  ∀ s s', poll s = (.pending, s') → s' = s ∨ μ s' < μ s

/-- Once nothing more can happen, the number of rounds does not matter. -/
theorem select_eq_of_settles {μ : σ → ℕ} {ν : τ → ℕ} (hleft : Settles pollLeft μ)
    (hright : Settles pollRight ν) {m n : ℕ} {s : σ} {t : τ} (hm : μ s + ν t < m)
    (hn : μ s + ν t < n) : select pollLeft pollRight m s t = select pollLeft pollRight n s t := by
  induction m generalizing n s t with
  | zero => omega
  | succ m ih =>
    obtain ⟨n, rfl⟩ : ∃ n', n = n' + 1 := ⟨n - 1, by omega⟩
    simp only [select]
    rcases hs : pollLeft s with ⟨_ | a, s'⟩
    · rcases ht : pollRight t with ⟨_ | b, t'⟩
      · rcases hleft s s' hs with rfl | hμ
        · rcases hright t t' ht with rfl | hν
          · simp only [select_of_stuck hs ht]
          · exact ih (by omega) (by omega)
        · rcases hright t t' ht with rfl | hν
          · exact ih (by omega) (by omega)
          · exact ih (by omega) (by omega)
      · rfl
    · rfl

/-- Futures that respect relations race with the same result. -/
theorem select_respects {R : σ → σ → Prop} {S : τ → τ → Prop}
    (hleft : ∀ s s', R s s' → (pollLeft s').1 = (pollLeft s).1 ∧ R (pollLeft s).2 (pollLeft s').2)
    (hright : ∀ t t', S t t' →
      (pollRight t').1 = (pollRight t).1 ∧ S (pollRight t).2 (pollRight t').2)
    (rounds : ℕ) {s s' : σ} {t t' : τ} (hs : R s s') (ht : S t t') :
    (select pollLeft pollRight rounds s' t').1 = (select pollLeft pollRight rounds s t).1 ∧
      R (select pollLeft pollRight rounds s t).2.1 (select pollLeft pollRight rounds s' t').2.1 ∧
      S (select pollLeft pollRight rounds s t).2.2 (select pollLeft pollRight rounds s' t').2.2 := by
  induction rounds generalizing s s' t t' with
  | zero => exact ⟨rfl, hs, ht⟩
  | succ rounds ih =>
    obtain ⟨hpoll, hs₁⟩ := hleft s s' hs
    rcases h : pollLeft s with ⟨poll, s₁⟩
    rcases h' : pollLeft s' with ⟨poll', s₁'⟩
    rw [h, h'] at hpoll hs₁
    obtain rfl := hpoll
    simp only [select, h, h']
    rcases poll' with _ | a
    · obtain ⟨hpoll, ht₁⟩ := hright t t' ht
      rcases k : pollRight t with ⟨poll, t₁⟩
      rcases k' : pollRight t' with ⟨poll', t₁'⟩
      rw [k, k'] at hpoll ht₁
      obtain rfl := hpoll
      rcases poll' with _ | b
      · exact ih hs₁ ht₁
      · exact ⟨rfl, hs₁, ht₁⟩
    · exact ⟨rfl, hs₁, ht⟩

end Select
