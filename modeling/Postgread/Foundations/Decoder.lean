import Postgread.Foundations.Proc

/-!
# Decoders over a cursor

A decoder is a procedure on a `Cursor`: a slice with a position inside it. A `Local` decoder looks
only at the part of the slice after the position, so it implements a parser on lists, `parse d`, and
`parse` turns sequencing of decoders into sequencing of parsers.

A `Stable` decoder reports a shortage of input exactly and never changes its mind about any other
error when more input arrives. A `Framed` decoder moreover marks the end of its own input: on
success it ignores what follows, and on any shorter input it reports a shortage. Both are closed
under sequencing, and `loop`, the unbounded loop of a decoder that always consumes, keeps them.
-/

universe u

/-- A position inside a slice. -/
structure Cursor (τ : Type u) where
  slice : List τ
  pos : ℕ
  pos_le : pos ≤ slice.length

namespace Cursor

variable {τ : Type u}

/-- The cursor at the start of a slice. -/
def new (slice : List τ) : Cursor τ := ⟨slice, 0, Nat.zero_le _⟩

/-- How many elements come after the position. -/
def left (c : Cursor τ) : ℕ := c.slice.length - c.pos

/-- The elements after the position. -/
def rest (c : Cursor τ) : List τ := c.slice.drop c.pos

/-- A new cursor holds the slice that it is given. -/
@[simp] theorem slice_new (slice : List τ) : (new slice).slice = slice := rfl

/-- A new cursor is at the beginning. -/
@[simp] theorem pos_new (slice : List τ) : (new slice).pos = 0 := rfl

/-- All of the slice is still to come. -/
@[simp] theorem rest_new (slice : List τ) : (new slice).rest = slice := by simp [rest]

/-- As many tokens come as are left. -/
@[simp] theorem length_rest (c : Cursor τ) : c.rest.length = c.left := by simp [rest, left]

/-- What is taken and what is left make up the slice. -/
theorem pos_add_left (c : Cursor τ) : c.pos + c.left = c.slice.length :=
  Nat.add_sub_cancel' c.pos_le

/-- The slice is what comes before the position and what comes after it. -/
theorem take_pos_append_rest (c : Cursor τ) : c.slice.take c.pos ++ c.rest = c.slice :=
  List.take_append_drop _ _

end Cursor

/-- A decoder: a procedure on a cursor. -/
abbrev Decoder (τ ε α : Type u) := Proc (Cursor τ) ε α

/-- A parser on lists: it fails, or returns a value and what it left. -/
abbrev Parser (τ ε α : Type u) := List τ → Except ε (α × List τ)

namespace Decoder

variable {τ ε α β : Type u}

/-- What a decoder does at a cursor, as a parser would report it. -/
def parseAt (d : Decoder τ ε α) (c : Cursor τ) : Except ε (α × List τ) :=
  match d c with
  | (.ok a, c') => .ok (a, c'.rest)
  | (.error e, _) => .error e

/-- The parser that a decoder implements. -/
def parse (d : Decoder τ ε α) : Parser τ ε α := fun bs => d.parseAt (Cursor.new bs)

/-! ## Locality -/

/-- The decoder looks only at what comes after the position, and keeps the slice. -/
structure Local (d : Decoder τ ε α) : Prop where
  parseAt_eq : ∀ c, parseAt d c = parse d c.rest
  slice_eq : ∀ c, (d c).2.slice = c.slice

/-- A call that succeeds leaves the rest of its cursor. -/
theorem parseAt_of_ok {d : Decoder τ ε α} {c c' : Cursor τ} {a : α} (h : d c = (.ok a, c')) :
    parseAt d c = .ok (a, c'.rest) := by
  simp only [parseAt, h]

/-- A call that fails leaves its error. -/
theorem parseAt_of_error {d : Decoder τ ε α} {c c' : Cursor τ} {e : ε}
    (h : d c = (.error e, c')) : parseAt d c = .error e := by
  simp only [parseAt, h]

/-- The same on a slice of its own. -/
theorem parse_of_ok {d : Decoder τ ε α} {bs : List τ} {a : α} {c : Cursor τ}
    (h : d (.new bs) = (.ok a, c)) : parse d bs = .ok (a, c.rest) :=
  parseAt_of_ok h

/-- The same for an error on a slice of its own. -/
theorem parse_of_error {d : Decoder τ ε α} {bs : List τ} {e : ε} {c : Cursor τ}
    (h : d (.new bs) = (.error e, c)) : parse d bs = .error e :=
  parseAt_of_error h

/-- A result comes from a call with a cursor that has this rest. -/
theorem exists_of_parseAt_ok {d : Decoder τ ε α} {c : Cursor τ} {a : α} {r : List τ}
    (h : parseAt d c = .ok (a, r)) : ∃ c', d c = (.ok a, c') ∧ c'.rest = r := by
  rcases hd : d c with ⟨e | b, c'⟩
  · rw [parseAt_of_error hd] at h; cases h
  · rw [parseAt_of_ok hd] at h
    obtain ⟨rfl, rfl⟩ : b = a ∧ c'.rest = r := by simpa using h
    exact ⟨c', rfl, rfl⟩

/-- An error comes from a call. -/
theorem exists_of_parseAt_error {d : Decoder τ ε α} {c : Cursor τ} {e : ε}
    (h : parseAt d c = .error e) : ∃ c', d c = (.error e, c') := by
  rcases hd : d c with ⟨e' | b, c'⟩
  · rw [parseAt_of_error hd] at h
    obtain rfl : e' = e := by simpa using h
    exact ⟨c', rfl⟩
  · rw [parseAt_of_ok hd] at h; cases h

/-- The second decoder goes on from the cursor that the first has left. -/
theorem parseAt_bind (d : Decoder τ ε α) (f : α → Decoder τ ε β) (c : Cursor τ) :
    parseAt (d >>= f) c = match d c with
      | (.ok a, c') => parseAt (f a) c'
      | (.error e, _) => .error e := by
  rcases hd : d c with ⟨e | a, c'⟩
  · exact parseAt_of_error (Proc.bind_of_error hd)
  · simp only [parseAt, Proc.bind_of_ok hd]

/-- A decoder that takes nothing leaves all of the input. -/
@[simp] theorem parse_pure (a : α) (bs : List τ) :
    parse (pure a : Decoder τ ε α) bs = .ok (a, bs) := by
  simp [parse, parseAt]

/-- A decoder that fails does so on every input. -/
@[simp] theorem parse_fail (e : ε) (bs : List τ) :
    parse (Proc.fail e : Decoder τ ε α) bs = .error e := rfl

/-- Sequencing decoders sequences their parsers. -/
theorem parse_bind (d : Decoder τ ε α) {f : α → Decoder τ ε β} (hf : ∀ a, Local (f a))
    (bs : List τ) :
    parse (d >>= f) bs = match parse d bs with
      | .ok (a, r) => parse (f a) r
      | .error e => .error e := by
  rw [parse, parseAt_bind]
  rcases hd : d (Cursor.new bs) with ⟨e | a, c'⟩
  · simp only [parse, parseAt_of_error hd]
  · simp only [parse, parseAt_of_ok hd]
    exact (hf a).parseAt_eq c'

namespace Local

/-- A decoder that takes nothing is local. -/
theorem pure (a : α) : Local (Pure.pure a : Decoder τ ε α) :=
  ⟨fun c => by simp [parse, parseAt], fun _ => rfl⟩

/-- A decoder that fails is local. -/
theorem fail (e : ε) : Local (Proc.fail e : Decoder τ ε α) :=
  ⟨fun _ => rfl, fun _ => rfl⟩

/-- Local decoders one after the other are local. -/
theorem bind {d : Decoder τ ε α} {f : α → Decoder τ ε β} (hd : Local d) (hf : ∀ a, Local (f a)) :
    Local (d >>= f) where
  parseAt_eq c := by
    rw [parse_bind d hf, ← hd.parseAt_eq c, parseAt_bind]
    rcases h : d c with ⟨e | a, c'⟩
    · simp only [parseAt_of_error h]
    · simp only [parseAt_of_ok h]
      exact (hf a).parseAt_eq c'
  slice_eq c := by
    have hslice := hd.slice_eq c
    rcases h : d c with ⟨e | a, c'⟩
    · rw [Proc.bind_of_error h]; rw [h] at hslice; exact hslice
    · rw [Proc.bind_of_ok h, (hf a).slice_eq c']; rw [h] at hslice; exact hslice

/-- A local decoder stays local when its result is renamed. -/
theorem map {d : Decoder τ ε α} (f : α → β) (hd : Local d) : Local (f <$> d) := by
  rw [← bind_pure_comp]
  exact hd.bind fun _ => pure _

end Local

/-- Renaming the value of a decoder renames it in the parser. -/
theorem parse_map (d : Decoder τ ε α) (f : α → β) (bs : List τ) :
    parse (f <$> d) bs = match parse d bs with
      | .ok (a, r) => .ok (f a, r)
      | .error e => .error e := by
  rw [← bind_pure_comp, parse_bind d fun _ => Local.pure _]
  rcases parse d bs with e | ⟨a, r⟩
  · rfl
  · exact parse_pure (f a) r

/-! ## Shortage of input -/

/-- Error types that tell how much input was missing: `short n` for `n` more elements, and
`unterminated` for an end marker that did not come. -/
class ShortRead (ε : Type u) where
  short : ℕ → ε
  unterminated : ε

export ShortRead (short unterminated)

variable [ShortRead ε]

/-- The error is not about a shortage of input. -/
def IsFinal (e : ε) : Prop :=
  e ≠ unterminated ∧ ∀ n, e ≠ short n

/-- The error reports a shortage that `k` more elements may end. -/
def IsShortage (e : ε) (k : ℕ) : Prop :=
  e = unterminated ∨ ∃ n, e = short n ∧ 1 ≤ n ∧ n ≤ k

/-- A shortage of tokens is one of fewer tokens as well. -/
theorem IsShortage.mono {e : ε} {k l : ℕ} (h : IsShortage e k) (hkl : k ≤ l) : IsShortage e l := by
  rcases h with h | ⟨n, h, h1, hk⟩
  · exact .inl h
  · exact .inr ⟨n, h, h1, Nat.le_trans hk hkl⟩

/-- More input shortens a shortage by its length and leaves every other error as it is. -/
structure Stable (d : Decoder τ ε α) : Prop extends Local d where
  short_eq : ∀ {bs n}, parse d bs = .error (short n) →
    1 ≤ n ∧ ∀ x : List τ, x.length < n → parse d (bs ++ x) = .error (short (n - x.length))
  final_eq : ∀ {bs e}, parse d bs = .error e → IsFinal e →
    ∀ x : List τ, parse d (bs ++ x) = .error e

/-- Where the result has a property, the decoder marks the end of its own input: it ignores what
follows, and any shorter input is a shortage. -/
def Exact (d : Decoder τ ε α) (P : α → Prop) : Prop :=
  ∀ ⦃bs a r⦄, parse d bs = .ok (a, r) → P a → ∃ u, bs = u ++ r ∧
    (∀ x, parse d (u ++ x) = .ok (a, x)) ∧
    ∀ p q, u = p ++ q → q ≠ [] → ∃ e, parse d p = .error e ∧ IsShortage e q.length

/-- The decoder marks the end of its own input. -/
structure Framed (d : Decoder τ ε α) : Prop extends Stable d where
  exact_eq : Exact d fun _ => True

/-- A framed decoder is exact for any values. -/
theorem Framed.exact {d : Decoder τ ε α} (hd : Framed d) (P : α → Prop) : Exact d P :=
  fun _ _ _ h _ => hd.exact_eq h trivial

/-- A cut in two pieces of input is a cut in the first, or in the second after the whole first. -/
theorem exists_shortage_append {g : Parser τ ε α} {u₁ u₂ : List τ}
    (h₁ : ∀ p q, u₁ = p ++ q → q ≠ [] → ∃ e, g p = .error e ∧ IsShortage e q.length)
    (h₂ : ∀ p q, u₂ = p ++ q → q ≠ [] → ∃ e, g (u₁ ++ p) = .error e ∧ IsShortage e q.length) :
    ∀ p q, u₁ ++ u₂ = p ++ q → q ≠ [] → ∃ e, g p = .error e ∧ IsShortage e q.length := by
  intro p q hpq hq
  rcases List.append_eq_append_iff.mp hpq with ⟨v, rfl, rfl⟩ | ⟨v, rfl, rfl⟩
  · exact h₂ v q rfl hq
  · -- the cut is in the first piece, or between the two
    rcases v with _ | ⟨y, v⟩
    · obtain ⟨e, he, hshort⟩ := h₂ [] u₂ rfl (by simpa using hq)
      exact ⟨e, by simpa using he, by simpa using hshort⟩
    · obtain ⟨e, he, hshort⟩ := h₁ p (y :: v) rfl (by simp)
      exact ⟨e, he, hshort.mono (by simp)⟩

namespace Framed

/-- A decoder that takes nothing is framed. -/
theorem pure (a : α) : Framed (Pure.pure a : Decoder τ ε α) where
  toLocal := Local.pure a
  short_eq h := by simp at h
  final_eq h := by simp at h
  exact_eq bs b r h _ := by
    obtain ⟨rfl, rfl⟩ : a = b ∧ bs = r := by simpa using h
    refine ⟨[], rfl, fun x => parse_pure a x, fun p q hpq hq => ?_⟩
    exact absurd (List.append_eq_nil_iff.mp hpq.symm).2 hq

/-- A decoder that fails for good is framed. -/
theorem fail {e : ε} (he : IsFinal e) : Framed (Proc.fail e : Decoder τ ε α) where
  toLocal := Local.fail e
  short_eq {bs n} h := by
    obtain rfl : e = short n := by simpa using h
    exact absurd rfl (he.2 n)
  final_eq h _ _ := h
  exact_eq _ _ _ h _ := by simp at h

end Framed

/-! ## What the properties say about a cursor at the start of a slice -/

/-- Whatever follows what was consumed is left, and less is a shortage. -/
theorem Exact.take_pos {d : Decoder τ ε α} {P : α → Prop} (hd : Exact d P) (hlocal : Local d)
    {bs : List τ} {a : α} {c : Cursor τ} (h : d (.new bs) = (.ok a, c)) (ha : P a) :
    (∀ x, ∃ c', d (.new (bs.take c.pos ++ x)) = (.ok a, c') ∧ c'.left = x.length) ∧
      ∀ k < c.pos, ∃ e c', d (.new (bs.take k)) = (.error e, c') ∧ IsShortage e (c.pos - k) := by
  obtain ⟨u, hu, hexact, hcut⟩ := hd (parse_of_ok h) ha
  have hslice : c.slice = bs := by
    have hslice := hlocal.slice_eq (.new bs)
    rwa [h] at hslice
  -- what was consumed is what comes before the position of the cursor
  obtain rfl : c.slice.take c.pos = u := by
    refine @List.append_cancel_right _ _ c.rest _ ?_
    rw [c.take_pos_append_rest, hslice, ← hu]
  have hlen : (c.slice.take c.pos).length = c.pos := List.length_take_of_le c.pos_le
  rw [← hslice]
  constructor
  · intro x
    obtain ⟨c', hc', hrest⟩ := exists_of_parseAt_ok (hexact x)
    exact ⟨c', hc', by rw [← c'.length_rest, hrest]⟩
  · intro k hk
    have htake : (c.slice.take c.pos).take k = c.slice.take k := by
      rw [List.take_take, Nat.min_eq_left (Nat.le_of_lt hk)]
    have hsplit : c.slice.take c.pos = c.slice.take k ++ (c.slice.take c.pos).drop k := by
      rw [← htake, List.take_append_drop]
    have hdrop : ((c.slice.take c.pos).drop k).length = c.pos - k := by
      rw [List.length_drop, hlen]
    obtain ⟨e, he, hshort⟩ := hcut _ _ hsplit (by
      rw [← List.length_pos_iff, hdrop]
      omega)
    obtain ⟨c', hc'⟩ := exists_of_parseAt_error he
    exact ⟨e, c', hc', hdrop ▸ hshort⟩

/-- A shortage is exact, and any other error stays. -/
theorem Stable.append {d : Decoder τ ε α} (hd : Stable d) {bs : List τ} {e : ε} {c : Cursor τ}
    (h : d (.new bs) = (.error e, c)) :
    (∀ n, e = short n → 1 ≤ n ∧ ∀ x : List τ, x.length < n →
        ∃ c', d (.new (bs ++ x)) = (.error (short (n - x.length)), c')) ∧
      (IsFinal e → ∀ x, ∃ c', d (.new (bs ++ x)) = (.error e, c')) := by
  have hparse := parse_of_error h
  constructor
  · rintro n rfl
    obtain ⟨h1, hmore⟩ := hd.short_eq hparse
    exact ⟨h1, fun x hx => exists_of_parseAt_error (hmore x hx)⟩
  · exact fun he x => exists_of_parseAt_error (hd.final_eq hparse he x)

/-- A decoder that never fails is stable. -/
theorem Stable.of_succeeds {d : Decoder τ ε α} (hd : Local d)
    (h : ∀ bs, ∃ p, parse d bs = .ok p) : Stable d where
  toLocal := hd
  short_eq {bs n} he := by obtain ⟨p, hp⟩ := h bs; rw [hp] at he; cases he
  final_eq {bs e} he := by obtain ⟨p, hp⟩ := h bs; rw [hp] at he; cases he

/-- A framed decoder followed by stable ones is stable. -/
theorem Stable.bind {d : Decoder τ ε α} {f : α → Decoder τ ε β} (hd : Framed d)
    (hf : ∀ a, Stable (f a)) : Stable (d >>= f) where
  toLocal := hd.toLocal.bind fun a => (hf a).toLocal
  short_eq {bs n} h := by
    have hlocal := fun a => (hf a).toLocal
    rw [parse_bind d hlocal] at h
    rcases hp : parse d bs with e | ⟨a, r⟩
    · rw [hp] at h
      obtain rfl : e = short n := by simpa using h
      refine ⟨(hd.short_eq hp).1, fun x hx => ?_⟩
      rw [parse_bind d hlocal, (hd.short_eq hp).2 x hx]
    · rw [hp] at h
      obtain ⟨u, rfl, hexact, -⟩ := hd.exact_eq hp trivial
      refine ⟨((hf a).short_eq h).1, fun x hx => ?_⟩
      rw [parse_bind d hlocal, List.append_assoc, hexact (r ++ x)]
      exact ((hf a).short_eq h).2 x hx
  final_eq {bs e} h he x := by
    have hlocal := fun a => (hf a).toLocal
    rw [parse_bind d hlocal] at h
    rcases hp : parse d bs with e' | ⟨a, r⟩
    · rw [hp] at h
      obtain rfl : e' = e := by simpa using h
      rw [parse_bind d hlocal, hd.final_eq hp he x]
    · rw [hp] at h
      obtain ⟨u, rfl, hexact, -⟩ := hd.exact_eq hp trivial
      rw [parse_bind d hlocal, List.append_assoc, hexact (r ++ x)]
      exact (hf a).final_eq h he x

/-- After a framed decoder, a decoder keeps marking the end of its input. -/
theorem Exact.bind {d : Decoder τ ε α} {f : α → Decoder τ ε β} {P : β → Prop} (hd : Framed d)
    (hlocal : ∀ a, Local (f a)) (hf : ∀ a, Exact (f a) P) : Exact (d >>= f) P := by
  intro bs b r h hb
  rw [parse_bind d hlocal] at h
  rcases hp : parse d bs with e | ⟨a, r₁⟩
  · rw [hp] at h; cases h
  rw [hp] at h
  obtain ⟨u₁, rfl, hexact₁, hcut₁⟩ := hd.exact_eq hp trivial
  obtain ⟨u₂, rfl, hexact₂, hcut₂⟩ := hf a h hb
  refine ⟨u₁ ++ u₂, by rw [List.append_assoc], fun x => ?_,
    exists_shortage_append (fun p q hpq hq => ?_) fun p q hpq hq => ?_⟩
  · rw [parse_bind d hlocal, List.append_assoc, hexact₁]
    exact hexact₂ x
  · -- a cut in the input of the first decoder
    obtain ⟨e, he, hshort⟩ := hcut₁ p q hpq hq
    exact ⟨e, by rw [parse_bind d hlocal, he], hshort⟩
  · -- a cut in the input of the second decoder
    obtain ⟨e, he, hshort⟩ := hcut₂ p q hpq hq
    refine ⟨e, ?_, hshort⟩
    rw [parse_bind d hlocal, hexact₁]
    exact he

/-- Framed decoders in sequence are framed. -/
theorem Framed.bind {d : Decoder τ ε α} {f : α → Decoder τ ε β} (hd : Framed d)
    (hf : ∀ a, Framed (f a)) : Framed (d >>= f) where
  toStable := Stable.bind hd fun a => (hf a).toStable
  exact_eq := Exact.bind hd (fun a => (hf a).toLocal) fun a => (hf a).exact_eq

/-- A decoder whose results all lack the property. -/
theorem exact_map_of_not {d : Decoder τ ε α} {f : α → β} {P : β → Prop} (hP : ∀ a, ¬ P (f a)) :
    Exact (f <$> d) P := by
  intro bs b r h hb
  rw [parse_map] at h
  rcases hp : parse d bs with e | ⟨a, r₁⟩
  · rw [hp] at h; cases h
  · rw [hp] at h
    obtain ⟨rfl, -⟩ : f a = b ∧ r₁ = r := by simpa using h
    exact absurd hb (hP a)

/-- A framed decoder stays framed when its result is renamed. -/
theorem Framed.map {d : Decoder τ ε α} (f : α → β) (hd : Framed d) : Framed (f <$> d) := by
  rw [← bind_pure_comp]
  exact hd.bind fun _ => pure _

/-- A stable decoder stays stable when its result is renamed. -/
theorem Stable.map {d : Decoder τ ε α} (f : α → β) (hd : Stable d) : Stable (f <$> d) where
  toLocal := hd.toLocal.map f
  short_eq {bs n} h := by
    rw [parse_map] at h
    rcases hp : parse d bs with e | ⟨a, r⟩
    · rw [hp] at h
      obtain rfl : e = short n := by simpa using h
      refine ⟨(hd.short_eq hp).1, fun x hx => ?_⟩
      rw [parse_map, (hd.short_eq hp).2 x hx]
    · rw [hp] at h; cases h
  final_eq {bs e} h he x := by
    rw [parse_map] at h
    rcases hp : parse d bs with e' | ⟨a, r⟩
    · rw [hp] at h
      obtain rfl : e' = e := by simpa using h
      rw [parse_map, hd.final_eq hp he x]
    · rw [hp] at h; cases h

/-! ## The unbounded loop -/

omit [ShortRead ε]

/-- The step consumes at least one element whenever it asks for another round. -/
def Consumes (step : β → Decoder τ ε (ForInStep β)) : Prop :=
  ∀ ⦃b b' bs r⦄, parse (step b) bs = .ok (.yield b', r) → r.length < bs.length

/-- The decoder consumes at least one element whenever it succeeds. -/
def Eats (d : Decoder τ ε α) : Prop :=
  ∀ ⦃bs a r⦄, parse d bs = .ok (a, r) → r.length < bs.length

/-- Rounds that take a token each use up the input. -/
theorem Consumes.of_eats {step : β → Decoder τ ε (ForInStep β)} (h : ∀ b, Eats (step b)) :
    Consumes step :=
  fun _ _ _ _ hp => h _ hp

/-- What consumes first consumes altogether. -/
theorem Eats.bind [ShortRead ε] {d : Decoder τ ε α} {f : α → Decoder τ ε β} (hd : Eats d)
    (hf : ∀ a, Framed (f a)) : Eats (d >>= f) := by
  intro bs b r h
  rw [parse_bind d fun a => (hf a).toLocal] at h
  rcases hp : parse d bs with e | ⟨a, r₁⟩
  · rw [hp] at h; cases h
  · rw [hp] at h
    obtain ⟨u, rfl, -⟩ := (hf a).exact_eq h trivial
    have hlt := hd hp
    rw [List.length_append] at hlt
    omega

/-- A framed decoder that fails on nothing consumes something. -/
theorem Framed.eats [ShortRead ε] {d : Decoder τ ε α} (hd : Framed d) {e : ε}
    (h : parse d [] = .error e) : Eats d := by
  intro bs a r hp
  obtain ⟨u, rfl, hexact, -⟩ := hd.exact_eq hp trivial
  rcases u with _ | ⟨t, u⟩
  · have hnil := hexact []
    rw [List.append_nil, h] at hnil
    cases hnil
  · rw [List.length_append, List.length_cons]
    omega

variable [Inhabited ε]

/-- At most `fuel` rounds of a decoding loop. -/
def loopFuel (step : β → Decoder τ ε (ForInStep β)) : ℕ → β → Decoder τ ε β
  | 0, _ => Proc.fail default
  | fuel + 1, b => do
    match ← step b with
    | .done b' => Pure.pure b'
    | .yield b' => loopFuel step fuel b'

/-- Repeat `step` until it is done. For a step that consumes whenever it goes on, one round for each
element left and one more are enough, so the fuel never runs out (`parse_loop`). -/
def loop (step : β → Decoder τ ε (ForInStep β)) (b : β) : Decoder τ ε β := fun c =>
  loopFuel step (c.left + 1) b c

section Loop

variable {step : β → Decoder τ ε (ForInStep β)}

/-- A loop of local rounds is local, whatever its fuel. -/
theorem Local.loopFuel (hstep : ∀ b, Local (step b)) (fuel : ℕ) (b : β) :
    Local (loopFuel step fuel b) := by
  induction fuel generalizing b with
  | zero => exact Local.fail _
  | succ fuel ih =>
    refine (hstep b).bind fun result => ?_
    rcases result with b' | b'
    · exact Local.pure b'
    · exact ih b'

/-- A loop takes one round, and goes on with the rest of the input if the round says so. -/
theorem parse_loopFuel_succ (hstep : ∀ b, Local (step b)) (fuel : ℕ) (b : β) (bs : List τ) :
    parse (loopFuel step (fuel + 1) b) bs = match parse (step b) bs with
      | .ok (.done b', r) => .ok (b', r)
      | .ok (.yield b', r) => parse (loopFuel step fuel b') r
      | .error e => .error e := by
  rw [loopFuel, parse_bind (step b)]
  · rcases parse (step b) bs with e | ⟨b' | b', r⟩
    · rfl
    · exact parse_pure b' r
    · rfl
  · rintro (b' | b')
    · exact Local.pure b'
    · exact Local.loopFuel hstep fuel b'

/-- All amounts of fuel above the length of the input give the same result. -/
theorem parse_loopFuel_eq (hstep : ∀ b, Local (step b)) (hcons : Consumes step) {bs : List τ} :
    ∀ {fuel fuel' : ℕ} {b : β}, bs.length < fuel → bs.length < fuel' →
      parse (loopFuel step fuel b) bs = parse (loopFuel step fuel' b) bs := by
  induction hlen : bs.length using Nat.strongRecOn generalizing bs with
  | ind len ih =>
    intro fuel fuel' b hfuel hfuel'
    obtain ⟨f, rfl⟩ : ∃ f, fuel = f + 1 := ⟨fuel - 1, by omega⟩
    obtain ⟨f', rfl⟩ : ∃ f, fuel' = f + 1 := ⟨fuel' - 1, by omega⟩
    rw [parse_loopFuel_succ hstep, parse_loopFuel_succ hstep]
    rcases hp : parse (step b) bs with e | ⟨b' | b', r⟩
    · rfl
    · rfl
    · have hr := hcons hp
      exact ih r.length (by omega) rfl (by omega) (by omega)

/-- A loop of local rounds is local. -/
theorem Local.loop (hstep : ∀ b, Local (step b)) (b : β) : Local (Decoder.loop step b) where
  parseAt_eq c := by
    have hlocal := (Local.loopFuel hstep (c.left + 1) b).parseAt_eq c
    have hleft : (Cursor.new c.rest).left = c.left := by
      rw [← Cursor.length_rest, Cursor.rest_new, Cursor.length_rest]
    simpa only [parse, parseAt, Decoder.loop, hleft] using hlocal
  slice_eq c := (Local.loopFuel hstep (c.left + 1) b).slice_eq c

/-- The loop equation: one round, and the loop again if the round asks for it. -/
theorem parse_loop (hstep : ∀ b, Local (step b)) (hcons : Consumes step) (b : β) (bs : List τ) :
    parse (Decoder.loop step b) bs = match parse (step b) bs with
      | .ok (.done b', r) => .ok (b', r)
      | .ok (.yield b', r) => parse (Decoder.loop step b') r
      | .error e => .error e := by
  have hunfold (b : β) (bs : List τ) :
      parse (Decoder.loop step b) bs = parse (loopFuel step (bs.length + 1) b) bs := by
    simp only [parse, parseAt, Decoder.loop, ← Cursor.length_rest, Cursor.rest_new]
  rw [hunfold, parse_loopFuel_succ hstep]
  rcases hp : parse (step b) bs with e | ⟨b' | b', r⟩
  · rfl
  · rfl
  · have hr := hcons hp
    simp only [hunfold]
    exact parse_loopFuel_eq hstep hcons (by omega) (by omega)

variable [ShortRead ε]

/-- A loop of framed rounds that consume is stable. -/
theorem Stable.loop (hstep : ∀ b, Framed (step b)) (hcons : Consumes step) (b : β) :
    Stable (Decoder.loop step b) := by
  have hlocal := fun b => (hstep b).toLocal
  refine { toLocal := Local.loop hlocal b, short_eq := ?_, final_eq := ?_ }
  · intro bs n
    induction hlen : bs.length using Nat.strongRecOn generalizing bs b with
    | ind len ih =>
      intro h
      rw [parse_loop hlocal hcons] at h
      rcases hp : parse (step b) bs with e | ⟨b' | b', r⟩
      · rw [hp] at h
        obtain rfl : e = short n := by simpa using h
        refine ⟨((hstep b).short_eq hp).1, fun x hx => ?_⟩
        rw [parse_loop hlocal hcons, ((hstep b).short_eq hp).2 x hx]
      · rw [hp] at h; cases h
      · rw [hp] at h
        have hr := hcons hp
        obtain ⟨u, rfl, hexact, -⟩ := (hstep b).exact_eq hp trivial
        obtain ⟨h1, hmore⟩ := ih r.length (by omega) b' rfl h
        refine ⟨h1, fun x hx => ?_⟩
        rw [parse_loop hlocal hcons, List.append_assoc, hexact (r ++ x)]
        exact hmore x hx
  · intro bs e
    induction hlen : bs.length using Nat.strongRecOn generalizing bs b with
    | ind len ih =>
      intro h he x
      rw [parse_loop hlocal hcons] at h
      rcases hp : parse (step b) bs with e' | ⟨b' | b', r⟩
      · rw [hp] at h
        obtain rfl : e' = e := by simpa using h
        rw [parse_loop hlocal hcons, (hstep b).final_eq hp he x]
      · rw [hp] at h; cases h
      · rw [hp] at h
        have hr := hcons hp
        obtain ⟨u, rfl, hexact, -⟩ := (hstep b).exact_eq hp trivial
        rw [parse_loop hlocal hcons, List.append_assoc, hexact (r ++ x)]
        exact ih r.length (by omega) b' rfl h he x

/-- A loop of framed rounds that consume is framed. -/
theorem Framed.loop (hstep : ∀ b, Framed (step b)) (hcons : Consumes step) (b : β) :
    Framed (Decoder.loop step b) := by
  have hlocal := fun b => (hstep b).toLocal
  refine { toStable := Stable.loop hstep hcons b, exact_eq := ?_ }
  intro bs a r
  induction hlen : bs.length using Nat.strongRecOn generalizing bs b with
  | ind len ih =>
    intro h _
    rw [parse_loop hlocal hcons] at h
    rcases hp : parse (step b) bs with e | ⟨b' | b', r₁⟩
    · rw [hp] at h; cases h
    · rw [hp] at h
      obtain ⟨rfl, rfl⟩ : b' = a ∧ r₁ = r := by simpa using h
      obtain ⟨u, rfl, hexact, hcut⟩ := (hstep b).exact_eq hp trivial
      refine ⟨u, rfl, fun x => ?_, fun p q hpq hq => ?_⟩
      · rw [parse_loop hlocal hcons, hexact x]
      · obtain ⟨e, he, hshort⟩ := hcut p q hpq hq
        exact ⟨e, by rw [parse_loop hlocal hcons, he], hshort⟩
    · rw [hp] at h
      have hr := hcons hp
      obtain ⟨u₁, rfl, hexact₁, hcut₁⟩ := (hstep b).exact_eq hp trivial
      obtain ⟨u₂, rfl, hexact₂, hcut₂⟩ := ih r₁.length (by omega) b' rfl h trivial
      refine ⟨u₁ ++ u₂, by rw [List.append_assoc], fun x => ?_,
        exists_shortage_append (fun p q hpq hq => ?_) fun p q hpq hq => ?_⟩
      · rw [parse_loop hlocal hcons, List.append_assoc, hexact₁]
        exact hexact₂ x
      · obtain ⟨e, he, hshort⟩ := hcut₁ p q hpq hq
        exact ⟨e, by rw [parse_loop hlocal hcons, he], hshort⟩
      · obtain ⟨e, he, hshort⟩ := hcut₂ p q hpq hq
        exact ⟨e, by rw [parse_loop hlocal hcons, hexact₁]; exact he, hshort⟩

end Loop

end Decoder
