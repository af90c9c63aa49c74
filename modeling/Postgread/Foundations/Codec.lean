import Postgread.Foundations.Decoder

/-!
# Decoders that invert an encoding

A decoder `Inverts` an encoding of its valid values if it succeeds exactly on the encodings of valid
values, whatever follows them: it reads what was encoded, and what it reads was encoded. The
relation is closed under sequencing, where the first part of a value can be a function of the whole
(`Inverts.bind`). `parse_loop_foldl` describes a loop whose rounds each read one element, and
`InvertsAt` says the same about one fixed remainder, for decoders that take all that is left.
-/

universe u

namespace Decoder

variable {τ ε α β : Type u}

/-- With the remainder `r`, the decoder succeeds exactly on encodings of valid values. -/
def InvertsAt (r : List τ) (d : Decoder τ ε α) (Valid : α → Prop) (encode : α → List τ) : Prop :=
  ∀ bs a, parse d bs = .ok (a, r) ↔ Valid a ∧ bs = encode a ++ r

/-- The decoder succeeds exactly on encodings of valid values, whatever follows them. -/
structure Inverts (d : Decoder τ ε α) (Valid : α → Prop) (encode : α → List τ) : Prop
    extends Local d where
  invertsAt : ∀ r, InvertsAt r d Valid encode

namespace InvertsAt

variable {r : List τ} {d : Decoder τ ε α} {Valid Valid' : α → Prop} {encode encode' : α → List τ}

/-- Other words for the valid values, and for their encodings. -/
theorem congr (h : InvertsAt r d Valid encode) (hvalid : ∀ a, Valid a ↔ Valid' a)
    (hencode : ∀ a, Valid a → encode a = encode' a) : InvertsAt r d Valid' encode' := by
  intro bs a
  rw [h bs a, ← hvalid a]
  exact and_congr_right fun ha => by rw [hencode a ha]

/-- A failure reads no value. -/
theorem fail (e : ε) (h : ∀ a, ¬ Valid a) :
    InvertsAt r (Proc.fail e : Decoder τ ε α) Valid encode :=
  fun bs a => by simp [h a]

/-- The inverse of a decoder whose result is renamed by `f`. -/
theorem map {f : α → β} {Valid' : β → Prop} {encode' : β → List τ}
    (h : InvertsAt r d Valid encode) (hvalid : ∀ b, Valid' b ↔ ∃ a, Valid a ∧ b = f a)
    (hencode : ∀ a, Valid a → encode' (f a) = encode a) :
    InvertsAt r (f <$> d) Valid' encode' := by
  intro bs b
  rw [parse_map, hvalid]
  constructor
  · intro hparse
    rcases hd : parse d bs with e | ⟨a, r'⟩
    · rw [hd] at hparse; cases hparse
    rw [hd] at hparse
    obtain ⟨rfl, rfl⟩ : f a = b ∧ r' = r := by simpa using hparse
    obtain ⟨ha, rfl⟩ := (h bs a).mp hd
    exact ⟨⟨a, ha, rfl⟩, by rw [hencode a ha]⟩
  · rintro ⟨⟨a, ha, rfl⟩, rfl⟩
    rw [hencode a ha, (h _ a).mpr ⟨ha, rfl⟩]

end InvertsAt

namespace Inverts

variable {d : Decoder τ ε α} {Valid Valid' : α → Prop} {encode encode' : α → List τ}

/-- Another description of the same values and the same encoding. -/
theorem congr (h : Inverts d Valid encode) (hvalid : ∀ a, Valid a ↔ Valid' a)
    (hencode : ∀ a, Valid a → encode a = encode' a) : Inverts d Valid' encode' :=
  ⟨h.toLocal, fun r => (h.invertsAt r).congr hvalid hencode⟩

/-- A decoder that takes nothing inverts the empty encoding of its one value. -/
theorem pure (a : α) : Inverts (Pure.pure a : Decoder τ ε α) (fun b => b = a) fun _ => [] :=
  ⟨Local.pure a, fun r bs b => by
    rw [parse_pure, Except.ok.injEq, Prod.mk.injEq, List.nil_append, @eq_comm _ a b]⟩

/-- A decoder that fails inverts any encoding of no value at all. -/
theorem fail (e : ε) (h : ∀ a, ¬ Valid a) :
    Inverts (Proc.fail e : Decoder τ ε α) Valid encode :=
  ⟨Local.fail e, fun _ => InvertsAt.fail e h⟩

/-- The inverse of a decoder whose result is renamed by `f`, wherever it is called. -/
theorem map {f : α → β} {Valid' : β → Prop} {encode' : β → List τ} (h : Inverts d Valid encode)
    (hvalid : ∀ b, Valid' b ↔ ∃ a, Valid a ∧ b = f a)
    (hencode : ∀ a, Valid a → encode' (f a) = encode a) : Inverts (f <$> d) Valid' encode' :=
  ⟨h.toLocal.map f, fun r => (h.invertsAt r).map hvalid hencode⟩

/-- The encoding of a valid value is decoded, and what follows it is left. -/
theorem parse_encode (h : Inverts d Valid encode) {a : α} (ha : Valid a) (r : List τ) :
    parse d (encode a ++ r) = .ok (a, r) :=
  (h.invertsAt r _ a).mpr ⟨ha, rfl⟩

end Inverts

/-- What a sequence reads after the encoding of its first value. -/
theorem Inverts.parse_bind_eq_ok {d : Decoder τ ε α} {f : α → Decoder τ ε β} {Valid : α → Prop}
    {encode : α → List τ} (hd : Inverts d Valid encode) (hf : ∀ a, Local (f a)) {bs r : List τ}
    {b : β} : parse (d >>= f) bs = .ok (b, r) ↔
      ∃ a r', Valid a ∧ bs = encode a ++ r' ∧ parse (f a) r' = .ok (b, r) := by
  rw [parse_bind d hf]
  constructor
  · intro h
    rcases hp : parse d bs with e | ⟨a, r'⟩
    · rw [hp] at h; cases h
    rw [hp] at h
    obtain ⟨ha, hbs⟩ := (hd.invertsAt r' bs a).mp hp
    exact ⟨a, r', ha, hbs, h⟩
  · rintro ⟨a, r', ha, rfl, h⟩
    rw [hd.parse_encode ha]
    exact h

/-- After the encoding of its first value a sequence goes on with the rest of the input. -/
theorem Inverts.parse_bind_encode {d : Decoder τ ε α} {f : α → Decoder τ ε β} {Valid : α → Prop}
    {encode : α → List τ} (hd : Inverts d Valid encode) (hf : ∀ a, Local (f a)) {a : α}
    (ha : Valid a) (r : List τ) : parse (d >>= f) (encode a ++ r) = parse (f a) r := by
  rw [parse_bind d hf, hd.parse_encode ha]

/-- Sequencing: the value tells what the first decoder read. -/
theorem InvertsAt.bind {r : List τ} {d : Decoder τ ε α} {f : α → Decoder τ ε β}
    {Valid : α → Prop} {encode : α → List τ} (key : β → α) (Valid' : α → β → Prop)
    (encode' : α → β → List τ) (hd : Inverts d Valid encode) (hlocal : ∀ a, Local (f a))
    (hf : ∀ a, InvertsAt r (f a) (Valid' a) (encode' a)) (hkey : ∀ a b, Valid' a b → key b = a) :
    InvertsAt r (d >>= f) (fun b => Valid (key b) ∧ Valid' (key b) b)
      fun b => encode (key b) ++ encode' (key b) b := by
  intro bs b
  rw [hd.parse_bind_eq_ok hlocal]
  constructor
  · rintro ⟨a, r', ha, rfl, h⟩
    obtain ⟨hb, rfl⟩ := (hf a r' b).mp h
    obtain rfl := hkey a b hb
    exact ⟨⟨ha, hb⟩, (List.append_assoc _ _ _).symm⟩
  · rintro ⟨⟨ha, hb⟩, rfl⟩
    exact ⟨key b, _, ha, List.append_assoc _ _ _, (hf _ _ b).mpr ⟨hb, rfl⟩⟩

/-- Two decoders one after the other invert two encodings one after the other, if the value of the
second tells that of the first. -/
theorem Inverts.bind {d : Decoder τ ε α} {f : α → Decoder τ ε β}
    {Valid : α → Prop} {encode : α → List τ} (key : β → α) (Valid' : α → β → Prop)
    (encode' : α → β → List τ) (hd : Inverts d Valid encode)
    (hf : ∀ a, Inverts (f a) (Valid' a) (encode' a)) (hkey : ∀ a b, Valid' a b → key b = a) :
    Inverts (d >>= f) (fun b => Valid (key b) ∧ Valid' (key b) b)
      fun b => encode (key b) ++ encode' (key b) b :=
  ⟨hd.toLocal.bind fun a => (hf a).toLocal, fun r =>
    .bind key Valid' encode' hd (fun a => (hf a).toLocal) (fun a => (hf a).invertsAt r) hkey⟩

/-- Sequencing for records: one more component is read, and then the rest. -/
theorem Inverts.field {d : Decoder τ ε α} {f : α → Decoder τ ε β} {Valid : α → Prop}
    {encode : α → List τ} (get : β → α) {Known Rest : β → Prop} {encodeRest : β → List τ}
    (hd : Inverts d Valid encode)
    (hf : ∀ a, Inverts (f a) (fun b => (Known b ∧ get b = a) ∧ Rest b) encodeRest) :
    Inverts (d >>= f) (fun b => Known b ∧ Valid (get b) ∧ Rest b)
      fun b => encode (get b) ++ encodeRest b :=
  (Inverts.bind get (fun a b => (Known b ∧ get b = a) ∧ Rest b) (fun _ => encodeRest) hd hf
    fun _ _ h => h.1.2).congr (fun b => by simp [and_left_comm]) fun _ _ => rfl

/-- The beginning of a record: no component is known. -/
theorem Inverts.ofFields {d : Decoder τ ε β} {Valid Valid' : β → Prop} {encode encode' : β → List τ}
    (h : Inverts d (fun b => True ∧ Valid b) encode) (hvalid : ∀ b, Valid b ↔ Valid' b)
    (hencode : ∀ b, encode b = encode' b) : Inverts d Valid' encode' :=
  h.congr (fun b => (and_iff_right trivial).trans (hvalid b)) fun b _ => hencode b

/-- The end of a record: all components are known. -/
theorem Inverts.record {b : β} {Known : β → Prop} (h : ∀ b', b' = b ↔ Known b') :
    Inverts (Pure.pure b : Decoder τ ε β) (fun b' => Known b' ∧ True) fun _ => [] :=
  (Inverts.pure b).congr (fun b' => (h b').trans (and_iff_left trivial).symm) fun _ _ => rfl

/-- Two values in a row make one. -/
theorem Inverts.pair {γ : Type u} {d₁ : Decoder τ ε α} {d₂ : Decoder τ ε β} {mk : α → β → γ}
    {Valid₁ : α → Prop} {Valid₂ : β → Prop} {Valid : γ → Prop} {encode₁ : α → List τ}
    {encode₂ : β → List τ} {encode : γ → List τ} (h₁ : Inverts d₁ Valid₁ encode₁)
    (h₂ : Inverts d₂ Valid₂ encode₂)
    (hvalid : ∀ c, Valid c ↔ ∃ a b, (Valid₁ a ∧ Valid₂ b) ∧ c = mk a b)
    (hencode : ∀ a b, Valid₁ a → Valid₂ b → encode (mk a b) = encode₁ a ++ encode₂ b) :
    Inverts (d₁ >>= fun a => d₂ >>= fun b => Pure.pure (mk a b)) Valid encode := by
  have hlocal (a : α) : Local (d₂ >>= fun b => Pure.pure (mk a b) : Decoder τ ε γ) :=
    h₂.toLocal.bind fun _ => .pure _
  refine ⟨h₁.toLocal.bind hlocal, fun r bs c => ?_⟩
  rw [h₁.parse_bind_eq_ok hlocal, hvalid]
  simp only [h₂.parse_bind_eq_ok fun _ => Local.pure _, parse_pure, Except.ok.injEq, Prod.mk.injEq]
  constructor
  · rintro ⟨a, _, ha, rfl, b, r', hb, rfl, rfl, rfl⟩
    exact ⟨⟨a, b, ⟨ha, hb⟩, rfl⟩, by rw [hencode a b ha hb, List.append_assoc]⟩
  · rintro ⟨⟨a, b, ⟨ha, hb⟩, rfl⟩, rfl⟩
    exact ⟨a, encode₂ b ++ r, ha, by rw [hencode a b ha hb, List.append_assoc], b, r, hb, rfl, rfl,
      rfl⟩

/-! ## Loops that read one element in a round -/

section Loop

variable {δ : Type u} [Inhabited ε]

/-- A round of the loop reads the end mark, or one element and pushes it. -/
structure ReadsElement (step : β → Decoder τ ε (ForInStep β)) (Valid : δ → Prop)
    (encode : δ → List τ) (stop : List τ) (push : β → δ → β) : Prop where
  isLocal : ∀ b, Local (step b)
  consumes : Consumes step
  done_iff : ∀ b b' bs r, parse (step b) bs = .ok (.done b', r) ↔ b' = b ∧ bs = stop ++ r
  yield_iff : ∀ b b' bs r, parse (step b) bs = .ok (.yield b', r) ↔
    ∃ x, Valid x ∧ b' = push b x ∧ bs = encode x ++ r

variable {step : β → Decoder τ ε (ForInStep β)} {Valid : δ → Prop} {encode : δ → List τ}
  {stop : List τ} {push : β → δ → β}

/-- The loop reads a list of elements and the end mark, and pushes the elements in their order. -/
theorem ReadsElement.parse_loop_foldl (h : ReadsElement step Valid encode stop push) (b b' : β)
    (bs r : List τ) :
    parse (loop step b) bs = .ok (b', r) ↔ ∃ xs : List δ, (∀ x ∈ xs, Valid x) ∧
      b' = xs.foldl push b ∧ bs = xs.flatMap encode ++ stop ++ r := by
  constructor
  · induction hlen : bs.length using Nat.strongRecOn generalizing bs b with
    | ind len ih =>
      intro hparse
      rw [parse_loop h.isLocal h.consumes] at hparse
      rcases hp : parse (step b) bs with e | ⟨b₁ | b₁, r₁⟩
      · rw [hp] at hparse; cases hparse
      · rw [hp] at hparse
        obtain ⟨rfl, rfl⟩ : b₁ = b' ∧ r₁ = r := by simpa using hparse
        obtain ⟨rfl, rfl⟩ := (h.done_iff b b₁ bs r₁).mp hp
        exact ⟨[], nofun, rfl, rfl⟩
      · rw [hp] at hparse
        have hlt := h.consumes hp
        obtain ⟨x, hx, rfl, rfl⟩ := (h.yield_iff b b₁ bs r₁).mp hp
        obtain ⟨xs, hxs, rfl, rfl⟩ := ih r₁.length (by omega) _ _ rfl hparse
        refine ⟨x :: xs, List.forall_mem_cons.mpr ⟨hx, hxs⟩, rfl, ?_⟩
        simp only [List.flatMap_cons, List.append_assoc]
  · rintro ⟨xs, hxs, rfl, rfl⟩
    induction xs generalizing b with
    | nil =>
      rw [parse_loop h.isLocal h.consumes, List.flatMap_nil, List.nil_append,
        (h.done_iff b b _ r).mpr ⟨rfl, rfl⟩]
      rfl
    | cons x xs ih =>
      obtain ⟨hx, hxs⟩ := List.forall_mem_cons.mp hxs
      rw [parse_loop h.isLocal h.consumes, (h.yield_iff b (push b x) _
        (xs.flatMap encode ++ stop ++ r)).mpr ⟨x, hx, rfl, by simp⟩]
      exact ih (push b x) hxs

/-- A round that fails after some elements fails the loop. -/
theorem ReadsElement.parse_loop_eq_error (h : ReadsElement step Valid encode stop push) {e : ε}
    {bs : List τ} (b : β) {xs : List δ} (hxs : ∀ x ∈ xs, Valid x)
    (herror : parse (step (xs.foldl push b)) bs = .error e) :
    parse (loop step b) (xs.flatMap encode ++ bs) = .error e := by
  induction xs generalizing b with
  | nil =>
    rw [parse_loop h.isLocal h.consumes, List.flatMap_nil, List.nil_append]
    rw [List.foldl_nil] at herror
    rw [herror]
  | cons x xs ih =>
    obtain ⟨hx, hxs⟩ := List.forall_mem_cons.mp hxs
    rw [parse_loop h.isLocal h.consumes, (h.yield_iff b (push b x) _
      (xs.flatMap encode ++ bs)).mpr ⟨x, hx, rfl, by simp⟩]
    exact ih (push b x) hxs herror

/-- A loop that collects its elements inverts the encoding of lists. -/
theorem ReadsElement.inverts {step : List δ → Decoder τ ε (ForInStep (List δ))}
    (h : ReadsElement step Valid encode stop fun xs x => xs ++ [x]) :
    Inverts (loop step []) (fun xs => ∀ x ∈ xs, Valid x) fun xs => xs.flatMap encode ++ stop where
  toLocal := Local.loop h.isLocal []
  invertsAt r bs xs := by
    have hpush (xs ys : List δ) : ys.foldl (fun xs x => xs ++ [x]) xs = xs ++ ys := by
      induction ys generalizing xs with
      | nil => exact (List.append_nil xs).symm
      | cons y ys ih => rw [List.foldl_cons, ih, List.append_assoc]; rfl
    rw [h.parse_loop_foldl]
    constructor
    · rintro ⟨ys, hys, rfl, rfl⟩
      rw [hpush, List.nil_append]
      exact ⟨hys, rfl⟩
    · rintro ⟨hxs, rfl⟩
      exact ⟨xs, hxs, (hpush [] xs).symm, rfl⟩

end Loop

end Decoder
