import Postgread.Foundations.BigEndian
import Postgread.Foundations.Decoder
import Postgread.Msg.TypeByte

/-!
# Decoding from a byte source

The cursor `BytesSource` and its takes (`msg/util/decode.rs`), with what each take does as a parser
on lists. Every take is framed; `takeVec` of all that is left is not, and is only stable.
-/

namespace Postgread

open Decoder

/-- Why a body cannot be decoded. -/
inductive Problem where
  | needMoreBytes (n : ℕ)
  | noNullByte
  /-- Clearly incorrect. -/
  | incorrect (text : String)
  /-- Maybe an unknown protocol extension. -/
  | unknown (text : String)
deriving DecidableEq, Repr

instance : Inhabited Problem := ⟨.noNullByte⟩

instance : ShortRead Problem := ⟨.needMoreBytes, .noNullByte⟩

/-- The bytes of a body with the position of the next one. -/
abbrev BytesSource := Cursor UInt8

/-- A method that decodes from a `&mut BytesSource`. -/
abbrev Decode (α : Type) := Decoder UInt8 Problem α

/-- Parts of messages that can be decoded. -/
class PartDecode (Part : Type) where
  decode : Decode Part

/-- Messages that can be decoded from their bodies, with the type byte of their frames, if they have
one. -/
class MsgDecode (Msg : Type) where
  typeByteOpt : Option TypeByte
  decodeBody : Decode Msg

namespace BytesSource

variable {α : Type}

/-- The beginning of a body. -/
abbrev new (slice : List UInt8) : BytesSource := Cursor.new slice

/-- The next `needed` bytes, decoded. If there are fewer, the error says how many are missing, and
nothing is left. -/
def takeBounded (needed : ℕ) (decode : List UInt8 → α) : Decode α := fun source =>
  if h : source.pos + needed ≤ source.slice.length then
    let subSlice := (source.slice.drop source.pos).take needed
    (.ok (decode subSlice), ⟨source.slice, source.pos + needed, h⟩)
  else
    let left := source.slice.length - source.pos
    (.error (.needMoreBytes (needed - left)), ⟨source.slice, source.slice.length, le_rfl⟩)

/-- The next byte. -/
def takeU8 : Decode UInt8 := takeBounded 1 fun s => s.headD 0

/-- The next two bytes as a number. -/
def takeU16 : Decode UInt16 := takeBounded 2 fun s => UInt16.ofNat (ofBigEndian s)

/-- The next four bytes as a number. -/
def takeU32 : Decode UInt32 := takeBounded 4 fun s => UInt32.ofNat (ofBigEndian s)

/-- Fill an array of `n` bytes. -/
def takeSlice (n : ℕ) : Decode (Vector UInt8 n) :=
  takeBounded n fun s => Vector.ofFn fun i => s.getD i 0

/-- The next `len` bytes. -/
def takeVec (len : ℕ) : Decode (List UInt8) := takeBounded len fun s => s

/-- The loop over the positions stops at the first zero byte and jumps over it. -/
def takeUntilNull : Decode (List UInt8) := fun source =>
  let offset := (source.slice.drop source.pos).findIdx (· == 0)
  if h : source.pos + offset < source.slice.length then
    (.ok ((source.slice.drop source.pos).take offset), ⟨source.slice, source.pos + offset + 1, h⟩)
  else
    (.error .noNullByte, ⟨source.slice, source.slice.length, le_rfl⟩)

/-- `take_vec` of as many bytes as are left. -/
def takeRest : Decode (List UInt8) := fun source => takeVec source.left source

/-! ## The takes as parsers -/

/-- What a bounded take makes of the bytes that are left. -/
theorem parseAt_takeBounded (needed : ℕ) (decode : List UInt8 → α) (source : BytesSource) :
    parseAt (takeBounded needed decode) source =
      if needed ≤ source.rest.length then
        .ok (decode (source.rest.take needed), source.rest.drop needed)
      else .error (.needMoreBytes (needed - source.rest.length)) := by
  have hpos := source.pos_le
  have hiff : source.pos + needed ≤ source.slice.length ↔ needed ≤ source.rest.length := by
    rw [Cursor.length_rest, Cursor.left]; omega
  by_cases h : source.pos + needed ≤ source.slice.length
  · rw [if_pos (hiff.mp h)]
    simp [parseAt, takeBounded, dif_pos h, Cursor.rest, List.drop_drop]
  · rw [if_neg fun h' => h (hiff.mpr h')]
    simp [parseAt, takeBounded, dif_neg h, Cursor.left]

/-- What it makes of a body of its own. -/
theorem parse_takeBounded (needed : ℕ) (decode : List UInt8 → α) (bs : List UInt8) :
    parse (takeBounded needed decode) bs =
      if needed ≤ bs.length then .ok (decode (bs.take needed), bs.drop needed)
      else .error (.needMoreBytes (needed - bs.length)) := by
  rw [parse, parseAt_takeBounded, Cursor.rest_new]

/-- A bounded take only looks at the bytes that are left. -/
theorem takeBounded_local (needed : ℕ) (decode : List UInt8 → α) :
    Local (takeBounded needed decode) where
  parseAt_eq source := by rw [parseAt_takeBounded, parse_takeBounded]
  slice_eq source := by
    simp only [takeBounded]
    split <;> rfl

/-- It takes a fixed number of them, or reports how many are missing. -/
theorem takeBounded_framed (needed : ℕ) (decode : List UInt8 → α) :
    Framed (takeBounded needed decode) where
  toLocal := takeBounded_local needed decode
  short_eq {bs n} h := by
    rw [parse_takeBounded] at h
    split at h
    · cases h
    · rename_i hlt
      obtain rfl : needed - bs.length = n := by simpa [ShortRead.short] using h
      refine ⟨by omega, fun x hx => ?_⟩
      rw [parse_takeBounded, if_neg (by rw [List.length_append]; omega), List.length_append,
        Nat.sub_sub]
      rfl
  final_eq {bs e} h he := by
    rw [parse_takeBounded] at h
    split at h
    · cases h
    · obtain rfl : _ = e := by simpa using h
      exact absurd rfl (he.2 _)
  exact_eq bs a r h _ := by
    rw [parse_takeBounded] at h
    split at h
    · rename_i hle
      obtain ⟨rfl, rfl⟩ : decode (bs.take needed) = a ∧ bs.drop needed = r := by simpa using h
      have hlen : (bs.take needed).length = needed := by rw [List.length_take]; omega
      refine ⟨bs.take needed, (List.take_append_drop _ _).symm, fun x => ?_, fun p q hpq hq => ?_⟩
      · rw [parse_takeBounded, if_pos (by rw [List.length_append]; omega),
          List.take_append_of_le_length (by omega), List.take_take, Nat.min_self,
          List.drop_append_of_le_length (by omega), List.drop_eq_nil_of_le (by omega),
          List.nil_append]
      · have hpq' := congrArg List.length hpq
        rw [hlen, List.length_append] at hpq'
        have hq' : 0 < q.length := List.length_pos_iff.mpr hq
        refine ⟨.needMoreBytes (needed - p.length), ?_, .inr ⟨needed - p.length, rfl, ?_⟩⟩
        · rw [parse_takeBounded, if_neg (by omega)]
        · omega
    · cases h

/-- A zero byte ends the string before it. -/
theorem findIdx_null {v : List UInt8} (hv : 0 ∉ v) (r : List UInt8) :
    (v ++ 0 :: r).findIdx (· == 0) = v.length := by
  induction v with
  | nil => rfl
  | cons b v ih =>
    have hb : (b == 0) = false := by
      rw [beq_eq_false_iff_ne]; rintro rfl; exact hv List.mem_cons_self
    rw [List.cons_append, List.findIdx_cons, hb, cond_false,
      ih fun h => hv (List.mem_cons_of_mem b h), List.length_cons]

/-- Without a zero byte the search runs to the end. -/
theorem findIdx_null_of_not_mem {v : List UInt8} (hv : 0 ∉ v) :
    v.findIdx (· == 0) = v.length :=
  List.findIdx_eq_length.mpr fun b hb => by
    rw [beq_eq_false_iff_ne]; rintro rfl; exact hv hb

/-- The bytes up to the first zero byte, which is dropped. Without one there is an error. -/
theorem parseAt_takeUntilNull (source : BytesSource) :
    parseAt takeUntilNull source =
      if source.rest.findIdx (· == 0) < source.rest.length then
        .ok (source.rest.take (source.rest.findIdx (· == 0)),
          source.rest.drop (source.rest.findIdx (· == 0) + 1))
      else .error .noNullByte := by
  have hpos := source.pos_le
  have hrest : source.slice.drop source.pos = source.rest := rfl
  have hiff : source.pos + source.rest.findIdx (· == 0) < source.slice.length ↔
      source.rest.findIdx (· == 0) < source.rest.length := by
    rw [Cursor.length_rest, Cursor.left]; omega
  by_cases h : source.pos + source.rest.findIdx (· == 0) < source.slice.length
  · rw [if_pos (hiff.mp h)]
    have hdrop (k : ℕ) : source.slice.drop (source.pos + k) = source.rest.drop k :=
      List.drop_drop.symm
    simp only [parseAt, takeUntilNull, hrest, dif_pos h, Nat.add_assoc]
    rw [← hdrop]
    rfl
  · rw [if_neg fun h' => h (hiff.mpr h')]
    simp only [parseAt, takeUntilNull, hrest, dif_neg h]

/-- The search only looks at the bytes that are left. -/
theorem takeUntilNull_local : Local takeUntilNull where
  parseAt_eq source := by
    rw [parse, parseAt_takeUntilNull, parseAt_takeUntilNull, Cursor.rest_new]
  slice_eq source := by
    simp only [takeUntilNull]
    split <;> rfl

/-- `take_until_null` reads a string without zero bytes and the zero byte after it. -/
theorem parse_takeUntilNull {v : List UInt8} (hv : 0 ∉ v) (r : List UInt8) :
    parse takeUntilNull (v ++ 0 :: r) = .ok (v, r) := by
  rw [parse, parseAt_takeUntilNull, Cursor.rest_new, findIdx_null hv, if_pos (by simp)]
  simp

/-- Without a zero byte `take_until_null` fails. -/
theorem parse_takeUntilNull_of_not_mem {v : List UInt8} (hv : 0 ∉ v) :
    parse takeUntilNull v = .error .noNullByte := by
  rw [parse, parseAt_takeUntilNull, Cursor.rest_new, findIdx_null_of_not_mem hv, if_neg (by omega)]

/-- A success of `take_until_null` splits the input at its first zero byte. -/
theorem parse_takeUntilNull_eq_ok {bs v r : List UInt8}
    (h : parse takeUntilNull bs = .ok (v, r)) : 0 ∉ v ∧ bs = v ++ 0 :: r := by
  by_cases hmem : (0 : UInt8) ∈ bs
  · obtain ⟨v', r', rfl, hv'⟩ := List.eq_append_cons_of_mem hmem
    rw [parse_takeUntilNull hv'] at h
    obtain ⟨rfl, rfl⟩ : v' = v ∧ r' = r := by simpa using h
    exact ⟨hv', rfl⟩
  · rw [parse_takeUntilNull_of_not_mem hmem] at h
    cases h

/-- The search has only one error. -/
theorem parse_takeUntilNull_eq_error {bs : List UInt8} {e : Problem}
    (h : parse takeUntilNull bs = .error e) : e = .noNullByte := by
  by_cases hmem : (0 : UInt8) ∈ bs
  · obtain ⟨v, r, rfl, hv⟩ := List.eq_append_cons_of_mem hmem
    rw [parse_takeUntilNull hv] at h
    cases h
  · rw [parse_takeUntilNull_of_not_mem hmem] at h
    simpa using h.symm

/-- A zero byte marks the end, and nothing after it is looked at. -/
theorem takeUntilNull_framed : Framed takeUntilNull where
  toLocal := takeUntilNull_local
  short_eq h := by cases parse_takeUntilNull_eq_error h
  final_eq h he := absurd (parse_takeUntilNull_eq_error h) he.1
  exact_eq bs v r h _ := by
    obtain ⟨hv, rfl⟩ := parse_takeUntilNull_eq_ok h
    refine ⟨v ++ [0], by simp, fun x => ?_, fun p q hpq hq => ?_⟩
    · rw [List.append_assoc]
      exact parse_takeUntilNull hv x
    · have hp : p <+: v := by
        rcases List.eq_nil_or_concat q with rfl | ⟨q', z, rfl⟩
        · exact absurd rfl hq
        · rw [List.concat_eq_append, ← List.append_assoc] at hpq
          exact ⟨q', (List.append_inj' hpq rfl).1.symm⟩
      exact ⟨_, parse_takeUntilNull_of_not_mem fun h0 => hv (hp.subset h0), .inl rfl⟩

/-- The zero byte at least is taken. -/
theorem takeUntilNull_eats : Eats takeUntilNull := by
  intro bs v r h
  obtain ⟨-, rfl⟩ := parse_takeUntilNull_eq_ok h
  simp only [List.length_append, List.length_cons]
  omega

/-- A byte is taken. -/
theorem takeU8_eats : Eats takeU8 := by
  intro bs v r h
  rw [takeU8, parse_takeBounded] at h
  split at h
  · obtain ⟨-, rfl⟩ : _ ∧ bs.drop 1 = r := by simpa using h
    rw [List.length_drop]
    omega
  · cases h

/-- All that is left is taken. -/
theorem parseAt_takeRest (source : BytesSource) :
    parseAt takeRest source = .ok (source.rest, []) := by
  have h := parseAt_takeBounded source.left (fun s => s) source
  rw [if_pos (Cursor.length_rest source).ge, ← Cursor.length_rest, List.take_length,
    List.drop_length] at h
  simpa only [parseAt, takeRest, takeVec, Cursor.length_rest] using h

/-- The rest depends on the bytes that are left alone. -/
theorem takeRest_local : Local takeRest where
  parseAt_eq source := by rw [parse, parseAt_takeRest, parseAt_takeRest, Cursor.rest_new]
  slice_eq source := (takeBounded_local source.left fun s => s).slice_eq source

/-- Nothing is left of a body. -/
@[simp] theorem parse_takeRest (bs : List UInt8) : parse takeRest bs = .ok (bs, []) := by
  rw [parse, parseAt_takeRest, Cursor.rest_new]

/-- More bytes do not make it fail, but they change the result. -/
theorem takeRest_stable : Stable takeRest :=
  .of_succeeds takeRest_local fun bs => ⟨_, parse_takeRest bs⟩

/-- A byte marks its own end. -/
theorem takeU8_framed : Framed takeU8 := takeBounded_framed _ _

/-- So does a number of 16 bits. -/
theorem takeU16_framed : Framed takeU16 := takeBounded_framed _ _

/-- So does a number of 32 bits. -/
theorem takeU32_framed : Framed takeU32 := takeBounded_framed _ _

/-- So does an array of a fixed size. -/
theorem takeSlice_framed (n : ℕ) : Framed (takeSlice n) := takeBounded_framed _ _

/-- So do as many bytes as are asked for. -/
theorem takeVec_framed (len : ℕ) : Framed (takeVec len) := takeBounded_framed _ _

end BytesSource

end Postgread
