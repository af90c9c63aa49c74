import Postgread.Foundations.Codec
import Postgread.Msg.Parts

/-!
# The wire format of parts

How numbers, strings, byte strings and counted lists are written, and that each take of
`BytesSource` and each part decoder inverts its encoding. `Decodes` is what the messages are
measured by: the decoder returns a value and leaves no byte.
-/

namespace Postgread

open Decoder BytesSource

variable {α β : Type}

/-- The decoder returns the value and leaves no byte. -/
def Decodes (decode : Decode α) (bytes : List UInt8) (value : α) : Prop :=
  ∃ source, decode (BytesSource.new bytes) = (.ok value, source) ∧ source.left = 0

/-- A body decodes to a value exactly if nothing is left after it. -/
theorem decodes_iff_parse {decode : Decode α} {bytes : List UInt8} {value : α} :
    Decodes decode bytes value ↔ parse decode bytes = .ok (value, []) := by
  constructor
  · rintro ⟨source, h, hleft⟩
    rw [← Cursor.length_rest] at hleft
    rw [parse_of_ok h, List.eq_nil_of_length_eq_zero hleft]
  · intro h
    obtain ⟨source, hd, hrest⟩ := exists_of_parseAt_ok h
    exact ⟨source, hd, by rw [← Cursor.length_rest, hrest, List.length_nil]⟩

/-- With an inverse on whole bodies, the bodies of a value are its encoding. -/
theorem decodes_iff_of_invertsAt {decode : Decode α} {Valid : α → Prop}
    {encode : α → List UInt8} (h : InvertsAt [] decode Valid encode) {bytes : List UInt8}
    {value : α} : Decodes decode bytes value ↔ Valid value ∧ bytes = encode value := by
  rw [decodes_iff_parse, h, List.append_nil]

/-! ## Numbers and strings -/

/-- A number in two bytes. -/
def encodeU16 (n : UInt16) : List UInt8 := toBigEndian 2 n.toNat

/-- A number in four bytes. -/
def encodeU32 (n : UInt32) : List UInt8 := toBigEndian 4 n.toNat

/-- A string and the zero byte that ends it. -/
def encodeString (s : List UInt8) : List UInt8 := s ++ [0]

/-- A take of a fixed number of bytes inverts an encoding into so many bytes. -/
theorem takeBounded_inverts {needed : ℕ} {decode : List UInt8 → α} {Valid : α → Prop}
    {encode : α → List UInt8}
    (hdecode : ∀ s, s.length = needed → Valid (decode s) ∧ encode (decode s) = s)
    (hencode : ∀ a, Valid a → (encode a).length = needed ∧ decode (encode a) = a) :
    Inverts (takeBounded needed decode) Valid encode where
  toLocal := takeBounded_local needed decode
  invertsAt r bs a := by
    rw [parse_takeBounded]
    constructor
    · intro h
      split at h
      · rename_i hle
        obtain ⟨rfl, rfl⟩ : decode (bs.take needed) = a ∧ bs.drop needed = r := by simpa using h
        obtain ⟨hvalid, hbytes⟩ := hdecode (bs.take needed) (List.length_take_of_le hle)
        exact ⟨hvalid, by rw [hbytes, List.take_append_drop]⟩
      · cases h
    · rintro ⟨hvalid, rfl⟩
      obtain ⟨hlen, hvalue⟩ := hencode a hvalid
      rw [if_pos (by rw [List.length_append]; omega), ← hlen, List.take_left, List.drop_left,
        hvalue]

/-- One byte is itself. -/
theorem takeU8_inverts : Inverts takeU8 (fun _ => True) fun b => [b] := by
  refine takeBounded_inverts (fun s hs => ⟨trivial, ?_⟩) fun b _ => ⟨rfl, rfl⟩
  obtain ⟨b, rfl⟩ := List.length_eq_one_iff.mp hs
  rfl

/-- A number of 16 bits is its two bytes. -/
theorem takeU16_inverts : Inverts takeU16 (fun _ => True) encodeU16 := by
  refine takeBounded_inverts (fun s hs => ⟨trivial, ?_⟩) fun n _ => ⟨length_toBigEndian _ _, ?_⟩
  · have hlt := ofBigEndian_lt s
    rw [hs] at hlt
    rw [encodeU16, UInt16.toNat_ofNat_of_lt' (by unfold UInt16.size; omega), ← hs,
      toBigEndian_ofBigEndian]
  · have hlt := n.toNat_lt
    rw [encodeU16, ofBigEndian_toBigEndian, Nat.mod_eq_of_lt (by omega), UInt16.ofNat_toNat]

/-- A number of 32 bits is its four bytes. -/
theorem takeU32_inverts : Inverts takeU32 (fun _ => True) encodeU32 := by
  refine takeBounded_inverts (fun s hs => ⟨trivial, ?_⟩) fun n _ => ⟨length_toBigEndian _ _, ?_⟩
  · have hlt := ofBigEndian_lt s
    rw [hs] at hlt
    rw [encodeU32, UInt32.toNat_ofNat_of_lt' (by unfold UInt32.size; omega), ← hs,
      toBigEndian_ofBigEndian]
  · have hlt := n.toNat_lt
    rw [encodeU32, ofBigEndian_toBigEndian, Nat.mod_eq_of_lt (by omega), UInt32.ofNat_toNat]

/-- An array is the bytes in it. -/
theorem takeSlice_inverts (n : ℕ) : Inverts (takeSlice n) (fun _ => True) Vector.toList := by
  refine takeBounded_inverts (fun s hs => ⟨trivial, ?_⟩) fun v _ => ⟨v.length_toList, ?_⟩
  · refine List.ext_getElem (by simp [hs]) fun i hi hi' => ?_
    simp [hi']
  · ext i hi
    simp

/-- As many bytes as are asked for are themselves. -/
theorem takeVec_inverts (len : ℕ) : Inverts (takeVec len) (fun s => s.length = len) id :=
  takeBounded_inverts (fun _ hs => ⟨hs, rfl⟩) fun _ hs => ⟨hs, rfl⟩

/-- A string is its bytes without a zero among them, and a zero at the end. -/
theorem takeUntilNull_inverts : Inverts takeUntilNull (fun s => 0 ∉ s) encodeString where
  toLocal := takeUntilNull_local
  invertsAt r bs s := by
    rw [encodeString, List.append_assoc, List.singleton_append]
    constructor
    · exact parse_takeUntilNull_eq_ok
    · rintro ⟨hs, rfl⟩
      exact parse_takeUntilNull hs r

/-- All that is left is the whole of what was encoded. -/
theorem takeRest_invertsAt : InvertsAt [] takeRest (fun _ => True) id := by
  intro bs s
  rw [parse_takeRest, Except.ok.injEq, Prod.mk.injEq, List.append_nil]
  simp

/-! ## Messages of one component or none -/

/-- A message that is one string. -/
theorem string_inverts (get : α → List UInt8) {mk : List UInt8 → α}
    (hmk : ∀ a s, a = mk s ↔ get a = s) :
    Inverts (mk <$> takeUntilNull) (fun a => 0 ∉ get a) fun a => encodeString (get a) := by
  have hget (s : List UInt8) : get (mk s) = s := (hmk _ s).mp rfl
  refine takeUntilNull_inverts.map (fun a => ?_) fun s _ => by rw [hget]
  constructor
  · exact fun ha => ⟨get a, ha, (hmk a _).mpr rfl⟩
  · rintro ⟨s, hs, rfl⟩
    rwa [hget]

/-- A message that is all that is left. -/
theorem rest_invertsAt (get : α → List UInt8) {mk : List UInt8 → α}
    (hmk : ∀ a s, a = mk s ↔ get a = s) :
    InvertsAt [] (mk <$> takeRest) (fun _ => True) get :=
  takeRest_invertsAt.map (fun a => ⟨fun _ => ⟨get a, trivial, (hmk a _).mpr rfl⟩,
    fun _ => trivial⟩) fun s _ => (hmk _ s).mp rfl

/-- A message without a component. -/
theorem empty_inverts {a : α} (h : ∀ b, b = a) :
    Inverts (pure a : Decode α) (fun _ => True) fun _ => [] :=
  (Inverts.pure a).congr (fun b => iff_true_intro (h b)) fun _ _ => rfl

/-! ## Byte strings that may be null -/

/-- The length that announces a byte string; null is -1. -/
def nullableLen : Option (List UInt8) → UInt32
  | none => 0xFFFFFFFF
  | some s => UInt32.ofNat s.length

/-- A length of 32 bits and the bytes. -/
def encodeNullable (o : Option (List UInt8)) : List UInt8 :=
  encodeU32 (nullableLen o) ++ o.getD []

/-- How a number of 32 bits is read as a signed one. -/
theorem toInt_toInt32 (x : UInt32) :
    x.toInt32.toInt = if x.toNat < 2 ^ 31 then (x.toNat : ℤ) else x.toNat - 2 ^ 32 := by
  have hx : x.toInt32.toInt = x.toBitVec.toInt := rfl
  rw [hx, BitVec.toInt_eq_toNat_cond, UInt32.toNat_toBitVec]
  congr 1
  rw [eq_iff_iff]
  omega

/-- Minus one has all bits set. -/
theorem toInt32_eq_neg_one {x : UInt32} : x.toInt32 = -1 ↔ x = 0xFFFFFFFF := by
  have hlt := x.toNat_lt
  have hneg : (-1 : Int32).toInt = -1 := rfl
  have hmax : (0xFFFFFFFF : UInt32).toNat = 2 ^ 32 - 1 := rfl
  rw [← Int32.toInt_inj, toInt_toInt32, hneg, ← UInt32.toNat_inj, hmax]
  split <;> omega

/-- A number is not negative if its first bit is not set. -/
theorem zero_le_toInt32 {x : UInt32} : 0 ≤ x.toInt32 ↔ x.toNat < 2 ^ 31 := by
  have hlt := x.toNat_lt
  have hzero : (0 : Int32).toInt = 0 := rfl
  rw [Int32.le_iff_toInt_le, toInt_toInt32, hzero]
  split <;> omega

/-- Such a number keeps its value. -/
theorem toNat_toInt32 {x : UInt32} (h : x.toNat < 2 ^ 31) : x.toInt32.toInt.toNat = x.toNat := by
  rw [toInt_toInt32, if_pos h, Int.toNat_natCast]

/-- A length that is not negative keeps its value as well. -/
theorem toNat_nullableLen {s : List UInt8} (h : s.length < 2 ^ 31) :
    (nullableLen (some s)).toNat = s.length :=
  UInt32.toNat_ofNat_of_lt' (by unfold UInt32.size; omega)

/-- The decoding of a byte string that may be null, for a value that holds it. -/
theorem nullable_inverts (get : α → Option (List UInt8)) {null : α} {mk : List UInt8 → α}
    {Known : α → Prop} (incorrect : Int32 → Problem)
    (hnull : ∀ a, a = null ↔ Known a ∧ get a = none)
    (hmk : ∀ a s, a = mk s ↔ Known a ∧ get a = some s) :
    Inverts (takeU32 >>= fun x =>
        if x.toInt32 = -1 then pure null
        else if 0 ≤ x.toInt32 then takeVec x.toInt32.toInt.toNat >>= fun s => pure (mk s)
        else Proc.fail (incorrect x.toInt32))
      (fun a => Known a ∧ ∀ s ∈ get a, s.length < 2 ^ 31) fun a => encodeNullable (get a) := by
  refine (Inverts.bind (fun a => nullableLen (get a))
    (fun x a => nullableLen (get a) = x ∧ Known a ∧ ∀ s ∈ get a, s.length < 2 ^ 31)
    (fun _ a => (get a).getD []) takeU32_inverts (fun x => ?_) fun _ _ h => h.1).congr
    (fun _ => by simp) fun _ _ => rfl
  by_cases hx : x.toInt32 = -1
  · -- the length of null, which no byte string has
    obtain rfl := toInt32_eq_neg_one.mp hx
    rw [if_pos hx]
    refine (Inverts.pure null).congr (fun a => ?_) fun a ha => ?_
    · rw [hnull]
      rcases hget : get a with _ | s
      · simp [nullableLen]
      · simp only [Option.mem_some_iff, forall_eq', reduceCtorEq, and_false, false_iff]
        rintro ⟨hlen, -, hs⟩
        have hmax := congrArg UInt32.toNat hlen
        rw [toNat_nullableLen hs] at hmax
        exact absurd hmax (by show s.length ≠ 2 ^ 32 - 1; omega)
    · rw [((hnull a).mp ha).2]
      rfl
  rw [if_neg hx]
  by_cases hpos : 0 ≤ x.toInt32
  · -- the length of a byte string
    have hlt := zero_le_toInt32.mp hpos
    rw [if_pos hpos, toNat_toInt32 hlt]
    refine (Inverts.bind (fun a => (get a).getD []) (fun s a => a = mk s) (fun _ _ => [])
      (takeVec_inverts x.toNat) (fun s => .pure _) fun s a ha => ?_).congr (fun a => ?_)
      fun a _ => List.append_nil _
    · rw [((hmk a s).mp ha).2, Option.getD_some]
    · rw [hmk]
      rcases hget : get a with _ | s
      · simp only [reduceCtorEq, and_false, false_iff]
        exact fun h => hx (toInt32_eq_neg_one.mpr h.1.symm)
      · simp only [Option.getD_some, Option.mem_some_iff, forall_eq', and_true]
        constructor
        · rintro ⟨hlen, hknown⟩
          refine ⟨?_, hknown, by omega⟩
          rw [← UInt32.toNat_inj, toNat_nullableLen (by omega), hlen]
        · rintro ⟨rfl, hknown, hs⟩
          exact ⟨(toNat_nullableLen hs).symm, hknown⟩
  · rw [if_neg hpos]
    -- a negative length is not the length of anything
    refine Inverts.fail _ fun a => ?_
    rintro ⟨rfl, -, hs⟩
    rcases hget : get a with _ | s
    · exact hx (toInt32_eq_neg_one.mpr (by rw [hget]; rfl))
    · rw [hget] at hs hpos
      have hlen := hs s rfl
      exact hpos (zero_le_toInt32.mpr (by rw [toNat_nullableLen hlen]; exact hlen))

/-- What comes behind a nullable length depends on the bytes that are left alone. -/
theorem nullable_local (null : α) (mk : List UInt8 → α) (incorrect : Int32 → Problem) (x : UInt32) :
    Local (if x.toInt32 = -1 then pure null
      else if 0 ≤ x.toInt32 then takeVec x.toInt32.toInt.toNat >>= fun s => pure (mk s)
      else Proc.fail (incorrect x.toInt32) : Decode α) := by
  split
  · exact .pure _
  split
  · exact (takeVec_inverts _).toLocal.bind fun _ => .pure _
  · exact .fail _

/-- A negative length other than -1 is refused. -/
theorem parse_nullable_of_negative {null : α} {mk : List UInt8 → α} (incorrect : Int32 → Problem)
    {x : UInt32} (h : 2 ^ 31 ≤ x.toNat) (hx : x ≠ 0xFFFFFFFF) (r : List UInt8) :
    parse (takeU32 >>= fun x =>
        if x.toInt32 = -1 then pure null
        else if 0 ≤ x.toInt32 then takeVec x.toInt32.toInt.toNat >>= fun s => pure (mk s)
        else Proc.fail (incorrect x.toInt32)) (encodeU32 x ++ r) =
      .error (incorrect x.toInt32) := by
  rw [takeU32_inverts.parse_bind_encode (nullable_local null mk incorrect) trivial,
    if_neg fun h' => hx (toInt32_eq_neg_one.mp h'), if_neg, parse_fail]
  rw [zero_le_toInt32]
  omega

/-! ## Parts -/

/-- The number of a format. -/
def Format.toU16 : Format → UInt16
  | .text => 0
  | .binary => 1

/-- A format in two bytes. -/
def Format.encode (format : Format) : List UInt8 := encodeU16 format.toU16

/-- A text and a zero byte. -/
def Text.encode (text : Text) : List UInt8 := encodeString text.bytes

/-- A text has no zero byte. -/
def Text.WellFormed (text : Text) : Prop := 0 ∉ text.bytes

instance (text : Text) : Decidable text.WellFormed := inferInstanceAs (Decidable (0 ∉ text.bytes))

/-- A value as the bytes that it may have. -/
def Value.toOption : Value → Option (List UInt8)
  | .null => none
  | .bytes value => some value.bytes

/-- A value behind its length, which is -1 for null. -/
def Value.encode (value : Value) : List UInt8 := encodeNullable value.toOption

/-- The length of a value is not negative as a signed number. -/
def Value.WellFormed (value : Value) : Prop := ∀ s ∈ value.toOption, s.length < 2 ^ 31

instance : DecidablePred Value.WellFormed
  | .null => .isTrue nofun
  | .bytes value => decidable_of_iff (value.bytes.length < 2 ^ 31)
    (by simp [Value.WellFormed, Value.toOption])

/-- A format is read from its number alone. -/
theorem Format.decode_inverts : Inverts Format.decode (fun _ => True) Format.encode := by
  refine (Inverts.bind Format.toU16 (fun x format => format.toU16 = x) (fun _ _ => [])
    takeU16_inverts (fun x => ?_) fun _ _ h => h).congr (fun _ => by simp) fun _ _ =>
      List.append_nil _
  split
  · exact (Inverts.pure Format.text).congr (fun format => by cases format <;> simp [toU16])
      fun _ _ => rfl
  · exact (Inverts.pure Format.binary).congr (fun format => by cases format <;> simp [toU16])
      fun _ _ => rfl
  · rename_i h0 h1
    refine Inverts.fail _ fun format => ?_
    rintro rfl
    cases format
    · exact h0 rfl
    · exact h1 rfl

/-- A text is read from its bytes and the zero byte alone. -/
theorem Text.decode_inverts : Inverts Text.decode Text.WellFormed Text.encode :=
  takeUntilNull_inverts.map
    (fun text => ⟨fun h => ⟨text.bytes, h, rfl⟩, by rintro ⟨s, h, rfl⟩; exact h⟩) fun _ _ => rfl

/-- A value is read from its length and its bytes alone. -/
theorem Value.decode_inverts : Inverts Value.decode Value.WellFormed Value.encode := by
  refine (nullable_inverts Value.toOption
    (fun len => .incorrect s!"length of value should be >= -1 but is {len}")
    (fun value => ?_) fun value s => ?_).congr (fun _ => and_iff_right trivial) fun _ _ => rfl
  · cases value <;> simp [toOption]
  · rcases value with _ | ⟨⟨value⟩⟩ <;> simp [toOption]

/-- A value with another negative length than -1 is refused. -/
theorem Value.decode_of_negative {x : UInt32} (h : 2 ^ 31 ≤ x.toNat) (hx : x ≠ 0xFFFFFFFF)
    (r : List UInt8) : parse Value.decode (encodeU32 x ++ r) =
      .error (.incorrect s!"length of value should be >= -1 but is {x.toInt32}") :=
  parse_nullable_of_negative
    (fun len => .incorrect s!"length of value should be >= -1 but is {len}") h hx r

/-! ## Lists behind a count -/

section

variable {Part : Type} [PartDecode Part] {Valid : Part → Prop} {encode : Part → List UInt8}

/-- A list of `count` parts is the encodings of the parts in a row. -/
theorem decodeVec_inverts (h : Inverts PartDecode.decode Valid encode) (count : ℕ) :
    Inverts (decodeVec count) (fun items => items.length = count ∧ ∀ item ∈ items, Valid item)
      (List.flatMap encode) := by
  induction count with
  | zero =>
    refine (Inverts.pure []).congr (fun items => ?_) fun items hitems => ?_
    · rw [List.length_eq_zero_iff]
      exact ⟨fun hitems => ⟨hitems, by simp [hitems]⟩, And.left⟩
    · rw [hitems, List.flatMap_nil]
  | succ count ih =>
    refine (Inverts.pair h ih (fun items => ?_) fun item items _ _ => List.flatMap_cons)
    constructor
    · rintro ⟨hlen, hitems⟩
      obtain ⟨item, items, rfl⟩ := List.exists_cons_of_length_eq_add_one hlen
      obtain ⟨hitem, hitems⟩ := List.forall_mem_cons.mp hitems
      exact ⟨item, items, ⟨hitem, Nat.succ.inj hlen, hitems⟩, rfl⟩
    · rintro ⟨item, items, ⟨hitem, hlen, hitems⟩, rfl⟩
      exact ⟨congrArg (· + 1) hlen, List.forall_mem_cons.mpr ⟨hitem, hitems⟩⟩

/-- An item that is refused after some that are read makes the list refused. -/
theorem parse_decodeVec_eq_error (h : Inverts PartDecode.decode Valid encode) {items : List Part}
    (hitems : ∀ item ∈ items, Valid item) {count : ℕ} (hcount : items.length < count)
    {bs : List UInt8} {e : Problem}
    (herror : parse (PartDecode.decode : Decode Part) bs = .error e) :
    parse (decodeVec count : Decode (List Part)) (items.flatMap encode ++ bs) = .error e := by
  induction items generalizing count with
  | nil =>
    obtain ⟨count, rfl⟩ := Nat.exists_eq_add_one.mpr hcount
    rw [decodeVec, parse_bind _ fun _ => (decodeVec_inverts h count).toLocal.bind fun _ => .pure _,
      List.flatMap_nil, List.nil_append, herror]
  | cons item items ih =>
    obtain ⟨count, rfl⟩ := Nat.exists_eq_add_one.mpr (Nat.zero_lt_of_lt hcount)
    obtain ⟨hitem, hitems⟩ := List.forall_mem_cons.mp hitems
    have hrest := ih hitems (Nat.lt_of_succ_lt_succ hcount)
    rw [decodeVec, List.flatMap_cons, List.append_assoc, h.parse_bind_encode (fun _ =>
      (decodeVec_inverts h count).toLocal.bind fun _ => .pure _) hitem,
      parse_bind _ fun _ => .pure _, ih hitems (Nat.lt_of_succ_lt_succ hcount)]

/-- A count of `width` bytes and the items. -/
def encodeVec (width : ℕ) (encode : Part → List UInt8) (items : List Part) : List UInt8 :=
  toBigEndian width items.length ++ items.flatMap encode

/-- The count of the items fits into `width` bytes. -/
def Counted (width : ℕ) (Valid : Part → Prop) (items : List Part) : Prop :=
  items.length < 256 ^ width ∧ ∀ item ∈ items, Valid item

instance (width : ℕ) (Valid : Part → Prop) [DecidablePred Valid] (items : List Part) :
    Decidable (Counted width Valid items) :=
  inferInstanceAs (Decidable (_ ∧ _))

/-- A list behind its count, as a component of a record. -/
theorem counted_inverts {Count : Type} {take : Decode Count} {width : ℕ} {toNat : Count → ℕ}
    (ofNat : ℕ → Count)
    (htake : Inverts take (fun _ => True) fun count => toBigEndian width (toNat count))
    (hlt : ∀ count, toNat count < 256 ^ width) (hofNat : ∀ count, ofNat (toNat count) = count)
    (htoNat : ∀ n < 256 ^ width, toNat (ofNat n) = n) (h : Inverts PartDecode.decode Valid encode)
    (get : β → List Part) {f : List Part → Decode β} {Known Rest : β → Prop}
    {encodeRest : β → List UInt8}
    (hf : ∀ items, Inverts (f items) (fun b => (Known b ∧ get b = items) ∧ Rest b) encodeRest) :
    Inverts (take >>= fun count => decodeVec (toNat count) >>= f)
      (fun b => Known b ∧ Counted width Valid (get b) ∧ Rest b)
      fun b => encodeVec width encode (get b) ++ encodeRest b := by
  refine (Inverts.bind (fun b => ofNat (get b).length) _ _ htake (fun count =>
    .field get (decodeVec_inverts h (toNat count)) hf) ?_).congr (fun b => ?_) fun b hb => ?_
  · rintro count b ⟨-, ⟨hlen, -⟩, -⟩
    rw [hlen, hofNat]
  · constructor
    · rintro ⟨-, hknown, ⟨hlen, hitems⟩, hrest⟩
      exact ⟨hknown, ⟨hlen ▸ hlt _, hitems⟩, hrest⟩
    · rintro ⟨hknown, ⟨hlen, hitems⟩, hrest⟩
      exact ⟨trivial, hknown, ⟨(htoNat _ hlen).symm, hitems⟩, hrest⟩
  · rw [encodeVec, List.append_assoc, ← hb.2.2.1.1]

variable (get : β → List Part) {f : List Part → Decode β} {Known Rest : β → Prop}
  {encodeRest : β → List UInt8}

/-- A list behind a count of 16 bits. -/
theorem counted16_inverts (h : Inverts PartDecode.decode Valid encode)
    (hf : ∀ items, Inverts (f items) (fun b => (Known b ∧ get b = items) ∧ Rest b) encodeRest) :
    Inverts (takeU16 >>= fun count => decodeVec count.toNat >>= f)
      (fun b => Known b ∧ Counted 2 Valid (get b) ∧ Rest b)
      fun b => encodeVec 2 encode (get b) ++ encodeRest b :=
  counted_inverts UInt16.ofNat takeU16_inverts (fun count => count.toNat_lt)
    (fun _ => UInt16.ofNat_toNat) (fun _ hn => UInt16.toNat_ofNat_of_lt' hn) h get hf

/-- A list behind a count of 32 bits. -/
theorem counted32_inverts (h : Inverts PartDecode.decode Valid encode)
    (hf : ∀ items, Inverts (f items) (fun b => (Known b ∧ get b = items) ∧ Rest b) encodeRest) :
    Inverts (takeU32 >>= fun count => decodeVec count.toNat >>= f)
      (fun b => Known b ∧ Counted 4 Valid (get b) ∧ Rest b)
      fun b => encodeVec 4 encode (get b) ++ encodeRest b :=
  counted_inverts UInt32.ofNat takeU32_inverts (fun count => count.toNat_lt)
    (fun _ => UInt32.ofNat_toNat) (fun _ hn => UInt32.toNat_ofNat_of_lt' hn) h get hf

end

end Postgread
