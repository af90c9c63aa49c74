import Postgread.Foundations.Calls
import Postgread.Foundations.Checked
import Postgread.Msg.Wire.Parts

/-!
# Sequences of takes

`BytesSource` refines the consumption of a list. The checked takes spell out every sum, difference,
index and range that the methods of `msg/util/decode.rs` compute, on a position that nothing keeps
inside the slice; `Meets` says in terms of lists what a take does. `calls_refine` connects the two
over every sequence of takes: nothing aborts, and each take does what the list machine does.
-/

namespace Postgread

namespace BytesSource

variable {α β : Type}

/-! ## Checked takes -/

/-- A method of a source whose position may be outside of the slice. `none` is a panic. -/
abbrev CheckedDecode (α : Type) := RawCursor UInt8 → Option (Except Problem α × RawCursor UInt8)

/-- `take_bounded!` with its sums, its range and its subtraction, each of which may be refused. -/
def checkedTakeBounded (bits needed : ℕ) (decode : List UInt8 → Option α) : CheckedDecode α :=
  fun source => do
    let stop ← Checked.add bits source.pos needed
    if stop ≤ source.slice.length then
      let subSlice ← Checked.range source.slice source.pos stop
      let value ← decode subSlice
      pure (.ok value, ⟨source.slice, stop⟩)
    else
      let left ← Checked.sub source.slice.length source.pos
      let missing ← Checked.sub needed left
      pure (.error (.needMoreBytes missing), ⟨source.slice, source.slice.length⟩)

/-- `take_u8` so checked. -/
def checkedTakeU8 (bits : ℕ) : CheckedDecode UInt8 :=
  checkedTakeBounded bits 1 fun s => Checked.get s 0

/-- `take_u16` so checked. -/
def checkedTakeU16 (bits : ℕ) : CheckedDecode UInt16 :=
  checkedTakeBounded bits 2 fun s => do
    let b₀ ← Checked.get s 0
    let b₁ ← Checked.get s 1
    pure (UInt16.ofNat (ofBigEndian [b₀, b₁]))

/-- `take_u32` so checked. -/
def checkedTakeU32 (bits : ℕ) : CheckedDecode UInt32 :=
  checkedTakeBounded bits 4 fun s => do
    let b₀ ← Checked.get s 0
    let b₁ ← Checked.get s 1
    let b₂ ← Checked.get s 2
    let b₃ ← Checked.get s 3
    pure (UInt32.ofNat (ofBigEndian [b₀, b₁, b₂, b₃]))

/-- `copy_from_slice` aborts if the lengths differ. -/
def checkedTakeSlice (bits n : ℕ) : CheckedDecode (Vector UInt8 n) :=
  checkedTakeBounded bits n fun s =>
    if s.length = n then some (Vector.ofFn fun i => s.getD i 0) else none

/-- `take_vec` so checked. -/
def checkedTakeVec (bits len : ℕ) : CheckedDecode (List UInt8) :=
  checkedTakeBounded bits len some

/-- The loop over so many positions from `nullPos` on. -/
def checkedFindNull (bits : ℕ) (source : RawCursor UInt8) :
    ℕ → ℕ → Option (Except Problem (List UInt8) × RawCursor UInt8)
  | 0, _ => some (.error .noNullByte, ⟨source.slice, source.slice.length⟩)
  | count + 1, nullPos => do
    let byte ← Checked.get source.slice nullPos
    if byte = 0 then
      let res ← Checked.range source.slice source.pos nullPos
      let pos ← Checked.add bits nullPos 1
      pure (.ok res, ⟨source.slice, pos⟩)
    else
      checkedFindNull bits source count (nullPos + 1)

/-- `take_until_null` so checked. -/
def checkedTakeUntilNull (bits : ℕ) : CheckedDecode (List UInt8) := fun source =>
  checkedFindNull bits source (source.slice.length - source.pos) source.pos

/-- Rename the value. -/
def CheckedDecode.map (f : α → β) (x : CheckedDecode α) : CheckedDecode β := fun source =>
  (x source).map fun (result, source') => (result.map f, source')

/-- At this source the checked method does not abort, and does what the method does. -/
def Checks (x : CheckedDecode α) (d : Decode α) (source : BytesSource) : Prop :=
  x source.raw = some ((d source).1, (d source).2.raw)

/-- A renamed result is checked as the result is. -/
theorem Checks.map {x : CheckedDecode α} {d : Decode α} {source : BytesSource}
    (h : Checks x d source) (f : α → β) : Checks (x.map f) (f <$> d) source := by
  rw [Checks] at h ⊢
  rw [CheckedDecode.map, h, ← bind_pure_comp]
  rcases hd : d source with ⟨e | a, source'⟩
  · rw [Proc.bind_of_error hd]
    rfl
  · rw [Proc.bind_of_ok hd]
    rfl

/-! ## What a take does -/

/-- With enough bytes left, they are taken. -/
theorem takeBounded_of_le {needed : ℕ} {decode : List UInt8 → α} {source : BytesSource}
    (h : needed ≤ source.left) : ∃ source', takeBounded needed decode source =
      (.ok (decode (source.rest.take needed)), source') ∧
        source'.raw = ⟨source.slice, source.pos + needed⟩ := by
  have hsum := source.pos_add_left
  exact ⟨_, dif_pos (by omega), rfl⟩

/-- With fewer bytes left, none is left and the error says how many are missing. -/
theorem takeBounded_of_lt {needed : ℕ} {decode : List UInt8 → α} {source : BytesSource}
    (h : source.left < needed) : ∃ source', takeBounded needed decode source =
      (.error (.needMoreBytes (needed - source.left)), source') ∧
        source'.raw = ⟨source.slice, source.slice.length⟩ := by
  have hsum := source.pos_add_left
  exact ⟨_, dif_neg (by omega), rfl⟩

/-- Up to a zero byte, the bytes before it are taken. -/
theorem takeUntilNull_of_eq {source : BytesSource} {v r : List UInt8} (hv : 0 ∉ v)
    (h : source.rest = v ++ 0 :: r) : ∃ source', takeUntilNull source = (.ok v, source') ∧
      source'.raw = ⟨source.slice, source.pos + v.length + 1⟩ := by
  have hsum := source.pos_add_left
  have hlen := congrArg List.length h
  rw [Cursor.length_rest, List.length_append, List.length_cons] at hlen
  have hrest : source.slice.drop source.pos = v ++ 0 :: r := h
  have hfind := findIdx_null hv r
  have hfound : source.pos + (source.slice.drop source.pos).findIdx (· == 0) <
      source.slice.length := by
    rw [hrest, hfind]
    omega
  refine ⟨⟨source.slice, source.pos + v.length + 1, by omega⟩, (dif_pos hfound).trans ?_, rfl⟩
  simp only [hrest, hfind, List.take_left]

/-- Without a zero byte, none is left and there is an error. -/
theorem takeUntilNull_of_not_mem {source : BytesSource} (h : 0 ∉ source.rest) :
    ∃ source', takeUntilNull source = (.error .noNullByte, source') ∧
      source'.raw = ⟨source.slice, source.slice.length⟩ := by
  have hsum := source.pos_add_left
  have hfind : (source.slice.drop source.pos).findIdx (· == 0) = source.left := by
    rw [← Cursor.length_rest]
    exact findIdx_null_of_not_mem h
  exact ⟨_, dif_neg (by omega), rfl⟩

/-! ## No take aborts -/

/-- A bounded take never gets to a sum, a range or a subtraction that is refused. -/
theorem checks_takeBounded {bits needed : ℕ} {check : List UInt8 → Option α}
    {decode : List UInt8 → α} (hdecode : ∀ s, s.length = needed → check s = some (decode s))
    {source : BytesSource} (h : source.pos + needed < 2 ^ bits) :
    Checks (checkedTakeBounded bits needed check) (takeBounded needed decode) source := by
  have hsum := source.pos_add_left
  rw [Checks, checkedTakeBounded, Cursor.pos_raw, Cursor.slice_raw, Checked.add_of_lt h,
    Option.bind_eq_bind, Option.bind_some]
  by_cases hle : needed ≤ source.left
  · obtain ⟨source', htake, hraw⟩ := @takeBounded_of_le _ _ decode _ hle
    have hlen : (source.rest.take needed).length = needed :=
      List.length_take_of_le (by rwa [Cursor.length_rest])
    rw [htake, hraw, if_pos (by omega), Checked.range_of_le (by omega) (by omega),
      Nat.add_sub_cancel_left]
    simp only [show source.slice.drop source.pos = source.rest from rfl, Option.bind_eq_bind,
      Option.bind_some, hdecode _ hlen, Option.pure_def]
  · obtain ⟨source', htake, hraw⟩ := @takeBounded_of_lt _ _ decode _ (Nat.lt_of_not_le hle)
    rw [htake, hraw, if_neg (by omega), Checked.sub_of_le source.pos_le]
    rw [Option.bind_some, Checked.sub_of_le (by unfold Cursor.left at hle; omega)]
    rfl

/-- The search finds the first zero byte after those that it has passed. -/
theorem checkedFindNull_of_eq {bits : ℕ} {source : RawCursor UInt8} {front v r : List UInt8}
    (hslice : source.slice = front ++ v ++ 0 :: r) (hpos : source.pos ≤ front.length) (hv : 0 ∉ v)
    (hbits : source.slice.length < 2 ^ bits) :
    checkedFindNull bits source (v.length + 1 + r.length) front.length =
      some (.ok ((source.slice.drop source.pos).take (front.length + v.length - source.pos)),
        ⟨source.slice, front.length + v.length + 1⟩) := by
  induction v generalizing front with
  | nil =>
    have hlen : source.slice.length = front.length + 1 + r.length := by rw [hslice]; simp; omega
    have hget : Checked.get source.slice front.length = some 0 := by
      rw [hslice, List.append_nil]
      exact Checked.get_append_cons _ _ _
    have hres := Checked.range_of_le hpos (show front.length ≤ source.slice.length by omega)
    rw [List.length_nil, Nat.zero_add, Nat.add_comm, checkedFindNull, hget]
    simp [hres, Checked.add_of_lt (show front.length + 1 < 2 ^ bits by omega)]
  | cons b v ih =>
    have hb : b ≠ 0 := by rintro rfl; exact hv List.mem_cons_self
    have hget : Checked.get source.slice front.length = some b := by
      rw [hslice, List.append_assoc]
      exact Checked.get_append_cons _ _ _
    have hrest := @ih (front ++ [b]) (by rw [hslice]; simp) (by simp; omega)
      fun h => hv (List.mem_cons_of_mem b h)
    have hcount : (b :: v).length + 1 + r.length = v.length + 1 + r.length + 1 := by simp; omega
    rw [hcount, checkedFindNull, hget]
    simp only [List.length_append, List.length_singleton] at hrest
    simp only [Option.bind_eq_bind, Option.bind_some, if_neg hb, hrest, List.length_cons]
    rw [Nat.add_assoc front.length 1, Nat.add_comm 1]

/-- Without a zero byte the search comes to the end of the slice. -/
theorem checkedFindNull_of_not_mem {bits : ℕ} {source : RawCursor UInt8} {front v : List UInt8}
    (hslice : source.slice = front ++ v) (hv : 0 ∉ v) :
    checkedFindNull bits source v.length front.length =
      some (.error .noNullByte, ⟨source.slice, source.slice.length⟩) := by
  induction v generalizing front with
  | nil => rfl
  | cons b v ih =>
    have hb : b ≠ 0 := by rintro rfl; exact hv List.mem_cons_self
    have hget : Checked.get source.slice front.length = some b := by
      rw [hslice]
      exact Checked.get_append_cons _ _ _
    have hrest := @ih (front ++ [b]) (by rw [hslice]; simp) fun h => hv (List.mem_cons_of_mem b h)
    simp only [List.length_append, List.length_singleton] at hrest
    rw [List.length_cons, checkedFindNull, hget]
    simp only [Option.bind_eq_bind, Option.bind_some, if_neg hb, hrest]

/-- Nor does the search for a zero byte. -/
theorem checks_takeUntilNull {bits : ℕ} {source : BytesSource}
    (h : source.slice.length < 2 ^ bits) :
    Checks (checkedTakeUntilNull bits) takeUntilNull source := by
  have hslice := source.take_pos_append_rest
  have hfront : (source.slice.take source.pos).length = source.pos :=
    List.length_take_of_le source.pos_le
  have hleft : source.slice.length - source.pos = source.rest.length :=
    (Cursor.length_rest source).symm
  rw [Checks, checkedTakeUntilNull, Cursor.pos_raw, Cursor.slice_raw, hleft]
  by_cases hmem : (0 : UInt8) ∈ source.rest
  · obtain ⟨v, r, hrest, hv⟩ := List.eq_append_cons_of_mem hmem
    obtain ⟨source', htake, hraw⟩ := takeUntilNull_of_eq hv hrest
    have hfind := @checkedFindNull_of_eq bits source.raw (source.slice.take source.pos) v r
      (by rw [List.append_assoc, ← hrest]; exact hslice.symm) hfront.ge hv h
    have hcount : source.rest.length = v.length + 1 + r.length := by rw [hrest]; simp; omega
    rw [hfront, Cursor.slice_raw, Cursor.pos_raw, Nat.add_sub_cancel_left,
      show source.slice.drop source.pos = v ++ 0 :: r from hrest, List.take_left] at hfind
    rw [htake, hraw, hcount, hfind]
  · obtain ⟨source', htake, hraw⟩ := takeUntilNull_of_not_mem hmem
    have hfind := @checkedFindNull_of_not_mem bits source.raw (source.slice.take source.pos)
      source.rest hslice.symm hmem
    rw [hfront] at hfind
    rw [htake, hraw, hfind, Cursor.slice_raw]

end BytesSource

/-! ## Sequences -/

/-- A call of one of the takes. -/
inductive Take where
  | u8
  | u16
  | u32
  | slice (n : ℕ)
  | vec (len : ℕ)
  | untilNull
deriving DecidableEq, Repr

/-- What a take returns. -/
inductive Taken where
  | u8 (value : UInt8)
  | u16 (value : UInt16)
  | u32 (value : UInt32)
  | bytes (value : List UInt8)
deriving DecidableEq, Repr

namespace Take

open Decoder BytesSource

/-- How many bytes the take needs. -/
def width : Take → ℕ
  | u8 => 1
  | u16 => 2
  | u32 => 4
  | slice n => n
  | vec len => len
  | untilNull => 0

/-- The call of the method. -/
def run : Take → Decode Taken
  | u8 => .u8 <$> takeU8
  | u16 => .u16 <$> takeU16
  | u32 => .u32 <$> takeU32
  | slice n => (fun value => .bytes value.toList) <$> takeSlice n
  | vec len => .bytes <$> takeVec len
  | untilNull => .bytes <$> takeUntilNull

/-- The call of the checked method. -/
def check (bits : ℕ) : Take → CheckedDecode Taken
  | u8 => (checkedTakeU8 bits).map .u8
  | u16 => (checkedTakeU16 bits).map .u16
  | u32 => (checkedTakeU32 bits).map .u32
  | slice n => (checkedTakeSlice bits n).map fun value => .bytes value.toList
  | vec len => (checkedTakeVec bits len).map .bytes
  | untilNull => (checkedTakeUntilNull bits).map .bytes

/-- The value that the next bytes spell. -/
inductive Reads : Take → List UInt8 → Taken → Prop where
  | u8 (value : UInt8) : Reads .u8 [value] (.u8 value)
  | u16 (value : UInt16) : Reads .u16 (toBigEndian 2 value.toNat) (.u16 value)
  | u32 (value : UInt32) : Reads .u32 (toBigEndian 4 value.toNat) (.u32 value)
  | slice (next : List UInt8) : Reads (.slice next.length) next (.bytes next)
  | vec (next : List UInt8) : Reads (.vec next.length) next (.bytes next)

/-- What a take does to the list of the bytes that are left: it returns what the next bytes spell,
or fails and leaves nothing. -/
inductive Meets : Take → List UInt8 → Except Problem Taken → List UInt8 → Prop where
  | read {t : Take} {next rest : List UInt8} {value : Taken} (h : t.Reads next value) :
      Meets t (next ++ rest) (.ok value) rest
  | short {t : Take} {bytes : List UInt8} (h : bytes.length < t.width) :
      Meets t bytes (.error (.needMoreBytes (t.width - bytes.length))) []
  | null {v rest : List UInt8} (h : 0 ∉ v) :
      Meets .untilNull (v ++ 0 :: rest) (.ok (.bytes v)) rest
  | noNull {bytes : List UInt8} (h : 0 ∉ bytes) :
      Meets .untilNull bytes (.error .noNullByte) []

/-- A sequence of takes from a list of bytes, with what they return and the bytes that are left. -/
inductive MeetAll :
    List Take → List UInt8 → List (Except Problem Taken) → List UInt8 → Prop where
  | nil (bytes : List UInt8) : MeetAll [] bytes [] bytes
  | cons {t : Take} {ts : List Take} {bytes bytes' bytes'' : List UInt8}
      {result : Except Problem Taken} {results : List (Except Problem Taken)}
      (h : t.Meets bytes result bytes') (hs : MeetAll ts bytes' results bytes'') :
      MeetAll (t :: ts) bytes (result :: results) bytes''

/-- What is left is not enough for the take. -/
def Lacks (t : Take) (bytes : List UInt8) : Prop :=
  if t = untilNull then 0 ∉ bytes else bytes.length < t.width

/-- The take wants at least one byte, be it a zero byte. -/
def Demands (t : Take) : Prop := 0 < t.width ∨ t = untilNull

/-- A take asks for less than 2 GiB, or for no more than what is left. -/
def Permitted (t : Take) (source : BytesSource) : Prop :=
  t.width < 2 ^ 31 ∨ t.width ≤ source.left

/-! ### The list machine -/

/-- A bounded take reads as many bytes as it is wide. -/
theorem Reads.length_eq {t : Take} {next : List UInt8} {value : Taken} (h : t.Reads next value) :
    next.length = t.width := by
  cases h with
  | u8 => rfl
  | u16 => exact length_toBigEndian _ _
  | u32 => exact length_toBigEndian _ _
  | slice => rfl
  | vec => rfl

/-- Only bounded takes read a fixed number of bytes. -/
theorem Reads.ne_untilNull {t : Take} {next : List UInt8} {value : Taken}
    (h : t.Reads next value) : t ≠ untilNull := by
  rintro rfl
  cases h

/-- A take fails exactly if what is left is not enough, and then nothing is left. -/
theorem Meets.error_iff {t : Take} {bytes rest : List UInt8} {result : Except Problem Taken}
    (h : t.Meets bytes result rest) : (∃ e, result = .error e) ↔ t.Lacks bytes := by
  cases h with
  | read h =>
    rw [Lacks, if_neg h.ne_untilNull, List.length_append, h.length_eq]
    simp
  | short h =>
    have hne : t ≠ untilNull := by rintro rfl; exact Nat.not_lt_zero _ h
    rw [Lacks, if_neg hne]
    simp [h]
  | null h => simp [Lacks]
  | noNull h => simp [Lacks, h]

/-- After an error nothing is left. -/
theorem Meets.rest_of_error {t : Take} {bytes rest : List UInt8} {e : Problem}
    (h : t.Meets bytes (.error e) rest) : rest = [] := by
  cases h <;> rfl

/-- From nothing, nothing is left. -/
theorem Meets.rest_of_nil {t : Take} {bytes rest : List UInt8} {result : Except Problem Taken}
    (h : t.Meets bytes result rest) (hnil : bytes = []) : rest = [] := by
  cases h with
  | read => exact (List.append_eq_nil_iff.mp hnil).2
  | short => rfl
  | null => simp at hnil
  | noNull => rfl

/-- A take that demands bytes lacks them at the end. -/
theorem lacks_nil {t : Take} (h : t.Demands) : t.Lacks [] := by
  rw [Lacks]
  split
  · simp
  · rcases h with h | h
    · exact h
    · contradiction

/-! ### The refinement -/

variable {bits : ℕ} {t : Take} {source : BytesSource}

/-- Within a slice of at most half of the address space a permitted take does not abort. -/
theorem checks_run (hbits : 32 ≤ bits) (hslice : source.slice.length < 2 ^ (bits - 1))
    (ht : t.Permitted source) : Checks (t.check bits) t.run source := by
  have hsum := source.pos_add_left
  have hlen : source.slice.length + 0 < 2 ^ bits :=
    Checked.add_lt_of_half hbits hslice (Nat.zero_le _)
  have hpos : source.pos + t.width < 2 ^ bits := by
    rcases ht with h | h
    · exact Checked.add_lt_of_half hbits (by omega) h.le
    · omega
  cases t with
  | u8 =>
    refine (checks_takeBounded (fun s hs => ?_) hpos).map _
    obtain ⟨b, rfl⟩ := List.length_eq_one_iff.mp hs
    rfl
  | u16 =>
    refine (checks_takeBounded (fun s hs => ?_) hpos).map _
    match s, hs with
    | [b₀, b₁], _ => rfl
  | u32 =>
    refine (checks_takeBounded (fun s hs => ?_) hpos).map _
    match s, hs with
    | [b₀, b₁, b₂, b₃], _ => rfl
  | slice n => exact (checks_takeBounded (fun s hs => if_pos hs) hpos).map _
  | vec len => exact (checks_takeBounded (fun s _ => rfl) hpos).map _
  | untilNull => exact (checks_takeUntilNull hlen).map _

/-- A take that inverts the encoding of its values does to the list what it has to. -/
theorem meets_takeBounded {α : Type} {decode : List UInt8 → α} {f : α → Taken} {Valid : α → Prop}
    {encode : α → List UInt8} (hinverts : Inverts (takeBounded t.width decode) Valid encode)
    (hreads : ∀ a, Valid a → t.Reads (encode a) (f a)) :
    t.Meets source.rest ((f <$> takeBounded t.width decode : Decode Taken) source).1
      ((f <$> takeBounded t.width decode : Decode Taken) source).2.rest := by
  rw [← bind_pure_comp]
  by_cases hle : t.width ≤ source.left
  · obtain ⟨source', htake, -⟩ := @takeBounded_of_le _ _ decode _ hle
    generalize decode (source.rest.take t.width) = a at htake
    have hparse := parseAt_of_ok htake
    rw [hinverts.parseAt_eq] at hparse
    obtain ⟨hvalid, hrest⟩ := (hinverts.invertsAt _ _ _).mp hparse
    rw [Proc.bind_of_ok htake, Proc.pure_apply, hrest]
    exact .read (hreads _ hvalid)
  · obtain ⟨source', htake, hraw⟩ := @takeBounded_of_lt _ _ decode _ (Nat.lt_of_not_le hle)
    rw [Proc.bind_of_error htake, Cursor.rest_of_raw hraw, List.drop_length,
      ← Cursor.length_rest]
    exact .short (by rw [Cursor.length_rest]; omega)

/-- The search for a zero byte does to the bytes what its specification says. -/
theorem meets_takeUntilNull : untilNull.Meets source.rest (untilNull.run source).1
    (untilNull.run source).2.rest := by
  rw [run, ← bind_pure_comp]
  by_cases hmem : (0 : UInt8) ∈ source.rest
  · obtain ⟨v, r, hrest, hv⟩ := List.eq_append_cons_of_mem hmem
    obtain ⟨source', htake, -⟩ := takeUntilNull_of_eq hv hrest
    have hparse := parseAt_of_ok htake
    rw [takeUntilNull_local.parseAt_eq] at hparse
    rw [Proc.bind_of_ok htake, Proc.pure_apply, (parse_takeUntilNull_eq_ok hparse).2]
    exact .null hv
  · obtain ⟨source', htake, hraw⟩ := takeUntilNull_of_not_mem hmem
    rw [Proc.bind_of_error htake, Cursor.rest_of_raw hraw, List.drop_length]
    exact .noNull hmem

/-- Every take does to the bytes that are left what the list machine does. -/
theorem meets_run (t : Take) (source : BytesSource) :
    t.Meets source.rest (t.run source).1 (t.run source).2.rest := by
  cases t with
  | u8 => exact @meets_takeBounded .u8 _ _ _ _ _ _ takeU8_inverts fun b _ => .u8 b
  | u16 => exact @meets_takeBounded .u16 _ _ _ _ _ _ takeU16_inverts fun n _ => .u16 n
  | u32 => exact @meets_takeBounded .u32 _ _ _ _ _ _ takeU32_inverts fun n _ => .u32 n
  | slice n =>
    refine @meets_takeBounded (.slice n) _ _ _ _ _ _ (takeSlice_inverts n) fun v _ => ?_
    have hreads := Reads.slice v.toList
    rwa [v.length_toList] at hreads
  | vec len =>
    refine @meets_takeBounded (.vec len) _ _ _ _ _ _ (takeVec_inverts len) fun v hv => ?_
    obtain rfl : v.length = len := hv
    exact .vec v
  | untilNull => exact meets_takeUntilNull

/-- A take does not change the slice. -/
theorem slice_run (t : Take) (source : BytesSource) : (t.run source).2.slice = source.slice := by
  cases t with
  | u8 => exact ((takeU8_framed.map _).slice_eq source)
  | u16 => exact ((takeU16_framed.map _).slice_eq source)
  | u32 => exact ((takeU32_framed.map _).slice_eq source)
  | slice n => exact (((takeSlice_framed n).map _).slice_eq source)
  | vec len => exact (((takeVec_framed len).map _).slice_eq source)
  | untilNull => exact ((takeUntilNull_framed.map _).slice_eq source)

/-- Nor do many. -/
theorem slice_calls (ts : List Take) (source : BytesSource) :
    (calls run ts source).2.slice = source.slice :=
  @calls_keeps _ _ _ _ run (fun s => s.slice = source.slice)
    (fun t s hs => (slice_run t s).trans hs) ts source rfl

/-- Takes in a row do to the bytes what their specifications say one after the other. -/
theorem meetAll_calls (ts : List Take) (source : BytesSource) :
    MeetAll ts source.rest (calls run ts source).1 (calls run ts source).2.rest := by
  induction ts generalizing source with
  | nil => exact .nil _
  | cons t ts ih => exact .cons (meets_run t source) (ih _)

/-- After a failure nothing is left. -/
theorem rest_calls_of_error {ts : List Take} {source : BytesSource} {e : Problem}
    (h : .error e ∈ (calls run ts source).1) : (calls run ts source).2.rest = [] := by
  refine calls_of_error (fun t s hs => (meets_run t s).rest_of_nil hs) (fun t s e he => ?_) h
  have hmeets := meets_run t s
  rw [he] at hmeets
  exact hmeets.rest_of_error

end Take

/-- The position stands inside the slice, before the rest. -/
structure StandsBefore (slice : List UInt8) (source : RawCursor UInt8) (rest : List UInt8) :
    Prop where
  slice_eq : source.slice = slice
  pos_le : source.pos ≤ slice.length
  left_eq : source.left = some rest.length
  append_eq : slice.take source.pos ++ rest = slice

/-- A cursor stands in its slice before the bytes that are left. -/
theorem standsBefore_raw {slice : List UInt8} {source : BytesSource} (h : source.slice = slice) :
    StandsBefore slice source.raw source.rest := by
  subst h
  exact ⟨rfl, source.pos_le, by rw [Cursor.left_raw, Cursor.length_rest],
    source.take_pos_append_rest⟩

/-- `BytesSource` refines the consumption of a list. In every sequence of permitted takes from a
slice nothing aborts, the position stays in the slice, each take does what the list machine does,
and it fails exactly if what is left is not enough; after a failure nothing is left, so that every
later take of a byte or until a zero byte fails too. -/
theorem BytesSource.calls_refine (bits : ℕ) (hbits : 32 ≤ bits) (slice : List UInt8)
    (hslice : slice.length < 2 ^ (bits - 1)) (ts : List Take) (t : Take)
    (hpermitted : ∀ ts₁ t' ts₂, ts ++ [t] = ts₁ ++ t' :: ts₂ →
      t'.Permitted (calls Take.run ts₁ (new slice)).2) :
    ∃ results source result source' rest rest',
      checkedCalls (Take.check bits) ts ⟨slice, 0⟩ = some (results, source) ∧
      t.check bits source = some (result, source') ∧
      (∃ s, calls Take.run ts (new slice) = (results, s) ∧ s.raw = source ∧
        (t.run s).1 = result ∧ (t.run s).2.raw = source') ∧
      Take.MeetAll ts slice results rest ∧ t.Meets rest result rest' ∧
      StandsBefore slice source rest ∧ StandsBefore slice source' rest' ∧
      ((∃ e, result = .error e) ↔ t.Lacks rest) ∧
      ((∃ e, result = .error e) → rest' = []) ∧
      ((∃ e, .error e ∈ results) → rest = [] ∧ (t.Demands → ∃ e, result = .error e)) := by
  have hcheck (t : Take) (s : BytesSource) (ht : s.slice = slice ∧ t.Permitted s) :
      t.check bits s.raw = some ((t.run s).1, (t.run s).2.raw) :=
    Take.checks_run hbits (ht.1 ▸ hslice) ht.2
  have hcalls := @checkedCalls_eq _ _ _ _ _ Take.run (Take.check bits) Cursor.raw
    (fun t s => s.slice = slice ∧ t.Permitted s) hcheck ts (new slice) fun ts₁ t' ts₂ hts =>
      ⟨Take.slice_calls ts₁ _, hpermitted ts₁ t' (ts₂ ++ [t]) (by simp [hts])⟩
  have hall := Take.meetAll_calls ts (new slice)
  rw [Cursor.rest_new] at hall
  have hslice' := Take.slice_calls ts (new slice)
  have hpermitted' := hpermitted ts t [] rfl
  rcases hrun : calls Take.run ts (new slice) with ⟨results, s⟩
  rw [hrun] at hcalls hall hslice' hpermitted'
  have hmeets := Take.meets_run t s
  refine ⟨results, s.raw, (t.run s).1, (t.run s).2.raw, s.rest, (t.run s).2.rest, hcalls,
    hcheck t s ⟨hslice', hpermitted'⟩, ⟨s, rfl, rfl, rfl, rfl⟩, hall, hmeets,
    standsBefore_raw hslice', standsBefore_raw ((Take.slice_run t s).trans hslice'),
    hmeets.error_iff, ?_, ?_⟩
  · rintro ⟨e, he⟩
    rw [he] at hmeets
    exact hmeets.rest_of_error
  · rintro ⟨e, he⟩
    have hnil : s.rest = [] := by
      have hrest := @Take.rest_calls_of_error ts (new slice) e
      rw [hrun] at hrest
      exact hrest he
    refine ⟨hnil, fun hdemands => hmeets.error_iff.mpr ?_⟩
    rw [hnil]
    exact Take.lacks_nil hdemands

/-- A string, a number, a number that is cut off, and nothing after it. -/
theorem BytesSource.calls_refine_cut : ∃ results source,
    checkedCalls (Take.check 32) [.untilNull, .u16, .u32, .vec 0] ⟨[7, 8, 0, 1, 2, 9], 0⟩ =
      some (results, source) ∧ source.pos ≤ 6 := by
  have hwidth : ∀ t ∈ [Take.untilNull, .u16, .u32, .vec 0, .u8], t.width < 2 ^ 31 := by decide
  obtain ⟨results, source, _, _, _, _, hcalls, -, -, -, -, hstands, -⟩ :=
    calls_refine 32 le_rfl [7, 8, 0, 1, 2, 9] (by decide) [.untilNull, .u16, .u32, .vec 0] .u8
      fun ts₁ t' ts₂ hts => .inl (hwidth t' ((show [Take.untilNull, .u16, .u32, .vec 0, .u8] =
        ts₁ ++ t' :: ts₂ from hts) ▸ List.mem_append_cons_self))
  exact ⟨results, source, hcalls, hstands.pos_le⟩

end Postgread
