import Postgread.Foundations.Rounds
import Postgread.Msg.Body.ErrorAndNotice
import Postgread.Msg.Body.Query
import Postgread.Msg.Body.Startup

/-!
# The loops of the decoders

Three loops end at a mark in the input and `decode_vec` after an announced number of parts. All of
them make at most one round more than there are bytes left (`loops_within`): every part and every
entry of a list takes at least one byte. `decodeVecNext` is the loop of `decode_vec`, round by round.

Only rounds are counted here. The room that `decode_vec` reserves for its result before the first
round is that of the announced number of parts; memory is left out of the model.
-/

namespace Postgread

open Decoder BytesSource Body

/-- One round of the loop over the range `0..count`, with the index of the round. -/
def decodeVecNext {Part : Type} [PartDecode Part] (count : ℕ) :
    ℕ × List Part → Decode (ForInStep (ℕ × List Part))
  | (i, items) =>
    if i < count then do
      let item ← PartDecode.decode
      pure (.yield (i + 1, items ++ [item]))
    else
      pure (.done (i, items))

/-- Parts that take at least one byte. -/
class EatsPart (Part : Type) [PartDecode Part] : Prop where
  eats : Eats (PartDecode.decode : Decode Part)

instance : EatsPart Format := ⟨Format.decode_framed.eats rfl⟩

instance : EatsPart UInt32 := ⟨takeU32_framed.eats rfl⟩

instance : EatsPart Text := ⟨Text.decode_framed.eats rfl⟩

instance : EatsPart Value := ⟨Value.decode_framed.eats rfl⟩

instance : EatsPart Field := ⟨Field.decode_framed.eats rfl⟩

section

variable {Part : Type} [PartDecode Part]

/-- A round before the announced number of parts decodes one more. -/
theorem decodeVecNext_of_lt {count i : ℕ} (h : i < count) (items : List Part) :
    decodeVecNext count (i, items) =
      PartDecode.decode >>= fun item => pure (.yield (i + 1, items ++ [item])) :=
  if_pos h

/-- A round after it ends the loop. -/
theorem decodeVecNext_of_le {count i : ℕ} (h : count ≤ i) (items : List Part) :
    decodeVecNext count (i, items) = pure (.done (i, items)) :=
  if_neg (Nat.not_lt.mpr h)

/-- Every round but the last moves the cursor. -/
theorem decodeVecNext_advances [FramedPart Part] [EatsPart Part] (count : ℕ) :
    Advances (decodeVecNext count : ℕ × List Part → Decode (ForInStep (ℕ × List Part))) := by
  rintro ⟨i, items⟩ b' c c' h
  by_cases hi : i < count
  · rw [decodeVecNext_of_lt hi, Proc.bind_eq_ok] at h
    obtain ⟨item, c₁, hitem, hpure⟩ := h
    obtain ⟨-, rfl⟩ : _ ∧ c₁ = c' := by simpa using hpure
    have hlocal := (FramedPart.framed : Framed (PartDecode.decode : Decode Part)).toLocal
    have hparse := parseAt_of_ok hitem
    rw [hlocal.parseAt_eq] at hparse
    exact pos_lt_of_parse hlocal hitem (EatsPart.eats hparse)
  · rw [decodeVecNext_of_le (Nat.not_lt.mp hi)] at h
    simp at h

/-- The loop from some round on decodes the parts that are still to come. -/
theorem exists_rounds_decodeVec (count m i : ℕ) (items : List Part) (hi : i + m = count)
    (c : BytesSource) :
    ∃ k, Rounds (decodeVecNext count) k (i, items) c
      (((decodeVec m : Decode (List Part)) c).1.map fun rest => (count, items ++ rest))
      ((decodeVec m : Decode (List Part)) c).2 := by
  induction m generalizing i items c with
  | zero =>
    obtain rfl : i = count := hi
    refine ⟨1, .done ?_⟩
    rw [decodeVecNext_of_le le_rfl]
    simp [decodeVec]
  | succ m ih =>
    have hnext := @decodeVecNext_of_lt Part _ count i (by omega) items
    rcases hitem : (PartDecode.decode : Decode Part) c with ⟨e | item, c₁⟩
    · rw [decodeVec, Proc.bind_of_error hitem]
      exact ⟨1, .fail (by rw [hnext, Proc.bind_of_error hitem])⟩
    · obtain ⟨k, hk⟩ := ih (i + 1) (items ++ [item]) (by omega) c₁
      have hyield : decodeVecNext count (i, items) c =
          (.ok (.yield (i + 1, items ++ [item])), c₁) := by
        rw [hnext, Proc.bind_of_ok hitem]
        rfl
      rw [decodeVec, Proc.bind_of_ok hitem]
      refine ⟨k + 1, .next hyield ?_⟩
      rcases hrest : (decodeVec m : Decode (List Part)) c₁ with ⟨e | rest, c₂⟩
      · rw [hrest] at hk
        rw [Proc.bind_of_error hrest]
        exact hk
      · rw [hrest] at hk
        rw [Proc.bind_of_ok hrest]
        simpa [Except.map] using hk

/-- The loop of `decode_vec` stays within the bytes that are left. -/
theorem loopsWithin_decodeVec [FramedPart Part] [EatsPart Part] (count : ℕ) :
    LoopsWithin (decodeVec count : Decode (List Part)) (decodeVecNext count) (0, []) Prod.snd := by
  refine loopsWithin_of_ends (decodeVecNext_advances count) fun c => ?_
  obtain ⟨k, hk⟩ := exists_rounds_decodeVec count count 0 ([] : List Part) (Nat.zero_add _) c
  refine ⟨k, _, _, hk, ?_⟩
  rcases (decodeVec count : Decode (List Part)) c with ⟨e | items, c'⟩ <;> rfl

/-- The bytes of a part: exactly these are consumed, whatever follows them. -/
def Spells (bytes : List UInt8) (item : Part) : Prop :=
  ∀ rest, parse PartDecode.decode (bytes ++ rest) = .ok (item, rest)

/-- A success has as many parts as announced, and their bytes follow one another. -/
theorem exists_spells_of_decodeVec [FramedPart Part] {count : ℕ} {items : List Part}
    {c c' : BytesSource} (h : decodeVec count c = (.ok items, c')) :
    items.length = count ∧ ∃ pieces : List (List UInt8), List.Forall₂ Spells pieces items ∧
      c.rest = pieces.flatten ++ c'.rest := by
  induction count generalizing items c with
  | zero =>
    obtain ⟨rfl, rfl⟩ : [] = items ∧ c = c' := by simpa [decodeVec] using h
    exact ⟨rfl, [], .nil, rfl⟩
  | succ count ih =>
    simp only [decodeVec, Proc.bind_eq_ok, Proc.pure_apply, Prod.mk.injEq, Except.ok.injEq] at h
    obtain ⟨item, c₁, hitem, items', c₂, hitems, rfl, rfl⟩ := h
    obtain ⟨hcount, pieces, hpieces, hrest⟩ := ih hitems
    have hframed : Framed (PartDecode.decode : Decode Part) := FramedPart.framed
    have hparse := parseAt_of_ok hitem
    rw [hframed.parseAt_eq] at hparse
    obtain ⟨u, hu, hexact, -⟩ := hframed.exact_eq hparse trivial
    refine ⟨by rw [List.length_cons, hcount], u :: pieces, .cons hexact hpieces, ?_⟩
    rw [hu, hrest, List.flatten_cons, List.append_assoc]

end

/-- A list of announced length is decoded in at most one round more than there are bytes left, and
successfully only with the announced number of parts, whose bytes follow one another. -/
def VecWithin (Part : Type) [PartDecode Part] : Prop :=
  ∀ count, LoopsWithin (decodeVec count : Decode (List Part)) (decodeVecNext count) (0, [])
      Prod.snd ∧
    ∀ (c c' : BytesSource) (items : List Part), decodeVec count c = (.ok items, c') →
      items.length = count ∧ c'.slice = c.slice ∧ ∃ pieces : List (List UInt8),
        List.Forall₂ Spells pieces items ∧ c.rest = pieces.flatten ++ c'.rest ∧
        c'.pos = c.pos + pieces.flatten.length

/-- Lists of every kind of part stay within the bound. -/
theorem vecWithin (Part : Type) [PartDecode Part] [FramedPart Part] [EatsPart Part] :
    VecWithin Part := by
  refine fun count => ⟨loopsWithin_decodeVec count, fun c c' items h => ?_⟩
  obtain ⟨hcount, pieces, hpieces, hrest⟩ := exists_spells_of_decodeVec h
  have hslice : c'.slice = c.slice := by
    have hslice := (@decodeVec_framed Part _ _ count).slice_eq c
    rwa [h] at hslice
  refine ⟨hcount, hslice, pieces, hpieces, hrest, ?_⟩
  have hlen := congrArg List.length hrest
  have hsum := c.pos_add_left
  have hsum' := c'.pos_add_left
  rw [List.length_append, Cursor.length_rest, Cursor.length_rest] at hlen
  rw [hslice] at hsum'
  omega

/-- Every loop of a decoder is bounded by the bytes that are left, not by an announced count. -/
theorem loops_within :
    LoopsWithin Authentication.decodeSasl Authentication.decodeSaslNext [] .sasl ∧
      LoopsWithin StartupParam.decodeMany StartupParam.decodeNext [] id ∧
      LoopsWithin ErrorOrNoticeFields.decode ErrorOrNoticeFields.decodeNext
        (ErrorOrNoticeFields.default, 0) Prod.fst ∧
      VecWithin Format ∧ VecWithin UInt32 ∧ VecWithin Text ∧ VecWithin Value ∧ VecWithin Field := by
  refine ⟨?_, ?_, ?_, vecWithin _, vecWithin _, vecWithin _, vecWithin _, vecWithin _⟩
  · exact loopsWithin_loop (fun b => (Authentication.decodeSaslNext_framed b).toLocal)
      Authentication.decodeSaslNext_consumes _ _
  · have hloop := loopsWithin_loop (fun b => (StartupParam.decodeNext_framed b).toLocal)
      StartupParam.decodeNext_consumes [] id
    rwa [id_map] at hloop
  · exact loopsWithin_loop (fun b => (ErrorOrNoticeFields.decodeNext_framed b).toLocal)
      ErrorOrNoticeFields.decodeNext_consumes _ _

end Postgread
