import Postgread.Msg.Util.Decode

/-!
# Parts of messages

The element decoders and the count-prefixed lists (`msg/parts.rs`). Every element decoder marks its
own end, and so does a list of any announced count.
-/

namespace Postgread

open Decoder BytesSource

/-- Any bytes, printed in hexadecimal. -/
structure Bytes where
  bytes : List UInt8
deriving DecidableEq, Repr

/-- How a value is spelled. -/
inductive Format where
  | text
  | binary
deriving DecidableEq, Repr

/-- The bytes of a text. They need not be valid in any encoding. -/
structure Text where
  bytes : List UInt8
deriving DecidableEq, Repr

/-- A value of a row or of a parameter. -/
inductive Value where
  | null
  | bytes (bytes : Bytes)
deriving DecidableEq, Repr

/-- A text that rejects a value is the last word of a decoder. -/
theorem isFinal_incorrect (text : String) : IsFinal (Problem.incorrect text) :=
  ⟨nofun, nofun⟩

/-- So is one that does not know a value. -/
theorem isFinal_unknown (text : String) : IsFinal (Problem.unknown text) :=
  ⟨nofun, nofun⟩

/-- The number of the format, which has 16 bits. -/
def Format.decode : Decode Format := do
  match ← takeU16 with
  | 0 => pure .text
  | 1 => pure .binary
  | x => Proc.fail (.unknown s!"Unknown format {x}")

/-- All up to the next zero byte. -/
def Text.decode : Decode Text := Text.mk <$> takeUntilNull

/-- The length is read as a signed number: -1 is null, other negative lengths are refused. -/
def Value.decode : Decode Value := do
  let len := (← takeU32).toInt32
  if len = -1 then
    pure .null
  else if 0 ≤ len then
    let value ← takeVec len.toInt.toNat
    pure (.bytes ⟨value⟩)
  else
    Proc.fail (.incorrect s!"length of value should be >= -1 but is {len}")

instance : PartDecode Format := ⟨Format.decode⟩

instance : PartDecode Text := ⟨Text.decode⟩

instance : PartDecode Value := ⟨Value.decode⟩

instance : PartDecode UInt32 := ⟨takeU32⟩

/-- `count` parts one after another. Memory is not part of the model: the code first reserves room for
`count` parts (`Vec::with_capacity`), and a process that does not get this room is aborted. -/
def decodeVec {Part : Type} [PartDecode Part] : ℕ → Decode (List Part)
  | 0 => pure []
  | count + 1 => do
    let item ← PartDecode.decode
    let items ← decodeVec count
    pure (item :: items)

/-- Parts whose decoder marks its own end. -/
class FramedPart (Part : Type) [PartDecode Part] : Prop where
  framed : Framed (PartDecode.decode : Decode Part)

/-- A format is its two bytes. -/
theorem Format.decode_framed : Framed Format.decode := by
  refine takeU16_framed.bind fun x => ?_
  split
  · exact .pure _
  · exact .pure _
  · exact .fail (isFinal_unknown _)

/-- A text marks its end by a zero byte. -/
theorem Text.decode_framed : Framed Text.decode :=
  takeUntilNull_framed.map _

/-- The length in front of a value tells where it ends. -/
theorem Value.decode_framed : Framed Value.decode := by
  refine takeU32_framed.bind fun len => ?_
  dsimp only
  split
  · exact .pure _
  split
  · exact (takeVec_framed _).bind fun _ => .pure _
  · exact .fail (isFinal_incorrect _)

instance : FramedPart Format := ⟨Format.decode_framed⟩

instance : FramedPart Text := ⟨Text.decode_framed⟩

instance : FramedPart Value := ⟨Value.decode_framed⟩

instance : FramedPart UInt32 := ⟨takeU32_framed⟩

/-- A list of parts that mark their ends marks its own end, for any count. -/
theorem decodeVec_framed {Part : Type} [PartDecode Part] [FramedPart Part] (count : ℕ) :
    Framed (decodeVec count : Decode (List Part)) := by
  induction count with
  | zero => exact .pure _
  | succ count ih => exact FramedPart.framed.bind fun _ => ih.bind fun _ => .pure _

/-- A list behind a count of 16 bits. -/
theorem takeU16_decodeVec_framed {Part β : Type} [PartDecode Part] [FramedPart Part]
    {f : List Part → Decode β} (hf : ∀ items, Framed (f items)) :
    Framed (takeU16 >>= fun count => decodeVec count.toNat >>= f) :=
  takeU16_framed.bind fun _ => (decodeVec_framed _).bind hf

end Postgread
