import Postgread.Foundations.Poll
import Postgread.Msg.Util.Decode
import Postgread.Msg.Util.Encode

/-!
# Reading messages from a stream

`readMsg` and its helpers (`msg/util/read.rs`), with the reads of `msg/util/async_io.rs` that it
uses. These call `read_exact` of the `futures` crate, for which `readExact` stands. `readMsg_eq_ok`
says exactly which bytes a successful read consumes, and `readMsg_eq_error` that a failed one stays
inside the frame that the length field announces.
-/

namespace Postgread

/-- An error of the operating system. -/
inductive IoError where
  | unexpectedEof
  | other (text : String)
deriving DecidableEq, Repr

instance : UnexpectedEof IoError := ⟨.unexpectedEof⟩

/-- A byte stream: the answers to its successive polls. -/
abbrev Stream := Script UInt8 IoError

/-- An asynchronous function that reads from a stream. -/
abbrev Reading (ε α : Type) := Proc (Reader UInt8 IoError) (Halt ε) α

/-- `read_u8`. -/
def readU8 : Reading IoError UInt8 := (fun buf => buf.headD 0) <$> readExact 1

/-- `read_u32`. -/
def readU32 : Reading IoError UInt32 := (fun buf => UInt32.ofNat (ofBigEndian buf)) <$> readExact 4

/-- What can go wrong in `read_msg`, but for the body. -/
inductive ReadError where
  | ioError (error : IoError)
  | encodeError (error : EncodeProblem)
deriving DecidableEq, Repr

/-- What can be wrong about a body. -/
inductive MsgError where
  | decodeError (error : Problem)
  | leftUndecoded (left : ℕ)
deriving DecidableEq, Repr

/-- A message that was read: its frame, and what its body decodes to. -/
structure ReadData (Msg : Type) where
  bytes : List UInt8
  msgResult : Except MsgError Msg

section

variable (Msg : Type) [MsgDecode Msg]

/-- The length of the type byte, if the message has one. -/
def typeLen : ℕ := if (MsgDecode.typeByteOpt Msg).isSome then 1 else 0

/-- The sum of 32 bits overflows into a panic in a checked build and wraps around in a release. -/
def allocVec (overflowChecks : Bool) (specifiedLen : UInt32) :
    Except (Halt ReadError) (List UInt8) :=
  if overflowChecks ∧ 2 ^ 32 ≤ typeLen Msg + specifiedLen.toNat then
    .error .panic
  else
    let fullLen := UInt32.ofNat (typeLen Msg) + specifiedLen
    .ok (List.replicate fullLen.toNat 0)

/-- The first half of `put_header`: the type byte, if there is one. -/
def putTypeByteOpt : Option TypeByte → Encode Unit
  | some typeByte => BytesTarget.putU8 typeByte.toU8
  | none => pure ⟨⟩

/-- `put_header`: the type byte, if the message has one, and the length. -/
def putHeader (specifiedLen : UInt32) : Encode Unit := do
  putTypeByteOpt (MsgDecode.typeByteOpt Msg)
  BytesTarget.putU32 specifiedLen

/-- What the decoder of a message makes of a body, which it has to use up. -/
def msgResult (body : List UInt8) : Except MsgError Msg :=
  match MsgDecode.decodeBody (BytesSource.new body) with
  | (.error e, _) => .error (.decodeError e)
  | (.ok msg, bytesSource) =>
    match bytesSource.left with
    | 0 => .ok msg
    | n => .error (.leftUndecoded n)

/-- `read_msg`: the length, the body behind it, and what the body decodes to. The type byte has been
read before. -/
def readMsg (overflowChecks : Bool) : Reading ReadError (ReadData Msg) := do
  let specifiedLen ← readU32.mapError (Halt.map .ioError)
  match allocVec Msg overflowChecks specifiedLen with
  | .error halt => Proc.fail halt
  | .ok bytes =>
    match putHeader Msg specifiedLen (BytesTarget.new bytes) with
    | (.error e, _) => Proc.fail (.error (.encodeError e))
    | (.ok _, bytesTarget) =>
      let body ← (readExact bytesTarget.rest.length).mapError (Halt.map .ioError)
      pure ⟨bytesTarget.slice.take bytesTarget.pos ++ body, msgResult Msg body⟩

end

/-! ## The frame of a message -/

/-- The bytes of a frame: a type byte if the message has one, the length of the rest, and a body. -/
def frameBytes (typeByteOpt : Option TypeByte) (body : List UInt8) : List UInt8 :=
  (typeByteOpt.map TypeByte.toU8).toList ++ toBigEndian 4 (4 + body.length) ++ body

/-- The bytes of a frame after the type byte. -/
def lengthAndBody (body : List UInt8) : List UInt8 :=
  toBigEndian 4 (4 + body.length) ++ body

/-- The frame of a message with a type byte. -/
theorem frameBytes_some (typeByte : TypeByte) (body : List UInt8) :
    frameBytes (some typeByte) body = typeByte.toU8 :: lengthAndBody body := rfl

section

variable {Msg : Type} [MsgDecode Msg]

variable (Msg) in
/-- At most one byte comes in front of the length. -/
theorem typeLen_le_one : typeLen Msg ≤ 1 := by
  unfold typeLen
  split <;> omega

/-- This byte is the type byte. -/
theorem typeLen_eq_length :
    typeLen Msg = ((MsgDecode.typeByteOpt Msg).map TypeByte.toU8).toList.length := by
  unfold typeLen
  cases MsgDecode.typeByteOpt Msg <;> rfl

/-- A sum that does not wrap around gives a buffer of that length. -/
theorem allocVec_of_fits (overflowChecks : Bool) {specifiedLen : UInt32}
    (hfits : typeLen Msg + specifiedLen.toNat < 2 ^ 32) :
    allocVec Msg overflowChecks specifiedLen =
      .ok (List.replicate (typeLen Msg + specifiedLen.toNat) 0) := by
  have hle := typeLen_le_one Msg
  have hsum : (UInt32.ofNat (typeLen Msg) + specifiedLen).toNat =
      typeLen Msg + specifiedLen.toNat := by
    rw [UInt32.toNat_add, UInt32.toNat_ofNat_of_lt' (by unfold UInt32.size; omega)]
    omega
  rw [allocVec, if_neg (by omega)]
  simp only [hsum]

/-- A length field of four bytes or more, and a sum that does not wrap around, make room for the
header and leave the rest of the buffer for the body. -/
theorem allocVec_putHeader_of_fits (overflowChecks : Bool) {specifiedLen : UInt32}
    (h4 : 4 ≤ specifiedLen.toNat) (hfits : typeLen Msg + specifiedLen.toNat < 2 ^ 32) :
    ∃ bytes target, allocVec Msg overflowChecks specifiedLen = .ok bytes ∧
      putHeader Msg specifiedLen (BytesTarget.new bytes) = (.ok ⟨⟩, target) ∧
      target.slice.take target.pos =
        ((MsgDecode.typeByteOpt Msg).map TypeByte.toU8).toList ++
          toBigEndian 4 specifiedLen.toNat ∧
      target.rest.length = specifiedLen.toNat - 4 := by
  refine ⟨List.replicate (typeLen Msg + specifiedLen.toNat) 0, ?_⟩
  have halloc := @allocVec_of_fits Msg _ overflowChecks specifiedLen hfits
  -- the type byte, if there is one, and then the length
  obtain ⟨target₁, hput₁, hdone₁, hrest₁⟩ : ∃ target₁,
      putTypeByteOpt (MsgDecode.typeByteOpt Msg)
        (BytesTarget.new (List.replicate (typeLen Msg + specifiedLen.toNat) 0)) =
          (.ok ⟨⟩, target₁) ∧
      target₁.slice.take target₁.pos =
        ((MsgDecode.typeByteOpt Msg).map TypeByte.toU8).toList ∧
      target₁.rest.length = specifiedLen.toNat := by
    rw [typeLen_eq_length]
    rcases MsgDecode.typeByteOpt Msg with _ | typeByte
    · exact ⟨_, rfl, rfl, by simp [Cursor.rest]⟩
    · obtain ⟨target₁, hput, hdone, hrest⟩ := BytesTarget.putBounded_of_le
        (BytesTarget.new (List.replicate (1 + specifiedLen.toNat) 0)) [typeByte.toU8] (by simp)
      refine ⟨target₁, hput, by simpa using hdone, ?_⟩
      rw [hrest]
      simp
  have hleft := target₁.pos_add_left
  rw [Cursor.length_rest] at hrest₁
  obtain ⟨target, hput, hdone, hrest⟩ := BytesTarget.putBounded_of_le target₁
    (toBigEndian 4 specifiedLen.toNat) (by rw [length_toBigEndian]; omega)
  refine ⟨target, halloc, ?_, by rw [hdone, hdone₁], ?_⟩
  · rw [putHeader, Proc.bind_of_ok hput₁]
    exact hput
  · rw [hrest, List.length_drop, length_toBigEndian, Cursor.length_rest, hrest₁]

/-- With a shorter length field, or a sum that wraps around, no buffer with a header comes about. -/
theorem allocVec_putHeader_of_not_fits (overflowChecks : Bool) {specifiedLen : UInt32}
    (h : ¬ (4 ≤ specifiedLen.toNat ∧ typeLen Msg + specifiedLen.toNat < 2 ^ 32)) :
    allocVec Msg overflowChecks specifiedLen = .error .panic ∨
      ∃ bytes e target, allocVec Msg overflowChecks specifiedLen = .ok bytes ∧
        putHeader Msg specifiedLen (BytesTarget.new bytes) = (.error e, target) := by
  have hle := typeLen_le_one Msg
  have hlt := specifiedLen.toNat_lt
  by_cases hpanic : overflowChecks ∧ 2 ^ 32 ≤ typeLen Msg + specifiedLen.toNat
  · exact .inl (by rw [allocVec, if_pos hpanic])
  have halloc : allocVec Msg overflowChecks specifiedLen =
      .ok (List.replicate (UInt32.ofNat (typeLen Msg) + specifiedLen).toNat 0) :=
    if_neg hpanic
  -- without overflow checks the sum wraps around, so the buffer is too short
  have hlen : (UInt32.ofNat (typeLen Msg) + specifiedLen).toNat < typeLen Msg + 4 := by
    rw [UInt32.toNat_add, UInt32.toNat_ofNat_of_lt' (by unfold UInt32.size; omega)]
    omega
  generalize UInt32.ofNat (typeLen Msg) + specifiedLen = fullLen at hlen halloc
  suffices hput : ∃ e target, putHeader Msg specifiedLen
      (BytesTarget.new (List.replicate fullLen.toNat 0)) = (.error e, target) by
    obtain ⟨e, target, hput⟩ := hput
    exact .inr ⟨_, e, target, halloc, hput⟩
  rw [typeLen_eq_length] at hlen
  rw [putHeader]
  generalize MsgDecode.typeByteOpt Msg = typeByteOpt at hlen
  rcases typeByteOpt with _ | typeByte
  · obtain ⟨target, hput⟩ := BytesTarget.putBounded_of_lt
      (BytesTarget.new (List.replicate fullLen.toNat 0)) (toBigEndian 4 specifiedLen.toNat)
      (by simpa using hlen)
    exact ⟨_, target, hput⟩
  · -- the type byte or the length after it does not fit
    by_cases hzero : fullLen.toNat = 0
    · obtain ⟨target, hput⟩ := BytesTarget.putBounded_of_lt
        (BytesTarget.new (List.replicate fullLen.toNat 0)) [typeByte.toU8] (by simp [hzero])
      exact ⟨_, target, Proc.bind_of_error hput⟩
    · obtain ⟨target₁, hput₁, hdone₁, hrest₁⟩ := BytesTarget.putBounded_of_le
        (BytesTarget.new (List.replicate fullLen.toNat 0)) [typeByte.toU8]
        (by simp; omega)
      have hleft := target₁.pos_add_left
      have hleft₁ : target₁.left = fullLen.toNat - 1 := by
        rw [← Cursor.length_rest, hrest₁]
        simp
      obtain ⟨target, hput⟩ := BytesTarget.putBounded_of_lt target₁
        (toBigEndian 4 specifiedLen.toNat) (by
          rw [length_toBigEndian]
          simp at hlen
          omega)
      exact ⟨_, target, (Proc.bind_of_ok hput₁).trans hput⟩

/-- A message is read if the decoder of its type uses up the body. -/
theorem msgResult_eq_ok {body : List UInt8} {msg : Msg} :
    msgResult Msg body = .ok msg ↔ ∃ source,
      MsgDecode.decodeBody (BytesSource.new body) = (.ok msg, source) ∧ source.left = 0 := by
  rw [msgResult]
  rcases (MsgDecode.decodeBody : Decode Msg) (BytesSource.new body) with ⟨e | msg', source⟩
  · simp
  · rcases hleft : source.left with _ | n
    · simp [hleft]
    · simp [hleft]

/-! ## What a read consumes -/

/-- A number is read from the four bytes that spell it. -/
theorem readU32_eq_ok {r r' : Reader UInt8 IoError} {n : UInt32} :
    readU32 r = (.ok n, r') ↔ Brings r.script (toBigEndian 4 n.toNat) r'.script ∧
      r'.taken = r.taken ++ toBigEndian 4 n.toNat := by
  rw [readU32, Proc.map_eq_ok]
  simp only [readExact_eq_ok_iff]
  constructor
  · rintro ⟨buf, ⟨hlen, hbrings, htaken⟩, rfl⟩
    have hlt := ofBigEndian_lt buf
    rw [hlen] at hlt
    have hbuf : toBigEndian 4 (UInt32.ofNat (ofBigEndian buf)).toNat = buf := by
      rw [UInt32.toNat_ofNat_of_lt' (by unfold UInt32.size; omega), ← hlen,
        toBigEndian_ofBigEndian]
    rw [hbuf]
    exact ⟨hbrings, htaken⟩
  · rintro ⟨hbrings, htaken⟩
    refine ⟨_, ⟨length_toBigEndian _ _, hbrings, htaken⟩, ?_⟩
    have hlt := n.toNat_lt
    rw [ofBigEndian_toBigEndian, Nat.mod_eq_of_lt (by omega), UInt32.ofNat_toNat]

/-- The frame of a body fits into 32 bits, with the type byte if the message has one. -/
def Fits (Msg : Type) [MsgDecode Msg] (body : List UInt8) : Prop :=
  typeLen Msg + (4 + body.length) < 2 ^ 32

instance (Msg : Type) [MsgDecode Msg] (body : List UInt8) : Decidable (Fits Msg body) :=
  inferInstanceAs (Decidable (_ < _))

/-- All that a read of a message consumes is recorded. -/
theorem readMsg_honest (overflowChecks : Bool) : Honest (readMsg Msg overflowChecks) := by
  refine (((readExact_honest 4).map _).mapError _).bind fun specifiedLen => ?_
  split
  · exact Honest.fail _
  split
  · exact Honest.fail _
  · exact ((readExact_honest _).mapError _).bind fun _ => Honest.pure _

/-- A successful read consumes a length field and as many bytes as it announces; it returns the
whole frame and what the decoder makes of the body. -/
theorem readMsg_eq_ok {overflowChecks : Bool} {r r' : Reader UInt8 IoError}
    {data : ReadData Msg} :
    readMsg Msg overflowChecks r = (.ok data, r') ↔ ∃ body, Fits Msg body ∧
      Brings r.script (lengthAndBody body) r'.script ∧
      r'.taken = r.taken ++ lengthAndBody body ∧
      data = ⟨frameBytes (MsgDecode.typeByteOpt Msg) body, msgResult Msg body⟩ := by
  have hle := typeLen_le_one Msg
  simp only [readMsg, Proc.bind_eq_ok, Proc.mapError_eq_ok, readU32_eq_ok]
  constructor
  · rintro ⟨len, r₁, ⟨hbrings₁, htaken₁⟩, hrest⟩
    by_cases hfits : 4 ≤ len.toNat ∧ typeLen Msg + len.toNat < 2 ^ 32
    · obtain ⟨bytes, target, halloc, hput, hdone, hleft⟩ :=
        allocVec_putHeader_of_fits overflowChecks hfits.1 hfits.2
      simp only [halloc, hput, Proc.bind_eq_ok, Proc.mapError_eq_ok, readExact_eq_ok_iff] at hrest
      obtain ⟨body, r₂, ⟨hlen, hbrings₂, htaken₂⟩, hdata⟩ := hrest
      obtain ⟨rfl, rfl⟩ : ReadData.mk (target.slice.take target.pos ++ body) (msgResult Msg body) =
          data ∧ r₂ = r' := by simpa using hdata
      have hlen' : len.toNat = 4 + body.length := by omega
      refine ⟨body, by unfold Fits; omega, ?_, ?_, ?_⟩
      · rw [lengthAndBody, ← hlen']
        exact brings_append.mpr ⟨_, hbrings₁, hbrings₂⟩
      · rw [htaken₂, htaken₁, lengthAndBody, ← hlen', List.append_assoc]
      · rw [hdone, hlen', frameBytes]
    · -- no buffer, or no room for the header in it
      rcases allocVec_putHeader_of_not_fits overflowChecks hfits with
        halloc | ⟨bytes, e, target, halloc, hput⟩
      · simp [halloc] at hrest
      · simp [halloc, hput] at hrest
  · rintro ⟨body, hfits, hbrings, htaken, rfl⟩
    obtain ⟨s₁, hbrings₁, hbrings₂⟩ := brings_append.mp hbrings
    unfold Fits at hfits
    have hlen : (UInt32.ofNat (4 + body.length)).toNat = 4 + body.length :=
      UInt32.toNat_ofNat_of_lt' (by unfold UInt32.size; omega)
    obtain ⟨bytes, target, halloc, hput, hdone, hleft⟩ :=
      @allocVec_putHeader_of_fits Msg _ overflowChecks (UInt32.ofNat (4 + body.length))
        (by omega) (by omega)
    refine ⟨UInt32.ofNat (4 + body.length),
      ⟨s₁, r.taken ++ toBigEndian 4 (4 + body.length)⟩, ?_, ?_⟩
    · rw [hlen]
      exact ⟨hbrings₁, rfl⟩
    · simp only [halloc, hput, Proc.bind_eq_ok, Proc.mapError_eq_ok, readExact_eq_ok_iff]
      refine ⟨body, r', ⟨by omega, hbrings₂, ?_⟩, ?_⟩
      · rw [htaken, lengthAndBody, List.append_assoc]
      · rw [hdone, hlen]
        rfl

/-- No more bytes than a length field, or than the length field in front of them announces. -/
def WithinLength (got : List UInt8) : Prop :=
  got.length ≤ 4 ∨ got.length ≤ ofBigEndian (got.take 4)

/-- A failed read stays within the frame whose length field it has read. -/
theorem readMsg_eq_error {overflowChecks : Bool} {r r' : Reader UInt8 IoError}
    {halt : Halt ReadError} (h : readMsg Msg overflowChecks r = (.error halt, r')) :
    halt ≠ .unreachable ∧ halt ≠ .outOfFuel ∧
      ∃ got, WithinLength got ∧ r'.taken = r.taken ++ got := by
  have hhalt {e : Halt IoError} (he : e = .waiting ∨ ∃ e', e = .error e') :
      e.map ReadError.ioError ≠ .unreachable ∧ e.map ReadError.ioError ≠ .outOfFuel := by
    rcases he with rfl | ⟨e', rfl⟩ <;> simp [Halt.map]
  simp only [readMsg, Proc.bind_eq_error, Proc.mapError_eq_ok, Proc.mapError_eq_error,
    readU32_eq_ok] at h
  rcases h with ⟨e, hread, rfl⟩ | ⟨len, r₁, ⟨hbrings₁, htaken₁⟩, hrest⟩
  · -- the length field itself cannot be read
    rw [readU32, Proc.map_eq_error, readExact_eq_error] at hread
    obtain ⟨got, hfill, htaken⟩ := hread
    have hlt := fill_error_length hfill
    obtain ⟨h1, h2⟩ := hhalt (fill_error_cases hfill)
    exact ⟨h1, h2, got, .inl (by omega), htaken⟩
  have hheader : WithinLength (toBigEndian 4 len.toNat) := .inl (length_toBigEndian _ _).le
  by_cases hfits : 4 ≤ len.toNat ∧ typeLen Msg + len.toNat < 2 ^ 32
  · obtain ⟨bytes, target, halloc, hput, -, hleft⟩ :=
      allocVec_putHeader_of_fits overflowChecks hfits.1 hfits.2
    simp only [halloc, hput, Proc.bind_eq_error, Proc.mapError_eq_error, readExact_eq_error,
      Proc.pure_apply, Prod.mk.injEq, reduceCtorEq, false_and, and_false, exists_false,
      or_false] at hrest
    obtain ⟨e, ⟨got, hfill, htaken⟩, rfl⟩ := hrest
    have hlt := fill_error_length hfill
    obtain ⟨h1, h2⟩ := hhalt (fill_error_cases hfill)
    refine ⟨h1, h2, toBigEndian 4 len.toNat ++ got, .inr ?_, by
      rw [htaken, htaken₁, List.append_assoc]⟩
    have hlen : len.toNat % 256 ^ 4 = len.toNat := Nat.mod_eq_of_lt (by omega)
    rw [List.take_left' (length_toBigEndian 4 _), ofBigEndian_toBigEndian, hlen, List.length_append,
      length_toBigEndian]
    omega
  · rcases allocVec_putHeader_of_not_fits overflowChecks hfits with
      halloc | ⟨bytes, e, target, halloc, hput⟩
    · obtain ⟨rfl, rfl⟩ : Halt.panic = halt ∧ r₁ = r' := by simpa [halloc] using hrest
      exact ⟨nofun, nofun, _, hheader, htaken₁⟩
    · obtain ⟨rfl, rfl⟩ : Halt.error (ReadError.encodeError e) = halt ∧ r₁ = r' := by
        simpa [halloc, hput] using hrest
      exact ⟨nofun, nofun, _, hheader, htaken₁⟩

end

end Postgread
