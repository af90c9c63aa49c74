import Postgread.Msg.Body.Query
import Postgread.Msg.Util.Read
import Postgread.Msg.Wire.Parts

/-!
# Framing

Where a frame ends is decided by its length field alone. `readMsg_framing` says what a read does
with every announced length that fits into 32 bits together with the type byte, whatever the decoder
makes of the body; `allocVec_exact_iff` says that one announced length does not fit.
-/

namespace Postgread

open Decoder

variable {Msg : Type} [MsgDecode Msg]

/-! ## What the decoder makes of the body -/

/-- Bytes are left over exactly if the body decodes and its decoder stops before the end. -/
theorem msgResult_eq_leftUndecoded {body : List UInt8} {n : ℕ} :
    msgResult Msg body = .error (.leftUndecoded n) ↔ 0 < n ∧ ∃ (msg : Msg) (source : BytesSource),
      MsgDecode.decodeBody (BytesSource.new body) = (.ok msg, source) ∧ source.left = n := by
  rw [msgResult]
  rcases (MsgDecode.decodeBody : Decode Msg) (BytesSource.new body) with ⟨e | msg, source⟩
  · simp
  · rcases hleft : source.left with _ | k
    · simp [hleft]
      omega
    · simp [hleft]
      omega

/-- An error of the decoder becomes that of the message. -/
theorem msgResult_eq_decodeError {body : List UInt8} {e : Problem} :
    msgResult Msg body = .error (.decodeError e) ↔ ∃ source : BytesSource,
      (MsgDecode.decodeBody : Decode Msg) (BytesSource.new body) = (.error e, source) := by
  rw [msgResult]
  rcases (MsgDecode.decodeBody : Decode Msg) (BytesSource.new body) with ⟨e' | msg, source⟩
  · simp
  · rcases hleft : source.left with _ | k
    · simp [hleft]
    · simp [hleft]

/-! ## What a read does after the length field -/

/-- A length that does not cover its own field. -/
theorem readMsg_of_short (overflowChecks : Bool) {r : Reader UInt8 IoError} {len : UInt32}
    {s : Script UInt8 IoError} (hshort : len.toNat < 4)
    (hlen : Brings r.script (toBigEndian 4 len.toNat) s) :
    ∃ e, readMsg Msg overflowChecks r =
      (.error (.error (.encodeError e)), ⟨s, r.taken ++ toBigEndian 4 len.toNat⟩) := by
  have hle := typeLen_le_one Msg
  have hread : readU32 r = (.ok len, ⟨s, r.taken ++ toBigEndian 4 len.toNat⟩) :=
    readU32_eq_ok.mpr ⟨hlen, rfl⟩
  have halloc := @allocVec_of_fits Msg _ overflowChecks len (by omega)
  rcases @allocVec_putHeader_of_not_fits Msg _ overflowChecks len (by omega) with
    hpanic | ⟨bytes, e, target, hbytes, hput⟩
  · rw [halloc] at hpanic
    cases hpanic
  · refine ⟨e, ?_⟩
    rw [readMsg, Proc.bind_of_ok (Proc.mapError_eq_ok.mpr hread)]
    simp [hbytes, hput]

/-- A stream that ends inside the length field. -/
theorem readMsg_of_ended_header (overflowChecks : Bool) {r : Reader UInt8 IoError} {e : IoError}
    {got : List UInt8} {s : Script UInt8 IoError}
    (hend : fill r.script 4 = (.error (.error e), got, s)) :
    readMsg Msg overflowChecks r = (.error (.error (.ioError e)), ⟨s, r.taken ++ got⟩) := by
  have hread : readU32 r = (.error (.error e), ⟨s, r.taken ++ got⟩) := by
    rw [readU32, Proc.map_eq_error, readExact_eq_error]
    exact ⟨got, hend, rfl⟩
  rw [readMsg, Proc.bind_of_error (Proc.mapError_eq_error.mpr ⟨_, hread, rfl⟩)]
  rfl

/-- A stream that ends inside the body. -/
theorem readMsg_of_ended_body (overflowChecks : Bool) {r : Reader UInt8 IoError} {len : UInt32}
    {s₁ s : Script UInt8 IoError} {e : IoError} {got : List UInt8} (h4 : 4 ≤ len.toNat)
    (hfits : typeLen Msg + len.toNat < 2 ^ 32) (hlen : Brings r.script (toBigEndian 4 len.toNat) s₁)
    (hend : fill s₁ (len.toNat - 4) = (.error (.error e), got, s)) :
    readMsg Msg overflowChecks r = (.error (.error (.ioError e)),
      ⟨s, r.taken ++ toBigEndian 4 len.toNat ++ got⟩) := by
  have hread : readU32 r = (.ok len, ⟨s₁, r.taken ++ toBigEndian 4 len.toNat⟩) :=
    readU32_eq_ok.mpr ⟨hlen, rfl⟩
  obtain ⟨bytes, target, halloc, hput, -, hleft⟩ :=
    @allocVec_putHeader_of_fits Msg _ overflowChecks len h4 hfits
  have hbody : readExact target.rest.length ⟨s₁, r.taken ++ toBigEndian 4 len.toNat⟩ =
      (.error (.error e), ⟨s, r.taken ++ toBigEndian 4 len.toNat ++ got⟩) :=
    readExact_eq_error.mpr ⟨got, by rw [hleft]; exact hend, rfl⟩
  rw [readMsg, Proc.bind_of_ok (Proc.mapError_eq_ok.mpr hread)]
  simp only [halloc, hput]
  exact Proc.bind_of_error (Proc.mapError_eq_error.mpr ⟨_, hbody, rfl⟩)

/-- A frame that is there as a whole. -/
theorem readMsg_of_frame (overflowChecks : Bool) {r : Reader UInt8 IoError} {len : UInt32}
    {frame : List UInt8} {s : Script UInt8 IoError} (h4 : 4 ≤ len.toNat)
    (hfits : typeLen Msg + len.toNat < 2 ^ 32) (hframe : frame.length = len.toNat)
    (hlen : frame.take 4 = toBigEndian 4 len.toNat) (hbrings : Brings r.script frame s) :
    readMsg Msg overflowChecks r =
      (.ok ⟨((MsgDecode.typeByteOpt Msg).map TypeByte.toU8).toList ++ frame,
        msgResult Msg (frame.drop 4)⟩, ⟨s, r.taken ++ frame⟩) := by
  have hdrop : 4 + (frame.drop 4).length = len.toNat := by
    rw [List.length_drop]
    omega
  have hsplit : lengthAndBody (frame.drop 4) = frame := by
    rw [lengthAndBody, hdrop, ← hlen, List.take_append_drop]
  refine readMsg_eq_ok.mpr ⟨frame.drop 4, by rw [Fits, hdrop]; exact hfits, ?_, ?_, ?_⟩
  · rw [hsplit]
    exact hbrings
  · rw [hsplit]
  · rw [frameBytes, List.append_assoc, ← lengthAndBody, hsplit]

/-- Whatever comes of a read, it consumes the next bytes of the stream, and no more of them than the
length field announces. -/
theorem readMsg_consumes (overflowChecks : Bool) (r : Reader UInt8 IoError) :
    ∃ got, WithinLength got ∧ (readMsg Msg overflowChecks r).2.taken = r.taken ++ got ∧
      r.script.tokens = got ++ (readMsg Msg overflowChecks r).2.script.tokens := by
  obtain ⟨got, htaken, htokens⟩ := @readMsg_honest Msg _ overflowChecks r
  refine ⟨got, ?_, htaken, htokens⟩
  rcases h : readMsg Msg overflowChecks r with ⟨halt | data, r'⟩
  · obtain ⟨-, -, got', hwithin, htaken'⟩ := readMsg_eq_error h
    rw [h] at htaken
    obtain rfl : got = got' := List.append_cancel_left (htaken.symm.trans htaken')
    exact hwithin
  · obtain ⟨body, hfits, -, htaken', -⟩ := readMsg_eq_ok.mp h
    rw [h] at htaken
    obtain rfl : got = lengthAndBody body := List.append_cancel_left (htaken.symm.trans htaken')
    have hlt : (4 + body.length) % 256 ^ 4 = 4 + body.length :=
      Nat.mod_eq_of_lt (by unfold Fits at hfits; omega)
    right
    rw [lengthAndBody, List.take_left' (length_toBigEndian 4 _), ofBigEndian_toBigEndian, hlt,
      List.length_append, length_toBigEndian]

/-- A read consumes the frame that its length field announces and returns it unchanged, and only the
result for the message depends on the decoder. A length below four is an encoding error, and the end
of the stream inside the frame is an error of the stream. -/
theorem readMsg_framing (Msg : Type) [MsgDecode Msg] (overflowChecks : Bool)
    (r : Reader UInt8 IoError) (len : UInt32) (hfits : typeLen Msg + len.toNat < 2 ^ 32) :
    (∀ frame s, 4 ≤ len.toNat → frame.length = len.toNat → frame.take 4 = toBigEndian 4 len.toNat →
      Brings r.script frame s → readMsg Msg overflowChecks r =
        (.ok ⟨((MsgDecode.typeByteOpt Msg).map TypeByte.toU8).toList ++ frame,
          msgResult Msg (frame.drop 4)⟩, ⟨s, r.taken ++ frame⟩)) ∧
    (∀ body, (∀ msg, msgResult Msg body = .ok msg ↔ Decodes MsgDecode.decodeBody body msg) ∧
      (∀ n, msgResult Msg body = .error (.leftUndecoded n) ↔
        0 < n ∧ ∃ (msg : Msg) (source : BytesSource),
          MsgDecode.decodeBody (BytesSource.new body) = (.ok msg, source) ∧ source.left = n) ∧
      ∀ e, msgResult Msg body = .error (.decodeError e) ↔ ∃ source : BytesSource,
        (MsgDecode.decodeBody : Decode Msg) (BytesSource.new body) = (.error e, source)) ∧
    (∀ s, len.toNat < 4 → Brings r.script (toBigEndian 4 len.toNat) s → ∃ e,
      readMsg Msg overflowChecks r =
        (.error (.error (.encodeError e)), ⟨s, r.taken ++ toBigEndian 4 len.toNat⟩)) ∧
    (∀ e got s, fill r.script 4 = (.error (.error e), got, s) → readMsg Msg overflowChecks r =
      (.error (.error (.ioError e)), ⟨s, r.taken ++ got⟩)) ∧
    (∀ s₁ e got s, 4 ≤ len.toNat → Brings r.script (toBigEndian 4 len.toNat) s₁ →
      fill s₁ (len.toNat - 4) = (.error (.error e), got, s) → readMsg Msg overflowChecks r =
        (.error (.error (.ioError e)), ⟨s, r.taken ++ toBigEndian 4 len.toNat ++ got⟩)) ∧
    ∃ got, WithinLength got ∧ (readMsg Msg overflowChecks r).2.taken = r.taken ++ got ∧
      r.script.tokens = got ++ (readMsg Msg overflowChecks r).2.script.tokens :=
  ⟨fun _ _ h4 hframe hlen hbrings =>
      readMsg_of_frame overflowChecks h4 hfits hframe hlen hbrings,
    fun _ => ⟨fun _ => msgResult_eq_ok, fun _ => msgResult_eq_leftUndecoded,
      fun _ => msgResult_eq_decodeError⟩,
    fun _ hshort hlen => readMsg_of_short overflowChecks hshort hlen,
    fun _ _ _ hend => readMsg_of_ended_header overflowChecks hend,
    fun _ _ _ _ h4 hlen hend => readMsg_of_ended_body overflowChecks h4 hfits hlen hend,
    readMsg_consumes overflowChecks r⟩

/-- A `Sync` that arrives in two pieces, and a byte after it. -/
theorem readMsg_sync :
    readMsg Body.Sync true ⟨[.ready 0 [0], .pending, .ready 0 [4, 7]], []⟩ =
      (.ok ⟨[ascii 'S', 0, 0, 0, 4], .ok {}⟩, ⟨[.ready 7 []], [0, 0, 0, 4]⟩) :=
  (readMsg_framing Body.Sync true ⟨[.ready 0 [0], .pending, .ready 0 [4, 7]], []⟩ 4 (by decide)).1
    [0, 0, 0, 4] [.ready 7 []] (by decide) rfl rfl rfl

/-! ## The length of the buffer -/

/-- Only the greatest length does not fit into 32 bits together with a type byte. -/
theorem typeLen_add_lt_iff {specifiedLen : UInt32} : typeLen Msg + specifiedLen.toNat < 2 ^ 32 ↔
    MsgDecode.typeByteOpt Msg = none ∨ specifiedLen ≠ 0xFFFFFFFF := by
  have hlt := specifiedLen.toNat_lt
  have hmax : specifiedLen = 0xFFFFFFFF ↔ specifiedLen.toNat = 2 ^ 32 - 1 := by
    rw [← UInt32.toNat_inj]
    rfl
  rw [ne_eq, hmax, typeLen]
  rcases MsgDecode.typeByteOpt Msg with _ | typeByte
  · simp only [Option.isSome_none, Bool.false_eq_true, if_false, true_or, iff_true]
    omega
  · simp only [Option.isSome_some, if_true, reduceCtorEq, false_or]
    omega

/-- The buffer has room for exactly the type byte and the announced length, and behind the header
for exactly the body, unless a typed message announces the greatest length there is. -/
theorem allocVec_exact_iff (Msg : Type) [MsgDecode Msg] (overflowChecks : Bool)
    (specifiedLen : UInt32) :
    (∃ bytes, allocVec Msg overflowChecks specifiedLen = .ok bytes ∧
      bytes.length = typeLen Msg + specifiedLen.toNat ∧ (4 ≤ specifiedLen.toNat → ∃ target,
        putHeader Msg specifiedLen (BytesTarget.new bytes) = (.ok ⟨⟩, target) ∧
          target.rest.length = specifiedLen.toNat - 4)) ↔
      MsgDecode.typeByteOpt Msg = none ∨ specifiedLen ≠ 0xFFFFFFFF := by
  rw [← typeLen_add_lt_iff]
  constructor
  · rintro ⟨bytes, halloc, hlen, -⟩
    unfold allocVec at halloc
    split at halloc
    · cases halloc
    · obtain rfl := Except.ok.inj halloc
      rw [List.length_replicate] at hlen
      rw [← hlen]
      exact UInt32.toNat_lt _
  · intro hfits
    refine ⟨_, allocVec_of_fits overflowChecks hfits, List.length_replicate, fun h4 => ?_⟩
    obtain ⟨bytes, target, halloc, hput, -, hrest⟩ :=
      @allocVec_putHeader_of_fits Msg _ overflowChecks specifiedLen h4 hfits
    rw [allocVec_of_fits overflowChecks hfits] at halloc
    obtain rfl := Except.ok.inj halloc
    exact ⟨target, hput, hrest⟩

/-- Only a checked build fails here, for a length that has no room for the type byte. -/
theorem allocVec_eq_error {overflowChecks : Bool} {specifiedLen : UInt32} {halt : Halt ReadError} :
    allocVec Msg overflowChecks specifiedLen = .error halt ↔ halt = .panic ∧
      overflowChecks = true ∧ (MsgDecode.typeByteOpt Msg).isSome ∧ specifiedLen = 0xFFFFFFFF := by
  have hfits := (@typeLen_add_lt_iff Msg _ specifiedLen).not
  rw [Nat.not_lt, not_or, ← ne_eq, Option.ne_none_iff_isSome, not_ne_iff] at hfits
  rw [← hfits, allocVec]
  split_ifs with h
  · rw [and_iff_left h, Except.error.injEq, eq_comm]
  · simp only [false_iff]
    exact fun h' => h h'.2

/-- A stream that brings the greatest length field there is. -/
def AnnouncesMax (s : Stream) : Prop := ∃ s', Brings s (toBigEndian 4 (2 ^ 32 - 1)) s'

/-- A read panics in a checked build, when a typed message announces the greatest length. -/
theorem panics_readMsg {overflowChecks : Bool} {r : Reader UInt8 IoError} :
    (readMsg Msg overflowChecks).Panics r ↔ overflowChecks = true ∧
      (MsgDecode.typeByteOpt Msg).isSome ∧ AnnouncesMax r.script := by
  have hread : ¬ (readU32.mapError (Halt.map ReadError.ioError)).Panics r := by
    rw [Proc.panics_mapError, readU32, Proc.panics_map]
    exact not_panics_readExact 4 r
  rw [readMsg, Proc.panics_bind, or_iff_right hread]
  constructor
  · -- after the length field only the allocation can panic
    rintro ⟨len, r₁, hlen, hpanics⟩
    rcases halloc : allocVec Msg overflowChecks len with halt | bytes
    · obtain ⟨-, hchecks, htyped, rfl⟩ := allocVec_eq_error.mp halloc
      exact ⟨hchecks, htyped, _, (readU32_eq_ok.mp (Proc.mapError_eq_ok.mp hlen)).1⟩
    · rcases hput : putHeader Msg len (BytesTarget.new bytes) with ⟨e | u, target⟩
      · simp [halloc, hput] at hpanics
      · simp only [halloc, hput] at hpanics
        rw [Proc.panics_bind, Proc.panics_mapError] at hpanics
        simp [not_panics_readExact] at hpanics
  · rintro ⟨hchecks, htyped, s, hbrings⟩
    have halloc : allocVec Msg overflowChecks 0xFFFFFFFF = .error .panic :=
      allocVec_eq_error.mpr ⟨rfl, hchecks, htyped, rfl⟩
    refine ⟨0xFFFFFFFF, ⟨s, _⟩, Proc.mapError_eq_ok.mpr (readU32_eq_ok.mpr ⟨hbrings, rfl⟩), ?_⟩
    simp [halloc]

/-- The greatest length panics in a checked build and leaves no buffer at all in a release. -/
theorem allocVec_overflow :
    allocVec Body.Sync true 0xFFFFFFFF = .error .panic ∧
      allocVec Body.Sync false 0xFFFFFFFF = .ok [] ∧
        ([] : List UInt8).length ≠ typeLen Body.Sync + (0xFFFFFFFF : UInt32).toNat :=
  ⟨rfl, rfl, by decide⟩

end Postgread
