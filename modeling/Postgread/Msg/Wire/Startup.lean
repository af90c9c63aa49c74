import Postgread.Msg.Body.Startup
import Postgread.Msg.Wire.Parts

/-!
# The wire format of the start-up and of the authentication

What each message of the start-up looks like on the wire, written independently of its decoder, and
that the decoder inverts it. `Initial.decodes_initial_iff` and
`Authentication.decodes_authentication_iff` say which bodies are decoded, and to what.
-/

namespace Postgread.Body

open Decoder BytesSource

/-- A loop whose rounds read a string first and end at an empty one. -/
theorem readsElement_of_name {β δ : Type} {step : β → Decode (ForInStep β)}
    {rest : β → List UInt8 → Decode (ForInStep β)} (push : β → δ → β) (name : δ → List UInt8)
    (Valid : δ → Prop) (encode : δ → List UInt8)
    (hstep : ∀ b, step b = takeUntilNull >>= fun s =>
      if s.isEmpty then pure (.done b) else rest b s)
    (hlocal : ∀ b s, Local (rest b s)) (hconsumes : Consumes step)
    (hrest : ∀ b s x bs r, parse (rest b s) bs = .ok (x, r) ↔
      ∃ d, name d = s ∧ Valid d ∧ x = .yield (push b d) ∧ bs = encode d ++ r) :
    ReadsElement step (fun d => (name d ≠ [] ∧ 0 ∉ name d) ∧ Valid d)
      (fun d => encodeString (name d) ++ encode d) [0] push := by
  have hbranch (b : β) (s : List UInt8) :
      Local (if s.isEmpty then pure (.done b) else rest b s : Decode (ForInStep β)) := by
    split
    · exact .pure _
    · exact hlocal b s
  -- one round: the end of the list, or an element with a name
  have hiff (b : β) (x : ForInStep β) (bs r : List UInt8) : parse (step b) bs = .ok (x, r) ↔
      (x = .done b ∧ bs = [0] ++ r) ∨ ∃ d, (name d ≠ [] ∧ 0 ∉ name d) ∧ Valid d ∧
        x = .yield (push b d) ∧ bs = encodeString (name d) ++ encode d ++ r := by
    rw [hstep, takeUntilNull_inverts.parse_bind_eq_ok (hbranch b)]
    constructor
    · rintro ⟨s, r', hs, rfl, h⟩
      rcases s with _ | ⟨c, s⟩
      · obtain ⟨rfl, rfl⟩ : ForInStep.done b = x ∧ r' = r := by simpa using h
        exact .inl ⟨rfl, rfl⟩
      · obtain ⟨d, hd, hvalid, rfl, rfl⟩ := (hrest b (c :: s) x r' r).mp h
        exact .inr ⟨d, ⟨hd ▸ nofun, hd ▸ hs⟩, hvalid, rfl, by rw [hd, List.append_assoc]⟩
    · rintro (⟨rfl, rfl⟩ | ⟨d, ⟨hne, hs⟩, hvalid, rfl, rfl⟩)
      · exact ⟨[], r, List.not_mem_nil, rfl, parse_pure _ r⟩
      · refine ⟨name d, encode d ++ r, hs, List.append_assoc _ _ _, ?_⟩
        rw [if_neg (by simpa using hne)]
        exact (hrest b _ _ _ r).mpr ⟨d, rfl, hvalid, rfl, rfl⟩
  refine ⟨fun b => ?_, hconsumes, fun b b' bs r => ?_, fun b b' bs r => ?_⟩
  · rw [hstep]
    exact takeUntilNull_local.bind (hbranch b)
  · simp [hiff]
  · simp [hiff, and_assoc]

/-! ## The initial packet -/

/-- The two numbers of a version. -/
def Version.encode (version : Version) : List UInt8 :=
  encodeU16 version.major ++ encodeU16 version.minor

namespace StartupParam

/-- A name and a value, each with a zero byte. -/
def encode (param : StartupParam) : List UInt8 :=
  encodeString param.name ++ encodeString param.value

/-- The name is not empty, and neither string has a zero byte. -/
def WellFormed (param : StartupParam) : Prop :=
  (param.name ≠ [] ∧ 0 ∉ param.name) ∧ 0 ∉ param.value

/-- The parameters in a row and one more zero byte. -/
theorem decodeMany_inverts : Inverts decodeMany (fun params => ∀ param ∈ params, param.WellFormed)
    fun params => params.flatMap encode ++ [0] := by
  refine (readsElement_of_name (fun params param => params ++ [param]) name
    (fun param => 0 ∉ param.value) (fun param => encodeString param.value) (fun _ => rfl)
    (fun _ _ => takeUntilNull_local.bind fun _ => .pure _) decodeNext_consumes
    fun params s x bs r => ?_).inverts
  rw [takeUntilNull_inverts.parse_bind_eq_ok fun _ => .pure _]
  constructor
  · rintro ⟨value, r', hvalue, rfl, h⟩
    obtain ⟨rfl, rfl⟩ : ForInStep.yield (params ++ [⟨s, value⟩]) = x ∧ r' = r := by simpa using h
    exact ⟨⟨s, value⟩, rfl, hvalue, rfl, rfl⟩
  · rintro ⟨param, rfl, hvalue, rfl, rfl⟩
    exact ⟨param.value, r, hvalue, rfl, parse_pure _ r⟩

end StartupParam

namespace Initial

/-- The version field, which tells the three forms apart. -/
def version : Initial → Version
  | cancel _ => ⟨1234, 5678⟩
  | tls => ⟨1234, 5679⟩
  | startup s => s.version

/-- What comes after the version field. -/
def encodeTail : Initial → List UInt8
  | cancel c => encodeU32 c.processId ++ encodeU32 c.secretKey
  | tls => []
  | startup s => s.params.flatMap StartupParam.encode ++ [0]

/-- The version, and what comes behind it. -/
def encode (initial : Initial) : List UInt8 := initial.version.encode ++ initial.encodeTail

/-- A start-up has none of the two reserved versions, and its parameters are well formed. -/
def WellFormed : Initial → Prop
  | startup s => s.version ≠ ⟨1234, 5678⟩ ∧ s.version ≠ ⟨1234, 5679⟩ ∧
    ∀ param ∈ s.params, param.WellFormed
  | _ => True

end Initial

/-- A version is read from its four bytes alone. -/
theorem Version.decode_inverts : Inverts Version.decode (fun _ => True) Version.encode :=
  takeU16_inverts.pair takeU16_inverts (fun version => by cases version; simp) fun _ _ _ _ => rfl

/-- An initial packet is read from its encoding alone. -/
theorem Initial.decodeBody_inverts : Inverts decodeBody WellFormed encode := by
  refine (Inverts.bind version (fun v initial => initial.version = v ∧ initial.WellFormed)
    (fun _ => encodeTail) Version.decode_inverts (fun v => ?_) fun _ _ h => h.1).congr
    (fun _ => by simp) fun _ _ => rfl
  split
  · refine takeU32_inverts.pair takeU32_inverts (fun initial => ?_) fun _ _ _ _ => rfl
    constructor
    · rintro ⟨hv, hw⟩
      cases initial with
      | cancel c => exact ⟨c.processId, c.secretKey, ⟨trivial, trivial⟩, rfl⟩
      | tls => exact absurd hv (by decide)
      | startup s => exact absurd hv hw.1
    · rintro ⟨processId, secretKey, -, rfl⟩
      exact ⟨rfl, trivial⟩
  · refine (Inverts.pure Initial.tls).congr (fun initial => ?_) fun initial h => by rw [h]; rfl
    constructor
    · rintro rfl
      exact ⟨rfl, trivial⟩
    · rintro ⟨hv, hw⟩
      cases initial with
      | cancel c => exact absurd hv (by simp [version])
      | tls => rfl
      | startup s => exact absurd hv hw.2.1
  · rename_i hcancel htls
    rw [bind_pure_comp]
    refine StartupParam.decodeMany_inverts.map (fun initial => ?_) fun _ _ => rfl
    constructor
    · rintro ⟨rfl, hw⟩
      cases initial with
      | cancel c => exact absurd rfl hcancel
      | tls => exact absurd rfl htls
      | startup s => exact ⟨s.params, hw.2.2, rfl⟩
    · rintro ⟨params, hparams, rfl⟩
      exact ⟨rfl, hcancel, htls, hparams⟩

/-- The bodies of an initial packet that are decoded with nothing left are the encodings of well
formed packets, and each is decoded to the packet that it encodes. -/
theorem Initial.decodes_initial_iff (body : List UInt8) (initial : Initial) :
    Decodes decodeBody body initial ↔ initial.WellFormed ∧ body = initial.encode :=
  decodes_iff_of_invertsAt (decodeBody_inverts.invertsAt [])

/-! ## Authentication -/

namespace Authentication

/-- The number that tells the forms apart. -/
def subType : Authentication → UInt32
  | ok => 0
  | kerberosV5 => 2
  | cleartextPassword => 3
  | md5Password _ => 5
  | scmCredential => 6
  | gss => 7
  | gssContinue _ => 8
  | sspi => 9
  | sasl _ => 10
  | saslContinue _ => 11
  | saslFinal _ => 12

/-- What comes after the sub-type. -/
def encodeTail : Authentication → List UInt8
  | md5Password salt => salt.toList
  | gssContinue data | saslContinue data | saslFinal data => data
  | sasl mechanisms => mechanisms.flatMap encodeString ++ [0]
  | _ => []

/-- The number of the request, and what comes behind it. -/
def encode (authentication : Authentication) : List UInt8 :=
  encodeU32 authentication.subType ++ authentication.encodeTail

/-- The mechanisms are not empty and have no zero byte. -/
def WellFormed : Authentication → Prop
  | sasl mechanisms => ∀ mechanism ∈ mechanisms, mechanism ≠ [] ∧ 0 ∉ mechanism
  | _ => True

/-- A form without data. -/
theorem pure_inverts (a : Authentication) (htail : a.encodeTail = [])
    (hvalid : ∀ b, b = a ↔ b.subType = a.subType ∧ b.WellFormed) :
    InvertsAt [] (pure a : Decode Authentication) (fun b => b.subType = a.subType ∧ b.WellFormed)
      encodeTail :=
  ((Inverts.pure a).congr hvalid fun b hb => by rw [hb, htail]).invertsAt []

/-- A form with all that is left as its data. -/
theorem map_takeRest_inverts (f : List UInt8 → Authentication) {x : UInt32}
    (htail : ∀ data, (f data).encodeTail = data)
    (hvalid : ∀ b, b.subType = x ∧ b.WellFormed ↔ ∃ data, True ∧ b = f data) :
    InvertsAt [] (f <$> takeRest) (fun b => b.subType = x ∧ b.WellFormed) encodeTail :=
  takeRest_invertsAt.map hvalid fun data _ => htail data

/-- The mechanisms in a row and one more zero byte. -/
theorem decodeSasl_inverts :
    Inverts decodeSasl (fun a => a.subType = 10 ∧ a.WellFormed) encodeTail := by
  have hreads := readsElement_of_name (fun mechanisms mechanism => mechanisms ++ [mechanism])
    (fun s : List UInt8 => s) (fun _ => True) (fun _ => []) (fun _ => rfl) (fun _ _ => .pure _)
    decodeSaslNext_consumes (fun mechanisms s x bs r => by simp [eq_comm])
  refine hreads.inverts.map (fun a => ?_) fun mechanisms _ => ?_
  · cases a <;> simp [subType, WellFormed]
  · simp [encodeTail]

/-- A request is read from its encoding, where three of the requests go on to the end of the body.
-/
theorem decodeBody_invertsAt : InvertsAt [] decodeBody WellFormed encode := by
  refine (InvertsAt.bind subType (fun x a => a.subType = x ∧ a.WellFormed)
    (fun _ => encodeTail) takeU32_inverts (fun x => ?_) (fun x => ?_) fun _ _ h => h.1).congr
    (fun _ => by simp) fun _ _ => rfl
  · split
    all_goals first
      | exact .pure _
      | exact ((takeSlice_framed 4).map _).toLocal
      | exact takeRest_local.map _
      | exact decodeSasl_framed.toLocal
      | exact .fail _
  split
  · exact pure_inverts ok rfl fun b => by cases b <;> simp [subType, WellFormed]
  · exact pure_inverts kerberosV5 rfl fun b => by cases b <;> simp [subType, WellFormed]
  · exact pure_inverts cleartextPassword rfl fun b => by cases b <;> simp [subType, WellFormed]
  · refine ((takeSlice_inverts 4).invertsAt []).map (fun b => ?_) fun _ _ => rfl
    cases b <;> simp [subType, WellFormed]
  · exact pure_inverts scmCredential rfl fun b => by cases b <;> simp [subType, WellFormed]
  · exact pure_inverts gss rfl fun b => by cases b <;> simp [subType, WellFormed]
  · exact map_takeRest_inverts gssContinue (fun _ => rfl) fun b => by
      cases b <;> simp [subType, WellFormed]
  · exact pure_inverts sspi rfl fun b => by cases b <;> simp [subType, WellFormed]
  · exact decodeSasl_inverts.invertsAt []
  · exact map_takeRest_inverts saslContinue (fun _ => rfl) fun b => by
      cases b <;> simp [subType, WellFormed]
  · exact map_takeRest_inverts saslFinal (fun _ => rfl) fun b => by
      cases b <;> simp [subType, WellFormed]
  · -- every sub-type has been tried
    rename_i h0 h2 h3 h5 h6 h7 h8 h9 h10 h11 h12
    refine InvertsAt.fail _ fun a => ?_
    rintro ⟨rfl, -⟩
    cases a with
    | ok => exact h0 rfl
    | kerberosV5 => exact h2 rfl
    | cleartextPassword => exact h3 rfl
    | md5Password _ => exact h5 rfl
    | scmCredential => exact h6 rfl
    | gss => exact h7 rfl
    | gssContinue _ => exact h8 rfl
    | sspi => exact h9 rfl
    | sasl _ => exact h10 rfl
    | saslContinue _ => exact h11 rfl
    | saslFinal _ => exact h12 rfl

end Authentication

/-- The bodies of an authentication request that are decoded with nothing left are the encodings of
well formed requests, and each is decoded to the request that it encodes. -/
theorem Authentication.decodes_authentication_iff (body : List UInt8)
    (authentication : Authentication) :
    Decodes decodeBody body authentication ↔
      authentication.WellFormed ∧ body = authentication.encode :=
  decodes_iff_of_invertsAt decodeBody_invertsAt

/-! ## Other messages of the start-up -/

namespace Password

/-- The password and a zero byte. -/
def encode (password : Password) : List UInt8 := encodeString password.password

/-- The password has no zero byte in it. -/
def WellFormed (password : Password) : Prop := 0 ∉ password.password

/-- A password is read from its encoding alone. -/
theorem decodeBody_inverts : Inverts decodeBody WellFormed encode :=
  string_inverts password fun a s => by cases a; simp

end Password

namespace GssResponse

/-- The data as they are. -/
def encode (response : GssResponse) : List UInt8 := response.data

/-- The data reach to the end of the body. -/
theorem decodeBody_invertsAt : InvertsAt [] decodeBody (fun _ => True) encode :=
  rest_invertsAt data fun a s => by cases a; simp

end GssResponse

namespace SaslInitialResponse

/-- The mechanism, and the data behind their length. -/
def encode (response : SaslInitialResponse) : List UInt8 :=
  encodeString response.selectedMechanism ++ encodeNullable response.mechanismData

/-- The mechanism has no zero byte in it, and the data are not too long for a signed length. -/
def WellFormed (response : SaslInitialResponse) : Prop :=
  0 ∉ response.selectedMechanism ∧ ∀ data ∈ response.mechanismData, data.length < 2 ^ 31

/-- The first answer is read from its encoding alone. -/
theorem decodeBody_inverts : Inverts decodeBody WellFormed encode := by
  refine Inverts.ofFields (.field selectedMechanism takeUntilNull_inverts fun s =>
    nullable_inverts mechanismData
      (fun len => .incorrect s!"mechanism data len should be >= -1 but is {len}")
      (fun response => ?_) fun response data => ?_) (fun _ => .rfl) fun _ => rfl
  all_goals
    cases response
    simp

end SaslInitialResponse

namespace SaslResponse

/-- The data as they are. -/
def encode (response : SaslResponse) : List UInt8 := response.mechanismData

/-- The data reach to the end of the body. -/
theorem decodeBody_invertsAt : InvertsAt [] decodeBody (fun _ => True) encode :=
  rest_invertsAt mechanismData fun a s => by cases a; simp

end SaslResponse

namespace NegotiateProtocolVersion

/-- The version, and the options behind their number. -/
def encode (version : NegotiateProtocolVersion) : List UInt8 :=
  encodeU32 version.newestBackendMinor ++ encodeVec 4 Text.encode version.unrecognizedOptions

/-- There are not too many options to count, and none has a zero byte in it. -/
def WellFormed (version : NegotiateProtocolVersion) : Prop :=
  Counted 4 Text.WellFormed version.unrecognizedOptions

/-- The message is read from its encoding alone. -/
theorem decodeBody_inverts : Inverts decodeBody WellFormed encode := by
  refine Inverts.ofFields (.field newestBackendMinor takeU32_inverts fun minor =>
    counted32_inverts unrecognizedOptions Text.decode_inverts fun options =>
    .record fun version => ?_) (fun version => ?_) fun version => ?_
  · cases version
    simp
  · simp [WellFormed]
  · simp [encode]

end NegotiateProtocolVersion

namespace ParameterStatus

/-- A name and a value, each with a zero byte. -/
def encode (status : ParameterStatus) : List UInt8 :=
  encodeString status.name ++ encodeString status.value

/-- Neither has a zero byte in it. -/
def WellFormed (status : ParameterStatus) : Prop := 0 ∉ status.name ∧ 0 ∉ status.value

/-- A parameter is read from its encoding alone. -/
theorem decodeBody_inverts : Inverts decodeBody WellFormed encode :=
  takeUntilNull_inverts.pair takeUntilNull_inverts
    (fun status => by cases status; simp [WellFormed]) fun _ _ _ _ => rfl

end ParameterStatus

namespace BackendKeyData

/-- Two numbers of 32 bits. -/
def encode (data : BackendKeyData) : List UInt8 :=
  encodeU32 data.processId ++ encodeU32 data.secretKey

/-- A key is read from its encoding alone. -/
theorem decodeBody_inverts : Inverts decodeBody (fun _ => True) encode :=
  takeU32_inverts.pair takeU32_inverts (fun data => by cases data; simp) fun _ _ _ _ => rfl

end BackendKeyData

end Postgread.Body
