import Postgread.Msg.Parts

/-!
# Messages of the start-up and of the authentication

Each message with the decoder of its body, in the order of the conversation: the initial packet, the
authentication requests, the answers to them, and what the backend tells before it is ready.
-/

namespace Postgread.Body

open Decoder BytesSource

/-! ## The initial packet -/

/-- A request to cancel the query of another session, with the key of that session. -/
structure Cancel where
  processId : UInt32
  secretKey : UInt32
deriving DecidableEq, Repr

/-- The version of the protocol. -/
structure Version where
  major : UInt16
  minor : UInt16
deriving DecidableEq, Repr

/-- A parameter of a session. -/
structure StartupParam where
  name : List UInt8
  value : List UInt8
deriving DecidableEq, Repr

/-- A request to start a session. -/
structure Startup where
  version : Version
  params : List StartupParam
deriving DecidableEq, Repr

/-- The initial packet, which has no type byte. -/
inductive Initial where
  | cancel (cancel : Cancel)
  | tls
  | startup (startup : Startup)
deriving DecidableEq, Repr

/-- Two numbers of 16 bits. -/
def Version.decode : Decode Version := do
  let major ← takeU16
  let minor ← takeU16
  pure { major, minor }

/-- One round of the loop over the parameters: an empty name ends it. -/
def StartupParam.decodeNext (params : List StartupParam) :
    Decode (ForInStep (List StartupParam)) := do
  let name ← takeUntilNull
  if name.isEmpty then
    pure (.done params)
  else
    let value ← takeUntilNull
    pure (.yield (params ++ [⟨name, value⟩]))

/-- The parameters up to the empty name that ends them. -/
def StartupParam.decodeMany : Decode (List StartupParam) :=
  loop StartupParam.decodeNext []

/-- Two versions that no protocol has stand for the requests to cancel and for TLS. -/
def Initial.decodeBody : Decode Initial := do
  match ← Version.decode with
  | { major := 1234, minor := 5678 } =>
    let processId ← takeU32
    let secretKey ← takeU32
    pure (.cancel { processId, secretKey })
  | { major := 1234, minor := 5679 } => pure .tls
  | version =>
    let params ← StartupParam.decodeMany
    pure (.startup { version, params })

instance : MsgDecode Initial := ⟨none, Initial.decodeBody⟩

/-- A version is its four bytes. -/
theorem Version.decode_framed : Framed Version.decode :=
  takeU16_framed.bind fun _ => takeU16_framed.bind fun _ => .pure _

/-- A round takes a name with its value, or the empty name at the end. -/
theorem StartupParam.decodeNext_framed (params : List StartupParam) :
    Framed (decodeNext params) := by
  refine takeUntilNull_framed.bind fun name => ?_
  split
  · exact .pure _
  · exact takeUntilNull_framed.bind fun _ => .pure _

/-- Every round takes the zero byte of its name. -/
theorem StartupParam.decodeNext_consumes : Consumes decodeNext := by
  refine Consumes.of_eats fun params => takeUntilNull_eats.bind fun name => ?_
  split
  · exact .pure _
  · exact takeUntilNull_framed.bind fun _ => .pure _

/-- The parameters mark their end by an empty name. -/
theorem StartupParam.decodeMany_framed : Framed StartupParam.decodeMany :=
  Framed.loop decodeNext_framed decodeNext_consumes []

/-- All three packets mark their own ends. -/
theorem Initial.decodeBody_framed : Framed Initial.decodeBody := by
  refine Version.decode_framed.bind fun version => ?_
  split
  · exact takeU32_framed.bind fun _ => takeU32_framed.bind fun _ => .pure _
  · exact .pure _
  · exact StartupParam.decodeMany_framed.bind fun _ => .pure _

/-! ## Requests and answers of the authentication -/

/-- What the backend asks for before a session starts, or says about it. -/
inductive Authentication where
  | cleartextPassword
  | gss
  | gssContinue (authData : List UInt8)
  | kerberosV5
  | md5Password (salt : Vector UInt8 4)
  | ok
  | sasl (authMechanisms : List (List UInt8))
  | saslContinue (challengeData : List UInt8)
  | saslFinal (additionalData : List UInt8)
  | scmCredential
  | sspi
deriving DecidableEq, Repr

namespace Authentication

/-- The data reach to the end of the body. -/
def decodeGssContinue : Decode Authentication := gssContinue <$> takeRest

/-- The salt has four bytes. -/
def decodeMd5Password : Decode Authentication := md5Password <$> takeSlice 4

/-- One round of the loop over the mechanisms: an empty name ends it. -/
def decodeSaslNext (authMechanisms : List (List UInt8)) :
    Decode (ForInStep (List (List UInt8))) := do
  let mech ← takeUntilNull
  if mech.isEmpty then
    pure (.done authMechanisms)
  else
    pure (.yield (authMechanisms ++ [mech]))

/-- The mechanisms up to the empty name that ends them. -/
def decodeSasl : Decode Authentication := sasl <$> loop decodeSaslNext []

/-- The challenge reaches to the end of the body. -/
def decodeSaslContinue : Decode Authentication := saslContinue <$> takeRest

/-- The data reach to the end of the body. -/
def decodeSaslFinal : Decode Authentication := saslFinal <$> takeRest

/-- The number in front tells which request it is. -/
def decodeBody : Decode Authentication := do
  match ← takeU32 with
  | 0 => pure ok
  | 2 => pure kerberosV5
  | 3 => pure cleartextPassword
  | 5 => decodeMd5Password
  | 6 => pure scmCredential
  | 7 => pure gss
  | 8 => decodeGssContinue
  | 9 => pure sspi
  | 10 => decodeSasl
  | 11 => decodeSaslContinue
  | 12 => decodeSaslFinal
  | x => Proc.fail (.unknown s!"has unknown sub-type {x}")

instance : MsgDecode Authentication := ⟨some .authentication, decodeBody⟩

/-- A round takes the name of a mechanism, or the empty name at the end. -/
theorem decodeSaslNext_framed (authMechanisms : List (List UInt8)) :
    Framed (decodeSaslNext authMechanisms) := by
  refine takeUntilNull_framed.bind fun name => ?_
  split
  · exact .pure _
  · exact .pure _

/-- Every round takes the zero byte of its name. -/
theorem decodeSaslNext_consumes : Consumes decodeSaslNext := by
  refine Consumes.of_eats fun params => takeUntilNull_eats.bind fun name => ?_
  split
  · exact .pure _
  · exact .pure _

/-- The mechanisms mark their end by an empty name. -/
theorem decodeSasl_framed : Framed decodeSasl :=
  (Framed.loop decodeSaslNext_framed decodeSaslNext_consumes []).map _

/-- The forms with raw data take all that is left, so an authentication is only stable. -/
theorem decodeBody_stable : Stable decodeBody := by
  refine Stable.bind takeU32_framed fun x => ?_
  have htakeRest {β : Type} (f : List UInt8 → β) : Stable (f <$> takeRest) :=
    takeRest_stable.map f
  split
  · exact (Framed.pure _).toStable
  · exact (Framed.pure _).toStable
  · exact (Framed.pure _).toStable
  · exact (takeSlice_framed 4).toStable.map _
  · exact (Framed.pure _).toStable
  · exact (Framed.pure _).toStable
  · exact htakeRest _
  · exact (Framed.pure _).toStable
  · exact decodeSasl_framed.toStable
  · exact htakeRest _
  · exact htakeRest _
  · exact (Framed.fail (isFinal_unknown _)).toStable

/-- The forms with raw data. -/
def TakesRest : Authentication → Prop
  | gssContinue _ | saslContinue _ | saslFinal _ => True
  | _ => False

/-- All other forms mark their end. -/
theorem decodeBody_exact : Exact decodeBody fun a => ¬ TakesRest a := by
  refine Exact.bind takeU32_framed (fun x => ?_) fun x => ?_
  all_goals split
  all_goals first
    | exact (Framed.pure _).toLocal
    | exact (Framed.pure _).exact _
    | exact decodeSasl_framed.toLocal
    | exact decodeSasl_framed.exact _
    | exact takeRest_stable.toLocal.map _
    | exact exact_map_of_not fun _ h => h trivial
    | exact ((takeSlice_framed 4).map _).toLocal
    | exact ((takeSlice_framed 4).map _).exact _
    | exact (Framed.fail (isFinal_unknown _)).toLocal
    | exact (Framed.fail (isFinal_unknown _)).exact _

end Authentication

/-- A password, in the clear or hashed. -/
structure Password where
  password : List UInt8
deriving DecidableEq, Repr

/-- The password up to its zero byte. -/
def Password.decodeBody : Decode Password := Password.mk <$> takeUntilNull

instance : MsgDecode Password := ⟨some .gssResponseOrPasswordOrSaslResponses, Password.decodeBody⟩

/-- A password marks its own end. -/
theorem Password.decodeBody_framed : Framed Password.decodeBody :=
  takeUntilNull_framed.map _

/-- An answer of a GSSAPI or SSPI client. -/
structure GssResponse where
  data : List UInt8
deriving DecidableEq, Repr

/-- The answer reaches to the end of the body. -/
def GssResponse.decodeBody : Decode GssResponse := GssResponse.mk <$> takeRest

instance : MsgDecode GssResponse :=
  ⟨some .gssResponseOrPasswordOrSaslResponses, GssResponse.decodeBody⟩

/-- A longer body is a longer answer. -/
theorem GssResponse.decodeBody_stable : Stable GssResponse.decodeBody :=
  takeRest_stable.map _

/-- The first answer of a SASL client, with the mechanism that it has chosen. -/
structure SaslInitialResponse where
  selectedMechanism : List UInt8
  mechanismData : Option (List UInt8)
deriving DecidableEq, Repr

/-- The length of the answer is -1 if there is none; other negative lengths are refused. -/
def SaslInitialResponse.decodeBody : Decode SaslInitialResponse := do
  let selectedMechanism ← takeUntilNull
  let len := (← takeU32).toInt32
  if len = -1 then
    pure ⟨selectedMechanism, none⟩
  else if 0 ≤ len then
    let mechanismData ← takeVec len.toInt.toNat
    pure ⟨selectedMechanism, some mechanismData⟩
  else
    Proc.fail (.incorrect s!"mechanism data len should be >= -1 but is {len}")

instance : MsgDecode SaslInitialResponse :=
  ⟨some .gssResponseOrPasswordOrSaslResponses, SaslInitialResponse.decodeBody⟩

/-- Such an answer marks its own end. -/
theorem SaslInitialResponse.decodeBody_framed : Framed SaslInitialResponse.decodeBody := by
  refine takeUntilNull_framed.bind fun _ => takeU32_framed.bind fun len => ?_
  dsimp only
  split
  · exact .pure _
  split
  · exact (takeVec_framed _).bind fun _ => .pure _
  · exact .fail (isFinal_incorrect _)

/-- A further answer of a SASL client. -/
structure SaslResponse where
  mechanismData : List UInt8
deriving DecidableEq, Repr

/-- The answer reaches to the end of the body. -/
def SaslResponse.decodeBody : Decode SaslResponse := SaslResponse.mk <$> takeRest

instance : MsgDecode SaslResponse :=
  ⟨some .gssResponseOrPasswordOrSaslResponses, SaslResponse.decodeBody⟩

/-- A longer body is a longer answer. -/
theorem SaslResponse.decodeBody_stable : Stable SaslResponse.decodeBody :=
  takeRest_stable.map _

/-! ## What the backend tells before it is ready -/

/-- The newest version that the backend supports, and the options that it does not know. -/
structure NegotiateProtocolVersion where
  newestBackendMinor : UInt32
  unrecognizedOptions : List Text
deriving DecidableEq, Repr

/-- The options behind their number, which has 32 bits here. -/
def NegotiateProtocolVersion.decodeBody : Decode NegotiateProtocolVersion := do
  let newestBackendMinor ← takeU32
  let unrecognizedOptions ← decodeVec (← takeU32).toNat
  pure { newestBackendMinor, unrecognizedOptions }

instance : MsgDecode NegotiateProtocolVersion :=
  ⟨some .negotiateProtocolVersion, NegotiateProtocolVersion.decodeBody⟩

/-- Such a message marks its own end. -/
theorem NegotiateProtocolVersion.decodeBody_framed : Framed NegotiateProtocolVersion.decodeBody :=
  takeU32_framed.bind fun _ => takeU32_framed.bind fun _ =>
    (decodeVec_framed _).bind fun _ => .pure _

/-- The value of a parameter of the session. -/
structure ParameterStatus where
  name : List UInt8
  value : List UInt8
deriving DecidableEq, Repr

/-- A name and a value. -/
def ParameterStatus.decodeBody : Decode ParameterStatus := do
  let name ← takeUntilNull
  let value ← takeUntilNull
  pure { name, value }

instance : MsgDecode ParameterStatus := ⟨some .parameterStatusOrSync, ParameterStatus.decodeBody⟩

/-- A parameter marks its own end. -/
theorem ParameterStatus.decodeBody_framed : Framed ParameterStatus.decodeBody :=
  takeUntilNull_framed.bind fun _ => takeUntilNull_framed.bind fun _ => .pure _

/-- The key with which this session can be cancelled. -/
structure BackendKeyData where
  processId : UInt32
  secretKey : UInt32
deriving DecidableEq, Repr

/-- Two numbers of 32 bits. -/
def BackendKeyData.decodeBody : Decode BackendKeyData := do
  let processId ← takeU32
  let secretKey ← takeU32
  pure { processId, secretKey }

instance : MsgDecode BackendKeyData := ⟨some .backendKeyData, BackendKeyData.decodeBody⟩

/-- A key is its eight bytes. -/
theorem BackendKeyData.decodeBody_framed : Framed BackendKeyData.decodeBody :=
  takeU32_framed.bind fun _ => takeU32_framed.bind fun _ => .pure _

end Postgread.Body
