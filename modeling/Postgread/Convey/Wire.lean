import Postgread.Convey.Automaton
import Postgread.Msg.Wire.ErrorAndNotice
import Postgread.Msg.Wire.Query

/-!
# The wire format of the whole protocol

The layouts of the single messages, put together by `MsgType`. A message `Spells` the bodies that
are decoded to it; only errors and notices have more than one. `exists_packet_iff` says which
messages can stand in a frame at all.
-/

namespace Postgread

open Decoder Body

/-! ## The bodies of a message -/

/-- The body of a message as its decoder expects it. -/
def BackendType.encode : (t : BackendType) → t.Body → List UInt8
  | authentication, msg => Authentication.encode msg
  | backendKeyData, msg => BackendKeyData.encode msg
  | commandComplete, msg => CommandComplete.encode msg
  | dataRow, msg => DataRow.encode msg
  | errorResponse, msg => (ErrorResponse.fields msg).encode
  | negotiateProtocolVersion, msg => NegotiateProtocolVersion.encode msg
  | noticeResponse, msg => (NoticeResponse.fields msg).encode
  | parameterStatus, msg => ParameterStatus.encode msg
  | readyForQuery, msg => ReadyForQuery.encode msg
  | rowDescription, msg => RowDescription.encode msg
  | bindComplete, _ => []
  | emptyQueryResponse, _ => []
  | parseComplete, _ => []
  | portalSuspended, _ => []

/-- The body of a message as its decoder expects it. -/
def FrontendType.encode : (t : FrontendType) → t.Body → List UInt8
  -- the decoder takes the two names in the wrong order
  | bind, msg => (Bind.exchangeNames msg).encode
  | execute, msg => Execute.encode msg
  | gssResponse, msg => GssResponse.encode msg
  | initial, msg => Initial.encode msg
  | parse, msg => Parse.encode msg
  | password, msg => Password.encode msg
  | query, msg => Query.encode msg
  | saslInitialResponse, msg => SaslInitialResponse.encode msg
  | saslResponse, msg => SaslResponse.encode msg
  | sync, _ => []
  | terminate, _ => []

/-- The strings of a message have no zero byte, and its lists and byte strings can be counted. -/
def BackendType.WellFormed : (t : BackendType) → t.Body → Prop
  | authentication, msg => Authentication.WellFormed msg
  | commandComplete, msg => CommandComplete.WellFormed msg
  | dataRow, msg => DataRow.WellFormed msg
  | errorResponse, msg => (ErrorResponse.fields msg).WellFormed
  | negotiateProtocolVersion, msg => NegotiateProtocolVersion.WellFormed msg
  | noticeResponse, msg => (NoticeResponse.fields msg).WellFormed
  | parameterStatus, msg => ParameterStatus.WellFormed msg
  | rowDescription, msg => RowDescription.WellFormed msg
  | _, _ => True

/-- The strings of a message have no zero byte, and its lists and byte strings can be counted. -/
def FrontendType.WellFormed : (t : FrontendType) → t.Body → Prop
  | bind, msg => Bind.WellFormed msg
  | execute, msg => Execute.WellFormed msg
  | initial, msg => Initial.WellFormed msg
  | parse, msg => Parse.WellFormed msg
  | password, msg => Password.WellFormed msg
  | query, msg => Query.WellFormed msg
  | saslInitialResponse, msg => SaslInitialResponse.WellFormed msg
  | _, _ => True

/-- Errors and notices may hold their fields in any order, and a field more than once. -/
def BackendType.IsFieldList : BackendType → Prop
  | errorResponse => True
  | noticeResponse => True
  | _ => False

/-- The bodies that are decoded to a message. -/
def BackendType.Spells : (t : BackendType) → t.Body → List UInt8 → Prop
  | errorResponse, msg, body => (ErrorResponse.fields msg).Spells body
  | noticeResponse, msg, body => (NoticeResponse.fields msg).Spells body
  | t, msg, body => t.WellFormed msg ∧ body = t.encode msg

namespace MsgType

/-- The canonical body of a message. -/
def encode : (t : MsgType) → t.Body → List UInt8
  | backend t => t.encode
  | frontend t => t.encode

/-- The strings of a message have no zero byte, and its lists and byte strings can be counted. -/
def WellFormed : (t : MsgType) → t.Body → Prop
  | backend t => t.WellFormed
  | frontend t => t.WellFormed

/-- The bodies that are decoded to a message. -/
def Spells : (t : MsgType) → t.Body → List UInt8 → Prop
  | backend t, msg, body => t.Spells msg body
  | frontend t, msg, body => t.WellFormed msg ∧ body = t.encode msg

end MsgType

/-- A decoder that wraps its result decodes what it decodes without the wrap. -/
theorem decodes_map_iff {α β : Type} {decode : Decode α} {mk : α → β} {get : β → α}
    (hmk : ∀ a b, mk a = b ↔ a = get b) {body : List UInt8} {b : β} :
    Decodes (mk <$> decode) body b ↔ Decodes decode body (get b) := by
  rw [decodes_iff_parse, decodes_iff_parse, parse_map]
  rcases parse decode body with e | ⟨a, r⟩
  · simp
  · simp [hmk]

/-- The decoder of a backend message inverts its encoding, type by type. -/
theorem BackendType.decodes_iff_spells (t : BackendType) (body : List UInt8) (msg : t.Body) :
    Decodes MsgDecode.decodeBody body msg ↔ t.Spells msg body := by
  cases t with
  | authentication => exact decodes_iff_of_invertsAt Authentication.decodeBody_invertsAt
  | backendKeyData =>
    exact decodes_iff_of_invertsAt (BackendKeyData.decodeBody_inverts.invertsAt [])
  | bindComplete => exact decodes_iff_of_invertsAt (BindComplete.decodeBody_inverts.invertsAt [])
  | commandComplete =>
    exact decodes_iff_of_invertsAt (CommandComplete.decodeBody_inverts.invertsAt [])
  | dataRow => exact decodes_iff_of_invertsAt (DataRow.decodeBody_inverts.invertsAt [])
  | emptyQueryResponse =>
    exact decodes_iff_of_invertsAt (EmptyQueryResponse.decodeBody_inverts.invertsAt [])
  | errorResponse =>
    exact (decodes_map_iff fun a b => by cases b; simp).trans
      ErrorOrNoticeFields.decodes_iff_spells
  | negotiateProtocolVersion =>
    exact decodes_iff_of_invertsAt (NegotiateProtocolVersion.decodeBody_inverts.invertsAt [])
  | noticeResponse =>
    exact (decodes_map_iff fun a b => by cases b; simp).trans
      ErrorOrNoticeFields.decodes_iff_spells
  | parameterStatus =>
    exact decodes_iff_of_invertsAt (ParameterStatus.decodeBody_inverts.invertsAt [])
  | parseComplete => exact decodes_iff_of_invertsAt (ParseComplete.decodeBody_inverts.invertsAt [])
  | portalSuspended =>
    exact decodes_iff_of_invertsAt (PortalSuspended.decodeBody_inverts.invertsAt [])
  | readyForQuery => exact decodes_iff_of_invertsAt (ReadyForQuery.decodeBody_inverts.invertsAt [])
  | rowDescription =>
    exact decodes_iff_of_invertsAt (RowDescription.decodeBody_inverts.invertsAt [])

/-- The decoder of a frontend message inverts its encoding, type by type. -/
theorem FrontendType.decodes_iff (t : FrontendType) (body : List UInt8) (msg : t.Body) :
    Decodes MsgDecode.decodeBody body msg ↔ t.WellFormed msg ∧ body = t.encode msg := by
  cases t with
  | bind => exact decodes_iff_of_invertsAt (Bind.decodeBody_inverts.invertsAt [])
  | execute => exact decodes_iff_of_invertsAt (Execute.decodeBody_inverts.invertsAt [])
  | gssResponse => exact decodes_iff_of_invertsAt GssResponse.decodeBody_invertsAt
  | initial => exact decodes_iff_of_invertsAt (Initial.decodeBody_inverts.invertsAt [])
  | parse => exact decodes_iff_of_invertsAt (Parse.decodeBody_inverts.invertsAt [])
  | password => exact decodes_iff_of_invertsAt (Password.decodeBody_inverts.invertsAt [])
  | query => exact decodes_iff_of_invertsAt (Query.decodeBody_inverts.invertsAt [])
  | saslInitialResponse =>
    exact decodes_iff_of_invertsAt (SaslInitialResponse.decodeBody_inverts.invertsAt [])
  | saslResponse => exact decodes_iff_of_invertsAt SaslResponse.decodeBody_invertsAt
  | sync => exact decodes_iff_of_invertsAt (Sync.decodeBody_inverts.invertsAt [])
  | terminate => exact decodes_iff_of_invertsAt (Terminate.decodeBody_inverts.invertsAt [])

/-- The canonical body, if the message is well formed, and no other unless it is a list of fields;
there is none that is shorter. -/
theorem BackendType.spells_iff (t : BackendType) (msg : t.Body) :
    (t.WellFormed msg → t.Spells msg (t.encode msg)) ∧ ∀ body, t.Spells msg body →
      t.WellFormed msg ∧ (t.encode msg).length ≤ body.length ∧
      (¬ t.IsFieldList → body = t.encode msg) := by
  cases t with
  | errorResponse =>
    exact ⟨ErrorOrNoticeFields.spells_encode, fun _ h =>
      ⟨h.wellFormed, h.length_encode_le, fun hlist => absurd trivial hlist⟩⟩
  | noticeResponse =>
    exact ⟨ErrorOrNoticeFields.spells_encode, fun _ h =>
      ⟨h.wellFormed, h.length_encode_le, fun hlist => absurd trivial hlist⟩⟩
  | _ => exact ⟨fun h => ⟨h, rfl⟩, fun _ h => ⟨h.1, h.2 ▸ le_rfl, fun _ => h.2⟩⟩

namespace MsgType

/-- The decoder of a type accepts the spellings of its messages and nothing else. -/
theorem decodes_iff_spells (t : MsgType) (body : List UInt8) (msg : t.Body) :
    Decodes MsgDecode.decodeBody body msg ↔ t.Spells msg body := by
  cases t with
  | backend t => exact t.decodes_iff_spells body msg
  | frontend t => exact t.decodes_iff body msg

/-- Only the backend sends lists of fields. -/
def IsFieldList : MsgType → Prop
  | backend t => t.IsFieldList
  | frontend _ => False

/-- The canonical body of a well-formed message is one of its spellings. -/
theorem spells_encode {t : MsgType} {msg : t.Body} (h : t.WellFormed msg) :
    t.Spells msg (t.encode msg) := by
  cases t with
  | backend t => exact (t.spells_iff msg).1 h
  | frontend t => exact ⟨h, rfl⟩

variable {t : MsgType} {msg : t.Body} {body : List UInt8}

/-- Only a message that is well formed can be spelled. -/
theorem Spells.wellFormed (h : t.Spells msg body) : t.WellFormed msg := by
  cases t with
  | backend t => exact ((t.spells_iff msg).2 body h).1
  | frontend t => exact h.1

/-- The canonical body is the shortest. -/
theorem Spells.length_encode_le (h : t.Spells msg body) : (t.encode msg).length ≤ body.length := by
  cases t with
  | backend t => exact ((t.spells_iff msg).2 body h).2.1
  | frontend t => exact h.2 ▸ le_rfl

/-- But for the lists of fields a message has one spelling. -/
theorem Spells.eq_encode (h : t.Spells msg body) (hlist : ¬ t.IsFieldList) :
    body = t.encode msg := by
  cases t with
  | backend t => exact ((t.spells_iff msg).2 body h).2.2 hlist
  | frontend t => exact h.2

end MsgType

namespace MsgType

/-- A message that can be sent can be sent in its canonical body. -/
theorem exists_spells_iff {t : MsgType} {msg : t.Body} :
    (∃ body, t.Spells msg body ∧ Fits t.Body body) ↔
      t.WellFormed msg ∧ Fits t.Body (t.encode msg) := by
  constructor
  · rintro ⟨body, hbody, hfits⟩
    have hlen := hbody.length_encode_le
    refine ⟨hbody.wellFormed, ?_⟩
    unfold Fits at hfits ⊢
    omega
  · rintro ⟨hwell, hfits⟩
    exact ⟨_, spells_encode hwell, hfits⟩

/-- A read returns a message if and only if the stream brings a spelling of it in a frame. -/
theorem readMsg_eq_ok_iff_spells (t : MsgType) (overflowChecks : Bool) (s : Stream)
    (bytes : List UInt8) (msg : t.Body) (r : Reader UInt8 IoError) :
    readMsg t.Body overflowChecks ⟨s, []⟩ = (.ok ⟨bytes, .ok msg⟩, r) ↔
      ∃ body, t.Spells msg body ∧ Fits t.Body body ∧ Brings s (lengthAndBody body) r.script ∧
        r.taken = lengthAndBody body ∧ bytes = frameBytes t.typeByteOpt body := by
  have hspells (body : List UInt8) :
      msgResult t.Body body = .ok msg ↔ t.Spells msg body :=
    msgResult_eq_ok.trans (t.decodes_iff_spells body msg)
  rw [readMsg_eq_ok]
  constructor
  · rintro ⟨body, hfits, hbrings, htaken, hdata⟩
    obtain ⟨rfl, hresult⟩ : bytes = frameBytes (MsgDecode.typeByteOpt t.Body) body ∧
        .ok msg = msgResult t.Body body := by simpa using hdata
    exact ⟨body, (hspells body).mp hresult.symm, hfits, hbrings, htaken, rfl⟩
  · rintro ⟨body, hbody, hfits, hbrings, htaken, rfl⟩
    exact ⟨body, hfits, hbrings, htaken, by rw [(hspells body).mpr hbody]; rfl⟩

/-- The wire format of every message type. A read returns a message if and only if the stream brings
one of its frames. The message is well formed then, its canonical frame is among these frames if any
of them fits into 32 bits, none is shorter, and there is no other unless the message is an error or
a notice. -/
theorem wire_format (t : MsgType) (msg : t.Body) :
    (∀ overflowChecks s bytes r,
      readMsg t.Body overflowChecks ⟨s, []⟩ = (.ok ⟨bytes, .ok msg⟩, r) ↔
        ∃ body, t.Spells msg body ∧ Fits t.Body body ∧ Brings s (lengthAndBody body) r.script ∧
          r.taken = lengthAndBody body ∧ bytes = frameBytes t.typeByteOpt body) ∧
    (∀ body, t.Spells msg body → t.WellFormed msg ∧ (t.encode msg).length ≤ body.length ∧
      (¬ t.IsFieldList → body = t.encode msg)) ∧
    (t.WellFormed msg → t.Spells msg (t.encode msg)) ∧
    ((∃ body, t.Spells msg body ∧ Fits t.Body body) ↔
      t.WellFormed msg ∧ Fits t.Body (t.encode msg)) :=
  ⟨fun overflowChecks s bytes r => t.readMsg_eq_ok_iff_spells overflowChecks s bytes msg r,
    fun _ h => ⟨h.wellFormed, h.length_encode_le, h.eq_encode⟩, spells_encode, exists_spells_iff⟩

end MsgType

/-! ## Messages in their frames -/

/-- What a message holds. -/
def BackendMsg.body : (msg : BackendMsg) → msg.type.Body
  | authentication msg => msg
  | backendKeyData msg => msg
  | bindComplete msg => msg
  | commandComplete msg => msg
  | dataRow msg => msg
  | emptyQueryResponse msg => msg
  | errorResponse msg => msg
  | negotiateProtocolVersion msg => msg
  | noticeResponse msg => msg
  | parameterStatus msg => msg
  | parseComplete msg => msg
  | portalSuspended msg => msg
  | readyForQuery msg => msg
  | rowDescription msg => msg

/-- What a message holds. -/
def FrontendMsg.body : (msg : FrontendMsg) → msg.type.Body
  | bind msg => msg
  | execute msg => msg
  | gssResponse msg => msg
  | initial msg => msg
  | parse msg => msg
  | password msg => msg
  | query msg => msg
  | saslInitialResponse msg => msg
  | saslResponse msg => msg
  | sync msg => msg
  | terminate msg => msg

namespace Message

/-- What a message holds. -/
def body : (msg : Message) → msg.type.Body
  | backend msg => msg.body
  | frontend msg => msg.body

/-- A message is its type and what it holds. -/
theorem wrap_body (msg : Message) : msg.type.wrap msg.body = msg := by
  rcases msg with msg | msg <;> cases msg <;> rfl

/-- The side that sends the message. -/
def side (msg : Message) : Side := msg.type.side

/-- The strings of the message have no zero byte, and its lists and byte strings can be counted. -/
def WellFormed (msg : Message) : Prop := msg.type.WellFormed msg.body

/-- The bodies that are decoded to the message. -/
def Spells (msg : Message) (body : List UInt8) : Prop := msg.type.Spells msg.body body

/-- The canonical body of the message. -/
def encode (msg : Message) : List UInt8 := msg.type.encode msg.body

/-- The frame of the message, with its canonical body. -/
def frame (msg : Message) : List UInt8 := frameBytes msg.type.typeByteOpt msg.encode

end Message

/-- The message of a packet has the type of the packet. -/
theorem Packet.message_type (p : Packet) : p.message.type = p.type := by
  rcases p with ⟨t | t, body, msg, fits, decodes⟩ <;> cases t <;> rfl

/-- The body of a packet is one of those of its message. -/
theorem Packet.spells (p : Packet) : p.message.Spells p.body := by
  have hspells : p.type.Spells p.msg p.body :=
    (p.type.decodes_iff_spells p.body p.msg).mp (msgResult_eq_ok.mp p.decodes)
  rcases p with ⟨t | t, body, msg, fits, decodes⟩ <;> cases t <;> exact hspells

/-- The frame of a packet is that of its message. -/
theorem Packet.bytes_eq (p : Packet) : p.bytes = frameBytes p.message.type.typeByteOpt p.body := by
  rw [p.message_type, Packet.bytes]

/-- A message in a frame that fits is a packet. -/
theorem exists_packet_of_spells {msg : Message} {body : List UInt8} (h : msg.Spells body)
    (hfits : Fits msg.type.Body body) :
    ∃ p : Packet, p.message = msg ∧ p.bytes = frameBytes msg.type.typeByteOpt body :=
  ⟨⟨msg.type, body, msg.body, hfits,
    msgResult_eq_ok.mpr ((msg.type.decodes_iff_spells body msg.body).mpr h)⟩, msg.wrap_body, rfl⟩

/-- A message can stand in a frame if it is well formed and its canonical frame fits. -/
theorem exists_packet_iff (msg : Message) :
    (∃ p : Packet, p.message = msg) ↔ msg.WellFormed ∧ Fits msg.type.Body msg.encode := by
  rw [Message.WellFormed, Message.encode, ← MsgType.exists_spells_iff]
  constructor
  · rintro ⟨p, rfl⟩
    exact ⟨p.body, p.spells, p.message_type ▸ p.fits⟩
  · rintro ⟨body, hbody, hfits⟩
    obtain ⟨p, hp, -⟩ := exists_packet_of_spells hbody hfits
    exact ⟨p, hp⟩

end Postgread
