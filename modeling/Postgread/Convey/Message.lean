import Postgread.Msg.Body.ErrorAndNotice
import Postgread.Msg.Body.Query
import Postgread.Msg.Body.Startup
import Postgread.Msg.Util.Read

/-!
# Sides, states, messages and errors of a conversation

The public types of `convey.rs`. A `MsgType` names one of the message types that the proxy conveys,
with the side that sends it; `Body` is the type of its messages and `wrap` the constructor that the
callback receives.
-/

namespace Postgread

open Decoder Body

/-- The two sides of a conversation. -/
inductive Side where
  | backend
  | frontend
deriving DecidableEq, Repr

/-- The side that a message goes on to. -/
def Side.other : Side → Side
  | .backend => .frontend
  | .frontend => .backend

/-- The other side of the other side is the side itself. -/
@[simp] theorem Side.other_other (side : Side) : side.other.other = side := by
  cases side <;> rfl

/-- The other side is another one. -/
theorem Side.other_ne (side : Side) : side.other ≠ side := by
  cases side <;> decide

/-- There is no third side. -/
theorem Side.eq_or_eq_other (side side' : Side) : side' = side ∨ side' = side.other := by
  cases side <;> cases side' <;> decide

/-- From the backend's point of view: `askedX` means that the backend asked for X, `gotX` that it
got X from the frontend. -/
inductive State where
  | abortedExtendedQuery
  | abortedParsingOrBinding
  | abortedSimpleQuery
  | answeringToExtendedQuery
  | answeringToSimpleQuery
  | askedCleartextPassword
  | askedGssResponse
  | askedMd5Password
  | askedSaslInitialResponse
  | askedSaslResponse
  | authenticated
  | bound
  | completedExtendedQuery
  | completedSimpleCommand
  | executingExtendedQuery
  | finishedSasl
  | gotAnySaslResponse
  | gotBinding
  | gotCleartextPassword
  | gotGssResponse
  | gotMd5Password
  | gotPreparedStatement
  | gotSimpleQuery
  | gotStartup
  | gotSync
  | readyForQuery
  | seenEmptyExtendedQuery
  | seenEmptySimpleQuery
  | sentAllBackendParams
  | suspendedExtendedQuery
deriving DecidableEq, Repr

/-- What is wrong with a request for TLS or a handshake. -/
inductive TlsError where
  | handshakeDisrupted
  | tlsRequestedInsideTls
deriving DecidableEq, Repr

/-- The messages of the backend. -/
inductive BackendMsg where
  | authentication (msg : Authentication)
  | backendKeyData (msg : BackendKeyData)
  | bindComplete (msg : BindComplete)
  | commandComplete (msg : CommandComplete)
  | dataRow (msg : DataRow)
  | emptyQueryResponse (msg : EmptyQueryResponse)
  | errorResponse (msg : ErrorResponse)
  | negotiateProtocolVersion (msg : NegotiateProtocolVersion)
  | noticeResponse (msg : NoticeResponse)
  | parameterStatus (msg : ParameterStatus)
  | parseComplete (msg : ParseComplete)
  | portalSuspended (msg : PortalSuspended)
  | readyForQuery (msg : ReadyForQuery)
  | rowDescription (msg : RowDescription)
deriving DecidableEq, Repr

/-- The messages of the frontend. -/
inductive FrontendMsg where
  | bind (msg : Bind)
  | execute (msg : Execute)
  | gssResponse (msg : GssResponse)
  | initial (msg : Initial)
  | parse (msg : Parse)
  | password (msg : Password)
  | query (msg : Query)
  | saslInitialResponse (msg : SaslInitialResponse)
  | saslResponse (msg : SaslResponse)
  | sync (msg : Sync)
  | terminate (msg : Terminate)
deriving DecidableEq, Repr

/-- What the callback receives. -/
inductive Message where
  | backend (msg : BackendMsg)
  | frontend (msg : FrontendMsg)
deriving DecidableEq, Repr

/-- The types of the messages that the backend sends. -/
inductive BackendType where
  | authentication
  | backendKeyData
  | bindComplete
  | commandComplete
  | dataRow
  | emptyQueryResponse
  | errorResponse
  | negotiateProtocolVersion
  | noticeResponse
  | parameterStatus
  | parseComplete
  | portalSuspended
  | readyForQuery
  | rowDescription
deriving DecidableEq, Repr

/-- The types of the messages that the frontend sends. -/
inductive FrontendType where
  | bind
  | execute
  | gssResponse
  | initial
  | parse
  | password
  | query
  | saslInitialResponse
  | saslResponse
  | sync
  | terminate
deriving DecidableEq, Repr

/-- The messages of a type. -/
@[reducible] def BackendType.Body : BackendType → Type
  | authentication => Authentication
  | backendKeyData => BackendKeyData
  | bindComplete => BindComplete
  | commandComplete => CommandComplete
  | dataRow => DataRow
  | emptyQueryResponse => EmptyQueryResponse
  | errorResponse => ErrorResponse
  | negotiateProtocolVersion => NegotiateProtocolVersion
  | noticeResponse => NoticeResponse
  | parameterStatus => ParameterStatus
  | parseComplete => ParseComplete
  | portalSuspended => PortalSuspended
  | readyForQuery => ReadyForQuery
  | rowDescription => RowDescription

/-- The messages of a type. -/
@[reducible] def FrontendType.Body : FrontendType → Type
  | bind => Bind
  | execute => Execute
  | gssResponse => GssResponse
  | initial => Initial
  | parse => Parse
  | password => Password
  | query => Query
  | saslInitialResponse => SaslInitialResponse
  | saslResponse => SaslResponse
  | sync => Sync
  | terminate => Terminate

instance BackendType.msgDecode : (t : BackendType) → MsgDecode t.Body
  | authentication => inferInstanceAs (MsgDecode Authentication)
  | backendKeyData => inferInstanceAs (MsgDecode BackendKeyData)
  | bindComplete => inferInstanceAs (MsgDecode BindComplete)
  | commandComplete => inferInstanceAs (MsgDecode CommandComplete)
  | dataRow => inferInstanceAs (MsgDecode DataRow)
  | emptyQueryResponse => inferInstanceAs (MsgDecode EmptyQueryResponse)
  | errorResponse => inferInstanceAs (MsgDecode ErrorResponse)
  | negotiateProtocolVersion => inferInstanceAs (MsgDecode NegotiateProtocolVersion)
  | noticeResponse => inferInstanceAs (MsgDecode NoticeResponse)
  | parameterStatus => inferInstanceAs (MsgDecode ParameterStatus)
  | parseComplete => inferInstanceAs (MsgDecode ParseComplete)
  | portalSuspended => inferInstanceAs (MsgDecode PortalSuspended)
  | readyForQuery => inferInstanceAs (MsgDecode ReadyForQuery)
  | rowDescription => inferInstanceAs (MsgDecode RowDescription)

instance FrontendType.msgDecode : (t : FrontendType) → MsgDecode t.Body
  | bind => inferInstanceAs (MsgDecode Bind)
  | execute => inferInstanceAs (MsgDecode Execute)
  | gssResponse => inferInstanceAs (MsgDecode GssResponse)
  | initial => inferInstanceAs (MsgDecode Initial)
  | parse => inferInstanceAs (MsgDecode Parse)
  | password => inferInstanceAs (MsgDecode Password)
  | query => inferInstanceAs (MsgDecode Query)
  | saslInitialResponse => inferInstanceAs (MsgDecode SaslInitialResponse)
  | saslResponse => inferInstanceAs (MsgDecode SaslResponse)
  | sync => inferInstanceAs (MsgDecode Sync)
  | terminate => inferInstanceAs (MsgDecode Terminate)

/-- The constructor of the messages of a type. -/
def BackendType.wrap : (t : BackendType) → t.Body → BackendMsg
  | authentication, msg => .authentication msg
  | backendKeyData, msg => .backendKeyData msg
  | bindComplete, msg => .bindComplete msg
  | commandComplete, msg => .commandComplete msg
  | dataRow, msg => .dataRow msg
  | emptyQueryResponse, msg => .emptyQueryResponse msg
  | errorResponse, msg => .errorResponse msg
  | negotiateProtocolVersion, msg => .negotiateProtocolVersion msg
  | noticeResponse, msg => .noticeResponse msg
  | parameterStatus, msg => .parameterStatus msg
  | parseComplete, msg => .parseComplete msg
  | portalSuspended, msg => .portalSuspended msg
  | readyForQuery, msg => .readyForQuery msg
  | rowDescription, msg => .rowDescription msg

/-- The constructor of the messages of a type. -/
def FrontendType.wrap : (t : FrontendType) → t.Body → FrontendMsg
  | bind, msg => .bind msg
  | execute, msg => .execute msg
  | gssResponse, msg => .gssResponse msg
  | initial, msg => .initial msg
  | parse, msg => .parse msg
  | password, msg => .password msg
  | query, msg => .query msg
  | saslInitialResponse, msg => .saslInitialResponse msg
  | saslResponse, msg => .saslResponse msg
  | sync, msg => .sync msg
  | terminate, msg => .terminate msg

/-- A message type with the side that sends it. -/
inductive MsgType where
  | backend (t : BackendType)
  | frontend (t : FrontendType)
deriving DecidableEq, Repr

namespace MsgType

/-- The side that sends the messages of a type. -/
def side : MsgType → Side
  | backend _ => .backend
  | frontend _ => .frontend

/-- The messages of a type. -/
@[reducible] def Body : MsgType → Type
  | backend t => t.Body
  | frontend t => t.Body

instance : (t : MsgType) → MsgDecode t.Body
  | backend t => t.msgDecode
  | frontend t => t.msgDecode

/-- The constructor of the messages of a type. -/
def wrap : (t : MsgType) → t.Body → Message
  | backend t, msg => .backend (t.wrap msg)
  | frontend t, msg => .frontend (t.wrap msg)

/-- The type byte of the messages of a type. Only the initial packet has none. -/
def typeByteOpt (t : MsgType) : Option TypeByte := MsgDecode.typeByteOpt t.Body

end MsgType

/-- The type of a message. -/
def BackendMsg.type : BackendMsg → BackendType
  | authentication _ => .authentication
  | backendKeyData _ => .backendKeyData
  | bindComplete _ => .bindComplete
  | commandComplete _ => .commandComplete
  | dataRow _ => .dataRow
  | emptyQueryResponse _ => .emptyQueryResponse
  | errorResponse _ => .errorResponse
  | negotiateProtocolVersion _ => .negotiateProtocolVersion
  | noticeResponse _ => .noticeResponse
  | parameterStatus _ => .parameterStatus
  | parseComplete _ => .parseComplete
  | portalSuspended _ => .portalSuspended
  | readyForQuery _ => .readyForQuery
  | rowDescription _ => .rowDescription

/-- The type of a message. -/
def FrontendMsg.type : FrontendMsg → FrontendType
  | bind _ => .bind
  | execute _ => .execute
  | gssResponse _ => .gssResponse
  | initial _ => .initial
  | parse _ => .parse
  | password _ => .password
  | query _ => .query
  | saslInitialResponse _ => .saslInitialResponse
  | saslResponse _ => .saslResponse
  | sync _ => .sync
  | terminate _ => .terminate

/-- The type of a message. -/
def Message.type : Message → MsgType
  | backend msg => .backend msg.type
  | frontend msg => .frontend msg.type

/-- The errors with which a conversation ends. -/
inductive ConveyError where
  | decodeError (error : Problem)
  | encodeError (error : EncodeProblem)
  | ioError (error : IoError)
  | tlsError (error : TlsError)
  | leftUndecoded (left : ℕ)
  | todo (text : String)
  | unexpectedType (state : State) (side : Side) (typeByte : TypeByte)
  | unknownType (side : Side) (byte : UInt8)
  | unsupported (text : String)
deriving DecidableEq, Repr

end Postgread
