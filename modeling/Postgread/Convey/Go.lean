import Postgread.Foundations.Iterate
import Postgread.Convey.Conveyor

/-!
# The main procedure

`go` conveys the initial packet, switches to TLS when the frontend asks for it, and then conveys
message after message in `loop` (`Conveyor::go` of `convey.rs`). `arm` is the table of the main
loop: which message the side, the type byte and the state announce, and which state comes after it.
-/

namespace Postgread.Conveyor

open Body

/-! ## The switch to TLS -/

/-- The byte that says that TLS is supported. -/
def tlsSupported : UInt8 := ascii 'S'

/-- The byte that says that TLS is not supported. -/
def tlsNotSupported : UInt8 := ascii 'N'

/-- Hand the plain stream of a side to the TLS library and put the stream of the session in its
place. -/
def switchToTls (side : Side) (handshake : TlsProvider) : ConveyM Unit := fun c =>
  match (c.wrap side).replacePlainWith .tlsHandshake with
  | (.error halt, wrap) => (.error halt, c.setWrap side wrap)
  | (.ok none, wrap) => (.error (.error (.tlsError .handshakeDisrupted)), c.setWrap side wrap)
  | (.ok (some plainStream), wrap) =>
    let c := (c.setWrap side wrap).log [.handshakeBegun side plainStream]
    match handshake plainStream with
    -- the result of the handshake is unwrapped
    | .error _ => (.error .panic, c)
    | .ok tlsStream =>
      match StreamWrap.memReplace (c.wrap side) (.tls tlsStream) with
      | (.tlsHandshake, wrap) => (.ok ⟨⟩, (c.setWrap side wrap).log [.handshakeDone side])
      | (_, wrap) => (.error (.error (.tlsError .handshakeDisrupted)), c.setWrap side wrap)

/-- Shake hands with the frontend as a server. -/
def switchServerToTls : ConveyM Unit := fun c => switchToTls .frontend c.frontendTlsServer c

/-- Shake hands with the backend as a client. -/
def switchClientToTls : ConveyM Unit := fun c => switchToTls .backend c.backendTlsClient c

/-- Whatever the backend said, the frontend gets a TLS session with the proxy. -/
def acceptTls : ConveyM Unit := do
  write .frontend [tlsSupported]
  switchServerToTls

/-- The reply of the backend to the request for TLS. The result tells whether to go on: after an
error of the backend, `go` returns. -/
def replyToTls : ConveyM Bool := do
  let tlsResponse ← readBackendTypeByte
  if tlsResponse = tlsNotSupported then
    acceptTls
    pure true
  else if tlsResponse = tlsSupported then
    switchClientToTls
    acceptTls
    pure true
  else if tlsResponse = ErrorResponse.typeByte then
    let _ ← readBackendThrough .errorResponse
    pure false
  else
    Proc.fail (.error (.unknownType .backend tlsResponse))

/-! ## The main loop -/

/-- What the main loop does about a type byte. -/
inductive Arm where
  /-- `process_backend_authentication`. -/
  | authentication
  /-- Convey a message and go on in the next state, or return without one. -/
  | through (t : MsgType) (next : Option State)
  /-- `UnexpectedType`. -/
  | unexpected
deriving DecidableEq, Repr

/-- Convey a message of the backend and go on. -/
abbrev Arm.backend (t : BackendType) (next : State) : Arm := .through (.backend t) (some next)

/-- Convey a message of the frontend and go on. -/
abbrev Arm.frontend (t : FrontendType) (next : State) : Arm := .through (.frontend t) (some next)

/-- The table of the main loop. -/
def arm : Side → TypeByte → State → Arm
  | .backend, .authentication, _ => .authentication
  | .backend, .backendKeyData, .authenticated => .backend .backendKeyData .sentAllBackendParams
  | .frontend, .bind, .readyForQuery => .frontend .bind .gotBinding
  | .backend, .bindComplete, .gotBinding => .backend .bindComplete .readyForQuery
  | .backend, .commandComplete, .answeringToSimpleQuery
  | .backend, .commandComplete, .completedSimpleCommand
  | .backend, .commandComplete, .gotSimpleQuery =>
    .backend .commandComplete .completedSimpleCommand
  | .backend, .commandComplete, .answeringToExtendedQuery
  | .backend, .commandComplete, .executingExtendedQuery =>
    .backend .commandComplete .completedExtendedQuery
  | .backend, .dataRow, .answeringToSimpleQuery => .backend .dataRow .answeringToSimpleQuery
  | .backend, .dataRow, .answeringToExtendedQuery
  | .backend, .dataRow, .executingExtendedQuery => .backend .dataRow .answeringToExtendedQuery
  | .backend, .emptyQueryResponse, .executingExtendedQuery =>
    .backend .emptyQueryResponse .seenEmptyExtendedQuery
  | .backend, .emptyQueryResponse, .gotSimpleQuery =>
    .backend .emptyQueryResponse .seenEmptySimpleQuery
  | .backend, .executeOrErrorResponse, .abortedSimpleQuery
  | .backend, .executeOrErrorResponse, .answeringToSimpleQuery
  | .backend, .executeOrErrorResponse, .completedSimpleCommand
  | .backend, .executeOrErrorResponse, .gotSimpleQuery
  | .backend, .executeOrErrorResponse, .seenEmptySimpleQuery =>
    .backend .errorResponse .abortedSimpleQuery
  | .backend, .executeOrErrorResponse, .gotBinding
  | .backend, .executeOrErrorResponse, .gotPreparedStatement =>
    .backend .errorResponse .abortedParsingOrBinding
  | .backend, .executeOrErrorResponse, .abortedExtendedQuery
  | .backend, .executeOrErrorResponse, .answeringToExtendedQuery
  | .backend, .executeOrErrorResponse, .completedExtendedQuery
  | .backend, .executeOrErrorResponse, .executingExtendedQuery
  | .backend, .executeOrErrorResponse, .seenEmptyExtendedQuery =>
    .backend .errorResponse .abortedExtendedQuery
  -- in every other state an error of the backend ends the session
  | .backend, .executeOrErrorResponse, _ => .through (.backend .errorResponse) none
  | .frontend, .executeOrErrorResponse, .readyForQuery
  | .frontend, .executeOrErrorResponse, .suspendedExtendedQuery =>
    .frontend .execute .executingExtendedQuery
  | .frontend, .gssResponseOrPasswordOrSaslResponses, .askedCleartextPassword =>
    .frontend .password .gotCleartextPassword
  | .frontend, .gssResponseOrPasswordOrSaslResponses, .askedGssResponse =>
    .frontend .gssResponse .gotGssResponse
  | .frontend, .gssResponseOrPasswordOrSaslResponses, .askedMd5Password =>
    .frontend .password .gotMd5Password
  | .frontend, .gssResponseOrPasswordOrSaslResponses, .askedSaslInitialResponse =>
    .frontend .saslInitialResponse .gotAnySaslResponse
  | .frontend, .gssResponseOrPasswordOrSaslResponses, .askedSaslResponse =>
    .frontend .saslResponse .gotAnySaslResponse
  | .backend, .negotiateProtocolVersion, .gotStartup =>
    .backend .negotiateProtocolVersion .gotStartup
  | .backend, .negotiateProtocolVersion, .authenticated =>
    .backend .negotiateProtocolVersion .authenticated
  | .backend, .noticeResponse, state => .backend .noticeResponse state
  | .backend, .parameterStatusOrSync, .authenticated => .backend .parameterStatus .authenticated
  | .frontend, .parameterStatusOrSync, .abortedExtendedQuery
  | .frontend, .parameterStatusOrSync, .completedExtendedQuery
  | .frontend, .parameterStatusOrSync, .seenEmptyExtendedQuery
  | .frontend, .parameterStatusOrSync, .suspendedExtendedQuery => .frontend .sync .gotSync
  | .frontend, .parse, .readyForQuery => .frontend .parse .gotPreparedStatement
  | .backend, .parseComplete, .gotPreparedStatement => .backend .parseComplete .readyForQuery
  | .backend, .portalSuspended, .answeringToExtendedQuery =>
    .backend .portalSuspended .suspendedExtendedQuery
  | .frontend, .query, .readyForQuery => .frontend .query .gotSimpleQuery
  | .backend, .readyForQuery, .abortedParsingOrBinding
  | .backend, .readyForQuery, .abortedSimpleQuery
  | .backend, .readyForQuery, .completedSimpleCommand
  | .backend, .readyForQuery, .sentAllBackendParams
  | .backend, .readyForQuery, .gotSync
  | .backend, .readyForQuery, .seenEmptySimpleQuery => .backend .readyForQuery .readyForQuery
  | .backend, .rowDescription, .gotSimpleQuery
  | .backend, .rowDescription, .completedSimpleCommand =>
    .backend .rowDescription .answeringToSimpleQuery
  | .frontend, .terminate, .readyForQuery => .through (.frontend .terminate) none
  | _, _, _ => .unexpected

/-- The state after an authentication request. -/
def afterAuthentication (typeByte : TypeByte) : Authentication → State → Except ConveyError State
  | .cleartextPassword, .gotStartup => .ok .askedCleartextPassword
  | .gss, .gotStartup
  | .sspi, .gotStartup => .ok .askedGssResponse
  | .gssContinue _, .gotGssResponse => .ok .askedGssResponse
  | .md5Password _, .gotStartup => .ok .askedMd5Password
  | .ok, .finishedSasl
  | .ok, .gotCleartextPassword
  | .ok, .gotGssResponse
  | .ok, .gotMd5Password
  | .ok, .gotStartup => .ok .authenticated
  | .kerberosV5, .gotStartup =>
    .error (.unsupported
      "AuthenticationKerberosV5 is unsupported after PostgreSQL 9.3 which in turn is unsupported by PostgreSQL maintainers")
  | .sasl _, .gotStartup => .ok .askedSaslInitialResponse
  | .saslContinue _, .gotAnySaslResponse => .ok .askedSaslResponse
  | .saslFinal _, .gotAnySaslResponse => .ok .finishedSasl
  | .scmCredential, .gotStartup =>
    .error (.unsupported
      "This message type is only issued by pre-9.1 servers. It may eventually be removed from the protocol specification.")
  | _, .gotStartup => .error (.todo "Authentication::* is not fully implemented yet")
  | _, state => .error (.unexpectedType state .backend typeByte)

/-- Convey an authentication, and only then see whether it belongs to the state. -/
def processBackendAuthentication (typeByte : TypeByte) (state : State) : ConveyM State := do
  let authentication ← readBackendThrough .authentication
  match afterAuthentication typeByte authentication state with
  | .ok state => pure state
  | .error error => Proc.fail (.error error)

/-- One round of the main loop. Without a next state `go` returns. -/
def loopBody (state : State) : ConveyM (Option State) := do
  let (side, typeByte) ← readTypeByteFromBoth
  match arm side typeByte state with
  | .authentication => some <$> processBackendAuthentication typeByte state
  | .through t next =>
    let _ ← readThrough t
    pure next
  | .unexpected => Proc.fail (.error (.unexpectedType state side typeByte))

/-- How many bytes the streams still bring. -/
def bytesLeft (c : Conveyor) : ℕ :=
  (Script.tokens c.backend.stream).length + (Script.tokens c.frontend.stream).length

/-- Every round consumes a type byte, so there are no more rounds than bytes. -/
def loop (state : State) : ConveyM Unit := fun c =>
  iterate loopBody (c.bytesLeft + 1) state c

/-! ## The whole conversation -/

/-- What `go` does once the frontend has asked for TLS. -/
def continueWithTls : ConveyM Unit := do
  if ← replyToTls then
    match ← readFrontendThrough .initial with
    | .startup _ => loop .gotStartup
    | .cancel _ => pure ⟨⟩
    | .tls => Proc.fail (.error (.tlsError .tlsRequestedInsideTls))

/-- `Conveyor::go`: the initial packet, the switch to TLS if it asks for it, and the main loop. -/
def go : ConveyM Unit := do
  match ← readFrontendThrough .initial with
  | .startup _ => loop .gotStartup
  | .cancel _ => pure ⟨⟩
  | .tls => continueWithTls

/-- `Conveyor::new`. -/
def new (frontend backend : Stream) (frontendTlsServer backendTlsClient : TlsProvider)
    (overflowChecks : Bool) : Conveyor where
  frontend := .plain frontend
  backend := .plain backend
  frontendTlsServer := frontendTlsServer
  backendTlsClient := backendTlsClient
  overflowChecks := overflowChecks
  trace := []

/-- Where `go` stands between two messages. -/
inductive Phase where
  | initial
  | tlsReply
  | initialInsideTls
  | looping (state : State)
deriving DecidableEq, Repr

/-- The part of `go` from one of its phases to the next. -/
def step : Phase → ConveyM (Option Phase)
  | .initial => do
    match ← readFrontendThrough .initial with
    | .startup _ => pure (some (.looping .gotStartup))
    | .cancel _ => pure none
    | .tls => pure (some .tlsReply)
  | .tlsReply => do
    if ← replyToTls then
      pure (some .initialInsideTls)
    else
      pure none
  | .initialInsideTls => do
    match ← readFrontendThrough .initial with
    | .startup _ => pure (some (.looping .gotStartup))
    | .cancel _ => pure none
    | .tls => Proc.fail (.error (.tlsError .tlsRequestedInsideTls))
  | .looping state => Option.map .looping <$> loopBody state

end Postgread.Conveyor
