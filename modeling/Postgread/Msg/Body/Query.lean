import Postgread.Msg.Parts

/-!
# Messages of the query phase

The messages of simple queries, of extended queries and of the end of a session, each with the
decoder of its body.
-/

namespace Postgread.Body

open Decoder BytesSource

/-! ## Simple queries -/

/-- The text of a simple query. -/
structure Query where
  query : List UInt8
deriving DecidableEq, Repr

/-- The text up to its zero byte. -/
def Query.decodeBody : Decode Query := Query.mk <$> takeUntilNull

instance : MsgDecode Query := ⟨some .query, Query.decodeBody⟩

/-- A query marks its own end. -/
theorem Query.decodeBody_framed : Framed Query.decodeBody :=
  takeUntilNull_framed.map _

/-- A column of a result: its name, where it comes from, its type, and how its values are spelled.
-/
structure Field where
  name : List UInt8
  columnOid : UInt32
  columnAttrNum : UInt16
  typeOid : UInt32
  typeSize : Int16
  typeModifier : Int32
  format : Format
deriving DecidableEq, Repr

/-- The columns of a result. -/
structure RowDescription where
  fields : List Field
deriving DecidableEq, Repr

/-- The two fields with a sign are read without one and converted. -/
def Field.decode : Decode Field := do
  let name ← takeUntilNull
  let columnOid ← takeU32
  let columnAttrNum ← takeU16
  let typeOid ← takeU32
  let typeSize := (← takeU16).toInt16
  let typeModifier := (← takeU32).toInt32
  let format ← Format.decode
  pure { name, columnOid, columnAttrNum, typeOid, typeSize, typeModifier, format }

instance : PartDecode Field := ⟨Field.decode⟩

/-- The columns behind their number. -/
def RowDescription.decodeBody : Decode RowDescription := do
  let fields ← decodeVec (← takeU16).toNat
  pure { fields }

instance : MsgDecode RowDescription := ⟨some .rowDescription, RowDescription.decodeBody⟩

/-- A column marks its own end. -/
theorem Field.decode_framed : Framed Field.decode :=
  takeUntilNull_framed.bind fun _ => takeU32_framed.bind fun _ => takeU16_framed.bind fun _ =>
    takeU32_framed.bind fun _ => takeU16_framed.bind fun _ => takeU32_framed.bind fun _ =>
      Format.decode_framed.bind fun _ => .pure _

instance : FramedPart Field := ⟨Field.decode_framed⟩

/-- So do the columns, by their number. -/
theorem RowDescription.decodeBody_framed : Framed RowDescription.decodeBody :=
  takeU16_decodeVec_framed fun _ => .pure _

/-- A row of a result. -/
structure DataRow where
  columns : List Value
deriving DecidableEq, Repr

/-- The values behind their number. -/
def DataRow.decodeBody : Decode DataRow := do
  let columns ← decodeVec (← takeU16).toNat
  pure { columns }

instance : MsgDecode DataRow := ⟨some .dataRow, DataRow.decodeBody⟩

/-- A row marks its own end. -/
theorem DataRow.decodeBody_framed : Framed DataRow.decodeBody :=
  takeU16_decodeVec_framed fun _ => .pure _

/-- The end of a command, with a text that says which. -/
structure CommandComplete where
  tag : List UInt8
deriving DecidableEq, Repr

/-- The text up to its zero byte. -/
def CommandComplete.decodeBody : Decode CommandComplete := CommandComplete.mk <$> takeUntilNull

instance : MsgDecode CommandComplete := ⟨some .commandComplete, CommandComplete.decodeBody⟩

/-- The end of a command marks its own end. -/
theorem CommandComplete.decodeBody_framed : Framed CommandComplete.decodeBody :=
  takeUntilNull_framed.map _

/-- The answer to a query without a statement. -/
structure EmptyQueryResponse where
deriving DecidableEq, Repr

/-- There is no body. -/
def EmptyQueryResponse.decodeBody : Decode EmptyQueryResponse := pure {}

instance : MsgDecode EmptyQueryResponse := ⟨some .emptyQueryResponse, EmptyQueryResponse.decodeBody⟩

/-- Nothing is taken. -/
theorem EmptyQueryResponse.decodeBody_framed : Framed EmptyQueryResponse.decodeBody := .pure _

/-- Whether the backend is inside a transaction, and whether this has failed. -/
inductive Status where
  | idle
  | transaction
  | error
deriving DecidableEq, Repr

/-- The backend waits for a command. -/
structure ReadyForQuery where
  status : Status
deriving DecidableEq, Repr

/-- The status is one of three letters. -/
def ReadyForQuery.decodeBody : Decode ReadyForQuery := do
  let byte ← takeU8
  if byte = ascii 'I' then
    pure { status := .idle }
  else if byte = ascii 'T' then
    pure { status := .transaction }
  else if byte = ascii 'E' then
    pure { status := .error }
  else
    Proc.fail (.unknown s!"status is unknown: {byte}")

instance : MsgDecode ReadyForQuery := ⟨some .readyForQuery, ReadyForQuery.decodeBody⟩

/-- The status is one byte, whichever it is. -/
theorem ReadyForQuery.decodeBody_framed : Framed ReadyForQuery.decodeBody := by
  refine takeU8_framed.bind fun byte => ?_
  split
  · exact .pure _
  split
  · exact .pure _
  split
  · exact .pure _
  · exact .fail (isFinal_unknown _)

/-! ## Extended queries -/

/-- A request to prepare a statement. -/
structure Parse where
  preparedStatementName : Text
  query : Text
  parametersTypes : List UInt32
deriving DecidableEq, Repr

/-- Two names, and the types behind their number. -/
def Parse.decodeBody : Decode Parse := do
  let preparedStatementName ← Text.decode
  let query ← Text.decode
  let parametersTypes ← decodeVec (← takeU16).toNat
  pure { preparedStatementName, query, parametersTypes }

instance : MsgDecode Parse := ⟨some .parse, Parse.decodeBody⟩

/-- Such a request marks its own end. -/
theorem Parse.decodeBody_framed : Framed Parse.decodeBody :=
  Text.decode_framed.bind fun _ => Text.decode_framed.bind fun _ =>
    takeU16_decodeVec_framed fun _ => .pure _

/-- The statement has been prepared. -/
structure ParseComplete where
deriving DecidableEq, Repr

/-- There is no body. -/
def ParseComplete.decodeBody : Decode ParseComplete := pure {}

instance : MsgDecode ParseComplete := ⟨some .parseComplete, ParseComplete.decodeBody⟩

/-- Nothing is taken. -/
theorem ParseComplete.decodeBody_framed : Framed ParseComplete.decodeBody := .pure _

/-- A request to bind values to a prepared statement. -/
structure Bind where
  preparedStatementName : Text
  portalName : Text
  parametersFormats : List Format
  parametersValues : List Value
  resultsFormats : List Format
deriving DecidableEq, Repr

/-- Two names and three lists, each behind its number. The statement is read before the portal. -/
def Bind.decodeBody : Decode Bind := do
  let preparedStatementName ← Text.decode
  let portalName ← Text.decode
  let parametersFormats ← decodeVec (← takeU16).toNat
  let parametersValues ← decodeVec (← takeU16).toNat
  let resultsFormats ← decodeVec (← takeU16).toNat
  pure { preparedStatementName, portalName, parametersFormats, parametersValues, resultsFormats }

instance : MsgDecode Bind := ⟨some .bind, Bind.decodeBody⟩

/-- Such a request marks its own end. -/
theorem Bind.decodeBody_framed : Framed Bind.decodeBody :=
  Text.decode_framed.bind fun _ => Text.decode_framed.bind fun _ =>
    takeU16_decodeVec_framed fun _ => takeU16_decodeVec_framed fun _ =>
      takeU16_decodeVec_framed fun _ => .pure _

/-- The values have been bound. -/
structure BindComplete where
deriving DecidableEq, Repr

/-- There is no body. -/
def BindComplete.decodeBody : Decode BindComplete := pure {}

instance : MsgDecode BindComplete := ⟨some .bindComplete, BindComplete.decodeBody⟩

/-- Nothing is taken. -/
theorem BindComplete.decodeBody_framed : Framed BindComplete.decodeBody := .pure _

/-- A request to execute a portal, with the greatest number of rows to return. -/
structure Execute where
  portalName : Text
  rowsLimit : UInt32
deriving DecidableEq, Repr

/-- The name of the portal and the limit. -/
def Execute.decodeBody : Decode Execute := do
  let portalName ← Text.decode
  let rowsLimit ← takeU32
  pure { portalName, rowsLimit }

instance : MsgDecode Execute := ⟨some .executeOrErrorResponse, Execute.decodeBody⟩

/-- Such a request marks its own end. -/
theorem Execute.decodeBody_framed : Framed Execute.decodeBody :=
  Text.decode_framed.bind fun _ => takeU32_framed.bind fun _ => .pure _

/-- The limit was reached before the last row. -/
structure PortalSuspended where
deriving DecidableEq, Repr

/-- There is no body. -/
def PortalSuspended.decodeBody : Decode PortalSuspended := pure {}

instance : MsgDecode PortalSuspended := ⟨some .portalSuspended, PortalSuspended.decodeBody⟩

/-- Nothing is taken. -/
theorem PortalSuspended.decodeBody_framed : Framed PortalSuspended.decodeBody := .pure _

/-- The end of an extended query. -/
structure Sync where
deriving DecidableEq, Repr

/-- There is no body. -/
def Sync.decodeBody : Decode Sync := pure {}

instance : MsgDecode Sync := ⟨some .parameterStatusOrSync, Sync.decodeBody⟩

/-- Nothing is taken. -/
theorem Sync.decodeBody_framed : Framed Sync.decodeBody := .pure _

/-! ## The end of a session -/

/-- The frontend goes. -/
structure Terminate where
deriving DecidableEq, Repr

/-- There is no body. -/
def Terminate.decodeBody : Decode Terminate := pure {}

instance : MsgDecode Terminate := ⟨some .terminate, Terminate.decodeBody⟩

/-- Nothing is taken. -/
theorem Terminate.decodeBody_framed : Framed Terminate.decodeBody := .pure _

end Postgread.Body
