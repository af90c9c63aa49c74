import Postgread.Msg.Parts

/-!
# Errors and notices

The two messages share a list of coded fields (`msg/body/error_and_notice_responses.rs`). The macro
of the source pairs each code with a field; here `FieldName` names the fields, and the code and the
place of each are functions of its name.
-/

namespace Postgread.Body

open Decoder BytesSource

/-- The fields of an error or a notice, each of which may be missing. -/
structure ErrorOrNoticeFields where
  localizedSeverity : Option (List UInt8)
  severity : Option (List UInt8)
  code : Option (List UInt8)
  message : Option (List UInt8)
  detail : Option (List UInt8)
  hint : Option (List UInt8)
  position : Option (List UInt8)
  internalPosition : Option (List UInt8)
  internalQuery : Option (List UInt8)
  where_ : Option (List UInt8)
  schema : Option (List UInt8)
  table : Option (List UInt8)
  column : Option (List UInt8)
  dataType : Option (List UInt8)
  constraint : Option (List UInt8)
  file : Option (List UInt8)
  line : Option (List UInt8)
  routine : Option (List UInt8)
deriving DecidableEq, Repr

/-- The fields by name. -/
inductive FieldName where
  | localizedSeverity
  | severity
  | code
  | message
  | detail
  | hint
  | position
  | internalPosition
  | internalQuery
  | where_
  | schema
  | table
  | column
  | dataType
  | constraint
  | file
  | line
  | routine
deriving DecidableEq, Repr

namespace FieldName

/-- The fields in the order of the source. -/
def all : List FieldName :=
  [localizedSeverity, severity, code, message, detail, hint, position, internalPosition,
    internalQuery, where_, schema, table, column, dataType, constraint, file, line, routine]

/-- The byte that introduces a field. -/
def typeByte : FieldName → UInt8
  | localizedSeverity => ascii 'S'
  | severity => ascii 'V'
  | code => ascii 'C'
  | message => ascii 'M'
  | detail => ascii 'D'
  | hint => ascii 'H'
  | position => ascii 'P'
  | internalPosition => ascii 'p'
  | internalQuery => ascii 'q'
  | where_ => ascii 'W'
  | schema => ascii 's'
  | table => ascii 't'
  | column => ascii 'c'
  | dataType => ascii 'd'
  | constraint => ascii 'n'
  | file => ascii 'F'
  | line => ascii 'L'
  | routine => ascii 'R'

/-- The field that a byte introduces. -/
def ofTypeByte (byte : UInt8) : Option FieldName :=
  all.find? fun name => name.typeByte == byte

end FieldName

namespace ErrorOrNoticeFields

/-- No field is present. -/
def default : ErrorOrNoticeFields :=
  ⟨none, none, none, none, none, none, none, none, none, none, none, none, none, none, none, none,
    none, none⟩

/-- Assign the field of a name. -/
def set (fields : ErrorOrNoticeFields) (value : List UInt8) : FieldName → ErrorOrNoticeFields
  | .localizedSeverity => { fields with localizedSeverity := some value }
  | .severity => { fields with severity := some value }
  | .code => { fields with code := some value }
  | .message => { fields with message := some value }
  | .detail => { fields with detail := some value }
  | .hint => { fields with hint := some value }
  | .position => { fields with position := some value }
  | .internalPosition => { fields with internalPosition := some value }
  | .internalQuery => { fields with internalQuery := some value }
  | .where_ => { fields with where_ := some value }
  | .schema => { fields with schema := some value }
  | .table => { fields with table := some value }
  | .column => { fields with column := some value }
  | .dataType => { fields with dataType := some value }
  | .constraint => { fields with constraint := some value }
  | .file => { fields with file := some value }
  | .line => { fields with line := some value }
  | .routine => { fields with routine := some value }

/-- One round of the loop over the fields, with the index of the field. A zero byte ends it. -/
def decodeNext : ErrorOrNoticeFields × ℕ → Decode (ForInStep (ErrorOrNoticeFields × ℕ))
  | (body, index) => do
    match ← takeU8 with
    | 0 => pure (.done (body, index))
    | x =>
      match FieldName.ofTypeByte x with
      | some name =>
        let value ← takeUntilNull
        pure (.yield (body.set value name, index + 1))
      | none => Proc.fail (.unknown s!"field[{index}] has unknown type {x}")

/-- The fields up to the zero byte that ends them. -/
def decode : Decode ErrorOrNoticeFields := Prod.fst <$> loop decodeNext (default, 0)

/-- What follows the type byte of a field marks its own end. -/
theorem decodeNext_tail_framed (body : ErrorOrNoticeFields) (index : ℕ) (x : UInt8) :
    Framed (match x with
      | 0 => pure (.done (body, index))
      | x =>
        match FieldName.ofTypeByte x with
        | some name => do
          let value ← takeUntilNull
          pure (.yield (body.set value name, index + 1))
        | none => Proc.fail (.unknown s!"field[{index}] has unknown type {x}") :
      Decode (ForInStep (ErrorOrNoticeFields × ℕ))) := by
  split
  · exact .pure _
  split
  · exact takeUntilNull_framed.bind fun _ => .pure _
  · exact .fail (isFinal_unknown _)

/-- A round takes a code with its text, or the zero byte at the end. -/
theorem decodeNext_framed (b : ErrorOrNoticeFields × ℕ) : Framed (decodeNext b) :=
  takeU8_framed.bind (decodeNext_tail_framed b.1 b.2)

/-- Every round takes the byte of its code. -/
theorem decodeNext_consumes : Consumes decodeNext :=
  Consumes.of_eats fun b => takeU8_eats.bind (decodeNext_tail_framed b.1 b.2)

/-- The fields mark their end by a zero byte. -/
theorem decode_framed : Framed decode :=
  (Framed.loop decodeNext_framed decodeNext_consumes _).map _

end ErrorOrNoticeFields

/-- An error of the backend. -/
structure ErrorResponse where
  fields : ErrorOrNoticeFields
deriving DecidableEq, Repr

/-- `ErrorResponse::TYPE_BYTE`. -/
def ErrorResponse.typeByte : UInt8 := ascii 'E'

/-- The body of an error is its fields. -/
def ErrorResponse.decodeBody : Decode ErrorResponse :=
  ErrorResponse.mk <$> ErrorOrNoticeFields.decode

instance : MsgDecode ErrorResponse := ⟨some .executeOrErrorResponse, ErrorResponse.decodeBody⟩

/-- An error marks its own end. -/
theorem ErrorResponse.decodeBody_framed : Framed ErrorResponse.decodeBody :=
  ErrorOrNoticeFields.decode_framed.map _

/-- A notice of the backend. -/
structure NoticeResponse where
  fields : ErrorOrNoticeFields
deriving DecidableEq, Repr

/-- The body of a notice is its fields. -/
def NoticeResponse.decodeBody : Decode NoticeResponse :=
  NoticeResponse.mk <$> ErrorOrNoticeFields.decode

instance : MsgDecode NoticeResponse := ⟨some .noticeResponse, NoticeResponse.decodeBody⟩

/-- A notice marks its own end. -/
theorem NoticeResponse.decodeBody_framed : Framed NoticeResponse.decodeBody :=
  ErrorOrNoticeFields.decode_framed.map _

end Postgread.Body
