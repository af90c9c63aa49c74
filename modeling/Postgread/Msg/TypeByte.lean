import Mathlib.Tactic.Common

/-!
# Type bytes

The first byte of every typed message (`msg/type_byte.rs`). One byte can stand for several message
types, which the side and the state of the conversation tell apart.
-/

namespace Postgread

/-- The byte of an ASCII character. -/
def ascii (c : Char) : UInt8 := UInt8.ofNat c.toNat

/-- The type bytes of the protocol. Some of them stand for several messages. -/
inductive TypeByte where
  | authentication
  | backendKeyData
  | bind
  | bindComplete
  | commandComplete
  | dataRow
  | emptyQueryResponse
  | executeOrErrorResponse
  | noticeResponse
  | gssResponseOrPasswordOrSaslResponses
  | negotiateProtocolVersion
  | parameterStatusOrSync
  | parse
  | parseComplete
  | portalSuspended
  | query
  | readyForQuery
  | rowDescription
  | terminate
deriving DecidableEq, Repr

namespace TypeByte

/-- The discriminant of the enumeration (`#[repr(u8)]`). -/
def toU8 : TypeByte → UInt8
  | authentication => ascii 'R'
  | backendKeyData => ascii 'K'
  | bind => ascii 'B'
  | bindComplete => ascii '2'
  | commandComplete => ascii 'C'
  | dataRow => ascii 'D'
  | emptyQueryResponse => ascii 'I'
  | executeOrErrorResponse => ascii 'E'
  | noticeResponse => ascii 'N'
  | gssResponseOrPasswordOrSaslResponses => ascii 'p'
  | negotiateProtocolVersion => ascii 'v'
  | parameterStatusOrSync => ascii 'S'
  | parse => ascii 'P'
  | parseComplete => ascii '1'
  | portalSuspended => ascii 's'
  | query => ascii 'Q'
  | readyForQuery => ascii 'Z'
  | rowDescription => ascii 'T'
  | terminate => ascii 'X'

/-- The variants in the order of the source. -/
def all : List TypeByte :=
  [authentication, backendKeyData, bind, bindComplete, commandComplete, dataRow, emptyQueryResponse,
    executeOrErrorResponse, noticeResponse, gssResponseOrPasswordOrSaslResponses,
    negotiateProtocolVersion, parameterStatusOrSync, parse, parseComplete, portalSuspended, query,
    readyForQuery, rowDescription, terminate]

/-- The variant with a given discriminant (`TryFromPrimitive`). -/
def tryFrom (byte : UInt8) : Option TypeByte :=
  all.find? fun t => t.toU8 == byte

/-- A type byte is recognized. -/
theorem tryFrom_toU8 (t : TypeByte) : tryFrom t.toU8 = some t := by
  cases t <;> decide

/-- A byte converts to the variant whose discriminant it is, and to no other. -/
theorem tryFrom_eq_some {byte : UInt8} {t : TypeByte} : tryFrom byte = some t ↔ t.toU8 = byte := by
  constructor
  · intro h
    simpa using List.find?_some h
  · rintro rfl
    exact tryFrom_toU8 t

end TypeByte

end Postgread
