import Postgread.Msg.Body.Query
import Postgread.Msg.Wire.Startup

/-!
# The wire format of the query phase

What the messages of the query phase that carry counted lists look like on the wire, and that their
decoders invert it. `roundTrips` collects both directions for every message with a counted list or a
nullable byte string. `Bind` is the exception: `Bind.decodes_encode_iff` says that its decoder takes
the two names in the wrong order.
-/

namespace Postgread.Body

open Decoder BytesSource

/-! ## Simple queries -/

namespace Query

/-- The text and a zero byte. -/
def encode (query : Query) : List UInt8 := encodeString query.query

/-- The text has no zero byte in it. -/
def WellFormed (query : Query) : Prop := 0 ∉ query.query

/-- A query is read from its encoding alone. -/
theorem decodeBody_inverts : Inverts decodeBody WellFormed encode :=
  string_inverts query fun a s => by cases a; simp

end Query

namespace Field

/-- All fields in the order of the source. -/
def encode (field : Field) : List UInt8 :=
  encodeString field.name ++ encodeU32 field.columnOid ++ encodeU16 field.columnAttrNum ++
    encodeU32 field.typeOid ++ encodeU16 field.typeSize.toUInt16 ++
    encodeU32 field.typeModifier.toUInt32 ++ field.format.encode

/-- The name has no zero byte in it. -/
def WellFormed (field : Field) : Prop := 0 ∉ field.name

/-- A column is read from its encoding alone. -/
theorem decode_inverts : Inverts decode WellFormed encode := by
  refine Inverts.ofFields (.field name takeUntilNull_inverts fun name =>
    .field columnOid takeU32_inverts fun columnOid =>
    .field columnAttrNum takeU16_inverts fun columnAttrNum =>
    .field typeOid takeU32_inverts fun typeOid =>
    .field (fun field => field.typeSize.toUInt16) takeU16_inverts fun typeSize =>
    .field (fun field => field.typeModifier.toUInt32) takeU32_inverts fun typeModifier =>
    .field format Format.decode_inverts fun format => .record fun field => ?_)
    (fun field => ?_) fun field => ?_
  · constructor
    · rintro rfl
      simp
    · rintro ⟨⟨⟨⟨⟨⟨⟨-, rfl⟩, rfl⟩, rfl⟩, rfl⟩, rfl⟩, rfl⟩, rfl⟩
      cases field
      simp
  · simp [WellFormed]
  · simp [encode]

end Field

namespace RowDescription

/-- The columns behind their number. -/
def encode (description : RowDescription) : List UInt8 :=
  encodeVec 2 Field.encode description.fields

/-- There are not too many columns to count, and all are well formed. -/
def WellFormed (description : RowDescription) : Prop :=
  Counted 2 Field.WellFormed description.fields

/-- The columns are read from their encoding alone. -/
theorem decodeBody_inverts : Inverts decodeBody WellFormed encode := by
  refine Inverts.ofFields (counted16_inverts fields Field.decode_inverts fun fields =>
    .record fun description => ?_) (fun description => ?_) fun description => ?_
  · cases description
    simp
  · simp [WellFormed]
  · simp [encode]

end RowDescription

namespace DataRow

/-- The values behind their number. -/
def encode (row : DataRow) : List UInt8 := encodeVec 2 Value.encode row.columns

/-- There are not too many values to count, and all are well formed. -/
def WellFormed (row : DataRow) : Prop := Counted 2 Value.WellFormed row.columns

/-- A row is read from its encoding alone. -/
theorem decodeBody_inverts : Inverts decodeBody WellFormed encode := by
  refine Inverts.ofFields (counted16_inverts columns Value.decode_inverts fun columns =>
    .record fun row => ?_) (fun row => ?_) fun row => ?_
  · cases row
    simp
  · simp [WellFormed]
  · simp [encode]

end DataRow

namespace CommandComplete

/-- The tag and a zero byte. -/
def encode (complete : CommandComplete) : List UInt8 := encodeString complete.tag

/-- The tag has no zero byte in it. -/
def WellFormed (complete : CommandComplete) : Prop := 0 ∉ complete.tag

/-- The end of a command is read from its encoding alone. -/
theorem decodeBody_inverts : Inverts decodeBody WellFormed encode :=
  string_inverts tag fun a s => by cases a; simp

end CommandComplete

/-- The body is empty. -/
theorem EmptyQueryResponse.decodeBody_inverts : Inverts decodeBody (fun _ => True) fun _ => [] :=
  empty_inverts fun _ => rfl

/-- The letter of a status. -/
def Status.toByte : Status → UInt8
  | .idle => ascii 'I'
  | .transaction => ascii 'T'
  | .error => ascii 'E'

namespace ReadyForQuery

/-- The letter of the status. -/
def encode (ready : ReadyForQuery) : List UInt8 := [ready.status.toByte]

/-- The status is read from its letter alone. -/
theorem decodeBody_inverts : Inverts decodeBody (fun _ => True) encode := by
  refine (Inverts.bind (fun ready => ready.status.toByte)
    (fun byte ready => ready.status.toByte = byte) (fun _ _ => []) takeU8_inverts (fun byte => ?_)
    fun _ _ h => h).congr (fun _ => by simp) fun _ _ => rfl
  have hpure (status : Status) (hstatus : status.toByte = byte) :
      Inverts (pure ⟨status⟩ : Decode ReadyForQuery) (fun ready => ready.status.toByte = byte)
        fun _ => [] := by
    refine (Inverts.pure _).congr (fun ready => ?_) fun _ _ => rfl
    rcases ready with ⟨status'⟩
    rw [← hstatus]
    cases status <;> cases status' <;> decide
  split
  · rename_i hidle
    exact hpure .idle hidle.symm
  split
  · rename_i htransaction
    exact hpure .transaction htransaction.symm
  split
  · rename_i herror
    exact hpure .error herror.symm
  · rename_i hidle htransaction herror
    refine Inverts.fail _ fun ready => ?_
    rintro rfl
    rcases ready with ⟨_ | _ | _⟩
    · exact hidle rfl
    · exact htransaction rfl
    · exact herror rfl

end ReadyForQuery

/-! ## Extended queries -/

namespace Parse

/-- Two texts, and the types behind their number. -/
def encode (parse : Parse) : List UInt8 :=
  parse.preparedStatementName.encode ++ parse.query.encode ++
    encodeVec 2 encodeU32 parse.parametersTypes

/-- The texts have no zero byte in them, and there are not too many types to count. -/
def WellFormed (parse : Parse) : Prop :=
  parse.preparedStatementName.WellFormed ∧ parse.query.WellFormed ∧
    parse.parametersTypes.length < 2 ^ 16

/-- A `Parse` is read from its encoding alone. -/
theorem decodeBody_inverts : Inverts decodeBody WellFormed encode := by
  refine Inverts.ofFields (.field preparedStatementName Text.decode_inverts fun name =>
    .field query Text.decode_inverts fun query =>
    counted16_inverts parametersTypes takeU32_inverts fun types => .record fun parse => ?_)
    (fun parse => ?_) fun parse => ?_
  · cases parse
    simp [and_assoc]
  · simp [WellFormed, Counted]
  · simp [encode]

end Parse

/-- The body is empty. -/
theorem ParseComplete.decodeBody_inverts : Inverts decodeBody (fun _ => True) fun _ => [] :=
  empty_inverts fun _ => rfl

/-- The body is empty. -/
theorem BindComplete.decodeBody_inverts : Inverts decodeBody (fun _ => True) fun _ => [] :=
  empty_inverts fun _ => rfl

/-- The body is empty. -/
theorem PortalSuspended.decodeBody_inverts : Inverts decodeBody (fun _ => True) fun _ => [] :=
  empty_inverts fun _ => rfl

/-- The body is empty. -/
theorem Sync.decodeBody_inverts : Inverts decodeBody (fun _ => True) fun _ => [] :=
  empty_inverts fun _ => rfl

/-- The body is empty. -/
theorem Terminate.decodeBody_inverts : Inverts decodeBody (fun _ => True) fun _ => [] :=
  empty_inverts fun _ => rfl

namespace Execute

/-- The name of the portal and the limit. -/
def encode (execute : Execute) : List UInt8 :=
  execute.portalName.encode ++ encodeU32 execute.rowsLimit

/-- The name has no zero byte in it. -/
def WellFormed (execute : Execute) : Prop := execute.portalName.WellFormed

/-- An `Execute` is read from its encoding alone. -/
theorem decodeBody_inverts : Inverts decodeBody WellFormed encode := by
  refine Inverts.ofFields (.field portalName Text.decode_inverts fun name =>
    .field rowsLimit takeU32_inverts fun limit => .record fun execute => ?_)
    (fun execute => ?_) fun execute => ?_
  · cases execute
    simp
  · simp [WellFormed]
  · simp [encode]

end Execute

namespace Bind

/-- The layout of the protocol: the portal, the prepared statement, and three lists. -/
def encode (bind : Bind) : List UInt8 :=
  bind.portalName.encode ++ bind.preparedStatementName.encode ++
    encodeVec 2 Format.encode bind.parametersFormats ++
    encodeVec 2 Value.encode bind.parametersValues ++
    encodeVec 2 Format.encode bind.resultsFormats

/-- The names have no zero byte in them, and none of the lists is too long to count. -/
def WellFormed (bind : Bind) : Prop :=
  bind.portalName.WellFormed ∧ bind.preparedStatementName.WellFormed ∧
    bind.parametersFormats.length < 2 ^ 16 ∧ Counted 2 Value.WellFormed bind.parametersValues ∧
    bind.resultsFormats.length < 2 ^ 16

instance (bind : Bind) : Decidable bind.WellFormed := inferInstanceAs (Decidable (_ ∧ _))

/-- The same message with the two names in each other's place. -/
def exchangeNames (bind : Bind) : Bind :=
  { bind with
    preparedStatementName := bind.portalName
    portalName := bind.preparedStatementName }

/-- The decoder expects the prepared statement before the portal. -/
theorem decodeBody_inverts :
    Inverts decodeBody WellFormed fun bind => bind.exchangeNames.encode := by
  refine Inverts.ofFields (.field preparedStatementName Text.decode_inverts fun name =>
    .field portalName Text.decode_inverts fun portal =>
    counted16_inverts parametersFormats Format.decode_inverts fun formats =>
    counted16_inverts parametersValues Value.decode_inverts fun values =>
    counted16_inverts resultsFormats Format.decode_inverts fun results => .record fun bind => ?_)
    (fun bind => ?_) fun bind => ?_
  · cases bind
    simp [and_assoc]
  · simp [WellFormed, Counted, and_left_comm]
  · simp [encode, exchangeNames]

/-- A message in the layout of the protocol is decoded with its names exchanged. -/
theorem parse_encode {bind : Bind} (h : bind.WellFormed) :
    parse decodeBody bind.encode = .ok (bind.exchangeNames, []) := by
  have hexchange : bind.exchangeNames.WellFormed := ⟨h.2.1, h.1, h.2.2⟩
  have hparse := decodeBody_inverts.parse_encode hexchange []
  rwa [List.append_nil] at hparse

/-- The decoder reads a message in the layout of the protocol if and only if the portal and the
prepared statement have one name. -/
theorem decodes_encode_iff (bind : Bind) (h : bind.WellFormed) :
    Decodes decodeBody bind.encode bind ↔ bind.portalName = bind.preparedStatementName := by
  rw [decodes_iff_parse, parse_encode h, Except.ok.injEq, Prod.mk.injEq, and_iff_left rfl]
  rcases bind with ⟨name, portal, formats, values, results⟩
  simp [exchangeNames, eq_comm]

/-- A message for the unnamed portal and the unnamed statement. -/
theorem decodes_unnamed :
    Decodes decodeBody (encode ⟨⟨[]⟩, ⟨[]⟩, [.text], [.null], [.binary]⟩)
      ⟨⟨[]⟩, ⟨[]⟩, [.text], [.null], [.binary]⟩ :=
  (decodes_encode_iff _ (by decide)).mpr rfl

/-- The portal `p` and the statement `s` are taken for each other. -/
theorem names_exchanged :
    let bind : Bind := ⟨⟨[ascii 's']⟩, ⟨[ascii 'p']⟩, [], [], []⟩
    bind.WellFormed ∧ ¬ Decodes decodeBody bind.encode bind := by
  intro bind
  have hbind : bind.WellFormed := by decide
  refine ⟨hbind, ?_⟩
  rw [decodes_iff_parse, parse_encode hbind]
  decide

end Bind

/-! ## Round trips -/

/-- The decoder ends with an error. -/
def Refuses {α : Type} (decode : Decode α) (bytes : List UInt8) (problem : Problem) : Prop :=
  ∃ source, decode (BytesSource.new bytes) = (.error problem, source)

/-- A column whose length is negative, but not -1. -/
theorem DataRow.decodeBody_of_negative {columns : List Value} {count : UInt16} {len : UInt32}
    (hcolumns : ∀ column ∈ columns, column.WellFormed) (hcount : columns.length < count.toNat)
    (hlen : 2 ^ 31 ≤ len.toNat) (hnull : len ≠ 0xFFFFFFFF) (tail : List UInt8) :
    Refuses decodeBody
      (encodeU16 count ++ columns.flatMap Value.encode ++ encodeU32 len ++ tail)
      (.incorrect s!"length of value should be >= -1 but is {len.toInt32}") := by
  refine exists_of_parseAt_error (?_ : parse decodeBody _ = _)
  rw [List.append_assoc, List.append_assoc, decodeBody, takeU16_inverts.parse_bind_encode (fun _ =>
    (decodeVec_framed _).toLocal.bind fun _ => .pure _) trivial, parse_bind _ fun _ => .pure _,
    parse_decodeVec_eq_error Value.decode_inverts hcolumns hcount
      (Value.decode_of_negative hlen hnull tail)]

/-- Mechanism data whose length is negative, but not -1. -/
theorem SaslInitialResponse.decodeBody_of_negative {mechanism : List UInt8} {len : UInt32}
    (hmechanism : 0 ∉ mechanism) (hlen : 2 ^ 31 ≤ len.toNat) (hnull : len ≠ 0xFFFFFFFF)
    (tail : List UInt8) :
    Refuses decodeBody (encodeString mechanism ++ encodeU32 len ++ tail)
      (.incorrect s!"mechanism data len should be >= -1 but is {len.toInt32}") := by
  refine exists_of_parseAt_error (?_ : parse decodeBody _ = _)
  let incorrect (len : Int32) : Problem :=
    .incorrect s!"mechanism data len should be >= -1 but is {len}"
  rw [List.append_assoc]
  refine (takeUntilNull_inverts.parse_bind_encode (fun s => takeU32_framed.toLocal.bind
    (nullable_local (mk s none) (fun data => mk s (some data)) incorrect)) hmechanism _).trans ?_
  exact parse_nullable_of_negative incorrect hlen hnull tail

/-- For every message with a counted list or a nullable byte string, the bodies that are decoded
with nothing left are the encodings of well formed values, each is decoded to the value that it
encodes, and a negative length other than -1 is refused wherever it comes. -/
theorem roundTrips :
    (∀ body parse, Decodes Parse.decodeBody body parse ↔ parse.WellFormed ∧ body = parse.encode) ∧
    (∀ body row, Decodes DataRow.decodeBody body row ↔ row.WellFormed ∧ body = row.encode) ∧
    (∀ body description, Decodes RowDescription.decodeBody body description ↔
      description.WellFormed ∧ body = description.encode) ∧
    (∀ body version, Decodes NegotiateProtocolVersion.decodeBody body version ↔
      version.WellFormed ∧ body = version.encode) ∧
    (∀ body execute, Decodes Execute.decodeBody body execute ↔
      execute.WellFormed ∧ body = execute.encode) ∧
    (∀ body response, Decodes SaslInitialResponse.decodeBody body response ↔
      response.WellFormed ∧ body = response.encode) ∧
    ∀ len : UInt32, 2 ^ 31 ≤ len.toNat → len ≠ 0xFFFFFFFF → ∀ tail : List UInt8,
      (∀ (columns : List Value) (count : UInt16), (∀ column ∈ columns, column.WellFormed) →
        columns.length < count.toNat → Refuses DataRow.decodeBody
          (encodeU16 count ++ columns.flatMap Value.encode ++ encodeU32 len ++ tail)
          (.incorrect s!"length of value should be >= -1 but is {len.toInt32}")) ∧
      ∀ mechanism : List UInt8, 0 ∉ mechanism → Refuses SaslInitialResponse.decodeBody
        (encodeString mechanism ++ encodeU32 len ++ tail)
        (.incorrect s!"mechanism data len should be >= -1 but is {len.toInt32}") :=
  ⟨fun _ _ => decodes_iff_of_invertsAt (Parse.decodeBody_inverts.invertsAt []),
    fun _ _ => decodes_iff_of_invertsAt (DataRow.decodeBody_inverts.invertsAt []),
    fun _ _ => decodes_iff_of_invertsAt (RowDescription.decodeBody_inverts.invertsAt []),
    fun _ _ => decodes_iff_of_invertsAt (NegotiateProtocolVersion.decodeBody_inverts.invertsAt []),
    fun _ _ => decodes_iff_of_invertsAt (Execute.decodeBody_inverts.invertsAt []),
    fun _ _ => decodes_iff_of_invertsAt (SaslInitialResponse.decodeBody_inverts.invertsAt []),
    fun _ hlen hnull tail => ⟨fun _ _ hcolumns hcount =>
      DataRow.decodeBody_of_negative hcolumns hcount hlen hnull tail, fun _ hmechanism =>
      SaslInitialResponse.decodeBody_of_negative hmechanism hlen hnull tail⟩⟩

end Postgread.Body
