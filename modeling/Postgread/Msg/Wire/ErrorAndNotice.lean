import Mathlib.Data.List.Flatten
import Mathlib.Data.List.Nodup
import Mathlib.Data.List.Perm.Subperm
import Postgread.Msg.Body.ErrorAndNotice
import Postgread.Msg.Wire.Parts

/-!
# The wire format of errors and notices

Errors and notices are lists of coded fields. Such a list is folded into the record of the fields,
in which the last value of each code stays. `ErrorOrNoticeFields.decode_fields` says which bodies
are decoded, to what, and where the others go wrong.
-/

namespace Postgread.Body

open Decoder BytesSource

namespace FieldName

/-- A byte introduces the field whose byte it is, and no other. -/
theorem ofTypeByte_eq_some {byte : UInt8} {name : FieldName} :
    ofTypeByte byte = some name ↔ name.typeByte = byte := by
  constructor
  · intro h
    simpa using List.find?_some h
  · rintro rfl
    cases name <;> decide

/-- Different fields have different codes. -/
theorem typeByte_injective : Function.Injective typeByte := fun _ _ h =>
  Option.some.inj ((ofTypeByte_eq_some.mpr rfl).symm.trans (ofTypeByte_eq_some.mpr h.symm))

/-- No field has the code that ends the list. -/
theorem typeByte_ne_zero (name : FieldName) : name.typeByte ≠ 0 := by
  cases name <;> decide

end FieldName

/-- A field as it is written. -/
structure CodedField where
  name : FieldName
  value : List UInt8
deriving DecidableEq, Repr

namespace CodedField

/-- The code, the value, and the zero byte that ends it. -/
def encode (field : CodedField) : List UInt8 := [field.name.typeByte] ++ encodeString field.value

/-- The text of the field has no zero byte in it. -/
def WellFormed (field : CodedField) : Prop := 0 ∉ field.value

/-- The fields and the zero byte that ends the list. -/
def encodeMany (fields : List CodedField) : List UInt8 := fields.flatMap encode ++ [0]

/-- The value of the last field with a name. -/
def lastValue (fields : List CodedField) (name : FieldName) : Option (List UInt8) :=
  (fields.filter fun field => field.name = name).getLast?.map value

/-- One more field sets the value of its name. -/
theorem lastValue_concat (fields : List CodedField) (field : CodedField) (name : FieldName) :
    lastValue (fields ++ [field]) name =
      if field.name = name then some field.value else lastValue fields name := by
  by_cases hname : field.name = name
  · simp [lastValue, hname]
  · simp [lastValue, hname]

end CodedField

namespace ErrorOrNoticeFields

/-- The field of a name. -/
def get (fields : ErrorOrNoticeFields) : FieldName → Option (List UInt8)
  | .localizedSeverity => fields.localizedSeverity
  | .severity => fields.severity
  | .code => fields.code
  | .message => fields.message
  | .detail => fields.detail
  | .hint => fields.hint
  | .position => fields.position
  | .internalPosition => fields.internalPosition
  | .internalQuery => fields.internalQuery
  | .where_ => fields.where_
  | .schema => fields.schema
  | .table => fields.table
  | .column => fields.column
  | .dataType => fields.dataType
  | .constraint => fields.constraint
  | .file => fields.file
  | .line => fields.line
  | .routine => fields.routine

/-- At first every field is missing. -/
theorem get_default (name : FieldName) : default.get name = none := by
  cases name <;> rfl

/-- An assignment changes the field of its name and no other. -/
theorem get_set (fields : ErrorOrNoticeFields) (value : List UInt8) (name name' : FieldName) :
    (fields.set value name).get name' = if name = name' then some value else fields.get name' := by
  cases name <;> cases name' <;> rfl

/-- The names are all the fields that there are. -/
theorem eq_of_get_eq {fields fields' : ErrorOrNoticeFields}
    (h : ∀ name, fields.get name = fields'.get name) : fields = fields' := by
  rw [ErrorOrNoticeFields.mk.injEq]
  exact ⟨h .localizedSeverity, h .severity, h .code, h .message, h .detail, h .hint, h .position,
    h .internalPosition, h .internalQuery, h .where_, h .schema, h .table, h .column, h .dataType,
    h .constraint, h .file, h .line, h .routine⟩

/-- One field is read into the record. -/
def push (b : ErrorOrNoticeFields × ℕ) (field : CodedField) : ErrorOrNoticeFields × ℕ :=
  (b.1.set field.value field.name, b.2 + 1)

/-- The number of fields is counted. -/
theorem foldl_push_snd (b : ErrorOrNoticeFields × ℕ) (fields : List CodedField) :
    (fields.foldl push b).2 = b.2 + fields.length := by
  induction fields generalizing b with
  | nil => rfl
  | cons field fields ih =>
    rw [List.foldl_cons, ih, push, List.length_cons]
    omega

/-- After a fold every field has the last value of its name, if there is one. -/
theorem get_foldl_push (b : ErrorOrNoticeFields × ℕ) (fields : List CodedField)
    (name : FieldName) : (fields.foldl push b).1.get name =
      (CodedField.lastValue fields name).or (b.1.get name) := by
  induction fields using List.reverseRecOn with
  | nil => rfl
  | append_singleton fields field ih =>
    rw [List.foldl_append, List.foldl_cons, List.foldl_nil, push, get_set, ih,
      CodedField.lastValue_concat]
    split <;> rfl

/-- The loop reads coded fields up to a zero byte. -/
theorem decodeNext_reads :
    ReadsElement decodeNext CodedField.WellFormed CodedField.encode [0] push := by
  -- one round: the end of the list, or a field with a known code
  have hiff (b : ErrorOrNoticeFields × ℕ) (x : ForInStep (ErrorOrNoticeFields × ℕ))
      (bs r : List UInt8) : parse (decodeNext b) bs = .ok (x, r) ↔ (x = .done b ∧ bs = [0] ++ r) ∨
        ∃ field : CodedField, field.WellFormed ∧ x = .yield (push b field) ∧
          bs = field.encode ++ r := by
    rw [decodeNext, takeU8_inverts.parse_bind_eq_ok fun c =>
      (decodeNext_tail_framed b.1 b.2 c).toLocal]
    constructor
    · rintro ⟨c, r', -, rfl, h⟩
      split at h
      · obtain ⟨rfl, rfl⟩ : ForInStep.done b = x ∧ r' = r := by simpa using h
        exact .inl ⟨rfl, rfl⟩
      split at h
      · rename_i name hname
        obtain rfl := FieldName.ofTypeByte_eq_some.mp hname
        rw [takeUntilNull_inverts.parse_bind_eq_ok fun _ => .pure _] at h
        obtain ⟨value, r'', hvalue, rfl, h⟩ := h
        obtain ⟨rfl, rfl⟩ : ForInStep.yield (push b ⟨name, value⟩) = x ∧ r'' = r := by
          simpa [push] using h
        exact .inr ⟨⟨name, value⟩, hvalue, rfl, by rw [CodedField.encode, List.append_assoc]⟩
      · cases h
    · rintro (⟨rfl, rfl⟩ | ⟨field, hfield, rfl, rfl⟩)
      · exact ⟨0, r, trivial, rfl, parse_pure _ r⟩
      · refine ⟨field.name.typeByte, encodeString field.value ++ r, trivial,
          List.append_assoc _ _ _, ?_⟩
        split
        · rename_i hzero
          exact absurd hzero field.name.typeByte_ne_zero
        · rw [FieldName.ofTypeByte_eq_some.mpr rfl]
          simp only
          rw [takeUntilNull_inverts.parse_bind_encode (fun _ => .pure _) hfield]
          exact parse_pure _ r
  refine ⟨fun b => (decodeNext_framed b).toLocal, decodeNext_consumes, fun b b' bs r => ?_,
    fun b b' bs r => ?_⟩
  · simp [hiff]
  · simp [hiff]

open CodedField

/-- What the decoder makes of a list of fields. -/
theorem parse_encodeMany {fields : List CodedField} (hfields : ∀ field ∈ fields, field.WellFormed) :
    parse decode (encodeMany fields) = .ok ((fields.foldl push (default, 0)).1, []) := by
  have hloop := (decodeNext_reads.parse_loop_foldl (default, 0) (fields.foldl push (default, 0))
    (encodeMany fields) []).mpr ⟨fields, hfields, rfl, (List.append_nil _).symm⟩
  rw [decode, parse_map, hloop]

/-- The record that a list of fields is decoded to. -/
theorem decodes_encodeMany {fields : List CodedField}
    (hfields : ∀ field ∈ fields, field.WellFormed) (record : ErrorOrNoticeFields) :
    Decodes decode (encodeMany fields) record ↔
      ∀ name, record.get name = lastValue fields name := by
  have hget (name : FieldName) :
      (fields.foldl push (default, 0)).1.get name = lastValue fields name := by
    rw [get_foldl_push, get_default, Option.or_none]
  rw [Postgread.decodes_iff_parse, parse_encodeMany hfields, Except.ok.injEq, Prod.mk.injEq,
    and_iff_left rfl]
  constructor
  · rintro rfl
    exact hget
  · exact fun hrecord => eq_of_get_eq fun name => (hget name).trans (hrecord name).symm

/-- Only lists of well formed fields are decoded with nothing left. -/
theorem exists_of_decodes {body : List UInt8} {record : ErrorOrNoticeFields}
    (h : Decodes decode body record) :
    ∃ fields : List CodedField,
      (∀ field ∈ fields, field.WellFormed) ∧ body = encodeMany fields := by
  rw [Postgread.decodes_iff_parse, decode, parse_map] at h
  rcases hloop : parse (loop decodeNext (default, 0)) body with e | ⟨b, r⟩
  · rw [hloop] at h; cases h
  rw [hloop] at h
  obtain ⟨-, rfl⟩ : b.1 = record ∧ r = [] := by simpa using h
  obtain ⟨fields, hfields, -, rfl⟩ := (decodeNext_reads.parse_loop_foldl _ b body []).mp hloop
  exact ⟨fields, hfields, List.append_nil _⟩

/-- A byte that introduces no field and does not end the list is refused with its index. -/
theorem decode_of_unknown {fields : List CodedField} (hfields : ∀ field ∈ fields, field.WellFormed)
    {code : UInt8} (hzero : code ≠ 0) (hcode : ∀ name : FieldName, name.typeByte ≠ code)
    (tail : List UInt8) :
    ∃ source, decode (BytesSource.new (fields.flatMap encode ++ code :: tail)) =
      (.error (.unknown s!"field[{fields.length}] has unknown type {code}"), source) := by
  have hnone : FieldName.ofTypeByte code = none :=
    Option.eq_none_iff_forall_ne_some.mpr fun name h =>
      hcode name (FieldName.ofTypeByte_eq_some.mp h)
  have hstep : parse (decodeNext (fields.foldl push (default, 0))) (code :: tail) =
      .error (.unknown s!"field[{fields.length}] has unknown type {code}") := by
    rw [decodeNext, ← List.singleton_append, takeU8_inverts.parse_bind_encode
      (fun c => (decodeNext_tail_framed _ _ c).toLocal) trivial, foldl_push_snd, Nat.zero_add]
    split
    · exact absurd rfl hzero
    · rw [hnone]
      rfl
  refine exists_of_parseAt_error (?_ : parse decode _ = _)
  rw [decode, parse_map, decodeNext_reads.parse_loop_eq_error _ hfields hstep]

/-- A list of fields is decoded to the record in which every field has the last value of its code,
so the order of fields with different codes does not matter. Nothing else is decoded, and an unknown
code is refused with its index. -/
theorem decode_fields :
    Function.Injective FieldName.typeByte ∧
    (∀ fields : List CodedField, (∀ field ∈ fields, field.WellFormed) →
      (∃ record, Decodes decode (encodeMany fields) record ∧
        ∀ name, record.get name = lastValue fields name) ∧
      (∀ fields' : List CodedField, (∀ name, (fields'.filter fun field => field.name = name) =
          fields.filter fun field => field.name = name) → ∀ record,
        Decodes decode (encodeMany fields') record ↔ Decodes decode (encodeMany fields) record) ∧
      ∀ code : UInt8, code ≠ 0 → (∀ name : FieldName, name.typeByte ≠ code) → ∀ tail,
        ∃ source, decode (BytesSource.new (fields.flatMap encode ++ code :: tail)) =
          (.error (.unknown s!"field[{fields.length}] has unknown type {code}"), source)) ∧
    ∀ body record, Decodes decode body record →
      ∃ fields : List CodedField,
        (∀ field ∈ fields, field.WellFormed) ∧ body = encodeMany fields := by
  refine ⟨FieldName.typeByte_injective, fun fields hfields => ⟨?_, fun fields' hfilter record => ?_,
    fun code hzero hcode tail => decode_of_unknown hfields hzero hcode tail⟩,
    fun body record => exists_of_decodes⟩
  · have hdecodes := Postgread.decodes_iff_parse.mpr (parse_encodeMany hfields)
    exact ⟨_, hdecodes, (decodes_encodeMany hfields _).mp hdecodes⟩
  · have hfields' : ∀ field ∈ fields', field.WellFormed := fun field hfield => by
      have hmem : field ∈ fields'.filter fun f => f.name = field.name :=
        List.mem_filter.mpr ⟨hfield, decide_eq_true rfl⟩
      rw [hfilter] at hmem
      exact hfields field (List.mem_filter.mp hmem).1
    rw [decodes_encodeMany hfields, decodes_encodeMany hfields']
    simp only [lastValue, hfilter]

/-! ## The fields of a record -/

/-- The fields that are present, in the order of the source. -/
def present (fields : ErrorOrNoticeFields) : List CodedField :=
  FieldName.all.filterMap fun name => (fields.get name).map (CodedField.mk name)

/-- Every field that is present, once and in the order of the source. -/
def encode (fields : ErrorOrNoticeFields) : List UInt8 := encodeMany fields.present

/-- No field has a zero byte in its text. -/
def WellFormed (fields : ErrorOrNoticeFields) : Prop := ∀ name, ∀ value ∈ fields.get name, 0 ∉ value

/-- The bodies that are decoded to the record: in any order and with repetitions, as long as the
last value of every name is that of the record. -/
def Spells (fields : ErrorOrNoticeFields) (body : List UInt8) : Prop :=
  ∃ coded : List CodedField, (∀ field ∈ coded, field.WellFormed) ∧
    (∀ name, fields.get name = lastValue coded name) ∧ body = encodeMany coded

/-- The bodies that decode to these fields are those that spell them. -/
theorem decodes_iff_spells {body : List UInt8} {fields : ErrorOrNoticeFields} :
    Decodes decode body fields ↔ fields.Spells body := by
  constructor
  · intro h
    obtain ⟨coded, hcoded, rfl⟩ := exists_of_decodes h
    exact ⟨coded, hcoded, (decodes_encodeMany hcoded fields).mp h, rfl⟩
  · rintro ⟨coded, hcoded, hget, rfl⟩
    exact (decodes_encodeMany hcoded fields).mpr hget

/-- A field is among those that are present if it has this value. -/
theorem mem_present {fields : ErrorOrNoticeFields} {field : CodedField} :
    field ∈ fields.present ↔ fields.get field.name = some field.value := by
  have hall : field.name ∈ FieldName.all := by cases field.name <;> decide
  rcases field with ⟨name, value⟩
  simp only [present, List.mem_filterMap, Option.map_eq_some_iff, CodedField.mk.injEq]
  constructor
  · rintro ⟨_, _, v, hv, rfl, rfl⟩
    exact hv
  · exact fun h => ⟨name, hall, value, h, rfl, rfl⟩

/-- No field is present twice. -/
theorem nodup_present (fields : ErrorOrNoticeFields) : fields.present.Nodup := by
  refine List.Nodup.filterMap (fun name name' field h h' => ?_) (by decide)
  obtain ⟨_, -, rfl⟩ := Option.map_eq_some_iff.mp h
  obtain ⟨_, -, heq⟩ := Option.map_eq_some_iff.mp h'
  exact (congrArg CodedField.name heq).symm

/-- The last value of a name is that of some field. -/
theorem mem_of_lastValue {coded : List CodedField} {name : FieldName} {value : List UInt8}
    (h : lastValue coded name = some value) : ⟨name, value⟩ ∈ coded := by
  obtain ⟨field, hlast, rfl⟩ := Option.map_eq_some_iff.mp h
  obtain ⟨hmem, hname⟩ := List.mem_filter.mp (List.mem_of_getLast? hlast)
  obtain rfl := of_decide_eq_true hname
  exact hmem

/-- Every name is present at most once, so its last value is its value. -/
theorem lastValue_present (fields : ErrorOrNoticeFields) (name : FieldName) :
    lastValue fields.present name = fields.get name := by
  rcases hlast : lastValue fields.present name with _ | value
  · rw [lastValue, Option.map_eq_none_iff, List.getLast?_eq_none_iff, List.filter_eq_nil_iff] at hlast
    refine (Option.eq_none_iff_forall_ne_some.mpr fun value hvalue => ?_).symm
    exact hlast ⟨name, value⟩ (mem_present.mpr hvalue) (decide_eq_true rfl)
  · exact (mem_present.mp (mem_of_lastValue hlast)).symm

/-- The canonical encoding spells the fields that it encodes. -/
theorem spells_encode {fields : ErrorOrNoticeFields} (h : fields.WellFormed) :
    fields.Spells fields.encode :=
  ⟨fields.present, fun field hfield => h field.name field.value (mem_present.mp hfield),
    fun name => (lastValue_present fields name).symm, rfl⟩

/-- What is spelled has no zero byte in it. -/
theorem Spells.wellFormed {fields : ErrorOrNoticeFields} {body : List UInt8}
    (h : fields.Spells body) : fields.WellFormed := by
  obtain ⟨coded, hcoded, hget, -⟩ := h
  intro name value hvalue
  exact hcoded ⟨name, value⟩ (mem_of_lastValue ((hget name).symm.trans hvalue))

/-- No body of a record is shorter than the one in which every field comes once. -/
theorem Spells.length_encode_le {fields : ErrorOrNoticeFields} {body : List UInt8}
    (h : fields.Spells body) : fields.encode.length ≤ body.length := by
  obtain ⟨coded, -, hget, rfl⟩ := h
  have hsubset : fields.present ⊆ coded := fun field hfield =>
    mem_of_lastValue ((hget field.name).symm.trans (mem_present.mp hfield))
  obtain ⟨coded', hperm, hsub⟩ := fields.nodup_present.subperm hsubset
  have hlen := (hsub.flatMap CodedField.encode).length_le
  rw [(hperm.flatMap_right CodedField.encode).length_eq] at hlen
  simpa [ErrorOrNoticeFields.encode, encodeMany] using hlen

end ErrorOrNoticeFields

end Postgread.Body
