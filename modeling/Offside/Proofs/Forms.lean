import Mathlib.Data.List.Basic
import Mathlib.Data.List.Nodup
import Offside.Json.Forms

/-!
This module contains the faithfulness of the JSON forms. A value has several forms, with objects and
arrays inside each other. All of them are read as the value, and one of them is the form that is
written.
-/

namespace Offside

namespace Json

/--
Whether a JSON value is a record with the given fields, which are listed in their order. Those among
`defaults` may be left out. The members of an object come in any order, next to others whose names
are not those of fields.
-/
inductive IsRecordOf (defaults fields : List (String × Json)) : Json → Prop where
  | object {present foreign members : List (String × Json)} :
    present.Sublist fields →
    (∀ field ∈ fields, field ∈ present ∨ field ∈ defaults) →
    (∀ member ∈ foreign, member.1 ∉ fields.map Prod.fst) →
    members.Perm (present ++ foreign) →
    IsRecordOf defaults fields (.obj members)
  | array {present omitted : List (String × Json)} :
    fields = present ++ omitted →
    (∀ field ∈ omitted, field ∈ defaults) →
    IsRecordOf defaults fields (.arr (present.map Prod.snd))

theorem lookup_eq_some_of_unique {members : List (String × Json)} {name : String} {value : Json}
    (hmem : (name, value) ∈ members) (hunique : ∀ other, (name, other) ∈ members → other = value) :
    members.lookup name = some value := by
  cases hlookup : members.lookup name with
  | none =>
    rw [List.lookup_eq_none_iff] at hlookup
    simpa using hlookup _ hmem
  | some other =>
    rw [List.lookup_eq_some_iff] at hlookup
    rcases hlookup with ⟨front, back, hmembers, -⟩
    rw [hunique other (by simp [hmembers])]

theorem lookup_eq_none_of_forall_ne {members : List (String × Json)} {name : String}
    (h : ∀ value, (name, value) ∉ members) : members.lookup name = none := by
  rw [List.lookup_eq_none_iff]
  rintro ⟨other, value⟩ hmem
  have hne : name ≠ other := by
    rintro rfl
    exact h value hmem
  simpa using hne

namespace IsRecordOf

variable {defaults fields : List (String × Json)} {json value : Json} {index : Nat} {name : String}

theorem refl (defaults fields : List (String × Json)) :
    IsRecordOf defaults fields (.obj fields) := by
  apply @IsRecordOf.object defaults fields fields []
  . apply List.Sublist.refl
  . intro field hmem
    exact .inl hmem
  . intro member hmem
    contradiction
  . rw [List.append_nil]

theorem isRecord (h : IsRecordOf defaults fields json) (count : Nat)
    (hcount : fields.length = count) : json.isRecord count = true := by
  cases h with
  | object => rfl
  | array hfields =>
    rw [Json.isRecord, ← hcount, hfields]
    simp

theorem field?_cases (h : IsRecordOf defaults fields json)
    (hnames : (fields.map Prod.fst).Nodup) (hfield : fields[index]? = some (name, value)) :
    json.field? index name = some value ∨
      json.field? index name = none ∧ (name, value) ∈ defaults := by
  have hmem : (name, value) ∈ fields := List.mem_of_getElem? hfield
  cases h with
  | @object present foreign members hpresent hrest hforeign hperm =>
    -- A member of this name is the field, and it is among those that are present.
    have hmember : ∀ other, (name, other) ∈ members → other = value ∧ (name, value) ∈ present := by
      intro other hother
      rw [hperm.mem_iff, List.mem_append] at hother
      cases hother with
      | inl hother =>
        have heq := List.inj_on_of_nodup_map hnames (hpresent.mem hother) hmem rfl
        rw [heq] at hother
        exact ⟨(Prod.mk.inj heq).2, hother⟩
      | inr hother => exact absurd (List.mem_map_of_mem hmem) (hforeign (name, other) hother)
    by_cases hhere : (name, value) ∈ present
    . left
      apply lookup_eq_some_of_unique
      . rw [hperm.mem_iff, List.mem_append]
        exact .inl hhere
      . intro other hother
        exact (hmember other hother).1
    . right
      constructor
      . apply lookup_eq_none_of_forall_ne
        intro other hother
        exact hhere (hmember other hother).2
      . exact (hrest _ hmem).resolve_left hhere
  | @array present omitted hfields homitted =>
    rw [hfields] at hfield
    by_cases hlt : index < present.length
    . left
      rw [List.getElem?_append_left hlt] at hfield
      simp [field?, hfield]
    . right
      have hle := Nat.le_of_not_lt hlt
      rw [List.getElem?_append_right hle] at hfield
      constructor
      . simp [field?, hle]
      . exact homitted _ (List.mem_of_getElem? hfield)

theorem required_eq {α : Type} (h : IsRecordOf [] fields json)
    (hnames : (fields.map Prod.fst).Nodup) (hfield : fields[index]? = some (name, value))
    (read : Json → Option α) : json.required index name read = read value := by
  rcases h.field?_cases hnames hfield with hvalue | ⟨-, hdefault⟩
  . rw [required, hvalue, Option.bind_some]
  . contradiction

theorem optional_eq {α : Type} {default a : α} {read : Json → Option α}
    (h : IsRecordOf defaults fields json) (hnames : (fields.map Prod.fst).Nodup)
    (hfield : fields[index]? = some (name, value)) (hread : read value = some a)
    (hdefault : (name, value) ∈ defaults → a = default) :
    json.optional index name default read = some a := by
  unfold optional
  rcases h.field?_cases hnames hfield with hvalue | ⟨hnone, hmem⟩
  . rw [hvalue]
    exact hread
  . rw [hnone, hdefault hmem]

end IsRecordOf

theorem bool?_bool (value : Bool) : bool? (.bool value) = some value := rfl

theorem uint32?_int (word : UInt32) : uint32? (.int word.toNat) = some word := by
  have h : below? UInt32.size (.int word.toNat) = some word.toNat := if_pos word.toNat_lt
  simp [uint32?, h]

theorem uint64?_int (word : UInt64) : uint64? (.int word.toNat) = some word := by
  have h : below? UInt64.size (.int word.toNat) = some word.toNat := if_pos word.toNat_lt
  simp [uint64?, h]

theorem int64?_int (word : Int64) : int64? (.int word.toInt) = some word := by
  rw [int64?, if_pos ⟨word.minValue_le_toInt, word.toInt_le⟩, Int64.ofInt_toInt]

structure Codec (α : Type) where
  toJson : α → Json
  ofJson? : Json → Option α
  HasForm : α → Json → Prop

/--
Whether all forms of a value are read as that value. What is written for a value is one of them, and
what is written for a value that was read is read and written as the same again.
-/
structure Codec.Faithful {α : Type} (codec : Codec α) : Prop where
  ofJson?_toJson : ∀ a, codec.ofJson? (codec.toJson a) = some a
  ofJson?_of_hasForm : ∀ a json, codec.HasForm a json → codec.ofJson? json = some a
  hasForm_toJson : ∀ a, codec.HasForm a (codec.toJson a)
  toJson_again : ∀ json a, codec.ofJson? json = some a →
    ∃ b, codec.ofJson? (codec.toJson a) = some b ∧ codec.toJson b = codec.toJson a

theorem Codec.Faithful.of_hasForm {α : Type} {codec : Codec α}
    (hread : ∀ a json, codec.HasForm a json → codec.ofJson? json = some a)
    (hforms : ∀ a, codec.HasForm a (codec.toJson a)) : codec.Faithful := by
  have hwritten : ∀ a, codec.ofJson? (codec.toJson a) = some a := by
    intro a
    apply hread
    apply hforms
  constructor
  . exact hwritten
  . exact hread
  . exact hforms
  . intro json a _
    exact ⟨a, hwritten a, rfl⟩

end Json

open Json

namespace Options

def fields (options : Options) : List (String × Json) :=
  [("file_id", .int options.fileId.toNat), ("emit_eof", .bool options.markEnd),
    ("strict_indent_step", .bool options.singleStep)]

def HasForm (options : Options) : Json → Prop :=
  IsRecordOf (fields {}) options.fields

theorem ofJson?_of_hasForm {options : Options} {json : Json} (h : options.HasForm json) :
    ofJson? json = some options := by
  have hnames : (options.fields.map Prod.fst).Nodup := by
    simp [fields]
  have hfileId : json.optional 0 "file_id" 0 uint32? = some options.fileId := by
    apply h.optional_eq hnames rfl (uint32?_int _)
    intro hmem
    simpa [fields, ← UInt32.toNat_inj] using hmem
  have hmarkEnd : json.optional 1 "emit_eof" false bool? = some options.markEnd := by
    apply h.optional_eq hnames rfl (bool?_bool _)
    intro hmem
    simpa [fields] using hmem
  have hsingleStep :
      json.optional 2 "strict_indent_step" false bool? = some options.singleStep := by
    apply h.optional_eq hnames rfl (bool?_bool _)
    intro hmem
    simpa [fields] using hmem
  rw [ofJson?, if_pos (h.isRecord 3 rfl), hfileId, hmarkEnd, hsingleStep]
  rfl

end Options

namespace Position

def HasForm (pos : Position) : Json → Prop :=
  IsRecordOf [] [("line", .int pos.line.toNat), ("column", .int pos.column.toNat),
    ("offset", .int pos.offset.toNat)]

theorem hasForm_toJson (pos : Position) : pos.HasForm pos.toJson := by
  apply IsRecordOf.refl

theorem ofJson?_of_hasForm {pos : Position} {json : Json} (h : pos.HasForm json) :
    ofJson? json = some pos := by
  rw [ofJson?, if_pos (h.isRecord 3 rfl), h.required_eq (by simp) rfl, h.required_eq (by simp) rfl,
    h.required_eq (by simp) rfl, uint32?_int, uint32?_int, uint64?_int]
  rfl

end Position

namespace Span

def HasForm (span : Span) (json : Json) : Prop :=
  ∃ start stop, span.start.HasForm start ∧ span.stop.HasForm stop ∧
    IsRecordOf [] [("start", start), ("end", stop), ("file_id", .int span.fileId.toNat)] json

theorem hasForm_toJson (span : Span) : span.HasForm span.toJson :=
  ⟨_, _, span.start.hasForm_toJson, span.stop.hasForm_toJson, .refl _ _⟩

theorem ofJson?_of_hasForm {span : Span} {json : Json} (h : span.HasForm json) :
    ofJson? json = some span := by
  rcases h with ⟨start, stop, hstart, hstop, h⟩
  rw [ofJson?, if_pos (h.isRecord 3 rfl), h.required_eq (by simp) rfl, h.required_eq (by simp) rfl,
    h.required_eq (by simp) rfl, Position.ofJson?_of_hasForm hstart,
    Position.ofJson?_of_hasForm hstop, uint32?_int]
  rfl

end Span

namespace TokenKind

inductive HasForm (kind : TokenKind) : Json → Prop where
  | written : HasForm kind kind.toJson
  | object : kind ∈ plain → HasForm kind (.obj [(kind.name, .null)])

theorem ofJson?_of_mem_plain : ∀ kind ∈ plain,
    ofJson? kind.toJson = some kind ∧ ofJson? (.obj [(kind.name, .null)]) = some kind := by
  decide

theorem mem_plain_cases (kind : TokenKind) :
    kind ∈ plain ∨ (∃ value, kind = .int value) ∨ (∃ text, kind = .string text) ∨
      ∃ name, kind = .ident name := by
  cases kind with
  | int value => exact .inr (.inl ⟨value, rfl⟩)
  | string text => exact .inr (.inr (.inl ⟨text, rfl⟩))
  | ident name => exact .inr (.inr (.inr ⟨name, rfl⟩))
  | keyword word => simp [plain, word.mem_all]
  | symbol sign => simp [plain, sign.mem_all]
  | _ => simp [plain]

theorem ofJson?_of_hasForm {kind : TokenKind} {json : Json} (h : kind.HasForm json) :
    ofJson? json = some kind := by
  cases h with
  | object hplain => exact (ofJson?_of_mem_plain kind hplain).2
  | written =>
    rcases kind.mem_plain_cases with hplain | ⟨value, rfl⟩ | ⟨text, rfl⟩ | ⟨name, rfl⟩
    . exact (ofJson?_of_mem_plain kind hplain).1
    . exact congrArg (Option.map TokenKind.int) (int64?_int value)
    . rfl
    . rfl

end TokenKind

namespace Token

def HasForm (token : Token) (json : Json) : Prop :=
  ∃ kind span, token.kind.HasForm kind ∧ token.span.HasForm span ∧
    IsRecordOf [] [("kind", kind), ("span", span)] json

theorem hasForm_toJson (token : Token) : token.HasForm token.toJson :=
  ⟨_, _, .written, token.span.hasForm_toJson, .refl _ _⟩

theorem ofJson?_of_hasForm {token : Token} {json : Json} (h : token.HasForm json) :
    ofJson? json = some token := by
  rcases h with ⟨kind, span, hkind, hspan, h⟩
  rw [ofJson?, if_pos (h.isRecord 2 rfl), h.required_eq (by simp) rfl, h.required_eq (by simp) rfl,
    TokenKind.ofJson?_of_hasForm hkind, Span.ofJson?_of_hasForm hspan]
  rfl

end Token

namespace LexicalErrorKind

inductive HasForm (kind : LexicalErrorKind) : Json → Prop where
  | written : HasForm kind kind.toJson
  | object : HasForm kind (.obj [(kind.name, .null)])

theorem ofJson?_of_hasForm {kind : LexicalErrorKind} {json : Json} (h : kind.HasForm json) :
    ofJson? json = some kind := by
  cases h <;> cases kind <;> rfl

end LexicalErrorKind

namespace LexicalError

def HasForm (error : LexicalError) (json : Json) : Prop :=
  ∃ kind, error.kind.HasForm kind ∧
    IsRecordOf [] [("kind", kind), ("line", .int error.line.toNat),
      ("column", .int error.column.toNat), ("message", .str error.message)] json

theorem hasForm_toJson (error : LexicalError) : error.HasForm error.toJson :=
  ⟨_, .written, .refl _ _⟩

theorem ofJson?_of_hasForm {error : LexicalError} {json : Json} (h : error.HasForm json) :
    ofJson? json = some error := by
  rcases h with ⟨kind, hkind, h⟩
  rw [ofJson?, if_pos (h.isRecord 4 rfl), h.required_eq (by simp) rfl, h.required_eq (by simp) rfl,
    h.required_eq (by simp) rfl, h.required_eq (by simp) rfl,
    LexicalErrorKind.ofJson?_of_hasForm hkind, uint32?_int, uint32?_int]
  rfl

end LexicalError

/--
The JSON forms of options, tokens and errors and of what they are made of are faithful.
-/
theorem Json.forms_are_faithful :
    Codec.Faithful ⟨Options.toJson, Options.ofJson?, Options.HasForm⟩ ∧
      Codec.Faithful ⟨TokenKind.toJson, TokenKind.ofJson?, TokenKind.HasForm⟩ ∧
      Codec.Faithful ⟨Token.toJson, Token.ofJson?, Token.HasForm⟩ ∧
      Codec.Faithful ⟨Position.toJson, Position.ofJson?, Position.HasForm⟩ ∧
      Codec.Faithful ⟨Span.toJson, Span.ofJson?, Span.HasForm⟩ ∧
      Codec.Faithful ⟨LexicalErrorKind.toJson, LexicalErrorKind.ofJson?,
        LexicalErrorKind.HasForm⟩ ∧
      Codec.Faithful ⟨LexicalError.toJson, LexicalError.ofJson?, LexicalError.HasForm⟩ := by
  refine ⟨?_, ?_, ?_, ?_, ?_, ?_, ?_⟩
  . exact .of_hasForm (fun _ _ => Options.ofJson?_of_hasForm) fun _ => .refl _ _
  . exact .of_hasForm (fun _ _ => TokenKind.ofJson?_of_hasForm) fun _ => .written
  . exact .of_hasForm (fun _ _ => Token.ofJson?_of_hasForm) Token.hasForm_toJson
  . exact .of_hasForm (fun _ _ => Position.ofJson?_of_hasForm) Position.hasForm_toJson
  . exact .of_hasForm (fun _ _ => Span.ofJson?_of_hasForm) Span.hasForm_toJson
  . exact .of_hasForm (fun _ _ => LexicalErrorKind.ofJson?_of_hasForm) fun _ => .written
  . exact .of_hasForm (fun _ _ => LexicalError.ofJson?_of_hasForm) LexicalError.hasForm_toJson

example : Token.ofJson? (.arr [.obj [("Plus", .null)], .obj [("file_id", .int 7),
    ("end", .arr [.int 1, .int 3, .int 2]), ("note", .null),
    ("start", .obj [("offset", .int 1), ("line", .int 1), ("column", .int 2)])]]) =
      some ⟨.symbol .plus, ⟨⟨1, 2, 1⟩, ⟨1, 3, 2⟩, 7⟩⟩ := by
  decide

end Offside
