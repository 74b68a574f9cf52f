import Mathlib.Computability.Language
import ProtoBundle.Proofs.Source.Syntax
import ProtoBundle.Source.Rules

namespace ProtoBundle.Source

open scoped Computability

abbrev LexemeLanguage := Language (Terminal × Lexeme)

def lexemes (t : Terminal) : LexemeLanguage := {ls | ∃ l, ls = [(t, l)]}

def Ebnf.language (e : Ebnf) : LexemeLanguage := {ls | ∃ ts, Derives e ls ts}

section Items

variable {c : Construct} {e : Ebnf} {es : List Ebnf} {t : Terminal}

@[simp]
theorem language_terminal : (Ebnf.terminal t).language = lexemes t := by
  ext ls
  constructor
  · rintro ⟨ts, h⟩
    cases h with
    | terminal t l => exact ⟨l, rfl⟩
  · rintro ⟨l, rfl⟩
    exact ⟨_, .terminal t l⟩

theorem language_rule (hp : Ebnf.production c = some es) : (Ebnf.rule c).language = (Ebnf.all es).language := by
  ext ls
  constructor
  · rintro ⟨ts, h⟩
    cases h with
    | rule hq h =>
        cases hp.symm.trans hq
        exact ⟨_, h⟩
  · rintro ⟨ts, h⟩
    exact ⟨_, .rule hp h⟩

@[simp]
theorem language_named : (Ebnf.named c es).language = (Ebnf.all es).language := by
  ext ls
  constructor
  · rintro ⟨ts, h⟩
    cases h with
    | named _ h => exact ⟨_, h⟩
  · rintro ⟨ts, h⟩
    exact ⟨_, .named c h⟩

@[simp]
theorem language_all_nil : (Ebnf.all []).language = 1 := by
  ext ls
  rw [Language.mem_one]
  constructor
  · rintro ⟨ts, h⟩
    cases h
    rfl
  · rintro rfl
    exact ⟨_, .nil⟩

@[simp]
theorem language_all_cons : (Ebnf.all (e :: es)).language = e.language * (Ebnf.all es).language := by
  ext ls
  rw [Language.mem_mul]
  constructor
  · rintro ⟨ts, h⟩
    cases h with
    | cons h hs => exact ⟨_, ⟨_, h⟩, _, ⟨_, hs⟩, rfl⟩
  · rintro ⟨_, ⟨_, h⟩, _, ⟨_, hs⟩, rfl⟩
    exact ⟨_, h.cons hs⟩

@[simp]
theorem language_any_nil : (Ebnf.any []).language = 0 := by
  ext ls
  constructor
  · rintro ⟨ts, h⟩
    cases h with
    | any he _ => cases he
  · exact fun h => absurd h (Language.notMem_zero _)

@[simp]
theorem language_any_cons : (Ebnf.any (e :: es)).language = e.language + (Ebnf.any es).language := by
  ext ls
  rw [Language.mem_add]
  constructor
  · rintro ⟨ts, h⟩
    cases h with
    | any he h =>
        rcases List.mem_cons.mp he with rfl | he
        · exact .inl ⟨_, h⟩
        · exact .inr ⟨_, .any he h⟩
  · rintro (⟨ts, h⟩ | ⟨ts, h⟩)
    · exact ⟨_, .any List.mem_cons_self h⟩
    · cases h with
      | any he h => exact ⟨_, .any (List.mem_cons_of_mem _ he) h⟩

@[simp]
theorem language_optional : (Ebnf.optional es).language = (Ebnf.all es).language + 1 := by
  ext ls
  rw [Language.mem_add, Language.mem_one]
  constructor
  · rintro ⟨ts, h⟩
    cases h with
    | present h => exact .inl ⟨_, h⟩
    | absent => exact .inr rfl
  · rintro (⟨ts, h⟩ | rfl)
    · exact ⟨_, .present h⟩
    · exact ⟨_, .absent es⟩

@[simp]
theorem language_many : (Ebnf.many es).language = (Ebnf.all es).language∗ := by
  ext ls
  rw [Language.mem_kstar]
  constructor
  · rintro ⟨ts, h⟩
    generalize he : Ebnf.many es = e at h
    induction h with
    | @again es' ls ks ts us h hs ih ihs =>
        cases he
        obtain ⟨pieces, rfl, hp⟩ := ihs rfl
        exact ⟨ls :: pieces, rfl, List.forall_mem_cons.mpr ⟨⟨_, h⟩, hp⟩⟩
    | stop => exact ⟨[], rfl, fun _ h => absurd h List.not_mem_nil⟩
    | _ => cases he
  · rintro ⟨pieces, rfl, hp⟩
    induction pieces with
    | nil => exact ⟨_, .stop es⟩
    | cons piece pieces ih =>
        obtain ⟨⟨ts, h⟩, hp⟩ := List.forall_mem_cons.mp hp
        obtain ⟨us, hs⟩ := ih hp
        exact ⟨_, h.again hs⟩

end Items

namespace Grammar

variable {ρ α β : Type} {self : LexemeLanguage}

def language (self : LexemeLanguage) : {α : Type} → Grammar ρ α → LexemeLanguage
  | _, .terminal t => lexemes t
  | _, .self => self
  | _, .both a b => a.language self * b.language self
  | _, .either a b => a.language self + b.language self
  | _, .optional a => a.language self + 1
  | _, .many a => (a.language self)∗
  | _, .map _ a => a.language self

section Constructors

variable (t : Terminal) (f : α → β) (a a' : Grammar ρ α) (b : Grammar ρ β)

@[simp]
theorem language_lexemes : (terminal t : Grammar ρ Lexeme).language self = lexemes t := rfl

@[simp]
theorem language_self : (.self : Grammar ρ ρ).language self = self := rfl

@[simp]
theorem language_both : (both a b).language self = a.language self * b.language self := rfl

@[simp]
theorem language_either : (either a a').language self = a.language self + a'.language self := rfl

@[simp]
theorem language_maybe : (optional a).language self = a.language self + 1 := rfl

@[simp]
theorem language_repeated : (many a).language self = (a.language self)∗ := rfl

@[simp]
theorem language_map : (map f a).language self = a.language self := rfl

end Constructors

@[simp]
theorem language_word (w : String) : (word w : Grammar ρ Unit).language self = (Ebnf.word w).language := by
  rw [Ebnf.word, language_terminal]
  rfl

@[simp]
theorem language_after (w : String) (a : Grammar ρ α) :
    (after w a).language self = (Ebnf.word w).language * a.language self :=
  congrArg (· * a.language self) (language_word w)

@[simp]
theorem language_before (w : String) (a : Grammar ρ α) :
    (a.before w).language self = a.language self * (Ebnf.word w).language :=
  congrArg (a.language self * ·) (language_word w)

@[simp]
theorem language_between (opening closing : String) (a : Grammar ρ α) :
    (between opening a closing).language self =
      (Ebnf.word opening).language * (a.language self * (Ebnf.word closing).language) := by
  rw [between, language_after, language_before]

@[simp]
theorem language_separated (w : String) (a : Grammar ρ α) :
    (separated a w).language self = a.language self * ((Ebnf.word w).language * a.language self)∗ := by
  rw [← language_after]
  rfl

end Grammar

namespace Rules

variable {self : LexemeLanguage}

theorem language_constant : constant.language self = Ebnf.constant.language := by
  simp [constant, Ebnf.constant]

theorem language_setting : setting.language self = (Ebnf.rule .setting).language := by
  rw [language_rule rfl]
  simp [setting, language_constant, mul_assoc]

theorem language_settings : settings.language self = (Ebnf.optional [.rule .settings]).language := by
  rw [language_optional, language_all_cons, language_rule (c := .settings) rfl]
  simp [settings, language_setting, mul_assoc, Ebnf.separated]

theorem language_optionStatement : optionStatement.language self = (Ebnf.rule .optionStatement).language := by
  rw [language_rule rfl, optionStatement, Grammar.language_between, language_setting, language_rule (c := .setting) rfl]
  simp [mul_assoc]

theorem language_numbered {α : Type} (a : Rule α) (number : Terminal) :
    (numbered a number).language self = a.language self * (Ebnf.all (Ebnf.numbered number)).language := by
  simp [numbered, language_settings, mul_assoc, Ebnf.numbered]

theorem language_block {α : Type} (opening : String) {item : Rule α} {e : Ebnf} (h : item.language self = e.language) :
    (block opening item).language self = (Ebnf.all (Ebnf.block opening e)).language := by
  simp [block, h, Ebnf.block]

theorem language_empty {α : Type} (a : α) : (empty a : Rule α).language self = (Ebnf.rule .emptyStatement).language := by
  rw [language_rule rfl]
  simp [empty]

theorem language_field : field.language self = (Ebnf.rule .field).language := by
  rw [language_rule rfl]
  simp [field, language_numbered, mul_assoc]

theorem language_mapField : mapField.language self = (Ebnf.rule .mapField).language := by
  rw [language_rule rfl]
  simp [mapField, mapTypes, language_numbered, mul_assoc]

theorem language_oneof : oneof.language self = (Ebnf.rule .oneof).language := by
  have hfield : oneofField.language self = (Ebnf.rule .oneofField).language := by
    rw [language_rule rfl]
    simp [oneofField, language_numbered, mul_assoc]
  have hitem : oneofItem.language self = Ebnf.oneofItem.language := by
    simp [oneofItem, Ebnf.oneofItem, hfield, language_optionStatement, language_empty]
  exact (language_block "oneof" hitem).trans (language_rule rfl).symm

theorem language_idRange : idRange.language self = (Ebnf.rule .idRange).language := by
  rw [language_rule rfl]
  simp [idRange, rangeEnd]

theorem language_reserved : reserved.language self = (Ebnf.rule .reserved).language := by
  have hitem : reservedItem.language self = Ebnf.reservedItem.language := by
    simp [reservedItem, Ebnf.reservedItem, language_idRange]
  rw [language_rule rfl]
  simp [reserved, Ebnf.separated, hitem, mul_assoc]

theorem language_extensions : extensions.language self = (Ebnf.rule .extensions).language := by
  rw [language_rule rfl]
  simp [extensions, language_idRange, language_settings, mul_assoc]

theorem language_enum : enum.language self = (Ebnf.rule .enum).language := by
  have hvalue : enumValue.language self = (Ebnf.rule .enumValue).language := by
    rw [language_rule rfl]
    simp [enumValue, language_numbered]
  have hitem : enumItem.language self = Ebnf.enumItem.language := by
    simp [enumItem, Ebnf.enumItem, hvalue, language_optionStatement, language_reserved,
      language_empty]
  exact (language_block "enum" hitem).trans (language_rule rfl).symm

theorem language_rpcType : rpcType.language self = (Ebnf.all Ebnf.rpcType).language := by
  simp [rpcType, Ebnf.rpcType, mul_assoc]

theorem language_rpcBody : rpcBody.language self = (Ebnf.rule .rpcBody).language := by
  have hoption : serviceOption.language self = Ebnf.serviceOption.language := by
    simp [serviceOption, Ebnf.serviceOption, language_optionStatement, language_empty]
  rw [language_rule rfl]
  simp [rpcBody, hoption, language_empty, language_rule (c := .emptyStatement) rfl]

theorem language_service : service.language self = (Ebnf.rule .service).language := by
  have hrpc : rpc.language self = (Ebnf.rule .rpc).language := by
    rw [language_rule rfl]
    simp [rpc, language_rpcType, language_rpcBody, mul_assoc, Ebnf.rpcType]
  have hitem : serviceItem.language self = Ebnf.serviceItem.language := by
    simp [serviceItem, Ebnf.serviceItem, hrpc, language_optionStatement, language_empty]
  exact (language_block "service" hitem).trans (language_rule rfl).symm

theorem language_message : message.language (Ebnf.rule .message).language = (Ebnf.rule .message).language := by
  have hitem : messageItem.language (Ebnf.rule .message).language = Ebnf.messageItem.language := by
    simp [messageItem, Ebnf.messageItem, language_field, language_mapField, language_oneof,
      language_enum, language_optionStatement, language_reserved, language_extensions, language_empty]
  exact (language_block "message" hitem).trans (language_rule rfl).symm

theorem language_file : file.language (Ebnf.rule .message).language = (Ebnf.rule .file).language := by
  have hitem : statement.language (Ebnf.rule .message).language = Ebnf.statement.language := by
    simp [statement, Ebnf.statement, language_optionStatement, language_enum, language_service,
      language_empty, language_rule (c := .dialectStatement) rfl, language_rule (c := .packageStatement) rfl,
      language_rule (c := .importStatement) rfl, mul_assoc]
  rw [language_rule (c := .file) rfl]
  simp [file, hitem]

end Rules

end ProtoBundle.Source
