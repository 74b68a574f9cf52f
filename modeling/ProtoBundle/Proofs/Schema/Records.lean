import ProtoBundle.Proofs.Schema.Alongside
import ProtoBundle.Proofs.Schema.Essentials
import ProtoBundle.Proofs.Schema.Faults
import ProtoBundle.Proofs.Schema.Tables

namespace ProtoBundle

open Source (Tree Lexeme)

section Records

inductive Options.Sets : Tree → String × Value → Prop
  | intro (construct : Source.Construct) (name : Lexeme) {c : Source.Constant} {v : Value}
      (h : Value.ofConstant c = .ok v) :
      Sets (.node construct [.token .optionName name, Tree.ofConstant c]) (name.text, v)

def Options.Records (settings : List Tree) (o : Options) : Prop :=
  ∃ entries, List.Forall₂ Sets settings entries ∧ o.names = (entries.map Prod.fst).eraseDups ∧
    ∀ name, o.get? name = ((entries.filter fun e => e.1 == name).map Prod.snd).getLast?

/-- A field without a label is optional, as all fields of oneofs are. -/
inductive Field.Declared : Tree → Field → Prop
  | plain (label : Option Lexeme) (type name : Lexeme) {number : Lexeme} (settings : Tree) {i : Int}
      (h : number.integer .field = .ok i) (options : Options) :
      Declared (.node .field [.optional (.token .label) label, .token .typeName type, .token .identifier name,
        .token .integer number, settings])
        ⟨(label.map Lexeme.text).getD "optional", type.text, name.text, i, options, none, none⟩
  | map (key value name : Lexeme) {number : Lexeme} (settings : Tree) {i : Int} (h : number.integer .mapField = .ok i)
      (options : Options) :
      Declared (.node .mapField [.token .typeName key, .token .typeName value, .token .identifier name,
        .token .integer number, settings])
        ⟨"map", value.text, name.text, i, options, some key.text, none⟩
  | member (type name : Lexeme) {number : Lexeme} (settings : Tree) {i : Int} (h : number.integer .oneofField = .ok i)
      (options : Options) (oneof : String) :
      Declared (.node .oneofField [.token .typeName type, .token .identifier name, .token .integer number, settings])
        ⟨"optional", type.text, name.text, i, options, none, some oneof⟩

structure Field.Records (t : Tree) (f : Field) : Prop where
  declared : Field.Declared t f
  options : Options.Records t.settings f.options

structure Message.RecordsOneof (t : Tree) (block : String × List Field) : Prop where
  name : t.name? = some block.1
  fields : List.Forall₂ Field.Records t.fields block.2
  members : ∀ f ∈ block.2, f.oneof = some block.1

inductive EnumValue.Declared : Tree → EnumValue → Prop
  | intro (name : Lexeme) {number : Lexeme} (settings : Tree) {i : Int} (h : number.integer .enumValue = .ok i)
      (options : Options) :
      Declared (.node .enumValue [.token .identifier name, .token .signedInteger number, settings])
        ⟨name.text, i, options⟩

structure EnumValue.Records (t : Tree) (v : EnumValue) : Prop where
  declared : EnumValue.Declared t v
  options : Options.Records t.settings v.options

structure Enum.Records (t : Tree) (e : Enum) : Prop where
  name : t.name? = some e.name
  values : List.Forall₂ EnumValue.Records t.values e.values
  options : Options.Records t.options e.options

inductive Rpc.Declared : Tree → Rpc → Prop
  | intro (name : Lexeme) (requestStream : Option Lexeme) (request : Lexeme) (responseStream : Option Lexeme)
      (response : Lexeme) (body : Tree) (options : Options) :
      Declared (.node .rpc [.token .identifier name, .optional (.token .stream) requestStream, .token .typeName request,
        .optional (.token .stream) responseStream, .token .typeName response, body])
        ⟨name.text, request.text, requestStream.isSome, response.text, responseStream.isSome, options⟩

structure Rpc.Records (t : Tree) (r : Rpc) : Prop where
  declared : Rpc.Declared t r
  options : Options.Records t.options r.options

structure Service.Records (t : Tree) (s : Service) : Prop where
  name : t.name? = some s.name
  rpcs : List.Forall₂ Rpc.Records t.rpcs s.rpcs
  options : Options.Records t.options s.options

/-- The nested messages are left to `Message.Alongside`. -/
structure Message.Records (t : Tree) (m : Message) : Prop where
  name : t.name? = some m.name
  fields : List.Forall₂ Field.Records t.fields m.fields
  oneofs : ∃ blocks, List.Forall₂ RecordsOneof t.oneofs blocks ∧
    m.fields.filter (fun f => f.oneof.isSome) = blocks.flatMap Prod.snd
  enums : List.Forall₂ Enum.Records t.enums m.enums
  options : Options.Records t.options m.options

inductive Import.Records : Tree → Import Schema → Prop
  | intro (kind : Option Lexeme) (path : Lexeme) :
      Records (.node .importStatement [.optional (.token .importKind) kind, .token .quoted path])
        (.reference path.unquoted)

structure Schema.Records (t : Tree) (s : Schema) : Prop where
  messages : List.Forall₂ (Message.Alongside Message.Records) t.messages s.messages
  enums : List.Forall₂ Enum.Records t.enums s.enums
  services : List.Forall₂ Service.Records t.services s.services
  imports : List.Forall₂ Import.Records t.imports s.imports
  options : Options.Records t.options s.options

end Records

theorem Source.Tree.MadeOf.records_nothing {α : Type} {R : Tree → α → Prop} {t : Tree}
    {cs containers kinds : List Source.Construct} (h : t.MadeOf cs) (hl : Tree.lacks cs kinds = true) :
    List.Forall₂ R (t.outermost containers kinds) [] := by
  rw [h.outermost_eq_nil hl]
  exact .nil

section Options

theorem Options.sets_of_entry {s : Source.Setting} {e : String × Value} (h : Options.entry s = .ok e)
    (construct : Source.Construct) : Options.Sets (Tree.ofSetting construct s) e := by
  obtain ⟨v, hv, rfl⟩ := exists_of_map_eq_ok h
  exact .intro construct s.name hv

theorem Options.sets_optionStatement {containers : List Source.Construct} {s : Source.Setting} {e : String × Value}
    (h : Options.entry s = .ok e) :
    List.Forall₂ Options.Sets ((Tree.ofOption s).outermost containers [.optionStatement]) [e] := by
  rw [Tree.ofOption, Tree.ofSetting, Tree.outermost_of_mem (by decide)]
  exact .cons (Options.sets_of_entry h .optionStatement) .nil

theorem Options.records_ofList {settings : List Tree} {entries : List (String × Value)}
    (h : List.Forall₂ Options.Sets settings entries) : Options.Records settings (Table.ofList entries) :=
  ⟨entries, h, Table.names_ofList entries, Table.get?_ofList entries⟩

theorem Options.records_ofSettings {settings : Option (List Source.Setting)} {o : Options}
    (h : Options.ofSettings settings = .ok o) : Options.Records (Tree.settingNodes settings) o := by
  obtain ⟨entries, he, rfl⟩ := exists_of_map_eq_ok h
  refine Options.records_ofList (List.forall₂_map_left_iff.mpr ?_)
  exact (mapM_eq_ok_iff.mp he).imp fun s e h => Options.sets_of_entry h .setting

end Options

section Fields

theorem Field.records_ofSource {f : Source.Field} {field : Field} (h : Field.ofSource f = .ok field) :
    Field.Records (Tree.ofField f) field := by
  obtain ⟨o, i, ho, hi, rfl⟩ := exists_of_numbered h
  exact ⟨.plain _ _ _ _ hi o, Tree.settings_ofField f ▸ Options.records_ofSettings ho⟩

theorem Field.records_ofMap {f : Source.MapField} {field : Field} (h : Field.ofMap f = .ok field) :
    Field.Records (Tree.ofMapField f) field := by
  obtain ⟨o, i, ho, hi, rfl⟩ := exists_of_numbered h
  exact ⟨.map _ _ _ _ hi o, Tree.settings_ofMapField f ▸ Options.records_ofSettings ho⟩

theorem Field.records_ofOneof {oneof : String} {f : Source.OneofField} {field : Field}
    (h : Field.ofOneof oneof f = .ok field) : Field.Records (Tree.ofOneofField f) field ∧ field.oneof = some oneof := by
  obtain ⟨o, i, ho, hi, rfl⟩ := exists_of_numbered h
  exact ⟨⟨.member _ _ _ hi o oneof, Tree.settings_ofOneofField f ▸ Options.records_ofSettings ho⟩, rfl⟩

theorem Field.records_ofOneofItem {oneof : String} {item : Source.OneofItem} {field : Option Field}
    (h : Field.ofOneofItem oneof item = .ok field) :
    List.Forall₂ Field.Records
      ((Tree.ofOneofItem item).outermost [.message] [.field, .mapField, .oneofField]) field.toList := by
  cases item with
  | field f =>
      obtain ⟨field, hf, rfl⟩ := exists_of_map_eq_ok h
      rw [Tree.ofOneofItem, Tree.ofOneofField, Tree.outermost_of_mem (by decide)]
      exact .cons (Field.records_ofOneof hf).1 .nil
  | option s =>
      obtain ⟨e, -, rfl⟩ := exists_of_map_eq_ok h
      exact (Tree.madeOf_ofOption s).records_nothing rfl
  | empty =>
      cases h
      exact .nil

theorem Message.recordsOneof_ofOneof {o : Source.Oneof} {fields : List (Option Field)}
    (h : o.items.mapM (Field.ofOneofItem o.name.text) = .ok fields) :
    Message.RecordsOneof (Tree.ofOneof o) (o.name.text, fields.filterMap id) where
  name := rfl
  fields := by
    rw [Tree.fields, Tree.within_ofOneof]
    exact forall₂_selected (mapM_eq_ok_iff.mp h) fun item field h => Field.records_ofOneofItem h
  members := by
    intro f hf
    obtain ⟨_, hm, rfl⟩ := List.mem_filterMap.mp hf
    obtain ⟨item, -, hi⟩ := exists_mem_of_mapM h hm
    cases item with
    | field s =>
        obtain ⟨_, hs, hf⟩ := exists_of_map_eq_ok hi
        cases hf
        exact (Field.records_ofOneof hs).2
    | option s =>
        obtain ⟨_, -, hf⟩ := exists_of_map_eq_ok hi
        cases hf
    | empty => cases hi

end Fields

section Enums

theorem EnumValue.records_readValue {v : Source.EnumValue} {value : EnumValue} (h : Enum.readValue v = .ok value) :
    EnumValue.Records (Tree.ofEnumValue v) value := by
  obtain ⟨o, i, ho, hi, rfl⟩ := exists_of_numbered h
  exact ⟨.intro _ _ hi o, Tree.settings_ofEnumValue v ▸ Options.records_ofSettings ho⟩

theorem Enum.records_values {item : Source.EnumItem} {p : Enum.Part} (h : Enum.part item = .ok p) :
    List.Forall₂ EnumValue.Records ((Tree.ofEnumItem item).outermost [.enum] [.enumValue]) p.value?.toList := by
  cases item with
  | value v =>
      obtain ⟨value, hv, rfl⟩ := exists_of_map_eq_ok h
      rw [Tree.ofEnumItem, Tree.ofEnumValue, Tree.outermost_of_mem (by decide)]
      exact .cons (EnumValue.records_readValue hv) .nil
  | option s =>
      obtain ⟨e, -, rfl⟩ := exists_of_map_eq_ok h
      exact (Tree.madeOf_ofOption s).records_nothing rfl
  | reserved items =>
      obtain ⟨u, -, rfl⟩ := exists_of_map_eq_ok h
      exact (Tree.madeOf_ofReserved items).records_nothing rfl
  | empty =>
      cases h
      exact .nil

theorem Enum.records_options {item : Source.EnumItem} {p : Enum.Part} (h : Enum.part item = .ok p) :
    List.Forall₂ Options.Sets
      ((Tree.ofEnumItem item).outermost [.message, .oneof, .enum, .service, .rpc] [.optionStatement])
      p.option?.toList := by
  cases item with
  | value v =>
      obtain ⟨value, -, rfl⟩ := exists_of_map_eq_ok h
      exact (Tree.madeOf_ofEnumValue v).records_nothing rfl
  | option s =>
      obtain ⟨e, he, rfl⟩ := exists_of_map_eq_ok h
      exact Options.sets_optionStatement he
  | reserved items =>
      obtain ⟨u, -, rfl⟩ := exists_of_map_eq_ok h
      exact (Tree.madeOf_ofReserved items).records_nothing rfl
  | empty =>
      cases h
      exact .nil

theorem Enum.records_ofSource {e : Source.Enum} {enum : Enum} (h : Enum.ofSource e = .ok enum) :
    Enum.Records (Tree.ofEnum e) enum := by
  obtain ⟨parts, hp, rfl⟩ := exists_of_map_eq_ok h
  have hp := mapM_eq_ok_iff.mp hp
  refine ⟨rfl, ?_, ?_⟩
  · rw [Tree.values, Tree.within_ofEnum]
    exact forall₂_selected hp fun item p h => Enum.records_values h
  · rw [Tree.options, Tree.within_ofEnum]
    exact Options.records_ofList (forall₂_selected hp fun item p h => Enum.records_options h)

end Enums

section Services

theorem Rpc.records_readRpc {r : Source.Rpc} {rpc : Rpc} (h : Service.readRpc r = .ok rpc) :
    Rpc.Records (Tree.ofRpc r) rpc := by
  obtain ⟨entries, he, h⟩ := exists_of_bind_eq_ok h
  cases h
  refine ⟨.intro _ _ _ _ _ _ _, ?_⟩
  have hbody : (Tree.ofRpc r).options = r.body.flatMap fun o =>
      (Tree.ofServiceOption o).outermost [.message, .oneof, .enum, .service, .rpc] [.optionStatement] := by
    simp [Tree.ofRpc, Tree.options, Tree.within, Tree.outermost_of_not_mem, List.flatMap_map]
  rw [hbody]
  refine Options.records_ofList (forall₂_selected (mapM_eq_ok_iff.mp he) fun o e h => ?_)
  cases o with
  | option s =>
      obtain ⟨e, he, rfl⟩ := exists_of_map_eq_ok h
      exact Options.sets_optionStatement he
  | empty =>
      cases h
      exact .nil

theorem Service.records_rpcs {item : Source.ServiceItem} {p : Service.Part} (h : Service.part item = .ok p) :
    List.Forall₂ Rpc.Records ((Tree.ofServiceItem item).outermost [.service] [.rpc]) p.rpc?.toList := by
  cases item with
  | rpc r =>
      obtain ⟨rpc, hr, rfl⟩ := exists_of_map_eq_ok h
      rw [Tree.ofServiceItem, Tree.ofRpc, Tree.outermost_of_mem (by decide)]
      exact .cons (Rpc.records_readRpc hr) .nil
  | option s =>
      obtain ⟨e, -, rfl⟩ := exists_of_map_eq_ok h
      exact (Tree.madeOf_ofOption s).records_nothing rfl
  | empty =>
      cases h
      exact .nil

theorem Service.records_options {item : Source.ServiceItem} {p : Service.Part} (h : Service.part item = .ok p) :
    List.Forall₂ Options.Sets
      ((Tree.ofServiceItem item).outermost [.message, .oneof, .enum, .service, .rpc] [.optionStatement])
      p.option?.toList := by
  cases item with
  | rpc r =>
      obtain ⟨rpc, -, rfl⟩ := exists_of_map_eq_ok h
      rw [Tree.ofServiceItem, Tree.ofRpc, Tree.outermost_of_container (by decide) (by decide)]
      exact .nil
  | option s =>
      obtain ⟨e, he, rfl⟩ := exists_of_map_eq_ok h
      exact Options.sets_optionStatement he
  | empty =>
      cases h
      exact .nil

theorem Service.records_ofSource {s : Source.Service} {service : Service} (h : Service.ofSource s = .ok service) :
    Service.Records (Tree.ofService s) service := by
  obtain ⟨parts, hp, rfl⟩ := exists_of_map_eq_ok h
  have hp := mapM_eq_ok_iff.mp hp
  refine ⟨rfl, ?_, ?_⟩
  · rw [Tree.rpcs, Tree.within_ofService]
    exact forall₂_selected hp fun item p h => Service.records_rpcs h
  · rw [Tree.options, Tree.within_ofService]
    exact Options.records_ofList (forall₂_selected hp fun item p h => Service.records_options h)

end Services

section Messages

theorem Message.records_fields {item : Source.MessageItem} {p : Message.Part} (h : Message.Becomes item p) :
    List.Forall₂ Field.Records
      ((Tree.ofMessageItem item).outermost [.message] [.field, .mapField, .oneofField]) p.fields := by
  cases h with
  | field h =>
      rw [Tree.ofMessageItem, Tree.ofField, Tree.outermost_of_mem (by decide)]
      exact .cons (Field.records_ofSource h) .nil
  | map h =>
      rw [Tree.ofMessageItem, Tree.ofMapField, Tree.outermost_of_mem (by decide)]
      exact .cons (Field.records_ofMap h) .nil
  | oneof h =>
      rw [Tree.ofMessageItem, Tree.ofOneof, Tree.outermost_of_not_mem (by decide) (by decide)]
      exact (Message.recordsOneof_ofOneof h).fields
  | message h =>
      rw [Tree.ofMessageItem, Tree.outermost_of_container (by decide) (by decide)]
      exact .nil
  | _ => exact (Tree.madeOf_ofMessageItem _).records_nothing rfl

def Message.Part.block? : Message.Part → Option (String × List Field)
  | .oneof name fields => some (name, fields)
  | _ => none

theorem Message.records_oneofs {item : Source.MessageItem} {p : Message.Part} (h : Message.Becomes item p) :
    List.Forall₂ Message.RecordsOneof ((Tree.ofMessageItem item).outermost [.message] [.oneof]) p.block?.toList := by
  cases h with
  | oneof h =>
      rw [Tree.ofMessageItem, Tree.ofOneof, Tree.outermost_of_mem (by decide)]
      exact .cons (Message.recordsOneof_ofOneof h) .nil
  | message h =>
      rw [Tree.ofMessageItem, Tree.outermost_of_container (by decide) (by decide)]
      exact .nil
  | _ => exact (Tree.madeOf_ofMessageItem _).records_nothing rfl

theorem Message.records_enums {item : Source.MessageItem} {p : Message.Part} (h : Message.Becomes item p) :
    List.Forall₂ Enum.Records ((Tree.ofMessageItem item).outermost [.message] [.enum]) p.enum?.toList := by
  cases h with
  | enum h =>
      rw [Tree.ofMessageItem, Tree.ofEnum, Tree.outermost_of_mem (by decide)]
      exact .cons (Enum.records_ofSource h) .nil
  | message h =>
      rw [Tree.ofMessageItem, Tree.outermost_of_container (by decide) (by decide)]
      exact .nil
  | _ => exact (Tree.madeOf_ofMessageItem _).records_nothing rfl

theorem Message.records_options {item : Source.MessageItem} {p : Message.Part} (h : Message.Becomes item p) :
    List.Forall₂ Options.Sets
      ((Tree.ofMessageItem item).outermost [.message, .oneof, .enum, .service, .rpc] [.optionStatement])
      p.option?.toList := by
  cases h with
  | oneof h =>
      rw [Tree.ofMessageItem, Tree.ofOneof, Tree.outermost_of_container (by decide) (by decide)]
      exact .nil
  | message h =>
      rw [Tree.ofMessageItem, Tree.outermost_of_container (by decide) (by decide)]
      exact .nil
  | enum h =>
      rw [Tree.ofMessageItem, Tree.ofEnum, Tree.outermost_of_container (by decide) (by decide)]
      exact .nil
  | option h => exact Options.sets_optionStatement h
  | _ => exact (Tree.madeOf_ofMessageItem _).records_nothing rfl

theorem Message.filter_isSome_fields {item : Source.MessageItem} {p : Message.Part} (h : Message.Becomes item p) :
    p.fields.filter (fun f => f.oneof.isSome) = p.block?.toList.flatMap Prod.snd := by
  cases h with
  | field h =>
      obtain ⟨_, _, -, -, rfl⟩ := exists_of_numbered h
      rfl
  | map h =>
      obtain ⟨_, _, -, -, rfl⟩ := exists_of_numbered h
      rfl
  | oneof h =>
      have hmembers := (Message.recordsOneof_ofOneof h).members
      have hall := List.filter_eq_self.mpr fun f hf => Option.isSome_of_eq_some (hmembers f hf)
      exact hall.trans (List.append_nil _).symm
  | _ => rfl

theorem Message.records_blocks (name : Lexeme) {items : List Source.MessageItem} {parts : List Message.Part}
    (hp : List.Forall₂ Message.Becomes items parts) :
    List.Forall₂ Message.RecordsOneof (Tree.ofMessage ⟨name, items⟩).oneofs (parts.filterMap Part.block?) ∧
      (parts.flatMap Part.fields).filter (fun f => f.oneof.isSome) =
        (parts.filterMap Part.block?).flatMap Prod.snd := by
  constructor
  · rw [Tree.oneofs, Tree.within_ofMessage]
    exact forall₂_selected hp fun item p h => Message.records_oneofs h
  · induction hp with
    | nil => rfl
    | @cons item p items parts h _ ih =>
        rw [List.filterMap_eq_flatMap_toList] at ih ⊢
        simp only [List.flatMap_cons, List.filter_append, List.flatMap_append, ih, Message.filter_isSome_fields h]

theorem Message.records_ofParts : Message.FromParts Message.Records := by
  intro name items parts h
  have hp := Message.becomes_parts h
  refine ⟨rfl, ?_, ⟨_, Message.records_blocks name hp⟩, ?_, ?_⟩
  · rw [Tree.fields, Tree.within_ofMessage]
    exact List.rel_flatMap hp fun item p h => Message.records_fields h
  · rw [Tree.enums, Tree.within_ofMessage]
    exact forall₂_selected hp fun item p h => Message.records_enums h
  · rw [Tree.options, Tree.within_ofMessage]
    exact Options.records_ofList (forall₂_selected hp fun item p h => Message.records_options h)

end Messages

section Files

theorem Schema.records_enums {statement : Source.Statement} {p : Schema.Part} (h : Schema.Becomes statement p) :
    List.Forall₂ Enum.Records ((Tree.ofStatement statement).outermost [.message] [.enum]) p.enum?.toList := by
  cases h with
  | enum h =>
      rw [Tree.ofStatement, Tree.ofEnum, Tree.outermost_of_mem (by decide)]
      exact .cons (Enum.records_ofSource h) .nil
  | message h =>
      rw [Tree.ofStatement, Tree.outermost_ofMessage (by decide) (by decide)]
      exact .nil
  | _ => exact (Tree.madeOf_ofStatement _).records_nothing rfl

theorem Schema.records_services {statement : Source.Statement} {p : Schema.Part} (h : Schema.Becomes statement p) :
    List.Forall₂ Service.Records ((Tree.ofStatement statement).outermost [] [.service]) p.service?.toList := by
  cases h with
  | service h =>
      rw [Tree.ofStatement, Tree.ofService, Tree.outermost_of_mem (by decide)]
      exact .cons (Service.records_ofSource h) .nil
  | _ => exact (Tree.madeOf_ofStatement _).records_nothing rfl

theorem Schema.records_imports {statement : Source.Statement} {p : Schema.Part} (h : Schema.Becomes statement p) :
    List.Forall₂ Import.Records ((Tree.ofStatement statement).outermost [] [.importStatement]) p.import?.toList := by
  cases h with
  | import_ kind path =>
      rw [Tree.ofStatement, Tree.outermost_of_mem (by decide)]
      exact .cons (.intro kind path) .nil
  | _ => exact (Tree.madeOf_ofStatement _).records_nothing rfl

theorem Schema.records_options {statement : Source.Statement} {p : Schema.Part} (h : Schema.Becomes statement p) :
    List.Forall₂ Options.Sets
      ((Tree.ofStatement statement).outermost [.message, .oneof, .enum, .service, .rpc] [.optionStatement])
      p.option?.toList := by
  cases h with
  | option h => exact Options.sets_optionStatement h
  | message h =>
      rw [Tree.ofStatement, Tree.outermost_ofMessage (by decide) (by decide)]
      exact .nil
  | enum h =>
      rw [Tree.ofStatement, Tree.ofEnum, Tree.outermost_of_container (by decide) (by decide)]
      exact .nil
  | service h =>
      rw [Tree.ofStatement, Tree.ofService, Tree.outermost_of_container (by decide) (by decide)]
      exact .nil
  | _ => exact (Tree.madeOf_ofStatement _).records_nothing rfl

theorem Schema.records_ofSource {file : Option String} {f : Source.File} {s : Schema}
    (h : Schema.ofSource file f = .ok s) : s.Records (Tree.ofFile f) := by
  obtain ⟨parts, hp, rfl⟩ := exists_of_map_eq_ok h
  have hp := Schema.becomes_parts hp
  refine ⟨Schema.alongside_parts Message.records_ofParts hp, ?_, ?_, ?_, ?_⟩
  · rw [Tree.enums, Tree.within_ofFile]
    exact forall₂_selected hp fun statement p h => Schema.records_enums h
  · rw [Tree.services, Tree.within_ofFile]
    exact forall₂_selected hp fun statement p h => Schema.records_services h
  · rw [Tree.imports, Tree.within_ofFile]
    exact forall₂_selected hp fun statement p h => Schema.records_imports h
  · rw [Tree.options, Tree.within_ofFile]
    exact Options.records_ofList (forall₂_selected hp fun statement p h => Schema.records_options h)

theorem Schema.records_of_parse {text : String} {source : Source.File} (h : Source.parse text.toList = .ok source)
    (file : Option String) :
    (Tree.ofFile source).IsSorted ∧
      ((∃ s, Schema.ofText file text = .ok s ∧ s.Records (Tree.ofFile source) ∧
          Schema.ofSource file source.essential = .ok s) ∨
        ∃ e, Schema.ofText file text = .error e ∧ IsTooLong e) := by
  refine ⟨Tree.isSorted_ofFile source, ?_⟩
  rw [Schema.ofText, h]
  cases hs : Schema.ofSource file source with
  | ok s => exact .inl ⟨s, hs, Schema.records_ofSource hs, Schema.ofSource_essential hs⟩
  | error e => exact .inr ⟨e, hs, Schema.raises_ofSource file source e hs⟩

def interleavedText : String :=
  "message M\x7bA a=1;oneof o\x7bA b=2;option x=1;\x7dreserved 9;message N\x7bA d=4;\x7d" ++
    "option y=1;option z=2;;A c=3;option y=3;\x7d"

theorem Schema.records_of_parse_interleaved :
    ∃ source s m, Source.parse interleavedText.toList = .ok source ∧ Schema.ofText none interleavedText = .ok s ∧
      s.Records (Tree.ofFile source) ∧ Schema.ofSource none source.essential = .ok s ∧ s.messages = [m] ∧
      m.fields.map Field.name = ["a", "b", "c"] ∧ m.messages.map (fun n => n.fields.map Field.name) = [["d"]] ∧
      m.options = [("y", .integer 3), ("z", .integer 2)] := by
  have hread : (Schema.ofText none interleavedText).toOption.map (fun s => s.messages.map fun m =>
      (m.fields.map Field.name, m.messages.map fun n => n.fields.map Field.name, m.options)) =
        some [(["a", "b", "c"], [["d"]], [("y", .integer 3), ("z", .integer 2)])] := by decide +kernel
  obtain ⟨s, hs, hv⟩ := Option.map_eq_some_iff.mp hread
  have hs := eq_ok_of_toOption hs
  obtain ⟨source, -, hsource, -⟩ := Schema.exists_parts_of_ofText hs
  obtain ⟨m, hm, hv⟩ := List.map_eq_singleton_iff.mp hv
  simp only [Prod.mk.injEq] at hv
  obtain ⟨-, ⟨t, ht, hrecords, hessential⟩ | ⟨e, he, -⟩⟩ := Schema.records_of_parse hsource none
  · cases hs.symm.trans ht
    exact ⟨source, s, m, hsource, hs, hrecords, hessential, hm, hv⟩
  · cases hs.symm.trans he

end Files

end ProtoBundle
