import ProtoBundle.Proofs.Schema.Floats
import ProtoBundle.Proofs.Schema.Writable
import ProtoBundle.Proofs.Source.WholeLexemes

namespace ProtoBundle

open Source (Terminal Lexeme Tree)

structure Field.IsWellFormed (f : Field) : Prop where
  rule : f.rule ∈ ["required", "optional", "repeated", "map"]
  keyed : f.keyType.isSome = true ↔ f.rule = "map"
  single : f.oneof.isSome = true → f.rule = "optional" ∧ f.keyType = none
  natural : 0 ≤ f.number
  name : Terminal.identifier.Takes f.name.toList
  type : Terminal.typeName.Takes f.type.toList
  key : ∀ k ∈ f.keyType, Terminal.typeName.Takes k.toList
  oneof : ∀ o ∈ f.oneof, Terminal.identifier.Takes o.toList

structure Enum.IsWellFormed (e : Enum) : Prop where
  name : Terminal.identifier.Takes e.name.toList
  values : ∀ v ∈ e.values, Terminal.identifier.Takes v.name.toList

def IsRange (range : List Int) : Prop := ∃ first last : Int, range = [first, last] ∧ 0 ≤ first ∧ 0 ≤ last

structure Message.IsWellFormed (m : Message) : Prop where
  name : Terminal.identifier.Takes m.name.toList
  fields : ∀ f ∈ m.fields, f.IsWellFormed
  enums : ∀ e ∈ m.enums, e.IsWellFormed
  oneofs : ∀ o ∈ m.oneofs, Terminal.identifier.Takes o.1.toList ∧
    ∀ i ∈ o.2, ∃ f ∈ m.fields, f.number = i ∧ f.oneof = some o.1
  extensions : ∀ range ∈ m.extensions, IsRange range

structure Rpc.IsWellFormed (r : Rpc) : Prop where
  name : Terminal.identifier.Takes r.name.toList
  request : Terminal.typeName.Takes r.request.toList
  response : Terminal.typeName.Takes r.response.toList

structure Service.IsWellFormed (s : Service) : Prop where
  name : Terminal.identifier.Takes s.name.toList
  rpcs : ∀ r ∈ s.rpcs, r.IsWellFormed

structure Declarations.IsWellFormed (d : Declarations) : Prop where
  package : ∀ name ∈ d.package, Terminal.dottedName.Takes name.toList
  messages : ∀ m ∈ d.messages, m.Everywhere Message.IsWellFormed
  enums : ∀ e ∈ d.enums, e.IsWellFormed
  services : ∀ s ∈ d.services, s.IsWellFormed

section Numbers

theorem Number.readInteger_nonneg {cs : List Char} {i : Int} (h : readInteger cs = .ok i)
    (hd : ∃ c ∈ cs.head?, Text.isDigit c = true) : 0 ≤ i := by
  obtain ⟨c, hc, hd⟩ := hd
  unfold readInteger at h
  split at h
  · cases hc
    exact absurd hd (by decide)
  all_goals
    obtain ⟨_, hn, rfl⟩ := exists_of_map_eq_ok h
    obtain ⟨n, -, hn⟩ := exists_of_bind_eq_ok hn
    cases hn
    exact Int.natCast_nonneg n

theorem Source.Lexeme.integer_nonneg {l : Lexeme} (hl : l.Suits .integer) {construct : Source.Construct} {i : Int}
    (h : l.integer construct = .ok i) : 0 ≤ i := by
  unfold Lexeme.integer at h
  split at h
  · rename_i hr
    cases h
    exact Number.readInteger_nonneg hr hl
  · cases h

theorem isRange_of_readRange {r : Source.IdRange} (hs : (Tree.ofIdRange r).IsSuited) {range : List Int}
    (h : readRange r = .ok range) : IsRange range := by
  obtain ⟨first, hfirst, h⟩ := exists_of_bind_eq_ok h
  obtain ⟨last, hlast, h⟩ := exists_of_bind_eq_ok h
  cases h
  have h0 : 0 ≤ first := Lexeme.integer_nonneg (hs.child List.mem_cons_self).lexeme hfirst
  refine ⟨first, last, rfl, h0, ?_⟩
  unfold readRangeEnd at hlast
  split at hlast
  · cases hlast
    exact h0
  · cases hlast
    decide
  · rename_i l hl
    have ht : (Tree.token .integer l).IsSuited := hs.child (by simp [hl, Tree.optional, Tree.ofRangeEnd])
    exact Lexeme.integer_nonneg ht.lexeme hlast

end Numbers

section Fields

theorem Field.isWellFormed_ofSource {f : Source.Field} (hs : (Tree.ofField f).IsSuited) {field : Field}
    (h : Field.ofSource f = .ok field) : field.IsWellFormed := by
  obtain ⟨options, number, -, hn, rfl⟩ := exists_of_numbered h
  have htype : (Tree.token .typeName f.type).IsSuited := hs.child (by simp)
  have hname : (Tree.token .identifier f.name).IsSuited := hs.child (by simp)
  have hnumber : (Tree.token .integer f.number).IsSuited := hs.child (by simp)
  have hrule : (f.label.map Lexeme.text).getD "optional" ∈ ["required", "optional", "repeated"] := by
    cases hl : f.label with
    | none => decide
    | some l =>
        have ht : (Tree.token .label l).IsSuited := hs.child (by simp [hl, Tree.optional])
        exact ht.lexeme
  constructor
  · exact List.mem_append_left ["map"] hrule
  · refine ⟨nofun, fun hm => ?_⟩
    have hmap : (f.label.map Lexeme.text).getD "optional" = "map" := hm
    rw [hmap] at hrule
    exact absurd hrule (by decide)
  · exact nofun
  · exact Lexeme.integer_nonneg hnumber.lexeme hn
  · exact hname.lexeme
  · exact htype.lexeme
  · exact nofun
  · exact nofun

theorem Field.isWellFormed_ofMap {f : Source.MapField} (hs : (Tree.ofMapField f).IsSuited) {field : Field}
    (h : Field.ofMap f = .ok field) : field.IsWellFormed := by
  obtain ⟨options, number, -, hn, rfl⟩ := exists_of_numbered h
  have hkey : (Tree.token .typeName f.key).IsSuited := hs.child (by simp)
  have htype : (Tree.token .typeName f.value).IsSuited := hs.child (by simp)
  have hname : (Tree.token .identifier f.name).IsSuited := hs.child (by simp)
  have hnumber : (Tree.token .integer f.number).IsSuited := hs.child (by simp)
  constructor
  · change "map" ∈ _
    decide
  · exact ⟨fun _ => rfl, fun _ => rfl⟩
  · exact nofun
  · exact Lexeme.integer_nonneg hnumber.lexeme hn
  · exact hname.lexeme
  · exact htype.lexeme
  · rintro _ ⟨⟩
    exact hkey.lexeme
  · exact nofun

theorem Field.isWellFormed_ofOneof {oneof : String} (ho : Terminal.identifier.Takes oneof.toList) {f : Source.OneofField}
    (hs : (Tree.ofOneofField f).IsSuited) {field : Field} (h : Field.ofOneof oneof f = .ok field) :
    field.IsWellFormed ∧ field.oneof = some oneof := by
  obtain ⟨options, number, -, hn, rfl⟩ := exists_of_numbered h
  have htype : (Tree.token .typeName f.type).IsSuited := hs.child (by simp)
  have hname : (Tree.token .identifier f.name).IsSuited := hs.child (by simp)
  have hnumber : (Tree.token .integer f.number).IsSuited := hs.child (by simp)
  refine ⟨?_, rfl⟩
  constructor
  · change "optional" ∈ _
    decide
  · exact ⟨nofun, fun hm => absurd hm (by decide : "optional" ≠ "map")⟩
  · exact fun _ => ⟨rfl, rfl⟩
  · exact Lexeme.integer_nonneg hnumber.lexeme hn
  · exact hname.lexeme
  · exact htype.lexeme
  · exact nofun
  · rintro _ ⟨⟩
    exact ho

theorem Field.isWellFormed_ofOneofItem {oneof : String} (ho : Terminal.identifier.Takes oneof.toList)
    {item : Source.OneofItem} (hs : (Tree.ofOneofItem item).IsSuited) {field : Field}
    (h : Field.ofOneofItem oneof item = .ok (some field)) : field.IsWellFormed ∧ field.oneof = some oneof := by
  cases item with
  | field f =>
      obtain ⟨g, hg, he⟩ := exists_of_map_eq_ok h
      cases he
      exact Field.isWellFormed_ofOneof ho hs hg
  | option s =>
      obtain ⟨_, -, he⟩ := exists_of_map_eq_ok h
      cases he
  | empty => cases h

end Fields

section Enums

theorem Enum.takes_part {item : Source.EnumItem} (hs : (Tree.ofEnumItem item).IsSuited) {p : Enum.Part}
    (h : Enum.part item = .ok p) : ∀ v ∈ p.value?, Terminal.identifier.Takes v.name.toList := by
  rintro v hv
  cases item with
  | value source =>
      obtain ⟨_, hvalue, rfl⟩ := exists_of_map_eq_ok h
      obtain ⟨options, number, -, -, rfl⟩ := exists_of_numbered hvalue
      cases hv
      exact (hs.child List.mem_cons_self).lexeme
  | option s =>
      obtain ⟨_, -, rfl⟩ := exists_of_map_eq_ok h
      cases hv
  | reserved items =>
      obtain ⟨_, -, rfl⟩ := exists_of_map_eq_ok h
      cases hv
  | empty =>
      cases h
      cases hv

theorem Enum.isWellFormed_ofSource {e : Source.Enum} (hs : (Tree.ofEnum e).IsSuited) {enum : Enum}
    (h : Enum.ofSource e = .ok enum) : enum.IsWellFormed := by
  obtain ⟨parts, hp, rfl⟩ := exists_of_map_eq_ok h
  refine ⟨(hs.child List.mem_cons_self).lexeme, fun v hv => ?_⟩
  obtain ⟨p, hm, hv⟩ := List.mem_filterMap.mp hv
  obtain ⟨item, hi, hpart⟩ := exists_mem_of_mapM hp hm
  exact Enum.takes_part (hs.child (List.mem_cons_of_mem _ (List.mem_map_of_mem hi))) hpart v hv

end Enums

section Messages

def Message.Part.IsWellFormed : Message.Part → Prop
  | .field f => f.IsWellFormed
  | .oneof name fields => Terminal.identifier.Takes name.toList ∧
      ∀ f ∈ fields, f.IsWellFormed ∧ f.oneof = some name
  | .message m => m.Everywhere Message.IsWellFormed
  | .enum e => e.IsWellFormed
  | .option _ => True
  | .extensions range => IsRange range
  | .nothing => True

theorem Message.Part.IsWellFormed.fields {p : Message.Part} (h : p.IsWellFormed) : ∀ f ∈ p.fields, f.IsWellFormed := by
  intro f hf
  cases p with
  | field g => exact List.mem_singleton.mp hf ▸ h
  | oneof name fields => exact (h.2 f hf).1
  | _ => cases hf

/-- The numbers of a oneof are those of its fields, which are fields of the message. -/
theorem Message.oneofs_ofParts {name : String} {parts : List Message.Part} (h : ∀ p ∈ parts, p.IsWellFormed) :
    ∀ o ∈ (Message.ofParts name parts).oneofs, Terminal.identifier.Takes o.1.toList ∧
      ∀ i ∈ o.2, ∃ f ∈ (Message.ofParts name parts).fields, f.number = i ∧ f.oneof = some o.1 := by
  intro o ho
  obtain ⟨p, hp, ho⟩ := List.mem_filterMap.mp (Table.mem_of_mem_ofList ho)
  have hpart := h p hp
  cases p <;> cases ho
  rename_i name fields
  refine ⟨hpart.1, fun i hi => ?_⟩
  obtain ⟨f, hf, rfl⟩ := List.mem_map.mp hi
  exact ⟨f, List.mem_flatMap.mpr ⟨_, hp, hf⟩, rfl, (hpart.2 f hf).2⟩

theorem Message.everywhere_ofParts {name : String} (hn : Terminal.identifier.Takes name.toList)
    {parts : List Message.Part} (h : ∀ p ∈ parts, p.IsWellFormed) :
    (Message.ofParts name parts).Everywhere Message.IsWellFormed := by
  have hextensions : ∀ range ∈ parts.filterMap Part.extensions?, IsRange range := by
    refine forall_mem_selected h fun p range hp hr => ?_
    cases p <;> cases hr
    exact hp
  refine .intro ⟨hn, fun f hf => ?_, ?_, Message.oneofs_ofParts h,
    fun range hr => hextensions range (List.mem_of_getLast? hr)⟩ ?_
  · obtain ⟨p, hp, hf⟩ := List.mem_flatMap.mp hf
    exact (h p hp).fields f hf
  · refine forall_mem_selected h fun p e hp he => ?_
    cases p <;> cases he
    exact hp
  · refine forall_mem_selected h fun p m hp hm => ?_
    cases p <;> cases hm
    exact hp

theorem Message.isWellFormed_readOneof {o : Source.Oneof} (hs : (Tree.ofOneof o).IsSuited) {p : Message.Part}
    (h : Message.readOneof o = .ok p) : p.IsWellFormed := by
  obtain ⟨fields, hf, rfl⟩ := exists_of_map_eq_ok h
  have hname : Terminal.identifier.Takes o.name.text.toList := (hs.child List.mem_cons_self).lexeme
  refine ⟨hname, fun f hm => ?_⟩
  obtain ⟨_, hm, rfl⟩ := List.mem_filterMap.mp hm
  obtain ⟨item, hi, hitem⟩ := exists_mem_of_mapM hf hm
  exact Field.isWellFormed_ofOneofItem hname (hs.child (List.mem_cons_of_mem _ (List.mem_map_of_mem hi))) hitem

mutual

theorem Message.isWellFormed_part : ∀ (item : Source.MessageItem), (Tree.ofMessageItem item).IsSuited →
    ∀ p, Message.part item = .ok p → p.IsWellFormed
  | .field f, hs, p, h => by
      obtain ⟨_, hf, rfl⟩ := exists_of_map_eq_ok h
      exact Field.isWellFormed_ofSource hs hf
  | .map f, hs, p, h => by
      obtain ⟨_, hf, rfl⟩ := exists_of_map_eq_ok h
      exact Field.isWellFormed_ofMap hs hf
  | .oneof o, hs, p, h => Message.isWellFormed_readOneof hs h
  | .message name items, hs, p, h => by
      obtain ⟨parts, hp, rfl⟩ := exists_of_map_eq_ok h
      have hitems : ∀ item ∈ items, (Tree.ofMessageItem item).IsSuited := by
        intro item hi
        refine hs.child (List.mem_cons_of_mem _ ?_)
        rw [Tree.ofMessageItems_eq_map]
        exact List.mem_map_of_mem hi
      exact Message.everywhere_ofParts (hs.child List.mem_cons_self).lexeme
        (Message.isWellFormed_parts items hitems parts hp)
  | .enum e, hs, p, h => by
      obtain ⟨_, he, rfl⟩ := exists_of_map_eq_ok h
      exact Enum.isWellFormed_ofSource hs he
  | .option s, _, p, h => by
      obtain ⟨_, -, rfl⟩ := exists_of_map_eq_ok h
      trivial
  | .reserved items, _, p, h => by
      obtain ⟨_, -, rfl⟩ := exists_of_map_eq_ok h
      trivial
  | .extensions e, hs, p, h => by
      obtain ⟨range, hr, h⟩ := exists_of_bind_eq_ok h
      obtain ⟨_, -, h⟩ := exists_of_bind_eq_ok h
      cases h
      exact isRange_of_readRange (hs.child List.mem_cons_self) hr
  | .empty, _, p, h => by
      cases h
      trivial

theorem Message.isWellFormed_parts : ∀ (items : List Source.MessageItem),
    (∀ item ∈ items, (Tree.ofMessageItem item).IsSuited) →
      ∀ parts, Message.part.parts items = .ok parts → ∀ p ∈ parts, p.IsWellFormed
  | [], _, parts, h => by
      cases h
      exact nofun
  | item :: items, hs, parts, h => by
      obtain ⟨hitem, hitems⟩ := List.forall_mem_cons.mp hs
      obtain ⟨q, hq, h⟩ := exists_of_bind_eq_ok h
      obtain ⟨qs, hqs, h⟩ := exists_of_bind_eq_ok h
      cases h
      exact List.forall_mem_cons.mpr
        ⟨Message.isWellFormed_part item hitem q hq, Message.isWellFormed_parts items hitems qs hqs⟩

end

theorem Message.everywhere_ofSource {m : Source.Message} (hs : (Tree.ofMessage m).IsSuited) {message : Message}
    (h : Message.ofSource m = .ok message) : message.Everywhere Message.IsWellFormed := by
  refine Message.isWellFormed_part (.ofMessage m) hs (.message message) ?_
  rw [Message.part_ofMessage, h]
  rfl

end Messages

section Services

theorem Service.isWellFormed_part {item : Source.ServiceItem} (hs : (Tree.ofServiceItem item).IsSuited)
    {p : Service.Part} (h : Service.part item = .ok p) : ∀ r ∈ p.rpc?, r.IsWellFormed := by
  rintro r hr
  cases item with
  | rpc source =>
      obtain ⟨_, hrpc, rfl⟩ := exists_of_map_eq_ok h
      obtain ⟨entries, -, hrpc⟩ := exists_of_bind_eq_ok hrpc
      cases hrpc
      cases hr
      have hrequest : (Tree.token .typeName source.request).IsSuited := hs.child (by simp)
      have hresponse : (Tree.token .typeName source.response).IsSuited := hs.child (by simp)
      exact ⟨(hs.child List.mem_cons_self).lexeme, hrequest.lexeme, hresponse.lexeme⟩
  | option s =>
      obtain ⟨_, -, rfl⟩ := exists_of_map_eq_ok h
      cases hr
  | empty =>
      cases h
      cases hr

theorem Service.isWellFormed_ofSource {s : Source.Service} (hs : (Tree.ofService s).IsSuited) {service : Service}
    (h : Service.ofSource s = .ok service) : service.IsWellFormed := by
  obtain ⟨parts, hp, rfl⟩ := exists_of_map_eq_ok h
  refine ⟨(hs.child List.mem_cons_self).lexeme, fun r hr => ?_⟩
  obtain ⟨p, hm, hr⟩ := List.mem_filterMap.mp hr
  obtain ⟨item, hi, hpart⟩ := exists_mem_of_mapM hp hm
  exact Service.isWellFormed_part (hs.child (List.mem_cons_of_mem _ (List.mem_map_of_mem hi))) hpart r hr

end Services

section Schemas

def Schema.Part.IsWellFormed : Schema.Part → Prop
  | .package name => Terminal.dottedName.Takes name.toList
  | .message m => m.Everywhere Message.IsWellFormed
  | .enum e => e.IsWellFormed
  | .service s => s.IsWellFormed
  | _ => True

theorem Schema.isWellFormed_part {statement : Source.Statement} (hs : (Tree.ofStatement statement).IsSuited)
    {p : Schema.Part} (h : Schema.part statement = .ok p) : p.IsWellFormed := by
  cases statement with
  | package l =>
      cases h
      exact (hs.child List.mem_cons_self).lexeme
  | message m =>
      obtain ⟨_, hm, rfl⟩ := exists_of_map_eq_ok h
      exact Message.everywhere_ofSource hs hm
  | enum e =>
      obtain ⟨_, he, rfl⟩ := exists_of_map_eq_ok h
      exact Enum.isWellFormed_ofSource hs he
  | service s =>
      obtain ⟨_, hs', rfl⟩ := exists_of_map_eq_ok h
      exact Service.isWellFormed_ofSource hs hs'
  | option s =>
      obtain ⟨_, -, rfl⟩ := exists_of_map_eq_ok h
      trivial
  | _ =>
      cases h
      trivial

theorem Schema.isWellFormed_ofParts (file : Option String) {parts : List Schema.Part}
    (h : ∀ p ∈ parts, p.IsWellFormed) : (Schema.ofParts file parts).IsWellFormed := by
  have hpackage : ∀ name ∈ parts.filterMap Part.package?, Terminal.dottedName.Takes name.toList := by
    refine forall_mem_selected h fun p name hp hn => ?_
    cases p <;> cases hn
    exact hp
  refine ⟨fun name hn => hpackage name (List.mem_of_getLast? hn), ?_, ?_, ?_⟩
  · refine forall_mem_selected h fun p m hp hm => ?_
    cases p <;> cases hm
    exact hp
  · refine forall_mem_selected h fun p e hp he => ?_
    cases p <;> cases he
    exact hp
  · refine forall_mem_selected h fun p s hp hs => ?_
    cases p <;> cases hs
    exact hp

theorem Schema.reference_of_mem_imports {file : Option String} {parts : List Schema.Part} :
    ∀ i ∈ (Schema.ofParts file parts).imports, ∃ path, i = .reference path := by
  intro i hi
  obtain ⟨p, -, hi⟩ := List.mem_filterMap.mp hi
  cases p <;> cases hi
  exact ⟨_, rfl⟩

theorem Schema.isWellFormed_ofText {file : Option String} {text : String} {s : Schema}
    (h : Schema.ofText file text = .ok s) : s.IsWellFormed ∧ ∀ i ∈ s.imports, ∃ path, i = .reference path := by
  obtain ⟨f, parts, hf, hp, rfl⟩ := Schema.exists_parts_of_ofText h
  refine ⟨Schema.isWellFormed_ofParts file fun p hm => ?_, Schema.reference_of_mem_imports⟩
  obtain ⟨statement, hi, hpart⟩ := exists_mem_of_mapM hp hm
  exact Schema.isWellFormed_part ((Source.isSuited_of_parse hf).child (List.mem_map_of_mem hi)) hpart

end Schemas

end ProtoBundle
