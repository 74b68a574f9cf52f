import ProtoBundle.Proofs.Json.Constraint
import ProtoBundle.Proofs.Schema.Nodes
import ProtoBundle.Proofs.Schema.WellFormed
import ProtoBundle.Schema.Document

namespace ProtoBundle

open Json (Constraint Satisfies)

namespace Json.Constraint

def text : Constraint := .kinds [.text]

def integer : Constraint := .kinds [.integer]

def flag : Constraint := .kinds [.flag]

def options : Constraint := .kinds [.object]

def listOf (items : Constraint) : Constraint := .array items 0 none

def field : Constraint :=
  .object
    [("rule", .texts ["required", "optional", "repeated", "map"]), ("type", text), ("name", text), ("id", integer),
     ("options", options), ("keytype", text), ("oneof", text)]
    ["rule", "type", "name", "id", "options"] .nothing

def enumValue : Constraint := .object [("name", text), ("id", integer)] ["name", "id"] .anything

def enum : Constraint :=
  .object [("name", text), ("values", listOf enumValue), ("options", options)] ["name", "values", "options"] .anything

def message : Constraint :=
  .object
    [("name", text), ("fields", listOf (.defined "field")), ("enums", listOf (.defined "enum")),
     ("messages", listOf (.defined "message")), ("options", options), ("oneofs", .object [] [] (listOf integer)),
     ("extensions", .array integer 2 (some 2))]
    ["name", "fields", "enums", "messages", "options", "oneofs"] .anything

def rpc : Constraint :=
  .object
    [("request", text), ("request_stream", flag), ("response", text), ("response_stream", flag), ("options", options)]
    ["request", "response", "options"] .anything

def service : Constraint :=
  .object [("name", text), ("rpc", .object [] [] rpc), ("options", options)] ["name", "rpc", "options"] .anything

def schema : Constraint :=
  .object
    [("package", .kinds [.text, .null]), ("syntax", text), ("options", options),
     ("messages", listOf (.defined "message")), ("enums", listOf (.defined "enum")),
     ("imports", listOf (.anyOf [text, .defined "schema"])), ("services", listOf (.defined "service"))]
    ["package", "options", "messages", "enums", "imports", "services"] .anything

def definitions : List (String × Constraint) :=
  [("field", field), ("enum", enum), ("message", message), ("service", service), ("schema", schema)]

def document : Constraint := .allOf [.defined "schema"]

end Json.Constraint

def Json.IsSchemaDocument (j : Json) : Prop := Satisfies Constraint.definitions Constraint.document j

section Satisfied

theorem Json.satisfies_present {members : List (String × Constraint)} {further : Constraint} {α : Type} {name : String}
    {document : α → Json} {o : Option α}
    (h : ∀ a ∈ o, Satisfies Constraint.definitions (.ofMember members further name) (document a)) :
    ∀ m ∈ present name document o, Satisfies Constraint.definitions (.ofMember members further m.1) m.2 := by
  cases o with
  | none => exact nofun
  | some a => exact List.forall_mem_singleton.mpr (h a rfl)

theorem Options.satisfies_document (o : Options) :
    Satisfies Constraint.definitions Constraint.options (Options.document o) := .kinds List.mem_cons_self

theorem satisfies_numbers (is : List Int) : Satisfies Constraint.definitions (.listOf .integer) (numbers is) :=
  Json.satisfies_map fun i _ => Json.satisfies_integer i

theorem Field.satisfies_document {f : Field} (h : f.IsWellFormed) :
    Satisfies Constraint.definitions (.defined "field") f.document := by
  refine .defined rfl (.object (by simp) ?_)
  simp only [List.forall_mem_append, List.forall_mem_cons]
  refine ⟨⟨⟨.texts h.rule, Json.satisfies_text _, Json.satisfies_text _, Json.satisfies_integer _,
    Options.satisfies_document _, nofun⟩, ?_⟩, ?_⟩
  · exact Json.satisfies_present fun k _ => Json.satisfies_text k
  · exact Json.satisfies_present fun o _ => Json.satisfies_text o

theorem EnumValue.satisfies_document (v : EnumValue) :
    Satisfies Constraint.definitions Constraint.enumValue v.document := by
  refine .object (by simp) ?_
  simp only [List.forall_mem_cons]
  exact ⟨Json.satisfies_text _, Json.satisfies_integer _, nofun⟩

theorem Enum.satisfies_document (e : Enum) : Satisfies Constraint.definitions (.defined "enum") e.document := by
  refine .defined rfl (.object (by simp) ?_)
  simp only [List.forall_mem_cons]
  exact ⟨Json.satisfies_text _, Json.satisfies_map fun v _ => v.satisfies_document, Options.satisfies_document _, nofun⟩

theorem Message.satisfies_document {m : Message} (h : m.Everywhere Message.IsWellFormed) :
    Satisfies Constraint.definitions (.defined "message") m.document := by
  induction h with
  | @intro m own inner ih =>
      obtain ⟨name, fields, enums, messages, options, oneofs, extensions⟩ := m
      refine .defined rfl (.object (by simp) ?_)
      simp only [List.forall_mem_append, List.forall_mem_cons, Message.documents_eq_map]
      refine ⟨⟨Json.satisfies_text _, Json.satisfies_map fun f hf => Field.satisfies_document (own.fields f hf),
        Json.satisfies_map fun e _ => e.satisfies_document, Json.satisfies_map ih, Options.satisfies_document _, ?_,
        nofun⟩, ?_⟩
      · refine .object nofun fun o ho => ?_
        obtain ⟨e, -, rfl⟩ := List.mem_map.mp ho
        exact satisfies_numbers e.2
      · refine Json.satisfies_present fun range hr => ?_
        obtain ⟨first, last, rfl, -, -⟩ := own.extensions range hr
        refine .array (Nat.le_refl _) (fun _ hn => Nat.le_of_eq (Option.some.inj hn)) ?_
        simp only [List.map_cons, List.forall_mem_cons]
        exact ⟨Json.satisfies_integer _, Json.satisfies_integer _, nofun⟩

theorem Rpc.satisfies_document (r : Rpc) : Satisfies Constraint.definitions Constraint.rpc r.document := by
  refine .object (by simp) ?_
  simp only [List.forall_mem_cons]
  exact ⟨Json.satisfies_text _, Json.satisfies_flag _, Json.satisfies_text _, Json.satisfies_flag _,
    Options.satisfies_document _, nofun⟩

theorem Service.satisfies_document (s : Service) :
    Satisfies Constraint.definitions (.defined "service") s.document := by
  refine .defined rfl (.object (by simp) ?_)
  simp only [List.forall_mem_cons]
  refine ⟨Json.satisfies_text _, .object nofun fun m hm => ?_, Options.satisfies_document _, nofun⟩
  obtain ⟨r, -, rfl⟩ := List.mem_map.mp (Table.mem_of_mem_ofList hm)
  exact r.satisfies_document

mutual

theorem Schema.satisfies_document : ∀ s : Schema, (∀ node ∈ s.nodes, node.IsWellFormed) →
    Satisfies Constraint.definitions (.defined "schema") s.document
  | ⟨⟨package, dialect, file, options, messages, enums, services⟩, imports⟩, h => by
      obtain ⟨own, hbelow⟩ := List.forall_mem_cons.mp h
      refine .defined rfl (.object (by cases dialect <;> simp [present]) ?_)
      simp only [List.forall_mem_append, List.forall_mem_cons]
      refine ⟨⟨⟨?_, nofun⟩, Json.satisfies_present fun text _ => Json.satisfies_text text⟩, Options.satisfies_document _,
        Json.satisfies_map fun m hm => Message.satisfies_document (own.messages m hm),
        Json.satisfies_map fun e _ => e.satisfies_document,
        .array (Nat.zero_le _) nofun (Schema.satisfies_imports imports hbelow),
        Json.satisfies_map fun s _ => s.satisfies_document, nofun⟩
      cases package with
      | none => exact .kinds (List.mem_cons_of_mem _ List.mem_cons_self)
      | some name => exact .kinds List.mem_cons_self

theorem Schema.satisfies_imports : ∀ imports : List (Import Schema),
    (∀ node ∈ Schema.nodes.below imports, node.IsWellFormed) → ∀ j ∈ Schema.document.documents imports,
      Satisfies Constraint.definitions (.anyOf [.text, .defined "schema"]) j
  | [], _ => nofun
  | .reference path :: imports, h =>
      List.forall_mem_cons.mpr ⟨.anyOf List.mem_cons_self (Json.satisfies_text path),
        Schema.satisfies_imports imports h⟩
  | .inlined s :: imports, h => by
      obtain ⟨hnodes, hbelow⟩ := List.forall_mem_append.mp h
      have hs := Schema.satisfies_document s hnodes
      exact List.forall_mem_cons.mpr ⟨.anyOf (List.mem_cons_of_mem _ List.mem_cons_self) hs,
        Schema.satisfies_imports imports hbelow⟩

end

theorem Schema.isSchemaDocument {s : Schema} (h : ∀ node ∈ s.nodes, node.IsWellFormed) :
    s.document.IsSchemaDocument :=
  .allOf (List.forall_mem_singleton.mpr (Schema.satisfies_document s h))

end Satisfied

end ProtoBundle
