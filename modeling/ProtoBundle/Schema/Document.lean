import ProtoBundle.Json.Basic
import ProtoBundle.Schema.Basic

/-!
The document of a schema, with a fixed order of members. A member that says nothing (the key type of a field that
is no map, the oneof of a field outside of one, absent extensions, an absent dialect) is left out; an absent
package is null. Options of enum values are left out, and rpcs form a table by their names.
-/

namespace ProtoBundle

def Value.document : Value → Json
  | .integer i => .integer i
  | .float x => .float x
  | .flag b => .flag b
  | .text s => .text s

def Options.document (o : Options) : Json := .object (o.map fun e => (e.1, e.2.document))

def present {α : Type} (name : String) (document : α → Json) : Option α → List (String × Json)
  | some a => [(name, document a)]
  | none => []

def numbers (is : List Int) : Json := .array (is.map .integer)

def Field.document (f : Field) : Json :=
  .object
    ([("rule", .text f.rule), ("type", .text f.type), ("name", .text f.name), ("id", .integer f.number),
      ("options", Options.document f.options)] ++
      present "keytype" .text f.keyType ++ present "oneof" .text f.oneof)

def EnumValue.document (v : EnumValue) : Json :=
  .object [("name", .text v.name), ("id", .integer v.number)]

def Enum.document (e : Enum) : Json :=
  .object
    [("name", .text e.name), ("values", .array (e.values.map EnumValue.document)),
     ("options", Options.document e.options)]

def Message.document : Message → Json
  | ⟨name, fields, enums, messages, options, oneofs, extensions⟩ =>
      .object
        ([("name", .text name), ("fields", .array (fields.map Field.document)),
          ("enums", .array (enums.map Enum.document)), ("messages", .array (documents messages)),
          ("options", Options.document options),
          ("oneofs", .object (oneofs.map fun e => (e.1, numbers e.2)))] ++
          present "extensions" numbers extensions)
where
  documents : List Message → List Json
    | [] => []
    | m :: ms => m.document :: documents ms

theorem Message.documents_eq_map (ms : List Message) :
    Message.document.documents ms = ms.map Message.document := by
  induction ms with
  | nil => rfl
  | cons m ms ih => simp [Message.document.documents, ih]

def Rpc.document (r : Rpc) : Json :=
  .object
    [("request", .text r.request), ("request_stream", .flag r.requestStream), ("response", .text r.response),
     ("response_stream", .flag r.responseStream), ("options", Options.document r.options)]

def Service.document (s : Service) : Json :=
  .object
    [("name", .text s.name), ("rpc", .object (Table.ofList (s.rpcs.map fun r => (r.name, r.document)))),
     ("options", Options.document s.options)]

def textOrNull : Option String → Json
  | some s => .text s
  | none => .null

def Schema.document : Schema → Json
  | ⟨⟨package, dialect, _, options, messages, enums, services⟩, imports⟩ =>
      .object
        ([("package", textOrNull package)] ++ present "syntax" .text dialect ++
          [("options", Options.document options), ("messages", .array (messages.map Message.document)),
           ("enums", .array (enums.map Enum.document)), ("imports", .array (documents imports)),
           ("services", .array (services.map Service.document))])
where
  documents : List (Import Schema) → List Json
    | [] => []
    | .reference path :: is => .text path :: documents is
    | .inlined s :: is => s.document :: documents is

end ProtoBundle
