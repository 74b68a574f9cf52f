import ProtoBundle.Schema.OfSource.Enum
import ProtoBundle.Schema.OfSource.Field

namespace ProtoBundle.Message

inductive Part where
  | field (f : Field)
  | oneof (name : String) (fields : List Field)
  | message (m : Message)
  | enum (e : Enum)
  | option (entry : String × Value)
  | extensions (range : List Int)
  | nothing
  deriving Repr

/-- The fields of a oneof stand where the oneof stands. -/
def Part.fields : Part → List Field
  | .field f => [f]
  | .oneof _ fields => fields
  | _ => []

def Part.oneof? : Part → Option (String × List Int)
  | .oneof name fields => some (name, fields.map Field.number)
  | _ => none

def Part.message? : Part → Option Message
  | .message m => some m
  | _ => none

def Part.enum? : Part → Option Enum
  | .enum e => some e
  | _ => none

def Part.option? : Part → Option (String × Value)
  | .option entry => some entry
  | _ => none

def Part.extensions? : Part → Option (List Int)
  | .extensions range => some range
  | _ => none

/-- Of several ranges of extensions the last one counts. -/
def ofParts (name : String) (parts : List Part) : Message where
  name := name
  fields := parts.flatMap Part.fields
  enums := parts.filterMap Part.enum?
  messages := parts.filterMap Part.message?
  options := Table.ofList (parts.filterMap Part.option?)
  oneofs := Table.ofList (parts.filterMap Part.oneof?)
  extensions := (parts.filterMap Part.extensions?).getLast?

def readOneof (o : Source.Oneof) : Except Failure Part :=
  (o.items.mapM (Field.ofOneofItem o.name.text)).map fun fields => .oneof o.name.text (fields.filterMap id)

def readExtensions (e : Source.Extensions) : Except Failure Part := do
  let range ← readRange e.range
  let _ ← Options.ofSettings e.settings
  return .extensions range

def part : Source.MessageItem → Except Failure Part
  | .field f => (Field.ofSource f).map .field
  | .map f => (Field.ofMap f).map .field
  | .oneof o => readOneof o
  | .message name items => (parts items).map fun ps => .message (ofParts name.text ps)
  | .enum e => (Enum.ofSource e).map .enum
  | .option s => (Options.entry s).map .option
  | .reserved items => (checkReserved items).map fun _ => .nothing
  | .extensions e => readExtensions e
  | .empty => .ok .nothing
where
  parts : List Source.MessageItem → Except Failure (List Part)
    | [] => .ok []
    | item :: items => do
        let p ← part item
        let ps ← parts items
        return p :: ps

def ofSource (m : Source.Message) : Except Failure Message := (part.parts m.items).map (ofParts m.name.text)

end ProtoBundle.Message
