import ProtoBundle.Schema.OfSource.Message
import ProtoBundle.Schema.OfSource.Service

namespace ProtoBundle.Schema

inductive Part where
  | dialect (text : String)
  | package (name : String)
  | import_ (reference : String)
  | option (entry : String × Value)
  | message (m : Message)
  | enum (e : Enum)
  | service (s : Service)
  | nothing
  deriving Repr

def Part.dialect? : Part → Option String
  | .dialect text => some text
  | _ => none

def Part.package? : Part → Option String
  | .package name => some name
  | _ => none

def Part.import? : Part → Option (Import Schema)
  | .import_ reference => some (.reference reference)
  | _ => none

def Part.option? : Part → Option (String × Value)
  | .option entry => some entry
  | _ => none

def Part.message? : Part → Option Message
  | .message m => some m
  | _ => none

def Part.enum? : Part → Option Enum
  | .enum e => some e
  | _ => none

def Part.service? : Part → Option Service
  | .service s => some s
  | _ => none

def part : Source.Statement → Except Failure Part
  | .dialect l => .ok (.dialect (l.unquoted))
  | .package l => .ok (.package l.text)
  | .import_ _ path => .ok (.import_ path.unquoted)
  | .option s => (Options.entry s).map .option
  | .message m => (Message.ofSource m).map .message
  | .enum e => (Enum.ofSource e).map .enum
  | .service s => (Service.ofSource s).map .service
  | .empty => .ok .nothing

/-- Of several packages or dialects the last one counts. -/
def ofParts (file : Option String) (parts : List Part) : Schema where
  package := (parts.filterMap Part.package?).getLast?
  dialect := (parts.filterMap Part.dialect?).getLast?
  file := file
  options := Table.ofList (parts.filterMap Part.option?)
  messages := parts.filterMap Part.message?
  enums := parts.filterMap Part.enum?
  services := parts.filterMap Part.service?
  imports := parts.filterMap Part.import?

def ofSource (file : Option String) (f : Source.File) : Except Failure Schema :=
  (f.statements.mapM part).map (ofParts file)

def ofText (file : Option String) (text : String) : Except Failure Schema :=
  match Source.parse text.toList with
  | .ok source => ofSource file source
  | .error fault => .error (.ofParseFault file fault)

end ProtoBundle.Schema
