import ProtoBundle.Number.Binary64
import ProtoBundle.Schema.Table

namespace ProtoBundle

inductive Value where
  | integer (i : Int)
  | float (x : Number.Binary64)
  | flag (b : Bool)
  | text (s : String)
  deriving DecidableEq, Repr

abbrev Options := Table Value

structure Field where
  rule : String
  type : String
  name : String
  number : Int
  options : Options
  keyType : Option String
  oneof : Option String
  deriving DecidableEq, Repr

structure EnumValue where
  name : String
  number : Int
  options : Options
  deriving DecidableEq, Repr

structure Enum where
  name : String
  values : List EnumValue
  options : Options
  deriving DecidableEq, Repr

/-- The numbers of a oneof's fields stand under its name; extensions are the first and the last number of the
range. -/
structure Message where
  name : String
  fields : List Field
  enums : List Enum
  messages : List Message
  options : Options
  oneofs : Table (List Int)
  extensions : Option (List Int)
  deriving Repr

structure Rpc where
  name : String
  request : String
  requestStream : Bool
  response : String
  responseStream : Bool
  options : Options
  deriving DecidableEq, Repr

structure Service where
  name : String
  rpcs : List Rpc
  options : Options
  deriving DecidableEq, Repr

inductive Import (σ : Type) where
  | reference (path : String)
  | inlined (schema : σ)
  deriving Repr

structure Declarations where
  package : Option String
  dialect : Option String
  file : Option String
  options : Options
  messages : List Message
  enums : List Enum
  services : List Service
  deriving Repr

structure Schema extends Declarations where
  imports : List (Import Schema)
  deriving Repr

def Schema.references (s : Schema) : List String :=
  s.imports.filterMap fun i =>
    match i with
    | .reference path => some path
    | .inlined _ => none

end ProtoBundle
