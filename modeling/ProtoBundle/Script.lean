import ProtoBundle.Json.Text
import ProtoBundle.Text.Split

/-!
Scripts that hand a document to a builder library and bind what it builds: to a global variable, to the exports
of a module, or as the value of an asynchronously defined module.
-/

namespace ProtoBundle.Script

open Json (Layout)

def builder (library literal : String) (name : Option String) : String :=
  let argument :=
    match name with
    | some name => Json.quote name
    | none => ""
  library ++ ".newBuilder(\x7b\x7d)['import'](" ++ literal ++ ").build(" ++ argument ++ ")"

def segments (name : String) : List String :=
  match name.toList with
  | '.' :: cs => (Text.splitOn '.' cs).map String.ofList
  | cs => (Text.splitOn '.' cs).map String.ofList

inductive Assigned where
  | built
  | keptOrEmpty
  deriving DecidableEq, Repr

structure Assignment where
  declared : Bool
  target : List String
  assigned : Assigned
  deriving DecidableEq, Repr

/-- A target as it is written. Empty segments in front leave no dots. -/
def targetText (target : List String) : String := Text.joinStrings "." (target.dropWhile String.isEmpty)

def blank : Layout → String
  | .pretty => " "
  | .compact => ""

def Assignment.text (layout : Layout) (built : String) (a : Assignment) : String :=
  let target := targetText a.target
  let value :=
    match a.assigned with
    | .built => built
    | .keptOrEmpty => target ++ blank layout ++ "||" ++ blank layout ++ "\x7b\x7d"
  (if a.declared then "var " else "") ++ target ++ blank layout ++ "=" ++ blank layout ++ value ++ ";"

def textOfLines (layout : Layout) (lines : List String) : String :=
  match layout with
  | .pretty => Text.joinStrings "\n" lines ++ "\n"
  | .compact => Text.joinStrings "" lines ++ "\n"

def bindings (done : List String) : List String → List Assignment
  | [] => []
  | [segment] => [⟨done.isEmpty, done ++ [segment], .built⟩]
  | segment :: rest => ⟨done.isEmpty, done ++ [segment], .keptOrEmpty⟩ :: bindings (done ++ [segment]) rest

def globalBindings : Option String → List Assignment
  | none => [⟨true, ["_root"], .built⟩]
  | some name => bindings [] (segments name)

def globalLibrary : String := "dcodeIO.ProtoBuf"

def global (layout : Layout) (literal : String) (name : Option String) : String :=
  let built := builder globalLibrary literal name
  textOfLines layout ((globalBindings name).map (Assignment.text layout built))

def requiredLibrary : String := "require(\"protobufjs\")"

def exported (layout : Layout) (literal : String) (name : Option String) : String :=
  let built := builder requiredLibrary literal name
  textOfLines layout [Assignment.text layout built ⟨false, ["module", "exports"], .built⟩]

def moduleId (name : String) : String :=
  match name.toList.map fun c => if c = '.' then '/' else c with
  | '/' :: cs => String.ofList cs
  | cs => String.ofList cs

def dependency : String := "ProtoBuf"

def defined (layout : Layout) (literal : String) (name : Option String) : String :=
  let built := builder dependency literal name
  let arguments := (name.map fun name => Json.quote (moduleId name)).toList ++ ["[" ++ Json.quote dependency ++ "]"]
  match layout with
  | .compact =>
      "define(" ++ Text.joinStrings "," (arguments ++ ["function(" ++ dependency ++ ")\x7breturn " ++ built ++ ";\x7d"]) ++
        ");\n"
  | .pretty =>
      textOfLines layout
        ["define(" ++ Text.joinStrings ", " (arguments ++ ["function(" ++ dependency ++ ") \x7b"]),
         "    return " ++ built ++ ";",
         "\x7d);"]

end ProtoBundle.Script
