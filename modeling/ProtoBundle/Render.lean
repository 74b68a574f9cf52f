import ProtoBundle.Namespace
import ProtoBundle.Schema.Document
import ProtoBundle.Script

namespace ProtoBundle

inductive Convention where
  | structural
  | global
  | exported
  | defined
  deriving DecidableEq, Repr

def Convention.all : List Convention := [.structural, .global, .exported, .defined]

def Convention.name : Convention → String
  | .structural => "json"
  | .global => "shim"
  | .exported => "commonjs"
  | .defined => "amd"

def Convention.ofName? (name : String) : Option Convention := Convention.all.find? fun c => c.name == name

def Json.Layout.name : Json.Layout → String
  | .pretty => "pretty"
  | .compact => "compact"

def Convention.wrap (layout : Json.Layout) (literal : String) (name : Option String) : Convention → String
  | .structural => literal ++ "\n"
  | .global => Script.global layout literal name
  | .exported => Script.exported layout literal name
  | .defined => Script.defined layout literal name

def Schema.literal (s : Schema) (layout : Json.Layout) : Except Failure String :=
  if s.document.writable then .ok (s.document.string layout) else .error .integerTooLong

def Schema.render (s : Schema) (c : Convention) (request : Namespace.Request) (layout : Json.Layout) :
    Except Failure String := do
  let name ← if c = .structural then .ok none else Namespace.resolve s request
  let literal ← s.literal layout
  return c.wrap layout literal name

end ProtoBundle
