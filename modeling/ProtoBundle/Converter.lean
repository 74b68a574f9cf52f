import ProtoBundle.Composition.Build
import ProtoBundle.Render

/-!
A converter holds the schema of one root file, loads it once, and renders it as often as asked. What it reports on
the way is collected, and shown when it is verbose.
-/

namespace ProtoBundle

inductive Notice where
  | includeDirectories (paths : List String)
  | composing (e : Composition.Event)
  | composed (count : Nat)
  | rendering (c : Convention) (layout : Json.Layout) (request : Namespace.Request)
  deriving DecidableEq, Repr

def Namespace.Request.description : Namespace.Request → String
  | .absent => "None"
  | .derived => "DERIVE_NAMESPACE"
  | .named name => Text.quotedString name

def Notice.message : Notice → String
  | .includeDirectories paths => "Include directories: " ++ Text.quotedList paths
  | .composing e => e.message
  | .composed count => s!"Composed {count} file(s)"
  | .rendering c layout request => s!"Rendering {c.name} ({layout.name}), namespace={request.description}"

def Notice.line (n : Notice) : String := "[DEBUG] " ++ n.message ++ "\n"

structure Converter where
  input : String
  includes : List String
  convention : Convention
  request : Namespace.Request
  layout : Json.Layout
  verbose : Bool
  schema : Option Schema

namespace Converter

structure Reply (α : Type) where
  result : Except Failure α
  converter : Converter
  notices : List Notice

def validate (k : Converter) (t : FileTree) : Reply Unit :=
  match Composition.checkDirectories t k.includes with
  | .error e => ⟨.error e, k, []⟩
  | .ok paths => ⟨.ok (), { k with includes := paths }, [.includeDirectories paths]⟩

def load (k : Converter) (t : FileTree) : Reply Schema :=
  let run := Composition.build t k.includes k.input .empty
  let events := run.events.map Notice.composing
  match run.result with
  | .error e => ⟨.error e, k, events⟩
  | .ok s => ⟨.ok s, { k with schema := some s }, events ++ [.composed run.cache.size]⟩

def renderSchema (k : Converter) (s : Schema) : Reply String :=
  ⟨s.render k.convention k.request k.layout, k, [.rendering k.convention k.layout k.request]⟩

def render (k : Converter) (t : FileTree) : Reply String :=
  match k.schema with
  | some s => k.renderSchema s
  | none =>
      let loaded := k.load t
      match loaded.result with
      | .error e => ⟨.error e, loaded.converter, loaded.notices⟩
      | .ok s =>
          let rendered := loaded.converter.renderSchema s
          { rendered with notices := loaded.notices ++ rendered.notices }

def shown (verbose : Bool) (notices : List Notice) : List String := if verbose then notices.map Notice.line else []

end Converter

end ProtoBundle
