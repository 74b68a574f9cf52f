import ProtoBundle.Converter

/-!
A session: files that change, one cache shared by all compositions, the schema composed last, and one
converter. Each step answers and leaves a new session; a step that fails still leaves what it did before.
-/

namespace ProtoBundle

structure Session where
  files : FileTree
  cache : Composition.Cache
  last : Option Schema
  converter : Option Converter

namespace Session

def start (files : FileTree) : Session := ⟨files, .empty, none, none⟩

structure Rendering where
  convention : Convention
  request : Namespace.Request
  layout : Json.Layout
  deriving DecidableEq, Repr

/-- Changes to the settings of a converter; what is absent stays. -/
structure Change where
  convention : Option Convention
  request : Option Namespace.Request
  layout : Option Json.Layout
  deriving DecidableEq, Repr

def Change.apply (c : Change) (k : Converter) : Converter :=
  { k with
    convention := c.convention.getD k.convention
    request := c.request.getD k.request
    layout := c.layout.getD k.layout }

inductive Step where
  | write (path : String) (bytes : List UInt8)
  | remove (path : String)
  | newCache
  | begin_ (path : String)
  | finish (path : String)
  | contains (path : String)
  | build (path : String) (includes : List String) (fresh : Bool)
  | render (r : Rendering)
  | accepts (names : List (Option String))
  | newConverter (k : Converter)
  | change (c : Change)
  | validate
  | load
  | convert

inductive Answer where
  | done
  | membership (seen inProgress : Bool) (size : Nat)
  | schema (s : Schema)
  | text (s : String)
  | verdicts (bs : List Bool)
  | directories (paths : List String)

structure Reply where
  answer : Except Failure Answer
  events : List Composition.Event
  lines : List String

def quiet (answer : Except Failure Answer) : Reply := ⟨answer, [], []⟩

def idle : Reply := quiet (.ok .done)

def onLast (s : Session) (f : Schema → Except Failure Answer) : Session × Reply :=
  match s.last with
  | some schema => (s, quiet (f schema))
  | none => (s, idle)

def onConverter {α : Type} (s : Session) (operation : Converter → Converter.Reply α)
    (answer : Converter → α → Answer) : Session × Reply :=
  match s.converter with
  | some k =>
      let r := operation k
      ({ s with converter := some r.converter },
        ⟨r.result.map (answer r.converter), [], Converter.shown k.verbose r.notices⟩)
  | none => (s, idle)

/-- A fresh composition leaves the shared cache alone. A failed one keeps the schema composed before. -/
def build (s : Session) (path : String) (includes : List String) (fresh : Bool) : Session × Reply :=
  let run := Composition.build s.files includes path (if fresh then .empty else s.cache)
  let cache := if fresh then s.cache else run.cache
  match run.result with
  | .ok schema => ({ s with cache := cache, last := some schema }, ⟨.ok (.schema schema), run.events, []⟩)
  | .error e => ({ s with cache := cache }, ⟨.error e, run.events, []⟩)

def step (s : Session) : Step → Session × Reply
  | .write path bytes => ({ s with files := s.files.write path bytes }, idle)
  | .remove path => ({ s with files := s.files.remove path }, idle)
  | .newCache => ({ s with cache := .empty }, idle)
  | .begin_ path => ({ s with cache := s.cache.start path }, idle)
  | .finish path =>
      match s.cache.finish path with
      | .ok cache => ({ s with cache := cache }, idle)
      | .error e => (s, quiet (.error e))
  | .contains path =>
      (s, quiet (.ok (.membership (s.cache.has path) (s.cache.isBuilding path) s.cache.size)))
  | .build path includes fresh => s.build path includes fresh
  | .render r => s.onLast fun schema => (schema.render r.convention r.request r.layout).map .text
  | .accepts names => s.onLast fun schema => .ok (.verdicts (names.map (Namespace.accepts schema)))
  | .newConverter k => ({ s with converter := some k }, idle)
  | .change c => ({ s with converter := s.converter.map c.apply }, idle)
  | .validate => s.onConverter (·.validate s.files) fun k _ => .directories k.includes
  | .load => s.onConverter (·.load s.files) fun _ schema => .schema schema
  | .convert => s.onConverter (·.render s.files) fun _ text => .text text

def run (s : Session) : List Step → List (Session × Reply)
  | [] => []
  | step :: steps => s.step step :: (s.step step).1.run steps

end Session

end ProtoBundle
