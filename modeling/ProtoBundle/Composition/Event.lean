namespace ProtoBundle.Composition

inductive Event where
  | loading (path : String)
  | passedOver (reference importer : String)
  | alreadyInlined (reference path : String)
  deriving DecidableEq, Repr

def Event.message : Event → String
  | .loading path => s!"Parsing {path}"
  | .passedOver reference importer => s!"Skipping import '{reference}' in {importer}"
  | .alreadyInlined reference path => s!"Already inlined '{reference}' ({path}), omitting"

end ProtoBundle.Composition
