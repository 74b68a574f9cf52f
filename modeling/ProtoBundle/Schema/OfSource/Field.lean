import ProtoBundle.Schema.OfSource.Options

namespace ProtoBundle

def Field.ofSource (f : Source.Field) : Except Failure Field := do
  let options ← Options.ofSettings f.settings
  let number ← f.number.integer .field
  return ⟨(f.label.map Source.Lexeme.text).getD "optional", f.type.text, f.name.text, number, options, none, none⟩

def Field.ofMap (f : Source.MapField) : Except Failure Field := do
  let options ← Options.ofSettings f.settings
  let number ← f.number.integer .mapField
  return ⟨"map", f.value.text, f.name.text, number, options, some f.key.text, none⟩

def Field.ofOneof (oneof : String) (f : Source.OneofField) : Except Failure Field := do
  let options ← Options.ofSettings f.settings
  let number ← f.number.integer .oneofField
  return ⟨"optional", f.type.text, f.name.text, number, options, none, some oneof⟩

/-- Options of a oneof are read and not kept. -/
def Field.ofOneofItem (oneof : String) : Source.OneofItem → Except Failure (Option Field)
  | .field f => (Field.ofOneof oneof f).map some
  | .option s => (Options.entry s).map fun _ => none
  | .empty => .ok none

end ProtoBundle
