import ProtoBundle.Schema.OfSource.Range

namespace ProtoBundle.Enum

inductive Part where
  | value (v : EnumValue)
  | option (entry : String × Value)
  | nothing
  deriving DecidableEq, Repr

def Part.value? : Part → Option EnumValue
  | .value v => some v
  | _ => none

def Part.option? : Part → Option (String × Value)
  | .option entry => some entry
  | _ => none

def readValue (v : Source.EnumValue) : Except Failure EnumValue := do
  let options ← Options.ofSettings v.settings
  let number ← v.number.integer .enumValue
  return ⟨v.name.text, number, options⟩

def part : Source.EnumItem → Except Failure Part
  | .value v => (readValue v).map .value
  | .option s => (Options.entry s).map .option
  | .reserved items => (checkReserved items).map fun _ => .nothing
  | .empty => .ok .nothing

def ofParts (name : String) (parts : List Part) : Enum where
  name := name
  values := parts.filterMap Part.value?
  options := Table.ofList (parts.filterMap Part.option?)

def ofSource (e : Source.Enum) : Except Failure Enum := (e.items.mapM part).map (ofParts e.name.text)

end ProtoBundle.Enum
