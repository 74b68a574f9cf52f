import ProtoBundle.Schema.OfSource.Options

namespace ProtoBundle

def greatestFieldNumber : Int := 0x1FFFFFFF

def readRangeEnd (first : Int) : Option Source.RangeEnd → Except Failure Int
  | none => .ok first
  | some (.maximum _) => .ok greatestFieldNumber
  | some (.number l) => l.integer .idRange

def readRange (r : Source.IdRange) : Except Failure (List Int) := do
  let first ← r.first.integer .idRange
  let last ← readRangeEnd first r.last
  return [first, last]

/-- Reserved numbers are read and not kept. -/
def checkReserved (items : List Source.ReservedItem) : Except Failure Unit :=
  items.forM fun item =>
    match item with
    | .range r => (readRange r).map fun _ => ()
    | .name _ => .ok ()

end ProtoBundle
