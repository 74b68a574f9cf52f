import ProtoBundle.Number.Integer
import ProtoBundle.Number.Binary64

namespace ProtoBundle

inductive Json where
  | null
  | flag (b : Bool)
  | integer (i : Int)
  | float (x : Number.Binary64)
  | text (s : String)
  | array (items : List Json)
  | object (members : List (String × Json))
  deriving Repr

namespace Json

def integers : Json → List Int
  | .integer i => [i]
  | .array items => ofItems items
  | .object members => ofMembers members
  | _ => []
where
  ofItems : List Json → List Int
    | [] => []
    | j :: js => j.integers ++ ofItems js
  ofMembers : List (String × Json) → List Int
    | [] => []
    | (_, j) :: ms => j.integers ++ ofMembers ms

theorem ofItems_eq_flatMap (js : List Json) : integers.ofItems js = js.flatMap integers := by
  induction js with
  | nil => rfl
  | cons j js ih => simp [integers.ofItems, ih]

theorem ofMembers_eq_flatMap (ms : List (String × Json)) :
    integers.ofMembers ms = ms.flatMap fun m => m.2.integers := by
  induction ms with
  | nil => rfl
  | cons m ms ih => simp [integers.ofMembers, ih]

def writable (j : Json) : Bool := j.integers.all Number.fits

end Json

end ProtoBundle
