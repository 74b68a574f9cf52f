import ProtoBundle.Json.Basic

namespace ProtoBundle.Json

inductive Kind where
  | null
  | flag
  | integer
  | float
  | text
  | array
  | object
  deriving DecidableEq, Repr

def kind : Json → Kind
  | .null => .null
  | .flag _ => .flag
  | .integer _ => .integer
  | .float _ => .float
  | .text _ => .text
  | .array _ => .array
  | .object _ => .object

inductive Constraint where
  | anything
  | nothing
  | kinds (allowed : List Kind)
  | texts (allowed : List String)
  | object (members : List (String × Constraint)) (required : List String) (further : Constraint)
  | array (items : Constraint) (least : Nat) (most : Option Nat)
  | anyOf (choices : List Constraint)
  | allOf (parts : List Constraint)
  | defined (name : String)
  deriving Repr

def Constraint.ofMember (members : List (String × Constraint)) (further : Constraint) (name : String) : Constraint :=
  (members.lookup name).getD further

inductive Satisfies (definitions : List (String × Constraint)) : Constraint → Json → Prop
  | anything {j : Json} : Satisfies definitions .anything j
  | kinds {allowed : List Kind} {j : Json} (h : j.kind ∈ allowed) : Satisfies definitions (.kinds allowed) j
  | texts {allowed : List String} {s : String} (h : s ∈ allowed) : Satisfies definitions (.texts allowed) (.text s)
  | object {members : List (String × Constraint)} {required : List String} {further : Constraint}
      {ms : List (String × Json)} (hr : ∀ name ∈ required, name ∈ ms.map Prod.fst)
      (h : ∀ m ∈ ms, Satisfies definitions (.ofMember members further m.1) m.2) :
      Satisfies definitions (.object members required further) (.object ms)
  | array {items : Constraint} {least : Nat} {most : Option Nat} {js : List Json} (hl : least ≤ js.length)
      (hm : ∀ n ∈ most, js.length ≤ n) (h : ∀ j ∈ js, Satisfies definitions items j) :
      Satisfies definitions (.array items least most) (.array js)
  | anyOf {choices : List Constraint} {c : Constraint} {j : Json} (hc : c ∈ choices) (h : Satisfies definitions c j) :
      Satisfies definitions (.anyOf choices) j
  | allOf {parts : List Constraint} {j : Json} (h : ∀ c ∈ parts, Satisfies definitions c j) :
      Satisfies definitions (.allOf parts) j
  | defined {name : String} {c : Constraint} {j : Json} (hc : definitions.lookup name = some c)
      (h : Satisfies definitions c j) : Satisfies definitions (.defined name) j

section

variable {definitions : List (String × Constraint)} {α : Type}

theorem satisfies_map {items : Constraint} {document : α → Json} {as : List α}
    (h : ∀ a ∈ as, Satisfies definitions items (document a)) :
    Satisfies definitions (.array items 0 none) (.array (as.map document)) := by
  refine .array (Nat.zero_le _) nofun fun j hj => ?_
  obtain ⟨a, ha, rfl⟩ := List.mem_map.mp hj
  exact h a ha

theorem satisfies_text (s : String) : Satisfies definitions (.kinds [.text]) (.text s) := .kinds List.mem_cons_self

theorem satisfies_integer (i : Int) : Satisfies definitions (.kinds [.integer]) (.integer i) :=
  .kinds List.mem_cons_self

theorem satisfies_flag (b : Bool) : Satisfies definitions (.kinds [.flag]) (.flag b) := .kinds List.mem_cons_self

end

end ProtoBundle.Json
