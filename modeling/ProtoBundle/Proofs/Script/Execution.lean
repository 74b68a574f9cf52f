import ProtoBundle.Proofs.Schema.Tables
import ProtoBundle.Script

/-!
What the assignments of a script do. A store is made of ordinary objects. What an object does not hold itself it
inherits from the objects of its chain, and a member may refuse to be written, or be code instead of a value. What such
code does is left out here, and so is what a number or a text inherits: where a script comes to that, it is not followed
any further, as if it had failed.
-/

namespace ProtoBundle.Script

inductive Value where
  | undefined
  | null
  | plain (isTrue : Bool) (text : String)
  | object (id : Nat)
  deriving DecidableEq, Repr

namespace Value

def global : Value := .object 0

def isAbsent : Value → Bool
  | .undefined => true
  | .null => true
  | _ => false

def isTrue : Value → Bool
  | .undefined => false
  | .null => false
  | .plain isTrue _ => isTrue
  | .object _ => true

def isObject : Value → Bool
  | .object _ => true
  | _ => false

end Value

inductive Member where
  | data (value : Value) (writable : Bool)
  | accessor
  deriving DecidableEq, Repr

namespace Member

def isObject : Member → Bool
  | .data v _ => v.isObject
  | .accessor => false

end Member

/-- The chain begins with the object that is inherited from directly, and goes on with the chain of that one. -/
structure Object where
  members : Table Member
  chain : List Nat
  isExtensible : Bool
  deriving DecidableEq, Repr

/-- The first object is the global one, whose members are the variables. The second one is what every object inherits
from that a script writes as an empty one. -/
structure Store where
  objects : List Object
  deriving DecidableEq, Repr

namespace Store

def size (s : Store) : Nat := s.objects.length

def member? (s : Store) (id : Nat) (name : String) : Option Member :=
  s.objects[id]?.bind fun o => o.members.get? name

def chain (s : Store) (id : Nat) : List Nat := (s.objects[id]?.map Object.chain).getD []

def isExtensible (s : Store) (id : Nat) : Bool := s.objects[id]?.any Object.isExtensible

def holder? (s : Store) (id : Nat) (name : String) : Option Nat :=
  (id :: s.chain id).find? fun o => (s.member? o name).isSome

def lookup (s : Store) (id : Nat) (name : String) : Option Member :=
  (s.holder? id name).bind fun o => s.member? o name

def get (s : Store) : Value → String → Option Value
  | .object id, name =>
      match s.lookup id name with
      | none => some .undefined
      | some (.data v _) => some v
      | some .accessor => none
  | _, _ => none

def read (s : Store) (path : List String) : Option Value := path.foldlM s.get .global

/-- The value of a path in an expression. It starts with a variable, and a variable that is not there cannot be
read. -/
def value (s : Store) : List String → Option Value
  | [] => some .global
  | name :: path => if (s.lookup 0 name).isSome then s.read (name :: path) else none

def put (s : Store) (id : Nat) (name : String) (v : Value) : Store :=
  ⟨s.objects.modify id fun o => { o with members := o.members.put name (.data v true) }⟩

def allocate (s : Store) : Value × Store := (.object s.size, ⟨s.objects ++ [⟨[], [1], true⟩]⟩)

/-- An assignment to a member that cannot be written, or that an object cannot take up, has no effect. -/
def assign (s : Store) (holder : Value) (name : String) (v : Value) : Option Store :=
  match holder with
  | .object id =>
      match s.lookup id name with
      | some .accessor => none
      | some (.data _ false) => some s
      | _ => some (if (s.member? id name).isSome || s.isExtensible id then s.put id name v else s)
  | _ => none

def declare (s : Store) (name : String) : Option Store :=
  if (s.member? 0 name).isSome then some s
  else if s.isExtensible 0 then some (s.put 0 name .undefined)
  else none

end Store

structure Builder where
  build : Store → Value × Store
  keeps : ∀ s, s.objects <+: (build s).2.objects

structure State where
  store : Store
  builds : List Store
  deriving DecidableEq, Repr

namespace Assignment

/-- What holds the target is found before what is assigned. -/
def exec (b : Builder) (c : State) (a : Assignment) : Option State :=
  (c.store.value a.target.dropLast).bind fun holder =>
    match a.assigned with
    | .built =>
        let r := b.build c.store
        (r.2.assign holder (a.target.getLastD "") r.1).map fun s => ⟨s, c.builds ++ [c.store]⟩
    | .keptOrEmpty =>
        (c.store.value a.target).bind fun old =>
          let r := if old.isTrue then (old, c.store) else c.store.allocate
          (r.2.assign holder (a.target.getLastD "") r.1).map fun s => ⟨s, c.builds⟩

end Assignment

def execAll (b : Builder) (script : List Assignment) (c : State) : Option State := script.foldlM (Assignment.exec b) c

def hoist (script : List Assignment) (s : Store) : Option Store :=
  script.foldlM (fun s a => if a.declared then s.declare (a.target.headD "") else some s) s

def run (b : Builder) (script : List Assignment) (s : Store) : Option State :=
  (hoist script s).bind fun s => execAll b script ⟨s, []⟩

namespace Store

variable {s t u : Store} {id holder other : Nat} {name key : String} {v : Value} {m : Member}

section Members

@[simp] theorem size_put (s : Store) (id : Nat) (name : String) (v : Value) : (s.put id name v).size = s.size :=
  List.length_modify _ _ _

@[simp] theorem size_allocate (s : Store) : s.allocate.2.size = s.size + 1 := by
  simp [allocate, size]

@[simp] theorem chain_put (s : Store) (id : Nat) (name : String) (v : Value) (other : Nat) :
    (s.put id name v).chain other = s.chain other := by
  simp only [put, chain, List.getElem?_modify]
  cases s.objects[other]? with
  | none => rfl
  | some o => by_cases h : id = other <;> simp [h]

@[simp] theorem isExtensible_put (s : Store) (id : Nat) (name : String) (v : Value) (other : Nat) :
    (s.put id name v).isExtensible other = s.isExtensible other := by
  simp only [put, isExtensible, List.getElem?_modify]
  cases s.objects[other]? with
  | none => rfl
  | some o => by_cases h : id = other <;> simp [h]

theorem member?_put (h : id < s.size) (v : Value) (other : Nat) (key : String) :
    (s.put id name v).member? other key =
      if other = id ∧ key = name then some (.data v true) else s.member? other key := by
  simp only [put, member?, List.getElem?_modify]
  by_cases hid : id = other
  · subst hid
    rw [List.getElem?_eq_getElem (show id < s.objects.length from h)]
    simp [Table.get?_put, eq_comm]
  · simp [hid, Ne.symm hid]

@[simp] theorem member?_allocate (s : Store) (other : Nat) (key : String) :
    s.allocate.2.member? other key = s.member? other key := by
  simp only [allocate, member?, List.getElem?_append]
  split
  · rfl
  · rename_i hlt
    rw [List.getElem?_eq_none (Nat.le_of_not_lt hlt)]
    cases h : other - s.objects.length with
    | zero => rfl
    | succ n => rfl

theorem lt_size_of_member? (h : s.member? id name = some m) : id < s.size := by
  obtain ⟨o, ho, -⟩ := Option.bind_eq_some_iff.mp h
  exact (List.getElem?_eq_some_iff.mp ho).1

theorem member?_eq_none (h : s.size ≤ id) : s.member? id name = none := by
  rw [member?, List.getElem?_eq_none h, Option.bind_none]

theorem chain_eq_nil (h : s.size ≤ id) : s.chain id = [] := by
  rw [chain, List.getElem?_eq_none h]
  rfl

theorem member?_of_extends (h : s.objects <+: t.objects) (hid : id < s.size) (name : String) :
    t.member? id name = s.member? id name := by
  obtain ⟨more, hmore⟩ := h
  rw [member?, ← hmore, List.getElem?_append_left hid, member?]

theorem chain_of_extends (h : s.objects <+: t.objects) (hid : id < s.size) : t.chain id = s.chain id := by
  obtain ⟨more, hmore⟩ := h
  rw [chain, ← hmore, List.getElem?_append_left hid, chain]

theorem extends_allocate (s : Store) : s.objects <+: s.allocate.2.objects := List.prefix_append _ _

theorem chain_allocate (s : Store) : s.allocate.2.chain s.size = [1] := by
  simp [allocate, chain, size]

theorem chain_allocate_cases (s : Store) (other : Nat) :
    s.allocate.2.chain other = s.chain other ∨ s.allocate.2.chain other = [1] := by
  rcases Nat.lt_trichotomy other s.size with hlt | rfl | hgt
  · exact .inl (chain_of_extends (extends_allocate s) hlt)
  · exact .inr (chain_allocate s)
  · left
    rw [chain_eq_nil (Nat.le_of_lt hgt), chain_eq_nil]
    rwa [size_allocate]

theorem isExtensible_allocate (s : Store) : s.allocate.2.isExtensible s.size = true := by
  simp [allocate, isExtensible, size]

end Members

section Lookups

theorem holder?_eq_some_iff : s.holder? id name = some holder ↔
    ∃ front back, id :: s.chain id = front ++ holder :: back ∧ (s.member? holder name).isSome = true ∧
      ∀ o ∈ front, s.member? o name = none := by
  rw [holder?, List.find?_eq_some_iff_append]
  constructor
  · rintro ⟨hm, front, back, hchain, hfront⟩
    exact ⟨front, back, hchain, hm, fun o ho => by simpa using hfront o ho⟩
  · rintro ⟨front, back, hchain, hm, hfront⟩
    exact ⟨hm, front, back, hchain, fun o ho => by simp [hfront o ho]⟩

theorem lookup_eq_some_iff :
    s.lookup id name = some m ↔ ∃ holder, s.holder? id name = some holder ∧ s.member? holder name = some m :=
  Option.bind_eq_some_iff

theorem lookup_eq_none_iff : s.lookup id name = none ↔ ∀ o ∈ id :: s.chain id, s.member? o name = none := by
  constructor
  · intro h o ho
    by_contra hne
    have hfound : (s.holder? id name).isSome = true :=
      List.find?_isSome.mpr ⟨o, ho, Option.isSome_iff_ne_none.mpr hne⟩
    obtain ⟨holder, hh⟩ := Option.isSome_iff_exists.mp hfound
    obtain ⟨-, -, -, hsome, -⟩ := holder?_eq_some_iff.mp hh
    obtain ⟨m, hm⟩ := Option.isSome_iff_exists.mp hsome
    rw [lookup_eq_some_iff.mpr ⟨holder, hh, hm⟩] at h
    cases h
  · intro h
    rw [lookup, holder?, List.find?_eq_none.mpr fun o ho => by simp [h o ho], Option.bind_none]

theorem holder?_of_member? (h : s.member? id name = some m) : s.holder? id name = some id :=
  holder?_eq_some_iff.mpr ⟨[], s.chain id, rfl, by rw [h]; rfl, nofun⟩

theorem lookup_of_member? (h : s.member? id name = some m) : s.lookup id name = some m :=
  lookup_eq_some_iff.mpr ⟨id, holder?_of_member? h, h⟩

end Lookups

section Reads

variable {path front back : List String}

theorem read_concat (s : Store) (path : List String) (name : String) :
    s.read (path ++ [name]) = (s.read path).bind fun v => s.get v name := by
  rw [read, List.foldlM_append]
  exact congrArg _ (funext fun v => bind_pure _)

theorem get_of_lookup {writable : Bool} (h : s.lookup id name = some (.data v writable)) :
    s.get (.object id) name = some v := by
  rw [get, h]

theorem read_concat_of_object (h : s.read path = some (.object id)) (name : String) :
    s.read (path ++ [name]) = s.get (.object id) name := by
  rw [read_concat, h, Option.bind_some]

theorem exists_of_read_concat (h : s.read (path ++ [name]) = some v) (hv : v.isAbsent = false) :
    ∃ id holder writable, s.read path = some (.object id) ∧ s.holder? id name = some holder ∧
      s.member? holder name = some (.data v writable) := by
  rw [read_concat] at h
  obtain ⟨value, hp, hg⟩ := Option.bind_eq_some_iff.mp h
  cases value with
  | object id =>
      rw [get] at hg
      split at hg
      · cases hg
        cases hv
      · rename_i w writable hl
        cases hg
        obtain ⟨holder, hh, hm⟩ := lookup_eq_some_iff.mp hl
        exact ⟨id, holder, writable, hp, hh, hm⟩
      · cases hg
  | _ => cases hg

end Reads

end Store

end ProtoBundle.Script
