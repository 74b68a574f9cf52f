import ProtoBundle.Proofs.Script.Hoisting
import ProtoBundle.Proofs.Script.Reading

/-!
Binding the build to a path. Each statement but the last sees to it that one more name leads to an object; the last one
writes the member at the end of the path without a look at its old value.
-/

namespace ProtoBundle

open Json (Layout)

namespace Script

open Store

section Statements

variable {b : Builder} {builds : List Store} {declared : Bool} {s t u : Store} {path done rest : List String}
  {name : String} {id : Nat} {v : Value}

theorem Store.Reaches.value (h : Reaches s path done t id) (hs : s.Admits path) (hd : s.Declares path)
    {front : List String} (hf : front <+: path) : t.value front = t.read front := by
  cases front with
  | nil => rfl
  | cons name front =>
      obtain ⟨back, rfl⟩ := hf
      obtain ⟨m, hm⟩ := Option.isSome_iff_exists.mp (h.isSome_member? hs (hd name rfl))
      rw [Store.value, if_pos (by rw [lookup_of_member? hm]; rfl)]

end Statements

section Writing

variable {b : Builder} {s t : Store} {path parent : List String} {last : String} {id : Nat} {v : Value}

def written (b : Builder) (t : Store) (id : Nat) (name : String) : Store := (b.build t).2.put id name (b.build t).1

end Writing

/-- A global object with these members, the object that new ones inherit from, the function that it holds, and others. -/
def bare (names : Table Member) (others : List Object) : Store :=
  ⟨⟨names, [1], true⟩ :: ⟨[("constructor", .data (.object 2) true), ("__proto__", .accessor)], [], true⟩ ::
    ⟨[("prototype", .data (.object 1) false)], [1], true⟩ :: others⟩

def loaded : Store :=
  bare [("dcodeIO", .data (.object 3) true)] [⟨[("ProtoBuf", .data (.object 4) true)], [1], true⟩, ⟨[], [1], true⟩]

end Script

end ProtoBundle
