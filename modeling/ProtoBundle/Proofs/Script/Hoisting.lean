import ProtoBundle.Proofs.Script.Growth
import ProtoBundle.Proofs.Script.Segments

namespace ProtoBundle.Script

open Store

variable {s t : Store} {path rest : List String} {name : String}

def Store.Declares (s : Store) (path : List String) : Prop := ∀ name ∈ path.head?, (s.member? 0 name).isSome = true

structure Store.Declared (path : List String) (s t : Store) : Prop where
  size : t.size = s.size
  admits : t.Admits path
  clear : t.Clear path
  declares : t.Declares path
  read : ∀ front, t.read front = s.read front
  uses : ∀ front id key, t.Uses front id key → s.Uses front id key
  member : ∀ id key, ¬s.Names path id key → t.member? id key = s.member? id key

end ProtoBundle.Script
