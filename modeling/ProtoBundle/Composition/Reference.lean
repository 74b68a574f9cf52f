import ProtoBundle.FileTree
import ProtoBundle.Text.Blank

/-!
Import references and the files they lead to. A reference is looked up next to the importing file first and then
in each include directory.
-/

namespace ProtoBundle.Composition

/-- The descriptor schema comes with every builder library. -/
def libraryReference : String := "google/protobuf/descriptor.proto"

def slashed (reference : String) : String :=
  String.ofList (reference.toList.map fun c => if c = '\\' then '/' else c)

def isInlined (reference : String) : Bool :=
  !Text.allBlank reference.toList && slashed reference != libraryReference

def candidate (t : FileTree) (base reference : String) : String :=
  String.ofList (Path.normal (Path.append (Path.absolute t.working base.toList) reference.toList))

def candidates (t : FileTree) (includes : List String) (base reference : String) : List String :=
  (base :: includes).map fun directory => candidate t directory reference

/-- The first candidate that exists; where none does, the one next to the importing file. -/
def resolve (t : FileTree) (includes : List String) (base reference : String) : String :=
  ((candidates t includes base reference).find? t.isPresent).getD (candidate t base reference)

theorem mem_candidates_resolve (t : FileTree) (includes : List String) (base reference : String) :
    resolve t includes base reference ∈ candidates t includes base reference := by
  unfold resolve
  cases h : (candidates t includes base reference).find? t.isPresent with
  | none => simp [candidates]
  | some path => exact List.mem_of_find?_eq_some h

theorem eq_normal_of_mem_candidates {t : FileTree} {includes : List String} {base reference path : String}
    (h : path ∈ candidates t includes base reference) : ∃ cs, path = String.ofList (Path.normal cs) := by
  obtain ⟨directory, -, rfl⟩ := List.mem_map.1 h
  exact ⟨_, rfl⟩

def checkDirectories (t : FileTree) : List String → Except Failure (List String)
  | [] => .ok []
  | d :: ds =>
      if t.isDirectory d then (checkDirectories t ds).map (t.absolute d :: ·)
      else .error (.missingDirectory d)

end ProtoBundle.Composition
