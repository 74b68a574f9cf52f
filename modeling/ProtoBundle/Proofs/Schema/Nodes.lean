import ProtoBundle.Schema.Basic

namespace ProtoBundle.Schema

def withImports (schema : Schema) (imports : List Schema) : Schema :=
  { schema with imports := imports.map .inlined }

def children (s : Schema) : List Schema :=
  s.imports.filterMap fun i =>
    match i with
    | .reference _ => none
    | .inlined schema => some schema

def nodes : Schema → List Schema
  | ⟨declarations, imports⟩ => ⟨declarations, imports⟩ :: below imports
where
  below : List (Import Schema) → List Schema
    | [] => []
    | .reference _ :: is => below is
    | .inlined s :: is => s.nodes ++ below is

theorem mem_nodes (s : Schema) : s ∈ s.nodes := by
  obtain ⟨declarations, imports⟩ := s
  exact List.mem_cons_self

theorem below_inlined (imports : List Schema) : nodes.below (imports.map .inlined) = imports.flatMap nodes := by
  induction imports with
  | nil => rfl
  | cons s imports ih => rw [List.map_cons, nodes.below, ih, List.flatMap_cons]

theorem below_references {imports : List (Import Schema)} (h : ∀ i ∈ imports, ∃ path, i = .reference path) :
    nodes.below imports = [] := by
  induction imports with
  | nil => rfl
  | cons i imports ih =>
      obtain ⟨⟨path, rfl⟩, hrest⟩ := List.forall_mem_cons.mp h
      exact ih hrest

theorem nodes_of_references {s : Schema} (h : ∀ i ∈ s.imports, ∃ path, i = .reference path) : s.nodes = [s] := by
  obtain ⟨declarations, imports⟩ := s
  rw [nodes, below_references h]

@[simp] theorem nodes_withImports (schema : Schema) (imports : List Schema) :
    (schema.withImports imports).nodes = schema.withImports imports :: imports.flatMap nodes :=
  congrArg (schema.withImports imports :: ·) (below_inlined imports)

@[simp] theorem children_withImports (schema : Schema) (imports : List Schema) :
    (schema.withImports imports).children = imports := by
  rw [children, withImports, List.filterMap_map]
  exact List.filterMap_some

end ProtoBundle.Schema
