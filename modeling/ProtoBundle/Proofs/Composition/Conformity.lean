import ProtoBundle.Proofs.Composition.Inlining
import ProtoBundle.Proofs.Schema.DocumentConstraint

namespace ProtoBundle.Composition

variable {t : FileTree} {includes : List String}

def IsComposed (schema : Schema) : Prop :=
  ∀ node ∈ schema.nodes, node.IsWellFormed ∧ ∀ i ∈ node.imports, ∃ child, i = .inlined child

theorem isComposed_withImports {loaded : Schema} (hl : loaded.IsWellFormed) {imports : List Schema}
    (hi : ∀ child ∈ imports, IsComposed child) : IsComposed (loaded.withImports imports) := by
  intro node hn
  rw [Schema.nodes_withImports] at hn
  rcases List.mem_cons.mp hn with rfl | hn
  · refine ⟨hl, fun i hm => ?_⟩
    obtain ⟨child, -, rfl⟩ := List.mem_map.mp hm
    exact ⟨child, rfl⟩
  · obtain ⟨child, hc, hn⟩ := List.mem_flatMap.mp hn
    exact hi child hc node hn

theorem isWellFormed_of_load {path : String} {schema : Schema} (h : load t path = .ok schema) : schema.IsWellFormed := by
  rw [load_eq_bind] at h
  obtain ⟨text, -, h⟩ := exists_of_bind_eq_ok h
  exact (Schema.isWellFormed_ofText h).1

def Yields (visit : Visit) : Prop :=
  ∀ path cache run schema, visit path cache = some run → run.result = .ok schema → IsComposed schema

theorem Run.result_of_leave {α : Type} {r : Run α} {path : String} {a : α} (h : (r.leave path).result = .ok a) :
    r.result = .ok a := by
  unfold Run.leave at h
  split at h
  · exact h
  · cases h

theorem Yields.reference {visit : Visit} (hv : Yields visit) {importer ref : String} {cache : Cache}
    {run : Run (Option Schema)} (h : reference visit t includes importer ref cache = some run) :
    ∀ next, run.result = .ok next → ∀ child ∈ next, IsComposed child := by
  rcases reference_cases t includes importer ref cache with hi | ⟨hi, hp⟩ | ⟨hi, hp, hs⟩ | ⟨hi, hp, hs, hx⟩ | hn
  · cases (reference_passedOver visit hi).symm.trans h
    rintro _ ⟨⟩
    exact nofun
  · cases (reference_cycle visit hi hp).symm.trans h
    exact nofun
  · cases (reference_leftOut visit hi hp hs).symm.trans h
    rintro _ ⟨⟩
    exact nofun
  · cases (reference_unresolved visit hi hp hs hx).symm.trans h
    exact nofun
  · obtain ⟨inner, hi, rfl⟩ := Option.map_eq_some_iff.mp ((reference_nested visit hn).symm.trans h)
    intro next hr
    obtain ⟨child, hc, rfl⟩ := exists_of_map_eq_ok hr
    rintro _ ⟨⟩
    exact hv _ _ _ _ hi (Run.result_of_leave hc)

theorem Yields.references {visit : Visit} (hv : Yields visit) {importer : String} {refs : List String} {cache : Cache}
    {run : Run (List Schema)} (h : references visit t includes importer refs cache = some run) :
    ∀ imports, run.result = .ok imports → ∀ child ∈ imports, IsComposed child := by
  induction refs generalizing cache run with
  | nil =>
      cases h
      rintro _ ⟨⟩
      exact nofun
  | cons ref refs ih =>
      obtain ⟨⟨result, between, events⟩, hf, h⟩ := Option.bind_eq_some_iff.mp h
      cases result with
      | error e =>
          cases h
          exact nofun
      | ok next =>
          obtain ⟨rest, hr, rfl⟩ := Option.map_eq_some_iff.mp h
          intro imports he
          obtain ⟨others, ho, rfl⟩ := exists_of_map_eq_ok he
          have hnext := hv.reference hf next rfl
          exact List.forall_mem_append.mpr ⟨fun child hc => hnext child (Option.mem_toList.mp hc), ih hr others ho⟩

theorem yields_file (t : FileTree) (includes : List String) (depth : Nat) : Yields (file t includes depth) := by
  induction depth with
  | zero =>
      intro path cache run schema h
      cases h
  | succ depth ih =>
      intro path cache run schema h hr
      change follow (file t includes depth) t includes path cache (load t path) = some run at h
      cases hl : load t path with
      | error e =>
          rw [hl] at h
          cases h
          cases hr
      | ok loaded =>
          rw [hl] at h
          obtain ⟨inner, hi, rfl⟩ := Option.map_eq_some_iff.mp h
          obtain ⟨imports, hm, rfl⟩ := exists_of_map_eq_ok hr
          exact isComposed_withImports (isWellFormed_of_load hl) (ih.references hi imports hm)

theorem isComposed_build {path : String} {c : Cache} {schema : Schema}
    (h : (build t includes path c).result = .ok schema) : IsComposed schema := by
  unfold build at h
  split at h
  · exact yields_file t includes _ _ _ _ schema (file_compose t includes _ _) h
  · exact yields_file t includes _ _ _ _ schema (file_compose t includes _ _) (Run.result_of_leave h)

inductive IsProduced : Schema → Prop
  | read {file : Option String} {text : String} {schema : Schema} (h : Schema.ofText file text = .ok schema) :
      IsProduced schema
  | composed {t : FileTree} {includes : List String} {path : String} {c : Cache} {schema : Schema}
      (h : (build t includes path c).result = .ok schema) : IsProduced schema

theorem IsProduced.isWellFormed {schema : Schema} (h : IsProduced schema) : schema.IsWellFormed := by
  cases h with
  | read h => exact (Schema.isWellFormed_ofText h).1
  | composed h => exact (isComposed_build h schema schema.mem_nodes).1

theorem isWellFormed_and_isSchemaDocument :
    (∀ file text schema, Schema.ofText file text = .ok schema → schema.IsWellFormed ∧
      (∀ i ∈ schema.imports, ∃ path, i = .reference path) ∧ schema.document.IsSchemaDocument) ∧
    ∀ t includes path c schema, (build t includes path c).result = .ok schema → IsComposed schema ∧
      schema.document.IsSchemaDocument := by
  refine ⟨fun file text schema h => ?_, fun t includes path c schema h => ?_⟩
  · obtain ⟨hw, hr⟩ := Schema.isWellFormed_ofText h
    refine ⟨hw, hr, Schema.isSchemaDocument ?_⟩
    rw [Schema.nodes_of_references hr]
    exact List.forall_mem_singleton.mpr hw
  · have hc := isComposed_build h
    exact ⟨hc, Schema.isSchemaDocument fun node hn => (hc node hn).1⟩

def choosingText : String := "import\"b\";message M\x7boneof o\x7bT a=1;\x7dmap<K,V>m=2;extensions 5 to max;\x7d"

def choosingImports : FileTree :=
  ((FileTree.empty ['/']).write "/a" choosingText.toUTF8.toList).write "/b" []

theorem isWellFormed_and_isSchemaDocument_choosing :
    (∃ schema, Schema.ofText none choosingText = .ok schema ∧ schema.IsWellFormed ∧
      schema.document.IsSchemaDocument) ∧
    ∃ schema, (build choosingImports [] "a" .empty).result = .ok schema ∧ IsComposed schema ∧
      schema.document.IsSchemaDocument := by
  obtain ⟨hread, hbuilt⟩ := isWellFormed_and_isSchemaDocument
  have hr : (Schema.ofText none choosingText).isOk = true := by decide +kernel
  have hb : (build choosingImports [] "a" .empty).result.isOk = true := by decide +kernel
  obtain ⟨read, hr⟩ := exists_of_isOk hr
  obtain ⟨built, hb⟩ := exists_of_isOk hb
  obtain ⟨hw, -, hd⟩ := hread none choosingText read hr
  exact ⟨⟨read, hr, hw, hd⟩, built, hb, hbuilt _ _ _ _ built hb⟩

end ProtoBundle.Composition
