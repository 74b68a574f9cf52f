import ProtoBundle.Proofs.Composition.Search

namespace ProtoBundle.Composition

variable {t : FileTree} {includes : List String}

/-- Following references to the end: the schemas that are inlined, the cache that is left and the events. -/
inductive Inlines (t : FileTree) (includes : List String) :
    String → List String → Cache → List Schema → Cache → List Event → Prop
  | done {importer cache} : Inlines t includes importer [] cache [] cache []
  | passedOver {importer ref refs cache imports d events} (hv : isInlined ref = false)
      (rest : Inlines t includes importer refs cache imports d events) :
      Inlines t includes importer (ref :: refs) cache imports d (.passedOver ref importer :: events)
  | leftOut {importer ref refs cache imports d events} (hv : isInlined ref = true)
      (hp : target t includes importer ref ∉ cache.inProgress) (hs : target t includes importer ref ∈ cache.seen)
      (rest : Inlines t includes importer refs cache imports d events) :
      Inlines t includes importer (ref :: refs) cache imports d
        (.alreadyInlined ref (target t includes importer ref) :: events)
  | inlined {importer ref refs cache schema children d events imports d' events'}
      (hn : Leads t includes importer ref cache)
      (hl : load t (target t includes importer ref) = .ok schema)
      (inner : Inlines t includes (target t includes importer ref) schema.references
        (cache.start (target t includes importer ref)) children d events)
      (rest : Inlines t includes importer refs ⟨d.seen, cache.inProgress⟩ imports d' events') :
      Inlines t includes importer (ref :: refs) cache (schema.withImports children :: imports) d'
        (.loading (target t includes importer ref) :: events ++ events')

theorem Follows.inlines {importer : String} {refs : List String} {cache : Cache} {run : Run (List Schema)}
    (h : Follows t includes importer refs cache run) : ∀ imports, run.result = .ok imports →
    Inlines t includes importer refs cache imports run.cache run.events := by
  induction h with
  | done =>
      rintro imports ⟨⟩
      exact .done
  | passedOver hv _ ih => exact fun imports hr => .passedOver hv (ih imports hr)
  | leftOut hv hp hs _ ih => exact fun imports hr => .leftOut hv hp hs (ih imports hr)
  | cycle | unresolved | unreadable | abandoned =>
      intro imports hr
      cases hr
  | @inlined importer ref refs cache schema children d events result d' events' hn hl inner rest ihi ih =>
      intro imports hr
      cases result with
      | error e => cases hr
      | ok schemas =>
          cases hr
          exact .inlined hn hl (ihi children rfl) (ih schemas rfl)

theorem Inlines.follows {importer : String} {refs : List String} {cache d : Cache} {imports : List Schema}
    {events : List Event} (h : Inlines t includes importer refs cache imports d events) :
    Follows t includes importer refs cache ⟨.ok imports, d, events⟩ := by
  induction h with
  | done => exact .done
  | passedOver hv _ ih => exact .passedOver hv ih
  | leftOut hv hp hs _ ih => exact .leftOut hv hp hs ih
  | inlined hn hl _ _ ihi ih =>
      have hf := Follows.inlined hn hl ihi ih
      exact hf

theorem Inlines.takesUp {importer : String} {refs : List String} {cache d : Cache} {imports : List Schema}
    {events : List Event} (h : Inlines t includes importer refs cache imports d events) :
    TakesUp cache.seen (loads events) d.seen := h.follows.takesUp

theorem file_withImports {importer ref : String} {schema : Schema}
    (hl : load t (target t includes importer ref) = .ok schema) (imports : List Schema) :
    (schema.withImports imports).file = some (target t includes importer ref) :=
  (file_of_load hl).trans (congrArg some (absolute_target importer ref))

theorem Inlines.files {importer : String} {refs : List String} {cache d : Cache} {imports : List Schema}
    {events : List Event} (h : Inlines t includes importer refs cache imports d events) :
    (imports.flatMap Schema.nodes).map (·.file) = (loads events).map some := by
  induction h with
  | done => rfl
  | passedOver _ _ ih => exact ih
  | leftOut _ _ _ _ ih => exact ih
  | @inlined importer ref refs cache schema children d events imports d' events' hn hl _ _ ihi ih =>
      simp [ihi, ih, file_withImports hl]

theorem Inlines.reachable {importer : String} {refs : List String} {cache d : Cache} {imports : List Schema}
    {events : List Event} (h : Inlines t includes importer refs cache imports d events) :
    (∀ ref ∈ refs, isInlined ref = true → Declares t importer ref) →
    ∀ p ∈ loads events, Reachable t includes importer p := by
  induction h with
  | done =>
      intro _ p hp
      cases hp
  | passedOver _ _ ih => exact fun hd => ih (List.forall_mem_cons.mp hd).2
  | leftOut _ _ _ _ ih => exact fun hd => ih (List.forall_mem_cons.mp hd).2
  | @inlined importer ref refs cache schema children d events imports d' events' hn hl _ _ ihi ih =>
      intro hd p hp
      obtain ⟨hself, hd⟩ := List.forall_mem_cons.mp hd
      have he : Imports t includes importer (target t includes importer ref) := ⟨ref, hself hn.valid, rfl⟩
      rcases mem_loads_nested.mp hp with rfl | hp | hp
      · exact .single he
      · exact .head he (ihi (declares_of_load hl) p hp)
      · exact ih hd p hp

theorem Inlines.closed {importer : String} {refs : List String} {cache d : Cache} {imports : List Schema}
    {events : List Event} (h : Inlines t includes importer refs cache imports d events) :
    (∀ ref ∈ refs, isInlined ref = true → target t includes importer ref ∈ d.seen) ∧
    ∀ p ∈ loads events, ∀ q, Imports t includes p q → q ∈ d.seen := by
  induction h with
  | done => simp
  | passedOver hv _ ih =>
      obtain ⟨htargets, himports⟩ := ih
      exact ⟨List.forall_mem_cons.mpr ⟨fun hi => absurd (hv.symm.trans hi) Bool.false_ne_true, htargets⟩, himports⟩
  | leftOut _ _ hs rest ih =>
      obtain ⟨htargets, himports⟩ := ih
      exact ⟨List.forall_mem_cons.mpr ⟨fun _ => (rest.takesUp.mem_iff _).mpr (.inl hs), htargets⟩, himports⟩
  | @inlined importer ref refs cache schema children d events imports d' events' hn hl inner rest ihi ih =>
      have grow : ∀ p ∈ d.seen, p ∈ d'.seen := fun p hp => (rest.takesUp.mem_iff p).mpr (.inl hp)
      have taken : target t includes importer ref ∈ d'.seen :=
        grow _ ((inner.takesUp.mem_iff _).mpr (.inl (Cache.mem_seen_start.mpr (.inl rfl))))
      refine ⟨List.forall_mem_cons.mpr ⟨fun _ => taken, ih.1⟩, ?_⟩
      intro p hp q he
      rcases mem_loads_nested.mp hp with rfl | hp | hp
      · obtain ⟨r, hr, rfl⟩ := he
        obtain ⟨hm, hi⟩ := (declares_iff hl).mp hr
        exact grow _ (ihi.1 r hm hi)
      · exact grow q (ihi.2 p hp q he)
      · exact ih.2 p hp q he

/-- Which of some targets become children when those are left out that come earlier in the preorder. -/
inductive Chosen : List Schema → List String → List Schema → Prop
  | done {earlier} : Chosen earlier [] []
  | leftOut {earlier path paths children} (hp : some path ∈ earlier.map (·.file))
      (rest : Chosen earlier paths children) : Chosen earlier (path :: paths) children
  | kept {earlier path paths child children} (hp : some path ∉ earlier.map (·.file)) (hf : child.file = some path)
      (rest : Chosen (earlier ++ child.nodes) paths children) : Chosen earlier (path :: paths) (child :: children)

def targets (t : FileTree) (includes : List String) (importer : String) (refs : List String) : List String :=
  (refs.filter isInlined).map (target t includes importer)

def Arranged (t : FileTree) (includes : List String) (earlier : List Schema) (node : Schema) : Prop :=
  ∃ path schema, node.file = some path ∧ load t path = .ok schema ∧ node = schema.withImports node.children ∧
    Chosen (earlier ++ [node]) (targets t includes path schema.references) node.children

def Throughout (P : List Schema → Schema → Prop) (earlier nodes : List Schema) : Prop :=
  ∀ before node after, nodes = before ++ node :: after → P (earlier ++ before) node

theorem throughout_nil (P : List Schema → Schema → Prop) (earlier : List Schema) : Throughout P earlier [] := by
  intro before node after h
  simp at h

theorem Throughout.append {P : List Schema → Schema → Prop} {earlier nodes others : List Schema}
    (h : Throughout P earlier nodes) (h' : Throughout P (earlier ++ nodes) others) :
    Throughout P earlier (nodes ++ others) := by
  intro before node after he
  rcases List.append_eq_append_iff.mp he with ⟨rest, rfl, ho⟩ | ⟨rest, hn, ho⟩
  · rw [← List.append_assoc]
    exact h' rest node after ho
  · cases rest with
    | nil =>
        rw [List.append_nil] at hn
        subst hn
        simpa using h' [] node after ho.symm
    | cons first rest =>
        cases ho
        exact h before node rest hn

theorem Throughout.cons {P : List Schema → Schema → Prop} {earlier nodes : List Schema} {node : Schema}
    (h : P earlier node) (h' : Throughout P (earlier ++ [node]) nodes) : Throughout P earlier (node :: nodes) := by
  have hone : Throughout P earlier [node] := by
    intro before first after he
    rcases List.cons_eq_append_iff.mp he with ⟨rfl, he⟩ | ⟨rest, _, he⟩
    · cases he
      simpa using h
    · simp at he
  exact hone.append h'

def Covers (earlier : List Schema) (seen : List String) : Prop :=
  ∀ p, some p ∈ earlier.map (·.file) ↔ p ∈ seen

theorem Covers.append {earlier nodes : List Schema} {seen paths after : List String} (h : Covers earlier seen)
    (ht : TakesUp seen paths after) (hf : nodes.map (·.file) = paths.map some) : Covers (earlier ++ nodes) after := by
  intro p
  rw [List.map_append, List.mem_append, h p, hf, ht.mem_iff p]
  simp

theorem Inlines.chosen {importer : String} {refs : List String} {cache d : Cache} {imports : List Schema}
    {events : List Event} (h : Inlines t includes importer refs cache imports d events) :
    ∀ earlier, Covers earlier cache.seen →
      Chosen earlier (targets t includes importer refs) imports ∧
      Throughout (Arranged t includes) earlier (imports.flatMap Schema.nodes) := by
  induction h with
  | done => exact fun earlier _ => ⟨.done, throughout_nil _ _⟩
  | @passedOver importer ref refs cache imports d events hv _ ih =>
      intro earlier hc
      rw [targets, List.filter_cons_of_neg (by simp [hv])]
      exact ih earlier hc
  | @leftOut importer ref refs cache imports d events hv _ hs _ ih =>
      intro earlier hc
      rw [targets, List.filter_cons_of_pos hv, List.map_cons]
      exact ⟨.leftOut ((hc _).mpr hs) (ih earlier hc).1, (ih earlier hc).2⟩
  | @inlined importer ref refs cache schema children d events imports d' events' hn hl inner rest ihi ih =>
      intro earlier hc
      rw [targets, List.filter_cons_of_pos hn.valid, List.map_cons, List.flatMap_cons]
      have hf := file_withImports hl children
      have hstart : Covers (earlier ++ [schema.withImports children])
          (cache.start (target t includes importer ref)).seen := by
        rw [hn.seen_start]
        exact hc.append ((TakesUp.none _).cons hn.new) (by simp [hf])
      obtain ⟨hchosen, hinner⟩ := ihi _ hstart
      have hnodes : Covers (earlier ++ (schema.withImports children).nodes) d.seen := by
        rw [Schema.nodes_withImports, ← List.singleton_append, ← List.append_assoc]
        exact hstart.append inner.takesUp inner.files
      obtain ⟨hrest, hafter⟩ := ih _ hnodes
      refine ⟨.kept (fun hm => hn.new ((hc _).mp hm)) hf hrest, .append ?_ hafter⟩
      rw [Schema.nodes_withImports]
      refine .cons ⟨_, schema, hf, hl, ?_, ?_⟩ hinner
      · rw [Schema.children_withImports]
      · rwa [Schema.children_withImports]

theorem Composes.inlines {root : String} {cache d : Cache} {schema : Schema} {events : List Event}
    (h : Composes t includes root cache ⟨.ok schema, d, events⟩) :
    ∃ loaded imports events', load t root = .ok loaded ∧ schema = loaded.withImports imports ∧
      events = .loading root :: events' ∧ Inlines t includes root loaded.references cache imports d events' := by
  generalize hr : (⟨.ok schema, d, events⟩ : Run Schema) = run at h
  cases h with
  | unreadable => cases hr
  | @followed loaded result d events' hl hf =>
      cases result with
      | error e => cases hr
      | ok imports =>
          cases hr
          exact ⟨loaded, imports, events', hl, rfl, rfl, hf.inlines imports rfl⟩

theorem files_build {path : String} {c : Cache} {schema : Schema}
    (h : (build t includes path c).result = .ok schema) :
    schema.nodes.map (·.file) = (loads (build t includes path c).events).map some := by
  obtain ⟨result, d, events, stack, hm, hb, -⟩ := exists_composes_build t includes path c
  rw [hb] at h ⊢
  cases h
  obtain ⟨loaded, imports, events', hl, rfl, rfl, hi⟩ := hm.inlines
  have hf : (loaded.withImports imports).file = some (t.absolute path) :=
    (file_of_load hl).trans (congrArg some (t.absolute_absolute path))
  simp [hf, hi.files]

theorem Inlines.mem_iff_reachable {root : String} {loaded : Schema} {imports : List Schema} {d : Cache}
    {events : List Event} (hl : load t root = .ok loaded)
    (h : Inlines t includes root loaded.references ⟨[root], [root]⟩ imports d events) (p : String) :
    p ∈ root :: loads events ↔ Reachable t includes root p := by
  have seen : ∀ q, q ∈ d.seen → q ∈ root :: loads events := by
    intro q hq
    simpa using (h.takesUp.mem_iff q).mp hq
  constructor
  · intro hp
    rcases List.mem_cons.mp hp with rfl | hp
    · exact .refl
    · exact h.reachable (declares_of_load hl) p hp
  · intro hp
    induction hp with
    | refl => exact List.mem_cons_self ..
    | @tail p q _ he ih =>
        rcases List.mem_cons.mp ih with rfl | hp
        · obtain ⟨ref, hr, rfl⟩ := he
          obtain ⟨hm, hv⟩ := (declares_iff hl).mp hr
          exact seen _ (h.closed.1 ref hm hv)
        · exact seen q (h.closed.2 p hp q he)

structure ComposedTree (t : FileTree) (includes : List String) (root : String) (run : Run Schema) (schema : Schema)
    (paths : List String) : Prop where
  files : schema.nodes.map (·.file) = paths.map some
  nodup : paths.Nodup
  normal : ∀ p ∈ paths, t.absolute p = p
  reachable : ∀ p, p ∈ paths ↔ Reachable t includes root p
  arranged : ∀ before node after, schema.nodes = before ++ node :: after → Arranged t includes before node
  loaded : loads run.events = paths
  seen : ∀ p, p ∈ run.cache.seen ↔ p ∈ paths
  idle : run.cache.inProgress = []

theorem composedTree_of_build {path : String} {schema : Schema}
    (h : (build t includes path .empty).result = .ok schema) :
    ∃ paths, ComposedTree t includes (t.absolute path) (build t includes path .empty) schema paths := by
  obtain ⟨result, d, events, hm, hb⟩ := build_spec t includes path Cache.consistent_empty
  rw [hb] at h ⊢
  cases h
  have hr := t.absolute_absolute path
  generalize t.absolute path = root at hm hr
  rw [Cache.entered_empty] at hm
  obtain ⟨loaded, imports, events', hl, rfl, rfl, hi⟩ := hm.inlines
  have hf : (loaded.withImports imports).file = some root := (file_of_load hl).trans (congrArg some hr)
  have ht := TakesUp.cons List.not_mem_nil hi.takesUp
  have hstart : Covers [loaded.withImports imports] [root] := by
    intro p
    simp [hf, eq_comm]
  obtain ⟨hchosen, harranged⟩ := hi.chosen _ hstart
  refine ⟨root :: loads events', ?_, ht.nodup, ?_, hi.mem_iff_reachable hl, ?_, rfl, ?_, rfl⟩
  · simp [hf, hi.files]
  · exact fun p hp => absolute_of_reachable hr ((hi.mem_iff_reachable hl p).mp hp)
  · rw [Schema.nodes_withImports]
    have hnode : Arranged t includes [] (loaded.withImports imports) := by
      refine ⟨root, loaded, hf, hl, ?_, ?_⟩
      · rw [Schema.children_withImports]
      · rwa [Schema.children_withImports]
    exact Throughout.cons hnode harranged
  · intro p
    simpa using ht.mem_iff p

def diamondImports : FileTree :=
  (((FileTree.empty ['/']).write "/a" "import\"b\";import\"c\";import\"b\";".toUTF8.toList).write
    "/b" "import\"c\";".toUTF8.toList).write "/c" []

theorem composedTree_of_diamond : ∃ schema, (build diamondImports [] "a" .empty).result = .ok schema ∧
    ComposedTree diamondImports [] (diamondImports.absolute "a") (build diamondImports [] "a" .empty) schema
      ["/a", "/b", "/c"] := by
  have hk : (build diamondImports [] "a" .empty).result.isOk = true := by decide +kernel
  have hl : loads (build diamondImports [] "a" .empty).events = ["/a", "/b", "/c"] := by decide +kernel
  cases hr : (build diamondImports [] "a" .empty).result with
  | error e =>
      rw [hr] at hk
      cases hk
  | ok schema =>
      obtain ⟨paths, hc⟩ := composedTree_of_build hr
      have hp : paths = ["/a", "/b", "/c"] := hc.loaded.symm.trans hl
      exact ⟨schema, rfl, hp ▸ hc⟩

end ProtoBundle.Composition
