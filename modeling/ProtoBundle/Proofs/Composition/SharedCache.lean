import ProtoBundle.Proofs.Composition.Inlining

/-!
A cache shared by many builds, each on files of its own. Whatever was begun, finished and built before, a build
takes up exactly what it loads and gives the files in progress back as it found them.
-/

namespace ProtoBundle.Composition

variable {t : FileTree} {includes : List String} {root : String} {c : Cache}

inductive Use where
  | start (path : String)
  | finish (path : String)
  | build (t : FileTree) (includes : List String) (path : String)

/-- A path that is finished without being in progress leaves the cache as it is. -/
def Cache.after (c : Cache) : Use → Cache
  | .start path => c.start path
  | .finish path =>
      match c.finish path with
      | .ok d => d
      | .error _ => c
  | .build t includes path => (Composition.build t includes path c).cache

theorem Composes.takesUp {cache : Cache} {run : Run Schema} (h : Composes t includes root cache run) :
    ∃ imports, loads run.events = root :: imports ∧ TakesUp cache.seen imports run.cache.seen := by
  cases h with
  | unreadable => exact ⟨[], rfl, .none _⟩
  | followed _ hf => exact ⟨_, rfl, hf.takesUp⟩

theorem takesUp_build (t : FileTree) (includes : List String) (path : String) (c : Cache) :
    (build t includes path c).cache.inProgress.Perm c.inProgress ∧
    (∀ p, p ∈ (build t includes path c).cache.seen ↔ p ∈ c.seen ∨ p ∈ loads (build t includes path c).events) ∧
    ∃ imports, loads (build t includes path c).events = t.absolute path :: imports ∧
      (t.absolute path :: imports).Nodup ∧ ∀ p ∈ imports, p ∉ c.seen := by
  obtain ⟨result, d, events, stack, hm, hb, hp⟩ := exists_composes_build t includes path c
  rw [hb]
  generalize t.absolute path = root at hm
  obtain ⟨imports, hl, ht⟩ := hm.takesUp
  refine ⟨hp, ?_, imports, hl, ?_, ?_⟩
  · intro p
    rw [hl, ht.mem_iff p, Cache.mem_seen_entered, List.mem_cons, or_assoc, or_left_comm]
  · exact List.nodup_cons.mpr ⟨fun hr => ht.new root hr (Cache.mem_seen_entered.mpr (.inl rfl)), ht.nodup⟩
  · exact fun p hp hs => ht.new p hp (Cache.mem_seen_entered.mpr (.inr hs))

theorem inProgress_build (t : FileTree) (includes : List String) (path : String) (hc : c.Consistent) :
    (build t includes path c).cache.inProgress = c.inProgress := by
  obtain ⟨result, d, events, -, hb⟩ := build_spec t includes path hc
  rw [hb]

theorem Cache.seen_subset_after (c : Cache) (use : Use) : c.seen ⊆ (c.after use).seen := by
  cases use with
  | start path => exact Cache.seen_subset_start c path
  | finish path =>
      unfold Cache.after
      dsimp only
      split
      · rename_i d hd
        rw [Cache.seen_of_finish hd]
        exact List.Subset.refl _
      · exact List.Subset.refl _
  | build t includes path =>
      exact fun p hp => ((takesUp_build t includes path c).2.1 p).mpr (.inl hp)

theorem Cache.Consistent.after (hc : c.Consistent) (use : Use) : (c.after use).Consistent := by
  cases use with
  | start path => exact hc.start path
  | finish path =>
      unfold Cache.after Cache.finish
      dsimp only
      split
      · rename_i d hd
        split at hd
        · cases hd
          exact fun p hp => hc (List.mem_of_mem_erase hp)
        · cases hd
      · exact hc
  | build t includes path =>
      intro p hp
      change p ∈ (Composition.build t includes path c).cache.inProgress at hp
      rw [inProgress_build t includes path hc] at hp
      exact ((takesUp_build t includes path c).2.1 p).mpr (.inl (hc hp))

theorem Cache.Consistent.foldl (hc : c.Consistent) (uses : List Use) : (uses.foldl Cache.after c).Consistent := by
  induction uses generalizing c with
  | nil => exact hc
  | cons use uses ih => exact ih (hc.after use)

theorem Cache.seen_subset_foldl (c : Cache) (uses : List Use) :
    c.seen ⊆ (uses.foldl Cache.after c).seen := by
  induction uses generalizing c with
  | nil => exact List.Subset.refl _
  | cons use uses ih => exact List.Subset.trans (Cache.seen_subset_after c use) (ih (c.after use))

def Passes (t : FileTree) (includes : List String) (importer : String) (refs : List String)
    (cache after : Cache) : Prop :=
  ∃ imports events, references (visit t includes) t includes importer refs cache = some ⟨.ok imports, after, events⟩

theorem Passes.nil (importer : String) (cache : Cache) : Passes t includes importer [] cache cache :=
  ⟨[], [], rfl⟩

theorem Passes.snoc {importer ref : String} {refs : List String} {cache before after : Cache}
    {next : Option Schema} {events : List Event} (h : Passes t includes importer refs cache before)
    (hr : reference (visit t includes) t includes importer ref before = some ⟨.ok next, after, events⟩) :
    Passes t includes importer (refs ++ [ref]) cache after := by
  induction refs generalizing cache with
  | nil =>
      obtain ⟨imports, events', h⟩ := h
      cases h
      exact ⟨_, _, by rw [List.nil_append, references, hr]; rfl⟩
  | cons first refs ih =>
      obtain ⟨imports, events', h⟩ := h
      obtain ⟨⟨result, between, events⟩, hf, h⟩ := Option.bind_eq_some_iff.mp h
      cases result with
      | error e => cases h
      | ok schema =>
          obtain ⟨⟨result, d, others⟩, hs, he⟩ := Option.map_eq_some_iff.mp h
          cases result with
          | error e => cases he
          | ok schemas =>
              cases he
              obtain ⟨_, _, hrest⟩ := ih ⟨schemas, others, hs⟩
              exact ⟨_, _, by rw [List.cons_append, references, hf, Option.bind_some, hrest]; rfl⟩

/-- Among the references of a file, which are followed from some cache, one leads to `path` and is met with the cache
`before`. -/
def Enters (t : FileTree) (includes : List String) (importer : String) (cache : Cache) (path : String)
    (before : Cache) : Prop :=
  ∃ schema done ref left, load t importer = .ok schema ∧ schema.references = done ++ ref :: left ∧
    Passes t includes importer done cache before ∧ Leads t includes importer ref before ∧
    path = target t includes importer ref

inductive Visits (t : FileTree) (includes : List String) (root : String) (c : Cache) : String → Cache → Prop
  | root : Visits t includes root c root (c.entered root)
  | nested {importer cache path before} (h : Visits t includes root c importer cache)
      (he : Enters t includes importer cache path before) : Visits t includes root c path (before.start path)

inductive Begins (t : FileTree) (includes : List String) (root : String) (c : Cache) : String → Cache → Prop
  | root (hn : root ∉ c.seen) : Begins t includes root c root c
  | nested {importer cache path before} (h : Visits t includes root c importer cache)
      (he : Enters t includes importer cache path before) : Begins t includes root c path before

theorem Enters.spec {importer path : String} {cache before : Cache} (hc : cache.Consistent)
    (h : Enters t includes importer cache path before) :
    before.Consistent ∧ before.inProgress = cache.inProgress ∧ path ∉ before.inProgress := by
  obtain ⟨schema, done, ref, left, -, -, ⟨imports, events, hr⟩, hn, rfl⟩ := h
  have hv : ∀ path cache run, visit t includes path cache = some run → Composes t includes path cache run := by
    rintro path cache run ⟨⟩
    exact composes_compose t includes path cache
  have hf := follows_of_references hv hr
  have hp := hf.inProgress
  refine ⟨?_, hp, hn.idle⟩
  have hs := hf.consistent hc
  rwa [← hp] at hs

theorem Visits.spec {path : String} {cache : Cache} (hc : c.Consistent)
    (h : Visits t includes root c path cache) : cache.Consistent ∧ c.inProgress <+: cache.inProgress := by
  induction h with
  | root =>
      refine ⟨hc.entered root, ?_⟩
      unfold Cache.entered
      split
      · exact List.prefix_refl _
      · exact List.prefix_append _ _
  | nested _ he ih =>
      obtain ⟨hb, hp, -⟩ := he.spec ih.1
      refine ⟨hb.start _, ih.2.trans ?_⟩
      rw [← hp]
      exact List.prefix_append _ _

theorem Begins.spec {path : String} {before : Cache} (hc : c.Consistent)
    (h : Begins t includes root c path before) :
    before.Consistent ∧ c.inProgress <+: before.inProgress ∧ path ∉ before.inProgress := by
  cases h with
  | root hn => exact ⟨hc, List.prefix_refl _, fun hp => hn (hc hp)⟩
  | nested hv he =>
      obtain ⟨hd, hpre⟩ := hv.spec hc
      obtain ⟨hb, hp, hn⟩ := he.spec hd
      exact ⟨hb, hp ▸ hpre, hn⟩

theorem Follows.begins {importer : String} {refs : List String} {cache : Cache} {run : Run (List Schema)}
    (h : Follows t includes importer refs cache run) :
    ∀ {start : Cache} {schema : Schema} {done : List String}, Visits t includes root c importer start →
      load t importer = .ok schema → schema.references = done ++ refs → Passes t includes importer done start cache →
      ∀ p ∈ loads run.events, ∃ before, Begins t includes root c p before := by
  induction h with
  | done =>
      intro _ _ _ _ _ _ _ p hp
      cases hp
  | passedOver hv _ ih =>
      intro _ _ _ hvis hl hs hpass
      exact ih hvis hl (by simpa using hs) (hpass.snoc (reference_passedOver _ hv))
  | leftOut hv hp hs _ ih =>
      intro _ _ _ hvis hl he hpass
      exact ih hvis hl (by simpa using he) (hpass.snoc (reference_leftOut _ hv hp hs))
  | cycle | unresolved =>
      intro _ _ _ _ _ _ _ p hp
      cases hp
  | unreadable hn _ =>
      intro _ _ _ hvis hl hs hpass p hp
      cases List.mem_singleton.mp hp
      exact ⟨_, .nested hvis ⟨_, _, _, _, hl, hs, hpass, hn, rfl⟩⟩
  | @abandoned importer ref _ cache _ _ _ _ hn hl' _ ih =>
      intro start _ _ hvis hl hs hpass p hp
      have he : Enters t includes importer start (target t includes importer ref) cache :=
        ⟨_, _, _, _, hl, hs, hpass, hn, rfl⟩
      rcases List.mem_cons.mp hp with rfl | hp
      · exact ⟨_, .nested hvis he⟩
      · exact ih (.nested hvis he) hl' rfl (.nil _ _) p hp
  | @inlined importer ref _ cache _ _ _ _ _ _ _ hn hl' inner _ ihi ih =>
      intro start _ _ hvis hl hs hpass p hp
      have hr := reference_visit hn hl' inner.inProgress inner.references_eq
      have he : Enters t includes importer start (target t includes importer ref) cache :=
        ⟨_, _, _, _, hl, hs, hpass, hn, rfl⟩
      rcases mem_loads_nested.mp hp with rfl | hp | hp
      · exact ⟨_, .nested hvis he⟩
      · exact ihi (.nested hvis he) hl' rfl (.nil _ _) p hp
      · exact ih hvis hl (by simpa using hs) (hpass.snoc hr) p hp

theorem Composes.begins {run : Run Schema} (h : Composes t includes root (c.entered root) run) :
    ∀ p ∈ loads run.events, p ∉ c.seen → ∃ before, Begins t includes root c p before := by
  intro p hp hn
  cases h with
  | unreadable =>
      cases List.mem_singleton.mp hp
      exact ⟨c, .root hn⟩
  | followed hl hf =>
      rcases List.mem_cons.mp hp with rfl | hp
      · exact ⟨c, .root hn⟩
      · exact hf.begins .root hl rfl (.nil _ _) p hp

theorem finish_compose {path : String} {before : Cache} (hn : path ∉ before.inProgress) :
    (compose t includes path (before.start path)).cache.finish path =
      .ok ⟨(compose t includes path (before.start path)).cache.seen, before.inProgress⟩ := by
  have hp := (composes_compose t includes path (before.start path)).inProgress
  exact Cache.finish_eq hp hn

theorem load_ne_notInProgress (path : String) : load t path ≠ .error .notInProgress :=
  fun h => raises_load t path _ h

theorem Follows.result_ne {importer : String} {refs : List String} {cache : Cache} {run : Run (List Schema)}
    (h : Follows t includes importer refs cache run) : run.result ≠ .error .notInProgress := by
  induction h with
  | done | cycle | unresolved =>
      intro he
      cases he
  | passedOver _ _ ih => exact ih
  | leftOut _ _ _ _ ih => exact ih
  | unreadable _ hl =>
      intro he
      cases he
      exact load_ne_notInProgress _ hl
  | abandoned _ _ _ ih =>
      intro he
      cases he
      exact ih rfl
  | @inlined _ _ _ _ _ _ _ _ result _ _ _ _ _ _ _ ih =>
      intro he
      cases result with
      | error e =>
          cases he
          exact ih rfl
      | ok schemas => cases he

theorem Composes.result_ne {path : String} {cache : Cache} {run : Run Schema}
    (h : Composes t includes path cache run) : run.result ≠ .error .notInProgress := by
  intro he
  cases h with
  | unreadable hl =>
      cases he
      exact load_ne_notInProgress _ hl
  | @followed schema result d events hl hf =>
      cases result with
      | error e =>
          cases he
          exact hf.result_ne rfl
      | ok imports => cases he

structure Unwinds (t : FileTree) (includes : List String) (path : String) (c : Cache) : Prop where
  inProgress : (build t includes path c).cache.inProgress = c.inProgress
  seen : ∀ p, p ∈ (build t includes path c).cache.seen ↔ p ∈ c.seen ∨ p ∈ loads (build t includes path c).events
  loaded : ∃ imports, loads (build t includes path c).events = t.absolute path :: imports ∧
    (t.absolute path :: imports).Nodup ∧ ∀ p ∈ imports, p ∉ c.seen
  begun : ∀ p ∈ loads (build t includes path c).events, p ∉ c.seen →
    ∃ before, Begins t includes (t.absolute path) c p before
  finished : ∀ p before, Begins t includes (t.absolute path) c p before → c.inProgress <+: before.inProgress ∧
    (compose t includes p (before.start p)).cache.finish p =
      .ok ⟨(compose t includes p (before.start p)).cache.seen, before.inProgress⟩
  result_ne : (build t includes path c).result ≠ .error .notInProgress

theorem Cache.Consistent.unwinds (hc : c.Consistent) (t : FileTree) (includes : List String) (path : String) :
    Unwinds t includes path c := by
  have hp := inProgress_build t includes path hc
  obtain ⟨-, hs, hl⟩ := takesUp_build t includes path c
  obtain ⟨result, d, events, hm, hb⟩ := build_spec t includes path hc
  refine ⟨hp, hs, hl, ?_, ?_, ?_⟩
  · rw [hb]
    exact hm.begins
  · intro p before h
    obtain ⟨-, hpre, hn⟩ := h.spec hc
    exact ⟨hpre, finish_compose hn⟩
  · rw [hb]
    exact hm.result_ne

theorem unwinds_of_uses (uses : List Use) :
    (uses.foldl Cache.after .empty).Consistent ∧
    (∀ later, (uses.foldl Cache.after .empty).seen ⊆ ((uses ++ later).foldl Cache.after .empty).seen) ∧
    ∀ t includes path, Unwinds t includes path (uses.foldl Cache.after .empty) := by
  have hc := Cache.consistent_empty.foldl uses
  refine ⟨hc, ?_, hc.unwinds⟩
  intro later
  rw [List.foldl_append]
  exact Cache.seen_subset_foldl _ later

theorem unwinds_of_started_twice :
    (build diamondImports [] "a" ⟨["/c"], ["/c", "/c"]⟩).error? =
      some (.cycle "/c" "c" (some "/b") ["/c", "/c", "/a", "/b"]) ∧
    (build diamondImports [] "a" ⟨["/c"], ["/c", "/c"]⟩).cache.inProgress = ["/c", "/c"] := by
  have hu := (unwinds_of_uses [.start "/c", .start "/c"]).2.2 diamondImports [] "a"
  have hc : [Use.start "/c", .start "/c"].foldl Cache.after .empty = ⟨["/c"], ["/c", "/c"]⟩ := by decide +kernel
  rw [hc] at hu
  exact ⟨by decide +kernel, hu.inProgress⟩

end ProtoBundle.Composition
