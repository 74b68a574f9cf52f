import ProtoBundle.Proofs.Composition.Recursion
import ProtoBundle.Proofs.Schema.Nodes

/-!
The depth-first search behind a composition. The files in progress are its stack, which every reference finds as
the references in front of it found it; only the record of files taken up grows.
-/

namespace ProtoBundle.Composition

variable {t : FileTree} {includes : List String}

def Event.loaded? : Event → Option String
  | .loading path => some path
  | _ => none

def loads (events : List Event) : List String := events.filterMap Event.loaded?

@[simp] theorem loads_nil : loads [] = [] := rfl

@[simp] theorem loads_loading (path : String) (events : List Event) :
    loads (.loading path :: events) = path :: loads events := rfl

@[simp] theorem loads_passedOver (ref importer : String) (events : List Event) :
    loads (.passedOver ref importer :: events) = loads events := rfl

@[simp] theorem loads_alreadyInlined (ref path : String) (events : List Event) :
    loads (.alreadyInlined ref path :: events) = loads events := rfl

@[simp] theorem loads_append (events others : List Event) :
    loads (events ++ others) = loads events ++ loads others := List.filterMap_append

theorem mem_loads_nested {p path : String} {events others : List Event} :
    p ∈ loads (.loading path :: events ++ others) ↔ p = path ∨ p ∈ loads events ∨ p ∈ loads others := by
  rw [loads_append, loads_loading, List.cons_append, List.mem_cons, List.mem_append]

def Cache.Consistent (c : Cache) : Prop := c.inProgress ⊆ c.seen

theorem Cache.consistent_empty : Cache.empty.Consistent := List.Subset.refl _

theorem Cache.Consistent.start {c : Cache} (hc : c.Consistent) (path : String) : (c.start path).Consistent := by
  intro p hp
  rcases Cache.mem_inProgress_start.mp hp with hp | rfl
  · exact Cache.seen_subset_start c path (hc hp)
  · exact Cache.mem_seen_start.mpr (.inl rfl)

/-- How the references of a file are followed, as a search whose stack is the list of files in progress. -/
inductive Follows (t : FileTree) (includes : List String) :
    String → List String → Cache → Run (List Schema) → Prop
  | done {importer cache} : Follows t includes importer [] cache ⟨.ok [], cache, []⟩
  | passedOver {importer ref refs cache result d events} (hv : isInlined ref = false)
      (rest : Follows t includes importer refs cache ⟨result, d, events⟩) :
      Follows t includes importer (ref :: refs) cache ⟨result, d, .passedOver ref importer :: events⟩
  | leftOut {importer ref refs cache result d events} (hv : isInlined ref = true)
      (hp : target t includes importer ref ∉ cache.inProgress) (hs : target t includes importer ref ∈ cache.seen)
      (rest : Follows t includes importer refs cache ⟨result, d, events⟩) :
      Follows t includes importer (ref :: refs) cache
        ⟨result, d, .alreadyInlined ref (target t includes importer ref) :: events⟩
  | cycle {importer ref refs cache} (hv : isInlined ref = true)
      (hp : target t includes importer ref ∈ cache.inProgress) :
      Follows t includes importer (ref :: refs) cache
        ⟨.error (.cycle (target t includes importer ref) ref (some importer) cache.inProgress), cache, []⟩
  | unresolved {importer ref refs cache} (hv : isInlined ref = true)
      (hp : target t includes importer ref ∉ cache.inProgress) (hs : target t includes importer ref ∉ cache.seen)
      (hx : t.isPresent (target t includes importer ref) = false) :
      Follows t includes importer (ref :: refs) cache
        ⟨.error (.unresolved (target t includes importer ref) ref (some importer)), cache, []⟩
  | unreadable {importer ref refs cache e} (hn : Leads t includes importer ref cache)
      (hl : load t (target t includes importer ref) = .error e) :
      Follows t includes importer (ref :: refs) cache
        ⟨.error e, ⟨(cache.start (target t includes importer ref)).seen, cache.inProgress⟩,
          [.loading (target t includes importer ref)]⟩
  | abandoned {importer ref refs cache schema e d events} (hn : Leads t includes importer ref cache)
      (hl : load t (target t includes importer ref) = .ok schema)
      (inner : Follows t includes (target t includes importer ref) schema.references
        (cache.start (target t includes importer ref)) ⟨.error e, d, events⟩) :
      Follows t includes importer (ref :: refs) cache
        ⟨.error e, ⟨d.seen, cache.inProgress⟩, .loading (target t includes importer ref) :: events⟩
  | inlined {importer ref refs cache schema imports d events result d' events'}
      (hn : Leads t includes importer ref cache)
      (hl : load t (target t includes importer ref) = .ok schema)
      (inner : Follows t includes (target t includes importer ref) schema.references
        (cache.start (target t includes importer ref)) ⟨.ok imports, d, events⟩)
      (rest : Follows t includes importer refs ⟨d.seen, cache.inProgress⟩ ⟨result, d', events'⟩) :
      Follows t includes importer (ref :: refs) cache
        ⟨result.map (schema.withImports imports :: ·), d',
          .loading (target t includes importer ref) :: events ++ events'⟩

theorem Follows.inProgress {importer : String} {refs : List String} {cache : Cache} {run : Run (List Schema)}
    (h : Follows t includes importer refs cache run) : run.cache.inProgress = cache.inProgress := by
  induction h with
  | done => rfl
  | passedOver _ _ ih => exact ih
  | leftOut _ _ _ _ ih => exact ih
  | cycle => rfl
  | unresolved => rfl
  | unreadable => rfl
  | abandoned => rfl
  | inlined _ _ _ _ _ ih => exact ih

def Run.error? {α : Type} (r : Run α) : Option Failure :=
  match r.result with
  | .ok _ => none
  | .error e => some e

theorem Run.result_of_error? {α : Type} {r : Run α} {e : Failure} (h : r.error? = some e) : r.result = .error e := by
  unfold Run.error? at h
  cases hr : r.result with
  | ok a =>
      rw [hr] at h
      cases h
  | error d =>
      rw [hr] at h
      cases h
      rfl

theorem Cache.finish_of_mem {c : Cache} {path : String} (h : path ∈ c.inProgress) :
    c.finish path = .ok ⟨c.seen, c.inProgress.erase path⟩ :=
  if_pos (by simpa [Cache.isBuilding] using h)

theorem Cache.finish_eq {c : Cache} {stack : List String} {path : String} (h : c.inProgress = stack ++ [path])
    (hp : path ∉ stack) : c.finish path = .ok ⟨c.seen, stack⟩ := by
  rw [Cache.finish_of_mem (by simp [h]), h, List.erase_append_right _ hp, List.erase_cons_head, List.append_nil]

theorem Run.leave_eq {α : Type} {r : Run α} {stack : List String} {path : String}
    (h : r.cache.inProgress = stack ++ [path]) (hp : path ∉ stack) :
    r.leave path = ⟨r.result, ⟨r.cache.seen, stack⟩, r.events⟩ := by
  rw [Run.leave, Cache.finish_eq h hp]

inductive Composes (t : FileTree) (includes : List String) (path : String) (cache : Cache) : Run Schema → Prop
  | unreadable {e} (hl : load t path = .error e) : Composes t includes path cache ⟨.error e, cache, [.loading path]⟩
  | followed {schema result d events} (hl : load t path = .ok schema)
      (hf : Follows t includes path schema.references cache ⟨result, d, events⟩) :
      Composes t includes path cache ⟨result.map schema.withImports, d, .loading path :: events⟩

theorem Composes.inProgress {path : String} {cache : Cache} {run : Run Schema}
    (h : Composes t includes path cache run) : run.cache.inProgress = cache.inProgress := by
  cases h with
  | unreadable => rfl
  | followed _ hf => exact hf.inProgress

structure TakesUp (seen paths after : List String) : Prop where
  seen_eq : after = paths.reverse ++ seen
  nodup : paths.Nodup
  new : ∀ p ∈ paths, p ∉ seen

theorem TakesUp.none (seen : List String) : TakesUp seen [] seen := ⟨rfl, .nil, by simp⟩

theorem TakesUp.cons {seen paths after : List String} {p : String} (hp : p ∉ seen)
    (h : TakesUp (p :: seen) paths after) : TakesUp seen (p :: paths) after := by
  refine ⟨by simp [h.seen_eq], ?_, ?_⟩
  · exact List.nodup_cons.mpr ⟨fun hm => h.new p hm (List.mem_cons_self ..), h.nodup⟩
  · intro q hq
    rcases List.mem_cons.mp hq with rfl | hq
    · exact hp
    · exact fun hs => h.new q hq (List.mem_cons_of_mem _ hs)

theorem TakesUp.append {seen paths between others after : List String} (h : TakesUp seen paths between)
    (h' : TakesUp between others after) : TakesUp seen (paths ++ others) after := by
  refine ⟨by simp [h'.seen_eq, h.seen_eq], ?_, ?_⟩
  · refine List.nodup_append.mpr ⟨h.nodup, h'.nodup, ?_⟩
    rintro p hp _ hq rfl
    exact h'.new p hq (by simp [h.seen_eq, hp])
  · intro p hp
    rcases List.mem_append.mp hp with hp | hp
    · exact h.new p hp
    · exact fun hs => h'.new p hp (by simp [h.seen_eq, hs])

theorem TakesUp.mem_iff {seen paths after : List String} (h : TakesUp seen paths after) (p : String) :
    p ∈ after ↔ p ∈ seen ∨ p ∈ paths := by
  simp [h.seen_eq, or_comm]

theorem Leads.seen_start {importer ref : String} {cache : Cache} (h : Leads t includes importer ref cache) :
    (cache.start (target t includes importer ref)).seen = target t includes importer ref :: cache.seen :=
  List.insert_of_not_mem h.new

theorem Follows.takesUp {importer : String} {refs : List String} {cache : Cache} {run : Run (List Schema)}
    (h : Follows t includes importer refs cache run) :
    TakesUp cache.seen (loads run.events) run.cache.seen := by
  induction h with
  | done => exact .none _
  | passedOver _ _ ih => exact ih
  | leftOut _ _ _ _ ih => exact ih
  | cycle => exact .none _
  | unresolved => exact .none _
  | unreadable hn _ =>
      rw [hn.seen_start]
      exact (TakesUp.none _).cons hn.new
  | abandoned hn _ _ ih =>
      rw [hn.seen_start] at ih
      exact ih.cons hn.new
  | inlined hn _ _ _ ih ih' =>
      rw [hn.seen_start] at ih
      simpa using (ih.cons hn.new).append ih'

theorem Follows.consistent {importer : String} {refs : List String} {cache : Cache} {run : Run (List Schema)}
    (h : Follows t includes importer refs cache run) {stack : List String} (hs : stack ⊆ cache.seen) :
    Cache.Consistent ⟨run.cache.seen, stack⟩ :=
  fun p hp => (h.takesUp.mem_iff p).mpr (.inl (hs hp))

theorem follows_of_references {visit : Visit}
    (hv : ∀ path cache run, visit path cache = some run → Composes t includes path cache run)
    {importer : String} {refs : List String} {cache : Cache} {run : Run (List Schema)}
    (h : references visit t includes importer refs cache = some run) :
    Follows t includes importer refs cache run := by
  induction refs generalizing cache run with
  | nil =>
      cases h
      exact .done
  | cons ref refs ih =>
      obtain ⟨first, hf, h⟩ := Option.bind_eq_some_iff.mp h
      have skip (r : Run (List Schema)) : r.result.map (([] : List Schema) ++ ·) = r.result := by
        cases r.result <;> rfl
      rcases reference_cases t includes importer ref cache with
        hi | ⟨hi, hp⟩ | ⟨hi, hp, hs⟩ | ⟨hi, hp, hs, hx⟩ | hn
      · cases (reference_passedOver visit hi).symm.trans hf
        obtain ⟨rest, hr, rfl⟩ := Option.map_eq_some_iff.mp h
        simpa only [Option.toList_none, skip, List.singleton_append] using Follows.passedOver hi (ih hr)
      · cases (reference_cycle visit hi hp).symm.trans hf
        cases h
        exact .cycle hi hp
      · cases (reference_leftOut visit hi hp hs).symm.trans hf
        obtain ⟨rest, hr, rfl⟩ := Option.map_eq_some_iff.mp h
        simpa only [Option.toList_none, skip, List.singleton_append] using Follows.leftOut hi hp hs (ih hr)
      · cases (reference_unresolved visit hi hp hs hx).symm.trans hf
        cases h
        exact .unresolved hi hp hs hx
      · obtain ⟨inner, hr, rfl⟩ := Option.map_eq_some_iff.mp ((reference_nested visit hn).symm.trans hf)
        have hm := hv _ _ _ hr
        rw [Run.leave_eq hm.inProgress hn.idle] at h
        cases hm with
        | unreadable hl =>
            cases h
            exact .unreadable hn hl
        | @followed schema result d events hl hm =>
            cases result with
            | error e =>
                cases h
                exact .abandoned hn hl hm
            | ok imports =>
                obtain ⟨rest, hr, rfl⟩ := Option.map_eq_some_iff.mp h
                exact .inlined hn hl hm (ih hr)

theorem composes_file (depth : Nat) :
    ∀ path cache run, file t includes depth path cache = some run → Composes t includes path cache run := by
  induction depth with
  | zero =>
      intro path cache run h
      cases h
  | succ depth ih =>
      intro path cache run h
      change follow (file t includes depth) t includes path cache (load t path) = some run at h
      cases hl : load t path with
      | error e =>
          rw [hl] at h
          cases h
          exact .unreadable hl
      | ok schema =>
          rw [hl] at h
          obtain ⟨inner, hi, rfl⟩ := Option.map_eq_some_iff.mp h
          exact .followed hl (follows_of_references ih hi)

theorem composes_compose (t : FileTree) (includes : List String) (path : String) (cache : Cache) :
    Composes t includes path cache (compose t includes path cache) :=
  composes_file _ _ _ _ (file_compose t includes path cache)

theorem visit_of_load {path : String} {schema : Schema} {cache : Cache} {run : Run (List Schema)}
    (hl : load t path = .ok schema)
    (h : references (visit t includes) t includes path schema.references cache = some run) :
    visit t includes path cache =
      some ⟨run.result.map schema.withImports, run.cache, .loading path :: run.events⟩ := by
  rw [visit_eq, hl, follow, h]
  rfl

theorem reference_visit {importer ref : String} {cache : Cache} {schema : Schema} {run : Run (List Schema)}
    (hn : Leads t includes importer ref cache) (hl : load t (target t includes importer ref) = .ok schema)
    (hp : run.cache.inProgress = cache.inProgress ++ [target t includes importer ref])
    (h : references (visit t includes) t includes (target t includes importer ref) schema.references
      (cache.start (target t includes importer ref)) = some run) :
    reference (visit t includes) t includes importer ref cache =
      some ⟨run.result.map fun imports => some (schema.withImports imports), ⟨run.cache.seen, cache.inProgress⟩,
        .loading (target t includes importer ref) :: run.events⟩ := by
  rw [reference_nested _ hn, visit_of_load hl h, Option.map_some]
  simp only [Run.leave_eq (r := ⟨run.result.map schema.withImports, run.cache, _⟩) hp hn.idle]
  cases run.result <;> rfl

theorem Follows.references_eq {importer : String} {refs : List String} {cache : Cache} {run : Run (List Schema)}
    (h : Follows t includes importer refs cache run) :
    references (visit t includes) t includes importer refs cache = some run := by
  induction h with
  | done => rfl
  | @passedOver importer ref refs cache result d events hv _ ih =>
      rw [references, reference_passedOver _ hv, Option.bind_some, ih]
      cases result <;> rfl
  | @leftOut importer ref refs cache result d events hv hp hs _ ih =>
      rw [references, reference_leftOut _ hv hp hs, Option.bind_some, ih]
      cases result <;> rfl
  | cycle hv hp =>
      rw [references, reference_cycle _ hv hp]
      rfl
  | unresolved hv hp hs hx =>
      rw [references, reference_unresolved _ hv hp hs hx]
      rfl
  | unreadable hn hl =>
      rw [references, reference_nested _ hn, visit_eq, hl, follow, Option.map_some, Run.leave_eq rfl hn.idle]
      rfl
  | abandoned hn hl inner ih =>
      rw [references, reference_visit hn hl inner.inProgress ih]
      rfl
  | inlined hn hl inner _ ihi ih =>
      rw [references, reference_visit hn hl inner.inProgress ihi]
      dsimp only [Option.bind_some, Except.map]
      rw [ih]
      rfl

def Cache.entered (c : Cache) (root : String) : Cache := if c.has root then c else c.start root

theorem Cache.entered_of_mem {c : Cache} {root : String} (h : root ∈ c.seen) : c.entered root = c :=
  if_pos (by simpa [Cache.has] using h)

theorem Cache.entered_of_not_mem {c : Cache} {root : String} (h : root ∉ c.seen) : c.entered root = c.start root :=
  if_neg (by simpa [Cache.has] using h)

@[simp] theorem Cache.entered_empty (root : String) : Cache.empty.entered root = ⟨[root], [root]⟩ := rfl

theorem Cache.mem_seen_entered {c : Cache} {root p : String} :
    p ∈ (c.entered root).seen ↔ p = root ∨ p ∈ c.seen := by
  by_cases h : root ∈ c.seen
  · rw [Cache.entered_of_mem h]
    exact ⟨.inr, fun hp => hp.elim (fun he => he ▸ h) id⟩
  · rw [Cache.entered_of_not_mem h, Cache.mem_seen_start]

theorem Cache.Consistent.entered {c : Cache} (hc : c.Consistent) (root : String) : (c.entered root).Consistent := by
  by_cases h : root ∈ c.seen
  · rwa [Cache.entered_of_mem h]
  · rw [Cache.entered_of_not_mem h]
    exact hc.start root

/-- Whatever the cache records, the files in progress are the same ones afterwards. Their order may differ if the root
has been in progress without having been taken up. -/
theorem exists_composes_build (t : FileTree) (includes : List String) (path : String) (c : Cache) :
    ∃ result d events stack,
      Composes t includes (t.absolute path) (c.entered (t.absolute path)) ⟨result, d, events⟩ ∧
      build t includes path c = ⟨result, ⟨d.seen, stack⟩, events⟩ ∧ stack.Perm c.inProgress := by
  have hm := composes_compose t includes (t.absolute path) (c.entered (t.absolute path))
  have hp := hm.inProgress
  unfold build
  by_cases h : t.absolute path ∈ c.seen
  · rw [Cache.entered_of_mem h] at hm hp ⊢
    rw [if_pos (by simpa [Cache.has] using h)]
    exact ⟨_, _, _, _, hm, rfl, hp ▸ .refl _⟩
  · rw [Cache.entered_of_not_mem h] at hm hp ⊢
    rw [if_neg (by simpa [Cache.has] using h)]
    have hroot : t.absolute path ∈ c.inProgress ++ [t.absolute path] := by simp
    refine ⟨_, _, _, (c.inProgress ++ [t.absolute path]).erase (t.absolute path), hm, ?_, ?_⟩
    · rw [Run.leave, Cache.finish_of_mem (hp ▸ hroot), hp]
      rfl
    · refine ((List.perm_append_singleton _ _).erase _).trans ?_
      rw [List.erase_cons_head]

theorem build_spec (t : FileTree) (includes : List String) (path : String) {c : Cache} (hc : c.Consistent) :
    ∃ result d events, Composes t includes (t.absolute path) (c.entered (t.absolute path)) ⟨result, d, events⟩ ∧
      build t includes path c = ⟨result, ⟨d.seen, c.inProgress⟩, events⟩ := by
  have hm := composes_compose t includes (t.absolute path) (c.entered (t.absolute path))
  refine ⟨_, _, _, hm, ?_⟩
  unfold build
  have hp := hm.inProgress
  by_cases h : t.absolute path ∈ c.seen
  · rw [Cache.entered_of_mem h] at hp ⊢
    rw [if_pos (by simpa [Cache.has] using h), ← hp]
  · rw [Cache.entered_of_not_mem h] at hp ⊢
    rw [if_neg (by simpa [Cache.has] using h)]
    exact Run.leave_eq hp fun hm => h (hc hm)

end ProtoBundle.Composition
