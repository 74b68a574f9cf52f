import ProtoBundle.Composition.Cache
import ProtoBundle.Composition.Event
import ProtoBundle.Composition.Reference
import ProtoBundle.Schema.OfSource

/-!
Composing a schema with everything it imports, depth first and each file once. A reference to a file that is still
in progress closes a cycle and fails; one to a file that has been taken up before is left out.

Each nested file exists and is taken up for the first time, so that composition ends: `unseen` counts the normal
paths of the tree that are left, and a run that may nest that deep is never cut off (`isSome_file`).
-/

namespace ProtoBundle.Composition

def load (t : FileTree) (path : String) : Except Failure Schema :=
  match t.read (t.absolute path) with
  | .ok text => Schema.ofText (some (t.absolute path)) text
  | .error e => .error e

/-- Every path that following the references of a file may look at. -/
def lookedAt (t : FileTree) (includes : List String) (path : String) : List String :=
  match load t path with
  | .error _ => []
  | .ok schema =>
      (schema.references.filter isInlined).flatMap
        (candidates t includes (String.ofList (Path.directory path.toList)))

structure Run (α : Type) where
  result : Except Failure α
  cache : Cache
  events : List Event

abbrev Visit := String → Cache → Option (Run Schema)

def Run.leave {α : Type} (r : Run α) (path : String) : Run α :=
  match r.cache.finish path with
  | .ok cache => { r with cache := cache }
  | .error e => { r with result := .error e }

def reference (visit : Visit) (t : FileTree) (includes : List String) (importer ref : String) (cache : Cache) :
    Option (Run (Option Schema)) :=
  if isInlined ref then
    let base := String.ofList (Path.directory importer.toList)
    let path := resolve t includes base ref
    if cache.isBuilding path then some ⟨.error (.cycle path ref (some importer) cache.inProgress), cache, []⟩
    else if cache.has path then some ⟨.ok none, cache, [.alreadyInlined ref path]⟩
    else if t.isPresent path then
      (visit path (cache.start path)).map fun r =>
        ⟨(r.leave path).result.map some, (r.leave path).cache, (r.leave path).events⟩
    else some ⟨.error (.unresolved path ref (some importer)), cache, []⟩
  else some ⟨.ok none, cache, [.passedOver ref importer]⟩

def references (visit : Visit) (t : FileTree) (includes : List String) (importer : String) :
    List String → Cache → Option (Run (List Schema))
  | [], cache => some ⟨.ok [], cache, []⟩
  | ref :: refs, cache =>
      (reference visit t includes importer ref cache).bind fun first =>
        match first.result with
        | .error e => some ⟨.error e, first.cache, first.events⟩
        | .ok schema =>
            (references visit t includes importer refs first.cache).map fun rest =>
              ⟨rest.result.map (schema.toList ++ ·), rest.cache, first.events ++ rest.events⟩

def follow (visit : Visit) (t : FileTree) (includes : List String) (path : String) (cache : Cache) :
    Except Failure Schema → Option (Run Schema)
  | .error e => some ⟨.error e, cache, [.loading path]⟩
  | .ok schema =>
      (references visit t includes path schema.references cache).map fun r =>
        ⟨r.result.map fun imports => { schema with imports := imports.map .inlined }, r.cache,
          .loading path :: r.events⟩

/-- Loads a file and follows its references, with at most `depth` files nested. -/
def file (t : FileTree) (includes : List String) : (depth : Nat) → Visit
  | 0 => fun _ _ => none
  | depth + 1 => fun path cache => follow (file t includes depth) t includes path cache (load t path)

def normalPaths (t : FileTree) : List String :=
  (([] :: t.entries.map Prod.fst).flatMap fun place =>
    [['/'] ++ Text.join ['/'] place, ['/', '/'] ++ Text.join ['/'] place]).map String.ofList

def unseen (t : FileTree) (cache : Cache) : Nat := (normalPaths t).countP fun p => !cache.has p

theorem mem_normalPaths {t : FileTree} {cs : List Char}
    (h : t.isPresent (String.ofList (Path.normal cs)) = true) :
    String.ofList (Path.normal cs) ∈ normalPaths t := by
  have hm := FileTree.mem_of_isPresent_normal h
  refine List.mem_map_of_mem (List.mem_flatMap.2 ⟨_, hm, ?_⟩)
  rcases Path.isRoot_root cs with hr | hr <;> simp [Path.normal, hr]

theorem unseen_mono {t : FileTree} {c d : Cache} (h : ∀ p ∈ c.seen, p ∈ d.seen) : unseen t d ≤ unseen t c := by
  refine List.countP_mono_left fun p _ hp => ?_
  simp only [Cache.has, Bool.not_eq_true', List.contains_eq_mem, decide_eq_false_iff_not] at hp ⊢
  exact fun hc => hp (h p hc)

theorem unseen_start {t : FileTree} {cache : Cache} {path : String} (hp : path ∈ normalPaths t)
    (hs : cache.has path = false) : unseen t (cache.start path) < unseen t cache := by
  unfold unseen
  generalize normalPaths t = paths at hp
  induction paths with
  | nil => simp at hp
  | cons p paths ih =>
      have hle : paths.countP (fun p => !(cache.start path).has p) ≤ paths.countP fun p => !cache.has p := by
        refine List.countP_mono_left fun q _ hq => ?_
        simp only [Cache.has, Bool.not_eq_true', List.contains_eq_mem, decide_eq_false_iff_not,
          Cache.mem_seen_start, not_or] at hq ⊢
        exact hq.2
      by_cases h : path = p
      · subst h
        have : (cache.start path).has path = true := by simp [Cache.has, Cache.mem_seen_start]
        simp only [List.countP_cons, this, hs]
        simp
        omega
      · have hlt := ih ((List.mem_cons.1 hp).resolve_left h)
        have : (cache.start path).has p = cache.has p := by
          simp [Cache.has, Cache.mem_seen_start, Ne.symm h]
        simp only [List.countP_cons, this]
        omega

theorem Run.seen_leave {α : Type} (r : Run α) (path : String) : (r.leave path).cache.seen = r.cache.seen := by
  unfold Run.leave
  split
  · rename_i cache h
    exact Cache.seen_of_finish h
  · rfl

def Grows (visit : Visit) : Prop :=
  ∀ path cache run, visit path cache = some run → ∀ p ∈ cache.seen, p ∈ run.cache.seen

theorem seen_reference {visit : Visit} (hv : Grows visit) {t : FileTree} {includes : List String}
    {importer ref : String} {cache : Cache} {run : Run (Option Schema)}
    (h : reference visit t includes importer ref cache = some run) : ∀ p ∈ cache.seen, p ∈ run.cache.seen := by
  unfold reference at h
  dsimp only at h
  split at h
  · split at h
    · simp only [Option.some.injEq] at h; subst h; exact fun _ hp => hp
    · split at h
      · simp only [Option.some.injEq] at h; subst h; exact fun _ hp => hp
      · split at h
        · obtain ⟨inner, hi, rfl⟩ := Option.map_eq_some_iff.1 h
          intro p hp
          rw [Run.seen_leave]
          exact hv _ _ _ hi p (Cache.mem_seen_start.2 (.inr hp))
        · simp only [Option.some.injEq] at h; subst h; exact fun _ hp => hp
  · simp only [Option.some.injEq] at h; subst h; exact fun _ hp => hp

theorem seen_references {visit : Visit} (hv : Grows visit) {t : FileTree} {includes : List String}
    {importer : String} {refs : List String} {cache : Cache} {run : Run (List Schema)}
    (h : references visit t includes importer refs cache = some run) :
    ∀ p ∈ cache.seen, p ∈ run.cache.seen := by
  induction refs generalizing cache run with
  | nil =>
      simp only [references, Option.some.injEq] at h
      subst h
      exact fun _ hp => hp
  | cons ref refs ih =>
      obtain ⟨first, hf, h⟩ := Option.bind_eq_some_iff.1 h
      have hfirst := seen_reference hv hf
      split at h
      · simp only [Option.some.injEq] at h
        subst h
        exact hfirst
      · obtain ⟨rest, hr, rfl⟩ := Option.map_eq_some_iff.1 h
        exact fun p hp => ih hr p (hfirst p hp)

theorem seen_follow {visit : Visit} (hv : Grows visit) {t : FileTree} {includes : List String} {path : String}
    {cache : Cache} {loaded : Except Failure Schema} {run : Run Schema}
    (h : follow visit t includes path cache loaded = some run) : ∀ p ∈ cache.seen, p ∈ run.cache.seen := by
  cases loaded with
  | error e =>
      simp only [follow, Option.some.injEq] at h
      subst h
      exact fun _ hp => hp
  | ok schema =>
      obtain ⟨inner, hi, rfl⟩ := Option.map_eq_some_iff.1 h
      exact seen_references hv hi

theorem grows_file (t : FileTree) (includes : List String) (depth : Nat) : Grows (file t includes depth) := by
  induction depth with
  | zero =>
      intro path cache run h
      simp [file] at h
  | succ depth ih => exact fun _ _ _ h => seen_follow ih h

def Finishes (t : FileTree) (bound : Nat) (visit : Visit) : Prop :=
  ∀ path cache, unseen t cache < bound → (visit path cache).isSome = true

theorem isSome_reference {t : FileTree} {bound : Nat} {visit : Visit} (hv : Finishes t bound visit)
    (includes : List String) (importer ref : String) {cache : Cache} (h : unseen t cache ≤ bound) :
    (reference visit t includes importer ref cache).isSome = true := by
  unfold reference
  dsimp only
  split
  · split
    · rfl
    · split
      · rfl
      · split
        · rename_i hs hp
          rw [Option.isSome_map]
          obtain ⟨cs, hcs⟩ := eq_normal_of_mem_candidates (mem_candidates_resolve t includes
            (String.ofList (Path.directory importer.toList)) ref)
          rw [hcs] at hs hp ⊢
          exact hv _ _ (Nat.lt_of_lt_of_le (unseen_start (mem_normalPaths hp) (by simpa using hs)) h)
        · rfl
  · rfl

theorem isSome_references {t : FileTree} {bound : Nat} {visit : Visit} (hv : Finishes t bound visit)
    (hg : Grows visit) {includes : List String} {importer : String} {refs : List String} {cache : Cache}
    (h : unseen t cache ≤ bound) : (references visit t includes importer refs cache).isSome = true := by
  induction refs generalizing cache with
  | nil => rfl
  | cons ref refs ih =>
      obtain ⟨first, hf⟩ := Option.isSome_iff_exists.1
        (isSome_reference hv includes importer ref h)
      simp only [references, hf, Option.bind_some]
      split
      · rfl
      · rw [Option.isSome_map]
        exact ih (Nat.le_trans (unseen_mono (seen_reference hg hf)) h)

theorem isSome_follow {t : FileTree} {bound : Nat} {visit : Visit} (hv : Finishes t bound visit) (hg : Grows visit)
    {includes : List String} {path : String} {cache : Cache} (h : unseen t cache ≤ bound)
    (loaded : Except Failure Schema) : (follow visit t includes path cache loaded).isSome = true := by
  cases loaded with
  | error e => rfl
  | ok schema =>
      rw [follow, Option.isSome_map]
      exact isSome_references hv hg h

theorem isSome_file (t : FileTree) (includes : List String) (depth : Nat) :
    Finishes t depth (file t includes depth) := by
  induction depth with
  | zero =>
      intro path cache h
      exact absurd h (Nat.not_lt_zero _)
  | succ depth ih =>
      exact fun path _ h => isSome_follow ih (grows_file t includes depth) (Nat.lt_succ_iff.1 h) (load t path)

@[irreducible] def compose (t : FileTree) (includes : List String) (path : String) (cache : Cache) : Run Schema :=
  (file t includes (unseen t cache + 1) path cache).get
    (isSome_file t includes (unseen t cache + 1) path cache (Nat.lt_succ_self _))

/-- Composes the schema of a root file, which is taken up like the others unless that has been done before. -/
def build (t : FileTree) (includes : List String) (path : String) (cache : Cache) : Run Schema :=
  if cache.has (t.absolute path) then compose t includes (t.absolute path) cache
  else (compose t includes (t.absolute path) (cache.start (t.absolute path))).leave (t.absolute path)

end ProtoBundle.Composition
