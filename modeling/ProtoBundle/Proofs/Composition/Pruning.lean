import ProtoBundle.Proofs.Composition.SharedCache

/-!
Building on what has been taken up before. A reference to a file that a cache has seen is left out, just as if it was
not among the references of its file. So nothing is inlined twice by the builds that share a cache.
-/

namespace ProtoBundle.Composition

section Loading

abbrev Loading := String → Except Failure Schema

variable {loading : Loading} {t : FileTree} {includes : List String}

def fileOf (loading : Loading) (t : FileTree) (includes : List String) : (depth : Nat) → Visit
  | 0 => fun _ _ => none
  | depth + 1 => fun path cache => follow (fileOf loading t includes depth) t includes path cache (loading path)

theorem fileOf_succ (depth : Nat) (path : String) (cache : Cache) :
    fileOf loading t includes (depth + 1) path cache =
      follow (fileOf loading t includes depth) t includes path cache (loading path) := rfl

theorem fileOf_load (t : FileTree) (includes : List String) (depth : Nat) :
    fileOf (load t) t includes depth = file t includes depth := by
  induction depth with
  | zero => rfl
  | succ depth ih => rw [fileOf, file, ih]

theorem fileOf_mono {m n : Nat} (h : m ≤ n) : Extends (fileOf loading t includes m) (fileOf loading t includes n) := by
  induction m generalizing n with
  | zero =>
      intro path cache run hr
      cases hr
  | succ m ih =>
      intro path cache run hr
      cases n with
      | zero => exact absurd h (Nat.not_succ_le_zero m)
      | succ n => exact follow_mono (ih (Nat.succ_le_succ_iff.mp h)) hr

theorem grows_fileOf (depth : Nat) : Grows (fileOf loading t includes depth) := by
  induction depth with
  | zero =>
      intro path cache run h
      cases h
  | succ depth ih => exact fun _ _ _ h => seen_follow ih h

theorem isSome_fileOf (depth : Nat) : Finishes t depth (fileOf loading t includes depth) := by
  induction depth with
  | zero => exact fun path cache h => absurd h (Nat.not_lt_zero _)
  | succ depth ih => exact fun path _ h => isSome_follow ih (grows_fileOf depth) (Nat.lt_succ_iff.mp h) (loading path)

def composeOf (loading : Loading) (t : FileTree) (includes : List String) (path : String) (cache : Cache) :
    Run Schema :=
  (fileOf loading t includes (unseen t cache + 1) path cache).get (isSome_fileOf _ path cache (Nat.lt_succ_self _))

theorem fileOf_composeOf {depth : Nat} {path : String} {cache : Cache} (h : unseen t cache < depth) :
    fileOf loading t includes depth path cache = some (composeOf loading t includes path cache) :=
  fileOf_mono h path cache _ (Option.some_get _).symm

def buildOf (loading : Loading) (t : FileTree) (includes : List String) (path : String) (cache : Cache) :
    Run Schema :=
  if cache.has (t.absolute path) then composeOf loading t includes (t.absolute path) cache
  else (composeOf loading t includes (t.absolute path) (cache.start (t.absolute path))).leave (t.absolute path)

theorem composeOf_load (t : FileTree) (includes : List String) (path : String) (cache : Cache) :
    composeOf (load t) t includes path cache = compose t includes path cache := by
  have h : fileOf (load t) t includes (unseen t cache + 1) path cache = some (composeOf (load t) t includes path cache) :=
    fileOf_composeOf (Nat.lt_succ_self _)
  rw [fileOf_load, file_compose] at h
  exact (Option.some.inj h).symm

theorem buildOf_load (t : FileTree) (includes : List String) (path : String) (cache : Cache) :
    buildOf (load t) t includes path cache = build t includes path cache := by
  rw [buildOf, build, composeOf_load, composeOf_load]

end Loading

section Pruned

variable {loading : Loading} {t : FileTree} {includes : List String} {S : List String}

def isKept (t : FileTree) (includes : List String) (S : List String) (importer ref : String) : Bool :=
  !(isInlined ref && S.contains (target t includes importer ref))

def prune (t : FileTree) (includes : List String) (S : List String) (path : String) (schema : Schema) : Schema :=
  { schema with
    imports := schema.imports.filter fun i =>
      match i with
      | .reference ref => isKept t includes S path ref
      | .inlined _ => true }

def pruned (loading : Loading) (t : FileTree) (includes : List String) (S : List String) : Loading :=
  fun path => (loading path).map (prune t includes S path)

theorem references_prune (path : String) (schema : Schema) :
    (prune t includes S path schema).references = schema.references.filter (isKept t includes S path) := by
  rw [Schema.references, Schema.references, List.filter_filterMap, prune, List.filterMap_filter]
  refine List.filterMap_congr fun i _ => ?_
  cases i with
  | inlined s => rfl
  | reference ref => cases isKept t includes S path ref <;> rfl

/-- A cache that has seen some paths besides what another one has seen, none of which is in progress. -/
structure Cache.Beside (S : List String) (c d : Cache) : Prop where
  inProgress : c.inProgress = d.inProgress
  seen : ∀ p, p ∈ c.seen ↔ p ∈ S ∨ p ∈ d.seen
  apart : ∀ p ∈ c.inProgress, p ∉ S

theorem Cache.Beside.start {c d : Cache} (h : c.Beside S d) {path : String} (hp : path ∉ S) :
    (c.start path).Beside S (d.start path) := by
  refine ⟨congrArg (· ++ [path]) h.inProgress, fun p => ?_, fun p hm => ?_⟩
  · rw [Cache.mem_seen_start, Cache.mem_seen_start, h.seen, or_left_comm]
  · rcases Cache.mem_inProgress_start.mp hm with hm | rfl
    · exact h.apart p hm
    · exact hp

structure Run.Beside {α : Type} (S : List String) (r r' : Run α) : Prop where
  result : r.result = r'.result
  cache : r.cache.Beside S r'.cache

theorem Run.Beside.leave {α : Type} {r r' : Run α} (h : r.Beside S r') (path : String) :
    (r.leave path).Beside S (r'.leave path) := by
  have hb : r.cache.isBuilding path = r'.cache.isBuilding path := by
    rw [Cache.isBuilding, Cache.isBuilding, h.cache.inProgress]
  unfold Run.leave Cache.finish
  rw [hb]
  cases r'.cache.isBuilding path with
  | false => exact ⟨rfl, h.cache⟩
  | true =>
      exact ⟨h.result, congrArg (·.erase path) h.cache.inProgress, h.cache.seen,
        fun p hp => h.cache.apart p (List.mem_of_mem_erase hp)⟩

variable {importer ref path : String} {c d : Cache} {visit other : Visit}

theorem isKept_eq_false (h : isKept t includes S importer ref = false) :
    isInlined ref = true ∧ target t includes importer ref ∈ S := by
  simpa [isKept] using h

theorem not_mem_of_isKept (h : isKept t includes S importer ref = true) (hv : isInlined ref = true) :
    target t includes importer ref ∉ S := by
  simpa [isKept, hv] using h

/-- What comes of a file beside some paths, the other visit makes of it without them. -/
def Simulates (S : List String) (visit other : Visit) : Prop :=
  ∀ path c d run, c.Beside S d → visit path c = some run → ∃ run', other path d = some run' ∧ run.Beside S run'

theorem reference_of_not_kept (hc : c.Beside S d) (hk : isKept t includes S importer ref = false) :
    reference visit t includes importer ref c =
      some ⟨.ok none, c, [.alreadyInlined ref (target t includes importer ref)]⟩ := by
  obtain ⟨hv, hm⟩ := isKept_eq_false hk
  exact reference_leftOut visit hv (fun hp => hc.apart _ hp hm) ((hc.seen _).mpr (.inl hm))

theorem Leads.beside (hn : Leads t includes importer ref c) (hc : c.Beside S d) :
    target t includes importer ref ∉ S ∧ Leads t includes importer ref d := by
  have hs := hn.new
  rw [hc.seen, not_or] at hs
  exact ⟨hs.1, hn.valid, hc.inProgress ▸ hn.idle, hs.2, hn.present⟩

theorem Simulates.reference (hv : Simulates S visit other) (hc : c.Beside S d)
    (hk : isKept t includes S importer ref = true) {run : Run (Option Schema)}
    (h : reference visit t includes importer ref c = some run) :
    ∃ run', Composition.reference other t includes importer ref d = some run' ∧ run.Beside S run' := by
  rcases reference_cases t includes importer ref c with hi | ⟨hi, hp⟩ | ⟨hi, hp, hs⟩ | ⟨hi, hp, hs, hx⟩ | hn
  · cases (reference_passedOver visit hi).symm.trans h
    exact ⟨_, reference_passedOver other hi, rfl, hc⟩
  · cases (reference_cycle visit hi hp).symm.trans h
    refine ⟨_, reference_cycle other hi (hc.inProgress ▸ hp), ?_, hc⟩
    rw [hc.inProgress]
  · cases (reference_leftOut visit hi hp hs).symm.trans h
    have hd := ((hc.seen _).mp hs).resolve_left (not_mem_of_isKept hk hi)
    exact ⟨_, reference_leftOut other hi (hc.inProgress ▸ hp) hd, rfl, hc⟩
  · cases (reference_unresolved visit hi hp hs hx).symm.trans h
    have hd := fun hm => hs ((hc.seen _).mpr (.inr hm))
    exact ⟨_, reference_unresolved other hi (hc.inProgress ▸ hp) hd hx, rfl, hc⟩
  · obtain ⟨hm, hd⟩ := hn.beside hc
    obtain ⟨inner, hi, rfl⟩ := Option.map_eq_some_iff.mp ((reference_nested visit hn).symm.trans h)
    obtain ⟨inner', hi', hb⟩ := hv _ _ _ _ (hc.start hm) hi
    have hl := hb.leave (target t includes importer ref)
    refine ⟨_, (reference_nested other hd).trans (congrArg _ hi'), ?_, hl.cache⟩
    exact congrArg (Except.map some) hl.result

theorem Simulates.references (hv : Simulates S visit other) {refs : List String} {run : Run (List Schema)}
    (hc : c.Beside S d) (h : references visit t includes importer refs c = some run) :
    ∃ run', Composition.references other t includes importer (refs.filter (isKept t includes S importer)) d =
      some run' ∧ run.Beside S run' := by
  induction refs generalizing c d run with
  | nil =>
      cases h
      exact ⟨_, rfl, rfl, hc⟩
  | cons ref refs ih =>
      obtain ⟨first, hf, h⟩ := Option.bind_eq_some_iff.mp h
      cases hk : isKept t includes S importer ref with
      | false =>
          rw [List.filter_cons_of_neg (by rw [hk]; exact Bool.false_ne_true)]
          cases (reference_of_not_kept hc hk).symm.trans hf
          obtain ⟨rest, hr, rfl⟩ := Option.map_eq_some_iff.mp h
          obtain ⟨rest', hr', hb⟩ := ih hc hr
          refine ⟨rest', hr', ?_, hb.cache⟩
          rw [← hb.result]
          cases rest.result <;> rfl
      | true =>
          rw [List.filter_cons_of_pos hk, Composition.references]
          obtain ⟨first', hf', hb⟩ := hv.reference hc hk hf
          rw [hf', Option.bind_some, ← hb.result]
          cases hr : first.result with
          | error e =>
              rw [hr] at h
              cases h
              exact ⟨_, rfl, rfl, hb.cache⟩
          | ok schema =>
              rw [hr] at h
              obtain ⟨rest, hr, rfl⟩ := Option.map_eq_some_iff.mp h
              obtain ⟨rest', hr', hb'⟩ := ih hb.cache hr
              rw [hr']
              exact ⟨_, rfl, congrArg (Except.map (schema.toList ++ ·)) hb'.result, hb'.cache⟩

theorem simulates_fileOf (loading : Loading) (t : FileTree) (includes S : List String) (depth : Nat) :
    Simulates S (fileOf loading t includes depth) (fileOf (pruned loading t includes S) t includes depth) := by
  induction depth with
  | zero =>
      intro path c d run _ h
      cases h
  | succ depth ih =>
      intro path c d run hc h
      rw [fileOf_succ] at h ⊢
      rw [pruned]
      cases hl : loading path with
      | error e =>
          rw [hl] at h
          cases h
          exact ⟨_, rfl, rfl, hc⟩
      | ok schema =>
          rw [hl] at h
          obtain ⟨inner, hi, rfl⟩ := Option.map_eq_some_iff.mp h
          obtain ⟨inner', hi', hb⟩ := ih.references hc hi
          rw [Except.map, follow, references_prune, hi']
          refine ⟨_, rfl, ?_, hb.cache⟩
          rw [hb.result]
          rfl

theorem composeOf_beside (loading : Loading) (t : FileTree) (includes : List String) (path : String)
    (hc : c.Beside S d) : (composeOf loading t includes path c).Beside S
      (composeOf (pruned loading t includes S) t includes path d) := by
  have hm := Nat.le_max_left (unseen t c) (unseen t d)
  have hn := Nat.le_max_right (unseen t c) (unseen t d)
  obtain ⟨run, hr, hb⟩ := simulates_fileOf loading t includes S _ path c d _ hc
    (fileOf_composeOf (Nat.lt_succ_of_le hm))
  rw [fileOf_composeOf (Nat.lt_succ_of_le hn)] at hr
  cases hr
  exact hb

theorem buildOf_beside (loading : Loading) (t : FileTree) (includes : List String) {path : String}
    (hp : t.absolute path ∉ S) : (buildOf loading t includes path ⟨S, []⟩).Beside S
      (buildOf (pruned loading t includes S) t includes path .empty) := by
  have hc : Cache.Beside S ⟨S, []⟩ .empty := ⟨rfl, by simp [Cache.empty], by simp⟩
  have hs : Cache.has ⟨S, []⟩ (t.absolute path) = false := by simpa [Cache.has] using hp
  rw [buildOf, buildOf, hs]
  exact (composeOf_beside loading t includes _ (hc.start hp)).leave _

end Pruned

section Sequences

variable {t : FileTree} {includes : List String} {path : String} {c : Cache}

def runs : Cache → List Use → List (Run Schema)
  | _, [] => []
  | c, .build t includes path :: uses => build t includes path c :: runs (c.after (.build t includes path)) uses
  | c, use :: uses => runs (c.after use) uses

def Run.root? (r : Run Schema) : Option String := (loads r.events).head?

def Run.inlined (r : Run Schema) : List String := (loads r.events).tail

theorem not_mem_seen_of_inlined (hc : c.Consistent) {uses : List Use} {r : Run Schema} (hr : r ∈ runs c uses) :
    ∀ p ∈ r.inlined, p ∉ c.seen := by
  induction uses generalizing c with
  | nil => cases hr
  | cons use uses ih =>
      have hrest (hm : r ∈ runs (c.after use) uses) : ∀ p ∈ r.inlined, p ∉ c.seen :=
        fun p hp hs => ih (hc.after use) hm p hp (Cache.seen_subset_after c use hs)
      cases use with
      | build t includes path =>
          rcases List.mem_cons.mp hr with rfl | hr
          · obtain ⟨-, -, imports, hl, -, hnew⟩ := takesUp_build t includes path c
            rw [Run.inlined, hl]
            exact hnew
          · exact hrest hr
      | _ => exact hrest hr

/-- What some builds inline as imports, they inline once, and not after it has been the root of one of them. What is
inlined are the nodes below the root. -/
structure InlinedOnce (rs : List (Run Schema)) : Prop where
  once : (rs.flatMap Run.inlined).Nodup
  own : ∀ r ∈ rs, ∀ p ∈ r.root?, p ∉ r.inlined
  later : rs.Pairwise fun r r' => ∀ p ∈ r.root?, p ∉ r'.inlined
  nodes : ∀ r ∈ rs, ∀ schema, r.result = .ok schema →
    schema.nodes.map (·.file) = (r.root?.toList ++ r.inlined).map some

theorem InlinedOnce.cons {r : Run Schema} {rs : List (Run Schema)} (h : InlinedOnce rs)
    (hn : (loads r.events).Nodup) (hl : ∀ r' ∈ rs, ∀ p ∈ r'.inlined, p ∉ loads r.events)
    (hs : ∀ schema, r.result = .ok schema → schema.nodes.map (·.file) = (loads r.events).map some) :
    InlinedOnce (r :: rs) := by
  have hcut : r.root?.toList ++ r.inlined = loads r.events := by
    unfold Run.root? Run.inlined
    cases loads r.events <;> rfl
  rw [← hcut] at hn hl hs
  obtain ⟨-, hown, hdisjoint⟩ := List.nodup_append.mp hn
  refine ⟨?_, ?_, ?_, List.forall_mem_cons.mpr ⟨hs, h.nodes⟩⟩
  · rw [List.flatMap_cons, List.nodup_append]
    refine ⟨hown, h.once, ?_⟩
    rintro p hp _ hq rfl
    obtain ⟨r', hr', hq⟩ := List.mem_flatMap.mp hq
    exact hl r' hr' p hq (List.mem_append_right _ hp)
  · refine List.forall_mem_cons.mpr ⟨fun p hp hm => ?_, h.own⟩
    exact hdisjoint p (Option.mem_toList.mpr hp) p hm rfl
  · refine List.pairwise_cons.mpr ⟨fun r' hr' p hp hm => ?_, h.later⟩
    exact hl r' hr' p hm (List.mem_append_left _ (Option.mem_toList.mpr hp))

theorem inlinedOnce_runs (hc : c.Consistent) (uses : List Use) : InlinedOnce (runs c uses) := by
  induction uses generalizing c with
  | nil => exact ⟨.nil, by simp [runs], .nil, by simp [runs]⟩
  | cons use uses ih =>
      cases use with
      | build t includes path =>
          obtain ⟨-, hseen, imports, hl, hn, -⟩ := takesUp_build t includes path c
          have hafter := hc.after (.build t includes path)
          refine (ih hafter).cons (hl ▸ hn) ?_ fun schema h => files_build h
          exact fun r' hr' p hp hm => not_mem_seen_of_inlined hafter hr' p hp ((hseen p).mpr (.inr hm))
      | _ => exact ih (hc.after _)

end Sequences

theorem build_beside (t : FileTree) (includes S : List String) (path : String) (h : t.absolute path ∉ S) :
    (∀ place c, buildOf (load t) t includes place c = build t includes place c) ∧
    (build t includes path ⟨S, []⟩).result =
      (buildOf (pruned (load t) t includes S) t includes path .empty).result ∧
    (∀ p, p ∈ (build t includes path ⟨S, []⟩).cache.seen ↔
      p ∈ S ∨ p ∈ (buildOf (pruned (load t) t includes S) t includes path .empty).cache.seen) ∧
    ∀ uses, InlinedOnce (runs .empty uses) := by
  have hb := buildOf_beside (load t) t includes h
  rw [buildOf_load] at hb
  exact ⟨buildOf_load t includes, hb.result, hb.cache.seen, inlinedOnce_runs Cache.consistent_empty⟩

theorem build_beside_diamond :
    diamondImports.absolute "a" ∉ ["/b", "/d"] ∧
    loads (build diamondImports [] "a" ⟨["/b", "/d"], []⟩).events = ["/a", "/c"] ∧
    (build diamondImports [] "a" ⟨["/b", "/d"], []⟩).result =
      (buildOf (pruned (load diamondImports) diamondImports [] ["/b", "/d"]) diamondImports [] "a" .empty).result := by
  have hn : diamondImports.absolute "a" ∉ ["/b", "/d"] := by decide +kernel
  exact ⟨hn, by decide +kernel, (build_beside diamondImports [] ["/b", "/d"] "a" hn).2.1⟩

end ProtoBundle.Composition
