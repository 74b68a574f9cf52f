import Mathlib.Data.Set.Card
import ProtoBundle.Proofs.Composition.Blame
import ProtoBundle.Proofs.Composition.SharedCache
import ProtoBundle.Proofs.Schema.Computations

/-!
The end of a composition. What a file nests is composed with fewer paths of the tree left to take up, whatever has
been seen or is in progress at the outset. So files nest in each other no deeper than there are paths left.
-/

namespace ProtoBundle.Composition

variable {t : FileTree} {includes : List String}

/-- The absolute paths in normal form that exist and have not been taken up. A file may have several of them. -/
def remaining (t : FileTree) (c : Cache) : Set String :=
  {p | t.absolute p = p ∧ t.isPresent p = true ∧ p ∉ c.seen}

def Nests (t : FileTree) (includes : List String) (inner outer : String × Cache) : Prop :=
  ∃ before, Enters t includes outer.1 outer.2 inner.1 before ∧ inner.2 = before.start inner.1

theorem finite_remaining (t : FileTree) (c : Cache) : (remaining t c).Finite := by
  refine (normalPaths t).finite_toSet.subset ?_
  rintro p ⟨ha, hp, -⟩
  rw [← ha] at hp ⊢
  exact mem_normalPaths hp

theorem ncard_remaining_start {before cache : Cache} (hs : cache.seen ⊆ before.seen) {path : String}
    (hp : path ∈ remaining t cache) : (remaining t (before.start path)).ncard < (remaining t cache).ncard := by
  refine Set.ncard_lt_ncard ⟨?_, fun h => (h hp).2.2 (Cache.mem_seen_start.mpr (.inl rfl))⟩ (finite_remaining t cache)
  rintro p ⟨ha, hx, hn⟩
  exact ⟨ha, hx, fun hm => hn (Cache.mem_seen_start.mpr (.inr (hs hm)))⟩

theorem grows_visit (t : FileTree) (includes : List String) : Grows (visit t includes) := by
  rintro path cache _ ⟨⟩
  exact grows_file t includes _ path cache _ (file_compose t includes path cache)

theorem Passes.seen_subset {importer : String} {refs : List String} {cache after : Cache}
    (h : Passes t includes importer refs cache after) : cache.seen ⊆ after.seen := by
  obtain ⟨imports, events, hr⟩ := h
  exact seen_references (grows_visit t includes) hr

theorem Nests.mem_remaining {inner outer : String × Cache} (h : Nests t includes inner outer) :
    inner.1 ∈ remaining t outer.2 := by
  obtain ⟨before, ⟨schema, done, ref, rest, -, -, hpass, hn, ht⟩, -⟩ := h
  rw [ht]
  exact ⟨absolute_target _ ref, hn.present, fun hm => hn.new (hpass.seen_subset hm)⟩

theorem Nests.ncard_lt {inner outer : String × Cache} (h : Nests t includes inner outer) :
    (remaining t inner.2).ncard < (remaining t outer.2).ncard := by
  have hm := h.mem_remaining
  obtain ⟨before, ⟨schema, done, ref, rest, -, -, hpass, -, -⟩, hc⟩ := h
  rw [hc]
  exact ncard_remaining_start hpass.seen_subset hm

theorem wellFounded_nests (t : FileTree) (includes : List String) : WellFounded (Nests t includes) :=
  Subrelation.wf Nests.ncard_lt (measure fun composed : String × Cache => (remaining t composed.2).ncard).wf

def Agrees (t : FileTree) (includes : List String) (other : Visit) (path : String) (cache : Cache) : Prop :=
  ∀ inner, Nests t includes inner (path, cache) → other inner.1 inner.2 = some (compose t includes inner.1 inner.2)

theorem Agrees.reference {other : Visit} {importer ref : String} {start cache : Cache} {schema : Schema}
    {done refs : List String} (h : Agrees t includes other importer start) (hl : load t importer = .ok schema)
    (he : schema.references = done ++ ref :: refs) (hpass : Passes t includes importer done start cache) :
    reference other t includes importer ref cache = reference (visit t includes) t includes importer ref cache := by
  rcases reference_cases t includes importer ref cache with hi | ⟨hi, hp⟩ | ⟨hi, hp, hs⟩ | ⟨hi, hp, hs, hx⟩ | hn
  · rw [reference_passedOver _ hi, reference_passedOver _ hi]
  · rw [reference_cycle _ hi hp, reference_cycle _ hi hp]
  · rw [reference_leftOut _ hi hp hs, reference_leftOut _ hi hp hs]
  · rw [reference_unresolved _ hi hp hs hx, reference_unresolved _ hi hp hs hx]
  · have hnested : Nests t includes (target t includes importer ref, cache.start (target t includes importer ref))
        (importer, start) := ⟨cache, ⟨schema, done, ref, refs, hl, he, hpass, hn, rfl⟩, rfl⟩
    rw [reference_nested _ hn, reference_nested _ hn, h _ hnested]
    rfl

theorem Agrees.references {other : Visit} {importer : String} {start : Cache} {schema : Schema}
    (h : Agrees t includes other importer start) (hl : load t importer = .ok schema) {refs : List String} :
    ∀ {done : List String} {cache : Cache}, schema.references = done ++ refs →
      Passes t includes importer done start cache →
      references other t includes importer refs cache =
        references (visit t includes) t includes importer refs cache := by
  induction refs with
  | nil => exact fun _ _ => rfl
  | cons ref refs ih =>
      intro done cache he hpass
      rw [Composition.references, Composition.references, h.reference hl he hpass]
      cases hf : Composition.reference (visit t includes) t includes importer ref cache with
      | none => rfl
      | some first =>
          obtain ⟨result, between, events⟩ := first
          cases result with
          | error e => rfl
          | ok next =>
              have hrest := ih (by simpa using he) (hpass.snoc hf)
              simp only [Option.bind_some, hrest]

theorem Agrees.follow {other : Visit} {path : String} {cache : Cache} (h : Agrees t includes other path cache) :
    follow other t includes path cache (load t path) = some (compose t includes path cache) := by
  refine Eq.trans ?_ (visit_eq t includes path cache).symm
  cases hl : load t path with
  | error e => rfl
  | ok schema =>
      have hrefs := h.references hl (List.nil_append _).symm (.nil _ _)
      rw [Composition.follow, Composition.follow, hrefs]

theorem file_eq_compose {depth : Nat} {path : String} {cache : Cache} (h : (remaining t cache).ncard < depth) :
    file t includes depth path cache = some (compose t includes path cache) := by
  induction depth generalizing path cache with
  | zero => exact absurd h (Nat.not_lt_zero _)
  | succ depth ih =>
      have hagrees : Agrees t includes (file t includes depth) path cache :=
        fun inner hn => ih (Nat.lt_of_lt_of_le hn.ncard_lt (Nat.lt_succ_iff.mp h))
      exact hagrees.follow

structure Ends (t : FileTree) (includes : List String) : Prop where
  finite : ∀ c, (remaining t c).Finite
  decreases : ∀ inner outer, Nests t includes inner outer → inner.1 ∈ remaining t outer.2 ∧
    (remaining t inner.2).ncard < (remaining t outer.2).ncard
  wellFounded : WellFounded (Nests t includes)
  rests : ∀ other path c, Agrees t includes other path c →
    follow other t includes path c (load t path) = some (compose t includes path c)
  ends : ∀ path c, ∃ run, (∀ depth, (remaining t (c.entered (t.absolute path))).ncard < depth →
      file t includes depth (t.absolute path) (c.entered (t.absolute path)) = some run) ∧
    build t includes path c = if c.has (t.absolute path) then run else run.leave (t.absolute path)

theorem ends_build (t : FileTree) (includes : List String) : Ends t includes where
  finite := finite_remaining t
  decreases := fun _ _ h => ⟨h.mem_remaining, h.ncard_lt⟩
  wellFounded := wellFounded_nests t includes
  rests := fun _ _ _ h => h.follow
  ends := by
    intro path c
    refine ⟨_, fun _ h => file_eq_compose h, ?_⟩
    unfold build Cache.entered
    split <;> rfl

theorem ends_build_of_mutual_imports :
    Nests mutualImports [] ("/b", ⟨["/b", "/a"], ["/c", "/a", "/b"]⟩) ("/a", ⟨["/a"], ["/c", "/a"]⟩) ∧
    (remaining mutualImports ⟨["/b", "/a"], ["/c", "/a", "/b"]⟩).ncard <
      (remaining mutualImports ⟨["/a"], ["/c", "/a"]⟩).ncard := by
  have hn : Nests mutualImports [] ("/b", ⟨["/b", "/a"], ["/c", "/a", "/b"]⟩) ("/a", ⟨["/a"], ["/c", "/a"]⟩) := by
    have hr : (load mutualImports "/a").toOption.map Schema.references = some ["b"] := by decide +kernel
    obtain ⟨schema, hs, hrefs⟩ := Option.map_eq_some_iff.mp hr
    have hleads : Leads mutualImports [] "/a" "b" ⟨["/a"], ["/c", "/a"]⟩ :=
      ⟨by decide +kernel, by decide +kernel, by decide +kernel, by decide +kernel⟩
    have hb : "/b" = target mutualImports [] "/a" "b" := by decide +kernel
    exact ⟨_, ⟨schema, [], "b", [], eq_ok_of_toOption hs, hrefs, .nil _ _, hleads, hb⟩, by decide +kernel⟩
  exact ⟨hn, ((ends_build mutualImports []).decreases _ _ hn).2⟩

end ProtoBundle.Composition
