import ProtoBundle.Proofs.Composition.ImportGraph

/-!
The recursion of a composition. A reference is met in one of five situations, only one of which nests another file;
and a composition runs through its own recursion whatever bound on the nesting it is started with.
-/

namespace ProtoBundle.Composition

variable {t : FileTree} {includes : List String}

structure Leads (t : FileTree) (includes : List String) (importer ref : String) (cache : Cache) : Prop where
  valid : isInlined ref = true
  idle : target t includes importer ref ∉ cache.inProgress
  new : target t includes importer ref ∉ cache.seen
  present : t.isPresent (target t includes importer ref) = true

section Reference

variable {importer ref : String} {cache : Cache} (visit : Visit)

theorem reference_passedOver (hv : isInlined ref = false) :
    reference visit t includes importer ref cache = some ⟨.ok none, cache, [.passedOver ref importer]⟩ := by
  simp only [reference, hv, Bool.false_eq_true, if_false]

theorem reference_cycle (hv : isInlined ref = true) (hp : target t includes importer ref ∈ cache.inProgress) :
    reference visit t includes importer ref cache =
      some ⟨.error (.cycle (target t includes importer ref) ref (some importer) cache.inProgress), cache, []⟩ := by
  have hb : cache.isBuilding (target t includes importer ref) = true := by simpa [Cache.isBuilding] using hp
  simp only [reference, hv, if_true]
  exact if_pos hb

theorem reference_leftOut (hv : isInlined ref = true) (hp : target t includes importer ref ∉ cache.inProgress)
    (hs : target t includes importer ref ∈ cache.seen) : reference visit t includes importer ref cache =
      some ⟨.ok none, cache, [.alreadyInlined ref (target t includes importer ref)]⟩ := by
  have hb : ¬cache.isBuilding (target t includes importer ref) = true := by simpa [Cache.isBuilding] using hp
  have hh : cache.has (target t includes importer ref) = true := by simpa [Cache.has] using hs
  simp only [reference, hv, if_true]
  exact (if_neg hb).trans (if_pos hh)

theorem reference_unresolved (hv : isInlined ref = true) (hp : target t includes importer ref ∉ cache.inProgress)
    (hs : target t includes importer ref ∉ cache.seen) (hx : t.isPresent (target t includes importer ref) = false) :
    reference visit t includes importer ref cache =
      some ⟨.error (.unresolved (target t includes importer ref) ref (some importer)), cache, []⟩ := by
  have hb : ¬cache.isBuilding (target t includes importer ref) = true := by simpa [Cache.isBuilding] using hp
  have hh : ¬cache.has (target t includes importer ref) = true := by simpa [Cache.has] using hs
  simp only [reference, hv, if_true]
  exact (if_neg hb).trans ((if_neg hh).trans (if_neg (by simpa [target] using hx)))

theorem reference_nested (hn : Leads t includes importer ref cache) : reference visit t includes importer ref cache =
      (visit (target t includes importer ref) (cache.start (target t includes importer ref))).map fun r =>
        ⟨(r.leave (target t includes importer ref)).result.map some,
          (r.leave (target t includes importer ref)).cache,
          (r.leave (target t includes importer ref)).events⟩ := by
  have hb : ¬cache.isBuilding (target t includes importer ref) = true := by simpa [Cache.isBuilding] using hn.idle
  have hh : ¬cache.has (target t includes importer ref) = true := by simpa [Cache.has] using hn.new
  simp only [reference, hn.valid, if_true]
  exact (if_neg hb).trans ((if_neg hh).trans (if_pos hn.present))

end Reference

theorem reference_cases (t : FileTree) (includes : List String) (importer ref : String) (cache : Cache) :
    isInlined ref = false ∨
    (isInlined ref = true ∧ target t includes importer ref ∈ cache.inProgress) ∨
    (isInlined ref = true ∧ target t includes importer ref ∉ cache.inProgress ∧
      target t includes importer ref ∈ cache.seen) ∨
    (isInlined ref = true ∧ target t includes importer ref ∉ cache.inProgress ∧
      target t includes importer ref ∉ cache.seen ∧ t.isPresent (target t includes importer ref) = false) ∨
    Leads t includes importer ref cache := by
  cases hv : isInlined ref with
  | false => exact .inl rfl
  | true =>
      by_cases hp : target t includes importer ref ∈ cache.inProgress
      · exact .inr (.inl ⟨rfl, hp⟩)
      · by_cases hs : target t includes importer ref ∈ cache.seen
        · exact .inr (.inr (.inl ⟨rfl, hp, hs⟩))
        · cases hx : t.isPresent (target t includes importer ref) with
          | false => exact .inr (.inr (.inr (.inl ⟨rfl, hp, hs, rfl⟩)))
          | true => exact .inr (.inr (.inr (.inr ⟨hv, hp, hs, hx⟩)))

def Extends (visit other : Visit) : Prop :=
  ∀ path cache run, visit path cache = some run → other path cache = some run

theorem reference_mono {visit other : Visit} (hv : Extends visit other) {importer ref : String} {cache : Cache}
    {run : Run (Option Schema)} (h : reference visit t includes importer ref cache = some run) :
    reference other t includes importer ref cache = some run := by
  rcases reference_cases t includes importer ref cache with hi | ⟨hi, hp⟩ | ⟨hi, hp, hs⟩ | ⟨hi, hp, hs, hx⟩ | hn
  · rwa [reference_passedOver _ hi] at h ⊢
  · rwa [reference_cycle _ hi hp] at h ⊢
  · rwa [reference_leftOut _ hi hp hs] at h ⊢
  · rwa [reference_unresolved _ hi hp hs hx] at h ⊢
  · rw [reference_nested _ hn] at h ⊢
    obtain ⟨inner, hi, rfl⟩ := Option.map_eq_some_iff.mp h
    rw [hv _ _ _ hi]
    rfl

theorem references_mono {visit other : Visit} (hv : Extends visit other) {importer : String} {refs : List String}
    {cache : Cache} {run : Run (List Schema)} (h : references visit t includes importer refs cache = some run) :
    references other t includes importer refs cache = some run := by
  induction refs generalizing cache run with
  | nil => exact h
  | cons ref refs ih =>
      obtain ⟨first, hf, h⟩ := Option.bind_eq_some_iff.mp h
      rw [references, reference_mono hv hf, Option.bind_some]
      split at h
      · exact h
      · obtain ⟨rest, hr, rfl⟩ := Option.map_eq_some_iff.mp h
        rw [ih hr]
        rfl

theorem follow_mono {visit other : Visit} (hv : Extends visit other) {path : String} {cache : Cache}
    {loaded : Except Failure Schema} {run : Run Schema}
    (h : follow visit t includes path cache loaded = some run) :
    follow other t includes path cache loaded = some run := by
  cases loaded with
  | error e => exact h
  | ok schema =>
      obtain ⟨inner, hi, rfl⟩ := Option.map_eq_some_iff.mp h
      rw [follow, references_mono hv hi]
      rfl

theorem file_mono {m n : Nat} (h : m ≤ n) : Extends (file t includes m) (file t includes n) := by
  induction m generalizing n with
  | zero =>
      intro path cache run hr
      cases hr
  | succ m ih =>
      intro path cache run hr
      cases n with
      | zero => exact absurd h (Nat.not_succ_le_zero m)
      | succ n => exact follow_mono (ih (Nat.succ_le_succ_iff.mp h)) hr

def visit (t : FileTree) (includes : List String) : Visit := fun path cache => some (compose t includes path cache)

theorem file_compose (t : FileTree) (includes : List String) (path : String) (cache : Cache) :
    file t includes (unseen t cache + 1) path cache = some (compose t includes path cache) := by
  unfold compose
  exact (Option.some_get _).symm

theorem extends_visit (t : FileTree) (includes : List String) (n : Nat) :
    Extends (file t includes n) (visit t includes) := by
  intro path cache run h
  have hn := file_mono (Nat.le_max_left n (unseen t cache + 1)) path cache run h
  have hc := file_mono (Nat.le_max_right n (unseen t cache + 1)) path cache _ (file_compose t includes path cache)
  exact hc.symm.trans hn

theorem visit_eq (t : FileTree) (includes : List String) (path : String) (cache : Cache) :
    visit t includes path cache = follow (visit t includes) t includes path cache (load t path) :=
  (follow_mono (extends_visit t includes (unseen t cache)) (file_compose t includes path cache)).symm

end ProtoBundle.Composition
