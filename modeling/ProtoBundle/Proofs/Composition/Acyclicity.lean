import ProtoBundle.Proofs.Composition.Blame
import ProtoBundle.Proofs.Composition.Inlining

namespace ProtoBundle.Composition

variable {t : FileTree} {includes : List String}

structure Composable (t : FileTree) (includes : List String) (root : String) : Prop where
  loads : ∀ p, Reachable t includes root p → ∃ schema, load t p = .ok schema
  resolves : ∀ p ref, Reachable t includes root p → Declares t p ref →
    t.isPresent (target t includes p ref) = true
  acyclic : ∀ p, Reachable t includes root p → ¬Relation.TransGen (Imports t includes) p p

/-- A file from which every import path ends. -/
def Grounded (t : FileTree) (includes : List String) (path : String) : Prop :=
  Acc (flip (Imports t includes)) path

theorem grounded_of_load {path : String} {schema : Schema} (hl : load t path = .ok schema)
    (h : ∀ ref ∈ schema.references, isInlined ref = true → Grounded t includes (target t includes path ref)) :
    Grounded t includes path := by
  refine Acc.intro path fun q he => ?_
  obtain ⟨ref, hr, rfl⟩ := he
  obtain ⟨hm, hv⟩ := (declares_iff hl).mp hr
  exact h ref hm hv

theorem Grounded.not_cyclic {path : String} (h : Grounded t includes path) :
    ¬Relation.TransGen (Imports t includes) path path := by
  induction h with
  | intro path _ ih =>
      intro hc
      obtain ⟨q, he, hq⟩ := Relation.TransGen.head'_iff.mp hc
      exact ih q he (.tail' hq he)

/-- The files that are taken up and no longer in progress are grounded. -/
def Settled (t : FileTree) (includes : List String) (cache : Cache) : Prop :=
  ∀ p ∈ cache.seen, p ∉ cache.inProgress → Grounded t includes p

theorem Settled.start {cache : Cache} (h : Settled t includes cache) (path : String) :
    Settled t includes (cache.start path) := by
  intro p hp hq
  rw [Cache.mem_inProgress_start, not_or] at hq
  exact h p ((Cache.mem_seen_start.mp hp).resolve_left hq.2) hq.1

theorem Settled.leave {path : String} {schema : Schema} {cache d : Cache} {children : List Schema}
    {events : List Event} (h : Settled t includes ⟨d.seen, (cache.start path).inProgress⟩)
    (hl : load t path = .ok schema)
    (hi : Inlines t includes path schema.references (cache.start path) children d events)
    (hback : ∀ ref ∈ schema.references, isInlined ref = true →
      target t includes path ref ∉ (cache.start path).inProgress) :
    Settled t includes ⟨d.seen, cache.inProgress⟩ := by
  have hself : Grounded t includes path :=
    grounded_of_load hl fun r hm hv => h _ (hi.closed.1 r hm hv) (hback r hm hv)
  intro p hp hq
  by_cases he : p = path
  · exact he ▸ hself
  · refine h p hp ?_
    rw [Cache.mem_inProgress_start, not_or]
    exact ⟨hq, he⟩

theorem Inlines.settled {importer : String} {refs : List String} {cache d : Cache} {imports : List Schema}
    {events : List Event} (h : Inlines t includes importer refs cache imports d events) :
    Settled t includes cache →
    (∀ ref ∈ refs, isInlined ref = true → target t includes importer ref ∉ cache.inProgress) ∧
    Settled t includes ⟨d.seen, cache.inProgress⟩ := by
  induction h with
  | done => exact fun hc => ⟨by simp, hc⟩
  | passedOver hv _ ih =>
      intro hc
      obtain ⟨hback, hleft⟩ := ih hc
      exact ⟨List.forall_mem_cons.mpr ⟨fun hi => absurd (hv.symm.trans hi) Bool.false_ne_true, hback⟩, hleft⟩
  | leftOut _ hp _ _ ih =>
      intro hc
      obtain ⟨hback, hleft⟩ := ih hc
      exact ⟨List.forall_mem_cons.mpr ⟨fun _ => hp, hback⟩, hleft⟩
  | inlined hn hl inner _ ihi ih =>
      intro hc
      obtain ⟨hin, hleft⟩ := ihi (hc.start _)
      obtain ⟨hback, hall⟩ := ih (hleft.leave hl inner hin)
      exact ⟨List.forall_mem_cons.mpr ⟨fun _ => hn.idle, hback⟩, hall⟩

theorem Follows.grounded {importer : String} {refs : List String} {cache : Cache} {run : Run (List Schema)}
    (h : Follows t includes importer refs cache run) :
    Settled t includes cache → ∀ ref p, .alreadyInlined ref p ∈ run.events → Grounded t includes p := by
  induction h with
  | done | cycle | unresolved =>
      intro _ ref p hm
      cases hm
  | passedOver _ _ ih =>
      intro hc ref p hm
      exact ih hc ref p ((List.mem_cons.mp hm).resolve_left nofun)
  | leftOut _ hp hs _ ih =>
      intro hc ref p hm
      rcases List.mem_cons.mp hm with he | hm
      · cases he
        exact hc _ hs hp
      · exact ih hc ref p hm
  | unreadable =>
      intro _ ref p hm
      cases List.mem_singleton.mp hm
  | abandoned _ _ _ ih =>
      intro hc ref p hm
      exact ih (hc.start _) ref p ((List.mem_cons.mp hm).resolve_left nofun)
  | inlined _ hl inner _ ihi ih =>
      intro hc ref p hm
      have hi := inner.inlines _ rfl
      obtain ⟨hin, hleft⟩ := hi.settled (hc.start _)
      rw [List.cons_append, List.mem_cons, List.mem_append] at hm
      rcases hm with he | hm | hm
      · cases he
      · exact ihi (hc.start _) ref p hm
      · exact ih (hleft.leave hl hi hin) ref p hm

theorem Composes.grounded {root : String} {run : Run Schema} (h : Composes t includes root ⟨[root], [root]⟩ run) :
    ∀ ref p, .alreadyInlined ref p ∈ run.events → Grounded t includes p := by
  intro ref p hm
  cases h with
  | unreadable => cases List.mem_singleton.mp hm
  | followed _ hf =>
      exact hf.grounded (fun q hq hn => absurd hq hn) ref p ((List.mem_cons.mp hm).resolve_left nofun)

theorem Inlines.isOk_load {importer : String} {refs : List String} {cache d : Cache} {imports : List Schema}
    {events : List Event} (h : Inlines t includes importer refs cache imports d events) :
    ∀ p ∈ loads events, ∃ schema, load t p = .ok schema := by
  induction h with
  | done =>
      intro p hp
      cases hp
  | passedOver _ _ ih => exact ih
  | leftOut _ _ _ _ ih => exact ih
  | inlined _ hl _ _ ihi ih =>
      intro p hp
      rcases mem_loads_nested.mp hp with rfl | hp | hp
      · exact ⟨_, hl⟩
      · exact ihi p hp
      · exact ih p hp

theorem Inlines.composable {root : String} {loaded : Schema} {imports : List Schema} {d : Cache}
    {events : List Event} (hr : t.absolute root = root) (hl : load t root = .ok loaded)
    (h : Inlines t includes root loaded.references ⟨[root], [root]⟩ imports d events) :
    Composable t includes root := by
  have hload : ∀ p, Reachable t includes root p → ∃ schema, load t p = .ok schema := by
    intro p hp
    rcases List.mem_cons.mp ((h.mem_iff_reachable hl p).mpr hp) with rfl | hm
    · exact ⟨loaded, hl⟩
    · exact h.isOk_load p hm
  obtain ⟨hback, hleft⟩ := h.settled fun p hp hq => absurd hp hq
  refine ⟨hload, ?_, ?_⟩
  · intro p ref hp hd
    obtain ⟨schema, hs⟩ := hload _ (hp.tail ⟨ref, hd, rfl⟩)
    exact absolute_target p ref ▸ isPresent_of_load hs
  · intro p hp
    refine Grounded.not_cyclic ?_
    by_cases he : p = root
    · subst he
      exact grounded_of_load hl fun r hm hv => hleft _ (h.closed.1 r hm hv) (hback r hm hv)
    · refine hleft p ((h.takesUp.mem_iff p).mpr (.inr ?_)) (by simpa using he)
      exact (List.mem_cons.mp ((h.mem_iff_reachable hl p).mpr hp)).resolve_left he

theorem Blames.of_cycle {root path ref : String} {importer : Option String} {chain : List String}
    (h : Blames t includes root (.cycle path ref importer chain)) :
    Reachable t includes root path ∧ Relation.TransGen (Imports t includes) path path := by
  obtain ⟨file, -, ht, hd, he, hp⟩ := h
  obtain ⟨hr, hb⟩ := ht.between hp
  exact ⟨hr, .tail' hb ⟨ref, hd, he⟩⟩

theorem Blames.not_composable {root : String} {e : Failure} (h : Blames t includes root e) :
    ¬Composable t includes root := by
  intro hc
  have hload {file : String} {e : Failure} (hr : Reachable t includes root file)
      (hl : load t file = .error e) : False := by
    obtain ⟨schema, hs⟩ := hc.loads file hr
    cases hs.symm.trans hl
  cases e with
  | cycle path ref importer chain => exact hc.acyclic path h.of_cycle.1 h.of_cycle.2
  | unresolved path ref importer =>
      obtain ⟨file, -, hr, hd, hx, -⟩ := h
      cases (hx _ (mem_candidates_resolve t includes _ ref)).symm.trans (hc.resolves file ref hr hd)
  | malformed message place line column =>
      obtain ⟨file, ho, hl, -⟩ := h
      exact hload ho.reachable hl
  | _ =>
      obtain ⟨file, ho, hl⟩ := h
      exact hload ho.reachable hl

theorem isOk_build_iff_composable (t : FileTree) (includes : List String) (path : String) :
    ((∃ schema, (build t includes path .empty).result = .ok schema) ↔
      Composable t includes (t.absolute path)) ∧
    (∀ place ref importer chain, (build t includes path .empty).result = .error (.cycle place ref importer chain) →
      Reachable t includes (t.absolute path) place ∧ Relation.TransGen (Imports t includes) place place) ∧
    ∀ ref place, .alreadyInlined ref place ∈ (build t includes path .empty).events →
      ¬Relation.TransGen (Imports t includes) place place := by
  obtain ⟨result, d, events, hm, hb⟩ := build_spec t includes path Cache.consistent_empty
  have hr := t.absolute_absolute path
  rw [hb]
  generalize t.absolute path = root at hm hr
  rw [Cache.entered_empty] at hm
  refine ⟨⟨?_, ?_⟩, ?_, ?_⟩
  · rintro ⟨schema, rfl⟩
    obtain ⟨loaded, imports, events', hl, -, -, hi⟩ := hm.inlines
    exact hi.composable hr hl
  · intro hc
    cases result with
    | ok schema => exact ⟨schema, rfl⟩
    | error e => exact absurd hc (hm.blames hr rfl).not_composable
  · rintro place ref importer chain rfl
    exact (hm.blames hr rfl).of_cycle
  · exact fun ref place he => (hm.grounded ref place he).not_cyclic

theorem isOk_build_of_diamond : Composable diamondImports [] (diamondImports.absolute "a") ∧
    .alreadyInlined "c" "/c" ∈ (build diamondImports [] "a" .empty).events ∧
    ¬Relation.TransGen (Imports diamondImports []) "/c" "/c" ∧
    Relation.TransGen (Imports mutualImports []) "/a" "/a" := by
  have hd := isOk_build_iff_composable diamondImports [] "a"
  have hm := isOk_build_iff_composable mutualImports [] "a"
  have hk : (build diamondImports [] "a" .empty).error? = none := by decide +kernel
  have hl : Event.alreadyInlined "c" "/c" ∈ (build diamondImports [] "a" .empty).events := by decide +kernel
  have he : (build mutualImports [] "a" .empty).result = .error (.cycle "/a" "a" (some "/b") ["/a", "/b"]) :=
    Run.result_of_error? (by decide +kernel)
  refine ⟨hd.1.mp ?_, hl, hd.2.2 _ _ hl, (hm.2.1 _ _ _ _ he).2⟩
  cases hr : (build diamondImports [] "a" .empty).result with
  | ok schema => exact ⟨schema, rfl⟩
  | error e => simp [Run.error?, hr] at hk

end ProtoBundle.Composition
