import ProtoBundle.Proofs.Composition.Search

namespace ProtoBundle.Composition

variable {t : FileTree} {includes : List String}

theorem target_append {importer ref : String} (h : t.isPresent (target t includes importer ref) = true)
    (further : List String) : target t (includes ++ further) importer ref = target t includes importer ref := by
  unfold target resolve at h ⊢
  generalize String.ofList (Path.directory importer.toList) = base at h ⊢
  have hc : candidates t (includes ++ further) base ref = candidates t includes base ref ++
      further.map fun directory => candidate t directory ref := by simp [candidates]
  rw [hc, List.find?_append]
  cases hf : (candidates t includes base ref).find? t.isPresent with
  | some path => rfl
  | none =>
      rw [hf, Option.getD_none] at h
      exact absurd h (List.find?_eq_none.mp hf _ List.mem_cons_self)

def Cache.Present (t : FileTree) (c : Cache) : Prop := ∀ p ∈ c.seen, t.isPresent p = true

theorem Cache.Present.start {c : Cache} (hc : c.Present t) {path : String} (hp : t.isPresent path = true) :
    (c.start path).Present t := by
  intro p hm
  rcases Cache.mem_seen_start.mp hm with rfl | hm
  · exact hp
  · exact hc p hm

theorem Follows.present {importer : String} {refs : List String} {cache : Cache} {run : Run (List Schema)}
    (h : Follows t includes importer refs cache run) : cache.Present t → run.cache.Present t := by
  induction h with
  | done | cycle | unresolved => exact id
  | passedOver _ _ ih => exact ih
  | leftOut _ _ _ _ ih => exact ih
  | unreadable hn _ => exact fun hc => hc.start hn.present
  | abandoned hn _ _ ih => exact fun hc => ih (hc.start hn.present)
  | inlined hn _ _ _ ihi ih => exact fun hc => ih (ihi (hc.start hn.present))

def Run.IsUnresolved {α : Type} (r : Run α) : Prop :=
  ∃ path ref importer, r.result = .error (.unresolved path ref importer)

theorem Run.IsUnresolved.map {α β : Type} {result : Except Failure α} {d : Cache} {events others : List Event}
    (h : Run.IsUnresolved ⟨result, d, events⟩) (f : α → β) : Run.IsUnresolved ⟨result.map f, d, others⟩ := by
  obtain ⟨path, ref, importer, hr⟩ := h
  refine ⟨path, ref, importer, ?_⟩
  cases hr
  rfl

theorem Leads.append {importer ref : String} {cache : Cache} (h : Leads t includes importer ref cache)
    (further : List String) : Leads t (includes ++ further) importer ref cache := by
  have ht := target_append h.present further
  exact ⟨h.valid, ht ▸ h.idle, ht ▸ h.new, ht ▸ h.present⟩

/-- Every reference that a search gets past leads to a file that exists, also where the file is in progress or taken
up before. So none of them is looked up any further. -/
theorem Follows.append {importer : String} {refs : List String} {cache : Cache} {run : Run (List Schema)}
    (h : Follows t includes importer refs cache run) (further : List String) :
    cache.Consistent → cache.Present t → ¬run.IsUnresolved →
      Follows t (includes ++ further) importer refs cache run := by
  induction h with
  | done => exact fun _ _ _ => .done
  | passedOver hv _ ih => exact fun hc hx hn => .passedOver hv (ih hc hx hn)
  | leftOut hv hp hs _ ih =>
      intro hc hx hn
      have ht := target_append (hx _ hs) further
      rw [← ht] at hp hs ⊢
      exact .leftOut hv hp hs (ih hc hx hn)
  | cycle hv hp =>
      intro hc hx _
      have ht := target_append (hx _ (hc hp)) further
      rw [← ht] at hp ⊢
      exact .cycle hv hp
  | unresolved => exact fun _ _ hn => absurd ⟨_, _, _, rfl⟩ hn
  | unreadable hn hl =>
      intro _ _ _
      have ht := target_append hn.present further
      have hn := hn.append further
      rw [← ht] at hl ⊢
      exact .unreadable hn hl
  | abandoned hn hl _ ih =>
      intro hc hx hu
      have ht := target_append hn.present further
      have hi := ih (hc.start _) (hx.start hn.present) hu
      have hn := hn.append further
      rw [← ht] at hl hi ⊢
      exact .abandoned hn hl hi
  | inlined hn hl inner _ ihi ih =>
      intro hc hx hu
      have ht := target_append hn.present further
      have hd := inner.consistent (List.Subset.trans hc (Cache.seen_subset_start _ _))
      have hi := ihi (hc.start _) (hx.start hn.present) (by rintro ⟨_, _, _, ⟨⟩⟩)
      have hr := ih hd (inner.present (hx.start hn.present)) fun h => hu (h.map _)
      have hn := hn.append further
      rw [← ht] at hl hi ⊢
      exact .inlined hn hl hi hr

theorem Composes.compose_eq {root : String} {cache : Cache} {run : Run Schema}
    (h : Composes t includes root cache run) : compose t includes root cache = run := by
  have hv : visit t includes root cache = some run := by
    cases h with
    | unreadable hl =>
        rw [visit_eq, hl]
        rfl
    | followed hl hf => exact visit_of_load hl hf.references_eq
  exact Option.some.inj hv

theorem Composes.append {root : String} {run : Run Schema} (h : Composes t includes root ⟨[root], [root]⟩ run)
    (hr : t.absolute root = root) (hn : ¬run.IsUnresolved) (further : List String) :
    Composes t (includes ++ further) root ⟨[root], [root]⟩ run := by
  cases h with
  | unreadable hl => exact .unreadable hl
  | followed hl hf =>
      have hx : Cache.Present t ⟨[root], [root]⟩ := by
        intro p hp
        cases List.mem_singleton.mp hp
        exact hr ▸ isPresent_of_load hl
      exact .followed hl (hf.append further (List.Subset.refl _) hx fun h => hn (h.map _))

theorem build_append (t : FileTree) (includes further : List String) (path : String)
    (h : ∀ place ref importer, (build t includes path .empty).result ≠ .error (.unresolved place ref importer)) :
    build t (includes ++ further) path .empty = build t includes path .empty := by
  obtain ⟨result, d, events, hm, hb⟩ := build_spec t includes path Cache.consistent_empty
  have hn : ¬Run.IsUnresolved ⟨result, d, events⟩ := by
    rintro ⟨place, ref, importer, hr⟩
    exact h place ref importer (by rw [hb]; exact hr)
  rw [Cache.entered_empty] at hm
  have hc := (hm.append (t.absolute_absolute path) hn further).compose_eq.trans hm.compose_eq.symm
  rw [← Cache.entered_empty] at hc
  exact congrArg (fun run => Run.leave run (t.absolute path)) hc

def shadowedImports : FileTree :=
  (((FileTree.empty ['/']).write "/a" "import\"b\";".toUTF8.toList).write "/x/b" "import\"../a\";".toUTF8.toList).write
    "/y/b" []

theorem build_append_shadowed :
    (build shadowedImports ["x"] "a" .empty).error? = some (.cycle "/a" "../a" (some "/x/b") ["/a", "/x/b"]) ∧
    build shadowedImports (["x"] ++ ["y"]) "a" .empty = build shadowedImports ["x"] "a" .empty := by
  have he : (build shadowedImports ["x"] "a" .empty).error? =
      some (.cycle "/a" "../a" (some "/x/b") ["/a", "/x/b"]) := by decide +kernel
  refine ⟨he, build_append _ _ _ _ fun place ref importer hr => ?_⟩
  rw [Run.result_of_error? he] at hr
  cases hr

end ProtoBundle.Composition
