import ProtoBundle.Proofs.Composition.Search

namespace ProtoBundle.Composition

variable {t : FileTree} {includes : List String} {root : String}

structure Trail (t : FileTree) (includes : List String) (root file : String) (chain : List String) : Prop where
  head : chain.head? = some root
  last : chain.getLast? = some file
  linked : chain.IsChain (Imports t includes)
  nodup : chain.Nodup

theorem Trail.single (root : String) : Trail t includes root root [root] :=
  ⟨rfl, rfl, .singleton root, List.pairwise_singleton _ _⟩

theorem Trail.snoc {file other : String} {chain : List String} (h : Trail t includes root file chain)
    (he : Imports t includes file other) (hn : other ∉ chain) : Trail t includes root other (chain ++ [other]) := by
  refine ⟨?_, List.getLast?_concat, ?_, ?_⟩
  · rw [List.head?_append, h.head]
    rfl
  · refine List.isChain_append.mpr ⟨h.linked, .singleton other, ?_⟩
    intro x hx y hy
    cases h.last.symm.trans hx
    cases hy
    exact he
  · refine List.nodup_append.mpr ⟨h.nodup, List.pairwise_singleton _ _, ?_⟩
    rintro x hx y hy rfl
    exact hn (List.mem_singleton.mp hy ▸ hx)

theorem Trail.between {file path : String} {chain : List String} (h : Trail t includes root file chain)
    (hp : path ∈ chain) : Reachable t includes root path ∧ Reachable t includes path file := by
  constructor
  · refine h.linked.induction (Reachable t includes root ·) chain (fun _ _ he hx => hx.tail he) (fun hne => ?_) path hp
    rw [Option.some.inj ((List.head?_eq_some_head hne).symm.trans h.head)]
    exact .refl
  · refine h.linked.backwards_induction (Reachable t includes · file) chain (fun _ _ he hy => hy.head he)
      (fun hne => ?_) path hp
    rw [Option.some.inj ((List.getLast?_eq_some_getLast hne).symm.trans h.last)]
    exact .refl

theorem Trail.reachable {file : String} {chain : List String} (h : Trail t includes root file chain) :
    Reachable t includes root file := (h.between (List.mem_of_getLast? h.last)).1

/-- A file that is opened is the root, or else it is there. -/
structure Opened (t : FileTree) (includes : List String) (root file : String) : Prop where
  reachable : Reachable t includes root file
  present : file = root ∨ t.isPresent file = true

def Blames (t : FileTree) (includes : List String) (root : String) : Failure → Prop
  | .cycle path ref importer chain => ∃ file, importer = some file ∧ Trail t includes root file chain ∧
      Declares t file ref ∧ target t includes file ref = path ∧ path ∈ chain
  | .unresolved path ref importer => ∃ file, importer = some file ∧ Reachable t includes root file ∧
      Declares t file ref ∧
      (∀ place ∈ candidates t includes (String.ofList (Path.directory file.toList)) ref,
        t.isPresent place = false) ∧
      path = candidate t (String.ofList (Path.directory file.toList)) ref
  | .malformed message place line column => ∃ file, Opened t includes root file ∧
      load t file = .error (.malformed message place line column) ∧ place = some file
  | e => ∃ file, Opened t includes root file ∧ load t file = .error e

theorem blames_of_load (hr : t.absolute root = root) {path : String} (hp : Opened t includes root path)
    {e : Failure} (h : load t path = .error e) : Blames t includes root e := by
  have hf := raises_load t path e h
  rw [absolute_of_reachable hr hp.reachable] at hf
  cases e with
  | malformed message place line column => exact ⟨path, hp, h, hf⟩
  | unresolved | cycle => exact hf.elim
  | _ => exact ⟨path, hp, h⟩

theorem Follows.blames (hr : t.absolute root = root) {importer : String} {refs : List String} {cache : Cache}
    {run : Run (List Schema)} (h : Follows t includes importer refs cache run) :
    Trail t includes root importer cache.inProgress →
    (∀ ref ∈ refs, isInlined ref = true → Declares t importer ref) →
    ∀ e, run.result = .error e → Blames t includes root e := by
  induction h with
  | done =>
      intro _ _ e he
      cases he
  | passedOver _ _ ih => exact fun ht hd => ih ht (List.forall_mem_cons.mp hd).2
  | leftOut _ _ _ _ ih => exact fun ht hd => ih ht (List.forall_mem_cons.mp hd).2
  | @cycle importer ref refs cache hv hp =>
      rintro ht hd e ⟨⟩
      exact ⟨importer, rfl, ht, hd ref (List.mem_cons_self ..) hv, rfl, hp⟩
  | @unresolved importer ref refs cache hv _ _ hx =>
      rintro ht hd e ⟨⟩
      obtain ⟨hc, hb⟩ := target_of_absent hx
      exact ⟨importer, rfl, ht.reachable,
        hd ref (List.mem_cons_self ..) hv, hc, hb⟩
  | @unreadable importer ref refs cache e hn hl =>
      rintro ht hd e ⟨⟩
      have he : Imports t includes importer _ := ⟨ref, hd ref (List.mem_cons_self ..) hn.valid, rfl⟩
      exact blames_of_load hr ⟨(ht.snoc he hn.idle).reachable, .inr hn.present⟩ hl
  | @abandoned importer ref refs cache schema e d events hn hl inner ih =>
      rintro ht hd e ⟨⟩
      have he : Imports t includes importer _ := ⟨ref, hd ref (List.mem_cons_self ..) hn.valid, rfl⟩
      exact ih (ht.snoc he hn.idle) (declares_of_load hl) e rfl
  | @inlined importer ref refs cache schema imports d events result d' events' hn hl inner rest ihi ih =>
      intro ht hd e he
      refine ih ht (List.forall_mem_cons.mp hd).2 e ?_
      cases result with
      | error e' => exact he
      | ok schemas => cases he

theorem Composes.blames (hr : t.absolute root = root) {run : Run Schema}
    (h : Composes t includes root ⟨[root], [root]⟩ run) {e : Failure} (he : run.result = .error e) :
    Blames t includes root e := by
  cases h with
  | unreadable hl =>
      cases he
      exact blames_of_load hr ⟨.refl, .inl rfl⟩ hl
  | @followed schema result d events hl hf =>
      refine hf.blames hr (.single root) (declares_of_load hl) e ?_
      cases result with
      | ok imports => cases he
      | error d =>
          cases he
          rfl

theorem blames_of_build {path : String} {e : Failure} (h : (build t includes path .empty).result = .error e) :
    Blames t includes (t.absolute path) e := by
  obtain ⟨result, d, events, hm, hb⟩ := build_spec t includes path Cache.consistent_empty
  rw [hb] at h
  exact hm.blames (t.absolute_absolute path) h

/-- Only the root can have a path with a null character: what is imported is there before it is opened. -/
theorem build_eq_embeddedNull_iff {path place : String} :
    (build t includes path .empty).result = .error (.embeddedNull place) ↔
      '\x00' ∈ (t.absolute path).toList ∧ place = t.absolute path := by
  have hr := t.absolute_absolute path
  constructor
  · intro h
    obtain ⟨file, ho, hl⟩ := blames_of_build h
    obtain ⟨hplace, hz⟩ := raises_load t file _ hl
    rw [absolute_of_reachable hr ho.reachable] at hplace hz
    rcases ho.present with rfl | hp
    · exact ⟨hz, hplace⟩
    · exact absurd hz (not_null_of_isPresent hp)
  · rintro ⟨hz, rfl⟩
    have hload : load t (t.absolute path) = .error (.embeddedNull (t.absolute path)) := by
      rw [load_eq_bind, hr, FileTree.read_of_null hz]
      rfl
    obtain ⟨result, d, events, hm, hb⟩ := build_spec t includes path Cache.consistent_empty
    rw [hb]
    cases hm with
    | unreadable hl => exact hl.symm.trans hload
    | followed hl => cases hl.symm.trans hload

def mutualImports : FileTree :=
  ((FileTree.empty ['/']).write "/a" "import\"b\";".toUTF8.toList).write "/b" "import\"a\";".toUTF8.toList

theorem blames_of_mutual_imports :
    (build mutualImports [] "a" .empty).result = .error (.cycle "/a" "a" (some "/b") ["/a", "/b"]) ∧
    Blames mutualImports [] (mutualImports.absolute "a") (.cycle "/a" "a" (some "/b") ["/a", "/b"]) := by
  have h : (build mutualImports [] "a" .empty).result = .error (.cycle "/a" "a" (some "/b") ["/a", "/b"]) :=
    Run.result_of_error? (by decide +kernel)
  exact ⟨h, blames_of_build h⟩

end ProtoBundle.Composition
