import ProtoBundle.Proofs.Composition.SharedCache
import ProtoBundle.Proofs.Composition.Spellings

/-!
Paths of a composition. What a reference is resolved to is an absolute path in normal form, wherever it is looked up
from, and so is the directory of such a path. One text therefore stands for a file in the record of files taken up, in
the events, in a failure and in the schema that is read from it.
-/

namespace ProtoBundle

namespace Path

section Directories

variable {cs : List Component} {r : List Char}

theorem join_concat {init : List Component} (h : init ≠ []) (last : Component) :
    Text.join ['/'] (init ++ [last]) = Text.join ['/'] init ++ '/' :: last := by
  induction init with
  | nil => exact absurd rfl h
  | cons first init ih =>
      cases init with
      | nil => simp [Text.join]
      | cons second init => simpa [Text.join] using ih (by simp)

theorem exists_concat_join (h : ∀ c ∈ cs, Proper c) (hne : cs ≠ []) :
    ∃ front last, Text.join ['/'] cs = front ++ [last] ∧ last ≠ '/' := by
  obtain ⟨init, name, rfl⟩ := (List.eq_nil_or_concat' cs).resolve_left hne
  obtain ⟨hname, -, -, hslash⟩ := h name (by simp)
  obtain ⟨front, last, rfl⟩ := (List.eq_nil_or_concat' name).resolve_left hname
  have hlast : last ≠ '/' := fun he => hslash (by simp [he])
  by_cases hi : init = []
  · exact ⟨front, last, by rw [hi]; rfl, hlast⟩
  · exact ⟨Text.join ['/'] init ++ '/' :: front, last, by rw [join_concat hi]; simp, hlast⟩

theorem rdropWhile_name (front : List Char) {name : List Char} (h : '/' ∉ name) :
    (front ++ '/' :: name).rdropWhile (· != '/') = front ++ ['/'] := by
  have hname : ∀ c ∈ name.reverse, (c != '/') = true := by
    intro c hc
    refine bne_iff_ne.mpr ?_
    rintro rfl
    exact h (List.mem_reverse.mp hc)
  rw [List.rdropWhile, List.reverse_append, List.reverse_cons, List.append_assoc,
    List.dropWhile_append_of_pos hname]
  simp

theorem directory_eq {path head : List Char} (h : path.rdropWhile (· != '/') = head) :
    directory path = if head.all (· == '/') then head else head.rdropWhile (· == '/') := by
  rw [← h]
  rfl

theorem directory_of_root (hr : IsRoot r) {name : List Char} (h : '/' ∉ name) : directory (r ++ name) = r := by
  have hhead : (r ++ name).rdropWhile (· != '/') = r := by
    rcases hr with rfl | rfl
    · exact rdropWhile_name [] h
    · exact rdropWhile_name ['/'] h
  have hall : r.all (· == '/') = true := by rcases hr with rfl | rfl <;> rfl
  rw [directory_eq hhead, if_pos hall]

theorem directory_of_name {front : List Char} {last : Char} (hl : last ≠ '/') {name : List Char} (h : '/' ∉ name) :
    directory (front ++ [last] ++ '/' :: name) = front ++ [last] := by
  have hall : ¬(front ++ [last] ++ ['/']).all (· == '/') = true := by
    intro ha
    exact hl (beq_iff_eq.mp (List.all_eq_true.mp ha last (by simp)))
  rw [directory_eq (rdropWhile_name (front ++ [last]) h), if_neg hall, List.rdropWhile_concat_pos _ _ _ rfl,
    List.rdropWhile_concat_neg _ _ _ (by simpa using hl)]

theorem directory_of_proper (hr : IsRoot r) (h : ∀ c ∈ cs, Proper c) :
    directory (r ++ Text.join ['/'] cs) = r ++ Text.join ['/'] cs.dropLast := by
  rcases List.eq_nil_or_concat' cs with rfl | ⟨init, name, rfl⟩
  · rw [List.dropLast_nil]
    exact (directory_of_root hr List.not_mem_nil).trans (List.append_nil r).symm
  · have hname : '/' ∉ name := (h name (by simp)).2.2.2
    rw [List.dropLast_concat]
    by_cases hi : init = []
    · rw [hi]
      exact (directory_of_root hr hname).trans (List.append_nil r).symm
    · obtain ⟨front, last, hjoin, hl⟩ := exists_concat_join (fun c hc => h c (List.mem_append_left _ hc)) hi
      rw [join_concat hi, hjoin, ← List.append_assoc, ← List.append_assoc]
      exact directory_of_name hl hname

theorem exists_directory_normal (cs : List Char) : ∃ ds, directory (normal cs) = normal ds := by
  have hp : ∀ c ∈ (normalComponents cs).dropLast, Proper c := fun c hc =>
    proper_normalComponents c (List.dropLast_subset _ hc)
  refine ⟨root cs ++ Text.join ['/'] (normalComponents cs).dropLast, ?_⟩
  rw [normal_of_proper (isRoot_root cs) hp]
  exact directory_of_proper (isRoot_root cs) proper_normalComponents

end Directories

end Path

theorem FileTree.absolute_directory {t : FileTree} {path : String} (h : t.absolute path = path) :
    t.absolute (String.ofList (Path.directory path.toList)) = String.ofList (Path.directory path.toList) := by
  have hpath : path.toList = Path.normal (t.seen path) := (congrArg String.toList h.symm).trans (toList_absolute path)
  obtain ⟨ds, hd⟩ := Path.exists_directory_normal (t.seen path)
  rw [hpath, hd, absolute_normal]

namespace Composition

variable {t : FileTree} {includes : List String}

section Resolution

structure Resolves (t : FileTree) (includes : List String) (base ref path : String) : Prop where
  isAbsolute : Path.isAbsolute path.toList = true
  fixed : ∀ other : FileTree, other.absolute path = path
  first : (∃ front back, candidates t includes base ref = front ++ path :: back ∧
      (∀ p ∈ front, t.isPresent p = false) ∧ t.isPresent path = true) ∨
    (∀ p ∈ candidates t includes base ref, t.isPresent p = false) ∧ path = candidate t base ref

theorem resolves_resolve (t : FileTree) (includes : List String) (base ref : String) :
    Resolves t includes base ref (resolve t includes base ref) := by
  obtain ⟨cs, hcs⟩ := eq_normal_of_mem_candidates (mem_candidates_resolve t includes base ref)
  refine ⟨?_, fun other => absolute_resolve other t includes base ref, resolve_first t includes base ref⟩
  rw [hcs, String.toList_ofList]
  exact Path.isAbsolute_normal cs

example : resolve (FileTree.empty "/w".toList) [] "a//b/." "../x/./y" = "/w/a/x/y" ∧
    resolve (FileTree.empty "/w".toList) ["i"] "a" "//x//../y" = "//y" := by decide +kernel

end Resolution

section Keys

def Refers (t : FileTree) (includes : List String) (keys : List String) (importer ref path : String) : Prop :=
  importer ∈ keys ∧ Declares t importer ref ∧ target t includes importer ref = path ∧ t.absolute path = path

def Event.Keyed (t : FileTree) (includes keys seen : List String) : Event → Prop
  | .loading path => path ∈ keys ∧ t.absolute path = path
  | .passedOver _ importer => importer ∈ keys
  | .alreadyInlined ref path => path ∈ seen ∧ ∃ importer, Refers t includes keys importer ref path

def BlamesKeys (t : FileTree) (includes keys stack : List String) : Failure → Prop
  | .cycle path ref importer chain => path ∈ chain ∧ (∃ nested ⊆ keys, chain = stack ++ nested) ∧
      ∃ file, importer = some file ∧ Refers t includes keys file ref path
  | .unresolved path ref importer => ∃ file, importer = some file ∧ Refers t includes keys file ref path
  | e => ∃ path ∈ keys, IsLoadingFault path e

variable {keys seen stack : List String}

theorem blamesKeys_of_fault {path : String} {e : Failure} (hp : path ∈ keys) (h : IsLoadingFault path e) :
    BlamesKeys t includes keys stack e := by
  cases e with
  | cycle | unresolved => exact h.elim
  | _ => exact ⟨path, hp, h⟩

theorem blamesKeys_of_load {path : String} {e : Failure} (hp : path ∈ keys) (ha : t.absolute path = path)
    (h : load t path = .error e) : BlamesKeys t includes keys stack e := by
  have hf := raises_load t path e h
  rw [ha] at hf
  exact blamesKeys_of_fault hp hf

theorem refers_target {importer ref : String} (hk : importer ∈ keys) (hd : Declares t importer ref) :
    Refers t includes keys importer ref (target t includes importer ref) :=
  ⟨hk, hd, rfl, absolute_target importer ref⟩

theorem Follows.events_keyed {importer : String} {refs : List String} {cache : Cache} {run : Run (List Schema)}
    (h : Follows t includes importer refs cache run) : importer ∈ keys → loads run.events ⊆ keys →
    run.cache.seen ⊆ seen → (∀ ref ∈ refs, isInlined ref = true → Declares t importer ref) →
    ∀ e ∈ run.events, e.Keyed t includes keys seen := by
  -- The keys and the paths taken up are those of a whole build, so that they are the same for the files inside.
  induction h with
  | done | cycle | unresolved =>
      intro _ _ _ _ e he
      cases he
  | passedOver _ _ ih =>
      intro hk hl hs hd
      exact List.forall_mem_cons.mpr ⟨hk, ih hk hl hs (List.forall_mem_cons.mp hd).2⟩
  | @leftOut importer ref refs cache result d events hv _ hm rest ih =>
      intro hk hl hs hd
      obtain ⟨hself, hd⟩ := List.forall_mem_cons.mp hd
      have hseen : target t includes importer ref ∈ seen := hs ((rest.takesUp.mem_iff _).mpr (.inl hm))
      exact List.forall_mem_cons.mpr ⟨⟨hseen, importer, refers_target hk (hself hv)⟩, ih hk hl hs hd⟩
  | unreadable =>
      intro _ hl _ _
      exact List.forall_mem_singleton.mpr ⟨hl (List.mem_cons_self ..), absolute_target _ _⟩
  | abandoned _ hload _ ih =>
      intro _ hl hs _
      obtain ⟨hpath, hl⟩ := List.cons_subset.mp hl
      exact List.forall_mem_cons.mpr ⟨⟨hpath, absolute_target _ _⟩, ih hpath hl hs (declares_of_load hload)⟩
  | @inlined importer ref refs cache schema imports d events result d' events' hn hload inner rest ihi ih =>
      intro hk hl hs hd
      rw [loads_append, loads_loading] at hl
      obtain ⟨hl, hl'⟩ := List.append_subset.mp hl
      obtain ⟨hpath, hl⟩ := List.cons_subset.mp hl
      have hinner : d.seen ⊆ seen := fun p hp => hs ((rest.takesUp.mem_iff p).mpr (.inl hp))
      refine List.forall_mem_cons.mpr ⟨⟨hpath, absolute_target _ _⟩, List.forall_mem_append.mpr ⟨?_, ?_⟩⟩
      · exact ihi hpath hl hinner (declares_of_load hload)
      · exact ih hk hl' hs (List.forall_mem_cons.mp hd).2

theorem Follows.failure_keyed {importer : String} {refs : List String} {cache : Cache} {run : Run (List Schema)}
    (h : Follows t includes importer refs cache run) : importer ∈ keys → loads run.events ⊆ keys →
    (∃ nested ⊆ keys, cache.inProgress = stack ++ nested) →
    (∀ ref ∈ refs, isInlined ref = true → Declares t importer ref) →
    ∀ e, run.result = .error e → BlamesKeys t includes keys stack e := by
  induction h with
  | done =>
      intro _ _ _ _ e he
      cases he
  | passedOver _ _ ih => exact fun hk hl hp hd => ih hk hl hp (List.forall_mem_cons.mp hd).2
  | leftOut _ _ _ _ ih => exact fun hk hl hp hd => ih hk hl hp (List.forall_mem_cons.mp hd).2
  | @cycle importer ref refs cache hv hm =>
      rintro hk _ hp hd e ⟨⟩
      exact ⟨hm, hp, importer, rfl, refers_target hk (hd ref (List.mem_cons_self ..) hv)⟩
  | @unresolved importer ref refs cache hv _ _ _ =>
      rintro hk _ _ hd e ⟨⟩
      exact ⟨importer, rfl, refers_target hk (hd ref (List.mem_cons_self ..) hv)⟩
  | unreadable _ hload =>
      rintro _ hl _ _ e ⟨⟩
      exact blamesKeys_of_load (hl (List.mem_cons_self ..)) (absolute_target _ _) hload
  | @abandoned importer ref refs cache schema e d events _ hload _ ih =>
      rintro _ hl ⟨nested, hn, hp⟩ _ _ ⟨⟩
      obtain ⟨hpath, hl⟩ := List.cons_subset.mp hl
      refine ih hpath hl ⟨nested ++ [target t includes importer ref], ?_, ?_⟩ (declares_of_load hload) _ rfl
      · exact List.append_subset.mpr ⟨hn, List.cons_subset.mpr ⟨hpath, List.nil_subset _⟩⟩
      · rw [Cache.start, hp, List.append_assoc]
  | @inlined importer ref refs cache schema imports d events result d' events' hn hload inner rest ihi ih =>
      intro hk hl hp hd e he
      rw [loads_append] at hl
      refine ih hk (List.append_subset.mp hl).2 hp (List.forall_mem_cons.mp hd).2 e ?_
      cases result with
      | error e' => exact he
      | ok schemas => cases he

theorem Composes.keyed {root : String} {cache : Cache} {run : Run Schema} (h : Composes t includes root cache run)
    (hr : t.absolute root = root) (hp : ∃ nested ⊆ [root], cache.inProgress = stack ++ nested) :
    (∀ e ∈ run.events, e.Keyed t includes (loads run.events) run.cache.seen) ∧
      ∀ e, run.result = .error e → BlamesKeys t includes (loads run.events) stack e := by
  have hroot : ∀ events, root ∈ loads (.loading root :: events) := fun events => List.mem_cons_self
  cases h with
  | unreadable hl =>
      refine ⟨List.forall_mem_singleton.mpr ⟨hroot [], hr⟩, ?_⟩
      rintro e ⟨⟩
      exact blamesKeys_of_load (hroot []) hr hl
  | @followed schema result d events hl hf =>
      have hloads : loads events ⊆ loads (.loading root :: events) := fun p hp => List.mem_cons_of_mem root hp
      constructor
      · exact List.forall_mem_cons.mpr ⟨⟨hroot events, hr⟩,
          hf.events_keyed (hroot events) hloads (List.Subset.refl _) (declares_of_load hl)⟩
      · intro e he
        obtain ⟨nested, hn, hp⟩ := hp
        have hkeys : nested ⊆ loads (.loading root :: events) := fun p hm => by
          cases List.mem_singleton.mp (hn hm)
          exact hroot events
        refine hf.failure_keyed (hroot events) hloads ⟨nested, hkeys, hp⟩ (declares_of_load hl) e ?_
        cases result with
        | error d =>
            cases he
            rfl
        | ok imports => cases he

theorem mem_loads_iff {p : String} {events : List Event} : p ∈ loads events ↔ .loading p ∈ events := by
  have hloaded : ∀ e : Event, e.loaded? = some p ↔ e = .loading p := by
    intro e
    cases e <;> simp [Event.loaded?]
  simp [loads, List.mem_filterMap, hloaded]

theorem Cache.inProgress_entered (c : Cache) (root : String) :
    ∃ nested ⊆ [root], (c.entered root).inProgress = c.inProgress ++ nested := by
  unfold Cache.entered
  split
  · exact ⟨[], List.nil_subset _, (List.append_nil _).symm⟩
  · exact ⟨[root], List.Subset.refl _, rfl⟩

/-- One text for a file, wherever it comes up in a build: as a key of the cache, in the events, in a failure and in the
schemas. -/
structure Keyed (t : FileTree) (includes : List String) (path : String) (c : Cache) (keys : List String)
    (run : Run Schema) : Prop where
  root : keys.head? = some (t.absolute path)
  loaded : loads run.events = keys
  normal : ∀ p ∈ keys, t.absolute p = p
  file : ∀ p ∈ keys, ∀ schema, load t p = .ok schema → schema.file = some p
  directories : ∀ p ∈ keys, t.absolute (String.ofList (Path.directory p.toList)) = String.ofList (Path.directory p.toList)
  seen : ∀ p, p ∈ run.cache.seen ↔ p ∈ c.seen ∨ p ∈ keys
  inProgress : run.cache.inProgress.Perm c.inProgress
  events : ∀ e ∈ run.events, e.Keyed t includes keys run.cache.seen
  failure : ∀ e, run.result = .error e → BlamesKeys t includes keys c.inProgress e
  files : ∀ schema, run.result = .ok schema → schema.nodes.map (·.file) = keys.map some

theorem keyed_build (t : FileTree) (includes : List String) (path : String) (c : Cache) :
    Keyed t includes path c (loads (build t includes path c).events) (build t includes path c) := by
  obtain ⟨hp, hs, imports, hl, -, -⟩ := takesUp_build t includes path c
  obtain ⟨result, d, events, stack, hm, hb, -⟩ := exists_composes_build t includes path c
  obtain ⟨hevents, hfailure⟩ := hm.keyed (t.absolute_absolute path) (c.inProgress_entered (t.absolute path))
  have hnormal : ∀ p ∈ loads (build t includes path c).events, t.absolute p = p := by
    intro p hp
    rw [hb] at hp
    exact (hevents _ (mem_loads_iff.mp hp)).2
  refine ⟨?_, rfl, hnormal, fun p hp schema h => ?_, fun p hp => FileTree.absolute_directory (hnormal p hp), hs, hp,
    ?_, ?_, fun schema h => files_build h⟩
  · rw [hl, List.head?_cons]
  · rw [file_of_load h, hnormal p hp]
  · rw [hb]
    exact hevents
  · rw [hb]
    exact hfailure

theorem resolves_and_keyed : (∀ t includes base ref, Resolves t includes base ref (resolve t includes base ref)) ∧
    ∀ t includes path c, ∃ keys, Keyed t includes path c keys (build t includes path c) :=
  ⟨resolves_resolve, fun t includes path c => ⟨_, keyed_build t includes path c⟩⟩

end Keys

end Composition

end ProtoBundle
