import Mathlib.Data.List.DropRight
import ProtoBundle.Proofs.Composition.Inlining

/-!
Paths that lead to one file. A path in normal form is given by the place it leads to and by its leading slashes, of
which there are one or two. So a composition reads a file at most twice, under two paths that differ in one leading
slash, and only once if nothing is spelled with exactly two of them.
-/

namespace ProtoBundle

namespace Path

def StartsDoubled (cs : List Char) : Prop := ['/', '/'] <+: cs

theorem startsDoubled_cons_cons {a b : Char} {cs : List Char} : StartsDoubled (a :: b :: cs) ↔ a = '/' ∧ b = '/' := by
  simp [StartsDoubled, eq_comm]

theorem not_startsDoubled_singleton (c : Char) : ¬StartsDoubled [c] := by
  simp [StartsDoubled]

theorem isAbsolute_of_startsDoubled {cs : List Char} (h : StartsDoubled cs) : isAbsolute cs = true := by
  obtain ⟨ds, rfl⟩ := h
  rfl

theorem root_of_not_startsDoubled {cs : List Char} (h : ¬StartsDoubled cs) : root cs = ['/'] := by
  unfold root
  split
  · rfl
  · exact absurd (startsDoubled_cons_cons.mpr ⟨rfl, rfl⟩) h
  · rfl

theorem not_startsDoubled_normal {cs : List Char} (h : root cs = ['/']) : ¬StartsDoubled (normal cs) := by
  rintro ⟨ds, hd⟩
  have hs : '/' :: ds = Text.join ['/'] (normalComponents cs) := by
    rw [normal, h] at hd
    exact (List.cons.inj hd).2
  exact join_of_proper proper_normalComponents '/' (by rw [← hs]; rfl) rfl

theorem not_startsDoubled_append {base cs : List Char} (hb : ¬StartsDoubled base) (hc : isAbsolute cs = false) :
    ¬StartsDoubled (append base cs) := by
  have hn : ¬StartsDoubled cs := fun h => by rw [isAbsolute_of_startsDoubled h] at hc; cases hc
  rw [append, hc, if_neg Bool.false_ne_true]
  match base with
  | [] => exact hn
  | [b] =>
      split
      · cases cs with
        | nil => exact not_startsDoubled_singleton b
        | cons c cs =>
            intro h
            obtain ⟨-, rfl⟩ := startsDoubled_cons_cons.mp h
            cases hc
      · rename_i hs
        intro h
        obtain ⟨rfl, -⟩ := startsDoubled_cons_cons.mp h
        exact hs (.inr rfl)
  | a :: b :: bs =>
      intro h
      refine hb (startsDoubled_cons_cons.mpr ?_)
      split at h <;> exact startsDoubled_cons_cons.mp h

theorem directory_initial (cs : List Char) : directory cs <+: cs := by
  have hh : cs.rdropWhile (· != '/') <+: cs := List.rdropWhile_prefix _ _
  unfold directory
  dsimp only
  split
  · exact hh
  · exact (List.rdropWhile_prefix (· == '/') _).trans hh

theorem not_startsDoubled_directory {cs : List Char} (h : ¬StartsDoubled cs) : ¬StartsDoubled (directory cs) :=
  fun hd => h (hd.trans (directory_initial cs))

theorem root_normal (cs : List Char) : root (normal cs) = root cs :=
  root_append (isRoot_root cs) (join_of_proper proper_normalComponents)

theorem isAbsolute_iff {cs : List Char} : isAbsolute cs = true ↔ cs.head? = some '/' := by
  unfold isAbsolute
  split
  · simp
  · rename_i hn
    simp only [Bool.false_eq_true, false_iff]
    intro h
    obtain ⟨ds, rfl⟩ := List.head?_eq_some_iff.mp h
    exact hn ds rfl

theorem isAbsolute_directory {cs : List Char} (h : isAbsolute cs = true) : isAbsolute (directory cs) = true := by
  have hne : directory cs ≠ [] := by
    have hh : cs.rdropWhile (· != '/') ≠ [] := by
      obtain ⟨ds, rfl⟩ := List.head?_eq_some_iff.mp (isAbsolute_iff.mp h)
      rw [Ne, List.rdropWhile_eq_nil_iff]
      exact fun hall => absurd (hall '/' (List.mem_cons_self ..)) (by decide)
    unfold directory
    dsimp only
    split
    · exact hh
    · rename_i hall
      intro hn
      exact hall (List.all_eq_true.mpr (List.rdropWhile_eq_nil_iff.mp hn))
  obtain ⟨rest, hr⟩ := directory_initial cs
  rw [isAbsolute_iff, ← hr, List.head?_append_of_ne_nil _ hne] at h
  exact isAbsolute_iff.mpr h

end Path

namespace FileTree

variable {t : FileTree}

def seen (t : FileTree) (path : String) : List Char :=
  if Path.isAbsolute path.toList then path.toList else Path.append t.working path.toList

def place (t : FileTree) (path : String) : List Path.Component := Path.normalComponents (t.seen path)

structure SameFile (t : FileTree) (p q : String) : Prop where
  left : t.isPresent p = true
  right : t.isPresent q = true
  place : t.place p = t.place q

theorem toList_absolute (path : String) : (t.absolute path).toList = Path.normal (t.seen path) := String.toList_ofList

theorem toList_of_absolute {p : String} (hp : t.absolute p = p) :
    p.toList = Path.root p.toList ++ Text.join ['/'] (t.place p) := by
  have h : p.toList = Path.normal (t.seen p) := (congrArg String.toList hp.symm).trans (toList_absolute p)
  conv_lhs => rw [h]
  rw [h, Path.root_normal]
  rfl

theorem eq_or_of_place {p q : String} (hp : t.absolute p = p) (hq : t.absolute q = q) (h : t.place p = t.place q) :
    p = q ∨ q = "/" ++ p ∨ p = "/" ++ q := by
  have hpl := toList_of_absolute hp
  have hql := toList_of_absolute hq
  rw [← h] at hql
  rcases Path.isRoot_root p.toList with hr | hr <;> rcases Path.isRoot_root q.toList with hs | hs
  · exact .inl (String.toList_inj.mp (by rw [hpl, hql, hr, hs]))
  · exact .inr (.inl (String.toList_inj.mp (by rw [hql, String.toList_append, hpl, hr, hs]; rfl)))
  · exact .inr (.inr (String.toList_inj.mp (by rw [hpl, String.toList_append, hql, hr, hs]; rfl)))
  · exact .inl (String.toList_inj.mp (by rw [hpl, hql, hr, hs]))

end FileTree

namespace Composition

variable {t : FileTree} {includes : List String}

structure Undoubled (t : FileTree) (includes : List String) (path : String) : Prop where
  start : Path.root (t.seen path) = ['/']
  directories : ∀ d ∈ includes, Path.root (t.seen d) = ['/']
  references : ∀ p ref, Reachable t includes (t.absolute path) p → Declares t p ref → Path.root ref.toList = ['/']

theorem not_startsDoubled_candidate {base ref : String} (hb : Path.root (t.seen base) = ['/'])
    (hr : Path.root ref.toList = ['/']) : ¬Path.StartsDoubled (candidate t base ref).toList := by
  rw [candidate, String.toList_ofList]
  refine Path.not_startsDoubled_normal ?_
  by_cases ha : Path.isAbsolute ref.toList = true
  · rwa [Path.append, if_pos ha]
  · have hd : ¬Path.StartsDoubled (Path.absolute t.working base.toList) := Path.not_startsDoubled_normal hb
    exact Path.root_of_not_startsDoubled (Path.not_startsDoubled_append hd (Bool.eq_false_iff.mpr ha))

theorem Undoubled.not_startsDoubled {path p : String} (h : Undoubled t includes path)
    (hp : Reachable t includes (t.absolute path) p) : ¬Path.StartsDoubled p.toList := by
  induction hp with
  | refl =>
      rw [FileTree.toList_absolute]
      exact Path.not_startsDoubled_normal h.start
  | @tail p q hp he ih =>
      obtain ⟨ref, hd, rfl⟩ := he
      obtain ⟨base, hb, hc⟩ := List.mem_map.mp
        (mem_candidates_resolve t includes (String.ofList (Path.directory p.toList)) ref)
      rw [target, ← hc]
      refine not_startsDoubled_candidate ?_ (h.references p ref hp hd)
      rcases List.mem_cons.mp hb with rfl | hb
      · have hpl : p.toList = Path.normal (t.seen p) := by
          conv_lhs => rw [← absolute_of_reachable (t.absolute_absolute path) hp]
          exact FileTree.toList_absolute p
        have ha : Path.isAbsolute (Path.directory p.toList) = true :=
          Path.isAbsolute_directory (hpl ▸ Path.isAbsolute_normal _)
        rw [FileTree.seen, String.toList_ofList, if_pos ha]
        exact Path.root_of_not_startsDoubled (Path.not_startsDoubled_directory ih)
      · exact h.directories base hb

theorem nodes_of_build {path : String} {schema : Schema} (h : (build t includes path .empty).result = .ok schema) :
    ∃ paths : List String, schema.nodes.map (·.file) = paths.map some ∧ paths.Nodup ∧
      ∀ p ∈ paths, Reachable t includes (t.absolute path) p := by
  obtain ⟨result, d, events, hm, hb⟩ := build_spec t includes path Cache.consistent_empty
  rw [hb] at h
  cases h
  have hr := t.absolute_absolute path
  generalize t.absolute path = root at hm hr
  rw [Cache.entered_empty] at hm
  obtain ⟨loaded, imports, events', hl, rfl, rfl, hi⟩ := hm.inlines
  have hf : (loaded.withImports imports).file = some root := (file_of_load hl).trans (congrArg some hr)
  have ht := TakesUp.cons List.not_mem_nil hi.takesUp
  refine ⟨root :: loads events', ?_, ht.nodup, fun p hp => (hi.mem_iff_reachable hl p).mp hp⟩
  simp [hf, hi.files]

theorem spellings_of_build {path : String} {schema : Schema}
    (h : (build t includes path .empty).result = .ok schema) :
    ∃ paths : List String, schema.nodes.map (·.file) = paths.map some ∧
      paths.Pairwise (fun p q => t.SameFile p q → q = "/" ++ p ∨ p = "/" ++ q) ∧
      (Undoubled t includes path → paths.Pairwise fun p q => ¬t.SameFile p q) := by
  obtain ⟨paths, hf, hn, hr⟩ := nodes_of_build h
  have habs : ∀ p ∈ paths, t.absolute p = p := fun p hp =>
    absolute_of_reachable (t.absolute_absolute path) (hr p hp)
  have hone : paths.Pairwise fun p q => t.SameFile p q → q = "/" ++ p ∨ p = "/" ++ q := by
    refine hn.imp_of_mem fun {p q} hp hq hne hs => ?_
    exact (FileTree.eq_or_of_place (habs p hp) (habs q hq) hs.place).resolve_left hne
  refine ⟨paths, hf, hone, fun hu => hone.imp_of_mem fun {p q} hp hq hs hsame => ?_⟩
  have hslash : ∀ {p q : String}, p ∈ paths → q ∈ paths → q ≠ "/" ++ p := by
    rintro p _ hp hq rfl
    refine hu.not_startsDoubled (hr _ hq) ?_
    rw [String.toList_append, FileTree.toList_of_absolute (habs p hp)]
    rcases Path.isRoot_root p.toList with hr | hr <;> rw [hr] <;> exact ⟨_, rfl⟩
  exact (hs hsame).elim (hslash hp hq) (hslash hq hp)

def doubledImports : FileTree :=
  ((FileTree.empty ['/']).write "/a" "import\"//b\";import\"/b\";".toUTF8.toList).write "/b" []

theorem spellings_of_doubled_slash : ∃ schema, (build doubledImports [] "a" .empty).result = .ok schema ∧
    schema.nodes.map (·.file) = ["/a", "//b", "/b"].map some ∧ doubledImports.SameFile "//b" "/b" ∧
    ∃ paths : List String, schema.nodes.map (·.file) = paths.map some ∧
      paths.Pairwise (fun p q => doubledImports.SameFile p q → q = "/" ++ p ∨ p = "/" ++ q) := by
  have hf : ((build doubledImports [] "a" .empty).result.toOption.map fun s => s.nodes.map (·.file)) =
      some (["/a", "//b", "/b"].map some) := by decide +kernel
  obtain ⟨schema, hs, hn⟩ := Option.map_eq_some_iff.mp hf
  cases hr : (build doubledImports [] "a" .empty).result with
  | error e =>
      rw [hr] at hs
      cases hs
  | ok s =>
      rw [hr] at hs
      cases hs
      obtain ⟨paths, hp, hone, -⟩ := spellings_of_build hr
      exact ⟨schema, rfl, hn, ⟨by decide +kernel, by decide +kernel, by decide +kernel⟩, paths, hp, hone⟩

end Composition

end ProtoBundle
