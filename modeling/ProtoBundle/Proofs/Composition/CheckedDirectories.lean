import ProtoBundle.Proofs.Composition.Spellings

/-!
Include directories. A path is followed component by component, from the root or from the working directory, and
every step is taken in a directory; its absolute form is made from the text alone. The two meet: where a path leads
to a directory, its absolute form leads straight down to the same one.
-/

namespace ProtoBundle

namespace FileTree

open ProtoBundle.Path (Component components normalComponents)

variable {t : FileTree} {place mid target : List Component} {cs front back : List Component} {node : Node}

def IsDirectoryAt (t : FileTree) (place : List Component) : Prop := t.node? place = some .directory

inductive Follows (t : FileTree) : List Component → List Component → List Component → Prop where
  | done {place : List Component} : Follows t place [] place
  | stay {place target cs : List Component} {c : Component} (hd : t.IsDirectoryAt place) (hc : c = [] ∨ c = ['.'])
      (h : Follows t place cs target) : Follows t place (c :: cs) target
  | up {place target cs : List Component} (hd : t.IsDirectoryAt place) (h : Follows t place.dropLast cs target) :
      Follows t place (['.', '.'] :: cs) target
  | down {place target cs : List Component} {c : Component} (hd : t.IsDirectoryAt place) (hc : Path.Proper c)
      (he : (t.node? (place ++ [c])).isSome) (h : Follows t (place ++ [c]) cs target) : Follows t place (c :: cs) target

theorem Follows.eq_foldl (h : t.Follows place cs target) : target = cs.foldl Path.step place := by
  induction h with
  | done => rfl
  | stay _ hc _ ih => rw [List.foldl_cons, Path.step, if_pos hc, ← ih]
  | up _ _ ih =>
      rw [List.foldl_cons, ih]
      rfl
  | down _ hc _ _ ih => rw [List.foldl_cons, Path.step_of_proper hc, ← ih]

theorem isSome_node?_of_walk (h : t.walk place cs = .found node) : (t.node? place).isSome := by
  cases cs <;> simp only [walk] at h <;> split at h <;> simp_all

theorem Follows.of_walk (hcs : ∀ c ∈ cs, '/' ∉ c) (h : t.walk place cs = .found node) :
    ∃ target, t.Follows place cs target ∧ t.node? target = some node := by
  induction cs generalizing place with
  | nil =>
      simp only [walk] at h
      split at h
      · cases h
        exact ⟨place, .done, ‹_›⟩
      · cases h
  | cons c cs ih =>
      obtain ⟨hc, hcs⟩ := List.forall_mem_cons.mp hcs
      simp only [walk] at h
      split at h
      · cases h
      · cases h
      · rename_i hd
        obtain ⟨target, hf, ht⟩ := ih hcs h
        refine ⟨target, ?_, ht⟩
        have he := isSome_node?_of_walk h
        by_cases hs : c = [] ∨ c = ['.']
        · rw [Path.step, if_pos hs] at hf
          exact .stay hd hs hf
        · by_cases hu : c = ['.', '.']
          · subst hu
            exact .up hd hf
          · obtain ⟨hn, hdot⟩ := not_or.mp hs
            have hp : Path.Proper c := ⟨hn, hdot, hu, hc⟩
            rw [Path.step_of_proper hp] at hf he
            exact .down hd hp he hf

theorem Follows.walk_eq (h : t.Follows place cs target) (hn : t.node? target = some node) :
    t.walk place cs = .found node := by
  induction h with
  | done => simp only [walk, hn]
  | stay hd hc _ ih =>
      rw [IsDirectoryAt] at hd
      simp only [walk, hd, Path.step, if_pos hc, ih hn]
  | up hd _ ih =>
      rw [IsDirectoryAt] at hd
      simp only [walk, hd]
      exact ih hn
  | down hd hc _ _ ih =>
      rw [IsDirectoryAt] at hd
      simp only [walk, hd, Path.step_of_proper hc, ih hn]

theorem Follows.append (h : t.Follows place front mid) (hb : t.Follows mid back target) :
    t.Follows place (front ++ back) target := by
  induction h with
  | done => exact hb
  | stay hd hc _ ih => exact .stay hd hc (ih hb)
  | up hd _ ih => exact .up hd (ih hb)
  | down hd hc he _ ih => exact .down hd hc he (ih hb)

theorem Follows.split (h : t.Follows place (front ++ back) target) :
    ∃ mid, t.Follows place front mid ∧ t.Follows mid back target := by
  induction front generalizing place with
  | nil => exact ⟨place, .done, h⟩
  | cons c front ih =>
      rw [List.cons_append] at h
      cases h with
      | stay hd hc h =>
          obtain ⟨mid, hf, hb⟩ := ih h
          exact ⟨mid, .stay hd hc hf, hb⟩
      | up hd h =>
          obtain ⟨mid, hf, hb⟩ := ih h
          exact ⟨mid, .up hd hf, hb⟩
      | down hd hc he h =>
          obtain ⟨mid, hf, hb⟩ := ih h
          exact ⟨mid, .down hd hc he hf, hb⟩

theorem Follows.append_iff (h : t.Follows place front mid) :
    t.Follows place (front ++ back) target ↔ t.Follows mid back target := by
  constructor
  · intro hb
    obtain ⟨other, ho, hb⟩ := hb.split
    rwa [h.eq_foldl, ← ho.eq_foldl]
  · exact h.append

def Rooted (t : FileTree) (place : List Component) : Prop :=
  ∀ above, above <+: place → above ≠ place → t.IsDirectoryAt above

theorem rooted_nil : t.Rooted [] := fun _ ha hn => absurd (List.prefix_nil.mp ha) hn

theorem Rooted.up (h : t.Rooted place) : t.Rooted place.dropLast := by
  intro above ha hn
  refine h above (ha.trans (List.dropLast_prefix place)) ?_
  rintro rfl
  exact hn (ha.eq_of_length_le (by simp))

theorem Rooted.down {c : Component} (h : t.Rooted place) (hd : t.IsDirectoryAt place) : t.Rooted (place ++ [c]) := by
  intro above ha hn
  rcases List.prefix_concat_iff.mp ha with rfl | ha
  · exact absurd rfl hn
  · by_cases he : above = place
    · exact he ▸ hd
    · exact h above ha he

theorem Follows.rooted (h : t.Follows place cs target) : t.Rooted place → t.Rooted target := by
  induction h with
  | done => exact id
  | stay _ _ _ ih => exact ih
  | up _ _ ih => exact fun hr => ih hr.up
  | down hd _ _ _ ih => exact fun hr => ih (hr.down hd)

theorem Rooted.follows (hr : t.Rooted (front ++ back)) (hp : ∀ c ∈ back, Path.Proper c)
    (hn : (t.node? (front ++ back)).isSome) : t.Follows front back (front ++ back) := by
  induction back generalizing front with
  | nil =>
      rw [List.append_nil]
      exact .done
  | cons c back ih =>
      obtain ⟨hc, hp⟩ := List.forall_mem_cons.mp hp
      have hd : t.IsDirectoryAt front := hr front (List.prefix_append _ _) (by simp)
      have hsplit : front ++ c :: back = front ++ [c] ++ back := by simp
      rw [hsplit] at hr hn ⊢
      refine .down hd hc ?_ (ih hr hp hn)
      cases back with
      | nil => rwa [List.append_nil] at hn
      | cons d back =>
          have hbelow : t.IsDirectoryAt (front ++ [c]) := hr _ (List.prefix_append _ _) (by simp)
          rw [hbelow]
          rfl

structure StandsInDirectory (t : FileTree) : Prop where
  absolute : Path.isAbsolute t.working = true
  found : t.lookup t.working = .found .directory

def here (t : FileTree) : List Component := normalComponents t.working

def start (t : FileTree) (path : String) : List Component := if Path.isAbsolute path.toList then [] else t.here

structure Denotes (t : FileTree) (path : String) (place : List Component) : Prop where
  nonempty : path.toList ≠ []
  noNull : '\x00' ∉ path.toList
  follows : t.Follows (t.start path) (components path.toList) place

def DenotesDirectory (t : FileTree) (path : String) (place : List Component) : Prop :=
  t.Denotes path place ∧ t.IsDirectoryAt place

theorem slash_not_mem_components (cs : List Char) : ∀ c ∈ components cs, '/' ∉ c :=
  fun _ h => Text.not_mem_of_mem_splitOn h

namespace StandsInDirectory

theorem noNull (h : t.StandsInDirectory) : '\x00' ∉ t.working := by
  intro hm
  have hf := h.found
  rw [lookup, if_pos (.inr hm)] at hf
  cases hf

theorem follows_here (h : t.StandsInDirectory) : t.Follows [] (components t.working) t.here := by
  have hf := h.found
  rw [lookup] at hf
  split at hf
  · cases hf
  · rw [if_pos h.absolute] at hf
    obtain ⟨target, ht, -⟩ := Follows.of_walk (slash_not_mem_components _) hf
    rwa [ht.eq_foldl] at ht

theorem rooted_here (h : t.StandsInDirectory) : t.Rooted t.here := h.follows_here.rooted rooted_nil

theorem exists_front (h : t.StandsInDirectory) {cs : List Char} (hr : Path.isAbsolute cs = false) :
    ∃ front, t.Follows [] front t.here ∧ components (Path.append t.working cs) = front ++ components cs := by
  have hne : t.working ≠ [] := by
    intro hn
    have ha := h.absolute
    rw [hn] at ha
    cases ha
  rw [Path.append, if_neg (by simp [hr])]
  split
  · rename_i hl
    -- behind a slash at the end there is an empty component, on which the walk stays
    obtain ⟨front, hw⟩ := List.getLast?_eq_some_iff.mp (hl.resolve_left hne)
    have hc : components t.working = components front ++ [[]] := by
      rw [hw]
      exact Text.splitOn_append '/' front []
    obtain ⟨mid, hm, hs⟩ := (hc ▸ h.follows_here).split
    have hmid : mid = t.here := hs.eq_foldl.symm
    refine ⟨components front, hmid ▸ hm, ?_⟩
    rw [hw, List.append_assoc]
    exact Text.splitOn_append '/' front cs
  · exact ⟨components t.working, h.follows_here, Text.splitOn_append '/' t.working cs⟩

theorem follows_seen_iff (h : t.StandsInDirectory) (path : String) :
    t.Follows [] (components (t.seen path)) target ↔ t.Follows (t.start path) (components path.toList) target := by
  unfold seen start
  by_cases ha : Path.isAbsolute path.toList = true
  · rw [if_pos ha, if_pos ha]
  · obtain ⟨front, hf, hc⟩ := h.exists_front (Bool.eq_false_iff.mpr ha)
    rw [if_neg ha, if_neg ha, hc]
    exact hf.append_iff

theorem lookup_eq_iff (h : t.StandsInDirectory) (path : String) :
    t.lookup path.toList = .found node ↔ ∃ place, t.Denotes path place ∧ t.node? place = some node := by
  have hseen : t.lookup path.toList =
      if path.toList = [] ∨ '\x00' ∈ path.toList then .missing else t.walk [] (components (t.seen path)) := rfl
  rw [hseen]
  constructor
  · intro hl
    split at hl
    · cases hl
    · rename_i hn
      obtain ⟨hne, hnull⟩ := not_or.mp hn
      obtain ⟨place, hf, hp⟩ := Follows.of_walk (slash_not_mem_components _) hl
      exact ⟨place, ⟨hne, hnull, (h.follows_seen_iff path).mp hf⟩, hp⟩
  · rintro ⟨place, hd, hp⟩
    rw [if_neg (not_or.mpr ⟨hd.nonempty, hd.noNull⟩)]
    exact ((h.follows_seen_iff path).mpr hd.follows).walk_eq hp

theorem isDirectory_iff (h : t.StandsInDirectory) (path : String) :
    t.isDirectory path = true ↔ ∃ place, t.DenotesDirectory path place := by
  rw [isDirectory, beq_iff_eq, h.lookup_eq_iff]
  rfl

end StandsInDirectory

theorem mem_foldl_step {c : Component} (h : c ∈ cs.foldl Path.step place) : c ∈ place ∨ c ∈ cs := by
  induction cs generalizing place with
  | nil => exact .inl h
  | cons d cs ih =>
      rcases ih h with h | h
      · unfold Path.step at h
        split at h
        · exact .inl h
        · split at h
          · exact .inl (List.dropLast_subset place h)
          · rcases List.mem_append.mp h with h | h
            · exact .inl h
            · exact .inr (List.mem_singleton.mp h ▸ List.mem_cons_self)
      · exact .inr (List.mem_cons_of_mem d h)

theorem mem_normal {path : List Char} {c : Char} (h : c ∈ Path.normal path) : c = '/' ∨ c ∈ path := by
  rcases List.mem_append.mp h with h | h
  · rcases Path.isRoot_root path with hr | hr <;> rw [hr] at h <;> simp_all
  · rcases Text.mem_join h with h | ⟨piece, hp, hc⟩
    · exact .inl (List.mem_singleton.mp h)
    · have hm : piece ∈ components path := (mem_foldl_step hp).resolve_left List.not_mem_nil
      refine .inr ?_
      rw [← Text.join_splitOn '/' path]
      exact Text.mem_join_of_mem hm hc

theorem Denotes.place_eq (h : t.StandsInDirectory) {path : String} (hd : t.Denotes path place) :
    t.place path = place :=
  ((h.follows_seen_iff path).mpr hd.follows).eq_foldl.symm

theorem StandsInDirectory.noNull_seen (h : t.StandsInDirectory) {path : String} (hp : '\x00' ∉ path.toList) :
    '\x00' ∉ t.seen path := by
  unfold seen Path.append
  split
  · exact hp
  · split
    · exact List.not_mem_append h.noNull hp
    · simp [h.noNull, hp]

theorem follows_components_normal {r : List Char} (hr : Path.IsRoot r) (hp : ∀ c ∈ place, Path.Proper c)
    (hroot : t.Rooted place) (hd : t.IsDirectoryAt place) :
    t.Follows [] (components (r ++ Text.join ['/'] place)) place := by
  have htop : t.IsDirectoryAt [] := rfl
  have hdown : t.Follows [] (components (Text.join ['/'] place)) place := by
    by_cases hne : place = []
    · subst hne
      exact .stay htop (.inl rfl) .done
    · rw [components, Text.splitOn_join hne fun c hc => (hp c hc).2.2.2]
      have hall : t.Rooted ([] ++ place) := hroot
      exact hall.follows hp (by rw [List.nil_append, hd]; rfl)
  rcases hr with rfl | rfl
  · exact .stay htop (.inl rfl) hdown
  · exact .stay htop (.inl rfl) (.stay htop (.inl rfl) hdown)

theorem DenotesDirectory.absolute (h : t.StandsInDirectory) {path : String} (hd : t.DenotesDirectory path place) :
    t.DenotesDirectory (t.absolute path) place := by
  obtain ⟨hd, hdir⟩ := hd
  have hlist : (t.absolute path).toList = Path.root (t.seen path) ++ Text.join ['/'] place := by
    rw [toList_absolute, Path.normal, ← hd.place_eq h]
    rfl
  have habs : Path.isAbsolute (t.absolute path).toList = true := by
    rw [toList_absolute]
    exact Path.isAbsolute_normal _
  have hproper : ∀ c ∈ place, Path.Proper c := by
    rw [← hd.place_eq h]
    exact Path.proper_normalComponents
  have hroot : t.Rooted place := by
    refine hd.follows.rooted ?_
    unfold start
    split
    · exact rooted_nil
    · exact h.rooted_here
  refine ⟨⟨?_, ?_, ?_⟩, hdir⟩
  · intro hn
    rw [hn] at habs
    cases habs
  · rw [toList_absolute]
    intro hm
    rcases mem_normal hm with hm | hm
    · cases hm
    · exact h.noNull_seen hd.noNull hm
  · rw [start, if_pos habs, hlist]
    exact follows_components_normal (Path.isRoot_root _) hproper hroot hdir

end FileTree

namespace Composition

open FileTree (DenotesDirectory StandsInDirectory)

variable {t : FileTree} {ds : List String}

theorem checkDirectories_append {front : List String} (hf : ∀ d ∈ front, t.isDirectory d = true) (ds : List String) :
    checkDirectories t (front ++ ds) = (checkDirectories t ds).map (front.map t.absolute ++ ·) := by
  induction front with
  | nil => cases hk : checkDirectories t ds <;> simp [hk, Except.map]
  | cons d front ih =>
      obtain ⟨hd, hf⟩ := List.forall_mem_cons.mp hf
      rw [List.cons_append, checkDirectories, if_pos hd, ih hf]
      cases checkDirectories t ds <;> rfl

theorem checkDirectories_of_forall (h : ∀ d ∈ ds, t.isDirectory d = true) :
    checkDirectories t ds = .ok (ds.map t.absolute) := by
  have hk := checkDirectories_append h []
  rw [List.append_nil] at hk
  rw [hk]
  exact congrArg Except.ok (List.append_nil _)

theorem checkDirectories_of_first {front : List String} {d : String} (hf : ∀ b ∈ front, t.isDirectory b = true)
    (hd : t.isDirectory d = false) (back : List String) :
    checkDirectories t (front ++ d :: back) = .error (.missingDirectory d) := by
  rw [checkDirectories_append hf, checkDirectories, hd, if_neg Bool.false_ne_true]
  rfl

theorem checkDirectories_cases (t : FileTree) (ds : List String) :
    (∀ d ∈ ds, t.isDirectory d = true) ∧ checkDirectories t ds = .ok (ds.map t.absolute) ∨
    ∃ front d back, ds = front ++ d :: back ∧ (∀ b ∈ front, t.isDirectory b = true) ∧ t.isDirectory d = false ∧
      checkDirectories t ds = .error (.missingDirectory d) := by
  have hsplit : ds.takeWhile t.isDirectory ++ ds.dropWhile t.isDirectory = ds := List.takeWhile_append_dropWhile
  have hfront : ∀ b ∈ ds.takeWhile t.isDirectory, t.isDirectory b = true := fun _ hb => List.mem_takeWhile_imp hb
  cases hrest : ds.dropWhile t.isDirectory with
  | nil =>
      have hall : ∀ d ∈ ds, t.isDirectory d = true := List.dropWhile_eq_nil_iff.mp hrest
      exact .inl ⟨hall, checkDirectories_of_forall hall⟩
  | cons d back =>
      have hd : t.isDirectory d = false := by
        have hne : ds.dropWhile t.isDirectory ≠ [] := by simp [hrest]
        have hh := List.head_dropWhile_not t.isDirectory hne
        simp only [hrest, List.head_cons] at hh
        exact hh
      rw [hrest] at hsplit
      exact .inr ⟨_, d, back, hsplit.symm, hfront, hd, hsplit ▸ checkDirectories_of_first hfront hd back⟩

theorem checkDirectories_eq_ok_iff {rs : List String} :
    checkDirectories t ds = .ok rs ↔ (∀ d ∈ ds, t.isDirectory d = true) ∧ rs = ds.map t.absolute := by
  constructor
  · intro h
    rcases checkDirectories_cases t ds with ⟨hall, hk⟩ | ⟨_, _, _, -, -, -, hk⟩ <;> rw [hk] at h <;> cases h
    exact ⟨hall, rfl⟩
  · rintro ⟨hall, rfl⟩
    exact checkDirectories_of_forall hall

theorem checkDirectories_eq_error_iff {e : Failure} :
    checkDirectories t ds = .error e ↔ ∃ front d back, ds = front ++ d :: back ∧
      (∀ b ∈ front, t.isDirectory b = true) ∧ t.isDirectory d = false ∧ e = .missingDirectory d := by
  constructor
  · intro h
    rcases checkDirectories_cases t ds with ⟨-, hk⟩ | ⟨front, d, back, hds, hf, hd, hk⟩ <;> rw [hk] at h <;> cases h
    exact ⟨front, d, back, hds, hf, hd, rfl⟩
  · rintro ⟨front, d, back, rfl, hf, hd, rfl⟩
    exact checkDirectories_of_first hf hd back

theorem checkDirectories_denotes (h : t.StandsInDirectory) (ds : List String) :
    ((∃ rs, checkDirectories t ds = .ok rs) ↔ ∀ d ∈ ds, ∃ place, t.DenotesDirectory d place) ∧
    (∀ e, checkDirectories t ds = .error e ↔ ∃ front d back, ds = front ++ d :: back ∧
      (∀ b ∈ front, ∃ place, t.DenotesDirectory b place) ∧ (¬∃ place, t.DenotesDirectory d place) ∧
      e = .missingDirectory d) ∧
    ∀ rs, checkDirectories t ds = .ok rs →
      List.Forall₂ (fun d r => t.absolute r = r ∧ ∃ place, t.DenotesDirectory d place ∧ t.DenotesDirectory r place)
        ds rs ∧
      checkDirectories t rs = .ok rs := by
  have hdir (d : String) : t.isDirectory d = true ↔ ∃ place, t.DenotesDirectory d place := h.isDirectory_iff d
  refine ⟨?_, fun e => ?_, fun rs hk => ?_⟩
  · simp only [checkDirectories_eq_ok_iff, hdir, exists_and_left, exists_eq, and_true]
  · simp only [checkDirectories_eq_error_iff, ← hdir, Bool.not_eq_true]
  · obtain ⟨hall, rfl⟩ := checkDirectories_eq_ok_iff.mp hk
    have hboth : ∀ d ∈ ds, ∃ place, t.DenotesDirectory d place ∧ t.DenotesDirectory (t.absolute d) place := by
      intro d hd
      obtain ⟨place, hp⟩ := (hdir d).mp (hall d hd)
      exact ⟨place, hp, hp.absolute h⟩
    constructor
    · rw [List.forall₂_map_right_iff]
      exact List.forall₂_same.mpr fun d hd => ⟨t.absolute_absolute d, hboth d hd⟩
    · refine checkDirectories_eq_ok_iff.mpr ⟨List.forall_mem_map.mpr fun d hd => ?_, ?_⟩
      · obtain ⟨place, -, hp⟩ := hboth d hd
        exact (hdir _).mpr ⟨place, hp⟩
      · rw [List.map_map]
        exact List.map_congr_left fun d _ => (t.absolute_absolute d).symm

def nestedDirectories : FileTree := ((FileTree.empty "/w".toList).addDirectory "/w/x").write "/w/f" []

theorem checkDirectories_denotes_roundabout :
    List.Forall₂ (fun d r => nestedDirectories.absolute r = r ∧
      ∃ place, nestedDirectories.DenotesDirectory d place ∧ nestedDirectories.DenotesDirectory r place)
      ["x/../x/", "//w/./x//"] ["/w/x", "//w/x"] ∧
    nestedDirectories.absolute "f/.." = "/w" ∧ ¬∃ place, nestedDirectories.DenotesDirectory "f/.." place := by
  have h : nestedDirectories.StandsInDirectory := ⟨rfl, by decide +kernel⟩
  have hp : checkDirectories nestedDirectories ["x/../x/", "//w/./x//"] = .ok ["/w/x", "//w/x"] := by decide +kernel
  have hf : checkDirectories nestedDirectories ["f/.."] = .error (.missingDirectory "f/..") := by decide +kernel
  refine ⟨((checkDirectories_denotes h _).2.2 _ hp).1, by decide +kernel, fun hd => ?_⟩
  obtain ⟨rs, hok⟩ := (checkDirectories_denotes h ["f/.."]).1.mpr (List.forall_mem_singleton.mpr hd)
  rw [hf] at hok
  cases hok

end Composition

end ProtoBundle
