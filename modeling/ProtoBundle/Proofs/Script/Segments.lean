import Mathlib.Data.List.Infix
import ProtoBundle.Proofs.Namespace.Places
import ProtoBundle.Proofs.Rendering.Enclosure

/-!
Namespaces in scripts. The parts that a namespace is looked up by, the segments that globals are named after and the
pieces of the name of a module are the same. Any text but the empty one has the same parts and segments. The name of a
module differs from them only behind a slash in front, which no namespace has.
-/

namespace ProtoBundle

open Namespace (SpelledBehindDot isSegment)

section Spelling

variable {segs : List String} {name : String}

theorem Namespace.ne_empty_of_isSegment {segment : String} (h : isSegment segment.toList = true) : segment ≠ "" := by
  rintro rfl
  cases h

theorem Namespace.slash_not_mem_of_isSegment {cs : List Char} (h : isSegment cs = true) : '/' ∉ cs :=
  fun hm => absurd ((isSegment_iff.mp h).2 '/' hm) (by decide)

theorem Namespace.SpelledBehindDot.whole (h : SpelledBehindDot segs name) :
    ∀ segment ∈ segs, Namespace.isSegment segment.toList = true := by
  rcases h with h | ⟨rest, -, h⟩ <;> exact h.whole

theorem Namespace.SpelledBehindDot.ne_empty (h : SpelledBehindDot segs name) : name ≠ "" := by
  rintro rfl
  cases h.isDotted

theorem Namespace.SpelledBehindDot.slash_not_mem (h : SpelledBehindDot segs name) : '/' ∉ name.toList := by
  have hslash : ¬(isSegmentChar '/' = true ∨ '/' = '.') := by decide
  rcases h with h | ⟨rest, rfl, h⟩
  · exact fun hm => hslash (h.mem _ hm)
  · rw [String.toList_append]
    exact List.not_mem_append (by decide) fun hm => hslash (h.mem _ hm)

end Spelling

section Joins

theorem Text.exists_splitOn_cons {sep c : Char} (h : c ≠ sep) (cs : List Char) :
    ∃ piece pieces, splitOn sep cs = piece :: pieces ∧ splitOn sep (c :: cs) = (c :: piece) :: pieces := by
  obtain ⟨piece, pieces, hs⟩ := List.exists_cons_of_ne_nil (splitOn_ne_nil sep cs)
  exact ⟨piece, pieces, hs, by rw [splitOn, if_neg h, hs]⟩

theorem Text.joinStrings_map_ofList (sep : String) (pieces : List (List Char)) :
    joinStrings sep (pieces.map String.ofList) = String.ofList (join sep.toList pieces) := by
  simp [joinStrings, Function.comp_def]

theorem Text.joinStrings_ne_empty {sep first : String} {rest : List String} (h : first ≠ "") :
    joinStrings sep (first :: rest) ≠ "" := by
  obtain ⟨c, hc⟩ := List.exists_mem_of_ne_nil first.toList fun hn => h (String.toList_inj.mp hn)
  intro he
  have hmem : c ∈ (joinStrings sep (first :: rest)).toList := by
    rw [joinStrings, String.toList_ofList]
    exact mem_join_of_mem List.mem_cons_self hc
  rw [he] at hmem
  cases hmem

end Joins

namespace Script

section Pieces

variable {name : String}

theorem exists_segments (name : String) : ∃ cs, segments name = (Text.splitOn '.' cs).map String.ofList ∧
    (name.toList = '.' :: cs ∨ name.toList = cs ∧ cs.head? ≠ some '.') := by
  unfold segments
  split
  · rename_i cs hc
    exact ⟨cs, rfl, .inl hc⟩
  · rename_i cs hne
    refine ⟨name.toList, rfl, .inr ⟨rfl, fun hd => ?_⟩⟩
    obtain ⟨rest, hrest⟩ := List.head?_eq_some_iff.mp hd
    exact hne rest hrest

theorem eq_joinStrings_segments (name : String) :
    name = Text.joinStrings "." (segments name) ∨ name = "." ++ Text.joinStrings "." (segments name) := by
  obtain ⟨cs, hs, hname⟩ := exists_segments name
  have hjoin : Text.joinStrings "." (segments name) = String.ofList cs := by
    rw [hs, Text.joinStrings_map_ofList]
    exact congrArg String.ofList (Text.join_splitOn '.' cs)
  rw [hjoin]
  rcases hname with hc | ⟨hc, -⟩
  · exact .inr (String.toList_inj.mp (by simp [hc]))
  · exact .inl (String.toList_inj.mp (by simp [hc]))

theorem parts_eq_segments (h : name ≠ "") : Namespace.parts name = segments name := by
  obtain ⟨cs, hs, hc | ⟨hc, hd⟩⟩ := exists_segments name
  · refine (Namespace.parts_of_empty ?_).trans hs.symm
    rw [Text.splitString, hc, Text.splitOn, if_pos rfl, List.map_cons]
  · have hsplit : Text.splitString '.' name = segments name := by rw [Text.splitString, hc, hs]
    refine (Namespace.parts_of_ne_empty fun ps hp => ?_).trans hsplit
    rw [hsplit, hs] at hp
    cases cs with
    | nil => exact h (String.toList_inj.mp hc)
    | cons c cs =>
        obtain ⟨piece, pieces, -, hcons⟩ := Text.exists_splitOn_cons (fun he : c = '.' => hd (congrArg some he)) cs
        rw [hcons, List.map_cons, List.cons.injEq] at hp
        exact absurd (congrArg String.toList hp.1) (by simp)

def slashed (c : Char) : Char := if c = '.' then '/' else c

theorem map_slashed (cs : List Char) : cs.map slashed = Text.join ['/'] (Text.splitOn '.' cs) := by
  induction cs with
  | nil => rfl
  | cons c cs ih =>
      rw [List.map_cons, ih, slashed]
      by_cases hc : c = '.'
      · obtain ⟨piece, pieces, hs⟩ := List.exists_cons_of_ne_nil (Text.splitOn_ne_nil '.' cs)
        simp [Text.splitOn, hc, hs, Text.join]
      · obtain ⟨piece, pieces, hs, hcons⟩ := Text.exists_splitOn_cons hc cs
        rw [hcons, hs, if_neg hc]
        cases pieces <;> simp [Text.join]

theorem slashed_eq_iff {c : Char} : slashed c = '/' ↔ c = '.' ∨ c = '/' := by
  by_cases hc : c = '.' <;> simp [slashed, hc]

theorem moduleId_eq_or (name : String) :
    (∃ cs, name.toList.map slashed = '/' :: cs ∧ moduleId name = String.ofList cs) ∨
      (name.toList.map slashed).head? ≠ some '/' ∧ moduleId name = String.ofList (name.toList.map slashed) := by
  unfold moduleId
  split
  · rename_i cs hc
    exact .inl ⟨cs, hc, rfl⟩
  · rename_i cs hne
    refine .inr ⟨fun hs => ?_, rfl⟩
    obtain ⟨rest, hrest⟩ := List.head?_eq_some_iff.mp hs
    exact hne rest hrest

/-- Dots are replaced before the first slash is dropped, so that a slash in front goes like a dot. -/
theorem moduleId_eq_iff : moduleId name = Text.joinStrings "/" (segments name) ↔ name.toList.head? ≠ some '/' := by
  obtain ⟨cs, hs, hname⟩ := exists_segments name
  have hjoin : Text.joinStrings "/" (segments name) = String.ofList (cs.map slashed) := by
    rw [hs, Text.joinStrings_map_ofList, map_slashed]
    rfl
  rw [hjoin]
  rcases hname with hc | ⟨rfl, hd⟩ <;> rcases moduleId_eq_or name with ⟨ds, hm, he⟩ | ⟨hm, he⟩
  · rw [hc, List.map_cons, List.cons.injEq] at hm
    exact iff_of_true (by rw [he, hm.2]) (by simp [hc])
  · exact absurd (by rw [hc]; rfl) hm
  -- The text starts with a slash of its own, which is dropped although no dot has been replaced.
  · refine iff_of_false ?_ (not_not_intro ?_)
    · rw [he, hm, String.ofList_inj]
      exact fun h => List.cons_ne_self _ _ h.symm
    · have hhead : name.toList.head?.map slashed = some '/' := by rw [← List.head?_map, hm]; rfl
      obtain ⟨c, hc, hslashed⟩ := Option.map_eq_some_iff.mp hhead
      rcases slashed_eq_iff.mp hslashed with rfl | rfl
      · exact absurd hc hd
      · exact hc
  · refine iff_of_true he fun hslash => hm ?_
    rw [List.head?_map, hslash]
    rfl

end Pieces

section Targets

variable {segs : List String}

theorem isEmpty_eq_length_concat (done : List String) (segment : String) :
    done.isEmpty = ((done ++ [segment]).length == 1) := by
  cases done <;> simp

theorem bindings_eq (done segs : List String) : bindings done segs = segs.inits.tail.map fun front =>
    ⟨(done ++ front).length == 1, done ++ front, if front = segs then .built else .keptOrEmpty⟩ := by
  fun_induction bindings done segs with
  | case1 => rfl
  | case2 done segment =>
      rw [isEmpty_eq_length_concat done segment]
      simp
  | case3 done segment rest hrest ih =>
      have hinits : (segment :: rest).inits.tail = [segment] :: rest.inits.tail.map (segment :: ·) := by
        cases rest <;> simp
      have hlast : ¬[segment] = segment :: rest := fun he => hrest (List.cons.inj he).2.symm
      rw [hinits, List.map_cons, List.map_map, isEmpty_eq_length_concat done segment, if_neg hlast, ih]
      refine congrArg (List.cons _) (List.map_congr_left fun front _ => ?_)
      simp

theorem targetText_eq_joinStrings (h : ∀ segment ∈ segs, segment ≠ "") :
    targetText segs = Text.joinStrings "." segs := by
  cases segs with
  | nil => rfl
  | cons segment rest =>
      rw [targetText, List.dropWhile_cons_of_neg]
      exact fun he => h segment List.mem_cons_self (String.isEmpty_iff.mp he)

theorem targetText_concat (done : List String) (segment : String) :
    targetText (done ++ [segment]) =
      if targetText done = "" then segment else targetText done ++ "." ++ segment := by
  rw [targetText, targetText, List.dropWhile_append]
  cases hd : done.dropWhile String.isEmpty with
  | nil =>
      have hempty : Text.joinStrings "." [] = "" := rfl
      rw [List.isEmpty_nil, if_pos rfl, if_pos hempty]
      by_cases hs : segment = ""
      · rw [hs]
        rfl
      · rw [List.dropWhile_cons_of_neg fun he => hs (String.isEmpty_iff.mp he), Text.joinStrings_singleton]
  | cons first rest =>
      have hfirst : first.isEmpty = false := by
        have hnot := List.head?_dropWhile_not String.isEmpty done
        rw [hd] at hnot
        exact hnot
      have hne : Text.joinStrings "." (first :: rest) ≠ "" :=
        Text.joinStrings_ne_empty fun he => by rw [String.isEmpty_iff.mpr he] at hfirst; cases hfirst
      rw [if_neg hne, List.isEmpty_cons, if_neg Bool.false_ne_true]
      exact Text.joinStrings_concat "." segment (List.cons_ne_nil _ _)

end Targets

section Namespaces

variable {segs : List String} {name : String}

structure TakesApart (segs : List String) (name : String) : Prop where
  parts : Namespace.parts name = segs
  segments : segments name = segs
  whole : ∀ segment ∈ segs, segment ≠ "" ∧ '.' ∉ segment.toList ∧ '/' ∉ segment.toList
  moduleId : moduleId name = Text.joinStrings "/" segs
  bindings : globalBindings (some name) = segs.inits.tail.map fun front =>
    ⟨front.length == 1, front, if front = segs then .built else .keptOrEmpty⟩
  targets : (globalBindings (some name)).map (fun a => targetText a.target) =
    segs.inits.tail.map (Text.joinStrings ".")
  accumulated : ∀ done segment, done ++ [segment] <+: segs →
    targetText (done ++ [segment]) = if targetText done = "" then segment else targetText done ++ "." ++ segment
  joined : name = Text.joinStrings "." segs ∨ name = "." ++ Text.joinStrings "." segs

theorem takesApart_of_spelledBehindDot : ∀ segs name, SpelledBehindDot segs name → TakesApart segs name := by
  intro segs name h
  have hparts : Namespace.parts name = segs := h.parts
  have hwhole : ∀ segment ∈ segs, isSegment segment.toList = true := h.whole
  have hsegments : segments name = segs := (parts_eq_segments h.ne_empty).symm.trans hparts
  have hbindings : globalBindings (some name) = segs.inits.tail.map fun front =>
      ⟨front.length == 1, front, if front = segs then .built else .keptOrEmpty⟩ := by
    rw [globalBindings, hsegments]
    exact bindings_eq [] segs
  refine ⟨hparts, hsegments, fun segment hs => ?_, ?_, hbindings, ?_,
    fun done segment _ => targetText_concat done segment, ?_⟩
  · exact ⟨Namespace.ne_empty_of_isSegment (hwhole segment hs), Namespace.dot_not_mem_of_isSegment (hwhole segment hs),
      Namespace.slash_not_mem_of_isSegment (hwhole segment hs)⟩
  · rw [moduleId_eq_iff.mpr fun hd => h.slash_not_mem (List.mem_of_head? hd), hsegments]
  · rw [hbindings, List.map_map]
    refine List.map_congr_left fun front hf => ?_
    have hfront : front <+: segs := (List.mem_inits front segs).mp (List.mem_of_mem_tail hf)
    exact targetText_eq_joinStrings fun segment hs => Namespace.ne_empty_of_isSegment (hwhole segment (hfront.subset hs))
  · rw [← hsegments]
    exact eq_joinStrings_segments name

theorem takesApart_behind_dot : SpelledBehindDot ["My", "Pkg", "v1_2"] ".My.Pkg.v1_2" ∧
    TakesApart ["My", "Pkg", "v1_2"] ".My.Pkg.v1_2" := by
  have h : SpelledBehindDot ["My", "Pkg", "v1_2"] ".My.Pkg.v1_2" :=
    .inr ⟨"My.Pkg.v1_2", rfl, by simp, by decide, rfl⟩
  exact ⟨h, takesApart_of_spelledBehindDot _ _ h⟩

end Namespaces

end Script

end ProtoBundle
