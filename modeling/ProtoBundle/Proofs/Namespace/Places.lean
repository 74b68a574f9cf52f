import ProtoBundle.Namespace
import ProtoBundle.Proofs.Composition.Conformity
import ProtoBundle.Proofs.Source.Finding

/-!
The places of a schema. A name is accepted when its segments begin the package, or when they go on behind the whole
package from member to member, each time to the first of its name. The pattern for dotted names lets a line feed at the
end pass. No segment that leads anywhere in a schema has one, so none is accepted.
-/

namespace ProtoBundle.Namespace

open Source (Terminal)

structure Spelled (segments : List String) (name : String) : Prop where
  nonempty : segments ≠ []
  whole : ∀ segment ∈ segments, isSegment segment.toList = true
  joined : name = Text.joinStrings "." segments

def IsPackage (s : Schema) (package : List String) : Prop :=
  match s.package with
  | none => package = []
  | some name => Spelled package name

def IsFirst (members : List Member) (name : String) (m : Member) : Prop :=
  m.name = name ∧ ∃ front back, members = front ++ m :: back ∧ ∀ other ∈ front, other.name ≠ name

inductive Descends : List Member → List String → Prop
  | last {members : List Member} {name : String} {m : Member} (h : IsFirst members name m) : Descends members [name]
  | step {members : List Member} {name : String} {m : Member} {path : List String} (h : IsFirst members name m)
      (below : Descends m.members path) : Descends members (name :: path)

def IsPlace (s : Schema) (segments : List String) : Prop :=
  ∃ package, IsPackage s package ∧
    (segments <+: package ∨ ∃ path, Descends (s.messages.map .message) path ∧ segments = package ++ path)

section Descent

variable {members : List Member} {name : String} {m : Member} {package parts path : List String}

theorem find?_eq_some_iff_isFirst :
    (members.find? fun m => m.name == name) = some m ↔ IsFirst members name m := by
  simp [List.find?_eq_some_iff_append, IsFirst]

theorem descends_cons :
    descends members (name :: path) = true ↔ ∃ m, IsFirst members name m ∧ descends m.members path = true := by
  simp only [← find?_eq_some_iff_isFirst, descends]
  cases members.find? fun m => m.name == name <;> simp

theorem descends_iff (h : path ≠ []) : descends members path = true ↔ Descends members path := by
  induction path generalizing members with
  | nil => exact absurd rfl h
  | cons name path ih =>
      rw [descends_cons]
      constructor
      · rintro ⟨m, hm, hp⟩
        cases path with
        | nil => exact .last hm
        | cons => exact .step hm ((ih (by simp)).mp hp)
      · intro hd
        cases hd with
        | last hm => exact ⟨_, hm, by rw [descends]⟩
        | step hm hp => exact ⟨_, hm, (ih (by rintro rfl; cases hp)).mpr hp⟩

theorem leads_iff : leads members package parts = true ↔
    parts <+: package ∨ ∃ path, Descends members path ∧ parts = package ++ path := by
  induction package generalizing parts with
  | nil =>
      cases parts with
      | nil => simp [leads]
      | cons part parts => simp [leads, descends_iff]
  | cons p package ih =>
      cases parts with
      | nil => simp [leads]
      | cons part parts =>
          simp only [leads, Bool.and_eq_true, beq_iff_eq, ih, List.cons_prefix_cons, List.cons_append, List.cons.injEq]
          grind

end Descent

section Segments

variable {cs : List Char}

theorem isSegment_iff : isSegment cs = true ↔ cs ≠ [] ∧ ∀ c ∈ cs, isSegmentChar c = true := by
  simp [isSegment]

theorem dot_not_mem_of_isSegment (h : isSegment cs = true) : '.' ∉ cs :=
  fun hm => absurd ((isSegment_iff.mp h).2 '.' hm) (by decide)

theorem isSegmentChar_of_startsName {c : Char} (h : Source.startsName c = true) : isSegmentChar c = true := by
  simp only [Source.startsName, Bool.or_eq_true] at h
  rcases h with h | h <;> simp [isSegmentChar, Source.continuesName, h]

theorem isSegment_of_takes_identifier (h : Terminal.identifier.Takes cs) : isSegment cs = true := by
  cases cs with
  | nil => cases h
  | cons c cs =>
      rw [Terminal.Takes, Terminal.length, Source.identifierLength, Option.ite_none_right_eq_some] at h
      obtain ⟨hc, hn⟩ := h
      have hrest := Source.Pattern.countWhile_eq_length_iff.mp (Nat.succ.inj (Option.some.inj hn))
      exact isSegment_iff.mpr ⟨by simp, List.forall_mem_cons.mpr ⟨isSegmentChar_of_startsName hc, hrest⟩⟩

theorem splitOn_of_dottedRest (h : Source.dottedRest cs = cs.length) :
    ∃ piece pieces, Text.splitOn '.' cs = piece :: pieces ∧ (∀ c ∈ piece, isSegmentChar c = true) ∧
      ∀ p ∈ pieces, isSegment p = true := by
  fun_induction Source.dottedRest cs with
  | case1 => exact ⟨[], [], rfl, by simp, by simp⟩
  | case2 c cs hc ih =>
      obtain ⟨piece, pieces, hs, hp, hps⟩ := ih (by simpa using h)
      have hdot : c ≠ '.' := by
        rintro rfl
        exact absurd hc (by decide)
      refine ⟨[], (c :: piece) :: pieces, by simp [Text.splitOn, hdot, hs], by simp, ?_⟩
      refine List.forall_mem_cons.mpr ⟨isSegment_iff.mpr ⟨by simp, ?_⟩, hps⟩
      exact List.forall_mem_cons.mpr ⟨isSegmentChar_of_startsName hc, hp⟩
  | case3 => simp at h
  | case4 c cs _ hc ih =>
      obtain ⟨piece, pieces, hs, hp, hps⟩ := ih (by simpa using h)
      have hdot : c ≠ '.' := by
        rintro rfl
        exact absurd hc (by decide)
      exact ⟨c :: piece, pieces, by simp [Text.splitOn, hdot, hs], List.forall_mem_cons.mpr ⟨hc, hp⟩, hps⟩
  | case5 => simp at h

theorem isSegment_of_takes_dottedName (h : Terminal.dottedName.Takes cs) :
    ∀ piece ∈ Text.splitOn '.' cs, isSegment piece = true := by
  cases cs with
  | nil => cases h
  | cons c cs =>
      rw [Terminal.Takes, Terminal.length, Source.dottedLength, Option.ite_none_right_eq_some] at h
      obtain ⟨hc, hn⟩ := h
      obtain ⟨piece, pieces, hs, hp, hps⟩ := splitOn_of_dottedRest (Nat.succ.inj (Option.some.inj hn))
      have hdot : c ≠ '.' := by
        rintro rfl
        exact absurd hc (by decide)
      have hsplit : Text.splitOn '.' (c :: cs) = (c :: piece) :: pieces := by simp [Text.splitOn, hdot, hs]
      rw [hsplit]
      refine List.forall_mem_cons.mpr ⟨isSegment_iff.mpr ⟨by simp, ?_⟩, hps⟩
      exact List.forall_mem_cons.mpr ⟨isSegmentChar_of_startsName hc, hp⟩

end Segments

section Members

def Member.IsWellFormed : Member → Prop
  | .message m => m.Everywhere Message.IsWellFormed
  | .enum e => e.IsWellFormed

theorem Member.IsWellFormed.members {m : Member} (h : m.IsWellFormed) : ∀ n ∈ m.members, n.IsWellFormed := by
  cases m with
  | enum e => exact nofun
  | message m =>
      obtain ⟨own, inner⟩ := h
      refine List.forall_mem_append.mpr ⟨?_, ?_⟩
      · exact List.forall_mem_map.mpr inner
      · exact List.forall_mem_map.mpr own.enums

theorem Member.IsWellFormed.isSegment {m : Member} (h : m.IsWellFormed) : isSegment m.name.toList = true := by
  cases m with
  | enum e => exact isSegment_of_takes_identifier h.name
  | message m =>
      obtain ⟨own, -⟩ := h
      exact isSegment_of_takes_identifier own.name

theorem IsFirst.mem {members : List Member} {name : String} {m : Member} (h : IsFirst members name m) : m ∈ members := by
  obtain ⟨-, front, back, rfl, -⟩ := h
  simp

theorem Descends.isSegment {members : List Member} {path : List String} (h : Descends members path)
    (hm : ∀ m ∈ members, m.IsWellFormed) : ∀ segment ∈ path, isSegment segment.toList = true := by
  induction h with
  | last hf => exact List.forall_mem_singleton.mpr (hf.1 ▸ (hm _ hf.mem).isSegment)
  | step hf _ ih =>
      have hwell := hm _ hf.mem
      exact List.forall_mem_cons.mpr ⟨hf.1 ▸ hwell.isSegment, ih hwell.members⟩

end Members

section Spelling

variable {segments : List String} {name : String}

theorem joinStrings_splitString (name : String) : Text.joinStrings "." (Text.splitString '.' name) = name := by
  have hmap : (Text.splitString '.' name).map String.toList = Text.splitOn '.' name.toList := by
    simp [Text.splitString, Function.comp_def]
  rw [Text.joinStrings, hmap]
  exact (congrArg String.ofList (Text.join_splitOn '.' name.toList)).trans String.ofList_toList

theorem Spelled.splitOn (h : Spelled segments name) : Text.splitOn '.' name.toList = segments.map String.toList := by
  have hdots : ∀ piece ∈ segments.map String.toList, '.' ∉ piece :=
    List.forall_mem_map.mpr fun segment hs => dot_not_mem_of_isSegment (h.whole segment hs)
  rw [h.joined, Text.joinStrings, String.toList_ofList]
  exact Text.splitOn_join (by simpa using h.nonempty) hdots

theorem Spelled.splitString (h : Spelled segments name) : Text.splitString '.' name = segments := by
  simp [Text.splitString, h.splitOn, Function.comp_def]

theorem spelled_splitString (h : ∀ segment ∈ Text.splitString '.' name, isSegment segment.toList = true) :
    Spelled (Text.splitString '.' name) name :=
  ⟨by simp [Text.splitString, Text.splitOn_ne_nil], h, (joinStrings_splitString name).symm⟩

theorem Spelled.splitOn_whole (h : Spelled segments name) :
    ∀ piece ∈ Text.splitOn '.' name.toList, Namespace.isSegment piece = true := by
  rw [h.splitOn]
  exact List.forall_mem_map.mpr h.whole

theorem Spelled.dropLeadingDot (h : Spelled segments name) : Namespace.dropLeadingDot name.toList = name.toList := by
  unfold Namespace.dropLeadingDot
  split
  · rename_i cs hc
    have hnil : isSegment [] = true := h.splitOn_whole [] (by simp [hc, Text.splitOn])
    cases hnil
  · rfl

theorem Spelled.mem (h : Spelled segments name) : ∀ c ∈ name.toList, isSegmentChar c = true ∨ c = '.' := by
  intro c hc
  rw [← Text.join_splitOn '.' name.toList] at hc
  rcases Text.mem_join hc with hdot | ⟨piece, hp, hc⟩
  · exact .inr (List.mem_singleton.mp hdot)
  · exact .inl ((isSegment_iff.mp (h.splitOn_whole piece hp)).2 c hc)

theorem dropFinalLineFeed_of_not_mem {cs : List Char} (h : '\n' ∉ cs) : dropFinalLineFeed cs = cs := by
  rw [dropFinalLineFeed, if_neg fun hl => h (List.mem_of_getLast? hl)]

theorem Spelled.lineFeed_not_mem (h : Spelled segments name) : '\n' ∉ name.toList := by
  intro hm
  rcases h.mem _ hm with hc | hc
  · exact absurd hc (by decide)
  · cases hc

def SpelledBehindDot (segments : List String) (name : String) : Prop :=
  Spelled segments name ∨ ∃ rest, name = "." ++ rest ∧ Spelled segments rest

theorem SpelledBehindDot.isDotted (h : SpelledBehindDot segments name) : isDotted name.toList = true := by
  rcases h with h | ⟨rest, rfl, h⟩
  · rw [Namespace.isDotted, dropFinalLineFeed_of_not_mem h.lineFeed_not_mem, h.dropLeadingDot]
    exact List.all_eq_true.mpr h.splitOn_whole
  · have hdot : ("." ++ rest).toList = '.' :: rest.toList := by simp
    have hline : '\n' ∉ '.' :: rest.toList := by simp [h.lineFeed_not_mem]
    rw [Namespace.isDotted, hdot, dropFinalLineFeed_of_not_mem hline]
    exact List.all_eq_true.mpr h.splitOn_whole

theorem parts_of_empty {ps : List String} (h : Text.splitString '.' name = "" :: ps) : parts name = ps := by
  rw [parts, h]
  rfl

theorem parts_of_ne_empty (h : ∀ ps, Text.splitString '.' name ≠ "" :: ps) : parts name = Text.splitString '.' name := by
  unfold parts
  split
  · rename_i ps hs
    exact absurd hs (h ps)
  · rfl

theorem SpelledBehindDot.parts (h : SpelledBehindDot segments name) : parts name = segments := by
  rcases h with h | ⟨rest, rfl, h⟩
  · rw [parts_of_ne_empty, h.splitString]
    intro ps hs
    have hempty := h.whole "" (by simp [← h.splitString, hs])
    cases hempty
  · apply parts_of_empty
    have hdot : ("." ++ rest).toList = '.' :: rest.toList := by simp
    rw [← h.splitString, Text.splitString, hdot, Text.splitOn, if_pos rfl, List.map_cons]
    rfl

theorem spelledBehindDot_parts (hne : parts name ≠ []) (h : ∀ part ∈ parts name, isSegment part.toList = true) :
    SpelledBehindDot (parts name) name := by
  by_cases hs : ∃ ps, Text.splitString '.' name = "" :: ps
  · obtain ⟨ps, hs⟩ := hs
    rw [parts_of_empty hs] at hne h ⊢
    refine .inr ⟨Text.joinStrings "." ps, ?_, hne, h, rfl⟩
    rw [← joinStrings_splitString name, hs]
    cases ps with
    | nil => exact absurd rfl hne
    | cons p ps => simp [Text.joinStrings, Text.join]
  · rw [parts_of_ne_empty (not_exists.mp hs)] at h ⊢
    exact .inl (spelled_splitString h)

theorem parts_ne_nil (h : isDotted name.toList = true) : parts name ≠ [] := by
  intro hp
  have hname : name = "" := by
    rw [← joinStrings_splitString name]
    by_cases hs : ∃ ps, Text.splitString '.' name = "" :: ps
    · obtain ⟨ps, hs⟩ := hs
      rw [parts_of_empty hs] at hp
      rw [hs, hp]
      rfl
    · rw [parts_of_ne_empty (not_exists.mp hs)] at hp
      rw [hp]
      rfl
  subst hname
  exact absurd h (by decide)

end Spelling

section Places

variable {s : Schema} {name : String} {segments : List String}

theorem Spelled.ne_empty (h : Spelled segments name) : name ≠ "" := by
  rintro rfl
  have hnil := h.splitOn_whole [] (by simp [Text.splitOn])
  cases hnil

theorem spelled_of_takes_dottedName (h : Terminal.dottedName.Takes name.toList) :
    Spelled (Text.splitString '.' name) name := by
  refine spelled_splitString (List.forall_mem_map.mpr fun piece hm => ?_)
  rw [String.toList_ofList]
  exact isSegment_of_takes_dottedName h piece hm

theorem packageParts_of_some (h : s.package = some name) (hne : name ≠ "") :
    packageParts s = Text.splitString '.' name := by
  unfold packageParts
  split
  · simp_all
  · simp_all
  · simp_all

theorem isPackage_iff (h : s.IsWellFormed) {package : List String} : IsPackage s package ↔ package = packageParts s := by
  unfold IsPackage
  cases hp : s.package with
  | none => simp [packageParts, hp]
  | some name =>
      have hs := spelled_of_takes_dottedName (h.package name hp)
      rw [packageParts_of_some hp hs.ne_empty]
      constructor
      · exact fun hspelled => hspelled.splitString.symm
      · rintro rfl
        exact hs

theorem isPlace_iff (h : s.IsWellFormed) :
    IsPlace s segments ↔ leads (s.messages.map .message) (packageParts s) segments = true := by
  rw [leads_iff]
  constructor
  · rintro ⟨package, hp, hplace⟩
    rw [(isPackage_iff h).mp hp] at hplace
    exact hplace
  · exact fun hplace => ⟨packageParts s, (isPackage_iff h).mpr rfl, hplace⟩

theorem IsPackage.isSegment {package : List String} (h : IsPackage s package) :
    ∀ segment ∈ package, isSegment segment.toList = true := by
  unfold IsPackage at h
  split at h
  · simp [h]
  · exact h.whole

theorem IsPlace.isSegment (hw : s.IsWellFormed) (h : IsPlace s segments) :
    ∀ segment ∈ segments, isSegment segment.toList = true := by
  obtain ⟨package, hp, hstart | ⟨path, hd, rfl⟩⟩ := h
  · exact fun segment hs => hp.isSegment segment (hstart.subset hs)
  · exact List.forall_mem_append.mpr ⟨hp.isSegment, hd.isSegment (List.forall_mem_map.mpr hw.messages)⟩

theorem isValid_iff (h : s.IsWellFormed) :
    isValid s name = true ↔ ∃ segments, SpelledBehindDot segments name ∧ IsPlace s segments := by
  rw [isValid, Bool.and_eq_true]
  constructor
  · rintro ⟨hdotted, hleads⟩
    have hplace := (isPlace_iff h).mpr hleads
    exact ⟨parts name, spelledBehindDot_parts (parts_ne_nil hdotted) (hplace.isSegment h), hplace⟩
  · rintro ⟨segments, hspelled, hplace⟩
    rw [hspelled.parts]
    exact ⟨hspelled.isDotted, (isPlace_iff h).mp hplace⟩

theorem SpelledBehindDot.mem (h : SpelledBehindDot segments name) :
    ∀ c ∈ name.toList, isSegmentChar c = true ∨ c = '.' := by
  rcases h with h | ⟨rest, rfl, h⟩
  · exact h.mem
  · simpa using h.mem

theorem nil_mem_splitOn_of_extra (front : List Char) {back : List Char} (h : back = [] ∨ back.head? = some '.') :
    [] ∈ Text.splitOn '.' (front ++ '.' :: back) := by
  rw [Text.splitOn_append]
  refine List.mem_append_right _ ?_
  cases back with
  | nil => simp [Text.splitOn]
  | cons c back =>
      obtain rfl : c = '.' := by simpa using h
      simp [Text.splitOn]

theorem Spelled.not_extra (h : Spelled segments name) (front : List Char) {back : List Char}
    (hb : back = [] ∨ back.head? = some '.') : name.toList ≠ front ++ '.' :: back := by
  intro hname
  have hnil := h.splitOn_whole [] (hname ▸ nil_mem_splitOn_of_extra front hb)
  cases hnil

theorem SpelledBehindDot.not_extra (h : SpelledBehindDot segments name) (front : List Char) {back : List Char}
    (hb : back = [] ∨ back.head? = some '.') : name.toList ≠ front ++ '.' :: back := by
  rcases h with h | ⟨rest, rfl, h⟩
  · exact h.not_extra front hb
  · intro hname
    cases front with
    | nil =>
        have hrest : rest.toList = back := by simpa using hname
        rcases hb with hb | hb
        · exact h.ne_empty (String.toList_eq_nil_iff.mp (hrest.trans hb))
        · obtain ⟨cs, hcs⟩ := List.head?_eq_some_iff.mp hb
          have hnil := h.splitOn_whole [] (by simp [hrest, hcs, Text.splitOn])
          cases hnil
    | cons c front =>
        have hrest : rest.toList = front ++ '.' :: back := by simp_all
        exact h.not_extra front hb hrest

theorem resolve_derived (h : s.IsWellFormed) : resolve s .derived = .ok s.package := by
  cases hp : s.package with
  | none => simp [resolve, Request.name?, hp]
  | some name =>
      have hs := spelled_of_takes_dottedName (h.package name hp)
      have hparts : Text.splitString '.' name = packageParts s := (packageParts_of_some hp hs.ne_empty).symm
      have hplace : IsPlace s (Text.splitString '.' name) :=
        ⟨_, (isPackage_iff h).mpr rfl, .inl (hparts ▸ List.prefix_rfl)⟩
      have hvalid : isValid s name = true := (isValid_iff h).mpr ⟨_, .inl hs, hplace⟩
      have hname : Request.name? s .derived = some name := by simp [Request.name?, hp, hs.ne_empty]
      simp [resolve, hname, hvalid]

theorem isValid_iff_isPlace (h : Composition.IsProduced s) :
    (∀ name, isValid s name = true ↔ ∃ segments, SpelledBehindDot segments name ∧ IsPlace s segments) ∧
    (∀ name, isValid s name = true → ∀ c ∈ name.toList, isSegmentChar c = true ∨ c = '.') ∧
    (∀ front back, isValid s (front ++ ".." ++ back) = false ∧ isValid s (front ++ ".") = false) ∧
    resolve s .derived = .ok s.package := by
  have hw := h.isWellFormed
  have hspelled (name : String) (hv : isValid s name = true) : ∃ segments, SpelledBehindDot segments name := by
    obtain ⟨segments, hs, -⟩ := (isValid_iff hw).mp hv
    exact ⟨segments, hs⟩
  refine ⟨fun name => isValid_iff hw, fun name hv => ?_, fun front back => ⟨?_, ?_⟩, resolve_derived hw⟩
  · obtain ⟨segments, hs⟩ := hspelled name hv
    exact hs.mem
  · refine Bool.eq_false_iff.mpr fun hv => ?_
    obtain ⟨segments, hs⟩ := hspelled _ hv
    have hb : ('.' :: back.toList).head? = some '.' := rfl
    exact hs.not_extra front.toList (.inr hb) (by simp)
  · refine Bool.eq_false_iff.mpr fun hv => ?_
    obtain ⟨segments, hs⟩ := hspelled _ hv
    exact hs.not_extra front.toList (.inl rfl) (by simp)

def shadowingText : String :=
  "package a.b;message M\x7benum N\x7b\x7d\x7dmessage M\x7bmessage O\x7b\x7d\x7denum E\x7b\x7d"

theorem isValid_iff_isPlace_shadowing : ∃ s, Schema.ofText none shadowingText = .ok s ∧
    IsPlace s ["a", "b", "M", "N"] ∧ ¬ IsPlace s ["a", "b", "M", "O"] ∧ ¬ IsPlace s ["a", "b", "E"] ∧
    isValid s "a.b.M.N\n" = false ∧ isValid s "a..b" = false ∧ resolve s .derived = .ok (some "a.b") := by
  have hread : (Schema.ofText none shadowingText).toOption.map (fun s =>
      (s.package, isValid s "a.b.M.N", isValid s "a.b.M.O", isValid s "a.b.E")) =
      some (some "a.b", true, false, false) := by decide +kernel
  obtain ⟨s, hs, hv⟩ := Option.map_eq_some_iff.mp hread
  have hs := eq_ok_of_toOption hs
  simp only [Prod.mk.injEq] at hv
  obtain ⟨hpackage, hn, ho, he⟩ := hv
  obtain ⟨hiff, hchars, hdots, hderived⟩ := isValid_iff_isPlace (.read hs)
  have hplace (segments : List String) (name : String) (hspelled : Spelled segments name) (hv : isValid s name = false) :
      ¬ IsPlace s segments :=
    fun hp => Bool.false_ne_true (hv.symm.trans ((hiff name).mpr ⟨segments, .inl hspelled, hp⟩))
  refine ⟨s, hs, ?_, ?_, ?_, ?_, (hdots "a" "b").1, hpackage ▸ hderived⟩
  · obtain ⟨segments, hspelled, hp⟩ := (hiff "a.b.M.N").mp hn
    have hsegments : parts "a.b.M.N" = ["a", "b", "M", "N"] := by decide
    rwa [← hspelled.parts, hsegments] at hp
  · exact hplace _ "a.b.M.O" ⟨by simp, by decide, by decide⟩ ho
  · exact hplace _ "a.b.E" ⟨by simp, by decide, by decide⟩ he
  · refine Bool.eq_false_iff.mpr fun hv => ?_
    have hc := hchars _ hv '\n' (by decide)
    revert hc
    decide

end Places

end ProtoBundle.Namespace
