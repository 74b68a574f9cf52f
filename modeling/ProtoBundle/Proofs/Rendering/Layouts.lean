import Mathlib.Data.List.Forall2
import ProtoBundle.Proofs.Rendering.Blanks
import ProtoBundle.Proofs.Rendering.Enclosure

namespace ProtoBundle.Rendering

open Json (Layout)

abbrev Alike (s t : String) : Prop := Agree s.toList t.toList

theorem Alike.append {s t s' t' : String} (h : Alike s t) (h' : Alike s' t') : Alike (s ++ s') (t ++ t') := by
  unfold Alike at *
  rw [String.toList_append, String.toList_append]
  exact h.append h'

abbrev Closed (s : String) : Prop := Zone.outside.after s.toList = .outside

theorem Closed.alike {s : String} (h : Closed s) : Alike s s := .of_closed h

theorem Alike.back {s t : String} (h : Alike s t) (text : String) (hc : Closed text) : Alike (s ++ text) (t ++ text) :=
  h.append hc.alike

theorem Alike.joinStrings {sep sep' : String} {pieces pieces' : List String} (h : Alike sep sep')
    (hp : List.Forall₂ Alike pieces pieces') : Alike (Text.joinStrings sep pieces) (Text.joinStrings sep' pieces') := by
  induction hp with
  | nil => exact .of_closed rfl
  | @cons piece piece' pieces pieces' hc hs ih =>
      cases hs with
      | nil => simpa only [Text.joinStrings_singleton] using hc
      | cons hd hs =>
          rw [Text.joinStrings_cons sep piece (by simp), Text.joinStrings_cons sep' piece' (by simp)]
          exact (hc.append h).append ih

theorem alike_string (j : Json) : Alike (j.string .pretty) (j.string .compact) := by
  unfold Alike Json.string
  rw [String.toList_ofList, String.toList_ofList]
  exact agree_write j 0 0

theorem alike_quote (s : String) : Alike (Json.quote s) (Json.quote s) := by
  unfold Alike Json.quote
  rw [String.toList_ofList]
  exact agree_writeText s.toList

def Unquoted (s : String) : Prop := ∀ c ∈ s.toList, c ≠ '"' ∧ c ≠ '\''

instance (s : String) : Decidable (Unquoted s) :=
  List.decidableBAll (fun c => c ≠ '"' ∧ c ≠ '\'') s.toList

theorem Unquoted.alike {s : String} (h : Unquoted s) : Alike s s := .of_no_quotes h

theorem forall_joinStrings {P : Char → Prop} {sep : String} {pieces : List String} (hs : ∀ c ∈ sep.toList, P c)
    (hp : ∀ piece ∈ pieces, ∀ c ∈ piece.toList, P c) : ∀ c ∈ (Text.joinStrings sep pieces).toList, P c := by
  intro c hc
  rw [Text.joinStrings, String.toList_ofList] at hc
  rcases Text.mem_join hc with hc | ⟨piece, hm, hc⟩
  · exact hs c hc
  · obtain ⟨s, hs, rfl⟩ := List.mem_map.mp hm
    exact hp s hs c hc

theorem mem_of_mem_splitOn {sep : Char} {piece cs : List Char} (hp : piece ∈ Text.splitOn sep cs) {c : Char}
    (hc : c ∈ piece) : c ∈ cs := by
  have hm : c ∈ Text.join [sep] (Text.splitOn sep cs) := Text.mem_join_of_mem hp hc
  rwa [Text.join_splitOn] at hm

theorem mem_of_mem_segments {name segment : String} (h : segment ∈ Script.segments name) {c : Char}
    (hc : c ∈ segment.toList) : c ∈ name.toList := by
  unfold Script.segments at h
  split at h
  · rename_i cs hn
    obtain ⟨piece, hp, rfl⟩ := List.mem_map.mp h
    rw [String.toList_ofList] at hc
    exact hn ▸ List.mem_cons_of_mem _ (mem_of_mem_splitOn hp hc)
  · obtain ⟨piece, hp, rfl⟩ := List.mem_map.mp h
    rw [String.toList_ofList] at hc
    exact mem_of_mem_splitOn hp hc

section Names

open Namespace

theorem no_quotes_of_isSegmentChar {c : Char} (h : isSegmentChar c = true) : c ≠ '"' ∧ c ≠ '\'' := by
  constructor <;>
  · rintro rfl
    revert h
    decide

theorem mem_dropFinalLineFeed {cs : List Char} {c : Char} (h : c ∈ cs) : c = '\n' ∨ c ∈ dropFinalLineFeed cs := by
  unfold dropFinalLineFeed
  split
  · rename_i hl
    obtain ⟨front, rfl⟩ := List.getLast?_eq_some_iff.mp hl
    rw [List.dropLast_concat]
    exact (List.mem_append.mp h).symm.imp_left List.mem_singleton.mp
  · exact .inr h

theorem mem_dropLeadingDot {cs : List Char} {c : Char} (h : c ∈ cs) : c = '.' ∨ c ∈ dropLeadingDot cs := by
  unfold dropLeadingDot
  split
  · exact List.mem_cons.mp h
  · exact .inr h

theorem no_quotes_of_isDotted {cs : List Char} (h : isDotted cs = true) : ∀ c ∈ cs, c ≠ '"' ∧ c ≠ '\'' := by
  intro c hc
  rcases mem_dropFinalLineFeed hc with rfl | hc
  · decide
  rcases mem_dropLeadingDot hc with rfl | hc
  · decide
  rw [← Text.join_splitOn '.' (dropLeadingDot (dropFinalLineFeed cs))] at hc
  rcases Text.mem_join hc with hd | ⟨piece, hp, hc⟩
  · rw [List.mem_singleton.mp hd]
    decide
  · have hs := List.all_eq_true.mp h piece hp
    simp only [isSegment, Bool.and_eq_true, List.all_eq_true] at hs
    exact no_quotes_of_isSegmentChar (hs.2 c hc)

theorem unquoted_of_resolve {s : Schema} {request : Request} {name : Option String}
    (h : resolve s request = .ok name) : ∀ n ∈ name, Unquoted n := by
  unfold resolve at h
  split at h
  · cases h
    simp
  · split at h
    · rename_i hv
      cases h
      rintro n ⟨⟩
      simp only [isValid, Bool.and_eq_true] at hv
      exact no_quotes_of_isDotted hv.1
    · cases h

theorem unquoted_of_scope {s : Schema} {c : Convention} {request : Request} {name : Option String}
    (h : s.scope c request = .ok name) : ∀ n ∈ name, Unquoted n := by
  unfold Schema.scope at h
  split at h
  · cases h
    simp
  · exact unquoted_of_resolve h

end Names

section Scripts

open Script

theorem alike_blank : Alike (blank .pretty) (blank .compact) := ⟨rfl, rfl, rfl⟩

theorem alike_builder {library literal literal' : String} (hb : Closed library) (hl : Alike literal literal')
    (name : Option String) : Alike (builder library literal name) (builder library literal' name) := by
  have build := ((hb.alike.back ".newBuilder(\x7b\x7d)['import'](" rfl).append hl).back ").build(" rfl
  cases name with
  | none => exact (build.back "" rfl).back ")" rfl
  | some name => exact (build.append (alike_quote name)).back ")" rfl

theorem forall_targetText {P : Char → Prop} (hdot : P '.') {target : List String}
    (h : ∀ piece ∈ target, ∀ c ∈ piece.toList, P c) : ∀ c ∈ (targetText target).toList, P c :=
  forall_joinStrings (List.forall_mem_singleton.mpr hdot) fun piece hp => h piece ((List.dropWhile_sublist _).subset hp)

theorem alike_assignment {built built' : String} (hb : Alike built built') {a : Assignment}
    (ht : ∀ piece ∈ a.target, Unquoted piece) : Alike (a.text .pretty built) (a.text .compact built') := by
  have target := Unquoted.alike (forall_targetText (by decide) ht)
  have declared : Alike (if a.declared then "var " else "") (if a.declared then "var " else "") := by
    split <;> exact .of_closed rfl
  have front := (((declared.append target).append alike_blank).back "=" rfl).append alike_blank
  unfold Assignment.text
  cases a.assigned with
  | built => exact (front.append hb).back ";" rfl
  | keptOrEmpty =>
      have kept := (((target.append alike_blank).back "||" rfl).append alike_blank).back "\x7b\x7d" rfl
      exact (front.append kept).back ";" rfl

theorem alike_textOfLines {lines lines' : List String} (h : List.Forall₂ Alike lines lines') :
    Alike (textOfLines .pretty lines) (textOfLines .compact lines') := by
  have ending : Alike "\n" "" := ⟨rfl, rfl, rfl⟩
  exact (ending.joinStrings h).back "\n" rfl

theorem mem_target_of_mem_bindings {done segments : List String} {a : Assignment} (h : a ∈ bindings done segments) :
    ∀ piece ∈ a.target, piece ∈ done ∨ piece ∈ segments := by
  induction segments generalizing done with
  | nil => cases h
  | cons segment rest ih =>
      cases rest with
      | nil =>
          rw [bindings, List.mem_singleton] at h
          subst h
          exact fun piece hp => List.mem_append.mp hp
      | cons second rest =>
          rw [bindings] at h
          · rcases List.mem_cons.mp h with rfl | h
            · intro piece hp
              exact (List.mem_append.mp hp).imp_right fun hp => List.mem_cons.mpr (.inl (List.mem_singleton.mp hp))
            · intro piece hp
              rcases ih h piece hp with hp | hp
              · exact (List.mem_append.mp hp).imp_right fun hp => List.mem_cons.mpr (.inl (List.mem_singleton.mp hp))
              · exact .inr (List.mem_cons_of_mem _ hp)
          · simp

theorem forall_globalBindings {P : Char → Prop} (hroot : ∀ c ∈ "_root".toList, P c) {name : Option String}
    (hn : ∀ n ∈ name, ∀ c ∈ n.toList, P c) {a : Assignment} (h : a ∈ globalBindings name) :
    ∀ piece ∈ a.target, ∀ c ∈ piece.toList, P c := by
  cases name with
  | none =>
      rw [globalBindings, List.mem_singleton] at h
      subst h
      exact List.forall_mem_singleton.mpr hroot
  | some name =>
      intro piece hp c hc
      rcases mem_target_of_mem_bindings h piece hp with hp | hp
      · cases hp
      · exact hn name rfl c (mem_of_mem_segments hp hc)

variable {literal literal' : String}

theorem alike_global (h : Alike literal literal') {name : Option String} (hn : ∀ n ∈ name, Unquoted n) :
    Alike (global .pretty literal name) (global .compact literal' name) := by
  have build := alike_builder (rfl : Closed globalLibrary) h name
  refine alike_textOfLines (List.forall₂_map_left_iff.mpr (List.forall₂_map_right_iff.mpr ?_))
  exact List.forall₂_same.mpr fun a ha =>
    alike_assignment build (forall_globalBindings (by decide : Unquoted "_root") hn ha)

theorem alike_exported (h : Alike literal literal') (name : Option String) :
    Alike (exported .pretty literal name) (exported .compact literal' name) := by
  have build := alike_builder (rfl : Closed requiredLibrary) h name
  have target : ∀ piece ∈ ["module", "exports"], Unquoted piece :=
    List.forall_mem_cons.mpr ⟨by decide, List.forall_mem_singleton.mpr (by decide)⟩
  exact alike_textOfLines (.cons (alike_assignment build target) .nil)

def definitionArguments (name : Option String) : List String :=
  (name.map fun name => Json.quote (moduleId name)).toList ++ ["[" ++ Json.quote dependency ++ "]"]

theorem definitionArguments_ne_nil (name : Option String) : definitionArguments name ≠ [] := by
  simp [definitionArguments]

theorem alike_definitionArguments (name : Option String) :
    List.Forall₂ Alike (definitionArguments name) (definitionArguments name) := by
  refine List.forall₂_same.mpr (List.forall_mem_append.mpr ⟨?_, ?_⟩)
  · cases name with
    | none => simp
    | some name => exact List.forall_mem_singleton.mpr (alike_quote _)
  · exact List.forall_mem_singleton.mpr (((Closed.alike rfl).append (alike_quote dependency)).back "]" rfl)

theorem alike_defined (h : Alike literal literal') (name : Option String) :
    Alike (defined .pretty literal name) (defined .compact literal' name) := by
  have build := alike_builder (rfl : Closed dependency) h name
  have commas : Alike ", " "," := ⟨rfl, rfl, rfl⟩
  have arguments := (commas.joinStrings (alike_definitionArguments name)).append commas
  have opening : Alike ("function(" ++ dependency ++ ") \x7b" ++ "\n" ++ "    return ")
    ("function(" ++ dependency ++ ")\x7breturn ") := ⟨rfl, rfl, rfl⟩
  have closing : Alike (";" ++ "\n" ++ "\x7d);" ++ "\n") (";\x7d" ++ ");\n") := ⟨rfl, rfl, rfl⟩
  have define : Alike "define(" "define(" := .of_closed rfl
  have all := define.append (((arguments.append opening).append build).append closing)
  have hne := definitionArguments_ne_nil name
  have pretty : defined .pretty literal name = "define(" ++
      (Text.joinStrings ", " (definitionArguments name) ++ ", " ++
        ("function(" ++ dependency ++ ") \x7b" ++ "\n" ++ "    return ") ++ builder dependency literal name ++
        (";" ++ "\n" ++ "\x7d);" ++ "\n")) := by
    rw [defined, ← definitionArguments]
    simp only [textOfLines, Text.joinStrings_concat _ _ hne, ne_eq, reduceCtorEq, not_false_eq_true,
      Text.joinStrings_cons, Text.joinStrings_singleton, String.append_assoc]
  have compact : defined .compact literal' name = "define(" ++
      (Text.joinStrings "," (definitionArguments name) ++ "," ++
        ("function(" ++ dependency ++ ")\x7breturn ") ++ builder dependency literal' name ++
        (";\x7d" ++ ");\n")) := by
    rw [defined, ← definitionArguments]
    simp only [Text.joinStrings_concat _ _ hne, String.append_assoc]
  rw [pretty, compact]
  exact all

end Scripts

theorem alike_wrap {literal literal' : String} (h : Alike literal literal') (c : Convention) {name : Option String}
    (hn : ∀ n ∈ name, Unquoted n) : Alike (c.wrap .pretty literal name) (c.wrap .compact literal' name) := by
  cases c with
  | structural => exact h.back "\n" rfl
  | global => exact alike_global h hn
  | exported => exact alike_exported h name
  | defined => exact alike_defined h name

theorem render_layouts (s : Schema) (c : Convention) (request : Namespace.Request) :
    (∃ e, s.render c request .pretty = .error e ∧ s.render c request .compact = .error e) ∨
    ∃ p q, s.render c request .pretty = .ok p ∧ s.render c request .compact = .ok q ∧
      bare .outside p.toList = bare .outside q.toList ∧
      literals .outside p.toList = literals .outside q.toList := by
  rw [Schema.render_eq, Schema.render_eq]
  cases hn : s.scope c request with
  | error e => exact .inl ⟨e, rfl, rfl⟩
  | ok name =>
      by_cases hw : s.document.writable = true
      · have h := alike_wrap (alike_string s.document) c (unquoted_of_scope hn)
        refine .inr ⟨_, _, if_pos hw, if_pos hw, h.bare_eq, ?_⟩
        rw [← literals_bare, h.bare_eq, literals_bare]
      · exact .inl ⟨.integerTooLong, if_neg hw, if_neg hw⟩

end ProtoBundle.Rendering
