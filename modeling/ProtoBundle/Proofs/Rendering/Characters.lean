import ProtoBundle.Proofs.Namespace.Places
import ProtoBundle.Proofs.Rendering.Layouts

namespace ProtoBundle.Rendering

open Json (Layout)

def IsPlain (c : Char) : Prop := ' ' ≤ c ∧ c ≤ '~'

instance (c : Char) : Decidable (IsPlain c) := inferInstanceAs (Decidable (_ ∧ _))

section Classes

variable {c : Char}

theorem IsPlain.of_le {low high : Char} (hl : ' ' ≤ low) (hh : high ≤ '~') (h : low ≤ c) (h' : c ≤ high) : IsPlain c :=
  ⟨Char.le_trans hl h, Char.le_trans h' hh⟩

theorem isPlain_of_isDigit (h : Text.isDigit c = true) : IsPlain c := by
  simp only [Text.isDigit, Bool.and_eq_true, decide_eq_true_eq] at h
  exact .of_le (by decide) (by decide) h.1 h.2

theorem isPlain_of_isLetter (h : Text.isLetter c = true) : IsPlain c := by
  simp only [Text.isLetter, Bool.or_eq_true, Bool.and_eq_true, decide_eq_true_eq] at h
  rcases h with h | h
  · exact .of_le (by decide) (by decide) h.1 h.2
  · exact .of_le (by decide) (by decide) h.1 h.2

theorem isPlain_of_isHexDigit (h : Text.isHexDigit c = true) : IsPlain c := by
  simp only [Text.isHexDigit, Bool.or_eq_true, Bool.and_eq_true, decide_eq_true_eq] at h
  rcases h with (h | h) | h
  · exact isPlain_of_isDigit h
  · exact .of_le (by decide) (by decide) h.1 h.2
  · exact .of_le (by decide) (by decide) h.1 h.2

theorem isPlain_of_isSegmentChar (h : Namespace.isSegmentChar c = true) : IsPlain c := by
  simp only [Namespace.isSegmentChar, Source.continuesName, Bool.or_eq_true, beq_iff_eq] at h
  rcases h with (h | h) | rfl
  · exact isPlain_of_isLetter h
  · exact isPlain_of_isDigit h
  · decide

end Classes

def Plain (cs : List Char) : Prop := ∀ c ∈ cs, IsPlain c

instance (cs : List Char) : Decidable (Plain cs) := List.decidableBAll IsPlain cs

@[simp]
theorem plain_cons {c : Char} {cs : List Char} : Plain (c :: cs) ↔ IsPlain c ∧ Plain cs := List.forall_mem_cons

@[simp]
theorem plain_append {p q : List Char} : Plain (p ++ q) ↔ Plain p ∧ Plain q := List.forall_mem_append

theorem plain_flatMap {α : Type} {f : α → List Char} {as : List α} (h : ∀ a ∈ as, Plain (f a)) : Plain (as.flatMap f) := by
  intro c hc
  obtain ⟨a, ha, hc⟩ := List.mem_flatMap.mp hc
  exact h a ha c hc

theorem Plain.lineFeed_not_mem {cs : List Char} (h : Plain cs) : '\n' ∉ cs := fun hm => absurd (h _ hm) (by decide)

section Documents

theorem plain_unitEscape (unit : Nat) : Plain (Json.unitEscape unit) := by
  have hd : Plain (Text.lowerHex unit 4) := fun c hc => isPlain_of_isHexDigit (Text.isHexDigit_of_mem_lowerHex hc)
  exact plain_cons.mpr ⟨by decide, plain_cons.mpr ⟨by decide, hd⟩⟩

theorem plain_writeChar (c : Char) : Plain (Json.writeChar c) := by
  unfold Json.writeChar
  split
  · decide
  split
  · decide
  split
  · decide
  split
  · decide
  split
  · decide
  split
  · decide
  split
  · decide
  split
  · rename_i h
    exact List.forall_mem_singleton.mpr h
  · exact plain_flatMap fun unit _ => plain_unitEscape unit

theorem plain_writeText (s : List Char) : Plain (Json.writeText s) :=
  plain_cons.mpr ⟨by decide, plain_append.mpr ⟨plain_flatMap fun c _ => plain_writeChar c, by decide⟩⟩

theorem plain_numeral (n : Number.Numeral) : Plain n.text := by
  have hmarks : Plain ['-', '+', '.', 'e'] := by decide
  intro c hc
  rcases n.mem_text c hc with hd | hm
  · exact isPlain_of_isDigit hd
  · exact hmarks c hm

theorem plain_signedDecimal (i : Int) : Plain (Number.signedDecimal i) := by
  rw [← Number.Numeral.text_ofInteger]
  exact plain_numeral _

theorem plain_writeFloat (x : Number.Binary64) : Plain (Json.writeFloat x) := by
  cases x with
  | finite negative m q =>
      obtain ⟨n, ht, -⟩ := Number.Binary64.text_finite negative m q
      have hw : Json.writeFloat (.finite negative m q) = n.text := ht.symm
      rw [hw]
      exact plain_numeral n
  | infinite negative => cases negative <;> decide
  | nan => decide

mutual

theorem plain_write : ∀ (j : Json) (d : Nat), Plain (j.write .compact d)
  | .null, _ => by rw [Json.write]; decide
  | .flag true, _ => by rw [Json.write]; decide
  | .flag false, _ => by rw [Json.write]; decide
  | .integer i, _ => plain_signedDecimal i
  | .float x, _ => plain_writeFloat x
  | .text s, _ => plain_writeText s.toList
  | .array [], _ => by rw [Json.write]; decide
  | .array (j :: js), d => by
      simp only [Json.write, Layout.newLine, plain_cons, plain_append]
      exact ⟨by decide, ⟨⟨⟨by decide, plain_write j _⟩, plain_writeItems js _⟩, by decide⟩, by decide⟩
  | .object [], _ => by rw [Json.write]; decide
  | .object ((name, j) :: ms), d => by
      simp only [Json.write, Layout.newLine, Layout.colon, plain_cons, plain_append]
      exact ⟨by decide, ⟨⟨⟨⟨⟨by decide, plain_writeText name.toList⟩, by decide⟩, plain_write j _⟩,
        plain_writeMembers ms _⟩, by decide⟩, by decide⟩

theorem plain_writeItems : ∀ (js : List Json) (d : Nat), Plain (Json.write.writeItems .compact d js)
  | [], _ => by rw [Json.write.writeItems]; decide
  | j :: js, d => by
      simp only [Json.write.writeItems, Layout.newLine, plain_cons, plain_append]
      exact ⟨by decide, ⟨by decide, plain_write j d⟩, plain_writeItems js d⟩

theorem plain_writeMembers : ∀ (ms : List (String × Json)) (d : Nat), Plain (Json.write.writeMembers .compact d ms)
  | [], _ => by rw [Json.write.writeMembers]; decide
  | (name, j) :: ms, d => by
      simp only [Json.write.writeMembers, Layout.newLine, Layout.colon, plain_cons, plain_append]
      exact ⟨by decide, ⟨⟨⟨by decide, plain_writeText name.toList⟩, by decide⟩, plain_write j d⟩,
        plain_writeMembers ms d⟩

end

end Documents

section Scripts

open Script

abbrev PlainText (s : String) : Prop := Plain s.toList

theorem PlainText.append {s t : String} (hs : PlainText s) (ht : PlainText t) : PlainText (s ++ t) := by
  unfold PlainText
  rw [String.toList_append]
  exact plain_append.mpr ⟨hs, ht⟩

theorem plain_string (j : Json) : PlainText (j.string .compact) := by
  unfold PlainText Json.string
  rw [String.toList_ofList]
  exact plain_write j 0

theorem plain_quote (s : String) : PlainText (Json.quote s) := by
  unfold PlainText Json.quote
  rw [String.toList_ofList]
  exact plain_writeText s.toList

variable {literal : String}

theorem plain_builder {library : String} (hb : PlainText library) (hl : PlainText literal) (name : Option String) :
    PlainText (builder library literal name) := by
  have build := ((hb.append (t := ".newBuilder(\x7b\x7d)['import'](") (by decide)).append hl).append (t := ").build(")
    (by decide)
  cases name with
  | none => exact (build.append (t := "") (by decide)).append (by decide)
  | some name => exact (build.append (plain_quote name)).append (by decide)

theorem plain_assignment {built : String} (hb : PlainText built) {a : Assignment} (ht : ∀ piece ∈ a.target, PlainText piece) :
    PlainText (a.text .compact built) := by
  have target : PlainText (targetText a.target) := forall_targetText (by decide) ht
  have declared : PlainText (if a.declared then "var " else "") := by
    split <;> decide
  have front := (((declared.append target).append (t := blank .compact) (by decide)).append (t := "=") (by decide)).append
    (t := blank .compact) (by decide)
  unfold Assignment.text
  cases a.assigned with
  | built => exact (front.append hb).append (by decide)
  | keptOrEmpty =>
      have kept := (((target.append (t := blank .compact) (by decide)).append (t := "||") (by decide)).append
        (t := blank .compact) (by decide)).append (t := "\x7b\x7d") (by decide)
      exact (front.append kept).append (by decide)

theorem exists_textOfLines {lines : List String} (h : ∀ line ∈ lines, PlainText line) :
    ∃ body, PlainText body ∧ textOfLines .compact lines = body ++ "\n" :=
  ⟨_, forall_joinStrings (by decide : PlainText "") h, rfl⟩

theorem plain_definitionArguments (name : Option String) : ∀ argument ∈ definitionArguments name, PlainText argument := by
  refine List.forall_mem_append.mpr ⟨?_, ?_⟩
  · cases name with
    | none => simp
    | some name => exact List.forall_mem_singleton.mpr (plain_quote _)
  · exact List.forall_mem_singleton.mpr
      ((PlainText.append (s := "[") (by decide) (plain_quote dependency)).append (by decide))

theorem exists_wrap_compact (hl : PlainText literal) (c : Convention) {name : Option String} (hn : ∀ n ∈ name, PlainText n) :
    ∃ body, PlainText body ∧ c.wrap .compact literal name = body ++ "\n" := by
  cases c with
  | structural => exact ⟨literal, hl, rfl⟩
  | global =>
      have build := plain_builder (by decide : PlainText globalLibrary) hl name
      refine exists_textOfLines (List.forall_mem_map.mpr fun a ha => ?_)
      exact plain_assignment build (forall_globalBindings (by decide : PlainText "_root") hn ha)
  | exported =>
      have build := plain_builder (by decide : PlainText requiredLibrary) hl name
      have target : ∀ piece ∈ ["module", "exports"], PlainText piece := by decide
      exact exists_textOfLines (List.forall_mem_singleton.mpr (plain_assignment build target))
  | defined =>
      have build := plain_builder (by decide : PlainText dependency) hl name
      have factory := ((PlainText.append (s := "function(" ++ dependency ++ ")\x7breturn ") (by decide) build).append
        (t := ";\x7d") (by decide))
      have arguments := forall_joinStrings (by decide : PlainText ",")
        (List.forall_mem_append.mpr ⟨plain_definitionArguments name, List.forall_mem_singleton.mpr factory⟩)
      have body := (PlainText.append (s := "define(") (by decide) arguments).append (t := ");") (by decide)
      exact ⟨_, body, (@String.append_assoc _ ");" "\n").symm⟩

def EndsLine (s : String) : Prop := ∃ front, s = front ++ ";\n" ∨ s = front ++ "\x7d\n"

theorem endsLine_textOfLines (layout : Layout) (lines : List String) (last : String) :
    EndsLine (textOfLines layout (lines ++ [last ++ ";"])) := by
  have hjoin : ∀ sep, ∃ front, Text.joinStrings sep (lines ++ [last ++ ";"]) = front ++ ";" := by
    intro sep
    by_cases hl : lines = []
    · exact ⟨last, by rw [hl, List.nil_append, Text.joinStrings_singleton]⟩
    · exact ⟨_, (Text.joinStrings_concat sep _ hl).trans String.append_assoc.symm⟩
  cases layout with
  | pretty =>
      obtain ⟨front, hf⟩ := hjoin "\n"
      exact ⟨front, .inl (by rw [textOfLines, hf, String.append_assoc]; rfl)⟩
  | compact =>
      obtain ⟨front, hf⟩ := hjoin ""
      exact ⟨front, .inl (by rw [textOfLines, hf, String.append_assoc]; rfl)⟩

theorem endsLine_wrap (layout : Layout) {front : String} (c : Convention) (name : Option String) :
    EndsLine (c.wrap layout (front ++ "\x7d") name) := by
  cases c with
  | structural => exact ⟨front, .inr String.append_assoc⟩
  | global =>
      obtain ⟨before, declared, target, hb, -⟩ := globalBindings_eq_append name
      rw [Convention.wrap, global, hb, List.map_append]
      exact endsLine_textOfLines layout _ _
  | exported => exact endsLine_textOfLines layout [] _
  | defined =>
      cases layout with
      | compact => exact ⟨_, .inl (@String.append_assoc _ ")" ";\n").symm⟩
      | pretty => exact endsLine_textOfLines .pretty [_, _] "\x7d)"

end Scripts

section Texts

theorem exists_write_object (layout : Layout) (d : Nat) (ms : List (String × Json)) :
    ∃ front, (Json.object ms).write layout d = front ++ ['\x7d'] := by
  cases ms with
  | nil => exact ⟨['\x7b'], by rw [Json.write]; rfl⟩
  | cons m ms =>
      rw [Json.write, ← List.cons_append]
      exact ⟨_, rfl⟩

theorem exists_string (s : Schema) (layout : Layout) : ∃ front, s.document.string layout = front ++ "\x7d" := by
  have ho : ∃ ms, s.document = .object ms := by
    cases s
    exact ⟨_, rfl⟩
  obtain ⟨ms, ho⟩ := ho
  obtain ⟨front, hf⟩ := exists_write_object layout 0 ms
  exact ⟨String.ofList front, by rw [Json.string, ho, hf, String.ofList_append]⟩

theorem mem_bare {z : Zone} {cs : List Char} {c : Char} (h : c ∈ cs) : c ∈ bare z cs ∨ c = ' ' ∨ c = '\n' := by
  induction cs generalizing z with
  | nil => cases h
  | cons d cs ih =>
      rw [bare]
      split
      · rename_i hd
        rcases List.mem_cons.mp h with rfl | h
        · exact .inr hd.2
        · exact ih h
      · rcases List.mem_cons.mp h with rfl | h
        · exact .inl List.mem_cons_self
        · exact (ih h).imp_left (List.mem_cons_of_mem d)

theorem bare_subset (z : Zone) (cs : List Char) : bare z cs ⊆ cs := by
  induction cs generalizing z with
  | nil => exact List.Subset.refl _
  | cons c cs ih =>
      rw [bare]
      split
      · exact List.subset_cons_of_subset c (ih _)
      · exact List.cons_subset_cons c (ih _)

theorem after_eq_outside_of_bare {z : Zone} {front back : List Char} (h : '\n' ∉ bare z (front ++ '\n' :: back)) :
    z.after front = .outside := by
  rw [bare_append] at h
  by_contra hz
  refine h (List.mem_append_right _ ?_)
  rw [bare, if_neg fun hb => hz hb.1]
  exact List.mem_cons_self

structure IsTidy (layout : Layout) (text : List Char) : Prop where
  plain : ∀ c ∈ text, IsPlain c ∨ c = '\n'
  outside : ∀ front back, text = front ++ '\n' :: back → Zone.outside.after front = .outside
  ends : ∃ front c, text = front ++ [c, '\n'] ∧ c ≠ '\n'
  single : layout = .compact → text.count '\n' = 1

theorem EndsLine.ends {s : String} (h : EndsLine s) : ∃ front c, s.toList = front ++ [c, '\n'] ∧ c ≠ '\n' := by
  obtain ⟨front, rfl | rfl⟩ := h
  · exact ⟨front.toList, ';', String.toList_append, by decide⟩
  · exact ⟨front.toList, '\x7d', String.toList_append, by decide⟩

def Zone.quote : Zone → Option Char
  | .outside => none
  | .inside quote | .escaped quote => some quote

theorem Zone.mem_quote_next {z : Zone} {c d : Char} (h : d ∈ (z.next c).quote) : d ∈ z.quote ∨ d = c := by
  cases z with
  | outside =>
      simp only [next] at h
      split at h
      · exact .inr (Option.some.inj h).symm
      · cases h
  | inside quote =>
      simp only [next] at h
      split at h
      · exact .inl h
      split at h
      · cases h
      · exact .inl h
  | escaped quote => exact .inl h

theorem Zone.mem_quote_after {z : Zone} {cs : List Char} {d : Char} (h : d ∈ (z.after cs).quote) :
    d ∈ z.quote ∨ d ∈ cs := by
  induction cs generalizing z with
  | nil => exact .inl h
  | cons c cs ih =>
      rcases ih (z := z.next c) h with h | h
      · exact (mem_quote_next h).imp_right fun hd => List.mem_cons.mpr (.inl hd)
      · exact .inr (List.mem_cons_of_mem c h)

theorem Zone.eq_outside_of_next {z : Zone} {c : Char} (hq : c ∉ z.quote) (h : z.next c = .outside) : z = .outside := by
  cases z with
  | outside => rfl
  | inside quote =>
      simp only [next] at h
      split at h
      · cases h
      split at h
      · rename_i hc
        exact absurd (congrArg some hc.symm) hq
      · cases h
  | escaped quote => cases h

theorem bare_line {body : String} (hb : '\n' ∉ body.toList) (hc : Closed (body ++ "\n")) :
    bare .outside (body ++ "\n").toList ⊆ body.toList := by
  have hline : (body ++ "\n").toList = body.toList ++ ['\n'] := String.toList_append
  have hz : Zone.outside.after body.toList = .outside := by
    unfold Closed at hc
    rw [hline, Zone.after_append] at hc
    refine Zone.eq_outside_of_next (fun hq => ?_) hc
    rcases Zone.mem_quote_after hq with h | h
    · cases h
    · exact hb h
  rw [hline, bare_append, hz]
  exact List.append_subset.mpr ⟨bare_subset _ _, List.nil_subset _⟩

theorem isTidy_wrap {j : Json} {front : String} {layout : Layout} (hj : j.string layout = front ++ "\x7d")
    (c : Convention) {name : Option String} (hn : ∀ n ∈ name, PlainText n ∧ Unquoted n) :
    IsTidy layout (c.wrap layout (j.string layout) name).toList := by
  -- the compact text is known to be one line, and what the other adds to it is dropped by `bare`
  obtain ⟨body, hb, hc⟩ := exists_wrap_compact (plain_string j) c fun n hm => (hn n hm).1
  have alike := alike_wrap (alike_string j) c fun n hm => (hn n hm).2
  rw [hc] at alike
  have hline := bare_line hb.lineFeed_not_mem alike.closed_right
  have hbare : bare .outside (c.wrap layout (j.string layout) name).toList ⊆ body.toList := by
    cases layout with
    | compact => exact hc ▸ hline
    | pretty => exact alike.bare_eq ▸ hline
  refine ⟨fun d hd => ?_, fun before back ht => ?_, ?_, ?_⟩
  · rcases mem_bare (z := .outside) hd with hd | rfl | rfl
    · exact .inl (hb d (hbare hd))
    · exact .inl (by decide)
    · exact .inr rfl
  · rw [ht] at hbare
    exact after_eq_outside_of_bare fun hm => hb.lineFeed_not_mem (hbare hm)
  · rw [hj]
    exact (endsLine_wrap layout c name).ends
  · rintro rfl
    rw [hc, String.toList_append, List.count_append, List.count_eq_zero_of_not_mem hb.lineFeed_not_mem]
    rfl

end Texts

section Namespaces

open Namespace

variable {s : Schema} {name : Option String}

theorem plain_of_isValid (hw : s.IsWellFormed) {n : String} (h : isValid s n = true) : PlainText n := by
  obtain ⟨segments, hspelled, -⟩ := (isValid_iff hw).mp h
  intro c hc
  rcases hspelled.mem c hc with hs | rfl
  · exact isPlain_of_isSegmentChar hs
  · decide

theorem plain_of_scope (hw : s.IsWellFormed) {c : Convention} {request : Request} (h : s.scope c request = .ok name) :
    ∀ n ∈ name, PlainText n := by
  unfold Schema.scope at h
  split at h
  · cases h
    exact nofun
  unfold resolve at h
  split at h
  · cases h
    exact nofun
  split at h
  · rename_i hv
    cases h
    rintro n ⟨⟩
    exact plain_of_isValid hw hv
  · cases h

end Namespaces

theorem isTidy_render {s : Schema} (h : Composition.IsProduced s) {c : Convention} {request : Namespace.Request}
    {layout : Layout} {text : String} (hr : s.render c request layout = .ok text) : IsTidy layout text.toList := by
  obtain ⟨name, hn, -, rfl⟩ := Schema.render_eq_ok_iff.mp hr
  obtain ⟨front, hf⟩ := exists_string s layout
  exact isTidy_wrap hf c fun n hm => ⟨plain_of_scope h.isWellFormed hn n hm, unquoted_of_scope hn n hm⟩

def separators : String :=
  "syntax='\u2028\x7f';package a.b;import \"\u0085\";option c=\"\\x1f\\377\u00e9\u2029\";"

theorem isTidy_render_separators : ∃ s text text', Schema.ofText none separators = .ok s ∧
    s.render .global (.named ".a.b") .compact = .ok text ∧ IsTidy .compact text.toList ∧
    s.render .global (.named ".a.b") .pretty = .ok text' ∧ IsTidy .pretty text'.toList := by
  have hr : ((Schema.ofText none separators).toOption.map fun s =>
      ((s.render .global (.named ".a.b") .compact).toOption.isSome,
        (s.render .global (.named ".a.b") .pretty).toOption.isSome)) = some (true, true) := by decide +kernel
  obtain ⟨s, hs, hboth⟩ := Option.map_eq_some_iff.mp hr
  obtain ⟨hcompact, hpretty⟩ := Prod.mk.inj hboth
  obtain ⟨text, hc⟩ := Option.isSome_iff_exists.mp hcompact
  obtain ⟨text', hp⟩ := Option.isSome_iff_exists.mp hpretty
  have ht : Schema.ofText none separators = .ok s := eq_ok_of_toOption hs
  have hc := eq_ok_of_toOption hc
  have hp := eq_ok_of_toOption hp
  exact ⟨s, text, text', ht, hc, isTidy_render (.read ht) hc, hp, isTidy_render (.read ht) hp⟩

end ProtoBundle.Rendering
