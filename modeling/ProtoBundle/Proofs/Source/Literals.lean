import ProtoBundle.Proofs.Number.Lexemes
import ProtoBundle.Proofs.Source.Preference
import ProtoBundle.Proofs.Source.Spelling

namespace ProtoBundle.Source

section Integers

open Number (decimal signedDecimal)

variable (i : Int)

theorem takes_signedInteger : Terminal.signedInteger.Takes (signedDecimal i) := by
  obtain ⟨base, h⟩ := Number.exists_writesInteger_signedDecimal i
  exact Number.length_signedInteger_iff.mpr ⟨base, i, h⟩

theorem takes_integer (n : Nat) : Terminal.integer.Takes (decimal n) := by
  obtain ⟨base, h⟩ := Number.exists_writesNatural_decimal n
  have hl := h.integerLength_append endsNumber_nil
  rwa [List.append_nil] at hl

theorem length_signedDecimal : ∀ t ∈ [Terminal.float, .special, .quoted, .dottedName],
    t.length (signedDecimal i) = none := by
  obtain ⟨base, h⟩ := Number.exists_writesInteger_signedDecimal i
  have hl := h.length_eq_none endsNumber_nil
  rwa [List.append_nil] at hl

end Integers

section Texts

def escapeChar (c : Char) : List Char :=
  if c = '"' then ['\\', '"'] else if c = '\\' then ['\\', '\\'] else if c = '\n' then ['\\', 'n'] else [c]

/-- A text in quotes. Quotes, backslashes and line feeds stand behind a backslash. -/
def quote (cs : List Char) : List Char := '"' :: (cs.flatMap escapeChar ++ ['"'])

theorem spells_escapeChar (c : Char) : Spells '"' c (escapeChar c) ∧ escapeChar c ≠ continuedLine := by
  unfold escapeChar
  split
  · rename_i h
    exact ⟨.simple (by simp [h, simpleEscapes]), by decide⟩
  · split
    · rename_i h
      exact ⟨.simple (by simp [h, simpleEscapes]), by decide⟩
    · split
      · rename_i h
        exact ⟨.simple (by simp [h, simpleEscapes]), by decide⟩
      · exact ⟨.plain ‹_› ‹_› ‹_›, by simp [continuedLine]⟩

def escapedSpelling (cs : List Char) : Spelling := cs.map fun c => (c, escapeChar c)

theorem quote_eq_quoted (cs : List Char) : quote cs = (escapedSpelling cs).quoted '"' := by
  rw [quote, Spelling.quoted, Spelling.text, escapedSpelling, List.flatMap_map]

theorem escapedSpelling_isFor (cs : List Char) : (escapedSpelling cs).IsFor '"' :=
  List.forall_mem_map.mpr fun c _ => (spells_escapeChar c).1

theorem takes_quoted (cs : List Char) : Terminal.quoted.Takes (quote cs) := by
  have hn : (escapedSpelling cs).HasNoContinuedLine := List.forall_mem_map.mpr fun c _ => (spells_escapeChar c).2
  have hl := length_quoted (.inl rfl) (escapedSpelling_isFor cs) hn []
  rwa [List.append_nil, ← quote_eq_quoted] at hl

theorem unquote_quote (cs : List Char) : unquote (quote cs) = cs := by
  rw [quote_eq_quoted, unquote_quoted (escapedSpelling_isFor cs)]
  simp [Spelling.characters, escapedSpelling, Function.comp_def]

theorem length_quote {t : Terminal} (ht : t.Listed) (hq : t ≠ .quoted) (cs : List Char) : t.length (quote cs) = none :=
  t.length_border ht hq (by decide) _

end Texts

section Types

theorem eq_append_of_literal {w cs : List Char} {n : Nat} (h : literal w cs = some n) : cs = w ++ cs.drop n := by
  induction w generalizing cs n with
  | nil =>
      cases h
      rfl
  | cons c w ih =>
      cases cs with
      | nil => cases h
      | cons d cs =>
          rw [literal, Option.ite_none_right_eq_some] at h
          obtain ⟨rfl, h⟩ := h
          obtain ⟨m, hm, rfl⟩ := Option.map_eq_some_iff.mp h
          rw [List.drop_succ_cons, List.cons_append, ← ih hm]

theorem eq_append_of_stream {cs : List Char} {n : Nat} (h : Terminal.stream.length cs = some n) :
    cs = "stream".toList ++ cs.drop n := by
  rw [Terminal.length, wholeWord] at h
  split at h
  · rename_i m hm
    rw [Option.ite_none_right_eq_some] at h
    obtain ⟨-, ⟨⟩⟩ := h
    exact eq_append_of_literal hm
  · cases h

theorem undottedTypeLength_eq_some {cs : List Char} {n : Nat} (h : undottedTypeLength cs = some n) :
    dottedLength cs = some n := by
  rw [undottedTypeLength, Option.ite_none_left_eq_some] at h
  exact h.2

theorem typeLength_of_dottedRest {cs : List Char} {n : Nat} (h : dottedRest cs = cs.length)
    (hn : typeLength cs = some n) : n = cs.length := by
  unfold typeLength at hn
  split at hn
  · rename_i ds
    obtain ⟨m, hm, rfl⟩ := Option.map_eq_some_iff.mp hn
    have hd := undottedTypeLength_eq_some hm
    cases ds with
    | nil => cases hd
    | cons d ds =>
        rw [dottedLength, Option.ite_none_right_eq_some, Option.some.injEq] at hd
        obtain ⟨hs, rfl⟩ := hd
        rw [dottedRest, if_pos hs] at h
        simp only [List.length_cons] at h ⊢
        omega
  · rename_i hdot
    have hd := undottedTypeLength_eq_some hn
    cases cs with
    | nil => cases hd
    | cons c cs =>
        rw [dottedLength, Option.ite_none_right_eq_some, Option.some.injEq] at hd
        obtain ⟨-, rfl⟩ := hd
        have hc : ∀ d ds, c = '.' → cs = d :: ds → False := by
          rintro d ds rfl rfl
          exact hdot (d :: ds) rfl
        rw [dottedRest.eq_3 _ _ hc] at h
        split at h
        · simp only [List.length_cons] at h ⊢
          omega
        · simp only [List.length_cons] at h
          omega

theorem takes_rest_of_stream {cs : List Char} (h : Terminal.typeName.Takes cs) {n m : Nat}
    (hs : Terminal.stream.length cs = some n) (hm : Terminal.typeName.length (cs.drop n) = some m) :
    Terminal.typeName.Takes (cs.drop n) := by
  have hcs := eq_append_of_stream hs
  generalize cs.drop n = rest at hcs hm ⊢
  subst hcs
  have hd : dottedLength ("stream".toList ++ rest) = some ("stream".toList ++ rest).length :=
    undottedTypeLength_eq_some h
  have hrest : dottedRest rest = rest.length := by
    have hlen : dottedLength ("stream".toList ++ rest) = some (dottedRest rest + 6) := by
      simp [dottedLength, dottedRest, startsName, continuesName, Text.isLetter]
    rw [hlen, List.length_append] at hd
    have heq := Option.some.inj hd
    change dottedRest rest + 6 = 6 + rest.length at heq
    omega
  rw [Terminal.Takes, hm, typeLength_of_dottedRest hrest hm]

end Types

end ProtoBundle.Source
