import Mathlib.Tactic.Choose
import ProtoBundle.Proofs.Number.Bases
import ProtoBundle.Proofs.Source.ValuePatterns
import ProtoBundle.Source.Quotation

namespace ProtoBundle.Source

open Number (ofDigits isHexDigit_of_isOctalDigit)
open Text (isHexDigit isOctalDigit)

def simpleEscapes : List (Char × Char) :=
  [('a', '\x07'), ('b', '\x08'), ('f', '\x0c'), ('n', '\n'), ('r', '\r'), ('t', '\t'), ('v', '\x0b'), ('\\', '\\'),
   ('\'', '\''), ('"', '"'), ('?', '?')]

def startsEscape (c : Char) : Bool :=
  (simpleEscapes.map Prod.fst).contains c || c == 'x' || c == 'X' || isOctalDigit c

inductive Spells (quote : Char) : Char → List Char → Prop where
  | plain {c : Char} (hq : c ≠ quote) (hb : c ≠ '\\') (hn : c ≠ '\n') : Spells quote c [c]
  | simple {e c : Char} (h : (e, c) ∈ simpleEscapes) : Spells quote c ['\\', e]
  | hexadecimal {x d e c : Char} (hx : x = 'x' ∨ x = 'X') (hd : isHexDigit d = true) (he : isHexDigit e = true)
      (hc : c.toNat = ofDigits 16 [d, e]) : Spells quote c ['\\', x, d, e]
  | octal {d e f c : Char} (hd : isOctalDigit d = true) (he : isOctalDigit e = true) (hf : isOctalDigit f = true)
      (hc : c.toNat = ofDigits 8 [d, e, f]) : Spells quote c ['\\', d, e, f]
  | escaped {c : Char} (h : startsEscape c = false) : Spells quote c ['\\', c]

def continuedLine : List Char := ['\\', '\n']

abbrev Spelling := List (Char × List Char)

namespace Spelling

def characters (s : Spelling) : List Char := s.map Prod.fst

def text (s : Spelling) : List Char := s.flatMap Prod.snd

def quoted (quote : Char) (s : Spelling) : List Char := quote :: (s.text ++ [quote])

def IsFor (quote : Char) (s : Spelling) : Prop := ∀ p ∈ s, Spells quote p.1 p.2

def HasNoContinuedLine (s : Spelling) : Prop := ∀ p ∈ s, p.2 ≠ continuedLine

end Spelling

def IsQuote (c : Char) : Prop := c = '"' ∨ c = '\''

section Lexemes

variable {quote c : Char} {w : List Char}

theorem quotedRest_escape {d : Char} (hd : d ≠ '\n') (rest : List Char) :
    quotedRest quote ('\\' :: d :: rest) = (quotedRest quote rest).map (· + 2) := by
  rw [quotedRest]
  simp only [if_true, hd, if_false]

theorem quotedRest_plain (h : ∀ d ∈ w, d ≠ quote ∧ d ≠ '\\' ∧ d ≠ '\n') (rest : List Char) :
    quotedRest quote (w ++ rest) = (quotedRest quote rest).map (· + w.length) := by
  induction w with
  | nil => simp
  | cons d w ih =>
      obtain ⟨⟨hq, hb, hn⟩, hw⟩ := List.forall_mem_cons.mp h
      rw [List.cons_append, Pattern.quotedRest_of_ne hb, if_neg hq, if_neg hn, ih hw, Option.map_map]
      rfl

theorem ne_of_isHexDigit_quoted (hq : IsQuote quote) (hc : isHexDigit c = true) : c ≠ quote ∧ c ≠ '\\' ∧ c ≠ '\n' := by
  refine ⟨?_, ?_, ?_⟩
  · rintro rfl
    rcases hq with rfl | rfl <;> exact absurd hc (by decide)
  · rintro rfl
    exact absurd hc (by decide)
  · rintro rfl
    exact absurd hc (by decide)

theorem Spells.quotedRest_append (h : Spells quote c w) (hq : IsQuote quote) (hw : w ≠ continuedLine)
    (rest : List Char) : quotedRest quote (w ++ rest) = (quotedRest quote rest).map (· + w.length) := by
  -- Digits behind the letter of an escape are read as they would be without it.
  have hdigits {e : Char} (ds : List Char) (he : e ≠ '\n') (hds : ∀ d ∈ ds, isHexDigit d = true) :
      quotedRest quote ('\\' :: e :: ds ++ rest) = (quotedRest quote rest).map (· + (ds.length + 2)) := by
    rw [List.cons_append, List.cons_append, quotedRest_escape he,
      quotedRest_plain (fun d hd => ne_of_isHexDigit_quoted hq (hds d hd)), Option.map_map]
    rfl
  cases h with
  | plain hne hb hn => exact quotedRest_plain (List.forall_mem_singleton.mpr ⟨hne, hb, hn⟩) rest
  | @simple e c h =>
      have he : ∀ p ∈ simpleEscapes, p.1 ≠ '\n' := by decide
      exact quotedRest_escape (he _ h) rest
  | @hexadecimal x d e c hx hd he =>
      have hn : x ≠ '\n' := by
        rintro rfl
        rcases hx with hx | hx <;> cases hx
      exact hdigits [d, e] hn (by simp [hd, he])
  | @octal d e f c hd he hf =>
      have hn := (ne_of_isHexDigit_quoted hq (isHexDigit_of_isOctalDigit hd)).2.2
      exact hdigits [e, f] hn (by simp [isHexDigit_of_isOctalDigit he, isHexDigit_of_isOctalDigit hf])
  | escaped h =>
      have hn : c ≠ '\n' := by
        rintro rfl
        exact hw rfl
      exact quotedRest_escape hn rest

theorem length_quoted {s : Spelling} (hq : IsQuote quote) (h : s.IsFor quote) (hn : s.HasNoContinuedLine)
    (rest : List Char) :
    Terminal.quoted.length (s.quoted quote ++ rest) = some (s.quoted quote).length := by
  have hinner : quotedRest quote (s.text ++ quote :: rest) = some (s.text.length + 1) := by
    induction s with
    | nil =>
        have hb : quote ≠ '\\' := by
          rintro rfl
          rcases hq with hq | hq <;> cases hq
        exact (Pattern.quotedRest_of_ne hb rest).trans (if_pos rfl)
    | cons p s ih =>
        obtain ⟨hp, hs⟩ := List.forall_mem_cons.mp h
        obtain ⟨hpn, hsn⟩ := List.forall_mem_cons.mp hn
        rw [Spelling.text, List.flatMap_cons, List.append_assoc, hp.quotedRest_append hq hpn]
        rw [← Spelling.text, ih hs hsn, Option.map_some, List.length_append]
        congr 1
        omega
  have hopen : quote = '"' ∨ quote = '\'' := hq
  rw [Terminal.length, Spelling.quoted, List.cons_append, List.append_assoc, List.singleton_append, quotedLength,
    if_pos hopen, hinner, Option.map_some, List.length_cons, List.length_append, List.length_singleton]

end Lexemes

section Meanings

variable {quote c : Char} {w : List Char}

theorem escape_of_no_digits {e : Char} (hx : e ≠ 'x') (hX : e ≠ 'X') (ho : isOctalDigit e = false) (rest : List Char) :
    escape e rest = (controlEscape e, rest) := by
  rw [escape, if_neg (by simp [hx, hX]), if_neg (by simp [ho])]

theorem controlEscape_of_not_starts (h : startsEscape c = false) : controlEscape c = c := by
  unfold controlEscape
  split <;> first | rfl | exact absurd h (by decide)

theorem escape_of_not_starts (h : startsEscape c = false) (rest : List Char) : escape c rest = (c, rest) := by
  have hc := controlEscape_of_not_starts h
  simp only [startsEscape, Bool.or_eq_false_iff, beq_eq_false_iff_ne] at h
  rw [escape_of_no_digits h.1.1.2 h.1.2 h.2, hc]

theorem Spells.unescape_append (h : Spells quote c w) (rest : List Char) :
    unescape (w ++ rest) = c :: unescape rest := by
  cases h with
  | plain _ hb _ =>
      rw [List.singleton_append, unescape]
      · exact fun hc => absurd hc hb
      · exact fun _ _ hc => absurd hc hb
  | @simple e c h =>
      have hall : ∀ p ∈ simpleEscapes, p.1 ≠ 'x' ∧ p.1 ≠ 'X' ∧ isOctalDigit p.1 = false ∧ controlEscape p.1 = p.2 := by
        decide
      obtain ⟨hx, hX, ho, hc⟩ := hall _ h
      rw [List.cons_append, List.singleton_append, unescape, escape_of_no_digits hx hX ho, hc]
  | @hexadecimal x d e c hx hd he hc =>
      have hdigits : leadingDigits isHexDigit 2 (d :: e :: rest) = [d, e] := by simp [leadingDigits, hd, he]
      have hesc : escape x (d :: e :: rest) = (c, rest) := by
        rw [escape, hdigits, if_pos ⟨hx, by simp⟩, ← hc, Char.ofNat_toNat]
        rfl
      simp only [List.cons_append, List.nil_append]
      rw [unescape, hesc]
  | @octal d e f c hd he hf hc =>
      have hdigits : leadingDigits isOctalDigit 2 (e :: f :: rest) = [e, f] := by simp [leadingDigits, he, hf]
      have hx : ¬((d = 'x' ∨ d = 'X') ∧ leadingDigits isHexDigit 2 (e :: f :: rest) ≠ []) := by
        rintro ⟨rfl | rfl, -⟩ <;> exact absurd hd (by decide)
      have hesc : escape d (e :: f :: rest) = (c, rest) := by
        rw [escape, if_neg hx, if_pos hd, hdigits]
        dsimp only
        rw [← hc, Char.ofNat_toNat]
        rfl
      simp only [List.cons_append, List.nil_append]
      rw [unescape, hesc]
  | escaped h => rw [List.cons_append, List.singleton_append, unescape, escape_of_not_starts h]

theorem unescape_text {s : Spelling} (h : s.IsFor quote) (rest : List Char) :
    unescape (s.text ++ rest) = s.characters ++ unescape rest := by
  induction s with
  | nil => rfl
  | cons p s ih =>
      obtain ⟨hp, hs⟩ := List.forall_mem_cons.mp h
      rw [Spelling.text, List.flatMap_cons, List.append_assoc, hp.unescape_append, ← Spelling.text, ih hs]
      rfl

theorem unquote_quoted {s : Spelling} (h : s.IsFor quote) : unquote (s.quoted quote) = s.characters := by
  have ht := unescape_text h []
  rw [List.append_nil] at ht
  rw [unquote, Spelling.quoted, List.tail_cons, List.dropLast_concat, ht, unescape, List.append_nil]

end Meanings

section Denotation

variable {quote : Char}

theorem exists_spells (hq : IsQuote quote) (c : Char) : ∃ w, Spells quote c w ∧ w ≠ continuedLine := by
  by_cases hn : c = '\n'
  · exact ⟨['\\', 'n'], .simple (by simp [hn, simpleEscapes]), by decide⟩
  · by_cases hb : c = '\\'
    · exact ⟨['\\', '\\'], .simple (by simp [hb, simpleEscapes]), by decide⟩
    · by_cases hc : c = quote
      · refine ⟨['\\', c], .simple ?_, by simp [continuedLine, hn]⟩
        rcases hq with rfl | rfl <;> simp [hc, simpleEscapes]
      · exact ⟨[c], .plain hc hb hn, by simp [continuedLine]⟩

theorem quoted_denotes (hq : IsQuote quote) :
    (∀ s : Spelling, s.IsFor quote → s.HasNoContinuedLine →
      (∀ rest, Terminal.quoted.length (s.quoted quote ++ rest) = some (s.quoted quote).length) ∧
      unquote (s.quoted quote) = s.characters ∧
      ∀ rest, unescape (s.text ++ rest) = s.characters ++ unescape rest) ∧
    ∀ cs, ∃ s : Spelling, s.IsFor quote ∧ s.HasNoContinuedLine ∧ s.characters = cs := by
  refine ⟨fun s h hn => ⟨length_quoted hq h hn, unquote_quoted h, unescape_text h⟩, fun cs => ?_⟩
  choose spell hs hn using exists_spells hq
  refine ⟨cs.map fun c => (c, spell c), ?_, ?_, ?_⟩
  · exact List.forall_mem_map.mpr fun c _ => hs c
  · exact List.forall_mem_map.mpr fun c _ => hn c
  · simp [Spelling.characters, Function.comp_def]

def crowdedSpelling : Spelling :=
  [('\\', ['\\', '\\']), ('n', ['n']), ('A', ['\\', 'X', '4', '1']), ('1', ['1']), ('\x01', ['\\', '0', '0', '1']),
   ('7', ['7']), ('8', ['\\', '8']), ('"', ['"']), ('\'', ['\\', '\''])]

theorem quoted_denotes_crowded : crowdedSpelling.IsFor '\'' ∧
    Terminal.quoted.length (crowdedSpelling.quoted '\'' ++ "'".toList) = some (crowdedSpelling.quoted '\'').length ∧
    unquote (crowdedSpelling.quoted '\'') = "\\nA1\x0178\"'".toList := by
  have h : crowdedSpelling.IsFor '\'' := by
    simp only [Spelling.IsFor, crowdedSpelling, List.forall_mem_cons]
    refine ⟨.simple (by decide), .plain (by decide) (by decide) (by decide),
      .hexadecimal (.inr rfl) (by decide) (by decide) (by decide), .plain (by decide) (by decide) (by decide),
      .octal (by decide) (by decide) (by decide) (by decide), .plain (by decide) (by decide) (by decide),
      .escaped (by decide), .plain (by decide) (by decide) (by decide), .simple (by decide), nofun⟩
  have hn : crowdedSpelling.HasNoContinuedLine := by
    unfold Spelling.HasNoContinuedLine
    decide
  obtain ⟨hl, hu, -⟩ := (quoted_denotes (.inr rfl)).1 crowdedSpelling h hn
  exact ⟨h, hl _, hu.trans (by decide)⟩

/-- A backslash before a line feed would stand for it, but a quoted text does not reach beyond its line. -/
theorem quoted_continuedLine : Spelling.IsFor '"' [('\n', continuedLine)] ∧
    Terminal.quoted.length (Spelling.quoted '"' [('\n', continuedLine)]) = none ∧
    unquote (Spelling.quoted '"' [('\n', continuedLine)]) = ['\n'] := by
  have h : Spelling.IsFor '"' [('\n', continuedLine)] := List.forall_mem_singleton.mpr (.escaped (by decide))
  exact ⟨h, by decide, unquote_quoted h⟩

end Denotation

end ProtoBundle.Source
