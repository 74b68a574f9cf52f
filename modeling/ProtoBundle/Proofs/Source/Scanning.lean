import ProtoBundle.Proofs.Source.NamePatterns
import ProtoBundle.Proofs.Source.ValuePatterns
import ProtoBundle.Source.Cursor

namespace ProtoBundle.Source

open Pattern

def Terminal.pattern : Terminal → Pattern
  | .word w => text w.toList
  | .label => seq (choice (text "required".toList) (["optional", "repeated"].map fun w => text w.toList)) boundary
  | .stream => whole "stream"
  | .importKind => choice (text "public".toList) (["weak"].map fun w => text w.toList)
  | .maximum => text "max".toList
  | .special =>
      seq (char isSign) (seq (choice (text "inf".toList) (["nan"].map fun w => text w.toList)) boundary)
  | .identifier => Pattern.identifier
  | .dottedName => dotted
  | .typeName => Pattern.typeName
  | .optionName => Pattern.optionName
  | .integer => Pattern.integer
  | .signedInteger => seq (optional (char isSign)) Pattern.integer
  | .float => seq (optional (char isSign)) Pattern.float
  | .quoted => either (quotedBy '"') (quotedBy '\'')

theorem Terminal.finds_pattern (t : Terminal) : t.pattern.Finds t.length := by
  cases t with
  | word w => exact finds_text w.toList
  | label => exact finds_wholes (by decide)
  | stream => exact finds_whole (by decide)
  | importKind => exact finds_choice fun v _ => finds_text v.toList
  | maximum => exact finds_text _
  | special =>
      have hw : Finds _ (firstOf wholeWord ["inf", "nan"]) := finds_wholes (by decide)
      refine (finds_char_seq isSign hw).congr fun cs => ?_
      cases cs with
      | nil => rfl
      | cons c cs =>
          rw [then_charScan_cons]
          simp only [Terminal.length, Nat.add_comm 1]
  | identifier => exact finds_identifier
  | dottedName => exact finds_dotted
  | typeName => exact finds_typeName
  | optionName => exact finds_optionName
  | integer => exact finds_integer
  | signedInteger => exact finds_signed_integer
  | float => exact finds_signed_float
  | quoted => exact finds_quoted

inductive Ignored where
  | blanks
  | lineComment
  | blockComment
  deriving DecidableEq, Repr

def Ignored.pattern : Ignored → Pattern
  | .blanks => plus isSpacing
  | .lineComment => seq (char (· == '/')) (seq (char (· == '/')) (many (char (· != '\n'))))
  | .blockComment =>
      seq (char (· == '/')) (seq (char (· == '*'))
        (seq (few (char fun _ => true)) (seq (char (· == '*')) (char (· == '/')))))

def slashed (mark : Char) (scan : Scan) : Scan := then_ (charScan (· == '/')) (then_ (charScan (· == mark)) scan)

def Ignored.length : Ignored → Scan
  | .blanks => plusScan isSpacing
  | .lineComment => slashed '/' fun cs => some (countWhile (· != '\n') cs)
  | .blockComment => slashed '*' blockRest

theorem slashed_cons (mark : Char) (scan : Scan) (cs : List Char) :
    slashed mark scan ('/' :: mark :: cs) = (scan cs).map (· + 2) := by
  rw [slashed, then_charScan_cons, then_charScan_cons, if_pos (beq_self_eq_true _), if_pos (beq_self_eq_true _),
    Option.map_map]
  congr 1
  funext n
  simp only [Function.comp]
  omega

theorem slashed_of_ne {mark : Char} {cs : List Char} (h : ∀ ds, cs ≠ '/' :: mark :: ds) (scan : Scan) :
    slashed mark scan cs = none := by
  unfold slashed
  cases cs with
  | nil => rfl
  | cons c cs =>
      rw [then_charScan_cons]
      split
      · rename_i hc
        rw [eq_of_beq hc] at h
        have hn : ∀ d ∈ cs.head?, (d == mark) = false := by
          intro d hd
          obtain ⟨ds, rfl⟩ := List.head?_eq_some_iff.mp hd
          have hne : d ≠ mark := fun he => h ds (he ▸ rfl)
          simpa using hne
        rw [then_charScan_of_head hn]
        rfl
      · rfl

def commentEnd : Pattern := seq (char (· == '*')) (char (· == '/'))

theorem finds_commentEnd : Finds commentEnd (then_ (charScan (· == '*')) (charScan (· == '/'))) :=
  finds_char_seq _ (finds_char _)

theorem blockRest_end (cs : List Char) : blockRest ('*' :: '/' :: cs) = some 2 := rfl

theorem blockRest_of_no_end {c : Char} {cs : List Char}
    (h : then_ (charScan (· == '*')) (charScan (· == '/')) (c :: cs) = none) :
    blockRest (c :: cs) = (blockRest cs).map (· + 1) := by
  rw [blockRest]
  rintro ds rfl rfl
  cases h

theorem within_blockRest : Within blockRest := by
  intro cs
  fun_induction blockRest cs with
  | case1 => exact fun n hn => by cases hn
  | case2 => exact fun n hn => Option.mem_some.mp hn ▸ Nat.succ_le_succ (Nat.succ_pos _)
  | case3 c cs _ ih =>
      intro n hn
      obtain ⟨m, hm, rfl⟩ := Option.map_eq_some_iff.mp hn
      exact Nat.succ_le_succ (ih m hm)

theorem finds_blockRest : Finds (seq (few (char fun _ => true)) commentEnd) blockRest := by
  refine ⟨?_, within_blockRest⟩
  rintro ⟨before, cs⟩
  have hf := fun s => (consumes_char fun _ => true).attempt_few (commentEnd.attempt some) s
  induction cs generalizing before with
  | nil => rfl
  | cons c cs ih =>
      rw [attempt_seq, hf, finds_commentEnd.attempt_eq]
      have hc : (char fun _ => true).attempt ((few (char fun _ => true)).attempt (commentEnd.attempt some))
          ⟨before, c :: cs⟩ = (blockRest cs).map (Spot.advance ⟨some c, cs⟩) := ih (some c)
      rw [hc]
      cases he : then_ (charScan (· == '*')) (charScan (· == '/')) (c :: cs) with
      | none =>
          rw [blockRest_of_no_end he, Option.map_none, Option.none_or, Option.map_map]
          rfl
      | some n =>
          rw [then_charScan_cons] at he
          split at he
          · rename_i hstar
            cases cs with
            | nil => cases he
            | cons d ds =>
                rw [charScan] at he
                split at he
                · rename_i hslash
                  cases he
                  rw [eq_of_beq hstar, eq_of_beq hslash, blockRest_end]
                  rfl
                · cases he
          · cases he

theorem Ignored.finds_pattern (i : Ignored) : i.pattern.Finds i.length := by
  cases i with
  | blanks => exact finds_plus _
  | lineComment => exact finds_char_seq _ (finds_char_seq _ (finds_many _))
  | blockComment => exact finds_char_seq _ (finds_char_seq _ finds_blockRest)

theorem Ignored.exists_iff {P : Ignored → Prop} : (∃ i, P i) ↔ P .blanks ∨ P .lineComment ∨ P .blockComment := by
  constructor
  · rintro ⟨i, hi⟩
    cases i with
    | blanks => exact .inl hi
    | lineComment => exact .inr (.inl hi)
    | blockComment => exact .inr (.inr hi)
  · rintro (h | h | h) <;> exact ⟨_, h⟩

theorem layoutLength_block (cs : List Char) :
    layoutLength ('/' :: '*' :: cs) = ((blockRest cs).map (· + 2)).getD 0 := by
  rw [layoutLength]
  cases blockRest cs <;> rfl

theorem layoutLength_of_ne {cs : List Char} (hl : ∀ ds, cs ≠ '/' :: '/' :: ds) (hb : ∀ ds, cs ≠ '/' :: '*' :: ds) :
    layoutLength cs = countWhile isSpacing cs := by
  rw [layoutLength]
  · exact hl
  · exact hb

theorem plusScan_slash (cs : List Char) : plusScan isSpacing ('/' :: cs) = none := rfl

theorem layoutLength_iff (cs : List Char) (n : Nat) :
    0 < n ∧ layoutLength cs = n ↔ ∃ i : Ignored, i.length cs = some n := by
  rw [Ignored.exists_iff]
  simp only [Ignored.length]
  by_cases hl : ∃ ds, cs = '/' :: '/' :: ds
  · obtain ⟨ds, rfl⟩ := hl
    have hb : ∀ es, '/' :: '/' :: ds ≠ '/' :: '*' :: es := by simp
    rw [plusScan_slash, slashed_cons, slashed_of_ne hb]
    simp only [reduceCtorEq, false_or, or_false, Option.map_some, Option.some.injEq]
    constructor
    · exact fun h => h.2
    · exact fun h => ⟨h ▸ Nat.succ_pos _, h⟩
  by_cases hb : ∃ ds, cs = '/' :: '*' :: ds
  · obtain ⟨ds, rfl⟩ := hb
    have hl : ∀ es, '/' :: '*' :: ds ≠ '/' :: '/' :: es := by simp
    rw [plusScan_slash, slashed_cons, slashed_of_ne hl, layoutLength_block]
    cases blockRest ds with
    | none =>
        simp only [reduceCtorEq, false_or, Option.map_none, Option.getD_none, iff_false, not_and]
        omega
    | some m =>
        simp only [reduceCtorEq, false_or, Option.map_some, Option.getD_some, Option.some.injEq]
        omega
  rw [not_exists] at hl hb
  rw [layoutLength_of_ne hl hb, slashed_of_ne hl, slashed_of_ne hb, plusScan]
  split
  · simp only [reduceCtorEq, or_false, Option.some.injEq]
    omega
  · simp only [reduceCtorEq, or_false, iff_false, not_and]
    omega

end ProtoBundle.Source
