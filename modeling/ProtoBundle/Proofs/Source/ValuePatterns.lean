import ProtoBundle.Proofs.Source.Finding

namespace ProtoBundle.Source.Pattern

open Text (isDigit isHexDigit isOctalDigit)

section Numbers

def isMarkX (c : Char) : Bool := c == 'x' || c == 'X'

def isMarkE (c : Char) : Bool := c == 'e' || c == 'E'

def isLeading (c : Char) : Bool := decide ('1' ≤ c) && decide (c ≤ '9')

def integer : Pattern :=
  either (seq (char (· == '0')) (seq (char isMarkX) (plus isHexDigit)))
    (either (seq (char (· == '0')) (many (char isOctalDigit))) (seq (char isLeading) (many (char isDigit))))

def exponent : Pattern := seq (char isMarkE) (seq (optional (char isSign)) (plus isDigit))

def float : Pattern :=
  either (seq (plus isDigit) (seq (char (· == '.')) (seq (many (char isDigit)) (optional exponent))))
    (either (seq (plus isDigit) exponent)
      (seq (char (· == '.')) (seq (plus isDigit) (optional exponent))))

theorem isLeading_eq {c : Char} (h : c ≠ '0') : isLeading c = isDigit c := by
  have h0 : c.toNat ≠ 48 := fun hn => h (Char.toNat_inj.mp hn)
  have hc : ('1' ≤ c) ↔ ('0' ≤ c) := by
    change 49 ≤ c.toNat ↔ 48 ≤ c.toNat
    omega
  rw [isLeading, isDigit, decide_eq_decide.mpr hc]

theorem finds_integer : Finds integer integerLength := by
  refine (finds_either (finds_char_seq _ (finds_char_seq _ (finds_plus _)))
    (finds_either (finds_char_seq _ (finds_many _)) (finds_char_seq _ (finds_many _)))).congr fun cs => ?_
  cases cs with
  | nil => rfl
  | cons c cs =>
      simp only [then_charScan_cons]
      by_cases hc : c = '0'
      · subst hc
        have hl : isLeading '0' = false := rfl
        simp only [beq_self_eq_true, if_true, hl, Bool.false_eq_true, if_false, Option.or_none, Option.map_some]
        cases cs with
        | nil => rfl
        | cons x hex =>
            have hx : isMarkX x = true ↔ x = 'x' ∨ x = 'X' := by simp [isMarkX]
            simp only [then_charScan_cons, hx, plusScan, integerLength]
            by_cases hm : x = 'x' ∨ x = 'X'
            · by_cases h0 : 0 < countWhile isHexDigit hex
              · simp only [hm, h0, if_true, and_self, Option.map_some, Option.some_or]
                congr 1
                omega
              · simp only [hm, h0, if_true, if_false, and_false, Option.map_none, Option.none_or]
                congr 1
                omega
            · simp only [hm, if_false, false_and, Option.map_none, Option.none_or]
              congr 1
              omega
      · have hb : (c == '0') = false := by simpa using hc
        have hi : integerLength (c :: cs) = if isDigit c then some (countWhile isDigit cs + 1) else none :=
          integerLength.eq_4 c cs hc
        simp only [hb, Bool.false_eq_true, if_false, Option.none_or, isLeading_eq hc, hi, Option.map_some,
          Nat.add_comm 1]

theorem finds_signed {b : Pattern} {scan : Scan} (hb : Finds b scan) (hn : scan [] = none)
    (hs : ∀ c cs, isSign c = true → scan (c :: cs) = none) : Finds (seq (optional (char isSign)) b) (signed scan) := by
  refine (finds_optional_char_seq isSign hb).congr fun cs => ?_
  cases cs with
  | nil => rw [then_charScan_nil, hn]; rfl
  | cons c cs =>
      rw [then_charScan_cons, signed]
      split
      · rename_i hc
        rw [hs c cs hc, Option.or_none]
        congr 1
        funext n
        exact Nat.add_comm 1 n
      · exact Option.none_or

theorem eq_of_isSign {c : Char} (h : isSign c = true) : c = '+' ∨ c = '-' := by
  simpa [isSign] using h

theorem finds_signed_integer : Finds (seq (optional (char isSign)) integer) (signed integerLength) := by
  refine finds_signed finds_integer rfl fun c cs hc => ?_
  rcases eq_of_isSign hc with rfl | rfl <;> rfl

theorem finds_exponent : Finds exponent exponentLength := by
  have hs : Finds (seq (optional (char isSign)) (plus isDigit)) (signed (plusScan isDigit)) := by
    refine finds_signed (finds_plus _) rfl fun c cs hc => ?_
    rcases eq_of_isSign hc with rfl | rfl <;> rfl
  refine (finds_char_seq isMarkE hs).congr fun cs => ?_
  cases cs with
  | nil => rfl
  | cons e cs =>
      have he : isMarkE e = true ↔ e = 'e' ∨ e = 'E' := by simp [isMarkE]
      have hp : plusScan isDigit =
          fun cs => if 0 < countWhile isDigit cs then some (countWhile isDigit cs) else none := rfl
      simp only [then_charScan_cons, he, exponentLength, hp, Nat.add_comm 1]

theorem not_digit_of_dot {c : Char} (h : (c == '.') = true) : isDigit c = false := by
  rw [eq_of_beq h]
  rfl

theorem exponentLength_of_digit {c : Char} (h : isDigit c = true) (cs : List Char) :
    exponentLength (c :: cs) = none := by
  refine if_neg ?_
  rintro (rfl | rfl) <;> revert h <;> decide

theorem head_of_countWhile_pos {p : Char → Bool} {cs : List Char} (h : 0 < countWhile p cs) :
    ∃ c ds, cs = c :: ds ∧ p c = true := by
  cases cs with
  | nil => cases h
  | cons c cs =>
      rw [countWhile] at h
      split at h
      · exact ⟨c, cs, rfl, ‹_›⟩
      · cases h

theorem unsignedFloatLength_dot {cs fraction : List Char} (h : cs.drop (countWhile isDigit cs) = '.' :: fraction) :
    unsignedFloatLength cs =
      if 0 < countWhile isDigit cs ∨ 0 < countWhile isDigit fraction then
        some (countWhile isDigit cs + 1 + countWhile isDigit fraction +
          optionalExponent (fraction.drop (countWhile isDigit fraction)))
      else none := by
  simp only [unsignedFloatLength, h]

theorem unsignedFloatLength_of_head {cs : List Char} (h : (cs.drop (countWhile isDigit cs)).head? ≠ some '.') :
    unsignedFloatLength cs =
      if 0 < countWhile isDigit cs then
        (exponentLength (cs.drop (countWhile isDigit cs))).map (countWhile isDigit cs + ·)
      else none := by
  unfold unsignedFloatLength
  dsimp only
  split
  · rename_i fraction hd
    exact absurd (by rw [hd]; rfl) h
  · rfl

def exponentScan : Scan := fun cs => some ((exponentLength cs).getD 0)

def floatScan : Scan := fun cs =>
  (then_ (plusScan isDigit)
    (then_ (charScan (· == '.')) (then_ (fun cs => some (countWhile isDigit cs)) exponentScan)) cs).or
      ((then_ (plusScan isDigit) exponentLength cs).or
        (then_ (charScan (· == '.')) (then_ (plusScan isDigit) exponentScan) cs))

theorem floatScan_dot {cs fraction : List Char} (hf : cs.drop (countWhile isDigit cs) = '.' :: fraction) :
    floatScan cs = unsignedFloatLength cs := by
  have htail : then_ (fun cs => some (countWhile isDigit cs)) exponentScan fraction =
      some (countWhile isDigit fraction + optionalExponent (fraction.drop (countWhile isDigit fraction))) := rfl
  rw [unsignedFloatLength_dot hf]
  simp only [floatScan, then_plusScan, hf]
  by_cases hw : 0 < countWhile isDigit cs
  · simp only [hw, true_or, if_true, then_charScan_cons, beq_self_eq_true, htail, Option.map_some, Option.some_or]
    congr 1
    omega
  · have h0 : countWhile isDigit cs = 0 := Nat.eq_zero_of_not_pos hw
    rw [h0, List.drop_zero] at hf
    subst hf
    simp only [h0, Nat.lt_irrefl, false_or, if_false, Option.none_or, then_charScan_cons, beq_self_eq_true, if_true,
      then_plusScan, exponentScan, Option.map_some, optionalExponent]
    split
    · rw [Option.map_some]
      congr 1
      omega
    · rfl

theorem floatScan_of_head {cs : List Char} (hr : (cs.drop (countWhile isDigit cs)).head? ≠ some '.') :
    floatScan cs = unsignedFloatLength cs := by
  have hn : ∀ c ∈ (cs.drop (countWhile isDigit cs)).head?, (c == '.') = false := by
    intro c hc
    have hne : c ≠ '.' := fun h => hr (h ▸ hc)
    simpa using hne
  -- the text does not start with a dot either, be there digits or not
  have hd : ∀ c ∈ cs.head?, (c == '.') = false := by
    by_cases hw : 0 < countWhile isDigit cs
    · obtain ⟨c, ds, rfl, hc⟩ := head_of_countWhile_pos hw
      rintro d ⟨⟩
      cases hb : c == '.' with
      | false => rfl
      | true =>
          rw [not_digit_of_dot hb] at hc
          cases hc
    · rwa [Nat.eq_zero_of_not_pos hw, List.drop_zero] at hn
  rw [unsignedFloatLength_of_head hr]
  simp only [floatScan, then_plusScan]
  rw [then_charScan_of_head hn, then_charScan_of_head hd, Option.map_none, ite_self, Option.none_or, Option.or_none]

theorem finds_float : Finds float unsignedFloatLength := by
  have hdot : ∀ scan : Scan, Settles isDigit (then_ (charScan (· == '.')) scan) := by
    refine fun scan => .inr fun c cs hc => ?_
    rw [then_charScan_cons, if_neg]
    intro h
    rw [not_digit_of_dot h] at hc
    cases hc
  have hexp : Settles isDigit exponentLength := .inr fun c cs hc => exponentLength_of_digit hc cs
  have hopt : Settles isDigit exponentScan := .inl fun _ => rfl
  have hfloat : Finds float floatScan := finds_either
    (finds_plus_seq (hdot _) (finds_char_seq (· == '.') (finds_many_seq hopt (finds_optional finds_exponent))))
    (finds_either (finds_plus_seq hexp finds_exponent)
      (finds_char_seq (· == '.') (finds_plus_seq hopt (finds_optional finds_exponent))))
  refine hfloat.congr fun cs => ?_
  by_cases hr : (cs.drop (countWhile isDigit cs)).head? = some '.'
  · obtain ⟨fraction, hf⟩ := List.head?_eq_some_iff.mp hr
    exact floatScan_dot hf
  · exact floatScan_of_head hr

theorem finds_signed_float : Finds (seq (optional (char isSign)) float) (signed unsignedFloatLength) := by
  refine finds_signed finds_float rfl fun c cs hc => ?_
  rcases eq_of_isSign hc with rfl | rfl <;> rfl

end Numbers

section Quotations

def isPlain (quote c : Char) : Bool := c != quote && c != '\\' && c != '\n'

def quotedItem (quote : Char) : Pattern :=
  either (seq (char (· == '\\')) (char (· != '\n'))) (char (isPlain quote))

def quotedBy (quote : Char) : Pattern :=
  seq (char (· == quote)) (seq (many (quotedItem quote)) (char (· == quote)))

theorem consumes_quotedItem (quote : Char) : Consumes (quotedItem quote) :=
  ((consumes_char _).seq _).either (consumes_char _)

theorem attempt_items (quote : Char) (k : Goal) (s : Spot) :
    (many (quotedItem quote)).attempt k s =
      ((quotedItem quote).attempt ((many (quotedItem quote)).attempt k) s).or (k s) :=
  (consumes_quotedItem quote).attempt_many k s

theorem item_escape {quote : Char} (k : Goal) (before : Option Char) (cs : List Char) :
    (quotedItem quote).attempt k ⟨before, '\\' :: cs⟩ = (char (· != '\n')).attempt k ⟨some '\\', cs⟩ := by
  have hp : isPlain quote '\\' = false := by simp [isPlain]
  have hn : (char (isPlain quote)).attempt k ⟨before, '\\' :: cs⟩ = none := by
    simp only [attempt_char_cons, hp, Bool.false_eq_true, if_false]
  exact (congrArg (Option.or _) hn).trans Option.or_none

theorem quotedRest_of_ne {quote c : Char} (hc : c ≠ '\\') (cs : List Char) :
    quotedRest quote (c :: cs) =
      if c = quote then some 1 else if c = '\n' then none else (quotedRest quote cs).map (· + 1) := by
  rw [quotedRest.eq_def]
  simp only [hc, if_false]

theorem item_of_ne {quote c : Char} (hc : c ≠ '\\') (k : Goal) (before : Option Char) (cs : List Char) :
    (quotedItem quote).attempt k ⟨before, c :: cs⟩ = if isPlain quote c then k ⟨some c, cs⟩ else none := by
  have hb : (c == '\\') = false := by simpa using hc
  simp only [quotedItem, attempt_either, attempt_seq, attempt_char_cons, hb, Bool.false_eq_true, if_false,
    Option.none_or]

theorem within_quotedRest (quote : Char) : Within (quotedRest quote) := by
  intro cs
  fun_induction quotedRest quote cs with
  | case1 => exact fun n hn => by cases hn
  | case2 => exact fun n hn => by cases hn
  | case3 => exact fun n hn => by cases hn
  | case4 d cs hd ih =>
      intro n hn
      obtain ⟨m, hm, rfl⟩ := Option.map_eq_some_iff.mp hn
      exact Nat.succ_le_succ (Nat.succ_le_succ (ih m hm))
  | case5 => exact fun n hn => Option.mem_some.mp hn ▸ Nat.succ_pos _
  | case6 => exact fun n hn => by cases hn
  | case7 c cs hc hq hx ih =>
      intro n hn
      obtain ⟨m, hm, rfl⟩ := Option.map_eq_some_iff.mp hn
      exact Nat.succ_le_succ (ih m hm)

theorem finds_quotedRest {quote : Char} (hb : quote ≠ '\\') (hn : quote ≠ '\n') :
    Finds (seq (many (quotedItem quote)) (char (· == quote))) (quotedRest quote) := by
  refine ⟨fun s => ?_, within_quotedRest quote⟩
  obtain ⟨before, cs⟩ := s
  induction hl : cs.length using Nat.strongRecOn generalizing before cs with
  | ind n ih =>
      rw [attempt_seq, attempt_items]
      cases cs with
      | nil => rfl
      | cons c cs =>
          have hlt : cs.length < n := hl ▸ Nat.lt_succ_self _
          have hk : (char (· == quote)).attempt some ⟨before, c :: cs⟩ =
              if c = quote then some ⟨some c, cs⟩ else none := by
            simp only [attempt_char_cons, beq_iff_eq]
          rw [hk]
          by_cases hc : c = '\\'
          · subst hc
            rw [item_escape, if_neg hb.symm, Option.or_none]
            cases cs with
            | nil => rfl
            | cons d ds =>
                rw [attempt_char_cons, quotedRest]
                by_cases hd : d = '\n'
                · simp [hd]
                · have hi := ih ds.length (Nat.lt_of_le_of_lt (Nat.le_succ _) hlt) (some d) ds rfl
                  simp only [bne_iff_ne, ne_eq, hd, not_false_eq_true, if_true, if_false]
                  refine hi.trans ?_
                  rw [Option.map_map]
                  rfl
          · rw [item_of_ne hc, quotedRest_of_ne hc]
            by_cases hq : c = quote
            · subst hq
              simp [isPlain]
              rfl
            · by_cases hx : c = '\n'
              · simp [isPlain, hx, hn.symm]
              · have hi := ih cs.length hlt (some c) cs rfl
                have hp : isPlain quote c = true := by simp [isPlain, hc, hq, hx]
                simp only [hp, hq, hx, if_true, if_false, Option.or_none]
                refine hi.trans ?_
                rw [Option.map_map]
                rfl

theorem finds_quoted : Finds (either (quotedBy '"') (quotedBy '\'')) quotedLength := by
  have h : ∀ {quote : Char}, quote ≠ '\\' → quote ≠ '\n' → Finds (quotedBy quote) _ :=
    fun hb hn => finds_char_seq _ (finds_quotedRest hb hn)
  refine (finds_either (h (by decide) (by decide)) (h (by decide) (by decide))).congr fun cs => ?_
  cases cs with
  | nil => rfl
  | cons c cs =>
      simp only [then_charScan_cons, quotedLength]
      by_cases hd : c = '"'
      · subst hd
        simp [Nat.add_comm 1]
      · by_cases hs : c = '\''
        · subst hs
          simp [Nat.add_comm 1]
        · simp [hd, hs]

end Quotations

end ProtoBundle.Source.Pattern
