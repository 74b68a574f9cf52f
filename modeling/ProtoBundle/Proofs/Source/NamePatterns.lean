import ProtoBundle.Proofs.Source.Finding

namespace ProtoBundle.Source.Pattern

open Text (isWordChar)

section Names

def identifier : Pattern := seq (char startsName) (many (char continuesName))

def dots : Pattern := many (seq (char (· == '.')) identifier)

def dotted : Pattern := seq identifier dots

def isPart (c : Char) : Bool := continuesName c || c == '.'

theorem identifierLength_cons (c : Char) (cs : List Char) :
    identifierLength (c :: cs) = if startsName c then some (countWhile continuesName cs + 1) else none := rfl

theorem attempt_identifier {k : Goal} (h : Stops continuesName k) (s : Spot) :
    identifier.attempt k s = (identifierLength s.rest).bind fun m => k (s.advance m) := by
  obtain ⟨before, cs⟩ := s
  cases cs with
  | nil => rfl
  | cons c cs =>
      change (if startsName c then (many (char continuesName)).attempt k ⟨some c, cs⟩ else none) = _
      rw [attempt_many_char h, identifierLength_cons]
      split <;> rfl

theorem dottedRest_eq (cs : List Char) :
    dottedRest cs = countWhile continuesName cs + dottedTail (cs.drop (countWhile continuesName cs)) := by
  induction cs with
  | nil => rfl
  | cons c cs ih =>
      by_cases hc : c = '.'
      · subst hc
        have h0 : countWhile continuesName ('.' :: cs) = 0 := rfl
        rw [h0, Nat.zero_add]
        rfl
      · have hr : dottedRest (c :: cs) = if continuesName c then dottedRest cs + 1 else 0 :=
          dottedRest.eq_3 c cs fun _ _ h _ => hc h
        rw [hr, countWhile]
        split
        · rw [ih, List.drop_succ_cons]
          omega
        · rw [List.drop_zero, Nat.zero_add, dottedTail]
          exact fun _ h => hc (List.cons.inj h).1

theorem dottedTail_dot (cs : List Char) :
    dottedTail ('.' :: cs) = ((identifierLength cs).map fun m => 1 + m + dottedTail (cs.drop m)).getD 0 := by
  cases cs with
  | nil => rfl
  | cons c cs =>
      change (if startsName c then dottedRest cs + 2 else 0) = _
      rw [identifierLength_cons]
      split
      · rw [dottedRest_eq, Option.map_some, Option.getD_some, List.drop_succ_cons]
        omega
      · rfl

theorem consumes_dot : Consumes (seq (char (· == '.')) identifier) := (consumes_char _).seq _

theorem attempt_dots_or (k : Goal) (s : Spot) :
    dots.attempt k s = ((seq (char (· == '.')) identifier).attempt (dots.attempt k) s).or (k s) :=
  consumes_dot.attempt_many k s

theorem dots_of_no_dot (k : Goal) {s : Spot} (hs : s.rest.head? ≠ some '.') : dots.attempt k s = k s := by
  have hf : (seq (char (· == '.')) identifier).attempt (dots.attempt k) s = none := by
    rw [attempt_seq, attempt_char]
    cases hr : s.rest with
    | nil => rfl
    | cons c cs =>
        have hc : (c == '.') = false := by simpa [hr] using hs
        simp only [charScan, hc, Bool.false_eq_true, if_false, Option.bind_none]
  rw [attempt_dots_or, hf, Option.none_or]

theorem stops_dots {k : Goal} (h : Stops isPart k) : Stops continuesName (dots.attempt k) := by
  rcases h with h | h
  · refine .inl fun s => ?_
    rw [attempt_dots_or, Option.isSome_or, h s, Bool.or_true]
  · refine .inr fun s c cs hs hc => ?_
    have hd : s.rest.head? ≠ some '.' := by
      rw [hs]
      rintro ⟨⟩
      cases hc
    rw [dots_of_no_dot k hd]
    exact h s c cs hs (by rw [isPart, hc, Bool.true_or])

theorem attempt_dots {k : Goal} (h : Stops isPart k) (s : Spot) :
    dots.attempt k s = k (s.advance (dottedTail s.rest)) := by
  induction hn : s.rest.length using Nat.strongRecOn generalizing s with
  | ind n ih =>
      by_cases hs : s.rest.head? = some '.'
      · obtain ⟨before, rest⟩ := s
        cases rest with
        | nil => cases hs
        | cons c cs =>
            cases hs
            have hi : (seq (char (· == '.')) identifier).attempt (dots.attempt k) ⟨before, '.' :: cs⟩ =
                (identifierLength cs).bind fun m => dots.attempt k (Spot.advance ⟨some '.', cs⟩ m) :=
              attempt_identifier (stops_dots h) ⟨some '.', cs⟩
            rw [attempt_dots_or, hi, dottedTail_dot]
            cases identifierLength cs with
            | none => exact Option.none_or
            | some m =>
                have hlt : (Spot.advance ⟨some '.', cs⟩ m).rest.length < n := by
                  rw [Spot.rest_advance, List.length_drop, ← hn]
                  exact Nat.lt_succ_of_le (Nat.sub_le _ _)
                -- Where the longer match fails the shorter one fails too, as what follows starts with no dot.
                rw [Option.bind_some, ih _ hlt _ rfl, h.or_eq _ rfl rfl, Spot.rest_advance, ← Spot.advance_add,
                  Option.map_some, Option.getD_some, Nat.add_assoc, Nat.add_comm 1]
                rfl
      · rw [dots_of_no_dot k hs]
        have ht : dottedTail s.rest = 0 := by
          rw [dottedTail]
          exact fun cs h => hs (by rw [h]; rfl)
        rw [ht, Spot.advance_zero]

theorem dottedLength_eq (cs : List Char) :
    dottedLength cs = (identifierLength cs).map fun m => m + dottedTail (cs.drop m) := by
  cases cs with
  | nil => rfl
  | cons c cs =>
      rw [identifierLength_cons, dottedLength]
      split
      · rw [Option.map_some, List.drop_succ_cons, dottedRest_eq]
        congr 1
        omega
      · rfl

theorem attempt_dotted {k : Goal} (h : Stops isPart k) (s : Spot) :
    dotted.attempt k s = (dottedLength s.rest).bind fun m => k (s.advance m) := by
  rw [dotted, attempt_seq, attempt_identifier (stops_dots h), dottedLength_eq]
  cases identifierLength s.rest with
  | none => rfl
  | some m =>
      rw [Option.bind_some, attempt_dots h, Spot.rest_advance, ← Spot.advance_add]
      rfl

theorem finds_identifier : Finds identifier identifierLength := by
  refine (finds_char_seq startsName (finds_many continuesName)).congr fun cs => ?_
  cases cs with
  | nil => rfl
  | cons c cs =>
      rw [then_charScan_cons, identifierLength_cons, Option.map_some, Nat.add_comm]

theorem dottedRest_le_length (cs : List Char) : dottedRest cs ≤ cs.length := by
  fun_induction dottedRest cs with
  | case1 => exact Nat.le_refl _
  | case2 c cs _ ih => exact Nat.succ_le_succ (Nat.succ_le_succ ih)
  | case3 => exact Nat.zero_le _
  | case4 c cs _ _ ih => exact Nat.succ_le_succ ih
  | case5 => exact Nat.zero_le _

theorem within_dottedTail : Within fun cs => some (dottedTail cs) := by
  rintro cs n ⟨⟩
  unfold dottedTail
  split
  · exact dottedRest_le_length _
  · exact Nat.zero_le _

theorem within_dottedLength : Within dottedLength := by
  intro cs n hn
  cases cs with
  | nil => cases hn
  | cons c cs =>
      rw [dottedLength, Option.mem_def, Option.ite_none_right_eq_some, Option.some.injEq] at hn
      exact hn.2 ▸ Nat.succ_le_succ (dottedRest_le_length cs)

theorem finds_dotted : Finds dotted dottedLength := by
  refine ⟨fun s => ?_, within_dottedLength⟩
  rw [attempt_dotted (.inl fun _ => rfl)]
  cases dottedLength s.rest <;> rfl

theorem finds_dots : Finds dots fun cs => some (dottedTail cs) := by
  refine ⟨fun s => ?_, within_dottedTail⟩
  rw [attempt_dots (.inl fun _ => rfl)]
  rfl

theorem finds_dotted_seq {b : Pattern} {scan : Scan} (h : Settles isPart scan) (hb : Finds b scan) :
    Finds (seq dotted b) (then_ dottedLength scan) := by
  refine ⟨fun s => ?_, within_then within_dottedLength hb.within⟩
  rw [attempt_seq, attempt_dotted (h.stops hb)]
  exact attempt_then hb s _

end Names

section Words

theorem finds_text (w : List Char) : Finds (text w) (literal w) := by
  induction w with
  | nil => exact finds_nothing
  | cons c w ih =>
      refine (finds_char_seq (· == c) ih).congr fun cs => ?_
      cases cs with
      | nil => rfl
      | cons d cs =>
          by_cases hd : c = d
          · subst hd
            simp [then_, charScan, literal, Nat.add_comm]
          · simp [then_, charScan, literal, hd, Ne.symm hd]

def whole (w : String) : Pattern := seq (text w.toList) boundary

theorem isBoundary_of_word {c : Char} (hc : isWordChar c = true) (cs : List Char) :
    Spot.isBoundary ⟨some c, cs⟩ = Text.endsWord cs := by
  unfold Spot.isBoundary
  cases cs with
  | nil => simp [Text.endsWord, hc]
  | cons d cs => simp [Text.endsWord, hc]

theorem attempt_text_boundary {w : List Char} (hn : w ≠ []) (hw : ∀ c ∈ w, isWordChar c = true) (s : Spot) :
    (seq (text w) boundary).attempt some s = (wholeWord w s.rest).map s.advance := by
  induction w generalizing s with
  | nil => exact absurd rfl hn
  | cons c w ih =>
      obtain ⟨before, cs⟩ := s
      obtain ⟨hc, hw⟩ := List.forall_mem_cons.mp hw
      cases cs with
      | nil => rfl
      | cons d cs =>
          by_cases hd : c = d
          · subst hd
            have hm : (seq (text (c :: w)) boundary).attempt some ⟨before, c :: cs⟩ =
                (seq (text w) boundary).attempt some ⟨some c, cs⟩ := if_pos (beq_self_eq_true c)
            rw [hm]
            by_cases hn : w = []
            · subst hn
              have hb := isBoundary_of_word hc cs
              simp only [attempt_seq, attempt_nothing, attempt_boundary, text, hb, wholeWord, literal, if_true,
                Option.map_some, Nat.zero_add, List.drop_succ_cons, List.drop_zero]
              split <;> rfl
            · rw [ih hn hw]
              simp only [wholeWord, literal, if_true]
              cases literal w cs with
              | none => rfl
              | some n =>
                  simp only [Option.map_some, List.drop_succ_cons]
                  split <;> rfl
          · have hm : (seq (text (c :: w)) boundary).attempt some ⟨before, d :: cs⟩ = none :=
              if_neg (by simpa using Ne.symm hd)
            rw [hm]
            simp [wholeWord, literal, hd]

def IsWord (w : String) : Prop := w.toList ≠ [] ∧ ∀ c ∈ w.toList, Text.isLetter c = true

instance (w : String) : Decidable (IsWord w) :=
  @instDecidableAnd _ _ inferInstance (List.decidableBAll (fun c => Text.isLetter c = true) w.toList)

theorem within_wholeWord (w : List Char) : Within (wholeWord w) := by
  intro cs n hn
  unfold wholeWord at hn
  split at hn
  · rename_i m hm
    rw [Option.mem_def, Option.ite_none_right_eq_some, Option.some.injEq] at hn
    exact hn.2 ▸ (finds_text w).within cs m hm
  · cases hn

theorem finds_whole {w : String} (hw : IsWord w) : Finds (whole w) (wholeWord w.toList) := by
  refine ⟨attempt_text_boundary hw.1 fun c hc => ?_, within_wholeWord _⟩
  rw [isWordChar, hw.2 c hc]
  rfl

theorem firstOf_nil (scan : List Char → Scan) (cs : List Char) : firstOf scan [] cs = none := rfl

theorem firstOf_cons (scan : List Char → Scan) (w : String) (ws : List String) (cs : List Char) :
    firstOf scan (w :: ws) cs = (scan w.toList cs).or (firstOf scan ws cs) := by
  rw [firstOf, firstOf, List.findSome?_cons]
  cases scan w.toList cs <;> rfl

theorem finds_choice {pattern : String → Pattern} {scan : List Char → Scan} {w : String} {ws : List String}
    (h : ∀ v ∈ w :: ws, Finds (pattern v) (scan v.toList)) :
    Finds (choice (pattern w) (ws.map pattern)) (firstOf scan (w :: ws)) := by
  induction ws generalizing w with
  | nil =>
      refine (h w List.mem_cons_self).congr fun cs => ?_
      rw [firstOf_cons, firstOf_nil, Option.or_none]
  | cons v ws ih =>
      obtain ⟨hw, hs⟩ := List.forall_mem_cons.mp h
      exact (finds_either hw (ih hs)).congr fun cs => (firstOf_cons scan w (v :: ws) cs).symm

theorem attempt_choice_seq (a : Pattern) (bs : List Pattern) (c : Pattern) (k : Goal) (s : Spot) :
    (seq (choice a bs) c).attempt k s = (choice (seq a c) (bs.map fun b => seq b c)).attempt k s := by
  induction bs generalizing a with
  | nil => rfl
  | cons b bs ih => exact congrArg (Option.or _) (ih b)

theorem finds_wholes {w : String} {ws : List String} (h : ∀ v ∈ w :: ws, IsWord v) :
    Finds (seq (choice (text w.toList) (ws.map fun v => text v.toList)) boundary) (firstOf wholeWord (w :: ws)) := by
  have hc : Finds (choice (whole w) (ws.map whole)) (firstOf wholeWord (w :: ws)) :=
    finds_choice fun v hv => finds_whole (h v hv)
  refine hc.of_attempt_eq fun s => ?_
  rw [attempt_choice_seq, List.map_map]
  rfl

end Words

section References

def declarationWord : Pattern :=
  seq (choice (text "message".toList)
    (["enum", "service", "option", "oneof", "map", "reserved", "extensions", "extend", "required", "optional",
      "repeated"].map fun w => text w.toList)) boundary

def typeName : Pattern := seq (optional (char (· == '.'))) (seq (notAhead declarationWord) dotted)

def enclosed : Pattern := seq (char (· == '(')) (seq (optional (char (· == '.'))) (seq dotted (char (· == ')'))))

def optionName : Pattern := seq (either enclosed identifier) dots

theorem finds_undottedType : Finds (seq (notAhead declarationWord) dotted) undottedTypeLength := by
  have hw : Finds declarationWord (firstOf wholeWord declarationWords) := finds_wholes (by decide)
  constructor
  · intro s
    rw [undottedTypeLength, attempt_seq, attempt_notAhead, hw.attempt_eq, Option.isSome_map, finds_dotted.attempt_eq]
    split <;> rfl
  · intro cs n hn
    rw [Option.mem_def, undottedTypeLength, Option.ite_none_left_eq_some] at hn
    exact within_dottedLength cs n hn.2

theorem dottedLength_dot (cs : List Char) : dottedLength ('.' :: cs) = none := rfl

theorem finds_typeName : Finds typeName typeLength := by
  refine (finds_optional_char_seq _ finds_undottedType).congr fun cs => ?_
  cases cs with
  | nil => rfl
  | cons c cs =>
      rw [then_charScan_cons]
      by_cases hc : c = '.'
      · subst hc
        have hn : undottedTypeLength ('.' :: cs) = none := by
          rw [undottedTypeLength, dottedLength_dot, ite_self]
        rw [hn, Option.or_none, typeLength]
        simp [Nat.add_comm 1]
      · have ht : typeLength (c :: cs) = undottedTypeLength (c :: cs) := by
          rw [typeLength]
          exact fun _ h => hc (List.cons.inj h).1
        rw [ht, if_neg (by simpa using hc), Option.none_or]

def closedName : Scan := then_ dottedLength (then_ (charScan (· == ')')) fun cs => some (dottedTail cs))

def namedLength (cs : List Char) : Option Nat :=
  match dottedLength cs with
  | some n => if (cs.drop n).head? = some ')' then some (n + 1) else none
  | none => none

theorem closedName_eq (cs : List Char) :
    closedName cs = (namedLength cs).map fun n => n + dottedTail (cs.drop n) := by
  unfold closedName namedLength then_
  cases dottedLength cs with
  | none => rfl
  | some n =>
      rw [Option.bind_some]
      by_cases hp : (cs.drop n).head? = some ')'
      · obtain ⟨ds, hd⟩ := List.head?_eq_some_iff.mp hp
        have hr : cs.drop (n + 1) = ds := by rw [← List.drop_drop, hd]; rfl
        simp only [hd, charScan, beq_self_eq_true, if_true, Option.bind_some, List.drop_succ_cons, List.drop_zero,
          Option.map_some, List.head?_cons, hr]
        congr 1
        omega
      · have hn : charScan (· == ')') (cs.drop n) = none := by
          cases hd : cs.drop n with
          | nil => rfl
          | cons c ds => exact if_neg (by simpa [hd] using hp)
        simp only [hp, hn, if_false, Option.bind_none, Option.map_none]

theorem enclosedLength_dot (cs : List Char) : enclosedLength ('.' :: cs) = (namedLength cs).map (· + 1) := rfl

theorem enclosedLength_of_head {cs : List Char} (h : cs.head? ≠ some '.') : enclosedLength cs = namedLength cs := by
  unfold enclosedLength
  dsimp only
  split
  · exact absurd rfl h
  · rfl

theorem optional_dot_closedName (cs : List Char) :
    (then_ (charScan (· == '.')) closedName cs).or (closedName cs) =
      (enclosedLength cs).map fun n => n + dottedTail (cs.drop n) := by
  by_cases hc : cs.head? = some '.'
  · obtain ⟨ds, rfl⟩ := List.head?_eq_some_iff.mp hc
    have hn : closedName ('.' :: ds) = none := by
      rw [closedName_eq, namedLength, dottedLength_dot]
      rfl
    rw [hn, Option.or_none, then_charScan_cons, if_pos (beq_self_eq_true _), closedName_eq, enclosedLength_dot,
      Option.map_map, Option.map_map]
    congr 1
    funext n
    simp only [Function.comp, List.drop_succ_cons]
    omega
  · have hh : ∀ c ∈ cs.head?, (c == '.') = false := by
      intro c hm
      have hne : c ≠ '.' := fun h => hc (h ▸ hm)
      simpa using hne
    rw [then_charScan_of_head hh, Option.none_or, closedName_eq, enclosedLength_of_head hc]

theorem finds_optionName : Finds optionName optionNameLength := by
  have hp : Settles isPart (then_ (charScan (· == ')')) fun cs => some (dottedTail cs)) := by
    refine .inr fun c cs hc => ?_
    rw [then_charScan_cons, if_neg]
    intro h
    rw [eq_of_beq h] at hc
    revert hc
    decide
  have hd : Finds (seq dotted (seq (char (· == ')')) dots)) closedName :=
    finds_dotted_seq hp (finds_char_seq _ finds_dots)
  have he := finds_char_seq (· == '(') (finds_optional_char_seq (· == '.') hd)
  have hi : Finds (seq identifier dots) dottedLength := finds_dotted
  -- What follows the parentheses or the name is tried behind each of them.
  refine (Finds.of_attempt_eq (p := optionName) (finds_either he hi) fun _ => rfl).congr fun cs => ?_
  cases cs with
  | nil => rfl
  | cons c cs =>
      rw [then_charScan_cons, optional_dot_closedName]
      by_cases hc : c = '('
      · subst hc
        have hn : dottedLength ('(' :: cs) = none := rfl
        rw [hn, Option.or_none, if_pos (beq_self_eq_true _), Option.map_map, optionNameLength]
        cases enclosedLength cs with
        | none => rfl
        | some n =>
            simp only [Option.map_some, Function.comp]
            congr 1
            omega
      · have ht : optionNameLength (c :: cs) = dottedLength (c :: cs) := by
          rw [optionNameLength]
          exact fun _ h => hc (List.cons.inj h).1
        rw [ht, if_neg (by simpa using hc), Option.none_or]

end References

end ProtoBundle.Source.Pattern
