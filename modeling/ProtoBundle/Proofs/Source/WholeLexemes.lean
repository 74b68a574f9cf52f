import ProtoBundle.Proofs.Source.Acceptance
import ProtoBundle.Proofs.Source.Literals

/-!
Lexemes as texts of their own. What a rule for names takes out of an accepted text it takes as a whole when that stands
alone. Only the rule for type references looks at the character behind its lexeme. That is a character of ASCII, for so
are the first characters of layout and of all lexemes, and among these none continues a word without continuing a name.
-/

namespace ProtoBundle.Source

open Text

section Ascii

theorem lt_of_isLetter {c : Char} (h : isLetter c = true) : c.toNat < 128 := by
  simp only [isLetter, Bool.or_eq_true, Bool.and_eq_true, decide_eq_true_iff, Char.le_def, UInt32.le_iff_toNat_le] at h
  change c.val.toNat < 128
  rcases h with ⟨-, h⟩ | ⟨-, h⟩
  · exact Nat.lt_of_le_of_lt h (by decide)
  · exact Nat.lt_of_le_of_lt h (by decide)

theorem lt_of_isDigit {c : Char} (h : isDigit c = true) : c.toNat < 128 := by
  simp only [isDigit, Bool.and_eq_true, decide_eq_true_iff, Char.le_def, UInt32.le_iff_toNat_le] at h
  exact Nat.lt_of_le_of_lt h.2 (by decide)

theorem lt_of_startsName {c : Char} (h : startsName c = true) : c.toNat < 128 := by
  rw [startsName, Bool.or_eq_true, beq_iff_eq] at h
  rcases h with h | rfl
  · exact lt_of_isLetter h
  · decide

theorem isWordChar_eq_continuesName {c : Char} (h : c.toNat < 128) : isWordChar c = continuesName c := by
  have hwide : inRanges wideAlphanumerics c = false := by
    have htable : ∀ r ∈ wideAlphanumerics, 128 ≤ r.1 := by decide +kernel
    refine Bool.eq_false_iff.mpr fun hr => ?_
    obtain ⟨r, hm, hc⟩ := inRanges_iff.mp hr
    exact absurd (Nat.le_trans (htable r hm) hc.1) (Nat.not_le.mpr h)
  rw [isWordChar, continuesName, hwide, Bool.or_false]

def GoesOnInAscii (cs : List Char) : Prop := ∀ c ∈ cs.head?, c.toNat < 128

def startsInAscii (w : String) : Bool := w.toList.head?.any fun c => decide (c.toNat < 128)

theorem literal_eq_none {w : String} (h : startsInAscii w = true) {c : Char} (hc : 128 ≤ c.toNat) (cs : List Char) :
    literal w.toList (c :: cs) = none := by
  obtain ⟨d, hd, hlt⟩ := (Option.any_eq_true _ _).mp h
  obtain ⟨ws, hw⟩ := List.head?_eq_some_iff.mp hd
  rw [hw, literal, if_neg]
  rintro rfl
  exact absurd (of_decide_eq_true hlt) (Nat.not_lt.mpr hc)

theorem wholeWord_eq_none {w : String} (h : startsInAscii w = true) {c : Char} (hc : 128 ≤ c.toNat) (cs : List Char) :
    wholeWord w.toList (c :: cs) = none := by
  rw [wholeWord, literal_eq_none h hc]

theorem firstOf_eq_none {scan : List Char → List Char → Option Nat} {ws : List String} {cs : List Char}
    (h : ∀ w ∈ ws, scan w.toList cs = none) : firstOf scan ws cs = none :=
  List.findSome?_eq_none_iff.mpr h

theorem Terminal.length_eq_none {t : Terminal} (ht : t.Listed) {c : Char} (hc : 128 ≤ c.toNat) (cs : List Char) :
    t.length (c :: cs) = none := by
  have hne (d : Char) (hd : d.toNat < 128) : c ≠ d := by
    rintro rfl
    exact absurd hd (Nat.not_lt.mpr hc)
  have hfalse {p : Char → Bool} (hp : p c = true → c.toNat < 128) : p c = false :=
    Bool.eq_false_iff.mpr fun h => absurd (hp h) (Nat.not_lt.mpr hc)
  have hname : startsName c = false := hfalse lt_of_startsName
  have hdigit : isDigit c = false := hfalse lt_of_isDigit
  have hsign : isSign c = false := by
    refine hfalse fun h => ?_
    rcases Pattern.eq_of_isSign h with rfl | rfl <;> decide
  have hdotted : dottedLength (c :: cs) = none := by rw [dottedLength, hname, if_neg Bool.false_ne_true]
  have hinteger : integerLength (c :: cs) = none := by
    rw [integerLength.eq_4 c cs (hne _ (by decide)), hdigit, if_neg Bool.false_ne_true]
  cases t with
  | word w =>
      have hv : ∀ v ∈ vocabulary, startsInAscii v = true := by decide
      exact literal_eq_none (hv w ht) hc cs
  | label =>
      have hv : ∀ v ∈ ["required", "optional", "repeated"], startsInAscii v = true := by decide
      exact firstOf_eq_none fun w hw => wholeWord_eq_none (hv w hw) hc cs
  | stream => exact wholeWord_eq_none (by decide) hc cs
  | importKind =>
      have hv : ∀ v ∈ ["public", "weak"], startsInAscii v = true := by decide
      exact firstOf_eq_none fun w hw => literal_eq_none (hv w hw) hc cs
  | maximum => exact literal_eq_none (by decide) hc cs
  | special => simp only [length, hsign, Bool.false_eq_true, if_false]
  | identifier => simp only [length, identifierLength, hname, Bool.false_eq_true, if_false]
  | dottedName => exact hdotted
  | typeName =>
      rw [length, typeLength.eq_2 (c :: cs) fun _ h => hne _ (by decide) (List.cons.inj h).1, undottedTypeLength, hdotted,
        ite_self]
  | optionName =>
      rw [length, optionNameLength.eq_2 (c :: cs) fun _ h => hne _ (by decide) (List.cons.inj h).1, hdotted]
  | integer => exact hinteger
  | signedInteger => simp only [length, signed, hsign, Bool.false_eq_true, if_false, hinteger]
  | float =>
      have hwhole : countWhile isDigit (c :: cs) = 0 := by rw [countWhile, hdigit, if_neg Bool.false_ne_true]
      have hhead : ((c :: cs).drop (countWhile isDigit (c :: cs))).head? ≠ some '.' := by
        rw [hwhole]
        exact fun h => hne _ (by decide) (Option.some.inj h)
      rw [length, signed, hsign, if_neg Bool.false_ne_true, Pattern.unsignedFloatLength_of_head hhead, hwhole]
      rfl
  | quoted =>
      rw [length, quotedLength, if_neg]
      rintro (h | h)
      · exact hne _ (by decide) h
      · exact hne _ (by decide) h

end Ascii

section Names

variable {cs : List Char} {n : Nat}

theorem countWhile_take (p : Char → Bool) (cs : List Char) : countWhile p (cs.take (countWhile p cs)) = countWhile p cs := by
  induction cs with
  | nil => rfl
  | cons c cs ih =>
      by_cases hc : p c = true
      · rw [countWhile, if_pos hc, List.take_succ_cons, countWhile, if_pos hc, ih]
      · rw [countWhile, if_neg hc]
        rfl

theorem identifierLength_take (h : identifierLength cs = some n) : identifierLength (cs.take n) = some n := by
  cases cs with
  | nil => cases h
  | cons c cs =>
      rw [identifierLength, Option.ite_none_right_eq_some, Option.some.injEq] at h
      obtain ⟨hc, rfl⟩ := h
      rw [List.take_succ_cons, identifierLength, if_pos hc, countWhile_take]

theorem dottedRest_take (cs : List Char) : dottedRest (cs.take (dottedRest cs)) = dottedRest cs := by
  fun_induction dottedRest cs with
  | case1 => rfl
  | case2 c cs hc ih => rw [List.take_succ_cons, List.take_succ_cons, dottedRest, if_pos hc, ih]
  | case3 => rfl
  | case4 c cs hdot hc ih =>
      have hne : ∀ d ds, c = '.' → cs.take (dottedRest cs) = d :: ds → False := by
        rintro d ds rfl -
        exact absurd hc (by decide)
      rw [List.take_succ_cons, dottedRest.eq_3 _ _ hne, if_pos hc, ih]
  | case5 => rfl

theorem dottedLength_take (h : dottedLength cs = some n) : dottedLength (cs.take n) = some n := by
  cases cs with
  | nil => cases h
  | cons c cs =>
      rw [dottedLength, Option.ite_none_right_eq_some, Option.some.injEq] at h
      obtain ⟨hc, rfl⟩ := h
      rw [List.take_succ_cons, dottedLength, if_pos hc, dottedRest_take]

theorem head_dottedRest (cs : List Char) : ∀ c ∈ (cs.drop (dottedRest cs)).head?, continuesName c = false := by
  fun_induction dottedRest cs with
  | case1 =>
      intro c hc
      cases hc
  | case2 c cs _ ih => exact ih
  | case3 =>
      rintro _ ⟨⟩
      decide
  | case4 c cs _ _ ih => exact ih
  | case5 c cs _ hc =>
      rintro _ ⟨⟩
      exact Bool.eq_false_iff.mpr hc

theorem head_dottedLength (h : dottedLength cs = some n) : ∀ c ∈ (cs.drop n).head?, continuesName c = false := by
  cases cs with
  | nil => cases h
  | cons c cs =>
      rw [dottedLength, Option.ite_none_right_eq_some, Option.some.injEq] at h
      obtain ⟨-, rfl⟩ := h
      exact head_dottedRest cs

theorem literal_append {w : List Char} (h : literal w cs = some n) (r : List Char) : literal w (cs ++ r) = some n := by
  induction w generalizing cs n with
  | nil =>
      cases h
      cases cs <;> rfl
  | cons c w ih =>
      cases cs with
      | nil => cases h
      | cons d cs =>
          rw [literal, Option.ite_none_right_eq_some] at h
          obtain ⟨rfl, h⟩ := h
          obtain ⟨m, hm, rfl⟩ := Option.map_eq_some_iff.mp h
          rw [List.cons_append, literal, if_pos rfl, ih hm, Option.map_some]

theorem wholeWord_take_eq_none {w : List Char} (h : wholeWord w cs = none)
    (hn : ∀ c ∈ (cs.drop n).head?, isWordChar c = false) : wholeWord w (cs.take n) = none := by
  cases hl : literal w (cs.take n) with
  | none => rw [wholeWord, hl]
  | some k =>
      have hk : k ≤ (cs.take n).length := (Pattern.finds_text w).within _ k hl
      have hall := literal_append hl (cs.drop n)
      rw [List.take_append_drop] at hall
      simp only [wholeWord, hall, hl, reduceCtorEq, ite_eq_right_iff] at h ⊢
      cases hd : cs.drop k with
      | nil => exact absurd (by rw [hd]; rfl) h
      | cons d ds =>
          rw [List.drop_take, hd]
          cases hm : n - k with
          | zero =>
              have heq : k = n := Nat.le_antisymm (Nat.le_trans hk (List.length_take_le _ _)) (Nat.sub_eq_zero_iff_le.mp hm)
              have hword := hn d (by rw [← heq, hd]; rfl)
              exact absurd (by rw [hd, endsWord, hword]; rfl) h
          | succ m =>
              rw [hd] at h
              exact h

theorem undottedTypeLength_take (h : undottedTypeLength cs = some n) (hn : GoesOnInAscii (cs.drop n)) :
    undottedTypeLength (cs.take n) = some n := by
  have hdotted := undottedTypeLength_eq_some h
  have hword : ∀ c ∈ (cs.drop n).head?, isWordChar c = false := by
    intro c hc
    rw [isWordChar_eq_continuesName (hn c hc)]
    exact head_dottedLength hdotted c hc
  rw [undottedTypeLength, Option.ite_none_left_eq_some, Option.not_isSome_iff_eq_none] at h
  have hnone : firstOf wholeWord declarationWords (cs.take n) = none :=
    firstOf_eq_none fun w hw => wholeWord_take_eq_none (List.findSome?_eq_none_iff.mp h.1 w hw) hword
  rw [undottedTypeLength, hnone, dottedLength_take hdotted]
  rfl

theorem typeLength_take (h : typeLength cs = some n) (hn : GoesOnInAscii (cs.drop n)) :
    typeLength (cs.take n) = some n := by
  unfold typeLength at h
  split at h
  · obtain ⟨m, hm, rfl⟩ := Option.map_eq_some_iff.mp h
    rw [List.take_succ_cons, typeLength, undottedTypeLength_take hm hn, Option.map_some]
  · rename_i hdot
    have hcut := undottedTypeLength_take h hn
    rw [typeLength.eq_2 _ fun ds hds => ?_, hcut]
    rw [hds, undottedTypeLength, Pattern.dottedLength_dot, ite_self] at hcut
    cases hcut

end Names

section Lexemes

/-- A name or a reference is what its terminal takes as a whole, a label is one of the three words, and a number without
a sign starts with a digit. -/
def Lexeme.Suits (l : Lexeme) (t : Terminal) : Prop :=
  match t with
  | .identifier | .dottedName | .typeName => t.Takes l.text.toList
  | .label => l.text ∈ ["required", "optional", "repeated"]
  | .integer => ∃ c ∈ l.text.toList.head?, isDigit c = true
  | _ => True

theorem takes_take {t : Terminal} {cs : List Char} {n : Nat} (h : t.length cs = some n)
    (ht : t.length (cs.take n) = some n) : t.Takes (cs.take n) := by
  rw [Terminal.Takes, ht, List.length_take_of_le (t.finds_pattern.within cs n h)]

theorem mem_of_firstOf {ws : List String} {cs : List Char} {n : Nat} (h : firstOf wholeWord ws cs = some n) :
    String.ofList (cs.take n) ∈ ws := by
  obtain ⟨w, hw, hn⟩ := List.exists_of_findSome?_eq_some h
  unfold wholeWord at hn
  split at hn
  · rename_i m hm
    rw [Option.ite_none_right_eq_some, Option.some.injEq] at hn
    obtain ⟨-, rfl⟩ := hn
    have hcut : cs.take m ++ cs.drop m = w.toList ++ cs.drop m :=
      (List.take_append_drop m cs).trans (eq_append_of_literal hm)
    rwa [List.append_cancel_right hcut, String.ofList_toList]
  · cases hn

theorem head_integer {cs : List Char} {n : Nat} (h : integerLength cs = some n) :
    ∃ c ∈ (cs.take n).head?, isDigit c = true := by
  obtain ⟨h0, -⟩ := leads_integer cs n h
  rw [List.head?_take, if_neg (Nat.ne_of_gt h0)]
  unfold integerLength at h
  split at h
  · cases h
  · exact ⟨'0', rfl, by decide⟩
  · rename_i c cs _
    rw [Option.ite_none_right_eq_some] at h
    exact ⟨c, rfl, h.1⟩

theorem Terminal.suits_of_length {t : Terminal} {cs : List Char} {n : Nat} (h : t.length cs = some n)
    (hn : GoesOnInAscii (cs.drop n)) (offset : Nat) : Lexeme.Suits ⟨String.ofList (cs.take n), offset⟩ t := by
  have htext : (String.ofList (cs.take n)).toList = cs.take n := String.toList_ofList
  cases t with
  | identifier =>
      have ht := takes_take h (identifierLength_take h)
      rwa [← htext] at ht
  | dottedName =>
      have ht := takes_take h (dottedLength_take h)
      rwa [← htext] at ht
  | typeName =>
      have ht := takes_take h (typeLength_take h hn)
      rwa [← htext] at ht
  | label => exact mem_of_firstOf h
  | integer =>
      have ht := head_integer h
      rwa [← htext] at ht
  | _ => trivial

theorem Spans.goesOnInAscii {c d : Cursor} {ls : List (Terminal × Lexeme)} (h : Spans c ls d) (hd : d.skip.rest = []) :
    GoesOnInAscii c.rest := by
  intro x hx
  by_contra hwide
  have hlayout : x ∉ layoutStarts := by
    have hstarts : (layoutStarts.all fun y => decide (y.toNat < 128)) = true := by decide
    exact fun hm => hwide (of_decide_eq_true (List.all_eq_true.mp hstarts x hm))
  have hskip := Cursor.skip_of_head ⟨x, hx, hlayout⟩
  obtain ⟨cs, hcs⟩ := List.head?_eq_some_iff.mp hx
  cases h with
  | nil =>
      rw [hskip, hcs] at hd
      cases hd
  | cons ht hr _ =>
      obtain ⟨n, hn, -, -⟩ := Terminal.read_eq_some.mp hr
      rw [hskip, hcs, Terminal.length_eq_none ht (Nat.not_lt.mp hwide)] at hn
      cases hn

theorem Spans.suits {c d : Cursor} {ls : List (Terminal × Lexeme)} (h : Spans c ls d) (hd : d.skip.rest = []) :
    ∀ s ∈ ls, s.2.Suits s.1 := by
  induction h with
  | nil => exact nofun
  | cons _ hr h ih =>
      obtain ⟨n, hn, rfl, rfl⟩ := Terminal.read_eq_some.mp hr
      exact List.forall_mem_cons.mpr ⟨Terminal.suits_of_length hn (h.goesOnInAscii hd) _, ih hd⟩

end Lexemes

section Trees

def Tree.IsSuited (t : Tree) : Prop := ∀ s ∈ t.tokens, s.2.Suits s.1

theorem Tree.IsSuited.child {construct : Construct} {children : List Tree} (h : (node construct children).IsSuited)
    {t : Tree} (ht : t ∈ children) : t.IsSuited :=
  fun s hs => h s (tokens_subset_of_mem ht construct hs)

theorem Tree.IsSuited.lexeme {t : Terminal} {l : Lexeme} (h : (token t l).IsSuited) : l.Suits t :=
  h (t, l) (List.mem_singleton_self _)

theorem isSuited_of_parse {text : List Char} {f : File} (h : parse text = .ok f) : (Tree.ofFile f).IsSuited := by
  obtain ⟨ls, d, hs, hd, ht⟩ := exists_spans_of_parse h
  exact fun s hm => hs.suits hd s (ht hm)

end Trees

end ProtoBundle.Source
