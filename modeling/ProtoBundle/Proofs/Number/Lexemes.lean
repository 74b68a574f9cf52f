import ProtoBundle.Proofs.Number.Bases
import ProtoBundle.Proofs.Source.ValuePatterns

namespace ProtoBundle

open Source Source.Pattern
open Text (isDigit isHexDigit isOctalDigit)

namespace Source

section Scans

variable {p : Char → Bool} {rest : List Char}

def EndsNumber (rest : List Char) : Prop := ∀ c ∈ rest.head?, continuesName c = false ∧ c ≠ '.'

theorem endsNumber_nil : EndsNumber [] := nofun

theorem EndsNumber.head (h : EndsNumber rest) (hp : ∀ c, p c = true → continuesName c = true) :
    ∀ c ∈ rest.head?, p c = false := by
  intro c hc
  refine Bool.eq_false_iff.mpr fun hpc => ?_
  have hname := hp c hpc
  rw [(h c hc).1] at hname
  cases hname

theorem exponentLength_of_endsNumber (h : EndsNumber rest) : exponentLength rest = none := by
  cases rest with
  | nil => rfl
  | cons c rest =>
      refine if_neg ?_
      rintro (rfl | rfl) <;> exact absurd (h _ rfl).1 (by decide)

theorem not_isSign_of_isDigit {c : Char} (h : isDigit c = true) : isSign c = false := by
  rw [isSign, Bool.or_eq_false_iff, beq_eq_false_iff_ne, beq_eq_false_iff_ne]
  constructor <;> rintro rfl <;> exact absurd h (by decide)

theorem startsName_of_isDigit {c : Char} (h : isDigit c = true) : startsName c = false := by
  obtain ⟨d, hd⟩ := Number.isDigit_iff.mp h
  exact hd.of_forall (P := fun c _ => startsName c = false) (by decide)

theorem continuesName_of_isDigit {c : Char} (h : isDigit c = true) : continuesName c = true := by
  simp [continuesName, h]

theorem continuesName_of_isHexDigit {c : Char} (h : isHexDigit c = true) : continuesName c = true := by
  obtain ⟨d, hd⟩ := Number.isHexDigit_iff.mp h
  exact hd.of_forall (P := fun c _ => continuesName c = true) (by decide)

end Scans

end Source

namespace Number

variable {base : Nat} {cs w rest : List Char} {n : Nat} {v : Int}

section Naturals

theorem Writes.isDigitOf (h : Writes base cs n) {larger : Nat} (hb : base ≤ larger) :
    ∀ c ∈ cs, ∃ d, IsDigitOf larger c d := by
  intro c hc
  obtain ⟨d, hd⟩ := exists_writes_iff.mp ⟨n, h⟩ c hc
  exact ⟨d, hd.mono hb⟩

theorem WritesNatural.digits_or_mark (h : WritesNatural base cs n) :
    (∀ c ∈ cs, isDigit c = true) ∨ ∃ x ds, cs = '0' :: x :: ds ∧ (x = 'x' ∨ x = 'X') := by
  cases h with
  | decimal _ h => exact .inl fun c hc => isDigit_iff.mpr (h.isDigitOf (by decide) c hc)
  | hexadecimal hx => exact .inr ⟨_, _, rfl, hx⟩
  | octal h =>
      exact .inl (List.forall_mem_cons.mpr ⟨rfl, fun c hc => isDigit_iff.mpr (h.isDigitOf (by decide) c hc)⟩)

theorem integerLength_of_octal {ds : List Char} (h : ∀ x hex, ds = x :: hex → ¬(x = 'x' ∨ x = 'X')) :
    integerLength ('0' :: ds) = some (countWhile isOctalDigit ds + 1) := by
  cases ds with
  | nil => rfl
  | cons x hex => rw [integerLength, if_neg fun hx => h x hex rfl hx.1]

theorem WritesNatural.integerLength_append (h : WritesNatural base cs n) (hr : EndsNumber rest) :
    integerLength (cs ++ rest) = some cs.length := by
  cases h with
  | @decimal c cs n hc h =>
      obtain ⟨hd, hds⟩ := List.forall_mem_cons.mp fun d hd => isDigit_iff.mpr (h.isDigitOf (Nat.le_refl _) d hd)
      rw [List.cons_append, integerLength.eq_4 _ _ hc, if_pos hd,
        countWhile_append hds (hr.head fun d => continuesName_of_isDigit), List.length_cons]
  | @hexadecimal x cs n hx hne h =>
      have hds : ∀ d ∈ cs, isHexDigit d = true := fun d hd => isHexDigit_iff.mpr (h.isDigitOf (Nat.le_refl _) d hd)
      have hcount := countWhile_append hds (hr.head fun d => continuesName_of_isHexDigit)
      have hpos : 0 < cs.length := List.length_pos_iff.mpr hne
      rw [List.cons_append, List.cons_append, integerLength, hcount, if_pos ⟨hx, hpos⟩]
      rfl
  | @octal cs n h =>
      have hds : ∀ d ∈ cs, isOctalDigit d = true := fun d hd => isOctalDigit_iff.mpr (h.isDigitOf (Nat.le_refl _) d hd)
      have hname : ∀ d, isOctalDigit d = true → continuesName d = true :=
        fun d hd => continuesName_of_isHexDigit (isHexDigit_of_isOctalDigit hd)
      have hmark : ∀ x hex, cs ++ rest = x :: hex → ¬(x = 'x' ∨ x = 'X') := by
        intro x hex hx hm
        cases cs with
        | nil =>
            have hrest := (hr x (by rw [← List.nil_append rest, hx]; rfl)).1
            rcases hm with rfl | rfl <;> cases hrest
        | cons d ds =>
            cases hx
            have hd := hds x List.mem_cons_self
            rcases hm with rfl | rfl <;> cases hd
      rw [List.cons_append, integerLength_of_octal hmark, countWhile_append hds (hr.head hname), List.length_cons]

theorem WritesNatural.unsignedFloatLength_append (h : WritesNatural base cs n) (hr : EndsNumber rest) :
    unsignedFloatLength (cs ++ rest) = none := by
  rcases h.digits_or_mark with hd | ⟨x, ds, rfl, hx⟩
  · have hcount := countWhile_append hd (hr.head fun d => continuesName_of_isDigit)
    have hrest : (cs ++ rest).drop (countWhile isDigit (cs ++ rest)) = rest := by rw [hcount, List.drop_left]
    have hhead : ((cs ++ rest).drop (countWhile isDigit (cs ++ rest))).head? ≠ some '.' := by
      rw [hrest]
      exact fun hdot => (hr '.' hdot).2 rfl
    rw [unsignedFloatLength_of_head hhead, hrest, exponentLength_of_endsNumber hr, Option.map_none, ite_self]
  · have hcount : countWhile isDigit ('0' :: x :: ds ++ rest) = 1 := by
      rcases hx with rfl | rfl <;> rfl
    have hhead : (('0' :: x :: ds ++ rest).drop (countWhile isDigit ('0' :: x :: ds ++ rest))).head? ≠ some '.' := by
      rw [hcount]
      rcases hx with rfl | rfl <;> exact fun hdot => absurd (Option.some.inj hdot) (by decide)
    rw [unsignedFloatLength_of_head hhead, hcount]
    rcases hx with rfl | rfl <;> rfl

end Naturals

section Integers

theorem WritesInteger.signed_append (h : WritesInteger base w v) :
    ∃ sign cs n, w = sign ++ cs ∧ WritesNatural base cs n ∧
      ∀ scan rest, signed scan (w ++ rest) = (scan (cs ++ rest)).map (· + sign.length) := by
  cases h with
  | unsigned h =>
      obtain ⟨c, ds, rfl, hc⟩ := h.exists_digit
      refine ⟨[], _, _, rfl, h, fun scan rest => ?_⟩
      rw [List.cons_append, signed, not_isSign_of_isDigit hc, if_neg Bool.false_ne_true]
      exact Option.map_id'.symm
  | plus h => exact ⟨['+'], _, _, rfl, h, fun scan rest => rfl⟩
  | minus h => exact ⟨['-'], _, _, rfl, h, fun scan rest => rfl⟩

theorem WritesInteger.length_signedInteger (h : WritesInteger base w v) (hr : EndsNumber rest) :
    Terminal.signedInteger.length (w ++ rest) = some w.length := by
  obtain ⟨sign, cs, n, rfl, hn, hs⟩ := h.signed_append
  rw [Terminal.length, hs, hn.integerLength_append hr, Option.map_some, List.length_append, Nat.add_comm]

theorem WritesInteger.length_float (h : WritesInteger base w v) (hr : EndsNumber rest) :
    Terminal.float.length (w ++ rest) = none := by
  obtain ⟨sign, cs, n, rfl, hn, hs⟩ := h.signed_append
  rw [Terminal.length, hs, hn.unsignedFloatLength_append hr, Option.map_none]

theorem firstOf_of_digit {c : Char} (hc : isDigit c = true) (cs : List Char) :
    firstOf wholeWord ["inf", "nan"] (c :: cs) = none := by
  have hi : 'i' ≠ c := by
    rintro rfl
    exact absurd hc (by decide)
  have hn : 'n' ≠ c := by
    rintro rfl
    exact absurd hc (by decide)
  simp [firstOf, wholeWord, literal, hi, hn]

theorem WritesInteger.length_special (h : WritesInteger base w v) (rest : List Char) :
    Terminal.special.length (w ++ rest) = none := by
  cases h with
  | unsigned h =>
      obtain ⟨c, ds, rfl, hc⟩ := h.exists_digit
      exact if_neg (by rw [not_isSign_of_isDigit hc]; exact Bool.false_ne_true)
  | plus h | minus h =>
      obtain ⟨c, ds, rfl, hc⟩ := h.exists_digit
      exact congrArg (Option.map (· + 1)) (firstOf_of_digit hc (ds ++ rest))

theorem WritesInteger.exists_head (h : WritesInteger base w v) :
    ∃ c cs, w = c :: cs ∧ (isDigit c = true ∨ isSign c = true) := by
  cases h with
  | unsigned h =>
      obtain ⟨c, ds, rfl, hc⟩ := h.exists_digit
      exact ⟨c, ds, rfl, .inl hc⟩
  | plus | minus => exact ⟨_, _, rfl, .inr rfl⟩

theorem WritesInteger.length_eq_none (h : WritesInteger base w v) (hr : EndsNumber rest) :
    ∀ t ∈ [Terminal.float, .special, .quoted, .dottedName], t.length (w ++ rest) = none := by
  obtain ⟨c, cs, rfl, hc⟩ := h.exists_head
  have hquote : ¬(c = '"' ∨ c = '\'') := by
    rintro (rfl | rfl) <;> exact absurd hc (by decide)
  have hname : startsName c = false := by
    rcases hc with hc | hc
    · exact startsName_of_isDigit hc
    · rcases eq_of_isSign hc with rfl | rfl <;> rfl
  simp only [List.forall_mem_cons, List.not_mem_nil, false_imp_iff, implies_true, and_true]
  refine ⟨h.length_float hr, h.length_special rest, if_neg hquote, ?_⟩
  exact if_neg (by rw [hname]; exact Bool.false_ne_true)

theorem exists_writes_of_countWhile {p : Char → Bool} (hp : ∀ c, p c = true → ∃ d, IsDigitOf base c d)
    (h : countWhile p cs = cs.length) : ∃ n, Writes base cs n :=
  exists_writes_iff.mpr fun c hc => hp c (countWhile_eq_length_iff.mp h c hc)

theorem exists_writesNatural (h : integerLength cs = some cs.length) : ∃ base n, WritesNatural base cs n := by
  unfold integerLength at h
  split at h
  · cases h
  · split at h
    · split at h
      · rename_i x hex hx
        obtain ⟨n, hn⟩ := exists_writes_of_countWhile (fun c => isHexDigit_iff.mp)
          (Nat.succ.inj (Nat.succ.inj (Option.some.inj h)))
        refine ⟨16, n, .hexadecimal hx.1 ?_ hn⟩
        rintro rfl
        exact absurd hx.2 (Nat.lt_irrefl 0)
      · obtain ⟨n, hn⟩ := exists_writes_of_countWhile (fun c => isOctalDigit_iff.mp) (Nat.succ.inj (Option.some.inj h))
        exact ⟨8, n, .octal hn⟩
    · exact ⟨8, 0, .octal ⟨[], .nil, rfl⟩⟩
  · rename_i c ds hc
    rw [Option.ite_none_right_eq_some, Option.some.injEq, List.length_cons] at h
    have hall : ∀ d ∈ c :: ds, isDigit d = true :=
      List.forall_mem_cons.mpr ⟨h.1, countWhile_eq_length_iff.mp (Nat.succ.inj h.2)⟩
    obtain ⟨n, hn⟩ := exists_writes_iff.mpr fun d hd => isDigit_iff.mp (hall d hd)
    exact ⟨10, n, .decimal hc hn⟩

theorem length_signedInteger_iff :
    Terminal.signedInteger.length w = some w.length ↔ ∃ base v, WritesInteger base w v := by
  constructor
  · intro h
    cases w with
    | nil => cases h
    | cons c cs =>
        rw [Terminal.length, signed] at h
        split at h
        · rename_i hc
          obtain ⟨m, hm, he⟩ := Option.map_eq_some_iff.mp h
          obtain ⟨base, n, hn⟩ := exists_writesNatural (hm.trans (congrArg some (Nat.succ.inj he)))
          rcases eq_of_isSign hc with rfl | rfl
          · exact ⟨base, _, .plus hn⟩
          · exact ⟨base, _, .minus hn⟩
        · obtain ⟨base, n, hn⟩ := exists_writesNatural h
          exact ⟨base, _, .unsigned hn⟩
  · rintro ⟨base, v, h⟩
    have hl := h.length_signedInteger endsNumber_nil
    rwa [List.append_nil] at hl

end Integers

end Number

end ProtoBundle
