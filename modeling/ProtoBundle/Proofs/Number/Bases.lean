import Mathlib.Data.Nat.Digits.Defs
import ProtoBundle.Proofs.Number.Digits

namespace ProtoBundle

open Text (isDigit isHexDigit isOctalDigit)

namespace Number

structure IsDigitOf (base : Nat) (c : Char) (d : Nat) : Prop where
  small : d < base
  written : c = Nat.digitChar d ∨ c = (Nat.digitChar d).toUpper

def Writes (base : Nat) (cs : List Char) (n : Nat) : Prop :=
  ∃ ds : List Nat, List.Forall₂ (IsDigitOf base) cs ds ∧ Nat.ofDigits base ds.reverse = n

/-- Zero itself is the octal number without further digits. -/
inductive WritesNatural : (base : Nat) → List Char → Nat → Prop
  | decimal {c : Char} {cs : List Char} {n : Nat} (hc : c ≠ '0') (h : Writes 10 (c :: cs) n) :
      WritesNatural 10 (c :: cs) n
  | hexadecimal {x : Char} {cs : List Char} {n : Nat} (hx : x = 'x' ∨ x = 'X') (hne : cs ≠ []) (h : Writes 16 cs n) :
      WritesNatural 16 ('0' :: x :: cs) n
  | octal {cs : List Char} {n : Nat} (h : Writes 8 cs n) : WritesNatural 8 ('0' :: cs) n

inductive WritesInteger (base : Nat) : List Char → Int → Prop
  | unsigned {cs : List Char} {n : Nat} (h : WritesNatural base cs n) : WritesInteger base cs n
  | plus {cs : List Char} {n : Nat} (h : WritesNatural base cs n) : WritesInteger base ('+' :: cs) n
  | minus {cs : List Char} {n : Nat} (h : WritesNatural base cs n) : WritesInteger base ('-' :: cs) (-n)

section Digits

variable {base : Nat} {c : Char} {cs : List Char} {d n : Nat}

theorem IsDigitOf.mono (h : IsDigitOf base c d) {larger : Nat} (hb : base ≤ larger) : IsDigitOf larger c d :=
  ⟨Nat.lt_of_lt_of_le h.small hb, h.written⟩

theorem IsDigitOf.of_forall {P : Char → Nat → Prop} (h : IsDigitOf base c d)
    (hall : ∀ d < base, P (Nat.digitChar d) d ∧ P (Nat.digitChar d).toUpper d) : P c d := by
  obtain ⟨hsmall, hcapital⟩ := hall d h.small
  rcases h.written with rfl | rfl
  · exact hsmall
  · exact hcapital

theorem IsDigitOf.digitValue_eq (h : IsDigitOf base c d) (hb : base ≤ 16) : digitValue c = d :=
  (h.mono hb).of_forall (P := fun c d => digitValue c = d) (by decide)

theorem Writes.ofDigits_eq (h : Writes base cs n) (hb : base ≤ 16) : ofDigits base cs = n := by
  obtain ⟨ds, hds, rfl⟩ := h
  have hvalues : cs.map digitValue = ds := by
    induction hds with
    | nil => rfl
    | cons hc _ ih => rw [List.map_cons, hc.digitValue_eq hb, ih]
  rw [Nat.ofDigits_eq_foldr, List.foldr_reverse, ← hvalues, List.foldl_map, ofDigits]
  simp only [Nat.cast_id, Nat.add_comm]

theorem exists_writes_iff : (∃ n, Writes base cs n) ↔ ∀ c ∈ cs, ∃ d, IsDigitOf base c d := by
  constructor
  · rintro ⟨n, ds, hds, -⟩
    induction hds with
    | nil => exact nofun
    | cons hc _ ih => exact List.forall_mem_cons.mpr ⟨⟨_, hc⟩, ih⟩
  · intro h
    have hdigits : ∃ ds, List.Forall₂ (IsDigitOf base) cs ds := by
      induction cs with
      | nil => exact ⟨[], .nil⟩
      | cons c cs ih =>
          obtain ⟨⟨d, hd⟩, hcs⟩ := List.forall_mem_cons.mp h
          obtain ⟨ds, hds⟩ := ih hcs
          exact ⟨d :: ds, .cons hd hds⟩
    obtain ⟨ds, hds⟩ := hdigits
    exact ⟨_, ds, hds, rfl⟩

/-- Up to the last letter of the hexadecimal digits a class of characters is compared with the digits one by one. -/
theorem isDigitOf_iff_of_table {p : Char → Bool} (hb : base ≤ 16) (hp : p c = true → c.toNat < 103)
    (htable : ∀ n < 103, p (Char.ofNat n) = true ↔
      ∃ d < base, Char.ofNat n = Nat.digitChar d ∨ Char.ofNat n = (Nat.digitChar d).toUpper) :
    p c = true ↔ ∃ d, IsDigitOf base c d := by
  constructor
  · intro h
    have hc := htable c.toNat (hp h)
    rw [Char.ofNat_toNat] at hc
    obtain ⟨d, hd, hw⟩ := hc.mp h
    exact ⟨d, hd, hw⟩
  · rintro ⟨d, hd, hw⟩
    have hdigit : IsDigitOf base c d := ⟨hd, hw⟩
    have hlt : c.toNat < 103 := (hdigit.mono hb).of_forall (P := fun c _ => c.toNat < 103) (by decide)
    have hc := htable c.toNat hlt
    rw [Char.ofNat_toNat] at hc
    exact hc.mpr ⟨d, hd, hw⟩

theorem isHexDigit_iff : isHexDigit c = true ↔ ∃ d, IsDigitOf 16 c d := by
  refine isDigitOf_iff_of_table (Nat.le_refl _) (fun h => ?_) (by decide +kernel)
  simp only [isHexDigit, isDigit, Bool.or_eq_true, Bool.and_eq_true, decide_eq_true_eq, Char.le_def,
    UInt32.le_iff_toNat_le] at h
  change c.val.toNat < 103
  rcases h with (⟨-, h⟩ | ⟨-, h⟩) | ⟨-, h⟩
  all_goals exact Nat.lt_of_le_of_lt h (by decide)

theorem isDigit_iff : isDigit c = true ↔ ∃ d, IsDigitOf 10 c d := by
  refine isDigitOf_iff_of_table (by decide) (fun h => ?_) (by decide +kernel)
  simp only [isDigit, Bool.and_eq_true, decide_eq_true_eq, Char.le_def, UInt32.le_iff_toNat_le] at h
  exact Nat.lt_of_le_of_lt h.2 (by decide)

theorem isOctalDigit_iff : isOctalDigit c = true ↔ ∃ d, IsDigitOf 8 c d := by
  refine isDigitOf_iff_of_table (by decide) (fun h => ?_) (by decide +kernel)
  simp only [isOctalDigit, Bool.and_eq_true, decide_eq_true_eq, Char.le_def, UInt32.le_iff_toNat_le] at h
  exact Nat.lt_of_le_of_lt h.2 (by decide)

theorem isHexDigit_of_isOctalDigit (h : isOctalDigit c = true) : isHexDigit c = true := by
  obtain ⟨d, hd⟩ := isOctalDigit_iff.mp h
  exact isHexDigit_iff.mpr ⟨d, hd.mono (by decide)⟩

end Digits

section Reading

variable {base : Nat} {cs w : List Char} {n : Nat} {v : Int}

def withoutSign : List Char → List Char
  | '-' :: cs => cs
  | '+' :: cs => cs
  | cs => cs

def IsOverlong (base : Nat) (w : List Char) : Prop := base = 10 ∧ digitLimit < (withoutSign w).length

theorem WritesNatural.exists_digit (h : WritesNatural base cs n) : ∃ c ds, cs = c :: ds ∧ isDigit c = true := by
  cases h with
  | decimal _ h => exact ⟨_, _, rfl, isDigit_iff.mpr (exists_writes_iff.mp ⟨_, h⟩ _ List.mem_cons_self)⟩
  | hexadecimal => exact ⟨_, _, rfl, rfl⟩
  | octal => exact ⟨_, _, rfl, rfl⟩

theorem WritesNatural.withoutSign_eq (h : WritesNatural base cs n) : withoutSign cs = cs := by
  obtain ⟨c, ds, rfl, hc⟩ := h.exists_digit
  unfold withoutSign
  split
  · rename_i hs
    cases hs
    exact absurd hc (by decide)
  · rename_i hs
    cases hs
    exact absurd hc (by decide)
  · rfl

theorem readInteger_of_digit {c : Char} (hc : isDigit c = true) (cs : List Char) :
    readInteger (c :: cs) = (readNatural (c :: cs)).map fun n => (n : Int) := by
  unfold readInteger
  split
  · rename_i hs
    cases hs
    exact absurd hc (by decide)
  · rename_i hs
    cases hs
    exact absurd hc (by decide)
  · rfl

theorem WritesNatural.readNatural_eq (h : WritesNatural base cs n) :
    (¬IsOverlong base cs → readNatural cs = .ok n) ∧ (IsOverlong base cs → readNatural cs = .error ⟨cs.length⟩) := by
  have hsign := h.withoutSign_eq
  cases h with
  | @decimal c cs n hc h =>
      have hread : readNatural (c :: cs) =
          if digitLimit < (c :: cs).length then .error ⟨(c :: cs).length⟩ else .ok (ofDigits 10 (c :: cs)) := by
        unfold readNatural
        split
        · rename_i hs
          cases hs
          exact absurd rfl hc
        · rfl
      rw [IsOverlong, hsign, hread, h.ofDigits_eq (by decide)]
      exact ⟨fun hn => if_neg fun hl => hn ⟨rfl, hl⟩, fun hl => if_pos hl.2⟩
  | @hexadecimal x cs n hx _ h =>
      have hread : readNatural ('0' :: x :: cs) = .ok n := by rw [readNatural, if_pos hx, h.ofDigits_eq (by decide)]
      exact ⟨fun _ => hread, fun hl => absurd hl.1 (by decide)⟩
  | @octal cs n h =>
      have hread : readNatural ('0' :: cs) = .ok n := by
        have hn := h.ofDigits_eq (by decide)
        cases cs with
        | nil => exact congrArg Except.ok hn
        | cons c cs =>
            have hc : isOctalDigit c = true := isOctalDigit_iff.mpr (exists_writes_iff.mp ⟨n, h⟩ c List.mem_cons_self)
            have hx : ¬(c = 'x' ∨ c = 'X') := by
              rintro (rfl | rfl) <;> exact absurd hc (by decide)
            rw [readNatural, if_neg hx, hn]
      exact ⟨fun _ => hread, fun hl => absurd hl.1 (by decide)⟩

theorem WritesInteger.readInteger_eq (h : WritesInteger base w v) : (¬IsOverlong base w → readInteger w = .ok v) ∧
    (IsOverlong base w → readInteger w = .error ⟨(withoutSign w).length⟩) := by
  cases h with
  | unsigned h =>
      obtain ⟨hok, herror⟩ := h.readNatural_eq
      obtain ⟨c, ds, rfl, hc⟩ := h.exists_digit
      rw [readInteger_of_digit hc, h.withoutSign_eq]
      exact ⟨fun hn => by rw [hok hn]; rfl, fun hl => by rw [herror hl]; rfl⟩
  | plus h =>
      obtain ⟨hok, herror⟩ := h.readNatural_eq
      rw [IsOverlong, h.withoutSign_eq] at hok herror
      exact ⟨fun hn => by rw [readInteger, hok hn]; rfl, fun hl => by rw [readInteger, herror hl]; rfl⟩
  | minus h =>
      obtain ⟨hok, herror⟩ := h.readNatural_eq
      rw [IsOverlong, h.withoutSign_eq] at hok herror
      exact ⟨fun hn => by rw [readInteger, hok hn]; rfl, fun hl => by rw [readInteger, herror hl]; rfl⟩

end Reading

section Decimals

theorem exists_writesNatural_decimal (n : Nat) : ∃ base, WritesNatural base (decimal n) n := by
  by_cases hn : n = 0
  · subst hn
    exact ⟨8, .octal ⟨[], .nil, rfl⟩⟩
  · obtain ⟨m, hm⟩ := exists_writes_iff.mpr fun c (hc : c ∈ decimal n) => isDigit_iff.mp (isDigit_of_mem_decimal hc)
    have hvalue := (hm.ofDigits_eq (by decide)).symm.trans (ofDigits_decimal n)
    subst hvalue
    obtain ⟨c, cs, hcs⟩ := List.exists_cons_of_ne_nil (decimal_ne_nil m)
    have hc := head_decimal_ne_zero hn
    simp only [hcs, List.head_cons] at hc
    rw [hcs] at hm ⊢
    exact ⟨10, .decimal hc hm⟩

theorem exists_writesInteger_signedDecimal (i : Int) : ∃ base, WritesInteger base (signedDecimal i) i := by
  cases i with
  | ofNat n =>
      obtain ⟨base, h⟩ := exists_writesNatural_decimal n
      exact ⟨base, .unsigned h⟩
  | negSucc n =>
      obtain ⟨base, h⟩ := exists_writesNatural_decimal (n + 1)
      exact ⟨base, .minus h⟩

theorem withoutSign_signedDecimal (i : Int) : withoutSign (signedDecimal i) = decimal i.natAbs := by
  cases i with
  | ofNat n =>
      obtain ⟨base, h⟩ := exists_writesNatural_decimal n
      exact h.withoutSign_eq
  | negSucc n => rfl

theorem readInteger_signedDecimal {i : Int} (h : fits i = true) : readInteger (signedDecimal i) = .ok i := by
  obtain ⟨base, hw⟩ := exists_writesInteger_signedDecimal i
  refine hw.readInteger_eq.1 fun hl => Nat.not_lt.mpr (fits_iff_length_le.mp h) ?_
  rw [← withoutSign_signedDecimal]
  exact hl.2

end Decimals

end Number

end ProtoBundle
