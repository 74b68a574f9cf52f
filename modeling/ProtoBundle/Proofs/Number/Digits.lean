import ProtoBundle.Number.Integer
import ProtoBundle.Text.Ascii
import ProtoBundle.Text.Hex

namespace ProtoBundle

open Text (isDigit isHexDigit)

namespace Number

theorem digitValue_digitChar {d : Nat} (h : d < 16) : digitValue (Nat.digitChar d) = d := by
  have all : ∀ d, d < 16 → digitValue (Nat.digitChar d) = d := by decide
  exact all d h

theorem isHexDigit_digitChar {d : Nat} (h : d < 16) : isHexDigit (Nat.digitChar d) = true := by
  have all : ∀ d, d < 16 → isHexDigit (Nat.digitChar d) = true := by decide
  exact all d h

theorem isDigit_digitChar {d : Nat} (h : d < 10) : isDigit (Nat.digitChar d) = true := by
  have all : ∀ d, d < 10 → isDigit (Nat.digitChar d) = true := by decide
  exact all d h

theorem ofDigits_toDigits {base : Nat} (hb : 1 < base) (hb' : base ≤ 16) (n : Nat) :
    ofDigits base (Nat.toDigits base n) = n := by
  induction n using Nat.strongRecOn with
  | ind n ih =>
      by_cases h : n < base
      · rw [Nat.toDigits_of_lt_base h]
        simp [ofDigits, digitValue_digitChar (Nat.lt_of_lt_of_le h hb')]
      · have hle : base ≤ n := Nat.le_of_not_lt h
        have hlt : n / base < n := Nat.div_lt_self (by omega) hb
        have hd : n % base < 16 := Nat.lt_of_lt_of_le (Nat.mod_lt n (by omega)) hb'
        rw [Nat.toDigits_of_base_le hb hle, ofDigits_append, ih _ hlt, digitValue_digitChar hd]
        exact Nat.div_add_mod n base

theorem ofDigits_decimal (n : Nat) : ofDigits 10 (decimal n) = n := ofDigits_toDigits (by decide) (by decide) n

theorem forall_toDigits {base : Nat} (hb : 1 < base) {p : Char → Prop} (hp : ∀ d < base, p (Nat.digitChar d))
    (n : Nat) : ∀ c ∈ Nat.toDigits base n, p c := by
  induction n using Nat.strongRecOn with
  | ind n ih =>
      intro c hc
      by_cases h : n < base
      · rw [Nat.toDigits_of_lt_base h, List.mem_singleton] at hc
        exact hc ▸ hp n h
      · have hle : base ≤ n := Nat.le_of_not_lt h
        rw [Nat.toDigits_of_base_le hb hle, List.mem_append, List.mem_singleton] at hc
        rcases hc with hc | rfl
        · exact ih _ (Nat.div_lt_self (by omega) hb) c hc
        · exact hp _ (Nat.mod_lt n (by omega))

theorem isDigit_of_mem_decimal {n : Nat} {c : Char} (h : c ∈ decimal n) : isDigit c = true :=
  forall_toDigits (by decide) (p := fun c => isDigit c = true) (fun _ hd => isDigit_digitChar hd) n c h

theorem decimal_ne_nil (n : Nat) : decimal n ≠ [] := Nat.toDigits_ne_nil

theorem decimal_zero : decimal 0 = ['0'] := rfl

theorem head_decimal_ne_zero {n : Nat} (hn : n ≠ 0) : (decimal n).head (decimal_ne_nil n) ≠ '0' := by
  induction n using Nat.strongRecOn with
  | ind n ih =>
      by_cases h : n < 10
      · simp only [decimal, Nat.toDigits_of_lt_base h, List.head_cons]
        exact fun h0 => hn (Nat.digitChar_eq_zero.mp h0)
      · have hle : 10 ≤ n := Nat.le_of_not_lt h
        have hq : n / 10 ≠ 0 := by omega
        simp only [decimal, Nat.toDigits_of_base_le (by decide : 1 < 10) hle]
        rw [List.head_append_of_ne_nil Nat.toDigits_ne_nil]
        exact ih _ (by omega) hq

end Number

namespace Text

theorem isHexDigit_of_mem_lowerHex {n width : Nat} {c : Char} (h : c ∈ lowerHex n width) : isHexDigit c = true := by
  rcases List.mem_append.mp h with hz | hd
  · rw [(List.mem_replicate.mp hz).2]
    decide
  · exact Number.forall_toDigits (by decide) (p := fun c => isHexDigit c = true)
      (fun _ hd => Number.isHexDigit_digitChar hd) n c hd

theorem ofDigits_lowerHex (n width : Nat) : Number.ofDigits 16 (lowerHex n width) = n := by
  have zeros : ∀ k cs, Number.ofDigits 16 (List.replicate k '0' ++ cs) = Number.ofDigits 16 cs := by
    intro k cs
    induction k with
    | zero => rfl
    | succ k ih => exact ih
  rw [lowerHex, zeros, Number.ofDigits_toDigits (by decide) (by decide)]

theorem length_lowerHex {n width : Nat} (h : (Nat.toDigits 16 n).length ≤ width) :
    (lowerHex n width).length = width := by
  simp only [lowerHex, List.length_append, List.length_replicate]
  omega

end Text

end ProtoBundle
