import Mathlib.Data.List.DropRight
import ProtoBundle.Number.Shortest
import ProtoBundle.Proofs.Number.Digits

namespace ProtoBundle.Number

open Text (isDigit)

def AreDigits (cs : List Char) : Prop := cs ≠ [] ∧ ∀ c ∈ cs, isDigit c = true

def IsWhole (cs : List Char) : Prop := cs = ['0'] ∨ AreDigits cs ∧ cs.head? ≠ some '0'

def IsFraction (cs : List Char) : Prop := cs = [] ∨ ∃ ds, AreDigits ds ∧ cs = '.' :: ds

def IsExponent (cs : List Char) : Prop :=
  cs = [] ∨ ∃ sign ds, (sign = '+' ∨ sign = '-') ∧ AreDigits ds ∧ cs = 'e' :: sign :: ds

structure Numeral where
  negative : Bool
  whole : List Char
  fraction : List Char
  exponent : List Char
  isWhole : IsWhole whole
  isFraction : IsFraction fraction
  isExponent : IsExponent exponent

def Numeral.magnitude (n : Numeral) : List Char := n.whole ++ n.fraction ++ n.exponent

def Numeral.text (n : Numeral) : List Char := if n.negative then '-' :: n.magnitude else n.magnitude

def Numeral.isInteger (n : Numeral) : Bool := n.fraction.isEmpty && n.exponent.isEmpty

theorem Numeral.mem_text (n : Numeral) : ∀ c ∈ n.text, isDigit c = true ∨ c ∈ ['-', '+', '.', 'e'] := by
  have hw : ∀ c ∈ n.whole, isDigit c = true := by
    rcases n.isWhole with h | h
    · rw [h]
      exact List.forall_mem_singleton.mpr (by decide)
    · exact h.1.2
  have hf : ∀ c ∈ n.fraction, isDigit c = true ∨ c ∈ ['-', '+', '.', 'e'] := by
    rcases n.isFraction with h | ⟨ds, hd, h⟩
    · simp [h]
    · rw [h]
      exact List.forall_mem_cons.mpr ⟨by simp, fun c hc => .inl (hd.2 c hc)⟩
  have he : ∀ c ∈ n.exponent, isDigit c = true ∨ c ∈ ['-', '+', '.', 'e'] := by
    rcases n.isExponent with h | ⟨sign, ds, hs, hd, h⟩
    · simp [h]
    · rw [h]
      refine List.forall_mem_cons.mpr ⟨by simp, List.forall_mem_cons.mpr ⟨?_, fun c hc => .inl (hd.2 c hc)⟩⟩
      rcases hs with rfl | rfl <;> simp
  have hm : ∀ c ∈ n.magnitude, isDigit c = true ∨ c ∈ ['-', '+', '.', 'e'] :=
    List.forall_mem_append.mpr ⟨List.forall_mem_append.mpr ⟨fun c hc => .inl (hw c hc), hf⟩, he⟩
  unfold Numeral.text
  split
  · exact List.forall_mem_cons.mpr ⟨by simp, hm⟩
  · exact hm

theorem areDigits_decimal (n : Nat) : AreDigits (decimal n) :=
  ⟨decimal_ne_nil n, fun _ hc => isDigit_of_mem_decimal hc⟩

theorem head?_decimal_ne_zero {n : Nat} (hn : n ≠ 0) : (decimal n).head? ≠ some '0' := by
  rw [List.head?_eq_some_head (decimal_ne_nil n)]
  exact fun h => head_decimal_ne_zero hn (Option.some.inj h)

theorem isWhole_decimal (n : Nat) : IsWhole (decimal n) := by
  by_cases hn : n = 0
  · exact .inl (hn ▸ decimal_zero)
  · exact .inr ⟨areDigits_decimal n, head?_decimal_ne_zero hn⟩

theorem AreDigits.append {cs ds : List Char} (hc : AreDigits cs) (hd : ∀ d ∈ ds, isDigit d = true) :
    AreDigits (cs ++ ds) := by
  refine ⟨by simp [hc.1], fun c h => ?_⟩
  rcases List.mem_append.mp h with h | h
  · exact hc.2 c h
  · exact hd c h

theorem IsWhole.append {cs ds : List Char} (hc : AreDigits cs) (h0 : cs.head? ≠ some '0')
    (hd : ∀ d ∈ ds, isDigit d = true) : IsWhole (cs ++ ds) := by
  refine .inr ⟨hc.append hd, ?_⟩
  rwa [List.head?_append_of_ne_nil _ hc.1]

namespace Binary64

theorem isDigit_of_mem_zeros {n : Nat} {c : Char} (h : c ∈ zeros n) : isDigit c = true := by
  rw [(List.mem_replicate.mp h).2]
  decide

theorem trimZeros_eq_rdropWhile (cs : List Char) : trimZeros cs = cs.rdropWhile (· == '0') := rfl

theorem trimZeros_ne_nil {cs : List Char} (hne : cs ≠ []) (h0 : cs.head? ≠ some '0') : trimZeros cs ≠ [] := by
  rw [trimZeros_eq_rdropWhile, Ne, List.rdropWhile_eq_nil_iff]
  intro hall
  cases cs with
  | nil => exact hne rfl
  | cons c cs => exact h0 (congrArg some (beq_iff_eq.mp (hall c (List.mem_cons_self ..))))

theorem areDigits_trimZeros {cs : List Char} (hd : AreDigits cs) (h0 : cs.head? ≠ some '0') :
    AreDigits (trimZeros cs) ∧ (trimZeros cs).head? ≠ some '0' := by
  have hne : trimZeros cs ≠ [] := trimZeros_ne_nil hd.1 h0
  have hp : trimZeros cs <+: cs := List.rdropWhile_prefix _ _
  refine ⟨⟨hne, fun c hc => hd.2 c (hp.subset hc)⟩, ?_⟩
  obtain ⟨rest, hrest⟩ := hp
  rw [← hrest, List.head?_append_of_ne_nil _ hne] at h0
  exact h0

theorem num_binary_pos {n : Nat} (hn : 0 < n) (q : Int) : 0 < (Ratio.binary n q).num := by
  cases q with
  | ofNat k => exact Nat.mul_pos hn (Nat.pow_pos (by decide))
  | negSucc k => exact hn

theorem num_decimal_zero (p : Int) : (Ratio.decimal 0 p).num = 0 := by
  cases p with
  | ofNat k => exact Nat.zero_mul _
  | negSucc k => rfl

theorem den_decimal_pos (n : Nat) (p : Int) : 0 < (Ratio.decimal n p).den := by
  cases p with
  | ofNat k => exact Nat.one_pos
  | negSucc k => exact Nat.pow_pos (by decide)

theorem low_interval_pos {m : Nat} (hm : m ≠ 0) (q : Int) : 0 < (interval m q).low.num := by
  unfold interval
  dsimp only
  split
  · exact num_binary_pos (by omega) _
  · exact num_binary_pos (by omega) _

theorem has_decimal_zero {i : Interval} (h : 0 < i.low.num) (p : Int) : i.has (.decimal 0 p) = false := by
  have hpos : 0 < i.low.num * (Ratio.decimal 0 p).den := Nat.mul_pos h (den_decimal_pos 0 p)
  have hle : i.low.le (.decimal 0 p) = false := by
    simp only [Ratio.le, num_decimal_zero, Nat.zero_mul, decide_eq_false_iff_not]
    omega
  have hlt : i.low.lt (.decimal 0 p) = false := by
    simp only [Ratio.lt, num_decimal_zero, Nat.zero_mul, decide_eq_false_iff_not]
    omega
  simp [Interval.has, hle, hlt]

theorem has_of_onGrid {i : Interval} {r : Ratio} {p : Int} {d : Decimal} (h : onGrid i r p = some d) :
    i.has (.decimal d.digits d.power) = true := by
  have pick : ∀ near far : Nat, (if i.has (.decimal near p) then some (Decimal.mk near p)
      else if i.has (.decimal far p) then some ⟨far, p⟩ else none) = some d →
        i.has (.decimal d.digits d.power) = true := by
    intro near far hd
    split at hd
    · cases hd
      assumption
    · split at hd
      · cases hd
        assumption
      · cases hd
  exact pick _ _ h

theorem digits_ne_zero_of_onGrid {i : Interval} (h : 0 < i.low.num) {r : Ratio} {p : Int} {d : Decimal}
    (hd : onGrid i r p = some d) : d.digits ≠ 0 := by
  intro h0
  have hh := has_of_onGrid hd
  rw [h0, has_decimal_zero h] at hh
  cases hh

theorem digits_ne_zero_of_firstGrid {i : Interval} (h : 0 < i.low.num) {r : Ratio} {lead : Int}
    {count step : Nat} {d : Decimal} (hd : firstGrid i r lead count step = some d) : d.digits ≠ 0 := by
  induction count generalizing step with
  | zero => cases hd
  | succ count ih =>
      unfold firstGrid at hd
      split at hd
      · rename_i ho
        cases hd
        exact digits_ne_zero_of_onGrid h ho
      · exact ih hd

theorem digits_shortest_ne_zero {m : Nat} (hm : m ≠ 0) (q : Int) : (shortest m q).digits ≠ 0 := by
  unfold shortest
  dsimp only
  cases hd : firstGrid (interval m q) (.binary m q) (Ratio.binary m q).leadingPosition 17 0 with
  | none => exact hm
  | some d => exact digits_ne_zero_of_firstGrid (low_interval_pos hm q) hd

/-- A text made of a whole part and something behind it that makes it no integer. -/
def IsMagnitude (cs : List Char) : Prop :=
  ∃ whole fraction exponent, cs = whole ++ fraction ++ exponent ∧ IsWhole whole ∧ IsFraction fraction ∧
    IsExponent exponent ∧ (fraction ≠ [] ∨ exponent ≠ [])

theorem isMagnitude_positional {digits : List Char} (hd : AreDigits digits) (h0 : digits.head? ≠ some '0')
    (point : Int) : IsMagnitude (positional digits point) := by
  unfold positional
  split
  · have hf : AreDigits (zeros (-point).toNat ++ digits) := by
      refine ⟨by simp [hd.1], fun c hc => ?_⟩
      rcases List.mem_append.mp hc with hc | hc
      · exact isDigit_of_mem_zeros hc
      · exact hd.2 c hc
    exact ⟨['0'], '.' :: (zeros (-point).toNat ++ digits), [], by simp, .inl rfl, .inr ⟨_, hf, rfl⟩, .inl rfl,
      .inl (by simp)⟩
  · split
    · have hw : IsWhole (digits ++ zeros (point.toNat - digits.length)) :=
        .append hd h0 fun _ h => isDigit_of_mem_zeros h
      exact ⟨_, ['.', '0'], [], by simp, hw, .inr ⟨['0'], ⟨by simp, by simp; decide⟩, rfl⟩, .inl rfl,
        .inl (by simp)⟩
    · rename_i hp hl
      have hn : digits.take point.toNat ≠ [] := by
        simp only [Ne, List.take_eq_nil_iff, not_or]
        exact ⟨by omega, hd.1⟩
      have hw : IsWhole (digits.take point.toNat) := by
        refine .inr ⟨⟨hn, fun c hc => hd.2 c (List.mem_of_mem_take hc)⟩, ?_⟩
        rwa [List.head?_take, if_neg (by omega)]
      have hf : AreDigits (digits.drop point.toNat) := by
        refine ⟨?_, fun c hc => hd.2 c (List.mem_of_mem_drop hc)⟩
        simp only [Ne, List.drop_eq_nil_iff]
        omega
      exact ⟨_, '.' :: digits.drop point.toNat, [], by simp, hw, .inr ⟨_, hf, rfl⟩, .inl rfl, .inl (by simp)⟩

theorem isExponent_of_decimal (e : Int) : IsExponent ('e' :: (if e < 0 then '-' else '+') ::
    (if (decimal e.natAbs).length < 2 then '0' :: decimal e.natAbs else decimal e.natAbs)) := by
  refine .inr ⟨_, _, ?_, ?_, rfl⟩
  · split
    · exact .inr rfl
    · exact .inl rfl
  · split
    · exact ⟨by simp, List.forall_mem_cons.mpr ⟨by decide, (areDigits_decimal _).2⟩⟩
    · exact areDigits_decimal _

theorem isMagnitude_exponential {digits : List Char} (hd : AreDigits digits) (h0 : digits.head? ≠ some '0')
    (e : Int) : IsMagnitude (exponential digits e) := by
  have he := isExponent_of_decimal e
  match digits, hd, h0 with
  | [], hd, _ => exact absurd rfl hd.1
  | [d], hd, h0 => exact ⟨[d], [], _, by simp [exponential], .inr ⟨hd, h0⟩, .inl rfl, he, .inr (by simp)⟩
  | d :: c :: ds, hd, h0 =>
      have hw : IsWhole [d] := .inr ⟨⟨by simp, by simp [hd.2 d (by simp)]⟩, by simpa using h0⟩
      have hf : AreDigits (c :: ds) := ⟨by simp, fun x hx => hd.2 x (List.mem_cons_of_mem _ hx)⟩
      exact ⟨[d], '.' :: c :: ds, _, by simp [exponential], hw, .inr ⟨_, hf, rfl⟩, he, .inl (by simp)⟩

theorem isMagnitude_magnitudeText (m : Nat) (q : Int) : IsMagnitude (magnitudeText m q) := by
  unfold magnitudeText
  split
  · exact ⟨['0'], ['.', '0'], [], rfl, .inl rfl, .inr ⟨['0'], ⟨by simp, by simp; decide⟩, rfl⟩, .inl rfl,
      .inl (by simp)⟩
  · rename_i hm
    obtain ⟨hd, h0⟩ := areDigits_trimZeros (areDigits_decimal (shortest m q).digits)
      (head?_decimal_ne_zero (digits_shortest_ne_zero hm q))
    dsimp only
    split
    · exact isMagnitude_positional hd h0 _
    · exact isMagnitude_exponential hd h0 _

theorem text_finite (negative : Bool) (m : Nat) (q : Int) :
    ∃ n : Numeral, n.text = (Binary64.finite negative m q).text ∧ n.isInteger = false := by
  obtain ⟨whole, fraction, exponent, ht, hw, hf, he, hn⟩ := isMagnitude_magnitudeText m q
  refine ⟨⟨negative, whole, fraction, exponent, hw, hf, he⟩, ?_, ?_⟩
  · simp only [Numeral.text, Numeral.magnitude, Binary64.text, ht]
  · rcases hn with hn | hn <;> simp [Numeral.isInteger, hn]

end Binary64

def Numeral.ofInteger (i : Int) : Numeral :=
  ⟨decide (i < 0), decimal i.natAbs, [], [], isWhole_decimal _, .inl rfl, .inl rfl⟩

theorem Numeral.text_ofInteger (i : Int) : (Numeral.ofInteger i).text = signedDecimal i := by
  cases i with
  | ofNat n => simp [Numeral.text, Numeral.magnitude, Numeral.ofInteger, signedDecimal]
  | negSucc n => simp [Numeral.text, Numeral.magnitude, Numeral.ofInteger, signedDecimal, Int.negSucc_lt_zero]

end ProtoBundle.Number
