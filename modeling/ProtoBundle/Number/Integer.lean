/-!
Integers and their texts. Decimal texts of more than `digitLimit` digits are neither read nor written;
hexadecimal and octal ones have no limit.
-/

namespace ProtoBundle.Number

def digitLimit : Nat := 4300

def digitValue (c : Char) : Nat :=
  if c ≤ '9' then c.toNat - '0'.toNat
  else if c ≤ 'F' then c.toNat - 'A'.toNat + 10
  else c.toNat - 'a'.toNat + 10

def ofDigits (base : Nat) (cs : List Char) : Nat := cs.foldl (fun n c => base * n + digitValue c) 0

structure TooManyDigits where
  count : Nat
  deriving DecidableEq, Repr

/-- Hexadecimal after `0x`, octal after `0`, decimal otherwise. -/
def readNatural : List Char → Except TooManyDigits Nat
  | '0' :: c :: cs =>
      if c = 'x' ∨ c = 'X' then .ok (ofDigits 16 cs) else .ok (ofDigits 8 (c :: cs))
  | cs => if digitLimit < cs.length then .error ⟨cs.length⟩ else .ok (ofDigits 10 cs)

def readInteger : List Char → Except TooManyDigits Int
  | '-' :: cs => (readNatural cs).map fun n => -(n : Int)
  | '+' :: cs => (readNatural cs).map fun n => (n : Int)
  | cs => (readNatural cs).map fun n => (n : Int)

def decimal (n : Nat) : List Char := Nat.toDigits 10 n

def signedDecimal (i : Int) : List Char :=
  match i with
  | .ofNat n => decimal n
  | .negSucc n => '-' :: decimal (n + 1)

def fits (i : Int) : Bool := decide (i.natAbs < Nat.pow 10 digitLimit)

theorem fits_iff_length_le {i : Int} : fits i = true ↔ (decimal i.natAbs).length ≤ digitLimit := by
  rw [fits, decide_eq_true_iff, Nat.pow_eq, decimal, Nat.length_toDigits_le_iff (by decide) (by decide)]

theorem ofDigits_append (base : Nat) (cs : List Char) (c : Char) :
    ofDigits base (cs ++ [c]) = base * ofDigits base cs + digitValue c := by
  simp [ofDigits]

end ProtoBundle.Number
