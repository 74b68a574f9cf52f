import ProtoBundle.Number.Integer
import ProtoBundle.Text.Ascii

/-!
Floating-point numbers of 64 bits, as a sign, a significand and a power of two, and the rounding of an exact
ratio to the nearest of them, a tie going to the even significand.
-/

namespace ProtoBundle.Number

/-- `finite negative m q` is `m · 2 ^ q`, or its opposite. -/
inductive Binary64 where
  | finite (negative : Bool) (significand : Nat) (exponent : Int)
  | infinite (negative : Bool)
  | nan
  deriving DecidableEq, Repr

namespace Binary64

def precision : Nat := 53

def leastExponent : Int := -1074

def greatestExponent : Int := 971

def zero (negative : Bool) : Binary64 := .finite negative 0 leastExponent

/-- The nearest integer to `num / den`, the even one of two that are as near. -/
def roundRatio (num den : Nat) : Nat :=
  let q := num / den
  let r := num % den
  if den < 2 * r ∨ (2 * r = den ∧ q % 2 = 1) then q + 1 else q

def inUnits (num den : Nat) (q : Int) : Nat × Nat :=
  match q with
  | .ofNat k => (num, den * Nat.pow 2 k)
  | .negSucc k => (num * Nat.pow 2 (k + 1), den)

/-- The greatest exponent for which `num / den` has all bits of a significand, or the least exponent. -/
def exponentOf (num den : Nat) : Int :=
  let guess : Int := (Nat.log2 num : Int) - Nat.log2 den - (precision - 1 : Nat)
  let units := inUnits num den guess
  let q := if units.1 < units.2 * Nat.pow 2 (precision - 1) then guess - 1 else guess
  max q leastExponent

/-- The number nearest to `num / den`. A significand that is rounded up to one bit more moves its exponent,
and what lies beyond the greatest exponent is infinite. -/
def ofRatio (negative : Bool) (num den : Nat) : Binary64 :=
  if num = 0 then zero negative
  else
    let q := exponentOf num den
    let units := inUnits num den q
    let m := roundRatio units.1 units.2
    let (m, q) := if m = Nat.pow 2 precision then (Nat.pow 2 (precision - 1), q + 1) else (m, q)
    if greatestExponent < q then .infinite negative else .finite negative m q

/-- The number nearest to `digits · 10 ^ power`. Beyond the magnitudes named here nothing but an infinity or a
zero can come out, however long the power is. -/
def ofDecimal (negative : Bool) (digits : Nat) (power : Int) : Binary64 :=
  if digits = 0 then zero negative
  else
    let magnitude : Int := (decimal digits).length + power
    if 400 < magnitude then .infinite negative
    else if magnitude < -400 then zero negative
    else
      match power with
      | .ofNat k => ofRatio negative (digits * Nat.pow 10 k) 1
      | .negSucc k => ofRatio negative digits (Nat.pow 10 (k + 1))

def splitSign : List Char → Bool × List Char
  | '-' :: cs => (true, cs)
  | '+' :: cs => (false, cs)
  | cs => (false, cs)

def readExponent : List Char → Int
  | [] => 0
  | _ :: cs =>
      let (negative, digits) := splitSign cs
      let n := ofDigits 10 digits
      if negative then -(n : Int) else n

def ofText (cs : List Char) : Binary64 :=
  let (negative, cs) := splitSign cs
  if cs = ['i', 'n', 'f'] then .infinite negative
  else if cs = ['n', 'a', 'n'] then .nan
  else
    let whole := cs.takeWhile Text.isDigit
    let rest := cs.dropWhile Text.isDigit
    match rest with
    | '.' :: rest =>
        let fraction := rest.takeWhile Text.isDigit
        ofDecimal negative (ofDigits 10 (whole ++ fraction))
          (readExponent (rest.dropWhile Text.isDigit) - fraction.length)
    | rest => ofDecimal negative (ofDigits 10 whole) (readExponent rest)

end Binary64

end ProtoBundle.Number
