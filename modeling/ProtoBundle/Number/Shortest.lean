import ProtoBundle.Number.Binary64

/-!
The shortest decimal text that reads back as a given floating-point number, and its layout: positional from
`0.0001` up to sixteen digits before the point, with an exponent of at least two digits otherwise.
-/

namespace ProtoBundle.Number

namespace Binary64

/-- A ratio of naturals, compared by cross multiplication. -/
structure Ratio where
  num : Nat
  den : Nat
  deriving DecidableEq, Repr

def Ratio.le (a b : Ratio) : Bool := decide (a.num * b.den ≤ b.num * a.den)

def Ratio.lt (a b : Ratio) : Bool := decide (a.num * b.den < b.num * a.den)

/-- `n · 2 ^ q` -/
def Ratio.binary (n : Nat) : Int → Ratio
  | .ofNat k => ⟨n * Nat.pow 2 k, 1⟩
  | .negSucc k => ⟨n, Nat.pow 2 (k + 1)⟩

/-- `n · 10 ^ p` -/
def Ratio.decimal (n : Nat) : Int → Ratio
  | .ofNat k => ⟨n * Nat.pow 10 k, 1⟩
  | .negSucc k => ⟨n, Nat.pow 10 (k + 1)⟩

/-- The decimal position of the first digit: `10 ^ p ≤ r < 10 ^ (p + 1)`. -/
def Ratio.leadingPosition (r : Ratio) : Int :=
  let p : Int := (Number.decimal r.num).length - (Number.decimal r.den).length
  if (Ratio.decimal 1 p).le r then p else p - 1

/-- The numbers that are read as `m · 2 ^ q`: half a unit to either side, below a power of two only a quarter.
The two ends belong to it when the significand is even. -/
structure Interval where
  low : Ratio
  high : Ratio
  closed : Bool
  deriving DecidableEq, Repr

def interval (m : Nat) (q : Int) : Interval where
  low :=
    if m = Nat.pow 2 (precision - 1) ∧ leastExponent < q then .binary (4 * m - 1) (q - 2)
    else .binary (4 * m - 2) (q - 2)
  high := .binary (4 * m + 2) (q - 2)
  closed := m % 2 = 0

def Interval.has (i : Interval) (r : Ratio) : Bool :=
  if i.closed then i.low.le r && r.le i.high else i.low.lt r && r.lt i.high

structure Decimal where
  digits : Nat
  power : Int
  deriving DecidableEq, Repr

/-- On the grid of the multiples of `10 ^ p`, the neighbour of `r` that lies in the interval; the nearer one
of two, and the even one of two that are as near. -/
def onGrid (i : Interval) (r : Ratio) (p : Int) : Option Decimal :=
  let scaled : Ratio :=
    match p with
    | .ofNat k => ⟨r.num, r.den * Nat.pow 10 k⟩
    | .negSucc k => ⟨r.num * Nat.pow 10 (k + 1), r.den⟩
  let below := scaled.num / scaled.den
  let rounded := roundRatio scaled.num scaled.den
  let other := if rounded = below then below + 1 else below
  if i.has (.decimal rounded p) then some ⟨rounded, p⟩
  else if i.has (.decimal other p) then some ⟨other, p⟩
  else none

def firstGrid (i : Interval) (r : Ratio) (lead : Int) : (count step : Nat) → Option Decimal
  | 0, _ => none
  | count + 1, step =>
      match onGrid i r (lead - step) with
      | some d => some d
      | none => firstGrid i r lead count (step + 1)

/-- Seventeen digits always read back, so that the grid of the exact binary value itself is never needed. -/
def shortest (m : Nat) (q : Int) : Decimal :=
  let r := Ratio.binary m q
  (firstGrid (interval m q) r r.leadingPosition 17 0).getD ⟨m, q⟩

def trimZeros (cs : List Char) : List Char := (cs.reverse.dropWhile (· == '0')).reverse

def zeros (n : Nat) : List Char := List.replicate n '0'

def positional (digits : List Char) (point : Int) : List Char :=
  if point ≤ 0 then '0' :: '.' :: (zeros (-point).toNat ++ digits)
  else if digits.length ≤ point.toNat then digits ++ zeros (point.toNat - digits.length) ++ ['.', '0']
  else digits.take point.toNat ++ '.' :: digits.drop point.toNat

def exponential (digits : List Char) (exponent : Int) : List Char :=
  let mantissa :=
    match digits with
    | [] => []
    | [d] => [d]
    | d :: ds => d :: '.' :: ds
  let size := decimal exponent.natAbs
  mantissa ++ 'e' :: (if exponent < 0 then '-' else '+') :: (if size.length < 2 then '0' :: size else size)

def magnitudeText (m : Nat) (q : Int) : List Char :=
  if m = 0 then ['0', '.', '0']
  else
    let d := shortest m q
    let point : Int := (decimal d.digits).length + d.power
    let digits := trimZeros (decimal d.digits)
    if -4 < point ∧ point ≤ 16 then positional digits point else exponential digits (point - 1)

def text : Binary64 → List Char
  | .finite negative m q => if negative then '-' :: magnitudeText m q else magnitudeText m q
  | .infinite negative => if negative then ['-', 'i', 'n', 'f'] else ['i', 'n', 'f']
  | .nan => ['n', 'a', 'n']

end Binary64

end ProtoBundle.Number
