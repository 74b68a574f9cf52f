import ProtoBundle.Json.Text

/-!
A reader of documents. It reads one value from the front of a text and gives back what is left. Integers are read
exactly; a number with a fraction or an exponent, and the names of the numbers that are not finite, are kept as
tokens. Two escapes that form a surrogate pair are one character.
-/

namespace ProtoBundle.Json

open Text (isDigit isHexDigit)

inductive Datum where
  | null
  | flag (b : Bool)
  | integer (i : Int)
  | float (token : List Char)
  | text (s : String)
  | array (items : List Datum)
  | object (members : List (String × Datum))
  deriving Repr

/-- A document with every floating-point number replaced by its token. -/
def datum : Json → Datum
  | .null => .null
  | .flag b => .flag b
  | .integer i => .integer i
  | .float x => .float (writeFloat x)
  | .text s => .text s
  | .array items => .array (ofItems items)
  | .object members => .object (ofMembers members)
where
  ofItems : List Json → List Datum
    | [] => []
    | j :: js => j.datum :: ofItems js
  ofMembers : List (String × Json) → List (String × Datum)
    | [] => []
    | (name, j) :: ms => (name, j.datum) :: ofMembers ms

namespace Reader

abbrev Scan (α : Type) := List Char → Option (α × List Char)

def isBlank (c : Char) : Bool := c == ' ' || c == '\t' || c == '\n' || c == '\r'

def skipBlanks (cs : List Char) : List Char := cs.dropWhile isBlank

def digits (cs : List Char) : List Char := cs.takeWhile isDigit

def afterDigits (cs : List Char) : List Char := cs.dropWhile isDigit

def wholePart : Scan (List Char)
  | '0' :: cs => some (['0'], cs)
  | cs => if digits cs = [] then none else some (digits cs, afterDigits cs)

/-- A point counts only with a digit behind it. -/
def fractionPart : List Char → List Char × List Char
  | '.' :: cs => if digits cs = [] then ([], '.' :: cs) else ('.' :: digits cs, afterDigits cs)
  | cs => ([], cs)

def exponentSign : List Char → List Char × List Char
  | '+' :: cs => (['+'], cs)
  | '-' :: cs => (['-'], cs)
  | cs => ([], cs)

def exponentPart : List Char → List Char × List Char
  | [] => ([], [])
  | e :: cs =>
      let (sign, ds) := exponentSign cs
      if (e = 'e' ∨ e = 'E') ∧ digits ds ≠ [] then (e :: (sign ++ digits ds), afterDigits ds) else ([], e :: cs)

def minusSign : List Char → List Char × List Char
  | '-' :: cs => (['-'], cs)
  | cs => ([], cs)

def number : Scan Datum := fun cs =>
  let (minus, cs) := minusSign cs
  match wholePart cs with
  | none => none
  | some (whole, cs) =>
      let (fraction, cs) := fractionPart cs
      let (exponent, cs) := exponentPart cs
      let size : Int := Number.ofDigits 10 whole
      if fraction = [] ∧ exponent = [] then some (.integer (if minus = [] then size else -size), cs)
      else some (.float (minus ++ whole ++ fraction ++ exponent), cs)

def words : List (List Char × Datum) :=
  [("null".toList, .null), ("true".toList, .flag true), ("false".toList, .flag false),
   ("NaN".toList, .float "NaN".toList), ("Infinity".toList, .float "Infinity".toList),
   ("-Infinity".toList, .float "-Infinity".toList)]

def scalar : Scan Datum := fun cs =>
  match words.find? fun w => w.1.isPrefixOf cs with
  | some (word, d) => some (d, cs.drop word.length)
  | none => number cs

def unit : Scan Nat
  | a :: b :: c :: d :: cs =>
      if isHexDigit a ∧ isHexDigit b ∧ isHexDigit c ∧ isHexDigit d then some (Number.ofDigits 16 [a, b, c, d], cs)
      else none
  | _ => none

def isSurrogate (unit : Nat) : Bool := decide (0xD800 ≤ unit ∧ unit < 0xE000)

def paired (high low : Nat) : Option Char :=
  if high < 0xDC00 ∧ 0xDC00 ≤ low ∧ low < 0xE000 then
    some (Char.ofNat (0x10000 + (high - 0xD800) * 0x400 + (low - 0xDC00)))
  else none

def lowSurrogate (high : Nat) : Scan Char
  | '\\' :: 'u' :: cs => (unit cs).bind fun r => (paired high r.1).map fun c => (c, r.2)
  | _ => none

def escapedCode : Scan Char := fun cs =>
  (unit cs).bind fun r => if isSurrogate r.1 then lowSurrogate r.1 r.2 else some (Char.ofNat r.1, r.2)

def escaped : Scan Char
  | 'u' :: cs => escapedCode cs
  | '"' :: cs => some ('"', cs)
  | '\\' :: cs => some ('\\', cs)
  | '/' :: cs => some ('/', cs)
  | 'b' :: cs => some ('\x08', cs)
  | 'f' :: cs => some ('\x0c', cs)
  | 'n' :: cs => some ('\n', cs)
  | 'r' :: cs => some ('\r', cs)
  | 't' :: cs => some ('\t', cs)
  | _ => none

theorem length_unit {cs rest : List Char} {n : Nat} (h : unit cs = some (n, rest)) : rest.length < cs.length := by
  unfold unit at h
  split at h
  · split at h
    · cases h
      simp only [List.length_cons]
      omega
    · cases h
  · cases h

theorem length_lowSurrogate {high : Nat} {cs rest : List Char} {c : Char}
    (h : lowSurrogate high cs = some (c, rest)) : rest.length < cs.length := by
  unfold lowSurrogate at h
  split at h
  · rename_i tail
    obtain ⟨⟨low, after⟩, hu, hp⟩ := Option.bind_eq_some_iff.mp h
    obtain ⟨d, -, hd⟩ := Option.map_eq_some_iff.mp hp
    have hlt := length_unit hu
    simp only [Prod.mk.injEq] at hd
    obtain ⟨-, rfl⟩ := hd
    simp only [List.length_cons]
    omega
  · cases h

theorem length_escapedCode {cs rest : List Char} {c : Char} (h : escapedCode cs = some (c, rest)) :
    rest.length < cs.length := by
  obtain ⟨⟨high, after⟩, hu, hr⟩ := Option.bind_eq_some_iff.mp h
  have hlt := length_unit hu
  dsimp only at hr
  split at hr
  · have := length_lowSurrogate hr
    omega
  · simp only [Option.some.injEq, Prod.mk.injEq] at hr
    obtain ⟨-, rfl⟩ := hr
    exact hlt

theorem length_escaped {cs rest : List Char} {c : Char} (h : escaped cs = some (c, rest)) :
    rest.length < cs.length := by
  unfold escaped at h
  split at h
  · exact Nat.lt_succ_of_lt (length_escapedCode h)
  · cases h; exact Nat.lt_succ_self _
  · cases h; exact Nat.lt_succ_self _
  · cases h; exact Nat.lt_succ_self _
  · cases h; exact Nat.lt_succ_self _
  · cases h; exact Nat.lt_succ_self _
  · cases h; exact Nat.lt_succ_self _
  · cases h; exact Nat.lt_succ_self _
  · cases h; exact Nat.lt_succ_self _
  · cases h

def quoted (cs : List Char) : Option (List Char × List Char) :=
  match cs with
  | [] => none
  | c :: cs =>
      if c = '"' then some ([], cs)
      else if c = '\\' then
        match _he : escaped cs with
        | some (d, rest) => (quoted rest).map fun r => (d :: r.1, r.2)
        | none => none
      else if c < ' ' then none
      else (quoted cs).map fun r => (c :: r.1, r.2)
termination_by cs.length
decreasing_by
  · have := length_escaped _he
    simp only [List.length_cons]
    omega
  · simp

def name : Scan String := fun cs =>
  match skipBlanks cs with
  | '"' :: cs => (quoted cs).map fun r => (String.ofList r.1, r.2)
  | _ => none

def furtherItems {α : Type} (item : Scan α) (closing : Char) : (fuel : Nat) → Scan (List α)
  | 0, _ => none
  | fuel + 1, cs =>
      match skipBlanks cs with
      | [] => none
      | c :: cs =>
          if c = closing then some ([], cs)
          else if c = ',' then
            (item cs).bind fun r => (furtherItems item closing fuel r.2).map fun s => (r.1 :: s.1, s.2)
          else none

def enclosed {α : Type} (item : Scan α) (closing : Char) (fuel : Nat) : Scan (List α) := fun cs =>
  match skipBlanks cs with
  | [] => none
  | c :: cs =>
      if c = closing then some ([], cs)
      else (item (c :: cs)).bind fun r => (furtherItems item closing fuel r.2).map fun s => (r.1 :: s.1, s.2)

def member (value : Scan Datum) : Scan (String × Datum) := fun cs =>
  (name cs).bind fun r =>
    match skipBlanks r.2 with
    | ':' :: cs => (value cs).map fun s => ((r.1, s.1), s.2)
    | _ => none

/-- A value that nests no deeper, and holds no more items at one place, than `fuel`. -/
def value : (fuel : Nat) → Scan Datum
  | 0, _ => none
  | fuel + 1, cs =>
      match skipBlanks cs with
      | '"' :: cs => (quoted cs).map fun r => (.text (String.ofList r.1), r.2)
      | '[' :: cs => (enclosed (value fuel) ']' fuel cs).map fun r => (.array r.1, r.2)
      | '\x7b' :: cs => (enclosed (member (value fuel)) '\x7d' fuel cs).map fun r => (.object r.1, r.2)
      | cs => scalar cs

end Reader

/-- Reads the value that a text starts with. Neither its depth nor its items can outnumber the characters. -/
def read : Reader.Scan Datum := fun cs => Reader.value (cs.length + 1) cs

end ProtoBundle.Json
