import ProtoBundle.Number.Integer
import ProtoBundle.Text.Ascii

/-!
Quoted texts of a schema file and what they stand for. Behind a backslash stand a hexadecimal code of one or two
digits after an `x`, an octal code of one to three digits, or a single character, which stands for a control
character or for itself.
-/

namespace ProtoBundle.Source

open Text (isHexDigit isOctalDigit)

def controlEscape : Char → Char
  | 'a' => '\x07'
  | 'b' => '\x08'
  | 'f' => '\x0c'
  | 'n' => '\n'
  | 'r' => '\r'
  | 't' => '\t'
  | 'v' => '\x0b'
  | c => c

def leadingDigits (isDigit : Char → Bool) (count : Nat) (cs : List Char) : List Char :=
  (cs.take count).takeWhile isDigit

/-- The character that `e` stands for behind a backslash, and what is left of the text that follows `e`. -/
def escape (e : Char) (cs : List Char) : Char × List Char :=
  let hexadecimal := leadingDigits isHexDigit 2 cs
  if (e = 'x' ∨ e = 'X') ∧ hexadecimal ≠ [] then
    (Char.ofNat (Number.ofDigits 16 hexadecimal), cs.drop hexadecimal.length)
  else if isOctalDigit e then
    let octal := leadingDigits isOctalDigit 2 cs
    (Char.ofNat (Number.ofDigits 8 (e :: octal)), cs.drop octal.length)
  else (controlEscape e, cs)

theorem length_escape_le (e : Char) (cs : List Char) : (escape e cs).2.length ≤ cs.length := by
  unfold escape
  dsimp only
  split
  · simp
  · split <;> simp

def unescape : List Char → List Char
  | [] => []
  | ['\\'] => ['\\']
  | '\\' :: e :: cs => (escape e cs).1 :: unescape (escape e cs).2
  | c :: cs => c :: unescape cs
termination_by cs => cs.length
decreasing_by
  · have := length_escape_le e cs
    simp only [List.length_cons]
    omega
  · simp

def unquote (quoted : List Char) : List Char := unescape (quoted.tail.dropLast)

end ProtoBundle.Source
