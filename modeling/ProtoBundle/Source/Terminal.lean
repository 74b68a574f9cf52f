import ProtoBundle.Text.Word

/-!
The terminals of the schema language. At a given place a terminal has at most one lexeme: the one that its
rule takes there, as long as the rule allows, with the first alternative that fits. There is no separate
pass that cuts a text into tokens, so a word need not be set off from its neighbours: `messageA` starts with
the word `message`.
-/

namespace ProtoBundle.Source

open Text

inductive Terminal where
  | word (text : String)
  | label
  | stream
  | importKind
  | maximum
  | special
  | identifier
  | dottedName
  | typeName
  | optionName
  | integer
  | signedInteger
  | float
  | quoted
  deriving DecidableEq, Repr

def countWhile (p : Char → Bool) : List Char → Nat
  | [] => 0
  | c :: cs => if p c then countWhile p cs + 1 else 0

theorem countWhile_eq_length_takeWhile (p : Char → Bool) (cs : List Char) :
    countWhile p cs = (cs.takeWhile p).length := by
  induction cs with
  | nil => rfl
  | cons c cs ih =>
      simp only [countWhile, List.takeWhile_cons]
      split <;> simp [ih]

def startsName (c : Char) : Bool := isLetter c || c == '_'

def continuesName (c : Char) : Bool := isLetter c || isDigit c || c == '_'

def literal : List Char → List Char → Option Nat
  | [], _ => some 0
  | _ :: _, [] => none
  | w :: ws, c :: cs => if w = c then (literal ws cs).map (· + 1) else none

def wholeWord (word cs : List Char) : Option Nat :=
  match literal word cs with
  | some n => if endsWord (cs.drop n) then some n else none
  | none => none

def firstOf (scan : List Char → List Char → Option Nat) (words : List String) (cs : List Char) : Option Nat :=
  words.findSome? fun word => scan word.toList cs

def identifierLength : List Char → Option Nat
  | [] => none
  | c :: cs => if startsName c then some (countWhile continuesName cs + 1) else none

/-- What follows the first letter of a dotted name: further name characters, and dots that are followed by
a letter. -/
def dottedRest : List Char → Nat
  | [] => 0
  | '.' :: c :: cs => if startsName c then dottedRest cs + 2 else 0
  | c :: cs => if continuesName c then dottedRest cs + 1 else 0

def dottedLength : List Char → Option Nat
  | [] => none
  | c :: cs => if startsName c then some (dottedRest cs + 1) else none

/-- The dotted part behind a closing parenthesis, which has to start with its dot. -/
def dottedTail : List Char → Nat
  | '.' :: cs => dottedRest ('.' :: cs)
  | _ => 0

def declarationWords : List String :=
  ["message", "enum", "service", "option", "oneof", "map", "reserved", "extensions", "extend", "required",
   "optional", "repeated"]

def undottedTypeLength (cs : List Char) : Option Nat :=
  if (firstOf wholeWord declarationWords cs).isSome then none else dottedLength cs

def typeLength : List Char → Option Nat
  | '.' :: cs => (undottedTypeLength cs).map (· + 1)
  | cs => undottedTypeLength cs

/-- The name in parentheses of a custom option, without the opening one. -/
def enclosedLength (cs : List Char) : Option Nat :=
  let named (cs : List Char) : Option Nat :=
    match dottedLength cs with
    | some n => if (cs.drop n).head? = some ')' then some (n + 1) else none
    | none => none
  match cs with
  | '.' :: cs => (named cs).map (· + 1)
  | cs => named cs

def optionNameLength : List Char → Option Nat
  | '(' :: cs =>
      match enclosedLength cs with
      | some n => some (n + 1 + dottedTail (cs.drop n))
      | none => none
  | cs => dottedLength cs

def integerLength : List Char → Option Nat
  | [] => none
  | '0' :: cs =>
      match cs with
      | x :: hex =>
          if (x = 'x' ∨ x = 'X') ∧ 0 < countWhile isHexDigit hex then some (countWhile isHexDigit hex + 2)
          else some (countWhile isOctalDigit cs + 1)
      | [] => some 1
  | c :: cs => if isDigit c then some (countWhile isDigit cs + 1) else none

def isSign (c : Char) : Bool := c == '+' || c == '-'

def signed (scan : List Char → Option Nat) : List Char → Option Nat
  | [] => none
  | c :: cs => if isSign c then (scan cs).map (· + 1) else scan (c :: cs)

def exponentLength : List Char → Option Nat
  | [] => none
  | e :: cs =>
      if e = 'e' ∨ e = 'E' then
        (signed (fun cs => if 0 < countWhile isDigit cs then some (countWhile isDigit cs) else none) cs).map (· + 1)
      else none

def optionalExponent (cs : List Char) : Nat := (exponentLength cs).getD 0

def unsignedFloatLength (cs : List Char) : Option Nat :=
  let whole := countWhile isDigit cs
  match cs.drop whole with
  | '.' :: fraction =>
      let places := countWhile isDigit fraction
      if 0 < whole ∨ 0 < places then
        some (whole + 1 + places + optionalExponent (fraction.drop places))
      else none
  | rest => if 0 < whole then (exponentLength rest).map (whole + ·) else none

/-- Up to the closing quote, which is counted. A backslash takes the next character with it, and a line feed
ends nothing but the attempt. -/
def quotedRest (quote : Char) : List Char → Option Nat
  | [] => none
  | c :: cs =>
      if c = '\\' then
        match cs with
        | [] => none
        | d :: cs => if d = '\n' then none else (quotedRest quote cs).map (· + 2)
      else if c = quote then some 1
      else if c = '\n' then none
      else (quotedRest quote cs).map (· + 1)

def quotedLength : List Char → Option Nat
  | [] => none
  | c :: cs => if c = '"' ∨ c = '\'' then (quotedRest c cs).map (· + 1) else none

def Terminal.length : Terminal → List Char → Option Nat
  | .word text => literal text.toList
  | .label => firstOf wholeWord ["required", "optional", "repeated"]
  | .stream => wholeWord "stream".toList
  | .importKind => firstOf literal ["public", "weak"]
  | .maximum => literal "max".toList
  | .special => fun cs =>
      match cs with
      | c :: cs => if isSign c then (firstOf wholeWord ["inf", "nan"] cs).map (· + 1) else none
      | [] => none
  | .identifier => identifierLength
  | .dottedName => dottedLength
  | .typeName => typeLength
  | .optionName => optionNameLength
  | .integer => integerLength
  | .signedInteger => signed integerLength
  | .float => signed unsignedFloatLength
  | .quoted => quotedLength

end ProtoBundle.Source
