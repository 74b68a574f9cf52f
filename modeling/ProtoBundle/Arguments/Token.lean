import ProtoBundle.Arguments.Fault
import ProtoBundle.Text.DecimalDigit

/-!
The words of a command line by the part they play. Two dashes end the switches. A switch may be cut short as
long as one spelling only begins that way, and its value may be joined to it: behind an equals sign, or directly
behind a single letter. Negative numbers and words with a blank are no switches.
-/

namespace ProtoBundle.Arguments

inductive Token where
  | separator
  | plain (text : String)
  | switch (s : Switch) (short : Bool) (joined : Option (List Char))
  | unknown (text : String)
  deriving DecidableEq, Repr

def startsWith (beginning : List Char) (name : String) : Bool := beginning.isPrefixOf name.toList

def isShort (name : String) : Bool := !startsWith ['-', '-'] name

def beforeEquals (cs : List Char) : List Char := cs.takeWhile (· != '=')

def afterEquals (cs : List Char) : Option (List Char) :=
  match cs.dropWhile (· != '=') with
  | [] => none
  | _ :: value => some value

/-- A minus sign with decimal digits and at most one point, which needs a digit behind it. One line feed may
follow. -/
def isNegativeNumber (cs : List Char) : Bool :=
  let cs := if cs.getLast? = some '\n' then cs.dropLast else cs
  match cs with
  | '-' :: digits =>
      match digits.dropWhile Text.isDecimalDigit with
      | [] => !digits.isEmpty
      | '.' :: places => !places.isEmpty && places.all Text.isDecimalDigit
      | _ => false
  | _ => false

/-- The spellings that a word with two dashes begins, or the one letter that a word with one dash starts with,
each with the value joined to it. -/
def candidates (cs : List Char) : List (String × Switch × Option (List Char)) :=
  if startsWith ['-', '-'] (String.ofList cs) then
    (spelled.filter fun e => startsWith (beforeEquals cs) e.1).map fun e => (e.1, e.2, afterEquals cs)
  else
    (spelled.filter fun e => e.1.toList == cs.take 2).map fun e => (e.1, e.2, some (cs.drop 2))

def token (word : String) : Except Fault Token :=
  let cs := word.toList
  if cs.head? != some '-' then .ok (.plain word)
  else
    match switch? word with
    | some s => .ok (.switch s (isShort word) none)
    | none =>
        if cs.length = 1 then .ok (.plain word)
        else
          match switch? (String.ofList (beforeEquals cs)), afterEquals cs with
          | some s, some value => .ok (.switch s (isShort word) (some value))
          | _, _ =>
              match candidates cs with
              | [(_, s, joined)] => .ok (.switch s (isShort word) joined)
              | [] => .ok (if isNegativeNumber cs || cs.contains ' ' then .plain word else .unknown word)
              | several => .error (.ambiguous word (several.map Prod.fst))

def tokens : List String → Except Fault (List Token)
  | [] => .ok []
  | "--" :: words => .ok (.separator :: words.map .plain)
  | word :: words => do
      let t ← token word
      let ts ← tokens words
      return t :: ts

end ProtoBundle.Arguments
