import ProtoBundle.Json.Basic
import ProtoBundle.Number.Shortest
import ProtoBundle.Text.Hex

/-!
The text of a document, in two layouts that differ in nothing but the line breaks and blanks between its parts.
The text is ASCII: every other character is written as an escape of its UTF-16 units.
-/

namespace ProtoBundle.Json

inductive Layout where
  | pretty
  | compact
  deriving DecidableEq, Repr

def Layout.newLine (depth : Nat) : Layout → List Char
  | .pretty => '\n' :: List.replicate (4 * depth) ' '
  | .compact => []

def Layout.colon : Layout → List Char
  | .pretty => [':', ' ']
  | .compact => [':']

def unitEscape (unit : Nat) : List Char := '\\' :: 'u' :: Text.lowerHex unit 4

def units (c : Char) : List Nat :=
  if c.toNat < 0x10000 then [c.toNat]
  else [0xD800 + (c.toNat - 0x10000) / 0x400, 0xDC00 + (c.toNat - 0x10000) % 0x400]

def writeChar (c : Char) : List Char :=
  if c = '"' then ['\\', '"']
  else if c = '\\' then ['\\', '\\']
  else if c = '\n' then ['\\', 'n']
  else if c = '\r' then ['\\', 'r']
  else if c = '\t' then ['\\', 't']
  else if c = '\x08' then ['\\', 'b']
  else if c = '\x0c' then ['\\', 'f']
  else if ' ' ≤ c ∧ c ≤ '~' then [c]
  else (units c).flatMap unitEscape

def writeText (s : List Char) : List Char := '"' :: (s.flatMap writeChar ++ ['"'])

def writeFloat : Number.Binary64 → List Char
  | .infinite negative => if negative then "-Infinity".toList else "Infinity".toList
  | .nan => "NaN".toList
  | x => x.text

def write (layout : Layout) (depth : Nat) : Json → List Char
  | .null => "null".toList
  | .flag b => if b then "true".toList else "false".toList
  | .integer i => Number.signedDecimal i
  | .float x => writeFloat x
  | .text s => writeText s.toList
  | .array [] => ['[', ']']
  | .array (j :: js) =>
      '[' :: (layout.newLine (depth + 1) ++ write layout (depth + 1) j ++ writeItems (depth + 1) js ++
        layout.newLine depth ++ [']'])
  | .object [] => ['{', '}']
  | .object ((name, j) :: ms) =>
      '{' :: (layout.newLine (depth + 1) ++ writeText name.toList ++ layout.colon ++ write layout (depth + 1) j ++
        writeMembers (depth + 1) ms ++ layout.newLine depth ++ ['}'])
where
  writeItems (depth : Nat) : List Json → List Char
    | [] => []
    | j :: js => ',' :: (layout.newLine depth ++ write layout depth j ++ writeItems depth js)
  writeMembers (depth : Nat) : List (String × Json) → List Char
    | [] => []
    | (name, j) :: ms =>
        ',' :: (layout.newLine depth ++ writeText name.toList ++ layout.colon ++ write layout depth j ++
          writeMembers depth ms)

def string (layout : Layout) (j : Json) : String := String.ofList (j.write layout 0)

def quote (s : String) : String := String.ofList (writeText s.toList)

end ProtoBundle.Json
