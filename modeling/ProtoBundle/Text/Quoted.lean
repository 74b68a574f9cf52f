import ProtoBundle.Text.Hex
import ProtoBundle.Text.Printable

/-!
Texts quoted for messages. Single quotes enclose a text unless it holds such a quote and no double one. The
enclosing quote and the backslash are escaped, and so is every character that is not printable, by its code.
-/

namespace ProtoBundle.Text

def codeEscape (c : Char) : List Char :=
  if c.toNat < 0x100 then '\\' :: 'x' :: lowerHex c.toNat 2
  else if c.toNat < 0x10000 then '\\' :: 'u' :: lowerHex c.toNat 4
  else '\\' :: 'U' :: lowerHex c.toNat 8

def quotedChar (quote c : Char) : List Char :=
  if c = quote ∨ c = '\\' then ['\\', c]
  else if c = '\n' then ['\\', 'n']
  else if c = '\r' then ['\\', 'r']
  else if c = '\t' then ['\\', 't']
  else if isPrintable c then [c]
  else codeEscape c

def enclosingQuote (cs : List Char) : Char := if '\'' ∈ cs ∧ '"' ∉ cs then '"' else '\''

def quoted (cs : List Char) : List Char :=
  enclosingQuote cs :: (cs.flatMap (quotedChar (enclosingQuote cs)) ++ [enclosingQuote cs])

def quotedString (s : String) : String := String.ofList (quoted s.toList)

def quotedList (ss : List String) : String :=
  "[" ++ String.intercalate ", " (ss.map quotedString) ++ "]"

end ProtoBundle.Text
