import ProtoBundle.Proofs.Json.Restoration
import ProtoBundle.Proofs.Script.Segments

/-!
A reader of the scripts that bind a global variable. An assignment is read as one of the build only when the text of
the build stands behind the sign; everything else that is assigned has to be the target itself, or an empty object.
-/

namespace ProtoBundle

open Json (Layout)

namespace Script

def reservedWords : List String :=
  ["break", "case", "catch", "class", "const", "continue", "debugger", "default", "delete", "do", "else", "enum",
   "export", "extends", "false", "finally", "for", "function", "if", "import", "in", "instanceof", "new", "null",
   "return", "super", "switch", "this", "throw", "true", "try", "typeof", "var", "void", "while", "with"]

def isVariableName (s : String) : Bool :=
  Source.identifierLength s.toList == some s.toList.length && !reservedWords.contains s

namespace Reader

open Json.Reader (Scan isBlank skipBlanks)

def isPathChar (c : Char) : Bool := Source.continuesName c || c == '.'

def path : Scan (List String) := fun cs =>
  let names := (Text.splitOn '.' (cs.takeWhile isPathChar)).map String.ofList
  if names.all isVariableName then some (names, cs.dropWhile isPathChar) else none

def expect (word : String) (cs : List Char) : Option (List Char) := word.toList.isPrefixOf? (skipBlanks cs)

/-- What is assigned to, and whether it is declared there. Only a variable is declared. -/
def target : Scan (Bool × List String) := fun cs =>
  if cs.takeWhile isPathChar = "var".toList then
    (path (skipBlanks (cs.dropWhile isPathChar))).bind fun r =>
      if r.1.length = 1 then some ((true, r.1), r.2) else none
  else (path cs).map fun r => ((false, r.1), r.2)

def keptOrEmpty (target : List String) (cs : List Char) : Option (List Char) :=
  (path cs).bind fun r => if r.1 = target then (expect "||" r.2).bind (expect "\x7b\x7d") else none

def assigned (built : String) (target : List String) : Scan Assigned := fun cs =>
  -- the text of the build can begin with a path as well
  match keptOrEmpty target cs with
  | some rest => some (.keptOrEmpty, rest)
  | none => (built.toList.isPrefixOf? cs).map fun rest => (.built, rest)

def statement (built : String) : Scan Assignment := fun cs =>
  (target cs).bind fun t =>
    (expect "=" t.2).bind fun cs =>
      (assigned built t.1.2 (skipBlanks cs)).bind fun v =>
        (expect ";" v.2).map fun cs => (⟨t.1.1, t.1.2, v.1⟩, cs)

/-- Every statement takes at least one character. -/
def script (built : String) (cs : List Char) : Option (List Assignment) :=
  match _h : skipBlanks cs with
  | [] => some []
  | c :: rest =>
      (statement built (c :: rest)).bind fun r =>
        if _hr : r.2.length ≤ rest.length then (script built r.2).map (r.1 :: ·) else none
termination_by cs.length
decreasing_by
  have hs : (skipBlanks cs).length ≤ cs.length := (List.dropWhile_sublist _).length_le
  rw [_h, List.length_cons] at hs
  omega

section Names

variable {names : List String} {rest : List Char}

end Names

section Statements

variable {names : List String} {rest : List Char} {built : String} {layout : Layout}

end Statements

section Bindings

end Bindings

end Reader

end Script

end ProtoBundle
