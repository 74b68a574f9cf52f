import ProtoBundle.Source.Terminal

/-!
Places in a text, the layout that may stand in front of a lexeme, and reading one lexeme. Layout is blanks,
line comments and block comments; a block comment that is never closed is no layout.
-/

namespace ProtoBundle.Source

structure Cursor where
  offset : Nat
  rest : List Char
  deriving DecidableEq, Repr

def Cursor.start (text : List Char) : Cursor := ⟨0, text⟩

def Cursor.advance (c : Cursor) (n : Nat) : Cursor := ⟨c.offset + n, c.rest.drop n⟩

def isSpacing (c : Char) : Bool := c == ' ' || c == '\t' || c == '\x0c' || c == '\r' || c == '\n'

def blockRest : List Char → Option Nat
  | [] => none
  | '*' :: '/' :: _ => some 2
  | _ :: cs => (blockRest cs).map (· + 1)

/-- The length of the one piece of layout that starts here; zero where none does. -/
def layoutLength : List Char → Nat
  | '/' :: '/' :: cs => countWhile (· != '\n') cs + 2
  | '/' :: '*' :: cs =>
      match blockRest cs with
      | some n => n + 2
      | none => 0
  | cs => countWhile isSpacing cs

theorem layoutLength_nil : layoutLength [] = 0 := rfl

def Cursor.skip (c : Cursor) : Cursor :=
  if layoutLength c.rest = 0 then c else (c.advance (layoutLength c.rest)).skip
termination_by c.rest.length
decreasing_by
  rename_i h
  cases hc : c.rest with
  | nil => rw [hc] at h; exact absurd layoutLength_nil h
  | cons x xs =>
      rw [hc] at h
      simp only [Cursor.advance, hc, List.length_drop, List.length_cons]
      omega

theorem Cursor.skip_of_layoutLength_eq_zero {c : Cursor} (h : layoutLength c.rest = 0) : c.skip = c := by
  rw [Cursor.skip, if_pos h]

structure Lexeme where
  text : String
  offset : Nat
  deriving DecidableEq, Repr

def Terminal.read (t : Terminal) (c : Cursor) : Option (Lexeme × Cursor) :=
  match t.length c.skip.rest with
  | some n => some (⟨String.ofList (c.skip.rest.take n), c.skip.offset⟩, c.skip.advance n)
  | none => none

end ProtoBundle.Source
