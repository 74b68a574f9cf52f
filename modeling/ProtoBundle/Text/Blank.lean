import ProtoBundle.Text.CodeRange

namespace ProtoBundle.Text

/-- White space and separators, the information separators and the next-line control included. The zero-width
space, the vowel separator and the byte order mark are no blanks. -/
def blanks : List (Nat × Nat) :=
  [(9, 13), (28, 32), (133, 133), (160, 160), (5760, 5760), (8192, 8202), (8232, 8233), (8239, 8239),
   (8287, 8287), (12288, 12288)]

def isBlank (c : Char) : Bool := inRanges blanks c

def trimLeft (cs : List Char) : List Char := cs.dropWhile isBlank

def trimRight (cs : List Char) : List Char := (cs.reverse.dropWhile isBlank).reverse

def trim (cs : List Char) : List Char := trimRight (trimLeft cs)

def allBlank (cs : List Char) : Bool := cs.all isBlank

end ProtoBundle.Text
