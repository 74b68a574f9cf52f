import ProtoBundle.Text.CodeRange

namespace ProtoBundle.Text

def lineBreaks : List (Nat × Nat) := [(10, 13), (28, 30), (133, 133), (8232, 8233)]

def isLineBreak (c : Char) : Bool := inRanges lineBreaks c

def firstLine (cs : List Char) : List Char := cs.takeWhile fun c => !isLineBreak c

end ProtoBundle.Text
