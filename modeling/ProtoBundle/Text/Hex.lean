namespace ProtoBundle.Text

def lowerHex (n width : Nat) : List Char :=
  let digits := Nat.toDigits 16 n
  List.replicate (width - digits.length) '0' ++ digits

end ProtoBundle.Text
