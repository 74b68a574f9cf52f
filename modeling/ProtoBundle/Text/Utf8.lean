import ProtoBundle.Text.Hex

/-!
Reading bytes as UTF-8. A lead byte says how many bytes follow it, and the first of these is held to a narrower
range after some lead bytes, which keeps out longer forms than needed, surrogates and codes beyond the last
one. A fault covers the longest piece that could have begun a character.
-/

namespace ProtoBundle.Text.Utf8

inductive Reason where
  | invalidStart
  | invalidContinuation
  | unexpectedEnd
  deriving DecidableEq, Repr

structure Fault where
  lead : Nat
  position : Nat
  length : Nat
  reason : Reason
  deriving DecidableEq, Repr

def Reason.message : Reason → String
  | .invalidStart => "invalid start byte"
  | .invalidContinuation => "invalid continuation byte"
  | .unexpectedEnd => "unexpected end of data"

/-- A single byte is shown, several are located only. -/
def Fault.message (f : Fault) : String :=
  if f.length = 1 then
    let lead := String.ofList (lowerHex f.lead 2)
    s!"'utf-8' codec can't decode byte 0x{lead} in position {f.position}: {f.reason.message}"
  else
    s!"'utf-8' codec can't decode bytes in position {f.position}-{f.position + f.length - 1}: {f.reason.message}"

def followers (lead : Nat) : Option (List (Nat × Nat)) :=
  if lead < 0x80 then some []
  else if lead < 0xC2 then none
  else if lead < 0xE0 then some [(0x80, 0xBF)]
  else if lead = 0xE0 then some [(0xA0, 0xBF), (0x80, 0xBF)]
  else if lead = 0xED then some [(0x80, 0x9F), (0x80, 0xBF)]
  else if lead < 0xF0 then some [(0x80, 0xBF), (0x80, 0xBF)]
  else if lead = 0xF0 then some [(0x90, 0xBF), (0x80, 0xBF), (0x80, 0xBF)]
  else if lead < 0xF4 then some [(0x80, 0xBF), (0x80, 0xBF), (0x80, 0xBF)]
  else if lead = 0xF4 then some [(0x80, 0x8F), (0x80, 0xBF), (0x80, 0xBF)]
  else none

def fitting : List (Nat × Nat) → List UInt8 → Nat
  | (low, high) :: ranges, b :: bytes =>
      if low ≤ b.toNat ∧ b.toNat ≤ high then fitting ranges bytes + 1 else 0
  | _, _ => 0

def leadBits (lead count : Nat) : Nat :=
  match count with
  | 0 => lead
  | 1 => lead % 0x20
  | 2 => lead % 0x10
  | _ => lead % 0x08

def code (lead : Nat) (continuation : List UInt8) : Nat :=
  continuation.foldl (fun n b => 0x40 * n + b.toNat % 0x40) (leadBits lead continuation.length)

def decodeFrom (position : Nat) : List UInt8 → Except Fault (List Char)
  | [] => .ok []
  | b :: bytes =>
      match followers b.toNat with
      | none => .error ⟨b.toNat, position, 1, .invalidStart⟩
      | some ranges =>
          let n := fitting ranges bytes
          if n = ranges.length then
            (decodeFrom (position + 1 + n) (bytes.drop n)).map
              (Char.ofNat (code b.toNat (bytes.take n)) :: ·)
          else if n = bytes.length then .error ⟨b.toNat, position, 1 + n, .unexpectedEnd⟩
          else .error ⟨b.toNat, position, 1 + n, .invalidContinuation⟩
termination_by bytes => bytes.length
decreasing_by
  simp only [List.length_drop, List.length_cons]
  omega

def decode (bytes : List UInt8) : Except Fault (List Char) := decodeFrom 0 bytes

end ProtoBundle.Text.Utf8
