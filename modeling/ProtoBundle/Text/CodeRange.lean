namespace ProtoBundle.Text

structure CodeRange where
  first : Nat
  last : Nat
  deriving DecidableEq, Repr

def CodeRange.Covers (r : CodeRange) (n : Nat) : Prop := r.first ≤ n ∧ n ≤ r.last

instance (r : CodeRange) (n : Nat) : Decidable (r.Covers n) :=
  inferInstanceAs (Decidable (_ ∧ _))

/-- A table is a list of pairs `(first, last)`; a character belongs to it when one pair covers its code. -/
def inRanges : List (Nat × Nat) → Char → Bool
  | [], _ => false
  | (first, last) :: rest, c => (decide (first ≤ c.toNat) && decide (c.toNat ≤ last)) || inRanges rest c

theorem inRanges_iff {table : List (Nat × Nat)} {c : Char} :
    inRanges table c = true ↔ ∃ r ∈ table, (CodeRange.mk r.1 r.2).Covers c.toNat := by
  induction table with
  | nil => simp [inRanges]
  | cons r rest ih =>
      obtain ⟨first, last⟩ := r
      simp [inRanges, ih, CodeRange.Covers]

end ProtoBundle.Text
