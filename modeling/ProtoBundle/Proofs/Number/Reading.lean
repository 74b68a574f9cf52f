import ProtoBundle.Number.Binary64

namespace ProtoBundle.Number.Binary64

def IsFinite : Binary64 → Prop
  | .finite _ _ _ => True
  | _ => False

theorem ite_ne_nan {p : Prop} [Decidable p] {x y : Binary64} (hx : x ≠ .nan) (hy : y ≠ .nan) :
    (if p then x else y) ≠ .nan := by
  split
  · exact hx
  · exact hy

theorem finite_ne_nan (negative : Bool) (m : Nat) (q : Int) : finite negative m q ≠ .nan := by simp

theorem infinite_ne_nan (negative : Bool) : infinite negative ≠ .nan := by simp

theorem zero_ne_nan (negative : Bool) : zero negative ≠ .nan := finite_ne_nan negative 0 leastExponent

theorem ofRatio_ne_nan (negative : Bool) (num den : Nat) : ofRatio negative num den ≠ .nan := by
  rw [ofRatio]
  refine ite_ne_nan (zero_ne_nan negative) ?_
  extract_lets q units m
  clear_value m
  -- The powers of two are kept from being evaluated.
  generalize (if m = Nat.pow 2 precision then (Nat.pow 2 (precision - 1), q + 1) else (m, q)) = r
  cases r with
  | mk m q => exact ite_ne_nan (infinite_ne_nan negative) (finite_ne_nan negative m q)

theorem ofDecimal_ne_nan (negative : Bool) (digits : Nat) (power : Int) : ofDecimal negative digits power ≠ .nan := by
  unfold ofDecimal
  refine ite_ne_nan (zero_ne_nan negative) ?_
  extract_lets magnitude
  refine ite_ne_nan (infinite_ne_nan negative) (ite_ne_nan (zero_ne_nan negative) ?_)
  split
  · exact ofRatio_ne_nan _ _ _
  · exact ofRatio_ne_nan _ _ _

theorem ofText_ne_nan {cs : List Char} (h : (splitSign cs).2.head? ≠ some 'n') : ofText cs ≠ .nan := by
  rw [ofText]
  revert h
  generalize splitSign cs = r
  obtain ⟨negative, ds⟩ := r
  intro h
  dsimp only
  split
  · exact infinite_ne_nan negative
  · split
    · rename_i hn
      rw [hn] at h
      exact absurd rfl h
    · split
      · exact ofDecimal_ne_nan _ _ _
      · exact ofDecimal_ne_nan _ _ _

end ProtoBundle.Number.Binary64
