namespace ProtoBundle.Text

structure Place where
  line : Nat
  column : Nat
  deriving DecidableEq, Repr

def Place.start : Place := ⟨1, 1⟩

def Place.after (p : Place) (c : Char) : Place :=
  if c = '\n' then ⟨p.line + 1, 1⟩ else ⟨p.line, p.column + 1⟩

def placeAfter (cs : List Char) : Place := cs.foldl Place.after Place.start

def placeAt (text : List Char) (offset : Nat) : Place := placeAfter (text.take offset)

theorem placeAfter_append (cs : List Char) (c : Char) :
    placeAfter (cs ++ [c]) = (placeAfter cs).after c := by
  simp [placeAfter]

theorem line_placeAfter (cs : List Char) : (placeAfter cs).line = cs.count '\n' + 1 := by
  have go : ∀ (p : Place), (cs.foldl Place.after p).line = p.line + cs.count '\n' := by
    induction cs with
    | nil => simp
    | cons c cs ih =>
        intro p
        by_cases hc : c = '\n'
        · simp [ih, Place.after, hc]
          omega
        · simp [ih, Place.after, hc]
  simp [placeAfter, go, Place.start]
  omega

end ProtoBundle.Text
