import ProtoBundle.Source.Cursor

/-!
Grammars over terminals, and what they read. A grammar may read a text in several ways; `run` lists them all,
the preferred ones first: an earlier alternative before a later one, a present optional part before an absent
one, more repetitions before fewer. `reach` is the furthest place at which a reading still looks for a
terminal, which is how far a text that is no sentence can be followed.
-/

namespace ProtoBundle.Source

/-- A grammar for values of a type, in which `self` stands for a rule that reads values of type `ρ`. -/
inductive Grammar (ρ : Type) : Type → Type 1 where
  | terminal (t : Terminal) : Grammar ρ Lexeme
  | self : Grammar ρ ρ
  | both {α β : Type} (a : Grammar ρ α) (b : Grammar ρ β) : Grammar ρ (α × β)
  | either {α : Type} (a b : Grammar ρ α) : Grammar ρ α
  | optional {α : Type} (a : Grammar ρ α) : Grammar ρ (Option α)
  | many {α : Type} (a : Grammar ρ α) : Grammar ρ (List α)
  | map {α β : Type} (f : α → β) (a : Grammar ρ α) : Grammar ρ β

abbrev Reading (α : Type) := List (α × Cursor)

def firstPerEnd {α : Type} : Reading α → Reading α
  | [] => []
  | r :: rs => r :: (firstPerEnd rs).filter fun s => s.2.offset != r.2.offset

theorem firstPerEnd_sublist {α : Type} (rs : Reading α) : (firstPerEnd rs).Sublist rs := by
  induction rs with
  | nil => exact .slnil
  | cons r rs ih => exact .cons_cons r ((List.filter_sublist ..).trans ih)

def repeated {α : Type} (item : Cursor → Reading α) : (fuel : Nat) → Cursor → Reading (List α)
  | 0, c => [([], c)]
  | fuel + 1, c =>
      (firstPerEnd (item c)).flatMap (fun r => (repeated item fuel r.2).map fun s => (r.1 :: s.1, s.2)) ++
        [([], c)]

def Grammar.run {ρ : Type} (self : Cursor → Reading ρ) :
    {α : Type} → Grammar ρ α → Cursor → Reading α
  | _, .terminal t, c =>
      match t.read c with
      | some r => [r]
      | none => []
  | _, .self, c => self c
  | _, .both a b, c =>
      (a.run self c).flatMap fun r => (b.run self r.2).map fun s => ((r.1, s.1), s.2)
  | _, .either a b, c => a.run self c ++ b.run self c
  | _, .optional a, c => (a.run self c).map (fun r => (some r.1, r.2)) ++ [(none, c)]
  | _, .many a, c => repeated (a.run self) c.rest.length c
  | _, .map f a, c => (a.run self c).map fun r => (f r.1, r.2)

def furthest {α : Type} (from_ : Cursor → Nat) (start : Nat) (rs : Reading α) : Nat :=
  rs.foldl (fun m r => max m (from_ r.2)) start

def repeatedReach {α : Type} (item : Cursor → Reading α) (reach : Cursor → Nat) : (fuel : Nat) → Cursor → Nat
  | 0, c => reach c
  | fuel + 1, c => furthest (repeatedReach item reach fuel) (reach c) (firstPerEnd (item c))

def Grammar.reach {ρ : Type} (self : Cursor → Reading ρ) (selfReach : Cursor → Nat) :
    {α : Type} → Grammar ρ α → Cursor → Nat
  | _, .terminal _, c => c.skip.offset
  | _, .self, c => selfReach c
  | _, .both a b, c => furthest (b.reach self selfReach) (a.reach self selfReach c) (a.run self c)
  | _, .either a b, c => max (a.reach self selfReach c) (b.reach self selfReach c)
  | _, .optional a, c => a.reach self selfReach c
  | _, .many a, c => repeatedReach (a.run self) (a.reach self selfReach) c.rest.length c
  | _, .map _ a, c => a.reach self selfReach c

namespace Grammar

variable {ρ α β : Type}

def word (text : String) : Grammar ρ Unit := .map (fun _ => ()) (.terminal (.word text))

def after (text : String) (a : Grammar ρ α) : Grammar ρ α := .map Prod.snd (.both (word text) a)

def before (a : Grammar ρ α) (text : String) : Grammar ρ α := .map Prod.fst (.both a (word text))

def between (opening : String) (a : Grammar ρ α) (closing : String) : Grammar ρ α :=
  after opening (a.before closing)

def separated (a : Grammar ρ α) (text : String) : Grammar ρ (List α) :=
  .map (fun r => r.1 :: r.2) (.both a (.many (after text a)))

end Grammar

end ProtoBundle.Source
