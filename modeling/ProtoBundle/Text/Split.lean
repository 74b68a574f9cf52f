namespace ProtoBundle.Text

def splitOn (sep : Char) : List Char → List (List Char)
  | [] => [[]]
  | c :: cs =>
      if c = sep then [] :: splitOn sep cs
      else
        match splitOn sep cs with
        | [] => [[c]]
        | piece :: pieces => (c :: piece) :: pieces

def join (sep : List Char) : List (List Char) → List Char
  | [] => []
  | [piece] => piece
  | piece :: pieces => piece ++ sep ++ join sep pieces

theorem splitOn_ne_nil (sep : Char) (cs : List Char) : splitOn sep cs ≠ [] := by
  cases cs with
  | nil => simp [splitOn]
  | cons c cs =>
      simp only [splitOn]
      split
      · simp
      · split <;> simp

theorem join_splitOn (sep : Char) (cs : List Char) : join [sep] (splitOn sep cs) = cs := by
  induction cs with
  | nil => rfl
  | cons c cs ih =>
      simp only [splitOn]
      cases h : splitOn sep cs with
      | nil => exact absurd h (splitOn_ne_nil sep cs)
      | cons piece pieces =>
          rw [h] at ih
          by_cases hc : c = sep
          · simp [hc, join, ih]
          · cases pieces <;> simp_all [join]

theorem splitOn_of_not_mem {sep : Char} {cs : List Char} (h : sep ∉ cs) : splitOn sep cs = [cs] := by
  induction cs with
  | nil => rfl
  | cons c cs ih =>
      simp only [List.mem_cons, not_or] at h
      simp [splitOn, Ne.symm h.1, ih h.2]

theorem splitOn_append_sep (sep : Char) {piece : List Char} (h : sep ∉ piece) (cs : List Char) :
    splitOn sep (piece ++ sep :: cs) = piece :: splitOn sep cs := by
  induction piece with
  | nil => simp [splitOn]
  | cons c piece ih =>
      simp only [List.mem_cons, not_or] at h
      simp [splitOn, Ne.symm h.1, ih h.2]

theorem splitOn_join {sep : Char} {pieces : List (List Char)} (hne : pieces ≠ [])
    (h : ∀ piece ∈ pieces, sep ∉ piece) : splitOn sep (join [sep] pieces) = pieces := by
  induction pieces with
  | nil => exact absurd rfl hne
  | cons piece pieces ih =>
      cases pieces with
      | nil => simpa [join] using splitOn_of_not_mem (h piece (by simp))
      | cons second pieces =>
          rw [join, List.append_assoc, List.singleton_append, splitOn_append_sep sep (h piece (by simp)),
            ih (by simp) fun p hp => h p (List.mem_cons_of_mem _ hp)]
          simp

theorem not_mem_of_mem_splitOn {sep : Char} {piece cs : List Char} (h : piece ∈ splitOn sep cs) :
    sep ∉ piece := by
  induction cs generalizing piece with
  | nil => simp [splitOn] at h; simp [h]
  | cons c cs ih =>
      simp only [splitOn] at h
      split at h
      · rcases List.mem_cons.1 h with rfl | h
        · simp
        · exact ih h
      · rename_i hc
        cases hs : splitOn sep cs with
        | nil => exact absurd hs (splitOn_ne_nil sep cs)
        | cons first pieces =>
            rw [hs] at h ih
            rcases List.mem_cons.1 h with rfl | h
            · simp [Ne.symm hc, ih (List.mem_cons_self ..)]
            · exact ih (List.mem_cons_of_mem _ h)

theorem splitOn_append (sep : Char) (front back : List Char) :
    splitOn sep (front ++ sep :: back) = splitOn sep front ++ splitOn sep back := by
  induction front with
  | nil => simp [splitOn]
  | cons c front ih =>
      simp only [List.cons_append, splitOn, ih]
      split
      · rfl
      · cases h : splitOn sep front with
        | nil => exact absurd h (splitOn_ne_nil sep front)
        | cons piece pieces => rfl

theorem mem_join {sep : List Char} {pieces : List (List Char)} {c : Char} (h : c ∈ join sep pieces) :
    c ∈ sep ∨ ∃ piece ∈ pieces, c ∈ piece := by
  induction pieces with
  | nil => cases h
  | cons piece pieces ih =>
      cases pieces with
      | nil => exact .inr ⟨piece, List.mem_singleton_self piece, h⟩
      | cons second pieces =>
          simp only [join, List.mem_append] at h
          rcases h with (h | h) | h
          · exact .inr ⟨piece, List.mem_cons_self, h⟩
          · exact .inl h
          · rcases ih h with hs | ⟨p, hp, hc⟩
            · exact .inl hs
            · exact .inr ⟨p, List.mem_cons_of_mem _ hp, hc⟩

theorem mem_join_of_mem {sep piece : List Char} {pieces : List (List Char)} {c : Char} (hp : piece ∈ pieces)
    (hc : c ∈ piece) : c ∈ join sep pieces := by
  induction pieces with
  | nil => cases hp
  | cons first pieces ih =>
      cases pieces with
      | nil =>
          rw [List.mem_singleton] at hp
          exact hp ▸ hc
      | cons second pieces =>
          simp only [join, List.mem_append]
          rcases List.mem_cons.mp hp with rfl | hp
          · exact .inl (.inl hc)
          · exact .inr (ih hp)

def splitString (sep : Char) (s : String) : List String := (splitOn sep s.toList).map String.ofList

def joinStrings (sep : String) (pieces : List String) : String :=
  String.ofList (join sep.toList (pieces.map String.toList))

end ProtoBundle.Text
