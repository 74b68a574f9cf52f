namespace ProtoBundle

abbrev Table (α : Type) := List (String × α)

namespace Table

variable {α : Type}

def put (name : String) (value : α) : Table α → Table α
  | [] => [(name, value)]
  | (n, v) :: t => if n = name then (n, value) :: t else (n, v) :: put name value t

def ofList (entries : List (String × α)) : Table α := entries.foldl (fun t e => put e.1 e.2 t) []

def names (t : Table α) : List String := t.map Prod.fst

def get? (name : String) : Table α → Option α
  | [] => none
  | (n, v) :: t => if n = name then some v else get? name t

theorem names_put (name : String) (value : α) (t : Table α) :
    names (put name value t) = if name ∈ names t then names t else names t ++ [name] := by
  induction t with
  | nil => simp [put, names]
  | cons e t ih =>
      obtain ⟨n, v⟩ := e
      by_cases h : n = name
      · simp [put, names, h]
      · simp only [names] at ih
        by_cases hm : name ∈ t.map Prod.fst
        · simp [put, names, h, Ne.symm h, ih, hm]
        · simp [put, names, h, Ne.symm h, ih, hm]

theorem get?_put (name key : String) (value : α) (t : Table α) :
    get? key (put name value t) = if name = key then some value else get? key t := by
  induction t with
  | nil => simp [put, get?]
  | cons e t ih =>
      obtain ⟨n, v⟩ := e
      by_cases h : n = name <;> by_cases hk : n = key <;> grind [put, get?]

theorem nodup_names_put {name : String} {value : α} {t : Table α} (h : (names t).Nodup) :
    (names (put name value t)).Nodup := by
  rw [names_put]
  split
  · exact h
  · rename_i hm
    rw [List.nodup_append]
    exact ⟨h, by simp, fun a ha b hb => by simp at hb; exact fun hab => hm (hb ▸ hab ▸ ha)⟩

theorem nodup_names_ofList (entries : List (String × α)) : (names (ofList entries)).Nodup := by
  have go : ∀ (entries : List (String × α)) (t : Table α), (names t).Nodup →
      (names (entries.foldl (fun t e => put e.1 e.2 t) t)).Nodup := by
    intro entries
    induction entries with
    | nil => exact fun t h => h
    | cons e entries ih => exact fun t h => ih _ (nodup_names_put h)
  exact go entries [] .nil

end Table

end ProtoBundle
