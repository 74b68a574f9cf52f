import Mathlib.Data.List.Induction
import ProtoBundle.Schema.Table

namespace ProtoBundle.Table

variable {α : Type}

theorem ofList_concat (entries : List (String × α)) (e : String × α) :
    ofList (entries ++ [e]) = put e.1 e.2 (ofList entries) := by
  simp [ofList]

theorem names_ofList (entries : List (String × α)) : names (ofList entries) = (entries.map Prod.fst).eraseDups := by
  induction entries using List.reverseRecOn with
  | nil => rfl
  | append_singleton entries e ih =>
      rw [ofList_concat, names_put, ih, List.map_append, List.eraseDups_append]
      by_cases hm : e.1 ∈ entries.map Prod.fst
      · simp [List.removeAll, hm]
      · simp [List.removeAll, hm, List.eraseDups_cons]

theorem get?_ofList (entries : List (String × α)) (name : String) :
    get? name (ofList entries) = ((entries.filter fun e => e.1 == name).map Prod.snd).getLast? := by
  induction entries using List.reverseRecOn with
  | nil => rfl
  | append_singleton entries e ih =>
      rw [ofList_concat, get?_put, ih, List.filter_append]
      by_cases hn : e.1 = name <;> simp [hn]

theorem mem_put {name : String} {value : α} {t : Table α} {e : String × α} (h : e ∈ t.put name value) :
    e = (name, value) ∨ e ∈ t := by
  induction t with
  | nil => exact .inl (List.mem_singleton.mp h)
  | cons f t ih =>
      obtain ⟨n, v⟩ := f
      rw [put] at h
      split at h
      · rename_i hn
        rcases List.mem_cons.mp h with rfl | h
        · exact .inl (hn ▸ rfl)
        · exact .inr (List.mem_cons_of_mem _ h)
      · rcases List.mem_cons.mp h with rfl | h
        · exact .inr List.mem_cons_self
        · exact (ih h).imp_right (List.mem_cons_of_mem _)

theorem mem_of_mem_ofList {entries : List (String × α)} {e : String × α} (h : e ∈ ofList entries) : e ∈ entries := by
  induction entries using List.reverseRecOn with
  | nil => cases h
  | append_singleton entries f ih =>
      rw [ofList_concat] at h
      rcases mem_put h with rfl | h
      · exact List.mem_append_right _ List.mem_cons_self
      · exact List.mem_append_left _ (ih h)

theorem put_of_not_mem {name : String} {t : Table α} (h : name ∉ t.names) (value : α) :
    t.put name value = t ++ [(name, value)] := by
  induction t with
  | nil => rfl
  | cons e t ih =>
      obtain ⟨hne, hm⟩ := not_or.mp (mt List.mem_cons.mpr h)
      rw [put, if_neg (Ne.symm hne), ih hm, List.cons_append]

theorem ofList_eq_self {t : Table α} (h : t.names.Nodup) : ofList t = t := by
  induction t using List.reverseRecOn with
  | nil => rfl
  | append_singleton t e ih =>
      rw [names, List.map_append, List.nodup_append] at h
      have hm : e.1 ∉ names t := fun hm => h.2.2 _ hm _ List.mem_cons_self rfl
      rw [ofList_concat, ih h.1, put_of_not_mem hm]

theorem mem_put_iff {name : String} {value : α} {t : Table α} (h : t.names.Nodup) {e : String × α} :
    e ∈ t.put name value ↔ e = (name, value) ∨ e ∈ t ∧ e.1 ≠ name := by
  induction t with
  | nil => simp [put]
  | cons f t ih =>
      obtain ⟨n, v⟩ := f
      obtain ⟨hn, ht⟩ := List.nodup_cons.mp h
      by_cases hname : n = name
      · subst hname
        have hne : ∀ e ∈ t, e.1 ≠ n := fun e he heq => hn (List.mem_map.mpr ⟨e, he, heq⟩)
        rw [put, if_pos rfl, List.mem_cons, List.mem_cons]
        constructor
        · exact Or.imp_right fun he => ⟨.inr he, hne e he⟩
        · rintro (he | ⟨rfl | he, hen⟩)
          · exact .inl he
          · exact absurd rfl hen
          · exact .inr he
      · rw [put, if_neg hname, List.mem_cons, ih ht, List.mem_cons]
        constructor
        · rintro (rfl | he | ⟨he, hen⟩)
          · exact .inr ⟨.inl rfl, hname⟩
          · exact .inl he
          · exact .inr ⟨.inr he, hen⟩
        · rintro (he | ⟨he | he, hen⟩)
          · exact .inr (.inl he)
          · exact .inl he
          · exact .inr (.inr ⟨he, hen⟩)

theorem mem_ofList_iff {entries : List (String × α)} {e : String × α} :
    e ∈ ofList entries ↔ ∃ front back, entries = front ++ e :: back ∧ ∀ f ∈ back, f.1 ≠ e.1 := by
  induction entries using List.reverseRecOn with
  | nil => simp [ofList]
  | append_singleton entries f ih =>
      rw [ofList_concat, mem_put_iff (nodup_names_ofList entries), ih]
      constructor
      · rintro (rfl | ⟨⟨front, back, rfl, hb⟩, hne⟩)
        · exact ⟨entries, [], rfl, nofun⟩
        · refine ⟨front, back ++ [f], by simp, List.forall_mem_append.mpr ⟨hb, ?_⟩⟩
          exact List.forall_mem_singleton.mpr (Ne.symm hne)
      · rintro ⟨front, back, he, hb⟩
        induction back using List.reverseRecOn with
        | nil => exact .inl (List.singleton_inj.mp (List.append_inj' he rfl).2).symm
        | append_singleton back g =>
            obtain ⟨hback, hg⟩ := List.forall_mem_append.mp hb
            rw [← List.cons_append, ← List.append_assoc] at he
            obtain ⟨hentries, hf⟩ := List.append_inj' he rfl
            obtain rfl := List.singleton_inj.mp hf
            exact .inr ⟨⟨front, back, hentries, hback⟩, (hg _ List.mem_cons_self).symm⟩

end ProtoBundle.Table
