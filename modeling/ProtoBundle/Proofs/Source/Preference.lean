import ProtoBundle.Proofs.Source.Runs
import ProtoBundle.Proofs.Source.Words

namespace ProtoBundle.Source

section Places

variable {c : Cursor} {t : Terminal} {w : List Char} {ws : List (List Char)}

/-- Nothing but the words stands ahead, with gaps around them. -/
def Cursor.Before (c : Cursor) (ws : List (List Char)) : Prop := LaysOut false ws c.rest

def Terminal.Takes (t : Terminal) (w : List Char) : Prop := t.length w = some w.length

instance (t : Terminal) (w : List Char) : Decidable (t.Takes w) := inferInstanceAs (Decidable (_ = _))

theorem Terminal.Takes.isLexeme (h : t.Takes w) (ht : t.Listed) : IsLexeme w := ⟨t, ht, h⟩

theorem Cursor.Before.length_eq (h : c.Before (w :: ws)) (hu : IsUnit w) (hne : w ≠ []) (ht : t.Listed) :
    t.length c.skip.rest = t.length w := by
  obtain ⟨r, hr, hl⟩ := LaysOut.skip_cons h hu hne c.offset
  rw [hr, hu.length_append hne ht hl.atBorder]

theorem Cursor.Before.read_eq_none (h : c.Before (w :: ws)) (hu : IsUnit w) (hne : w ≠ []) (ht : t.Listed)
    (hn : t.length w = none) : t.read c = none := by
  rw [Terminal.read, h.length_eq hu hne ht, hn]

theorem Cursor.Before.read_part (h : c.Before (w :: ws)) (hw : IsLexeme w) {n : Nat} (hn : t.length w = some n)
    (ht : t.Listed) :
    ∃ l d, t.read c = some (l, d) ∧ l.text = String.ofList (w.take n) ∧
      ∃ r, d.rest = w.drop n ++ r ∧ LaysOut true ws r := by
  obtain ⟨r, hr, hl⟩ := LaysOut.skip_cons h hw.isUnit hw.ne_nil c.offset
  have hlen : t.length c.skip.rest = some n := (h.length_eq hw.isUnit hw.ne_nil ht).trans hn
  have hle : n ≤ w.length := t.finds_pattern.within w n hn
  refine ⟨_, _, by rw [Terminal.read, hlen], ?_, r, ?_, hl⟩
  · rw [hr, List.take_append_of_le_length hle]
  · rw [Cursor.advance, hr, List.drop_append_of_le_length hle]

theorem Cursor.Before.read (h : c.Before (w :: ws)) (ht : t.Listed) (hw : t.Takes w) :
    ∃ l d, t.read c = some (l, d) ∧ l.text = String.ofList w ∧ d.Before ws := by
  obtain ⟨l, d, hread, hl, r, hr, hws⟩ := h.read_part (hw.isLexeme ht) hw ht
  rw [List.take_length] at hl
  rw [List.drop_length, List.nil_append] at hr
  exact ⟨l, d, hread, hl, by rw [Cursor.Before, hr]; exact hws.weaken⟩

theorem literal_self (w : List Char) : literal w w = some w.length := by
  induction w with
  | nil => rfl
  | cons c w ih => rw [literal, if_pos rfl, ih, Option.map_some, List.length_cons]

theorem takes_word (w : String) : (Terminal.word w).Takes w.toList := literal_self w.toList

theorem isLexeme_word {w : String} (h : vocabulary.contains w = true) : IsLexeme w.toList :=
  (takes_word w).isLexeme (Terminal.listed_of_isListed h)

end Places

namespace Grammar

section Firsts

/-- The terminals that a reading may start with. Where `self` stands, a message does. -/
def firsts : {α : Type} → Rules.Rule α → List Terminal
  | _, .terminal t => [t]
  | _, .self => [.word "message"]
  | _, .both a b => if a.consumes then a.firsts else a.firsts ++ b.firsts
  | _, .either a b => a.firsts ++ b.firsts
  | _, .optional a => a.firsts
  | _, .many a => a.firsts
  | _, .map _ a => a.firsts

variable {α : Type} {c : Cursor}

theorem run_after_eq_nil {w : String} (h : (Terminal.word w).read c = none) (g : Rules.Rule α) :
    (after w g).run messages c = [] := by
  rw [after, run, run, word, run, run, h]
  rfl

theorem stays_of_firsts (g : Rules.Rule α) (hs : g.isSound = true) (h : ∀ t ∈ g.firsts, t.read c = none)
    (r : α × Cursor) (hr : r ∈ g.run messages c) : g.consumes = false ∧ r.2 = c := by
  induction g with
  | terminal t =>
      rw [run, h t (List.mem_singleton_self t)] at hr
      cases hr
  | self =>
      have hn : messages c = [] := by
        rw [messages_eq, Rules.message, run, Rules.block, run_after_eq_nil (h _ (List.mem_singleton_self _))]
        rfl
      rw [run, hn] at hr
      cases hr
  | both a b iha ihb =>
      rw [isSound, Bool.and_eq_true] at hs
      obtain ⟨m, hm, hd⟩ := Reads.mem_run_both.mp hr
      have hfirsts : ∀ t ∈ a.firsts, t ∈ (both a b).firsts := by
        intro t ht
        rw [firsts]
        split
        · exact ht
        · exact List.mem_append_left _ ht
      obtain ⟨hc, rfl⟩ := iha hs.1 (fun t ht => h t (hfirsts t ht)) _ hm
      have hrest : ∀ t ∈ b.firsts, t.read m = none := by
        intro t ht
        refine h t ?_
        rw [firsts, hc]
        exact List.mem_append_right _ ht
      obtain ⟨hc', hm'⟩ := ihb hs.2 hrest _ hd
      exact ⟨by rw [consumes, hc, hc']; rfl, hm'⟩
  | either a b iha ihb =>
      rw [isSound, Bool.and_eq_true] at hs
      rcases List.mem_append.mp hr with hr | hr
      · obtain ⟨hc, hd⟩ := iha hs.1 (fun t ht => h t (List.mem_append_left _ ht)) r hr
        exact ⟨by rw [consumes, hc]; rfl, hd⟩
      · obtain ⟨hc, hd⟩ := ihb hs.2 (fun t ht => h t (List.mem_append_right _ ht)) r hr
        exact ⟨by rw [consumes, hc, Bool.and_false], hd⟩
  | optional a ih =>
      refine ⟨rfl, ?_⟩
      rcases List.mem_append.mp hr with hr | hr
      · obtain ⟨q, hq, rfl⟩ := List.mem_map.mp hr
        exact (ih hs h q hq).2
      · cases List.mem_singleton.mp hr
        rfl
  | many a ih =>
      rw [isSound, Bool.and_eq_true] at hs
      have hn : a.run messages c = [] := by
        refine List.eq_nil_iff_forall_not_mem.mpr fun q hq => ?_
        have hc := (ih hs.2 h q hq).1
        rw [hs.1] at hc
        cases hc
      rw [run_many shortens_messages hs.2 hs.1, hn] at hr
      cases List.mem_singleton.mp hr
      exact ⟨rfl, rfl⟩
  | map f a ih =>
      obtain ⟨q, hq, rfl⟩ := List.mem_map.mp hr
      exact ih hs h q hq

theorem listed_of_mem_firsts (g : Rules.Rule α) (hs : g.isSound = true) {t : Terminal} (ht : t ∈ g.firsts) :
    t.Listed := by
  induction g with
  | terminal t' =>
      cases List.mem_singleton.mp ht
      exact Terminal.listed_of_isListed hs
  | self =>
      cases List.mem_singleton.mp ht
      exact Terminal.listed_of_isListed (by decide)
  | both a b iha ihb =>
      rw [isSound, Bool.and_eq_true] at hs
      rw [firsts] at ht
      split at ht
      · exact iha hs.1 ht
      · exact (List.mem_append.mp ht).elim (iha hs.1) (ihb hs.2)
  | either a b iha ihb =>
      rw [isSound, Bool.and_eq_true] at hs
      exact (List.mem_append.mp ht).elim (iha hs.1) (ihb hs.2)
  | optional a ih => exact ih hs ht
  | many a ih =>
      rw [isSound, Bool.and_eq_true] at hs
      exact ih hs.2 ht
  | map f a ih => exact ih hs ht

theorem run_eq_nil_of_firsts {g : Rules.Rule α} (hs : g.isSound = true) (hc : g.consumes = true)
    (h : ∀ t ∈ g.firsts, t.read c = none) : g.run messages c = [] := by
  refine List.eq_nil_iff_forall_not_mem.mpr fun r hr => ?_
  have hn := (g.stays_of_firsts hs h r hr).1
  rw [hc] at hn
  cases hn

end Firsts

variable {α β : Type} {us ms vs : List (List Char)}

/-- In front of the words `us` the rule prefers a reading that leaves the words `vs`, and its value has the property. -/
def Prefers (g : Rules.Rule α) (us vs : List (List Char)) (P : α → Prop) : Prop :=
  ∀ c : Cursor, c.Before us → ∃ v d, (g.run messages c).head? = some (v, d) ∧ P v ∧ d.Before vs

def Refuses (g : Rules.Rule α) (us : List (List Char)) : Prop := ∀ c : Cursor, c.Before us → g.run messages c = []

section Refusal

variable {a : Rules.Rule α} {b : Rules.Rule β}

theorem refuses_nil (hs : a.isSound = true) (hc : a.consumes = true) : a.Refuses [] := by
  intro c hb
  have hend : c.skip.rest = [] := LaysOut.skip_nil hb c.offset
  refine run_eq_nil_of_firsts hs hc fun t ht => ?_
  rw [Terminal.read, hend, Terminal.length_nil (a.listed_of_mem_firsts hs ht)]

theorem refuses_cons {w : List Char} (hs : a.isSound = true) (hc : a.consumes = true) (hw : IsLexeme w)
    (h : (a.firsts.all fun t => (t.length w).isNone) = true) (ws : List (List Char)) : a.Refuses (w :: ws) := by
  intro c hb
  refine run_eq_nil_of_firsts hs hc fun t ht => hb.read_eq_none hw.isUnit hw.ne_nil (a.listed_of_mem_firsts hs ht) ?_
  exact Option.isNone_iff_eq_none.mp (List.all_eq_true.mp h t ht)

def avoids (a : Rules.Rule α) (w : String) : Bool :=
  vocabulary.contains w && (a.isSound && a.consumes && a.firsts.all fun t => (t.length w.toList).isNone)

theorem isSound_and_consumes {w : String} (h : a.avoids w = true) : a.isSound = true ∧ a.consumes = true := by
  simp only [avoids, Bool.and_eq_true] at h
  exact h.2.1

theorem refuses_word {w : String} (h : a.avoids w = true) (ws : List (List Char)) : a.Refuses (w.toList :: ws) := by
  obtain ⟨hs, hc⟩ := isSound_and_consumes h
  simp only [avoids, Bool.and_eq_true] at h
  exact refuses_cons hs hc (isLexeme_word h.1) h.2.2 ws

theorem refuses_terminal {t : Terminal} {w : List Char} (hw : IsLexeme w) (hn : t.length w = none) (ht : t.Listed)
    (ws : List (List Char)) : Refuses (.terminal t) (w :: ws) := by
  intro c hc
  rw [run, hc.read_eq_none hw.isUnit hw.ne_nil ht hn]

theorem Refuses.map (h : a.Refuses us) (f : α → β) : (map f a).Refuses us := by
  intro c hc
  rw [run, h c hc]
  rfl

theorem Refuses.both (h : a.Refuses us) (b : Rules.Rule β) : (both a b).Refuses us := by
  intro c hc
  rw [run, h c hc]
  rfl

theorem Refuses.behind {t : Terminal} {w : List Char} (h : b.Refuses us) (hw : t.Takes w) (ht : t.Listed) :
    (Grammar.both (.terminal t) b).Refuses (w :: us) := by
  intro c hc
  obtain ⟨l, d, hr, -, hd⟩ := hc.read ht hw
  rw [run, run, hr, List.flatMap_singleton, h d hd]
  rfl

end Refusal

section Preference

variable {a : Rules.Rule α} {b : Rules.Rule β} {P : α → Prop} {Q : β → Prop}

theorem Prefers.mono {P' : α → Prop} (h : a.Prefers us vs P) (hp : ∀ v, P v → P' v) : a.Prefers us vs P' := by
  intro c hc
  obtain ⟨v, d, hr, hv, hd⟩ := h c hc
  exact ⟨v, d, hr, hp v hv, hd⟩

theorem prefers_terminal {t : Terminal} {w : List Char} (hw : t.Takes w) (ht : t.Listed) (ws : List (List Char)) :
    Prefers (.terminal t) (w :: ws) ws fun l => l.text = String.ofList w := by
  intro c hc
  obtain ⟨l, d, hr, hl, hd⟩ := hc.read ht hw
  exact ⟨l, d, by rw [run, hr]; rfl, hl, hd⟩

theorem Prefers.map {f : α → β} (h : a.Prefers us vs P) (hf : ∀ v, P v → Q (f v)) : (map f a).Prefers us vs Q := by
  intro c hc
  obtain ⟨v, d, hr, hv, hd⟩ := h c hc
  exact ⟨f v, d, by rw [run, List.head?_map, hr]; rfl, hf v hv, hd⟩

theorem Prefers.both (ha : a.Prefers us ms P) (hb : b.Prefers ms vs Q) :
    (both a b).Prefers us vs fun r => P r.1 ∧ Q r.2 := by
  intro c hc
  obtain ⟨v, m, hv, hp, hm⟩ := ha c hc
  obtain ⟨w, d, hw, hq, hd⟩ := hb m hm
  obtain ⟨rs, hrs⟩ := List.head?_eq_some_iff.mp hv
  obtain ⟨ss, hss⟩ := List.head?_eq_some_iff.mp hw
  refine ⟨(v, w), d, ?_, ⟨hp, hq⟩, hd⟩
  rw [run, hrs, List.flatMap_cons, hss]
  rfl

theorem Prefers.left {b : Rules.Rule α} (h : a.Prefers us vs P) : (either a b).Prefers us vs P := by
  intro c hc
  obtain ⟨v, d, hr, hv, hd⟩ := h c hc
  exact ⟨v, d, by rw [run, List.head?_append, hr]; rfl, hv, hd⟩

theorem Prefers.right {b : Rules.Rule α} (h : b.Prefers us vs P) (ha : a.Refuses us) :
    (either a b).Prefers us vs P := by
  intro c hc
  obtain ⟨v, d, hr, hv, hd⟩ := h c hc
  exact ⟨v, d, by rw [run, ha c hc, List.nil_append, hr], hv, hd⟩

theorem Prefers.optional (h : a.Prefers us vs P) : (optional a).Prefers us vs fun o => ∃ v, o = some v ∧ P v := by
  intro c hc
  obtain ⟨v, d, hr, hv, hd⟩ := h c hc
  exact ⟨some v, d, by rw [run, List.head?_append, List.head?_map, hr]; rfl, ⟨v, rfl, hv⟩, hd⟩

theorem Refuses.optional (h : a.Refuses us) : (optional a).Prefers us us fun o => o = none := by
  intro c hc
  exact ⟨none, c, by rw [run, h c hc]; rfl, rfl, hc⟩

theorem Prefers.skipping (h : b.Prefers us vs Q)
    (ha : ∀ c : Cursor, c.Before us → ∀ r ∈ a.run messages c, b.run messages r.2 = []) :
    (Grammar.both (.optional a) b).Prefers us vs fun r => r.1 = none ∧ Q r.2 := by
  intro c hc
  obtain ⟨w, d, hr, hw, hd⟩ := h c hc
  obtain ⟨rs, hrs⟩ := List.head?_eq_some_iff.mp hr
  refine ⟨(none, w), d, ?_, ⟨rfl, hw⟩, hd⟩
  have hnone : ((a.run messages c).map fun r => (some r.1, r.2)).flatMap
      (fun r => (b.run messages r.2).map fun s => ((r.1, s.1), s.2)) = [] := by
    refine List.flatMap_eq_nil_iff.mpr fun r hr => ?_
    obtain ⟨q, hq, rfl⟩ := List.mem_map.mp hr
    exact List.map_eq_nil_iff.mpr (ha c hc q hq)
  rw [run, run, List.flatMap_append, hnone, List.nil_append, List.flatMap_singleton, hrs]
  rfl

theorem Prefers.self {P : Message → Prop} (h : Rules.message.Prefers us vs P) :
    (self : Rules.Rule Message).Prefers us vs P := by
  intro c hc
  rw [run, messages_eq]
  exact h c hc

theorem prefers_word {w : String} (hw : vocabulary.contains w = true) (us : List (List Char)) :
    (word w).Prefers (w.toList :: us) us fun _ => True := by
  have hlisted : (Terminal.word w).Listed := Terminal.listed_of_isListed hw
  exact (prefers_terminal (takes_word w) hlisted us).map fun _ _ => trivial

theorem Prefers.after {w : String} (h : a.Prefers us vs P) (hw : vocabulary.contains w = true) :
    (after w a).Prefers (w.toList :: us) vs P :=
  ((prefers_word hw us).both h).map fun _ hr => hr.2

theorem Prefers.before {w : String} (h : a.Prefers us (w.toList :: vs) P) (hw : vocabulary.contains w = true) :
    (a.before w).Prefers us vs P :=
  (h.both (prefers_word hw vs)).map fun _ hr => hr.1

theorem Prefers.between {v w : String} (h : a.Prefers us (w.toList :: vs) P) (hv : vocabulary.contains v = true)
    (hw : vocabulary.contains w = true) : (between v a w).Prefers (v.toList :: us) vs P :=
  (h.before hw).after hv

theorem prefers_many {γ : Type} {words : γ → List (List Char)} {P : γ → α → Prop} (hs : a.isSound = true)
    (hc : a.consumes = true) {xs : List γ} (h : ∀ x ∈ xs, ∀ us, a.Prefers (words x ++ us) us (P x))
    (hend : a.Refuses vs) : (many a).Prefers (xs.flatMap words ++ vs) vs fun l => List.Forall₂ (fun v x => P x v) l xs := by
  induction xs with
  | nil =>
      intro c hb
      refine ⟨[], c, ?_, .nil, hb⟩
      rw [run_many shortens_messages hs hc, hend c hb]
      rfl
  | cons x xs ih =>
      intro c hb
      rw [List.flatMap_cons, List.append_assoc] at hb
      obtain ⟨v, m, hv, hp, hm⟩ := h x List.mem_cons_self _ c hb
      obtain ⟨l, d, hl, hps, hd⟩ := ih (fun y hy => h y (List.mem_cons_of_mem x hy)) m hm
      obtain ⟨rs, hrs⟩ := List.head?_eq_some_iff.mp hv
      obtain ⟨ss, hss⟩ := List.head?_eq_some_iff.mp hl
      refine ⟨v :: l, d, ?_, .cons hp hps, hd⟩
      rw [run_many shortens_messages hs hc, hrs, firstPerEnd, List.flatMap_cons, hss]
      rfl

theorem prefers_separated {γ : Type} {words : γ → List (List Char)} {P : γ → α → Prop} {w : String}
    (hs : (after w a).isSound = true) (hw : vocabulary.contains w = true) {x : γ} {xs : List γ}
    (h : ∀ y ∈ x :: xs, ∀ us, a.Prefers (words y ++ us) us (P y)) (hend : (after w a).Refuses vs) :
    (a.separated w).Prefers (words x ++ xs.flatMap (fun y => w.toList :: words y) ++ vs) vs
      fun l => List.Forall₂ (fun v y => P y v) l (x :: xs) := by
  have hrest : (many (Grammar.after w a)).Prefers (xs.flatMap (fun y => w.toList :: words y) ++ vs) vs
      fun l => List.Forall₂ (fun v y => P y v) l xs :=
    prefers_many hs rfl (fun y hy us => (h y (List.mem_cons_of_mem x hy) us).after hw) hend
  rw [List.append_assoc]
  exact ((h x List.mem_cons_self _).both hrest).map fun _ hr => .cons hr.1 hr.2

end Preference

end Grammar

theorem complete_of_prefers {ws : List (List Char)} {P : File → Prop} (h : Rules.file.Prefers ws [] P)
    {text : List Char} (ht : LaysOut false ws text) : ∃ f, complete? text = some f ∧ P f := by
  obtain ⟨f, d, hr, hf, hd⟩ := h (.start text) ht
  obtain ⟨rs, hrs⟩ := List.head?_eq_some_iff.mp hr
  have hend : d.skip.rest.isEmpty = true := List.isEmpty_iff.mpr (LaysOut.skip_nil hd d.offset)
  refine ⟨f, ?_, hf⟩
  rw [complete?, readings_eq, hrs, List.find?_cons, hend]
  rfl

end ProtoBundle.Source
