import ProtoBundle.Proofs.Source.Languages
import ProtoBundle.Proofs.Source.Runs

/-!
How far a text can be followed. A text is followed to a place if the lexemes up to there begin a sentence. The
furthest such place, behind any layout, is the one that a grammar reaches.
-/

namespace ProtoBundle.Source

open scoped Computability

variable {ρ α β : Type}

section Languages

def IsViable (L : LexemeLanguage) (ls : List (Terminal × Lexeme)) : Prop := ∃ ks, ls ++ ks ∈ L

theorem append_eq_append_split {γ : Type} {ls ks ps qs : List γ} (h : ls ++ ks = ps ++ qs) :
    (∃ rs, rs ≠ [] ∧ ls ++ rs = ps) ∨ ∃ rs, ls = ps ++ rs ∧ rs ++ ks = qs := by
  rcases List.append_eq_append_iff.mp h with ⟨rs, rfl, rfl⟩ | ⟨rs, rfl, rfl⟩
  · by_cases hr : rs = []
    · subst hr
      exact .inr ⟨[], by simp, rfl⟩
    · exact .inl ⟨rs, hr, rfl⟩
  · exact .inr ⟨rs, rfl, rfl⟩

theorem nil_mem_mul_iff {L M : LexemeLanguage} : [] ∈ L * M ↔ [] ∈ L ∧ [] ∈ M := by
  rw [Language.mem_mul]
  constructor
  · rintro ⟨ls, hl, ks, hk, h⟩
    obtain ⟨rfl, rfl⟩ := List.append_eq_nil_iff.mp h
    exact ⟨hl, hk⟩
  · rintro ⟨hl, hk⟩
    exact ⟨[], hl, [], hk, rfl⟩

theorem Grammar.nil_not_mem_language {self : LexemeLanguage} (hs : [] ∉ self) (g : Grammar ρ α)
    (hc : g.consumes = true) : [] ∉ g.language self := by
  induction g with
  | terminal t =>
      rintro ⟨l, hl⟩
      cases hl
  | self => exact hs
  | both a b iha ihb =>
      rw [consumes, Bool.or_eq_true] at hc
      rw [language_both, nil_mem_mul_iff]
      rintro ⟨ha, hb⟩
      exact hc.elim (fun hc => iha hc ha) (fun hc => ihb hc hb)
  | either a b iha ihb =>
      rw [consumes, Bool.and_eq_true] at hc
      rintro (ha | hb)
      · exact iha hc.1 ha
      · exact ihb hc.2 hb
  | optional a => cases hc
  | many a => cases hc
  | map f a ih => exact ih hc

theorem Grammar.nonempty_language {self : LexemeLanguage} (hs : ∃ ls, ls ∈ self) (g : Grammar ρ α) :
    ∃ ls, ls ∈ g.language self := by
  induction g with
  | terminal t => exact ⟨_, ⟨"", 0⟩, rfl⟩
  | self => exact hs
  | both a b iha ihb =>
      obtain ⟨ls, hl⟩ := iha
      obtain ⟨ks, hk⟩ := ihb
      exact ⟨ls ++ ks, Language.append_mem_mul hl hk⟩
  | either a b iha _ =>
      obtain ⟨ls, hl⟩ := iha
      exact ⟨ls, .inl hl⟩
  | optional a _ => exact ⟨[], .inr rfl⟩
  | many a _ => exact ⟨[], Language.nil_mem_kstar _⟩
  | map f a ih => exact ih

end Languages

theorem Spans.eq_nil {c d : Cursor} {ls : List (Terminal × Lexeme)} (h : Spans c ls d) (hc : c.rest.length = 0) :
    ls = [] := by
  by_contra hne
  have hlt := h.length_lt hne
  omega

section Furthest

variable {from_ : Cursor → Nat} {start : Nat}

theorem furthest_cons (r : α × Cursor) (rs : Reading α) :
    furthest from_ start (r :: rs) = furthest from_ (max start (from_ r.2)) rs := rfl

theorem start_le_furthest (rs : Reading α) : start ≤ furthest from_ start rs := by
  induction rs generalizing start with
  | nil => exact Nat.le_refl _
  | cons r rs ih => exact Nat.le_trans (Nat.le_max_left _ _) ih

theorem le_furthest {r : α × Cursor} {rs : Reading α} (h : r ∈ rs) : from_ r.2 ≤ furthest from_ start rs := by
  induction rs generalizing start with
  | nil => cases h
  | cons q rs ih =>
      rcases List.mem_cons.mp h with rfl | h
      · exact Nat.le_trans (Nat.le_max_right _ _) (start_le_furthest rs)
      · exact ih h

theorem furthest_eq (from_ : Cursor → Nat) (start : Nat) (rs : Reading α) :
    furthest from_ start rs = start ∨ ∃ r ∈ rs, furthest from_ start rs = from_ r.2 := by
  induction rs generalizing start with
  | nil => exact .inl rfl
  | cons q rs ih =>
      rw [furthest_cons]
      rcases ih (max start (from_ q.2)) with h | ⟨r, hr, h⟩
      · rcases Nat.le_total start (from_ q.2) with hle | hle
        · exact .inr ⟨q, List.mem_cons_self, h.trans (Nat.max_eq_right hle)⟩
        · exact .inl (h.trans (Nat.max_eq_left hle))
      · exact .inr ⟨r, List.mem_cons_of_mem q hr, h⟩

end Furthest

/-- Readings are the ways to read a sentence of the language, and the place that is reached is the furthest one at
which a sentence is still to be gone on with. -/
structure Pursues (run : Cursor → Reading α) (reach : Cursor → Nat) (L : LexemeLanguage) (bound : Nat) : Prop where
  reads_iff : ∀ {c : Cursor}, c.rest.length ≤ bound → ∀ d, (∃ v, (v, d) ∈ run c) ↔ ∃ ls ∈ L, Spans c ls d
  attained : ∀ {c : Cursor}, c.rest.length ≤ bound → ∃ ls d, IsViable L ls ∧ Spans c ls d ∧ reach c = d.skip.offset
  furthest : ∀ {c : Cursor}, c.rest.length ≤ bound → ∀ {ls ks d}, ks ≠ [] → ls ++ ks ∈ L → Spans c ls d →
    d.skip.offset ≤ reach c

namespace Pursues

variable {self : Cursor → Reading ρ} {selfReach : Cursor → Nat} {L : LexemeLanguage} {bound : Nat}

theorem length_le {c d : Cursor} {ls : List (Terminal × Lexeme)} (h : Spans c ls d) (hc : c.rest.length ≤ bound) :
    d.rest.length ≤ bound := Nat.le_trans h.reaches.length_le hc

theorem terminal {t : Terminal} (ht : t.Listed) :
    Pursues ((Grammar.terminal t : Grammar ρ Lexeme).run self) ((Grammar.terminal t : Grammar ρ Lexeme).reach self selfReach)
      (lexemes t) bound where
  reads_iff := by
    intro c _ d
    constructor
    · rintro ⟨l, h⟩
      exact ⟨[(t, l)], ⟨l, rfl⟩, .cons ht (Reads.mem_run_terminal.mp h) (.nil d)⟩
    · rintro ⟨_, ⟨l, rfl⟩, h⟩
      cases h with
      | cons _ hr h =>
          cases h
          exact ⟨l, Reads.mem_run_terminal.mpr hr⟩
  attained := fun {c} _ => ⟨[], c, ⟨_, ⟨"", 0⟩, rfl⟩, .nil c, rfl⟩
  furthest := by
    rintro c _ ls ks d hk ⟨l, hl⟩ h
    -- All that comes in front of a last lexeme is nothing.
    obtain ⟨rfl, -⟩ : ls = [] ∧ ks = [(t, l)] := by
      rcases List.append_eq_singleton_iff.mp hl with h | ⟨-, h⟩
      · exact h
      · exact absurd h hk
    cases h
    exact Nat.le_refl _

theorem map {a : Grammar ρ α} {M : LexemeLanguage} (f : α → β) (h : Pursues (a.run self) (a.reach self selfReach) M bound) :
    Pursues ((Grammar.map f a).run self) ((Grammar.map f a).reach self selfReach) M bound where
  reads_iff := by
    intro c hc d
    rw [← h.reads_iff hc d]
    constructor
    · rintro ⟨w, hw⟩
      obtain ⟨⟨v, d'⟩, hv, he⟩ := List.mem_map.mp hw
      cases he
      exact ⟨v, hv⟩
    · rintro ⟨v, hv⟩
      exact ⟨f v, List.mem_map.mpr ⟨(v, d), hv, rfl⟩⟩
  attained := h.attained
  furthest := h.furthest

theorem both {a : Grammar ρ α} {b : Grammar ρ β} {M N : LexemeLanguage} {nearer : Nat}
    (ha : Pursues (a.run self) (a.reach self selfReach) M bound)
    (hb : Pursues (b.run self) (b.reach self selfReach) N nearer) (hN : ∃ ls, ls ∈ N)
    (hn : ∀ {c d ls}, c.rest.length ≤ bound → ls ∈ M → Spans c ls d → d.rest.length ≤ nearer) :
    Pursues ((Grammar.both a b).run self) ((Grammar.both a b).reach self selfReach) (M * N) bound where
  reads_iff := by
    intro c hc d
    constructor
    · rintro ⟨⟨v, w⟩, h⟩
      obtain ⟨m, hv, hw⟩ := Reads.mem_run_both.mp h
      obtain ⟨ls, hl, hs⟩ := (ha.reads_iff hc m).mp ⟨v, hv⟩
      obtain ⟨ks, hk, hs'⟩ := (hb.reads_iff (hn hc hl hs) d).mp ⟨w, hw⟩
      exact ⟨ls ++ ks, Language.append_mem_mul hl hk, spans_append_iff.mpr ⟨m, hs, hs'⟩⟩
    · rintro ⟨_, ⟨ls, hl, ks, hk, rfl⟩, h⟩
      obtain ⟨m, hs, hs'⟩ := spans_append_iff.mp h
      obtain ⟨v, hv⟩ := (ha.reads_iff hc m).mpr ⟨ls, hl, hs⟩
      obtain ⟨w, hw⟩ := (hb.reads_iff (hn hc hl hs) d).mpr ⟨ks, hk, hs'⟩
      exact ⟨(v, w), Reads.mem_run_both.mpr ⟨m, hv, hw⟩⟩
  attained := by
    intro c hc
    rcases furthest_eq (b.reach self selfReach) (a.reach self selfReach c) (a.run self c) with
      h | ⟨⟨v, m⟩, hv, h⟩
    · obtain ⟨ls, d, ⟨ks, hl⟩, hs, hr⟩ := ha.attained hc
      obtain ⟨ks', hk⟩ := hN
      refine ⟨ls, d, ⟨ks ++ ks', ?_⟩, hs, h.trans hr⟩
      rw [← List.append_assoc]
      exact Language.append_mem_mul hl hk
    · obtain ⟨ls, hl, hs⟩ := (ha.reads_iff hc m).mp ⟨v, hv⟩
      obtain ⟨ks, d, ⟨ks', hk⟩, hs', hr⟩ := hb.attained (hn hc hl hs)
      refine ⟨ls ++ ks, d, ⟨ks', ?_⟩, spans_append_iff.mpr ⟨m, hs, hs'⟩, h.trans hr⟩
      rw [List.append_assoc]
      exact Language.append_mem_mul hl hk
  furthest := by
    intro c hc ls ks d hne hl h
    obtain ⟨ps, hp, qs, hq, he⟩ := hl
    rcases append_eq_append_split he.symm with ⟨rs, hr, rfl⟩ | ⟨rs, rfl, rfl⟩
    · exact Nat.le_trans (ha.furthest hc hr hp h) (start_le_furthest _)
    · obtain ⟨m, hs, hs'⟩ := spans_append_iff.mp h
      obtain ⟨v, hv⟩ := (ha.reads_iff hc m).mpr ⟨ps, hp, hs⟩
      exact Nat.le_trans (hb.furthest (hn hc hp hs) hne hq hs') (le_furthest hv)

theorem either {a b : Grammar ρ α} {M N : LexemeLanguage} (ha : Pursues (a.run self) (a.reach self selfReach) M bound)
    (hb : Pursues (b.run self) (b.reach self selfReach) N bound) :
    Pursues ((Grammar.either a b).run self) ((Grammar.either a b).reach self selfReach) (M + N) bound where
  reads_iff := by
    intro c hc d
    constructor
    · rintro ⟨v, h⟩
      rcases List.mem_append.mp h with h | h
      · obtain ⟨ls, hl, hs⟩ := (ha.reads_iff hc d).mp ⟨v, h⟩
        exact ⟨ls, .inl hl, hs⟩
      · obtain ⟨ls, hl, hs⟩ := (hb.reads_iff hc d).mp ⟨v, h⟩
        exact ⟨ls, .inr hl, hs⟩
    · rintro ⟨ls, hl | hl, hs⟩
      · obtain ⟨v, h⟩ := (ha.reads_iff hc d).mpr ⟨ls, hl, hs⟩
        exact ⟨v, List.mem_append_left _ h⟩
      · obtain ⟨v, h⟩ := (hb.reads_iff hc d).mpr ⟨ls, hl, hs⟩
        exact ⟨v, List.mem_append_right _ h⟩
  attained := by
    intro c hc
    rcases Nat.le_total (a.reach self selfReach c) (b.reach self selfReach c) with hle | hle
    · obtain ⟨ls, d, ⟨ks, hl⟩, hs, hr⟩ := hb.attained hc
      exact ⟨ls, d, ⟨ks, .inr hl⟩, hs, (Nat.max_eq_right hle).trans hr⟩
    · obtain ⟨ls, d, ⟨ks, hl⟩, hs, hr⟩ := ha.attained hc
      exact ⟨ls, d, ⟨ks, .inl hl⟩, hs, (Nat.max_eq_left hle).trans hr⟩
  furthest := by
    rintro c hc ls ks d hne (hl | hl) h
    · exact Nat.le_trans (ha.furthest hc hne hl h) (Nat.le_max_left _ _)
    · exact Nat.le_trans (hb.furthest hc hne hl h) (Nat.le_max_right _ _)

theorem optional {a : Grammar ρ α} {M : LexemeLanguage} (h : Pursues (a.run self) (a.reach self selfReach) M bound) :
    Pursues ((Grammar.optional a).run self) ((Grammar.optional a).reach self selfReach) (M + 1) bound where
  reads_iff := by
    intro c hc d
    constructor
    · rintro ⟨o, ho⟩
      rcases List.mem_append.mp ho with ho | ho
      · obtain ⟨⟨v, m⟩, hv, he⟩ := List.mem_map.mp ho
        cases he
        obtain ⟨ls, hl, hs⟩ := (h.reads_iff hc m).mp ⟨v, hv⟩
        exact ⟨ls, .inl hl, hs⟩
      · cases List.mem_singleton.mp ho
        exact ⟨[], .inr rfl, .nil c⟩
    · rintro ⟨ls, hl | hl, hs⟩
      · obtain ⟨v, hv⟩ := (h.reads_iff hc d).mpr ⟨ls, hl, hs⟩
        exact ⟨some v, List.mem_append_left _ (List.mem_map.mpr ⟨(v, d), hv, rfl⟩)⟩
      · cases (Language.mem_one ls).mp hl
        cases hs
        exact ⟨none, List.mem_append_right _ List.mem_cons_self⟩
  attained := by
    intro c hc
    obtain ⟨ls, d, ⟨ks, hl⟩, hs, hr⟩ := h.attained hc
    exact ⟨ls, d, ⟨ks, .inl hl⟩, hs, hr⟩
  furthest := by
    rintro c hc ls ks d hne (hl | hl) hs
    · exact h.furthest hc hne hl hs
    · exact absurd (List.append_eq_nil_iff.mp hl).2 hne

section Repetition

variable {item : Cursor → Reading α} {reach : Cursor → Nat} {M : LexemeLanguage}

theorem exists_mem_firstPerEnd (h : Pursues item reach M bound) {c d : Cursor} {ls : List (Terminal × Lexeme)}
    (hc : c.rest.length ≤ bound) (hl : ls ∈ M) (hs : Spans c ls d) : ∃ v, (v, d) ∈ firstPerEnd (item c) := by
  obtain ⟨v, hv⟩ := (h.reads_iff hc d).mpr ⟨ls, hl, hs⟩
  refine Reads.exists_mem_firstPerEnd (c := c) (fun r hr => ?_) hv
  obtain ⟨ks, -, hk⟩ := (h.reads_iff hc r.2).mp ⟨r.1, hr⟩
  exact hk.reaches

theorem append_mem_kstar {ls ks : List (Terminal × Lexeme)} (hl : ls ∈ M) (hk : ks ∈ M∗) : ls ++ ks ∈ M∗ :=
  Set.mem_of_mem_of_subset (Language.append_mem_mul hl hk) (mul_kstar_le_kstar (a := M))

theorem exists_of_mem_kstar {ls : List (Terminal × Lexeme)} (h : ls ∈ M∗) (hne : ls ≠ []) :
    ∃ ps ∈ M, ∃ qs ∈ M∗, ps ++ qs = ls := by
  rw [← Language.one_add_self_mul_kstar_eq_kstar] at h
  rcases h with h | h
  · exact absurd h hne
  · exact h

variable (hM : [] ∉ M)
include hM

theorem reads_repeated (h : Pursues item reach M bound) {fuel : Nat} {c : Cursor} (hf : c.rest.length ≤ fuel)
    (hc : c.rest.length ≤ bound) (d : Cursor) :
    (∃ vs, (vs, d) ∈ repeated item fuel c) ↔ ∃ ls ∈ M∗, Spans c ls d := by
  induction fuel generalizing c with
  | zero =>
      constructor
      · rintro ⟨vs, hv⟩
        cases List.mem_singleton.mp hv
        exact ⟨[], Language.nil_mem_kstar M, .nil _⟩
      · rintro ⟨ls, -, hs⟩
        cases hs.eq_nil (Nat.le_zero.mp hf)
        cases hs
        exact ⟨[], List.mem_singleton.mpr rfl⟩
  | succ fuel ih =>
      have hnext : ∀ {ls m}, ls ∈ M → Spans c ls m → m.rest.length < c.rest.length := fun hl hs =>
        hs.length_lt fun he => hM (he ▸ hl)
      constructor
      · rintro ⟨vs, hv⟩
        rcases Reads.mem_repeated_succ.mp hv with ⟨v, m, ws, hm, hw, rfl⟩ | ⟨rfl, rfl⟩
        · obtain ⟨ls, hl, hs⟩ := (h.reads_iff hc m).mp ⟨v, (firstPerEnd_sublist _).subset hm⟩
          have hlt := hnext hl hs
          obtain ⟨ks, hk, hs'⟩ := (ih (c := m) (by omega) (by omega)).mp ⟨ws, hw⟩
          exact ⟨ls ++ ks, append_mem_kstar hl hk, spans_append_iff.mpr ⟨m, hs, hs'⟩⟩
        · exact ⟨[], Language.nil_mem_kstar M, .nil _⟩
      · rintro ⟨ls, hl, hs⟩
        by_cases hne : ls = []
        · subst hne
          cases hs
          exact ⟨[], Reads.nil_mem_repeated _ _ _⟩
        · obtain ⟨ps, hp, qs, hq, rfl⟩ := exists_of_mem_kstar hl hne
          obtain ⟨m, hs, hs'⟩ := spans_append_iff.mp hs
          have hlt := hnext hp hs
          obtain ⟨v, hv⟩ := h.exists_mem_firstPerEnd hc hp hs
          obtain ⟨ws, hw⟩ := (ih (c := m) (by omega) (by omega)).mpr ⟨qs, hq, hs'⟩
          exact ⟨v :: ws, Reads.mem_repeated_succ.mpr (.inl ⟨v, m, ws, hv, hw, rfl⟩)⟩

omit hM in
theorem attained_repeated (h : Pursues item reach M bound) (fuel : Nat) {c : Cursor} (hc : c.rest.length ≤ bound) :
    ∃ ls d, IsViable M∗ ls ∧ Spans c ls d ∧ repeatedReach item reach fuel c = d.skip.offset := by
  have hfirst : ∀ {c : Cursor}, c.rest.length ≤ bound →
      ∃ ls d, IsViable M∗ ls ∧ Spans c ls d ∧ reach c = d.skip.offset := by
    intro c hc
    obtain ⟨ls, d, ⟨ks, hl⟩, hs, hr⟩ := h.attained hc
    refine ⟨ls, d, ⟨ks, ?_⟩, hs, hr⟩
    simpa using append_mem_kstar hl (Language.nil_mem_kstar M)
  induction fuel generalizing c with
  | zero => exact hfirst hc
  | succ fuel ih =>
      rw [repeatedReach]
      rcases furthest_eq (repeatedReach item reach fuel) (reach c) (firstPerEnd (item c)) with
        hr | ⟨⟨v, m⟩, hv, hr⟩
      · rw [hr]
        exact hfirst hc
      · rw [hr]
        obtain ⟨ls, hl, hs⟩ := (h.reads_iff hc m).mp ⟨v, (firstPerEnd_sublist _).subset hv⟩
        obtain ⟨ks, d, ⟨ks', hk⟩, hs', hr'⟩ := ih (length_le hs hc)
        refine ⟨ls ++ ks, d, ⟨ks', ?_⟩, spans_append_iff.mpr ⟨m, hs, hs'⟩, hr'⟩
        rw [List.append_assoc]
        exact append_mem_kstar hl hk

theorem furthest_repeated (h : Pursues item reach M bound) {fuel : Nat} {c d : Cursor}
    {ls ks : List (Terminal × Lexeme)} (hf : c.rest.length ≤ fuel) (hc : c.rest.length ≤ bound) (hne : ks ≠ [])
    (hl : ls ++ ks ∈ M∗) (hs : Spans c ls d) : d.skip.offset ≤ repeatedReach item reach fuel c := by
  induction fuel generalizing c ls with
  | zero =>
      -- At the end of the text the first sentence has not begun.
      cases hs.eq_nil (Nat.le_zero.mp hf)
      obtain ⟨ps, hp, -⟩ := exists_of_mem_kstar hl hne
      exact h.furthest hc (fun he => hM (he ▸ hp)) hp hs
  | succ fuel ih =>
      obtain ⟨ps, hp, qs, hq, he⟩ := exists_of_mem_kstar hl (List.append_ne_nil_of_right_ne_nil ls hne)
      rw [repeatedReach]
      rcases append_eq_append_split he.symm with ⟨rs, hr, rfl⟩ | ⟨rs, rfl, rfl⟩
      · exact Nat.le_trans (h.furthest hc hr hp hs) (start_le_furthest _)
      · obtain ⟨m, hs, hs'⟩ := spans_append_iff.mp hs
        have hlt : m.rest.length < c.rest.length := hs.length_lt fun he => hM (he ▸ hp)
        obtain ⟨v, hv⟩ := h.exists_mem_firstPerEnd hc hp hs
        exact Nat.le_trans (ih (by omega) (by omega) hq hs') (le_furthest hv)

theorem many {a : Grammar ρ α} (h : Pursues (a.run self) (a.reach self selfReach) M bound) :
    Pursues ((Grammar.many a).run self) ((Grammar.many a).reach self selfReach) M∗ bound where
  reads_iff := fun hc => reads_repeated hM h (Nat.le_refl _) hc
  attained := fun hc => attained_repeated h _ hc
  furthest := fun hc => furthest_repeated hM h (Nat.le_refl _) hc

end Repetition

end Pursues

section Grammars

variable {self : Cursor → Reading ρ} {selfReach : Cursor → Nat} {L : LexemeLanguage} {bound : Nat}

theorem Grammar.pursues (hself : Pursues self selfReach L bound) (hn : [] ∉ L) (hL : ∃ ls, ls ∈ L) (g : Grammar ρ α)
    (hs : g.isSound = true) : Pursues (g.run self) (g.reach self selfReach) (g.language L) bound := by
  induction g with
  | terminal t => exact .terminal (Terminal.listed_of_isListed hs)
  | self => exact hself
  | both a b iha ihb =>
      rw [isSound, Bool.and_eq_true] at hs
      exact .both (iha hs.1) (ihb hs.2) (b.nonempty_language hL) fun hc _ hs => Pursues.length_le hs hc
  | either a b iha ihb =>
      rw [isSound, Bool.and_eq_true] at hs
      exact .either (iha hs.1) (ihb hs.2)
  | optional a ih => exact .optional (ih hs)
  | many a ih =>
      rw [isSound, Bool.and_eq_true] at hs
      exact .many (a.nil_not_mem_language hn hs.1) (ih hs.2)
  | map f a ih => exact .map f (ih hs)

theorem Grammar.pursues_after (hself : Pursues self selfReach L bound) (hn : [] ∉ L) (hL : ∃ ls, ls ∈ L) {w : String}
    (hw : vocabulary.contains w = true) (g : Grammar ρ α) (hs : g.isSound = true) :
    Pursues ((after w g).run self) ((after w g).reach self selfReach) ((after w g).language L) (bound + 1) := by
  have hword : Pursues ((word w).run self) ((word w).reach self selfReach) (lexemes (.word w)) (bound + 1) :=
    .map (a := .terminal (.word w)) _ (.terminal (Terminal.listed_of_isListed hw))
  refine .map _ (.both hword (g.pursues hself hn hL hs) (g.nonempty_language hL) ?_)
  rintro c d _ hc ⟨l, rfl⟩ h
  exact Nat.le_of_lt_succ (Nat.lt_of_lt_of_le (h.length_lt (List.cons_ne_nil _ _)) hc)

end Grammars

section Messages

abbrev messageLanguage : LexemeLanguage := (Ebnf.rule .message).language

abbrev fileLanguage : LexemeLanguage := (Ebnf.rule .file).language

theorem nil_not_mem_messageLanguage : [] ∉ messageLanguage := by
  rintro ⟨ts, h⟩
  exact Ebnf.productive_rule (by decide) ts h

theorem nonempty_messageLanguage : ∃ ls, ls ∈ messageLanguage := by
  have hlexeme : ∀ t, [(t, ⟨"", 0⟩)] ∈ lexemes t := fun t => ⟨_, rfl⟩
  have hbody := Language.append_mem_mul (hlexeme (.word "\x7b"))
    (Language.append_mem_mul (Language.nil_mem_kstar (Rules.messageItem.language messageLanguage)) (hlexeme (.word "\x7d")))
  have h : _ ∈ Rules.message.language messageLanguage :=
    Language.append_mem_mul (hlexeme (.word "message")) (Language.append_mem_mul (hlexeme .identifier) hbody)
  rw [Rules.language_message] at h
  exact ⟨_, h⟩

theorem pursues_messageAt (depth : Nat) : Pursues (messageAt depth) (messageReach depth) messageLanguage depth := by
  induction depth with
  | zero =>
      have hnil : ∀ {c d : Cursor} {ls}, c.rest.length ≤ 0 → Spans c ls d → ls = [] := fun hc hs =>
        hs.eq_nil (Nat.le_zero.mp hc)
      have hskip : ∀ {c : Cursor}, c.rest.length ≤ 0 → c.skip = c := fun hc =>
        Cursor.skip_of_layoutLength_eq_zero (by rw [List.length_eq_zero_iff.mp (Nat.le_zero.mp hc)]; rfl)
      refine ⟨fun hc d => ⟨?_, ?_⟩, fun {c} hc => ?_, fun {c} hc ls ks d hne hl hs => ?_⟩
      · rintro ⟨v, hv⟩
        cases hv
      · rintro ⟨ls, hl, hs⟩
        cases hnil hc hs
        exact absurd hl nil_not_mem_messageLanguage
      · exact ⟨[], c, nonempty_messageLanguage, .nil c, by rw [hskip hc]; rfl⟩
      · cases hnil hc hs
        cases hs
        rw [hskip hc]
        exact Nat.le_refl _
  | succ depth ih =>
      have h : Pursues (messageAt (depth + 1)) (messageReach (depth + 1)) (Rules.message.language messageLanguage)
          (depth + 1) :=
        .map (a := Rules.block "message" Rules.messageItem) _
          (Grammar.pursues_after ih nil_not_mem_messageLanguage nonempty_messageLanguage (by decide) _ (by decide))
      rwa [Rules.language_message] at h

end Messages

section Files

variable {text : List Char} {ls : List (Terminal × Lexeme)} {d : Cursor}

theorem pursues_file (text : List Char) :
    Pursues (Rules.file.run (messageAt text.length))
      (Rules.file.reach (messageAt text.length) (messageReach text.length)) fileLanguage text.length := by
  have h := Rules.file.pursues (pursues_messageAt text.length) nil_not_mem_messageLanguage nonempty_messageLanguage
    Rules.isSound_file
  rwa [Rules.language_file] at h

theorem exists_of_isViable (h : IsViable fileLanguage ls) : ∃ ks, ks ≠ [] ∧ ls ++ ks ∈ fileLanguage := by
  obtain ⟨ks, hk⟩ := h
  let l : Lexeme := ⟨"", 0⟩
  have hempty : [(.word ";", l)] ∈ Ebnf.statement.language :=
    ⟨_, .any (e := .rule .emptyStatement) (by simp) (.rule rfl (derives_single_iff.mpr (.terminal _ l)))⟩
  have hfile : fileLanguage = Ebnf.statement.language∗ := by
    rw [fileLanguage, language_rule (c := .file) rfl]
    simp
  refine ⟨ks ++ [(.word ";", l)], by simp, ?_⟩
  rw [hfile] at hk ⊢
  rw [← List.append_assoc]
  exact Set.mem_of_mem_of_subset (Language.append_mem_mul hk hempty)
    (kstar_mul_le_kstar (a := Ebnf.statement.language))

theorem attained_reach (text : List Char) :
    ∃ ls d, IsViable fileLanguage ls ∧ Spans (.start text) ls d ∧ reach text = d.skip.offset := by
  unfold reach
  exact (pursues_file text).attained (Nat.le_refl _)

theorem offset_skip_le_reach (h : IsViable fileLanguage ls) (hs : Spans (.start text) ls d) :
    d.skip.offset ≤ reach text := by
  obtain ⟨ks, hne, hk⟩ := exists_of_isViable h
  unfold reach
  exact (pursues_file text).furthest (Nat.le_refl _) hne hk hs

end Files

end ProtoBundle.Source
