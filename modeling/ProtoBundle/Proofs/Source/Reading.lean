import ProtoBundle.Proofs.Source.Spans
import ProtoBundle.Proofs.Source.Syntax
import ProtoBundle.Source.Grammar

/-!
Grammars and the items they read. What a grammar reads is derived by the items, and where the items derive the
lexemes between two places the grammar has a reading from the one place to the other. There is one lemma for
each way to build a grammar.
-/

namespace ProtoBundle.Source

/-- The grammar reads what the items derive: every reading is a derivation with the trees of its value, and from
places near enough to the end of the text every derivation has a reading with the same end. -/
structure Reads {ρ α : Type} (inner : Cursor → Reading ρ) (bound : Nat) (g : Grammar ρ α) (es : List Ebnf)
    (trees : α → List Tree) : Prop where
  sound : ∀ {c d : Cursor} {v : α}, (v, d) ∈ g.run inner c → ∃ ls, Spans c ls d ∧ Derives (.all es) ls (trees v)
  complete : ∀ {c d : Cursor} {ls : List (Terminal × Lexeme)} {ts : List Tree}, c.rest.length ≤ bound →
    Spans c ls d → Derives (.all es) ls ts → ∃ v, (v, d) ∈ g.run inner c

namespace Reads

variable {ρ α β : Type} {inner : Cursor → Reading ρ} {bound : Nat} {a : Grammar ρ α} {b : Grammar ρ β}
  {e : Ebnf} {es fs : List Ebnf} {trees : α → List Tree} {trees' : β → List Tree}

theorem mono {least : Nat} (h : Reads inner bound a es trees) (hb : least ≤ bound) : Reads inner least a es trees :=
  ⟨h.sound, fun hc => h.complete (Nat.le_trans hc hb)⟩

theorem length_le {c d : Cursor} {ls : List (Terminal × Lexeme)} (h : Spans c ls d) (hc : c.rest.length ≤ bound) :
    d.rest.length ≤ bound := Nat.le_trans h.reaches.length_le hc

section Sequences

theorem mem_run_terminal {t : Terminal} {c d : Cursor} {l : Lexeme} :
    (l, d) ∈ (Grammar.terminal t : Grammar ρ Lexeme).run inner c ↔ t.read c = some (l, d) := by
  rw [Grammar.run]
  cases t.read c <;> simp [eq_comm]

theorem terminal {t : Terminal} (ht : t.Listed) : Reads inner bound (.terminal t) [.terminal t] t.kept := by
  constructor
  · intro c d l h
    have hr := mem_run_terminal.mp h
    exact ⟨[(t, l)], .cons ht hr (.nil d), derives_single_iff.mpr (.terminal t l)⟩
  · intro c d ls ts _ hs hd
    cases derives_single_iff.mp hd with
    | terminal t l =>
        cases hs with
        | cons _ hr hs =>
            cases hs
            exact ⟨l, mem_run_terminal.mpr hr⟩

theorem token (t : Terminal) (hw : t.isWord = false) :
    Reads inner bound (.terminal t) [.terminal t] fun l => [.token t l] := by
  have ht : t.Listed := by
    cases t with
    | word w => cases hw
    | _ => exact trivial
  have hk : t.kept = fun l => [.token t l] := by
    funext l
    rw [Terminal.kept, hw]
    rfl
  exact hk ▸ terminal ht

theorem map {f : α → β} (h : Reads inner bound a es trees) (ht : ∀ v, trees' (f v) = trees v) :
    Reads inner bound (.map f a) es trees' := by
  constructor
  · intro c d w hw
    obtain ⟨⟨v, d'⟩, hv, he⟩ := List.mem_map.mp hw
    cases he
    obtain ⟨ls, hs, hd⟩ := h.sound hv
    exact ⟨ls, hs, (ht v).symm ▸ hd⟩
  · intro c d ls ts hc hs hd
    obtain ⟨v, hv⟩ := h.complete hc hs hd
    exact ⟨f v, List.mem_map.mpr ⟨(v, d), hv, rfl⟩⟩

theorem mem_run_both {c d : Cursor} {v : α} {w : β} :
    ((v, w), d) ∈ (Grammar.both a b).run inner c ↔ ∃ m, (v, m) ∈ a.run inner c ∧ (w, d) ∈ b.run inner m := by
  change _ ∈ (a.run inner c).flatMap (fun r => (b.run inner r.2).map fun s => ((r.1, s.1), s.2)) ↔ _
  simp only [List.mem_flatMap, List.mem_map, Prod.mk.injEq, Prod.exists]
  constructor
  · rintro ⟨v', m, hv, w', d', hw, ⟨rfl, rfl⟩, rfl⟩
    exact ⟨m, hv, hw⟩
  · rintro ⟨m, hv, hw⟩
    exact ⟨v, m, hv, w, d, hw, ⟨rfl, rfl⟩, rfl⟩

theorem sound_both (ha : Reads inner bound a es trees) {least : Nat} (hb : Reads inner least b fs trees') {c d : Cursor}
    {r : α × β} (h : (r, d) ∈ (Grammar.both a b).run inner c) :
    ∃ ls, Spans c ls d ∧ Derives (.all (es ++ fs)) ls (trees r.1 ++ trees' r.2) := by
  obtain ⟨m, hv, hw⟩ := mem_run_both.mp h
  obtain ⟨ls, hl, hd⟩ := ha.sound hv
  obtain ⟨ks, hk, hd'⟩ := hb.sound hw
  exact ⟨ls ++ ks, spans_append_iff.mpr ⟨m, hl, hk⟩, hd.append hd'⟩

theorem both (ha : Reads inner bound a es trees) (hb : Reads inner bound b fs trees') :
    Reads inner bound (.both a b) (es ++ fs) fun r => trees r.1 ++ trees' r.2 := by
  refine ⟨ha.sound_both hb, fun hc hs hd => ?_⟩
  obtain ⟨ls, ks, _, _, rfl, -, hl, hk⟩ := hd.of_append
  obtain ⟨m, hm, hs⟩ := spans_append_iff.mp hs
  obtain ⟨v, hv⟩ := ha.complete hc hm hl
  obtain ⟨w, hw⟩ := hb.complete (length_le hm hc) hs hk
  exact ⟨(v, w), mem_run_both.mpr ⟨m, hv, hw⟩⟩

theorem both_succ (ha : Reads inner (bound + 1) a es trees) (hp : (Ebnf.all es).Productive)
    (hb : Reads inner bound b fs trees') :
    Reads inner (bound + 1) (.both a b) (es ++ fs) fun r => trees r.1 ++ trees' r.2 := by
  refine ⟨ha.sound_both hb, fun hc hs hd => ?_⟩
  obtain ⟨ls, ks, _, _, rfl, -, hl, hk⟩ := hd.of_append
  obtain ⟨m, hm, hs⟩ := spans_append_iff.mp hs
  have hne : ls ≠ [] := by
    rintro rfl
    exact hp _ hl
  obtain ⟨v, hv⟩ := ha.complete hc hm hl
  obtain ⟨w, hw⟩ := hb.complete (Nat.le_of_lt_succ (Nat.lt_of_lt_of_le (hm.length_lt hne) hc)) hs hk
  exact ⟨(v, w), mem_run_both.mpr ⟨m, hv, hw⟩⟩

end Sequences

section Items

theorem item {f : List Tree → List Tree} (h : Reads inner bound a es trees)
    (hi : ∀ ls ts, Derives e ls ts ↔ ∃ us, Derives (.all es) ls us ∧ ts = f us) :
    Reads inner bound a [e] fun v => f (trees v) := by
  constructor
  · intro c d v hv
    obtain ⟨ls, hs, hd⟩ := h.sound hv
    exact ⟨ls, hs, derives_single_iff.mpr ((hi _ _).mpr ⟨_, hd, rfl⟩)⟩
  · intro c d ls ts hc hs hd
    obtain ⟨us, hd, -⟩ := (hi _ _).mp (derives_single_iff.mp hd)
    exact h.complete hc hs hd

theorem rule {c : Construct} (hp : Ebnf.production c = some es) (h : Reads inner bound a es trees) :
    Reads inner bound a [.rule c] fun v => [.node c (trees v)] := by
  refine h.item (f := fun ts => [.node c ts]) fun ls ts => ⟨fun hd => ?_, ?_⟩
  · cases hd with
    | rule hp' hd =>
        rw [hp] at hp'
        cases hp'
        exact ⟨_, hd, rfl⟩
  · rintro ⟨us, hd, rfl⟩
    exact .rule hp hd

theorem named (c : Construct) (h : Reads inner bound a es trees) :
    Reads inner bound a [.named c es] fun v => [.node c (trees v)] := by
  refine h.item (f := fun ts => [.node c ts]) fun ls ts => ⟨fun hd => ?_, ?_⟩
  · cases hd with
    | named _ hd => exact ⟨_, hd, rfl⟩
  · rintro ⟨us, hd, rfl⟩
    exact .named c hd

theorem all (h : Reads inner bound a es trees) : Reads inner bound a [.all es] trees := by
  refine h.item (f := id) fun ls ts => ⟨fun hd => ⟨ts, hd, rfl⟩, ?_⟩
  rintro ⟨us, hd, rfl⟩
  exact hd

theorem any (h : Reads inner bound a [e] trees) : Reads inner bound a [.any [e]] trees := by
  refine h.item (f := id) fun ls ts => ⟨fun hd => ?_, ?_⟩
  · cases hd with
    | any he hd =>
        rw [List.mem_singleton.mp he] at hd
        exact ⟨ts, derives_single_iff.mpr hd, rfl⟩
  · rintro ⟨us, hd, rfl⟩
    exact .any List.mem_cons_self (derives_single_iff.mp hd)

theorem either {b : Grammar ρ α} (ha : Reads inner bound a [e] trees) (hb : Reads inner bound b [.any es] trees) :
    Reads inner bound (.either a b) [.any (e :: es)] trees := by
  constructor
  · intro c d v hv
    rcases List.mem_append.mp hv with hv | hv
    · obtain ⟨ls, hs, hd⟩ := ha.sound hv
      exact ⟨ls, hs, derives_single_iff.mpr (.any List.mem_cons_self (derives_single_iff.mp hd))⟩
    · obtain ⟨ls, hs, hd⟩ := hb.sound hv
      cases derives_single_iff.mp hd with
      | any he hd => exact ⟨ls, hs, derives_single_iff.mpr (.any (List.mem_cons_of_mem e he) hd)⟩
  · intro c d ls ts hc hs hd
    cases derives_single_iff.mp hd with
    | any he hi =>
        rcases List.mem_cons.mp he with rfl | he
        · obtain ⟨v, hv⟩ := ha.complete hc hs (derives_single_iff.mpr hi)
          exact ⟨v, List.mem_append_left _ hv⟩
        · obtain ⟨v, hv⟩ := hb.complete hc hs (derives_single_iff.mpr (.any he hi))
          exact ⟨v, List.mem_append_right _ hv⟩

theorem optional {tree : α → Tree} (h : Reads inner bound a es fun v => [tree v]) (hw : Ebnf.total es = 1) :
    Reads inner bound (.optional a) [.optional es] fun o => [Tree.optional tree o] := by
  constructor
  · intro c d o ho
    rcases List.mem_append.mp ho with ho | ho
    · obtain ⟨⟨v, d'⟩, hv, he⟩ := List.mem_map.mp ho
      cases he
      obtain ⟨ls, hs, hd⟩ := h.sound hv
      exact ⟨ls, hs, derives_single_iff.mpr (.present hd)⟩
    · cases List.mem_singleton.mp ho
      have hd := Derives.absent es
      rw [hw] at hd
      exact ⟨[], .nil _, derives_single_iff.mpr hd⟩
  · intro c d ls ts hc hs hd
    cases derives_single_iff.mp hd with
    | present hd =>
        obtain ⟨v, hv⟩ := h.complete hc hs hd
        exact ⟨some v, List.mem_append_left _ (List.mem_map.mpr ⟨(v, d), hv, rfl⟩)⟩
    | absent =>
        cases hs
        exact ⟨none, List.mem_append_right _ List.mem_cons_self⟩

end Items

section Repetition

theorem exists_firstPerEnd {r : α × Cursor} {rs : Reading α} (h : r ∈ rs) :
    ∃ s ∈ firstPerEnd rs, s.2.offset = r.2.offset := by
  induction rs with
  | nil => cases h
  | cons q rs ih =>
      by_cases hq : r.2.offset = q.2.offset
      · exact ⟨q, List.mem_cons_self, hq.symm⟩
      · rcases List.mem_cons.mp h with rfl | h
        · exact absurd rfl hq
        · obtain ⟨s, hs, ho⟩ := ih h
          refine ⟨s, List.mem_cons_of_mem q (List.mem_filter.mpr ⟨hs, ?_⟩), ho⟩
          rw [ho]
          exact bne_iff_ne.mpr hq

theorem mem_repeated_succ {item : Cursor → Reading α} {fuel : Nat} {c d : Cursor} {vs : List α} :
    (vs, d) ∈ repeated item (fuel + 1) c ↔
      (∃ v m ws, (v, m) ∈ firstPerEnd (item c) ∧ (ws, d) ∈ repeated item fuel m ∧ vs = v :: ws) ∨
        vs = [] ∧ d = c := by
  simp only [repeated, List.mem_append, List.mem_flatMap, List.mem_map, List.mem_singleton, Prod.mk.injEq, Prod.exists]
  constructor
  · rintro (⟨v, m, hv, ws, d', hw, rfl, rfl⟩ | h)
    · exact .inl ⟨v, m, ws, hv, hw, rfl⟩
    · exact .inr h
  · rintro (⟨v, m, ws, hv, hw, rfl⟩ | h)
    · exact .inl ⟨v, m, hv, ws, d, hw, rfl, rfl⟩
    · exact .inr h

theorem nil_mem_repeated (item : Cursor → Reading α) (fuel : Nat) (c : Cursor) : ([], c) ∈ repeated item fuel c := by
  cases fuel with
  | zero => exact List.mem_cons_self
  | succ fuel => exact mem_repeated_succ.mpr (.inr ⟨rfl, rfl⟩)

theorem sound_repeated {tree : α → Tree} (h : Reads inner bound a es fun v => [tree v]) {fuel : Nat} {c d : Cursor}
    {vs : List α} (hv : (vs, d) ∈ repeated (a.run inner) fuel c) :
    ∃ ls, Spans c ls d ∧ Derives (.many es) ls (vs.map tree) := by
  induction fuel generalizing c vs with
  | zero =>
      cases List.mem_singleton.mp hv
      exact ⟨[], .nil d, .stop es⟩
  | succ fuel ih =>
      rcases mem_repeated_succ.mp hv with ⟨v, m, ws, hm, hw, rfl⟩ | ⟨rfl, rfl⟩
      · obtain ⟨ls, hs, hd⟩ := h.sound ((firstPerEnd_sublist _).subset hm)
        obtain ⟨ks, hk, hd'⟩ := ih hw
        exact ⟨ls ++ ks, spans_append_iff.mpr ⟨m, hs, hk⟩, hd.again hd'⟩
      · exact ⟨[], .nil d, .stop es⟩

/-- A reading may be dropped, but only for one that ends at the same place. -/
theorem exists_mem_firstPerEnd {rs : Reading α} {c d : Cursor} {v : α} (hr : ∀ r ∈ rs, c.Reaches r.2)
    (h : (v, d) ∈ rs) : ∃ w, (w, d) ∈ firstPerEnd rs := by
  obtain ⟨⟨w, m⟩, hw, ho⟩ := exists_firstPerEnd h
  have he : m = d := (hr _ ((firstPerEnd_sublist rs).subset hw)).eq_of_offset (hr _ h) ho
  exact ⟨w, he ▸ hw⟩

theorem complete_firstPerEnd (h : Reads inner bound a es trees) {c m : Cursor} {ls : List (Terminal × Lexeme)}
    {ts : List Tree} (hc : c.rest.length ≤ bound) (hs : Spans c ls m) (hd : Derives (.all es) ls ts) :
    ∃ v, (v, m) ∈ firstPerEnd (a.run inner c) := by
  obtain ⟨v, hv⟩ := h.complete hc hs hd
  refine exists_mem_firstPerEnd (c := c) (fun r hr => ?_) hv
  obtain ⟨ks, hk, -⟩ := h.sound hr
  exact hk.reaches

theorem complete_repeated (h : Reads inner bound a es trees) (hp : (Ebnf.all es).Productive) {fuel : Nat} {c d : Cursor}
    {ls : List (Terminal × Lexeme)} {ts : List Tree} (hf : c.rest.length ≤ fuel) (hc : c.rest.length ≤ bound)
    (hs : Spans c ls d) (hd : Derives (.many es) ls ts) : ∃ vs, (vs, d) ∈ repeated (a.run inner) fuel c := by
  induction fuel generalizing c ls ts with
  | zero =>
      have hl : ls = [] := Classical.byContradiction fun hl =>
        Nat.not_lt_zero _ (Nat.lt_of_lt_of_le (hs.length_lt hl) hf)
      subst hl
      cases hs
      exact ⟨[], nil_mem_repeated _ _ _⟩
  | succ fuel ih =>
      cases hd with
      | stop =>
          cases hs
          exact ⟨[], nil_mem_repeated _ _ _⟩
      | @again _ ls ks ts us hd hd' =>
          obtain ⟨m, hm, hk⟩ := spans_append_iff.mp hs
          have hne : ls ≠ [] := by
            rintro rfl
            exact hp _ hd
          have hlt := hm.length_lt hne
          obtain ⟨v, hv⟩ := h.complete_firstPerEnd hc hm hd
          obtain ⟨vs, hvs⟩ := ih (by omega) (length_le hm hc) hk hd'
          exact ⟨v :: vs, mem_repeated_succ.mpr (.inl ⟨v, m, vs, hv, hvs, rfl⟩)⟩

theorem many {tree : α → Tree} (h : Reads inner bound a es fun v => [tree v]) (hp : (Ebnf.all es).Productive) :
    Reads inner bound (.many a) [.many es] fun vs => vs.map tree := by
  constructor
  · intro c d vs hv
    obtain ⟨ls, hs, hd⟩ := h.sound_repeated hv
    exact ⟨ls, hs, derives_single_iff.mpr hd⟩
  · intro c d ls ts hc hs hd
    exact h.complete_repeated hp (Nat.le_refl _) hc hs (derives_single_iff.mp hd)

end Repetition

section Words

open Grammar

theorem word {w : String} (hw : vocabulary.contains w = true) :
    Reads inner bound (Grammar.word w) [Ebnf.word w] fun _ => [] :=
  (terminal (t := .word w) (List.contains_iff_mem.mp hw)).map fun _ => rfl

theorem after {w : String} (h : Reads inner bound a es trees) (hw : vocabulary.contains w = true) :
    Reads inner bound (after w a) (Ebnf.word w :: es) trees := ((word hw).both h).map fun _ => rfl

theorem before {w : String} (h : Reads inner bound a es trees) (hw : vocabulary.contains w = true) :
    Reads inner bound (a.before w) (es ++ [Ebnf.word w]) trees :=
  (h.both (word hw)).map fun _ => (List.append_nil _).symm

theorem between {opening closing : String} (h : Reads inner bound a es trees)
    (ho : vocabulary.contains opening = true) (hc : vocabulary.contains closing = true) :
    Reads inner bound (between opening a closing) (Ebnf.word opening :: (es ++ [Ebnf.word closing])) trees :=
  (h.before hc).after ho

theorem separated {tree : α → Tree} {w : String} (h : Reads inner bound a [e] fun v => [tree v])
    (hw : vocabulary.contains w = true) :
    Reads inner bound (separated a w) [e, .many [Ebnf.word w, e]] fun vs => vs.map tree :=
  (h.both ((h.after hw).many ((Ebnf.productive_terminal _).head _))).map fun _ => rfl

end Words

end Reads

end ProtoBundle.Source
