import Mathlib.Data.List.Forall2
import Mathlib.Order.Monotone.Basic
import ProtoBundle.Proofs.Source.Runs
import ProtoBundle.Proofs.Source.Words

/-!
Two texts of the same words with different gaps are read in step. Places in them correspond that are as many steps
away from the start, where a step takes a quoted text or a single character. Every grammar has the same readings
from such places, and they end at such places again.
-/

namespace ProtoBundle.Source

section Steps

def Cursor.next (c : Cursor) : Cursor := c.skip.advance ((quotedLength c.skip.rest).getD 1)

theorem Cursor.offset_lt_next (c : Cursor) : c.offset < c.next.offset := by
  have hstep : 0 < (quotedLength c.skip.rest).getD 1 := by
    cases hq : quotedLength c.skip.rest with
    | none => exact Nat.one_pos
    | some n => exact (leads_quoted _ n hq).1
  exact Nat.lt_of_le_of_lt c.reaches_skip.offset_le (Nat.lt_add_of_pos_right hstep)

theorem Cursor.strictMono_offset (c : Cursor) : StrictMono fun k => (Cursor.next^[k] c).offset := by
  refine strictMono_nat_of_lt_succ fun k => ?_
  rw [Function.iterate_succ_apply']
  exact offset_lt_next _

theorem Cursor.next_of_head {c : Cursor} {x : Char} (hc : c.skip.rest.head? = some x) (hx : x ∉ borders) :
    c.next = c.skip.advance 1 := by
  obtain ⟨cs, hcs⟩ := List.head?_eq_some_iff.mp hc
  rw [next, hcs, quotedLength_of_not_mem hx, Option.getD_none]

theorem Cursor.next_iterate {c : Cursor} {u r : List Char} (hu : ∀ x ∈ u, x ∉ borders) (hc : c.skip.rest = u ++ r)
    {n : Nat} (hn : n < u.length) : Cursor.next^[n + 1] c = c.skip.advance (n + 1) := by
  induction n with
  | zero =>
      obtain ⟨x, v, rfl⟩ := List.exists_cons_of_length_pos hn
      exact next_of_head (by rw [hc]; rfl) (hu x List.mem_cons_self)
  | succ n ih =>
      have hlt : n + 1 < u.length := hn
      rw [Function.iterate_succ_apply', ih (Nat.lt_of_succ_lt hn)]
      have hhead : (c.skip.advance (n + 1)).rest.head? = some u[n + 1] := by
        rw [advance, hc, List.head?_drop, List.getElem?_append_left hlt, List.getElem?_eq_getElem hlt]
      have hx : u[n + 1] ∉ borders := hu _ (List.getElem_mem hlt)
      have hskip : (c.skip.advance (n + 1)).skip = c.skip.advance (n + 1) :=
        skip_of_head ⟨_, hhead, fun hm => hx (List.mem_append_left _ hm)⟩
      rw [next_of_head (by rw [hskip]; exact hhead) hx, hskip]
      simp only [advance, List.drop_drop, Nat.add_assoc]

theorem exists_steps {t : Terminal} (ht : t.Listed) {u : List Char} (hu : IsUnit u) {n : Nat}
    (hn : t.length u = some n) :
    ∃ k, ∀ c : Cursor, ∀ r, c.skip.rest = u ++ r → Cursor.next^[k] c = c.skip.advance n := by
  by_cases hq : t = .quoted
  · subst hq
    refine ⟨1, fun c r hc => ?_⟩
    have hl : quotedLength (u ++ r) = some n := quotedLength_append hn r
    rw [Function.iterate_one, Cursor.next, hc, hl, Option.getD_some]
  · have hplain : ∀ x ∈ u, x ∉ borders := by
      refine hu.resolve_right fun hw => ?_
      cases u with
      | nil => cases hw
      | cons c cs =>
          rw [t.length_border ht hq (mem_borders_of_quotedLength hw)] at hn
          cases hn
    have h0 : 0 < n := (t.leads ht u n hn).1
    have hle : n ≤ u.length := t.finds_pattern.within u n hn
    refine ⟨n - 1 + 1, fun c r hc => ?_⟩
    rw [Cursor.next_iterate hplain hc (by omega), Nat.sub_add_cancel h0]

end Steps

section Levels

/-- The cursor stands in front of what is left of a word and of further words with gaps around them. -/
def Cursor.Faces (c : Cursor) (u : List Char) (ws : List (List Char)) : Prop :=
  ∃ r, c.rest = u ++ r ∧ LaysOut (!u.isEmpty) ws r

structure Level (c d : Cursor) (u : List Char) (ws : List (List Char)) : Prop where
  isUnit : IsUnit u
  areLexemes : ∀ w ∈ ws, IsLexeme w
  left : c.Faces u ws
  right : d.Faces u ws

theorem Level.skip {c d : Cursor} {u : List Char} {ws : List (List Char)} (h : Level c d u ws) :
    ∃ v vs, Level c.skip d.skip v vs ∧ (v = [] → c.skip.rest = [] ∧ d.skip.rest = []) := by
  obtain ⟨r, hr, hc⟩ := h.left
  obtain ⟨s, hs, hd⟩ := h.right
  by_cases hu : u = []
  · subst hu
    obtain ⟨k, cs⟩ := c
    obtain ⟨l, ds⟩ := d
    cases hr
    cases hs
    cases ws with
    | nil =>
        have hcn := hc.skip_nil k
        have hdn := hd.skip_nil l
        exact ⟨[], [], ⟨h.isUnit, h.areLexemes, ⟨[], hcn, .done .nil⟩, [], hdn, .done .nil⟩, fun _ => ⟨hcn, hdn⟩⟩
    | cons w ws =>
        obtain ⟨hw, hws⟩ := List.forall_mem_cons.mp h.areLexemes
        have hfaces : ∀ {e : Cursor}, (∃ r, e.rest = w ++ r ∧ LaysOut true ws r) → e.Faces w ws := by
          rintro e ⟨r, hr, hl⟩
          exact ⟨r, hr, by rwa [List.isEmpty_eq_false_iff.mpr hw.ne_nil]⟩
        exact ⟨w, ws, ⟨hw.isUnit, hws, hfaces (hc.skip_cons hw.isUnit hw.ne_nil k),
          hfaces (hd.skip_cons hw.isUnit hw.ne_nil l)⟩,
          fun hn => absurd hn hw.ne_nil⟩
  · obtain ⟨x, hx, hl⟩ := h.isUnit.head hu
    have hskip : ∀ {e : Cursor} {q : List Char}, e.rest = u ++ q → e.skip = e := fun he =>
      Cursor.skip_of_head ⟨x, by rwa [he, List.head?_append_of_ne_nil _ hu], hl⟩
    rw [hskip hr, hskip hs]
    exact ⟨u, ws, h, fun hn => absurd hn hu⟩

theorem Cursor.Faces.length_eq {c : Cursor} {u : List Char} {ws : List (List Char)} (h : c.Faces u ws)
    (hu : IsUnit u) (hne : u ≠ []) {t : Terminal} (ht : t.Listed) : t.length c.rest = t.length u := by
  obtain ⟨r, hr, hl⟩ := h
  rw [List.isEmpty_eq_false_iff.mpr hne] at hl
  rw [hr, hu.length_append hne ht hl.atBorder]

theorem Cursor.Faces.advance {c : Cursor} {u : List Char} {ws : List (List Char)} (h : c.Faces u ws) (hne : u ≠ [])
    {n : Nat} (hn : n ≤ u.length) : (c.advance n).Faces (u.drop n) ws ∧ c.rest.take n = u.take n := by
  obtain ⟨r, hr, hl⟩ := h
  rw [List.isEmpty_eq_false_iff.mpr hne] at hl
  refine ⟨⟨r, ?_, ?_⟩, ?_⟩
  · rw [Cursor.advance, hr, List.drop_append_of_le_length hn]
  · cases (u.drop n).isEmpty with
    | true => exact hl.weaken
    | false => exact hl
  · rw [hr, List.take_append_of_le_length hn]

end Levels

section Places

/-- The places are as many steps behind `a` and `b`, and what follows them is the same but for gaps. -/
structure Aligned (a b c d : Cursor) : Prop where
  level : ∃ u ws, Level c d u ws
  steps : ∃ k, c = Cursor.next^[k] a ∧ d = Cursor.next^[k] b

variable {a b c d c' d' : Cursor}

theorem Aligned.offset_iff (h : Aligned a b c d) (h' : Aligned a b c' d') :
    c.offset = c'.offset ↔ d.offset = d'.offset := by
  obtain ⟨k, rfl, rfl⟩ := h.steps
  obtain ⟨l, rfl, rfl⟩ := h'.steps
  exact (a.strictMono_offset.injective.eq_iff (a := k) (b := l)).trans
    (b.strictMono_offset.injective.eq_iff (a := k) (b := l)).symm

theorem Aligned.isEmpty_eq (h : Aligned a b c d) : c.skip.rest.isEmpty = d.skip.rest.isEmpty := by
  obtain ⟨u, ws, hl⟩ := h.level
  obtain ⟨v, vs, hl, hn⟩ := hl.skip
  by_cases hv : v = []
  · rw [(hn hv).1, (hn hv).2]
  · have hne : ∀ {e : Cursor}, e.Faces v vs → e.rest.isEmpty = false := by
      rintro e ⟨r, hr, -⟩
      rw [hr, List.isEmpty_eq_false_iff]
      exact List.append_ne_nil_of_left_ne_nil hv r
    rw [hne hl.left, hne hl.right]

abbrev InStep {α : Type} (a b : Cursor) (related : α → α → Prop) : Reading α → Reading α → Prop :=
  List.Forall₂ fun r s => related r.1 s.1 ∧ Aligned a b r.2 s.2

theorem Aligned.read (h : Aligned a b c d) {t : Terminal} (ht : t.Listed) :
    t.read c = none ∧ t.read d = none ∨
      ∃ l m c' d', t.read c = some (l, c') ∧ t.read d = some (m, d') ∧ l.text = m.text ∧ Aligned a b c' d' := by
  obtain ⟨u, ws, hl⟩ := h.level
  obtain ⟨v, vs, hl, hn⟩ := hl.skip
  unfold Terminal.read
  by_cases hv : v = []
  · rw [(hn hv).1, (hn hv).2, t.length_nil ht]
    exact .inl ⟨rfl, rfl⟩
  · rw [hl.left.length_eq hl.isUnit hv ht, hl.right.length_eq hl.isUnit hv ht]
    cases hlen : t.length v with
    | none => exact .inl ⟨rfl, rfl⟩
    | some n =>
        have hle : n ≤ v.length := t.finds_pattern.within v n hlen
        obtain ⟨hleft, hc⟩ := hl.left.advance hv hle
        obtain ⟨hright, hd⟩ := hl.right.advance hv hle
        refine .inr ⟨_, _, _, _, rfl, rfl, ?_, ⟨v.drop n, vs, hl.isUnit.drop ht hlen, hl.areLexemes, hleft, hright⟩, ?_⟩
        · rw [hc, hd]
        · obtain ⟨k, rfl, rfl⟩ := h.steps
          obtain ⟨m, hm⟩ := exists_steps ht hl.isUnit hlen
          obtain ⟨r, hr, -⟩ := hl.left
          obtain ⟨s, hs, -⟩ := hl.right
          refine ⟨m + k, ?_, ?_⟩
          · rw [Function.iterate_add_apply, hm _ r hr]
          · rw [Function.iterate_add_apply, hm _ s hs]

end Places

section Grammars

variable {ρ : Type}

def Grammar.Same (related : ρ → ρ → Prop) : {α : Type} → Grammar ρ α → α → α → Prop
  | _, .terminal _, l, m => l.text = m.text
  | _, .self, v, w => related v w
  | _, .both a b, v, w => a.Same related v.1 w.1 ∧ b.Same related v.2 w.2
  | _, .either a b, v, w => a.Same related v w ∨ b.Same related v w
  | _, .optional a, v, w => Option.Rel (a.Same related) v w
  | _, .many a, v, w => List.Forall₂ (a.Same related) v w
  | _, .map f a, v, w => ∃ v' w', a.Same related v' w' ∧ f v' = v ∧ f w' = w

variable {α β : Type} {a b c d : Cursor} {related : α → α → Prop}

theorem InStep.map {f g : α → β} {related' : β → β → Prop} {rs ss : Reading α} (h : InStep a b related rs ss)
    (hf : ∀ v w, related v w → related' (f v) (g w)) :
    InStep a b related' (rs.map fun r => (f r.1, r.2)) (ss.map fun s => (g s.1, s.2)) :=
  List.rel_map (fun _ _ hr => ⟨hf _ _ hr.1, hr.2⟩) h

theorem InStep.firstPerEnd {rs ss : Reading α} (h : InStep a b related rs ss) :
    InStep a b related (firstPerEnd rs) (firstPerEnd ss) := by
  induction h with
  | nil => exact .nil
  | @cons r s rs ss hr _ ih =>
      refine .cons hr (List.rel_filter (fun q p hq => ?_) ih)
      simp only [bne_iff_ne]
      exact not_congr (hq.2.offset_iff hr.2)

theorem InStep.repeated {item item' : Cursor → Reading α}
    (h : ∀ c d, Aligned a b c d → InStep a b related (item c) (item' d)) (fuel : Nat) (hc : Aligned a b c d) :
    InStep a b (List.Forall₂ related) (repeated item fuel c) (repeated item' fuel d) := by
  induction fuel generalizing c d with
  | zero => exact .cons ⟨.nil, hc⟩ .nil
  | succ fuel ih =>
      refine List.rel_append (List.rel_flatMap (h c d hc).firstPerEnd fun r s hr => ?_) (.cons ⟨.nil, hc⟩ .nil)
      exact (ih hr.2).map (f := (r.1 :: ·)) (g := (s.1 :: ·)) fun vs ws hs => .cons hr.1 hs

theorem Grammar.inStep_run {related : ρ → ρ → Prop} {self : Cursor → Reading ρ} (hself : Shortens self)
    (h : ∀ c d, Aligned a b c d → InStep a b related (self c) (self d)) (g : Grammar ρ α) (hs : g.isSound = true)
    (hc : Aligned a b c d) : InStep a b (g.Same related) (g.run self c) (g.run self d) := by
  induction g generalizing c d with
  | terminal t =>
      rw [run, run]
      rcases hc.read (Terminal.listed_of_isListed hs) with ⟨hl, hr⟩ | ⟨l, m, c', d', hl, hr, ht, ha⟩
      · rw [hl, hr]
        exact .nil
      · rw [hl, hr]
        exact .cons ⟨ht, ha⟩ .nil
  | self => exact h c d hc
  | both e f ihe ihf =>
      rw [isSound, Bool.and_eq_true] at hs
      refine List.rel_flatMap (ihe hs.1 hc) fun r s hr => ?_
      exact (ihf hs.2 hr.2).map (f := (r.1, ·)) (g := (s.1, ·)) fun v w hv => ⟨hr.1, hv⟩
  | either e f ihe ihf =>
      rw [isSound, Bool.and_eq_true] at hs
      refine List.rel_append ?_ ?_
      · exact (ihe hs.1 hc).imp fun r s hr => ⟨.inl hr.1, hr.2⟩
      · exact (ihf hs.2 hc).imp fun r s hr => ⟨.inr hr.1, hr.2⟩
  | optional e ih =>
      refine List.rel_append ?_ (.cons ⟨.none, hc⟩ .nil)
      exact (ih hs hc).map (f := some) (g := some) fun v w hv => .some hv
  | many e ih =>
      rw [isSound, Bool.and_eq_true] at hs
      -- Both repetitions may as well go on for the longer one of the texts.
      have hshort := e.shortens_run hself hs.2 hs.1
      rw [run, run, repeated_fuel hshort (Nat.le_refl _) (Nat.le_max_left _ d.rest.length),
        repeated_fuel hshort (Nat.le_refl _) (Nat.le_max_right c.rest.length _)]
      exact InStep.repeated (fun c d hc => ih hs.2 hc) _ hc
  | map f e ih => exact (ih hs hc).map fun v w hv => ⟨v, w, hv, rfl, rfl⟩

end Grammars

section Texts

variable {related : Message → Message → Prop} {a b : Cursor}

theorem inStep_messageAt (hrel : ∀ v w, Rules.message.Same related v w → related v w) (depth : Nat) {c d : Cursor}
    (hc : Aligned a b c d) : InStep a b related (messageAt depth c) (messageAt depth d) := by
  induction depth generalizing c d with
  | zero => exact .nil
  | succ depth ih =>
      have hrun := Grammar.inStep_run (shortens_messageAt depth) (fun c d hc => ih hc) _ Rules.isSound_message hc
      exact hrun.imp fun r s hr => ⟨hrel _ _ hr.1, hr.2⟩

theorem inStep_messages (hrel : ∀ v w, Rules.message.Same related v w → related v w) {c d : Cursor}
    (hc : Aligned a b c d) : InStep a b related (messages c) (messages d) := by
  rw [messages, messages, messageAt_depth (Nat.le_refl _) (Nat.le_max_left _ d.rest.length),
    messageAt_depth (Nat.le_refl _) (Nat.le_max_right c.rest.length _)]
  exact inStep_messageAt hrel _ hc

theorem inStep_readings (hrel : ∀ v w, Rules.message.Same related v w → related v w) {words : List (List Char)}
    (hw : ∀ w ∈ words, IsLexeme w) {s t : List Char} (hs : LaysOut false words s) (ht : LaysOut false words t) :
    InStep (.start s) (.start t) (Rules.file.Same related) (readings s) (readings t) := by
  have hstart : Aligned (.start s) (.start t) (.start s) (.start t) :=
    ⟨⟨[], words, .inl nofun, hw, ⟨s, rfl, hs⟩, t, rfl, ht⟩, 0, rfl, rfl⟩
  rw [readings_eq, readings_eq]
  exact Grammar.inStep_run shortens_messages (fun c d hc => inStep_messages hrel hc) _ Rules.isSound_file hstart

theorem rel_find? {α β : Type} {related : α → β → Prop} {p : α → Bool} {q : β → Bool} {xs : List α} {ys : List β}
    (h : List.Forall₂ related xs ys) (hp : ∀ x y, related x y → p x = q y) :
    Option.Rel related (xs.find? p) (ys.find? q) := by
  induction h with
  | nil => exact .none
  | @cons x y xs ys hx _ ih =>
      rw [List.find?_cons, List.find?_cons, hp x y hx]
      cases q y with
      | true => exact .some hx
      | false => exact ih

theorem complete_rel (hrel : ∀ v w, Rules.message.Same related v w → related v w) {words : List (List Char)}
    (hw : ∀ w ∈ words, IsLexeme w) {s t : List Char} (hs : LaysOut false words s) (ht : LaysOut false words t) :
    Option.Rel (Rules.file.Same related) (complete? s) (complete? t) := by
  have hfind := rel_find? (inStep_readings hrel hw hs ht) (p := fun r => r.2.skip.rest.isEmpty)
    (q := fun r => r.2.skip.rest.isEmpty) fun r s hr => hr.2.isEmpty_eq
  unfold complete?
  generalize (readings s).find? _ = r at hfind ⊢
  generalize (readings t).find? _ = q at hfind ⊢
  cases hfind with
  | none => exact .none
  | some hr => exact .some hr.1

end Texts

end ProtoBundle.Source
