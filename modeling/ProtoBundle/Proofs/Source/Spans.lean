import ProtoBundle.Proofs.Source.Segments
import ProtoBundle.Source.Tree
import Mathlib.Data.List.Induction

namespace ProtoBundle.Source

open Text

section Cursors

def Cursor.Reaches (c d : Cursor) : Prop := ∃ n ≤ c.rest.length, d = c.advance n

theorem Cursor.length_advance (c : Cursor) (n : Nat) : (c.advance n).rest.length = c.rest.length - n := List.length_drop

theorem Cursor.reaches_refl (c : Cursor) : c.Reaches c := ⟨0, Nat.zero_le _, rfl⟩

theorem Cursor.Reaches.trans {c d e : Cursor} (h : c.Reaches d) (h' : d.Reaches e) : c.Reaches e := by
  obtain ⟨m, hm, rfl⟩ := h
  obtain ⟨n, hn, rfl⟩ := h'
  rw [length_advance] at hn
  refine ⟨m + n, by omega, ?_⟩
  simp only [advance, List.drop_drop, Nat.add_assoc]

theorem Cursor.Reaches.length_le {c d : Cursor} (h : c.Reaches d) : d.rest.length ≤ c.rest.length := by
  obtain ⟨n, -, rfl⟩ := h
  rw [length_advance]
  exact Nat.sub_le _ _

theorem Cursor.Reaches.offset_le {c d : Cursor} (h : c.Reaches d) : c.offset ≤ d.offset := by
  obtain ⟨n, -, rfl⟩ := h
  exact Nat.le_add_right _ _

theorem Cursor.Reaches.eq_of_offset {c d e : Cursor} (hd : c.Reaches d) (he : c.Reaches e) (h : d.offset = e.offset) :
    d = e := by
  obtain ⟨m, -, rfl⟩ := hd
  obtain ⟨n, -, rfl⟩ := he
  rw [Nat.add_left_cancel h]

theorem layoutLength_le_length (cs : List Char) : layoutLength cs ≤ cs.length := by
  rcases Nat.eq_zero_or_pos (layoutLength cs) with h | h
  · rw [h]
    exact Nat.zero_le _
  · obtain ⟨i, hi⟩ := (layoutLength_iff cs _).mp ⟨h, rfl⟩
    exact i.finds_pattern.within cs _ hi

theorem Cursor.reaches_skip (c : Cursor) : c.Reaches c.skip := by
  fun_induction Cursor.skip c with
  | case1 c h => exact c.reaches_refl
  | case2 c h ih => exact Reaches.trans ⟨_, layoutLength_le_length _, rfl⟩ ih

theorem Cursor.skip_advance {c : Cursor} (h : layoutLength c.rest ≠ 0) :
    (c.advance (layoutLength c.rest)).skip = c.skip := by
  symm
  rw [Cursor.skip, if_neg h]

end Cursors

section Reads

variable {t : Terminal} {c d : Cursor} {l : Lexeme}

theorem Terminal.read_eq_some : t.read c = some (l, d) ↔
    ∃ n, t.length c.skip.rest = some n ∧ l = ⟨String.ofList (c.skip.rest.take n), c.skip.offset⟩ ∧
      d = c.skip.advance n := by
  unfold Terminal.read
  split
  · rename_i n hn
    simp [hn, eq_comm]
  · rename_i hn
    simp [hn]

theorem Terminal.reaches_of_read (h : t.read c = some (l, d)) : c.Reaches d := by
  obtain ⟨n, hn, -, rfl⟩ := read_eq_some.mp h
  exact c.reaches_skip.trans ⟨n, t.finds_pattern.within _ n hn, rfl⟩

theorem Terminal.length_lt_of_read (ht : t.Listed) (h : t.read c = some (l, d)) : d.rest.length < c.rest.length := by
  obtain ⟨n, hn, -, rfl⟩ := read_eq_some.mp h
  have h0 := (t.leads ht _ n hn).1
  have hle := t.finds_pattern.within _ n hn
  have hs := c.reaches_skip.length_le
  rw [Cursor.length_advance]
  omega

end Reads

inductive Spans : Cursor → List (Terminal × Lexeme) → Cursor → Prop
  | nil (c : Cursor) : Spans c [] c
  | cons {c d e : Cursor} {t : Terminal} {l : Lexeme} {ls : List (Terminal × Lexeme)} (ht : t.Listed)
      (hr : t.read c = some (l, d)) (h : Spans d ls e) : Spans c ((t, l) :: ls) e

theorem spans_append_iff {c d : Cursor} {ls ks : List (Terminal × Lexeme)} :
    Spans c (ls ++ ks) d ↔ ∃ m, Spans c ls m ∧ Spans m ks d := by
  constructor
  · intro h
    induction ls generalizing c with
    | nil => exact ⟨c, .nil c, h⟩
    | cons s ls ih =>
        cases h with
        | cons ht hr h =>
            obtain ⟨m, hl, hk⟩ := ih h
            exact ⟨m, .cons ht hr hl, hk⟩
  · rintro ⟨m, hl, hk⟩
    induction hl with
    | nil => exact hk
    | cons ht hr _ ih => exact .cons ht hr (ih hk)

theorem Spans.reaches {c d : Cursor} {ls : List (Terminal × Lexeme)} (h : Spans c ls d) : c.Reaches d := by
  induction h with
  | nil c => exact c.reaches_refl
  | cons _ hr _ ih => exact (Terminal.reaches_of_read hr).trans ih

theorem Spans.length_lt {c d : Cursor} {ls : List (Terminal × Lexeme)} (h : Spans c ls d) (hl : ls ≠ []) :
    d.rest.length < c.rest.length := by
  cases h with
  | nil => exact absurd rfl hl
  | cons ht hr h => exact Nat.lt_of_le_of_lt h.reaches.length_le (Terminal.length_lt_of_read ht hr)

theorem Spans.of_skip_eq {c c' d : Cursor} {ls : List (Terminal × Lexeme)} (hs : c.skip = c'.skip)
    (h : Spans c ls d) : ∃ d', Spans c' ls d' ∧ d.skip = d'.skip := by
  cases h with
  | nil => exact ⟨c', .nil c', hs⟩
  | cons ht hr h =>
      rw [Terminal.read, hs] at hr
      exact ⟨d, .cons ht hr h, rfl⟩

section Cuts

variable {front rest : List Char} {ls : List (Terminal × Lexeme)}

theorem Ignored.takes_iff (i : Ignored) {piece : List Char} :
    i.pattern.Takes front piece rest ↔ i.length (piece ++ rest) = some piece.length := i.finds_pattern.takes_iff

theorem Terminal.takes_iff (t : Terminal) {piece : List Char} :
    t.pattern.Takes front piece rest ↔ t.length (piece ++ rest) = some piece.length := t.finds_pattern.takes_iff

inductive CutTo (behind : List Char) : (front rest : List Char) → List (Terminal × Lexeme) → Prop
  | done (front : List Char) : CutTo behind front behind []
  | ignored {front piece rest : List Char} {ls : List (Terminal × Lexeme)} (i : Ignored)
      (hi : i.pattern.Takes front piece rest) (h : CutTo behind (front ++ piece) rest ls) :
      CutTo behind front (piece ++ rest) ls
  | terminal {front piece rest : List Char} {ls : List (Terminal × Lexeme)} (t : Terminal) (hl : t.Listed)
      (ht : t.pattern.Takes front piece rest) (h : CutTo behind (front ++ piece) rest ls) :
      CutTo behind front (piece ++ rest) ((t, ⟨String.ofList piece, front.length⟩) :: ls)

theorem cut_iff_cutTo : Cut front rest ls ↔ CutTo [] front rest ls := by
  constructor
  · intro h
    induction h with
    | done front => exact .done front
    | ignored i hi _ ih => exact .ignored i hi ih
    | terminal t hl ht _ ih => exact .terminal t hl ht ih
  · intro h
    induction h with
    | done front => exact .done front
    | ignored i hi _ ih => exact .ignored i hi ih
    | terminal t hl ht _ ih => exact .terminal t hl ht ih

variable {behind : List Char}

theorem CutTo.of_skip {c : Cursor} (hf : c.offset = front.length) :
    ∃ front' : List Char, c.skip.offset = front'.length ∧
      ∀ ls, CutTo behind front' c.skip.rest ls → CutTo behind front c.rest ls := by
  fun_induction Cursor.skip c generalizing front with
  | case1 c h => exact ⟨front, hf, fun _ h => h⟩
  | case2 c h ih =>
      obtain ⟨i, hi⟩ := (layoutLength_iff c.rest _).mp ⟨Nat.pos_of_ne_zero h, rfl⟩
      have hlen : (c.rest.take (layoutLength c.rest)).length = layoutLength c.rest :=
        List.length_take_of_le (layoutLength_le_length _)
      have hcut := List.take_append_drop (layoutLength c.rest) c.rest
      have htakes : i.pattern.Takes front (c.rest.take (layoutLength c.rest)) (c.rest.drop (layoutLength c.rest)) := by
        rw [i.takes_iff, hcut, hlen, hi]
      have hfront : (c.advance (layoutLength c.rest)).offset = (front ++ c.rest.take (layoutLength c.rest)).length := by
        rw [List.length_append, hlen, Cursor.advance, hf]
      obtain ⟨front', ho, hk⟩ := ih hfront
      refine ⟨front', ho, fun ls hls => ?_⟩
      have h := CutTo.ignored i htakes (hk ls hls)
      rwa [hcut] at h

theorem CutTo.of_spans {c d : Cursor} (h : Spans c ls d) (hf : c.offset = front.length) :
    CutTo d.skip.rest front c.rest ls := by
  induction h generalizing front with
  | nil c =>
      obtain ⟨front', -, hk⟩ := CutTo.of_skip hf
      exact hk [] (.done front')
  | @cons c d e t l ls ht hr h ih =>
      obtain ⟨front', ho, hk⟩ := CutTo.of_skip hf
      obtain ⟨n, hn, rfl, rfl⟩ := Terminal.read_eq_some.mp hr
      have hlen : (c.skip.rest.take n).length = n := List.length_take_of_le (t.finds_pattern.within _ n hn)
      have hcut := List.take_append_drop n c.skip.rest
      have htakes : t.pattern.Takes front' (c.skip.rest.take n) (c.skip.rest.drop n) := by
        rw [t.takes_iff, hcut, hlen, hn]
      have hrest : CutTo e.skip.rest (front' ++ c.skip.rest.take n) (c.skip.rest.drop n) ls :=
        ih (by rw [List.length_append, hlen, Cursor.advance, ho])
      apply hk
      have h := CutTo.terminal t ht htakes hrest
      rwa [hcut, ← ho] at h

theorem CutTo.spans (h : CutTo behind front rest ls) :
    ∃ d k, Spans ⟨front.length, rest⟩ ls d ∧ d.skip = Cursor.skip ⟨k, behind⟩ ∧
      k + behind.length = front.length + rest.length := by
  induction h with
  | done front => exact ⟨_, front.length, .nil _, rfl, rfl⟩
  | @ignored front piece rest ls i hi _ ih =>
      obtain ⟨d, k, hd, he, hk⟩ := ih
      have hl := (layoutLength_iff _ _).mpr ⟨i, i.takes_iff.mp hi⟩
      have hadvance : Cursor.advance ⟨front.length, piece ++ rest⟩ (layoutLength (piece ++ rest)) =
          ⟨(front ++ piece).length, rest⟩ := by
        rw [hl.2, Cursor.advance, List.drop_left, List.length_append]
      have hskip : Cursor.skip ⟨(front ++ piece).length, rest⟩ = Cursor.skip ⟨front.length, piece ++ rest⟩ := by
        rw [← hadvance]
        refine Cursor.skip_advance ?_
        rw [hl.2]
        exact Nat.ne_of_gt hl.1
      obtain ⟨d', hd', hs⟩ := hd.of_skip_eq hskip
      exact ⟨d', k, hd', hs ▸ he, by simp only [hk, List.length_append]; omega⟩
  | @terminal front piece rest ls t hl ht _ ih =>
      obtain ⟨d, k, hd, he, hk⟩ := ih
      have hn := t.takes_iff.mp ht
      have hskip : Cursor.skip ⟨front.length, piece ++ rest⟩ = ⟨front.length, piece ++ rest⟩ :=
        Cursor.skip_of_layoutLength_eq_zero (layoutLength_of_leads (t.leads hl _ _ hn).2)
      refine ⟨d, k, .cons hl (Terminal.read_eq_some.mpr ⟨piece.length, ?_, ?_, ?_⟩) hd, he, ?_⟩
      · rw [hskip, hn]
      · rw [hskip, List.take_left]
      · rw [hskip, Cursor.advance, List.drop_left, List.length_append]
      · simp only [hk, List.length_append]
        omega

theorem cut_iff : Cut [] rest ls ↔ ∃ d, Spans (.start rest) ls d ∧ d.skip.rest = [] := by
  rw [cut_iff_cutTo]
  constructor
  · intro h
    obtain ⟨d, k, hd, he, -⟩ := h.spans
    exact ⟨d, hd, by rw [he, Cursor.skip_of_layoutLength_eq_zero layoutLength_nil]⟩
  · rintro ⟨d, h, hd⟩
    have hc : CutTo d.skip.rest [] rest ls := CutTo.of_spans h rfl
    rwa [hd] at hc

end Cuts

section Placement

theorem column_placeAfter (cs : List Char) :
    (placeAfter cs).column = (cs.reverse.takeWhile (· != '\n')).length + 1 := by
  induction cs using List.reverseRecOn with
  | nil => rfl
  | append_singleton cs c ih =>
      rw [placeAfter_append, List.reverse_append, List.reverse_singleton, List.singleton_append, Place.after]
      by_cases hc : c = '\n'
      · simp [hc]
      · simp [hc, ih]

structure Lexeme.StandsIn (l : Lexeme) (text front rest : List Char) : Prop where
  text_eq : text = front ++ l.text.toList ++ rest
  offset_eq : l.offset = front.length
  line_eq : (l.place text).line = front.count '\n' + 1
  column_eq : (l.place text).column = (front.reverse.takeWhile (· != '\n')).length + 1

theorem Lexeme.standsIn {l : Lexeme} {text front rest : List Char} (h : text = front ++ l.text.toList ++ rest)
    (ho : l.offset = front.length) : l.StandsIn text front rest := by
  have hp : l.place text = placeAfter front := by
    rw [place, placeAt, ho, h, List.append_assoc, List.take_left]
  refine ⟨h, ho, ?_, ?_⟩
  · rw [hp, line_placeAfter]
  · rw [hp, column_placeAfter]

theorem Cut.standsIn {front rest : List Char} {ls : List (Terminal × Lexeme)} (h : Cut front rest ls) :
    ∀ s ∈ ls, ∃ before behind, s.2.StandsIn (front ++ rest) before behind := by
  induction h with
  | done => exact fun s hs => absurd hs List.not_mem_nil
  | ignored i hi h ih =>
      rwa [List.append_assoc] at ih
  | @terminal front piece rest ls t hl ht h ih =>
      rw [List.append_assoc] at ih
      refine List.forall_mem_cons.mpr ⟨⟨front, rest, Lexeme.standsIn ?_ rfl⟩, ih⟩
      rw [String.toList_ofList, List.append_assoc]

end Placement

end ProtoBundle.Source
