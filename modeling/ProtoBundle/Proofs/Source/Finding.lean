import Mathlib.Data.List.TakeWhile
import ProtoBundle.Proofs.Source.Pattern

/-!
Which scans find the match of a pattern. What follows a repetition either always succeeds or fails wherever the
repetition could have gone on; backtracking into the repetition is of no use then, and a scan that never turns
back finds the same.
-/

namespace ProtoBundle.Source

abbrev Scan := List Char → Option Nat

namespace Pattern

def Within (scan : Scan) : Prop := ∀ cs, ∀ n ∈ scan cs, n ≤ cs.length

structure Finds (p : Pattern) (scan : Scan) : Prop where
  attempt_eq : ∀ s : Spot, p.attempt some s = (scan s.rest).map s.advance
  within : Within scan

/-- What follows characters of a class always succeeds, or never in front of such a character. -/
def Settles (p : Char → Bool) (scan : Scan) : Prop :=
  (∀ cs, (scan cs).isSome = true) ∨ ∀ c cs, p c = true → scan (c :: cs) = none

theorem Finds.congr {p : Pattern} {scan other : Scan} (h : Finds p scan) (he : ∀ cs, scan cs = other cs) :
    Finds p other := by
  rwa [← funext he]

theorem Finds.of_attempt_eq {p q : Pattern} {scan : Scan} (h : Finds q scan)
    (he : ∀ s, p.attempt some s = q.attempt some s) : Finds p scan :=
  ⟨fun s => (he s).trans (h.attempt_eq s), h.within⟩

theorem finds_nothing : Finds nothing fun _ => some 0 := by
  refine ⟨fun s => ?_, fun cs n hn => Option.mem_some.mp hn ▸ Nat.zero_le _⟩
  rw [Option.map_some, Spot.advance_zero]
  rfl

def then_ (first second : Scan) : Scan := fun cs => (first cs).bind fun m => (second (cs.drop m)).map (m + ·)

theorem within_then {first second : Scan} (ha : Within first) (hb : Within second) : Within (then_ first second) := by
  intro cs n hn
  obtain ⟨m, hm, hn⟩ := Option.bind_eq_some_iff.mp hn
  obtain ⟨k, hk, rfl⟩ := Option.map_eq_some_iff.mp hn
  have hm := ha cs m hm
  have hk := hb _ k hk
  rw [List.length_drop] at hk
  omega

theorem within_or {first second : Scan} (ha : Within first) (hb : Within second) :
    Within fun cs => (first cs).or (second cs) := by
  intro cs n hn
  rcases Option.or_eq_some_iff.mp hn with hn | ⟨-, hn⟩
  · exact ha cs n hn
  · exact hb cs n hn

theorem countWhile_le_length (p : Char → Bool) (cs : List Char) : countWhile p cs ≤ cs.length := by
  rw [countWhile_eq_length_takeWhile]
  exact (List.takeWhile_sublist p).length_le

theorem countWhile_eq_length_iff {p : Char → Bool} {cs : List Char} :
    countWhile p cs = cs.length ↔ ∀ c ∈ cs, p c = true := by
  rw [countWhile_eq_length_takeWhile]
  constructor
  · intro h
    have htake : cs.takeWhile p = cs := (List.takeWhile_prefix p).eq_of_length h
    exact fun c hc => List.mem_takeWhile_imp (htake.symm ▸ hc)
  · intro h
    rw [List.takeWhile_eq_self_iff.mpr h]

theorem countWhile_append {p : Char → Bool} {cs rest : List Char} (h : ∀ c ∈ cs, p c = true)
    (hr : ∀ c ∈ rest.head?, p c = false) : countWhile p (cs ++ rest) = cs.length := by
  rw [countWhile_eq_length_takeWhile, List.takeWhile_append_of_pos h]
  cases rest with
  | nil => rw [List.takeWhile_nil, List.append_nil]
  | cons c rest => rw [List.takeWhile_cons_of_neg (by rw [hr c rfl]; decide), List.append_nil]

theorem within_countWhile (p : Char → Bool) : Within fun cs => some (countWhile p cs) := by
  rintro cs n ⟨⟩
  exact countWhile_le_length p cs

theorem attempt_then {b : Pattern} {second : Scan} (hb : Finds b second) (s : Spot) (first : Option Nat) :
    (first.bind fun m => b.attempt some (s.advance m)) =
      (first.bind fun m => (second (s.rest.drop m)).map (m + ·)).map s.advance := by
  cases first with
  | none => rfl
  | some m =>
      rw [Option.bind_some, Option.bind_some, hb.attempt_eq, Spot.rest_advance, Option.map_map]
      congr 1
      funext n
      exact (s.advance_add m n).symm

def charScan (p : Char → Bool) : Scan
  | c :: _ => if p c then some 1 else none
  | [] => none

theorem within_charScan (p : Char → Bool) : Within (charScan p) := by
  intro cs n hn
  cases cs with
  | nil => cases hn
  | cons c cs =>
      rw [charScan, Option.mem_def, Option.ite_none_right_eq_some, Option.some.injEq] at hn
      obtain ⟨-, rfl⟩ := hn
      exact Nat.succ_pos _

theorem then_charScan_nil (p : Char → Bool) (scan : Scan) : then_ (charScan p) scan [] = none := rfl

theorem then_charScan_cons (p : Char → Bool) (scan : Scan) (c : Char) (cs : List Char) :
    then_ (charScan p) scan (c :: cs) = if p c then (scan cs).map (1 + ·) else none := by
  rw [then_, charScan]
  split <;> rfl

theorem then_charScan_of_head {p : Char → Bool} {cs : List Char} (h : ∀ c ∈ cs.head?, p c = false) (scan : Scan) :
    then_ (charScan p) scan cs = none := by
  cases cs with
  | nil => rfl
  | cons c cs =>
      rw [then_charScan_cons, if_neg]
      rw [h c rfl]
      decide

theorem attempt_char (p : Char → Bool) (k : Goal) (s : Spot) :
    (char p).attempt k s = (charScan p s.rest).bind fun m => k (s.advance m) := by
  obtain ⟨before, cs⟩ := s
  cases cs with
  | nil => rfl
  | cons c cs =>
      rw [attempt_char_cons, charScan]
      split <;> rfl

theorem finds_char_seq {b : Pattern} {scan : Scan} (p : Char → Bool) (hb : Finds b scan) :
    Finds (seq (char p) b) (then_ (charScan p) scan) := by
  refine ⟨fun s => ?_, within_then (within_charScan p) hb.within⟩
  rw [attempt_seq, attempt_char, attempt_then hb]
  rfl

theorem finds_char (p : Char → Bool) : Finds (char p) (charScan p) := by
  refine ⟨fun s => ?_, within_charScan p⟩
  rw [attempt_char]
  cases charScan p s.rest <;> rfl

theorem finds_either {a b : Pattern} {first second : Scan} (ha : Finds a first) (hb : Finds b second) :
    Finds (either a b) fun cs => (first cs).or (second cs) := by
  refine ⟨fun s => ?_, within_or ha.within hb.within⟩
  rw [attempt_either, ha.attempt_eq, hb.attempt_eq, ← Option.map_or]

theorem finds_optional_char_seq {b : Pattern} {scan : Scan} (p : Char → Bool) (hb : Finds b scan) :
    Finds (seq (optional (char p)) b) fun cs => (then_ (charScan p) scan cs).or (scan cs) :=
  (finds_either (finds_char_seq p hb) hb).of_attempt_eq fun _ => rfl

theorem finds_optional {a : Pattern} {scan : Scan} (ha : Finds a scan) :
    Finds (optional a) fun cs => some ((scan cs).getD 0) :=
  (finds_either ha finds_nothing).congr fun cs => by cases scan cs <;> rfl

def Stops (p : Char → Bool) (k : Goal) : Prop :=
  (∀ s, (k s).isSome = true) ∨ ∀ s c cs, s.rest = c :: cs → p c = true → k s = none

theorem Stops.or_eq {p : Char → Bool} {k : Goal} (h : Stops p k) (s' : Spot) {s : Spot} {c : Char} {cs : List Char}
    (hs : s.rest = c :: cs) (hc : p c = true) : (k s').or (k s) = k s' := by
  rcases h with h | h
  · exact Option.or_of_isSome (h s')
  · rw [h s c cs hs hc, Option.or_none]

theorem attempt_many_char {p : Char → Bool} {k : Goal} (h : Stops p k) (s : Spot) :
    (many (char p)).attempt k s = k (s.advance (countWhile p s.rest)) := by
  obtain ⟨before, cs⟩ := s
  induction cs generalizing before with
  | nil =>
      rw [(consumes_char p).attempt_many, (consumes_char p).attempt_nil _ rfl, Option.none_or]
      rfl
  | cons c cs ih =>
      rw [(consumes_char p).attempt_many, countWhile]
      by_cases hc : p c = true
      · have hm : (char p).attempt ((many (char p)).attempt k) ⟨before, c :: cs⟩ =
            k (Spot.advance ⟨before, c :: cs⟩ (countWhile p cs + 1)) := (if_pos hc).trans (ih (some c))
        rw [hm, if_pos hc, h.or_eq _ rfl hc]
      · have hm : (char p).attempt ((many (char p)).attempt k) ⟨before, c :: cs⟩ = none := if_neg hc
        rw [hm, if_neg hc, Option.none_or, Spot.advance_zero]

theorem Settles.stops {p : Char → Bool} {b : Pattern} {scan : Scan} (h : Settles p scan) (hb : Finds b scan) :
    Stops p (b.attempt some) := by
  rcases h with h | h
  · refine .inl fun s => ?_
    rw [hb.attempt_eq, Option.isSome_map]
    exact h s.rest
  · refine .inr fun s c cs hs hc => ?_
    rw [hb.attempt_eq, hs, h c cs hc]
    rfl

theorem finds_many_seq {b : Pattern} {scan : Scan} {p : Char → Bool} (h : Settles p scan) (hb : Finds b scan) :
    Finds (seq (many (char p)) b) (then_ (fun cs => some (countWhile p cs)) scan) := by
  refine ⟨fun s => ?_, within_then (within_countWhile p) hb.within⟩
  have ht := attempt_then hb s (some (countWhile p s.rest))
  rw [attempt_seq, attempt_many_char (h.stops hb)]
  exact ht

theorem finds_many (p : Char → Bool) : Finds (many (char p)) fun cs => some (countWhile p cs) := by
  refine ⟨fun s => ?_, within_countWhile p⟩
  rw [attempt_many_char (.inl fun _ => rfl)]
  rfl

def plusScan (p : Char → Bool) : Scan := fun cs => if 0 < countWhile p cs then some (countWhile p cs) else none

theorem plusScan_cons (p : Char → Bool) (c : Char) (cs : List Char) :
    plusScan p (c :: cs) = if p c then some (countWhile p cs + 1) else none := by
  rw [plusScan, countWhile]
  split
  · exact if_pos (Nat.succ_pos _)
  · rfl

theorem then_plusScan (p : Char → Bool) (scan : Scan) (cs : List Char) :
    then_ (plusScan p) scan cs =
      if 0 < countWhile p cs then (scan (cs.drop (countWhile p cs))).map (countWhile p cs + ·) else none := by
  rw [then_, plusScan]
  split <;> rfl

theorem finds_plus (p : Char → Bool) : Finds (plus p) (plusScan p) := by
  refine (finds_char_seq p (finds_many p)).congr fun cs => ?_
  cases cs with
  | nil => rfl
  | cons c cs =>
      rw [plusScan_cons, then_, charScan]
      split
      · rw [Option.bind_some, List.drop_one, List.tail_cons, Option.map_some, Nat.add_comm]
      · rfl

theorem finds_plus_seq {b : Pattern} {scan : Scan} {p : Char → Bool} (h : Settles p scan) (hb : Finds b scan) :
    Finds (seq (plus p) b) (then_ (plusScan p) scan) := by
  refine ((finds_char_seq p (finds_many_seq h hb)).congr fun cs => ?_).of_attempt_eq fun _ => rfl
  cases cs with
  | nil => rfl
  | cons c cs =>
      simp only [then_, plusScan_cons, charScan]
      split
      · simp only [Option.bind_some, List.drop_succ_cons, List.drop_zero, Option.map_map]
        congr 1
        funext n
        simp only [Function.comp]
        omega
      · rfl

end Pattern

end ProtoBundle.Source
