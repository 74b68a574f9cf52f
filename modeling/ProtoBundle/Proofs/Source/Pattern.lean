import ProtoBundle.Source.Terminal

/-!
Patterns, and the match that backtracking finds. A first alternative is preferred to a second one and a longer
repetition to a shorter one, unless the repetition is lazy; another choice is made only when what follows fails.
-/

namespace ProtoBundle.Source

structure Spot where
  before : Option Char
  rest : List Char

namespace Spot

def advance : Spot → Nat → Spot
  | s, 0 => s
  | ⟨_, c :: cs⟩, n + 1 => advance ⟨some c, cs⟩ n
  | ⟨b, []⟩, _ + 1 => ⟨b, []⟩

def isBoundary (s : Spot) : Bool := s.before.any Text.isWordChar != s.rest.head?.any Text.isWordChar

theorem advance_zero (s : Spot) : s.advance 0 = s := by
  cases s
  rfl

theorem rest_advance (s : Spot) (n : Nat) : (s.advance n).rest = s.rest.drop n := by
  obtain ⟨before, cs⟩ := s
  induction n generalizing before cs with
  | zero => rfl
  | succ n ih =>
      cases cs with
      | nil => rfl
      | cons c cs => exact ih (some c) cs

theorem advance_add (s : Spot) (m n : Nat) : s.advance (m + n) = (s.advance m).advance n := by
  obtain ⟨before, cs⟩ := s
  induction m generalizing before cs with
  | zero => rw [Nat.zero_add, advance_zero]
  | succ m ih =>
      rw [Nat.succ_add]
      cases cs with
      | nil => cases n <;> rfl
      | cons c cs => exact ih (some c) cs

end Spot

inductive Pattern where
  | nothing
  | char (p : Char → Bool)
  | seq (a b : Pattern)
  | either (a b : Pattern)
  | repeated (reluctant : Bool) (a : Pattern)
  | boundary
  | notAhead (a : Pattern)

namespace Pattern

/-- What has to succeed from where a match ends. -/
abbrev Goal := Spot → Option Spot

/-- A reluctant repetition would rather stop, any other goes on while it can. -/
def pick (reluctant : Bool) (more stop : Option Spot) : Option Spot :=
  if reluctant then stop.or more else more.or stop

/-- No repeated pattern matches nothing, so that there are no more repetitions than characters. -/
def repeating (reluctant : Bool) (step : Goal → Goal) (goal : Goal) : (fuel : Nat) → Goal
  | 0, s => goal s
  | fuel + 1, s => pick reluctant (step (repeating reluctant step goal fuel) s) (goal s)

def attempt : Pattern → Goal → Goal
  | nothing, goal, s => goal s
  | char p, goal, s =>
      match s.rest with
      | c :: cs => if p c then goal ⟨some c, cs⟩ else none
      | [] => none
  | seq a b, goal, s => a.attempt (b.attempt goal) s
  | either a b, goal, s => (a.attempt goal s).or (b.attempt goal s)
  | repeated reluctant a, goal, s => repeating reluctant a.attempt goal s.rest.length s
  | boundary, goal, s => if s.isBoundary then goal s else none
  | notAhead a, goal, s => if (a.attempt some s).isSome then none else goal s

def optional (a : Pattern) : Pattern := either a nothing

def many (a : Pattern) : Pattern := repeated false a

def few (a : Pattern) : Pattern := repeated true a

def plus (p : Char → Bool) : Pattern := seq (char p) (many (char p))

def text : List Char → Pattern
  | [] => nothing
  | c :: cs => seq (char (· == c)) (text cs)

def choice (a : Pattern) : List Pattern → Pattern
  | [] => a
  | b :: bs => either a (choice b bs)

section Equations

variable (p : Char → Bool) (a b : Pattern) (k : Goal) (s : Spot)

theorem attempt_nothing : nothing.attempt k s = k s := rfl

theorem attempt_char_cons (before : Option Char) (c : Char) (cs : List Char) :
    (char p).attempt k ⟨before, c :: cs⟩ = if p c then k ⟨some c, cs⟩ else none := rfl

theorem attempt_seq : (seq a b).attempt k s = a.attempt (b.attempt k) s := rfl

theorem attempt_either : (either a b).attempt k s = (a.attempt k s).or (b.attempt k s) := rfl

theorem attempt_boundary : boundary.attempt k s = if s.isBoundary then k s else none := rfl

theorem attempt_notAhead : (notAhead a).attempt k s = if (a.attempt some s).isSome then none else k s := rfl

end Equations

@[simp] theorem pick_none (reluctant : Bool) (stop : Option Spot) : pick reluctant none stop = stop := by
  cases reluctant
  · exact Option.none_or
  · exact Option.or_none

theorem attempt_congr (p : Pattern) {k k' : Goal} {s : Spot}
    (h : ∀ s', s'.rest.length ≤ s.rest.length → k s' = k' s') : p.attempt k s = p.attempt k' s := by
  induction p generalizing k k' s with
  | nothing => exact h s (Nat.le_refl _)
  | char p =>
      obtain ⟨before, cs⟩ := s
      cases cs with
      | nil => rfl
      | cons c cs =>
          have hk : k ⟨some c, cs⟩ = k' ⟨some c, cs⟩ := h _ (Nat.le_succ _)
          rw [attempt_char_cons, attempt_char_cons, hk]
  | seq a b iha ihb => exact iha fun s' hs => ihb fun s'' hs' => h s'' (Nat.le_trans hs' hs)
  | either a b iha ihb => rw [attempt_either, attempt_either, iha h, ihb h]
  | repeated reluctant a ih =>
      have hf : ∀ n (s : Spot), (∀ s', s'.rest.length ≤ s.rest.length → k s' = k' s') →
          repeating reluctant a.attempt k n s = repeating reluctant a.attempt k' n s := by
        intro n
        induction n with
        | zero => exact fun s hs => hs s (Nat.le_refl _)
        | succ n ihn =>
            intro s hs
            rw [repeating, repeating, hs s (Nat.le_refl _),
              ih fun s' hs' => ihn s' fun s'' hs'' => hs s'' (Nat.le_trans hs'' hs')]
      exact hf _ s h
  | boundary => rw [attempt_boundary, attempt_boundary, h s (Nat.le_refl _)]
  | notAhead a => rw [attempt_notAhead, attempt_notAhead, h s (Nat.le_refl _)]

theorem attempt_none (p : Pattern) (s : Spot) : p.attempt (fun _ => none) s = none := by
  induction p generalizing s with
  | nothing => rfl
  | char p =>
      obtain ⟨before, cs⟩ := s
      cases cs with
      | nil => rfl
      | cons c cs => exact ite_self none
  | seq a b iha ihb =>
      rw [attempt_seq, funext ihb]
      exact iha s
  | either a b iha ihb =>
      rw [attempt_either, iha, ihb]
      rfl
  | repeated reluctant a ih =>
      have hf : ∀ n, repeating reluctant a.attempt (fun _ => none) n = fun _ => none := by
        intro n
        induction n with
        | zero => rfl
        | succ n ihn =>
            funext s
            rw [repeating, ihn, ih, pick_none]
      exact congrFun (hf _) s
  | boundary => exact ite_self none
  | notAhead a => exact ite_self none

def Consumes (p : Pattern) : Prop :=
  ∀ (k k' : Goal) (s : Spot), (∀ s', s'.rest.length < s.rest.length → k s' = k' s') →
    p.attempt k s = p.attempt k' s

theorem consumes_char (p : Char → Bool) : Consumes (char p) := by
  rintro k k' ⟨before, cs⟩ h
  cases cs with
  | nil => rfl
  | cons c cs =>
      have hk : k ⟨some c, cs⟩ = k' ⟨some c, cs⟩ := h _ (Nat.lt_succ_self _)
      rw [attempt_char_cons, attempt_char_cons, hk]

theorem Consumes.seq {a : Pattern} (h : Consumes a) (b : Pattern) : Consumes (seq a b) := by
  intro k k' s hk
  exact h _ _ s fun s' hs => b.attempt_congr fun s'' hs' => hk s'' (Nat.lt_of_le_of_lt hs' hs)

theorem Consumes.either {a b : Pattern} (ha : Consumes a) (hb : Consumes b) : Consumes (either a b) := by
  intro k k' s hk
  rw [attempt_either, attempt_either, ha k k' s hk, hb k k' s hk]

theorem Consumes.attempt_nil {a : Pattern} (h : Consumes a) (k : Goal) {s : Spot} (hs : s.rest = []) :
    a.attempt k s = none := by
  have hk : a.attempt k s = a.attempt (fun _ => none) s := by
    apply h
    intro s' hlt
    rw [hs] at hlt
    exact absurd hlt (Nat.not_lt_zero _)
  rw [hk, attempt_none]

theorem Consumes.repeating_eq {a : Pattern} (h : Consumes a) (reluctant : Bool) (k : Goal) {m n : Nat} {s : Spot}
    (hm : s.rest.length ≤ m) (hn : s.rest.length ≤ n) :
    repeating reluctant a.attempt k m s = repeating reluctant a.attempt k n s := by
  induction m generalizing n s with
  | zero =>
      cases n with
      | zero => rfl
      | succ n =>
          have hs : s.rest = [] := List.length_eq_zero_iff.mp (Nat.le_zero.mp hm)
          rw [repeating, repeating, h.attempt_nil _ hs, pick_none]
  | succ m ih =>
      cases n with
      | zero =>
          have hs : s.rest = [] := List.length_eq_zero_iff.mp (Nat.le_zero.mp hn)
          rw [repeating, repeating, h.attempt_nil _ hs, pick_none]
      | succ n =>
          rw [repeating, repeating]
          congr 1
          exact h _ _ s fun s' hs => ih (by omega) (by omega)

theorem Consumes.attempt_repeated {a : Pattern} (h : Consumes a) (reluctant : Bool) (k : Goal) (s : Spot) :
    (repeated reluctant a).attempt k s =
      pick reluctant (a.attempt ((repeated reluctant a).attempt k) s) (k s) := by
  have hs : (repeated reluctant a).attempt k s = repeating reluctant a.attempt k (s.rest.length + 1) s :=
    h.repeating_eq reluctant k (Nat.le_refl _) (Nat.le_succ _)
  rw [hs, repeating]
  congr 1
  exact h _ _ s fun s' hlt => h.repeating_eq reluctant k (by omega) (Nat.le_refl _)

theorem Consumes.attempt_many {a : Pattern} (h : Consumes a) (k : Goal) (s : Spot) :
    (many a).attempt k s = (a.attempt ((many a).attempt k) s).or (k s) := h.attempt_repeated false k s

theorem Consumes.attempt_few {a : Pattern} (h : Consumes a) (k : Goal) (s : Spot) :
    (few a).attempt k s = (k s).or (a.attempt ((few a).attempt k) s) := h.attempt_repeated true k s

end Pattern

end ProtoBundle.Source
