import ProtoBundle.Text.Split

/-!
Paths as texts. An absolute path is normal when its components are proper names behind one leading slash, or
behind two, which are kept apart from one. Main statements: a normal path is its own normal form
and its own absolute form.
-/

namespace ProtoBundle.Path

abbrev Component := List Char

def isAbsolute : List Char → Bool
  | '/' :: _ => true
  | _ => false

/-- The leading slashes of a normal path: two if there are exactly two, and one otherwise. -/
def root : List Char → List Char
  | '/' :: '/' :: '/' :: _ => ['/']
  | '/' :: '/' :: _ => ['/', '/']
  | _ => ['/']

/-- The components above and below: a name goes down, two dots go up, and nothing and a single dot stay. -/
def step (done : List Component) (c : Component) : List Component :=
  if c = [] ∨ c = ['.'] then done else if c = ['.', '.'] then done.dropLast else done ++ [c]

def components (cs : List Char) : List Component := Text.splitOn '/' cs

def normalComponents (cs : List Char) : List Component := (components cs).foldl step []

def normal (cs : List Char) : List Char := root cs ++ Text.join ['/'] (normalComponents cs)

def append (base cs : List Char) : List Char :=
  if isAbsolute cs then cs
  else if base = [] ∨ base.getLast? = some '/' then base ++ cs
  else base ++ '/' :: cs

def absolute (working cs : List Char) : List Char :=
  normal (if isAbsolute cs then cs else append working cs)

/-- Everything in front of the last slash, which itself is kept only at the root. -/
def directory (cs : List Char) : List Char :=
  let head := (cs.reverse.dropWhile (· != '/')).reverse
  if head.all (· == '/') then head else (head.reverse.dropWhile (· == '/')).reverse

def Proper (c : Component) : Prop := c ≠ [] ∧ c ≠ ['.'] ∧ c ≠ ['.', '.'] ∧ '/' ∉ c

theorem proper_step {done : List Component} {c : Component} (hc : '/' ∉ c) (h : ∀ d ∈ done, Proper d) :
    ∀ d ∈ step done c, Proper d := by
  intro d hd
  unfold step at hd
  split at hd
  · exact h d hd
  · split at hd
    · exact h d ((List.dropLast_sublist done).subset hd)
    · rcases List.mem_append.1 hd with hd | hd
      · exact h d hd
      · simp at hd
        subst hd
        simp_all [Proper]

theorem proper_foldl_step {cs done : List Component} (hc : ∀ c ∈ cs, '/' ∉ c) (h : ∀ d ∈ done, Proper d) :
    ∀ d ∈ cs.foldl step done, Proper d := by
  induction cs generalizing done with
  | nil => exact h
  | cons c cs ih =>
      exact ih (fun d hd => hc d (List.mem_cons_of_mem _ hd)) (proper_step (hc c (List.mem_cons_self ..)) h)

theorem proper_normalComponents {cs : List Char} : ∀ c ∈ normalComponents cs, Proper c :=
  proper_foldl_step (fun _ h => Text.not_mem_of_mem_splitOn h) (by simp)

theorem step_of_proper {done : List Component} {c : Component} (h : Proper c) : step done c = done ++ [c] := by
  simp [step, h.1, h.2.1, h.2.2.1]

theorem foldl_step_of_proper {cs done : List Component} (h : ∀ c ∈ cs, Proper c) :
    cs.foldl step done = done ++ cs := by
  induction cs generalizing done with
  | nil => simp
  | cons c cs ih =>
      rw [List.foldl_cons, step_of_proper (h c (List.mem_cons_self ..)),
        ih fun d hd => h d (List.mem_cons_of_mem _ hd)]
      simp

def IsRoot (r : List Char) : Prop := r = ['/'] ∨ r = ['/', '/']

theorem isRoot_root (cs : List Char) : IsRoot (root cs) := by
  unfold root
  split <;> simp [IsRoot]

theorem join_of_proper {cs : List Component} (h : ∀ c ∈ cs, Proper c) :
    ∀ c, (Text.join ['/'] cs).head? = some c → c ≠ '/' := by
  intro c hc hs
  subst hs
  cases cs with
  | nil => simp [Text.join] at hc
  | cons first rest =>
      have hf := h first (List.mem_cons_self ..)
      cases first with
      | nil => exact hf.1 rfl
      | cons x xs =>
          have hx : x ≠ '/' := fun hx => hf.2.2.2 (by simp [hx])
          cases rest <;> simp [Text.join] at hc <;> exact hx hc

theorem root_append {r cs : List Char} (hr : IsRoot r) (h : ∀ c, cs.head? = some c → c ≠ '/') :
    root (r ++ cs) = r := by
  cases cs with
  | nil => rcases hr with rfl | rfl <;> rfl
  | cons c cs =>
      have hc : c ≠ '/' := h c rfl
      rcases hr with rfl | rfl
      · simp only [List.singleton_append, root]
        split
        · simp_all
        · simp_all
        · rfl
      · simp only [List.cons_append, List.nil_append, root]
        split
        · simp_all
        · rfl
        · simp_all

theorem normalComponents_root_append {r : List Char} {cs : List Component} (hr : IsRoot r)
    (h : ∀ c ∈ cs, Proper c) : normalComponents (r ++ Text.join ['/'] cs) = cs := by
  have key : (Text.splitOn '/' (Text.join ['/'] cs)).foldl step [] = cs := by
    by_cases hne : cs = []
    · subst hne
      rfl
    · rw [Text.splitOn_join hne fun c hc => (h c hc).2.2.2, foldl_step_of_proper h, List.nil_append]
  rcases hr with rfl | rfl
  · simpa [normalComponents, components, Text.splitOn, step] using key
  · simpa [normalComponents, components, Text.splitOn, step] using key

theorem normal_of_proper {r : List Char} {cs : List Component} (hr : IsRoot r) (h : ∀ c ∈ cs, Proper c) :
    normal (r ++ Text.join ['/'] cs) = r ++ Text.join ['/'] cs := by
  rw [normal, root_append hr (join_of_proper h), normalComponents_root_append hr h]

theorem normal_normal (cs : List Char) : normal (normal cs) = normal cs :=
  normal_of_proper (isRoot_root cs) proper_normalComponents

theorem isAbsolute_normal (cs : List Char) : isAbsolute (normal cs) = true := by
  rcases isRoot_root cs with h | h <;> simp [normal, h, isAbsolute]

theorem absolute_normal (working cs : List Char) : absolute working (normal cs) = normal cs := by
  rw [absolute, if_pos (isAbsolute_normal cs), normal_normal]

end ProtoBundle.Path
