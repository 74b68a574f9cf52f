import ProtoBundle.Proofs.Source.Spans

/-!
Words, which are lexemes that stand alone. No terminal but the quoted one takes blanks, slashes or quotes, so that
what it takes from a word does not depend on what stands behind the word.
-/

namespace ProtoBundle.Source

def borders : List Char := layoutStarts ++ ['"', '\'']

def AtBorder (cs : List Char) : Prop := ∀ c ∈ cs.head?, c ∈ borders

theorem atBorder_nil : AtBorder [] := nofun

theorem atBorder_cons {c : Char} (h : c ∈ borders) (cs : List Char) : AtBorder (c :: cs) := by
  rintro _ ⟨⟩
  exact h

def Spot.extend (s : Spot) (r : List Char) : Spot := ⟨s.before, s.rest ++ r⟩

namespace Pattern

inductive Inner : Pattern → Prop
  | nothing : Inner nothing
  | char {p : Char → Bool} (h : (borders.all fun c => !p c) = true) : Inner (char p)
  | seq {a b : Pattern} (ha : Inner a) (hb : Inner b) : Inner (seq a b)
  | either {a b : Pattern} (ha : Inner a) (hb : Inner b) : Inner (either a b)
  | repeated {a : Pattern} (reluctant : Bool) (h : Inner a) (hc : Consumes a) : Inner (repeated reluctant a)
  | boundary : Inner boundary
  | notAhead {a : Pattern} (h : Inner a) : Inner (notAhead a)

variable {r : List Char}

theorem eq_false_of_mem_borders {p : Char → Bool} (h : (borders.all fun c => !p c) = true) {c : Char}
    (hc : c ∈ borders) : p c = false := by
  have hn := List.all_eq_true.mp h c hc
  cases hp : p c with
  | false => rfl
  | true =>
      rw [hp] at hn
      cases hn

theorem isBoundary_extend (hr : AtBorder r) (s : Spot) : (s.extend r).isBoundary = s.isBoundary := by
  obtain ⟨before, cs⟩ := s
  cases cs with
  | cons c cs => rfl
  | nil =>
      cases r with
      | nil => rfl
      | cons d r =>
          have hd : Text.isWordChar d = false := eq_false_of_mem_borders (by decide +kernel) (hr d rfl)
          simp [Spot.isBoundary, Spot.extend, hd]

theorem repeating_extend {a : Pattern} {reluctant : Bool} {k k' : Goal}
    (ha : ∀ {g g' : Goal}, (∀ s, g (s.extend r) = (g' s).map (·.extend r)) →
      ∀ s, a.attempt g (s.extend r) = (a.attempt g' s).map (·.extend r))
    (hk : ∀ s, k (s.extend r) = (k' s).map (·.extend r)) (n : Nat) (s : Spot) :
    repeating reluctant a.attempt k n (s.extend r) = (repeating reluctant a.attempt k' n s).map (·.extend r) := by
  induction n generalizing s with
  | zero => exact hk s
  | succ n ih =>
      rw [repeating, repeating, ha ih, hk]
      cases reluctant <;> exact Option.map_or.symm

theorem Inner.attempt_extend {p : Pattern} (h : Inner p) (hr : AtBorder r) {k k' : Goal}
    (hk : ∀ s, k (s.extend r) = (k' s).map (·.extend r)) (s : Spot) :
    p.attempt k (s.extend r) = (p.attempt k' s).map (·.extend r) := by
  induction h generalizing k k' s with
  | nothing => exact hk s
  | @char p hp =>
      obtain ⟨before, cs⟩ := s
      cases cs with
      | nil =>
          cases r with
          | nil => rfl
          | cons d r =>
              have hd : p d = false := eq_false_of_mem_borders hp (hr d rfl)
              exact if_neg (by rw [hd]; decide)
      | cons c cs =>
          have hc := hk ⟨some c, cs⟩
          change (if p c then k (Spot.extend ⟨some c, cs⟩ r) else none) = _
          rw [hc, attempt_char_cons]
          split <;> rfl
  | seq _ _ iha ihb => exact iha (ihb hk) s
  | either _ _ iha ihb => rw [attempt_either, attempt_either, iha hk, ihb hk, Option.map_or]
  | @repeated a reluctant _ hc ih =>
      have hlen : s.rest.length ≤ (s.extend r).rest.length := by
        rw [Spot.extend, List.length_append]
        exact Nat.le_add_right _ _
      have hfuel := hc.repeating_eq reluctant k' (Nat.le_refl s.rest.length) hlen
      change _ = (repeating reluctant a.attempt k' s.rest.length s).map _
      rw [hfuel]
      exact repeating_extend ih hk _ s
  | boundary =>
      rw [attempt_boundary, attempt_boundary, isBoundary_extend hr]
      split
      · exact hk s
      · rfl
  | @notAhead a _ ih =>
      have hn : a.attempt some (s.extend r) = (a.attempt some s).map (·.extend r) := ih (fun _ => rfl) s
      rw [attempt_notAhead, attempt_notAhead, hn, Option.isSome_map]
      split
      · rfl
      · exact hk s

theorem Finds.scan_append {p : Pattern} {scan : Scan} (hf : Finds p scan) (h : Inner p) (hr : AtBorder r)
    (u : List Char) : scan (u ++ r) = scan u := by
  have ha : p.attempt some (Spot.extend ⟨none, u⟩ r) = (p.attempt some ⟨none, u⟩).map (·.extend r) :=
    h.attempt_extend hr (fun _ => rfl) ⟨none, u⟩
  rw [hf.attempt_eq, hf.attempt_eq, Option.map_map] at ha
  have hrest := congrArg (Option.map fun s => s.rest.length) ha
  simp only [Option.map_map, Spot.extend, Function.comp_def, Spot.rest_advance, List.length_append,
    List.length_drop] at hrest
  cases hu : scan u with
  | none =>
      rw [hu] at hrest
      exact Option.map_eq_none_iff.mp hrest
  | some m =>
      rw [hu, Option.map_some] at hrest
      obtain ⟨n, hn, he⟩ := Option.map_eq_some_iff.mp hrest
      have hm := hf.within u m hu
      have hn' := hf.within _ n hn
      rw [List.length_append] at hn'
      rw [hn]
      congr 1
      omega

theorem Inner.optional {a : Pattern} (h : Inner a) : Inner (optional a) := .either h .nothing

theorem Inner.many {p : Char → Bool} (h : (borders.all fun c => !p c) = true) : Inner (many (Pattern.char p)) :=
  .repeated false (.char h) (consumes_char p)

theorem Inner.plus {p : Char → Bool} (h : (borders.all fun c => !p c) = true) : Inner (plus p) := .seq (.char h) (.many h)

theorem inner_text {w : List Char} (h : (w.all fun c => !borders.contains c) = true) : Inner (text w) := by
  induction w with
  | nil => exact .nothing
  | cons c w ih =>
      rw [List.all_cons, Bool.and_eq_true] at h
      refine .seq (.char (List.all_eq_true.mpr fun d hd => ?_)) (ih h.2)
      have hne : d ≠ c := by
        rintro rfl
        rw [List.contains_iff_mem.mpr hd] at h
        exact absurd h.1 (by decide)
      simpa using hne

theorem inner_choice {w : String} {ws : List String}
    (h : ((w :: ws).all fun w => w.toList.all fun c => !borders.contains c) = true) :
    Inner (choice (text w.toList) (ws.map fun v => text v.toList)) := by
  induction ws generalizing w with
  | nil =>
      rw [List.all_cons, Bool.and_eq_true] at h
      exact inner_text h.1
  | cons v ws ih =>
      rw [List.all_cons, Bool.and_eq_true] at h
      exact .either (inner_text h.1) (ih h.2)

theorem inner_identifier : Inner identifier := .seq (.char (by decide)) (.many (by decide))

theorem inner_dots : Inner dots := .repeated false (.seq (.char (by decide)) inner_identifier) consumes_dot

theorem inner_dotted : Inner dotted := .seq inner_identifier inner_dots

theorem inner_dot : Inner (optional (char (· == '.'))) := .optional (.char (by decide))

theorem inner_sign : Inner (optional (char isSign)) := .optional (.char (by decide))

theorem inner_typeName : Inner typeName :=
  .seq inner_dot (.seq (.notAhead (.seq (inner_choice (by decide)) .boundary)) inner_dotted)

theorem inner_optionName : Inner optionName :=
  .seq (.either (.seq (.char (by decide)) (.seq inner_dot (.seq inner_dotted (.char (by decide))))) inner_identifier)
    inner_dots

theorem inner_integer : Inner integer :=
  .either (.seq (.char (by decide)) (.seq (.char (by decide)) (.plus (by decide))))
    (.either (.seq (.char (by decide)) (.many (by decide))) (.seq (.char (by decide)) (.many (by decide))))

theorem inner_exponent : Inner exponent := .seq (.char (by decide)) (.seq inner_sign (.plus (by decide)))

theorem inner_float : Inner float :=
  .either
    (.seq (.plus (by decide)) (.seq (.char (by decide)) (.seq (.many (by decide)) (.optional inner_exponent))))
    (.either (.seq (.plus (by decide)) inner_exponent)
      (.seq (.char (by decide)) (.seq (.plus (by decide)) (.optional inner_exponent))))

end Pattern

open Pattern

theorem Terminal.inner_pattern {t : Terminal} (h : t.Listed) (hq : t ≠ .quoted) : Inner t.pattern := by
  cases t with
  | word w =>
      have hv : (vocabulary.all fun w => w.toList.all fun c => !borders.contains c) = true := by decide
      exact inner_text (List.all_eq_true.mp hv w h)
  | label => exact .seq (inner_choice (by decide)) .boundary
  | stream => exact .seq (inner_text (by decide)) .boundary
  | importKind => exact inner_choice (by decide)
  | maximum => exact inner_text (by decide)
  | special => exact .seq (.char (by decide)) (.seq (inner_choice (by decide)) .boundary)
  | identifier => exact inner_identifier
  | dottedName => exact inner_dotted
  | typeName => exact inner_typeName
  | optionName => exact inner_optionName
  | integer => exact inner_integer
  | signedInteger => exact .seq inner_sign inner_integer
  | float => exact .seq inner_sign inner_float
  | quoted => exact absurd rfl hq

theorem Terminal.length_append {t : Terminal} (h : t.Listed) (hq : t ≠ .quoted) {r : List Char} (hr : AtBorder r)
    (u : List Char) : t.length (u ++ r) = t.length u :=
  t.finds_pattern.scan_append (inner_pattern h hq) hr u

section Lexemes

variable {t : Terminal} {u r : List Char}

def IsLexeme (w : List Char) : Prop := ∃ t : Terminal, t.Listed ∧ t.length w = some w.length

/-- What may be left of a word: a text without borders, or a whole quoted text. -/
def IsUnit (u : List Char) : Prop := (∀ c ∈ u, c ∉ borders) ∨ quotedLength u = some u.length

theorem Terminal.length_nil (h : t.Listed) : t.length [] = none := by
  cases hn : t.length [] with
  | none => rfl
  | some n =>
      obtain ⟨-, c, hc, -⟩ := t.leads h [] n hn
      cases hc

theorem Terminal.length_border (h : t.Listed) (hq : t ≠ .quoted) {c : Char} (hc : c ∈ borders) (cs : List Char) :
    t.length (c :: cs) = none := by
  rw [← t.length_nil h]
  exact t.length_append h hq (atBorder_cons hc cs) []

theorem quotedRest_append {quote : Char} {cs : List Char} {n : Nat} (h : quotedRest quote cs = some n)
    (r : List Char) : quotedRest quote (cs ++ r) = some n := by
  fun_induction quotedRest quote cs generalizing n with
  | case1 => cases h
  | case2 => cases h
  | case3 => cases h
  | case4 d cs hd ih =>
      obtain ⟨m, hm, rfl⟩ := Option.map_eq_some_iff.mp h
      rw [List.cons_append, List.cons_append, quotedRest]
      simp only [if_true, hd, if_false, ih hm, Option.map_some]
  | case5 cs hc =>
      rw [List.cons_append, Pattern.quotedRest_of_ne hc, if_pos rfl, h]
  | case6 => cases h
  | case7 c cs hc hq hx ih =>
      obtain ⟨m, hm, rfl⟩ := Option.map_eq_some_iff.mp h
      rw [List.cons_append, Pattern.quotedRest_of_ne hc, if_neg hq, if_neg hx, ih hm, Option.map_some]

theorem quotedLength_append {n : Nat} (h : quotedLength u = some n) (r : List Char) :
    quotedLength (u ++ r) = some n := by
  cases u with
  | nil => cases h
  | cons c cs =>
      rw [quotedLength] at h
      split at h
      · rename_i hc
        obtain ⟨m, hm, rfl⟩ := Option.map_eq_some_iff.mp h
        rw [List.cons_append, quotedLength, if_pos hc, quotedRest_append hm, Option.map_some]
      · cases h

theorem quotedLength_of_not_mem {c : Char} (hc : c ∉ borders) (cs : List Char) : quotedLength (c :: cs) = none := by
  rw [quotedLength, if_neg]
  rintro (rfl | rfl) <;> exact hc (by decide)

theorem mem_borders_of_quotedLength {c : Char} {cs : List Char} {n : Nat} (h : quotedLength (c :: cs) = some n) :
    c ∈ borders := by
  by_contra hc
  rw [quotedLength_of_not_mem hc] at h
  cases h

theorem IsLexeme.isUnit {w : List Char} (h : IsLexeme w) : IsUnit w := by
  obtain ⟨t, ht, hw⟩ := h
  by_cases hq : t = .quoted
  · subst hq
    exact .inr hw
  · refine .inl fun c hc hb => ?_
    -- The lexeme would end in front of the border.
    obtain ⟨before, behind, rfl⟩ := List.append_of_mem hc
    rw [t.length_append ht hq (atBorder_cons hb behind)] at hw
    have hle := t.finds_pattern.within _ _ hw
    simp only [List.length_append, List.length_cons] at hle
    omega

theorem IsUnit.length_append (hu : IsUnit u) (hne : u ≠ []) (ht : t.Listed) (hr : AtBorder r) :
    t.length (u ++ r) = t.length u := by
  by_cases hq : t = .quoted
  · subst hq
    rcases hu with hu | hu
    · cases u with
      | nil => exact absurd rfl hne
      | cons c cs =>
          have hc : c ∉ borders := hu c List.mem_cons_self
          rw [List.cons_append, Terminal.length, quotedLength_of_not_mem hc, quotedLength_of_not_mem hc]
    · rw [Terminal.length, quotedLength_append hu, hu]
  · exact t.length_append ht hq hr u

theorem IsUnit.drop (hu : IsUnit u) (ht : t.Listed) {n : Nat} (hn : t.length u = some n) : IsUnit (u.drop n) := by
  rcases hu with hu | hu
  · exact .inl fun c hc => hu c (List.mem_of_mem_drop hc)
  · by_cases hq : t = .quoted
    · subst hq
      rw [Terminal.length, hu] at hn
      cases hn
      rw [List.drop_length]
      exact .inl fun c hc => absurd hc List.not_mem_nil
    · cases u with
      | nil => cases hu
      | cons c cs =>
          rw [t.length_border ht hq (mem_borders_of_quotedLength hu)] at hn
          cases hn

theorem IsUnit.head (hu : IsUnit u) (hne : u ≠ []) : ∃ c ∈ u.head?, c ∉ layoutStarts := by
  rcases hu with hu | hu
  · obtain ⟨c, cs, rfl⟩ := List.exists_cons_of_ne_nil hne
    exact ⟨c, rfl, fun hm => hu c List.mem_cons_self (List.mem_append_left _ hm)⟩
  · exact (leads_quoted _ _ hu).2

theorem IsLexeme.ne_nil {w : List Char} (h : IsLexeme w) : w ≠ [] := by
  obtain ⟨t, ht, hw⟩ := h
  rintro rfl
  rw [t.length_nil ht] at hw
  cases hw

end Lexemes

section Gaps

inductive Gap : List Char → Prop
  | nil : Gap []
  | blank {c : Char} {g : List Char} (hc : isSpacing c = true) (h : Gap g) : Gap (c :: g)
  | line {body g : List Char} (hb : '\n' ∉ body) (h : Gap g) : Gap ('/' :: '/' :: (body ++ '\n' :: g))
  | block {body g : List Char} (hb : blockRest body = some body.length) (h : Gap g) :
      Gap ('/' :: '*' :: (body ++ g))

/-- A text that consists of words with gaps around them. No gap in front of a word is empty, except perhaps in front
of the first one. -/
inductive LaysOut : (apart : Bool) → List (List Char) → List Char → Prop
  | done {apart : Bool} {g : List Char} (hg : Gap g) : LaysOut apart [] g
  | word {apart : Bool} {g w r : List Char} {ws : List (List Char)} (hg : Gap g) (ha : apart = true → g ≠ [])
      (h : LaysOut true ws r) : LaysOut apart (w :: ws) (g ++ (w ++ r))

theorem Gap.atBorder {g : List Char} (h : Gap g) {r : List Char} (hr : g = [] → AtBorder r) : AtBorder (g ++ r) := by
  cases h with
  | nil => exact hr rfl
  | @blank c g hc h =>
      refine atBorder_cons (List.mem_append_left _ ?_) _
      by_contra hn
      exact absurd hc (by simp [layoutStarts] at hn; simp [isSpacing, hn])
  | line hb h => exact atBorder_cons (by decide) _
  | block hb h => exact atBorder_cons (by decide) _

theorem LaysOut.atBorder {ws : List (List Char)} {r : List Char} (h : LaysOut true ws r) : AtBorder r := by
  cases h with
  | done hg => simpa using hg.atBorder (r := []) fun _ => atBorder_nil
  | word hg ha _ => exact hg.atBorder fun hn => absurd hn (ha rfl)

theorem LaysOut.weaken {apart : Bool} {ws : List (List Char)} {r : List Char} (h : LaysOut apart ws r) :
    LaysOut false ws r := by
  cases h with
  | done hg => exact .done hg
  | word hg _ h => exact .word hg nofun h

theorem blockRest_append {body : List Char} {n : Nat} (h : blockRest body = some n) (r : List Char) :
    blockRest (body ++ r) = some n := by
  fun_induction blockRest body generalizing n with
  | case1 => cases h
  | case2 => rw [List.cons_append, List.cons_append, blockRest_end, h]
  | case3 c cs hne ih =>
      obtain ⟨m, hm, rfl⟩ := Option.map_eq_some_iff.mp h
      cases cs with
      | nil => cases hm
      | cons d cs =>
          have hend : ∀ ds, c = '*' → d :: (cs ++ r) = '/' :: ds → False := by
            rintro _ rfl ⟨⟩
            exact hne cs rfl rfl
          rw [List.cons_append, List.cons_append, blockRest.eq_3 _ _ hend, ← List.cons_append, ih hm, Option.map_some]

theorem Cursor.skip_append {p r : List Char} (h : layoutLength (p ++ r) = p.length) (hp : p ≠ []) (k : Nat) :
    (Cursor.mk k (p ++ r)).skip = (Cursor.mk (k + p.length) r).skip := by
  have hne : layoutLength (p ++ r) ≠ 0 := by rwa [h, Ne, List.length_eq_zero_iff]
  have ha : (Cursor.mk k (p ++ r)).advance (layoutLength (p ++ r)) = ⟨k + p.length, r⟩ := by
    rw [Cursor.advance, h, List.drop_left]
  rw [← ha]
  exact (Cursor.skip_advance (c := ⟨k, p ++ r⟩) hne).symm

theorem layoutLength_of_isSpacing {c : Char} (hc : isSpacing c = true) (cs : List Char) :
    layoutLength (c :: cs) = countWhile isSpacing cs + 1 := by
  have hs : ∀ {d : Char} {ds : List Char}, c :: cs ≠ '/' :: d :: ds := by
    rintro d ds ⟨⟩
    cases hc
  rw [layoutLength_of_ne (fun _ => hs) (fun _ => hs), countWhile, if_pos hc]

theorem Cursor.skip_blank {c : Char} (hc : isSpacing c = true) (k : Nat) (cs : List Char) :
    (Cursor.mk k (c :: cs)).skip = (Cursor.mk (k + 1) cs).skip := by
  have hcut := List.take_append_drop (countWhile isSpacing cs) cs
  have htake : (cs.take (countWhile isSpacing cs)).length = countWhile isSpacing cs :=
    List.length_take_of_le (Pattern.countWhile_le_length isSpacing cs)
  have hfirst : layoutLength (c :: cs.take (countWhile isSpacing cs) ++ cs.drop (countWhile isSpacing cs)) =
      (c :: cs.take (countWhile isSpacing cs)).length := by
    rw [List.cons_append, hcut, layoutLength_of_isSpacing hc, List.length_cons, htake]
  have hskip := Cursor.skip_append hfirst (List.cons_ne_nil _ _) k
  rw [List.cons_append, hcut, List.length_cons, htake] at hskip
  rw [hskip]
  cases cs with
  | nil => rfl
  | cons d cs =>
      by_cases hd : isSpacing d = true
      · have hrest : layoutLength (d :: cs) = countWhile isSpacing (d :: cs) := by
          rw [layoutLength_of_isSpacing hd, countWhile, if_pos hd]
        have hne : layoutLength (Cursor.mk (k + 1) (d :: cs)).rest ≠ 0 := by
          rw [layoutLength_of_isSpacing hd]
          exact Nat.succ_ne_zero _
        rw [← Cursor.skip_advance hne]
        simp only [hrest, Cursor.advance, Nat.add_assoc, Nat.add_comm 1]
      · rw [countWhile, if_neg hd]
        rfl

theorem countWhile_line {body : List Char} (hb : '\n' ∉ body) (r : List Char) :
    countWhile (· != '\n') (body ++ '\n' :: r) = body.length := by
  refine countWhile_append (fun c hc => ?_) ?_
  · rw [bne_iff_ne]
    rintro rfl
    exact hb hc
  · rintro _ ⟨⟩
    rfl

theorem Gap.skip {g : List Char} (h : Gap g) (k : Nat) (r : List Char) :
    (Cursor.mk k (g ++ r)).skip = (Cursor.mk (k + g.length) r).skip := by
  induction h generalizing k with
  | nil => rfl
  | @blank c g hc _ ih =>
      rw [List.cons_append, Cursor.skip_blank hc, ih, List.length_cons]
      congr 2
      omega
  | @line body g hb _ ih =>
      have hlen : layoutLength ('/' :: '/' :: body ++ '\n' :: (g ++ r)) = ('/' :: '/' :: body).length := by
        rw [List.cons_append, List.cons_append, layoutLength, countWhile_line hb]
        rfl
      have hskip := Cursor.skip_append hlen (List.cons_ne_nil _ _) k
      rw [Cursor.skip_blank (by decide), ih] at hskip
      simp only [List.cons_append, List.append_assoc, List.length_cons, List.length_append] at hskip ⊢
      rw [hskip]
      congr 2
      omega
  | @block body g hb _ ih =>
      have hlen : layoutLength ('/' :: '*' :: body ++ (g ++ r)) = ('/' :: '*' :: body).length := by
        rw [List.cons_append, List.cons_append, layoutLength_block, blockRest_append hb]
        rfl
      have hskip := Cursor.skip_append hlen (List.cons_ne_nil _ _) k
      rw [ih] at hskip
      simp only [List.cons_append, List.append_assoc, List.length_cons, List.length_append] at hskip ⊢
      rw [hskip]
      congr 2
      omega

theorem LaysOut.blank {apart : Bool} {ws : List (List Char)} {r : List Char} (h : LaysOut apart ws r) :
    LaysOut true ws (' ' :: r) := by
  cases h with
  | done hg => exact .done (.blank (by decide) hg)
  | word hg _ h => exact .word (.blank (by decide) hg) (fun _ => List.cons_ne_nil _ _) h

theorem LaysOut.cons {w r : List Char} {ws : List (List Char)} (h : LaysOut true ws r) :
    LaysOut false (w :: ws) (w ++ r) := .word .nil (fun hn => absurd hn Bool.false_ne_true) h

theorem laysOut_intercalate (ws : List (List Char)) : LaysOut false ws (List.intercalate [' '] ws) := by
  induction ws with
  | nil => exact .done .nil
  | cons w ws ih =>
      cases ws with
      | nil =>
          have h : LaysOut false [w] (w ++ []) := .cons (.done .nil)
          rw [List.append_nil] at h
          rwa [List.intercalate_singleton]
      | cons v ws =>
          rw [List.intercalate_cons_cons, List.append_assoc]
          exact ih.blank.cons

theorem Cursor.skip_of_head {c : Cursor} (h : ∃ x ∈ c.rest.head?, x ∉ layoutStarts) : c.skip = c :=
  skip_of_layoutLength_eq_zero (layoutLength_of_leads h)

theorem LaysOut.skip_nil {apart : Bool} {r : List Char} (h : LaysOut apart [] r) (k : Nat) :
    (Cursor.mk k r).skip.rest = [] := by
  cases h with
  | done hg =>
      have hs := hg.skip k []
      rw [List.append_nil] at hs
      rw [hs, Cursor.skip_of_layoutLength_eq_zero layoutLength_nil]

theorem LaysOut.skip_cons {apart : Bool} {w r : List Char} {ws : List (List Char)} (h : LaysOut apart (w :: ws) r)
    (hu : IsUnit w) (hne : w ≠ []) (k : Nat) : ∃ s, (Cursor.mk k r).skip.rest = w ++ s ∧ LaysOut true ws s := by
  cases h with
  | @word _ g _ r _ hg _ h =>
      obtain ⟨x, hx, hl⟩ := hu.head hne
      have hhead : ∃ x ∈ (w ++ r).head?, x ∉ layoutStarts :=
        ⟨x, by rw [List.head?_append, Option.mem_def.mp hx]; rfl, hl⟩
      rw [hg.skip, Cursor.skip_of_head hhead]
      exact ⟨r, rfl, h⟩

end Gaps

end ProtoBundle.Source
