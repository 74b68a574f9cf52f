import ProtoBundle.Proofs.Source.Scanning
import ProtoBundle.Text.Place

/-!
A text cut into segments, each of them the match of an ignored pattern or of the pattern of a terminal. No
terminal starts like layout does, so that skipping layout in front of every lexeme finds all the cuts.
-/

namespace ProtoBundle.Source

open Pattern Text

def vocabulary : List String :=
  ["syntax", "package", "import", "option", "message", "enum", "service", "oneof", "map", "reserved", "extensions",
   "to", "rpc", "returns", "=", ";", ",", "\x7b", "\x7d", "<", ">", "[", "]", "(", ")"]

def Terminal.Listed : Terminal → Prop
  | .word w => w ∈ vocabulary
  | _ => True

def Pattern.Takes (p : Pattern) (front piece rest : List Char) : Prop :=
  (p.attempt some ⟨front.getLast?, piece ++ rest⟩).map Spot.rest = some rest

/-- What stands behind `front`, cut into segments to the end. Of an ignored segment nothing is kept, of a
lexeme its characters and where they start. -/
inductive Cut : (front rest : List Char) → List (Terminal × Lexeme) → Prop
  | done (front : List Char) : Cut front [] []
  | ignored {front piece rest : List Char} {ls : List (Terminal × Lexeme)} (i : Ignored)
      (hi : i.pattern.Takes front piece rest) (h : Cut (front ++ piece) rest ls) : Cut front (piece ++ rest) ls
  | terminal {front piece rest : List Char} {ls : List (Terminal × Lexeme)} (t : Terminal) (hl : t.Listed)
      (ht : t.pattern.Takes front piece rest) (h : Cut (front ++ piece) rest ls) :
      Cut front (piece ++ rest) ((t, ⟨String.ofList piece, front.length⟩) :: ls)

theorem Pattern.Finds.takes_iff {p : Pattern} {scan : Scan} (h : p.Finds scan) {front piece rest : List Char} :
    p.Takes front piece rest ↔ scan (piece ++ rest) = some piece.length := by
  unfold Takes
  rw [h.attempt_eq, Option.map_map]
  constructor
  · intro ht
    obtain ⟨n, hn, hr⟩ := Option.map_eq_some_iff.mp ht
    have hle := h.within _ n hn
    have hlen : (Spot.advance _ n).rest.length = rest.length := congrArg List.length hr
    rw [Spot.rest_advance, List.length_drop, List.length_append] at hlen
    rw [List.length_append] at hle
    rw [hn]
    congr 1
    omega
  · intro hs
    rw [hs, Option.map_some, Function.comp, Spot.rest_advance, List.drop_left]

section Leading

def layoutStarts : List Char := [' ', '\t', '\x0c', '\r', '\n', '/']

def Leads (scan : Scan) : Prop := ∀ cs, ∀ n ∈ scan cs, 0 < n ∧ ∃ c ∈ cs.head?, c ∉ layoutStarts

theorem layoutLength_of_leads {cs : List Char} (h : ∃ c ∈ cs.head?, c ∉ layoutStarts) : layoutLength cs = 0 := by
  obtain ⟨c, hc, hl⟩ := h
  obtain ⟨ds, rfl⟩ := List.head?_eq_some_iff.mp hc
  simp only [layoutStarts, List.mem_cons, List.not_mem_nil, or_false, not_or] at hl
  have hs : isSpacing c = false := by simp [isSpacing, hl]
  have hne : ∀ {d : Char} {es : List Char}, c :: ds ≠ '/' :: d :: es := fun he => hl.2.2.2.2.2 (List.cons.inj he).1
  rw [layoutLength_of_ne (fun _ => hne) (fun _ => hne), countWhile, hs]
  rfl

theorem not_mem_layoutStarts {p : Char → Bool} (hp : (layoutStarts.all fun c => !p c) = true) {c : Char}
    (hc : p c = true) : c ∉ layoutStarts := by
  intro hm
  have hn := List.all_eq_true.mp hp c hm
  rw [hc] at hn
  cases hn

def IsLeading (w : List Char) : Prop := (w.head?.any fun c => !layoutStarts.contains c) = true

instance (w : List Char) : Decidable (IsLeading w) := inferInstanceAs (Decidable (_ = true))

theorem leads_literal {w : List Char} (h : IsLeading w) : Leads (literal w) := by
  intro cs n hn
  obtain ⟨c, hc, hl⟩ := Option.any_eq_true _ _ |>.mp h
  obtain ⟨ds, rfl⟩ := List.head?_eq_some_iff.mp hc
  cases cs with
  | nil => cases hn
  | cons d cs =>
      rw [literal, Option.mem_def, Option.ite_none_right_eq_some] at hn
      obtain ⟨rfl, hn⟩ := hn
      obtain ⟨m, -, rfl⟩ := Option.map_eq_some_iff.mp hn
      exact ⟨Nat.succ_pos m, c, rfl, by simpa using hl⟩

theorem leads_wholeWord {w : List Char} (h : IsLeading w) : Leads (wholeWord w) := by
  intro cs n hn
  unfold wholeWord at hn
  split at hn
  · rename_i m hm
    rw [Option.mem_def, Option.ite_none_right_eq_some, Option.some.injEq] at hn
    exact hn.2 ▸ leads_literal h cs m hm
  · cases hn

theorem leads_firstOf {scan : List Char → Scan} {ws : List String} (h : ∀ w ∈ ws, Leads (scan w.toList)) :
    Leads (firstOf scan ws) := by
  intro cs n hn
  obtain ⟨w, hw, hs⟩ := List.exists_of_findSome?_eq_some hn
  exact h w hw cs n hs

theorem leads_identifier : Leads identifierLength := by
  intro cs n hn
  cases cs with
  | nil => cases hn
  | cons c cs =>
      rw [identifierLength_cons, Option.mem_def, Option.ite_none_right_eq_some, Option.some.injEq] at hn
      obtain ⟨hc, rfl⟩ := hn
      exact ⟨Nat.succ_pos _, c, rfl, not_mem_layoutStarts (by decide) hc⟩

theorem leads_dotted : Leads dottedLength := by
  intro cs n hn
  rw [dottedLength_eq] at hn
  obtain ⟨m, hm, rfl⟩ := Option.map_eq_some_iff.mp hn
  obtain ⟨h0, h⟩ := leads_identifier cs m hm
  exact ⟨Nat.add_pos_left h0 _, h⟩

theorem leads_undottedType : Leads undottedTypeLength := by
  intro cs n hn
  rw [Option.mem_def, undottedTypeLength, Option.ite_none_left_eq_some] at hn
  exact leads_dotted cs n hn.2

theorem leads_typeName : Leads typeLength := by
  intro cs n hn
  unfold typeLength at hn
  split at hn
  · obtain ⟨m, -, rfl⟩ := Option.map_eq_some_iff.mp hn
    exact ⟨Nat.succ_pos m, '.', rfl, by decide⟩
  · exact leads_undottedType _ n hn

theorem leads_optionName : Leads optionNameLength := by
  intro cs n hn
  unfold optionNameLength at hn
  split at hn
  · split at hn
    · cases hn
      exact ⟨Nat.add_pos_left (Nat.succ_pos _) _, '(', rfl, by decide⟩
    · cases hn
  · exact leads_dotted _ n hn

theorem leads_integer : Leads integerLength := by
  intro cs n hn
  unfold integerLength at hn
  split at hn
  · cases hn
  · split at hn
    · split at hn <;> cases hn <;> exact ⟨Nat.succ_pos _, '0', rfl, by decide⟩
    · cases hn
      exact ⟨Nat.succ_pos _, '0', rfl, by decide⟩
  · rename_i c cs _
    rw [Option.mem_def, Option.ite_none_right_eq_some, Option.some.injEq] at hn
    obtain ⟨hc, rfl⟩ := hn
    exact ⟨Nat.succ_pos _, c, rfl, not_mem_layoutStarts (by decide) hc⟩

theorem leads_signed {scan : Scan} (h : Leads scan) : Leads (signed scan) := by
  intro cs n hn
  cases cs with
  | nil => cases hn
  | cons c cs =>
      rw [signed] at hn
      split at hn
      · rename_i hc
        obtain ⟨m, -, rfl⟩ := Option.map_eq_some_iff.mp hn
        exact ⟨Nat.succ_pos m, c, rfl, not_mem_layoutStarts (by decide) hc⟩
      · exact h _ n hn

theorem head_float {cs : List Char} {n : Nat} (hn : n ∈ unsignedFloatLength cs) :
    0 < n ∧ ∃ c ∈ cs.head?, isDigit c = true ∨ c = '.' := by
  have hdigit : 0 < countWhile isDigit cs → ∃ c ∈ cs.head?, isDigit c = true ∨ c = '.' := by
    intro hw
    obtain ⟨c, ds, rfl, hc⟩ := head_of_countWhile_pos hw
    exact ⟨c, rfl, .inl hc⟩
  by_cases hr : (cs.drop (countWhile isDigit cs)).head? = some '.'
  · obtain ⟨fraction, hf⟩ := List.head?_eq_some_iff.mp hr
    rw [unsignedFloatLength_dot hf, Option.mem_def, Option.ite_none_right_eq_some, Option.some.injEq] at hn
    obtain ⟨-, rfl⟩ := hn
    refine ⟨by omega, ?_⟩
    by_cases hw : 0 < countWhile isDigit cs
    · exact hdigit hw
    · rw [Nat.eq_zero_of_not_pos hw, List.drop_zero] at hf
      exact ⟨'.', by rw [hf]; rfl, .inr rfl⟩
  · rw [unsignedFloatLength_of_head hr, Option.mem_def, Option.ite_none_right_eq_some] at hn
    obtain ⟨hw, hn⟩ := hn
    obtain ⟨m, -, rfl⟩ := Option.map_eq_some_iff.mp hn
    exact ⟨Nat.add_pos_left hw m, hdigit hw⟩

theorem leads_float : Leads unsignedFloatLength := by
  intro cs n hn
  obtain ⟨h0, c, hc, hd⟩ := head_float hn
  refine ⟨h0, c, hc, ?_⟩
  rcases hd with hd | rfl
  · exact not_mem_layoutStarts (by decide) hd
  · decide

theorem leads_quoted : Leads quotedLength := by
  intro cs n hn
  cases cs with
  | nil => cases hn
  | cons c cs =>
      rw [quotedLength, Option.mem_def, Option.ite_none_right_eq_some] at hn
      obtain ⟨hc, hn⟩ := hn
      obtain ⟨m, -, rfl⟩ := Option.map_eq_some_iff.mp hn
      refine ⟨Nat.succ_pos m, c, rfl, ?_⟩
      rcases hc with rfl | rfl <;> decide

theorem leads_special : Leads (Terminal.length .special) := by
  intro cs n hn
  cases cs with
  | nil => cases hn
  | cons c cs =>
      rw [Terminal.length, Option.mem_def, Option.ite_none_right_eq_some] at hn
      obtain ⟨hc, hn⟩ := hn
      obtain ⟨m, -, rfl⟩ := Option.map_eq_some_iff.mp hn
      exact ⟨Nat.succ_pos m, c, rfl, not_mem_layoutStarts (by decide) hc⟩

theorem Terminal.leads {t : Terminal} (h : t.Listed) : Leads t.length := by
  cases t with
  | word w =>
      have hv : ∀ v ∈ vocabulary, IsLeading v.toList := by decide
      exact leads_literal (hv w h)
  | label =>
      have hv : ∀ v ∈ ["required", "optional", "repeated"], IsLeading v.toList := by decide
      exact leads_firstOf fun v hm => leads_wholeWord (hv v hm)
  | stream => exact leads_wholeWord (by decide)
  | importKind =>
      have hv : ∀ v ∈ ["public", "weak"], IsLeading v.toList := by decide
      exact leads_firstOf fun v hm => leads_literal (hv v hm)
  | maximum => exact leads_literal (by decide)
  | special => exact leads_special
  | identifier => exact leads_identifier
  | dottedName => exact leads_dotted
  | typeName => exact leads_typeName
  | optionName => exact leads_optionName
  | integer => exact leads_integer
  | signedInteger => exact leads_signed leads_integer
  | float => exact leads_signed leads_float
  | quoted => exact leads_quoted

end Leading

end ProtoBundle.Source
