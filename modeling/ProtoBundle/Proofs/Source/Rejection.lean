import ProtoBundle.Proofs.Source.Acceptance
import ProtoBundle.Proofs.Source.Pursuit
import ProtoBundle.Schema.OfSource

/-!
Where a text is rejected. The character to blame stands at the furthest place to which the text can be followed, or
behind it, as far as pieces of layout jump over places where nothing is read. Without a character the whole text can
be followed, and something is missing behind it.
-/

namespace ProtoBundle.Source

variable {text : List Char}

/-- The characters in front of a place can be cut into layout and lexemes that begin a file. -/
def IsFollowed (text : List Char) (place : Nat) : Prop :=
  place ≤ text.length ∧ ∃ ls, CutTo (text.drop place) [] text ls ∧ IsViable fileLanguage ls

section Places

theorem skip_eq_advance {ls : List (Terminal × Lexeme)} {d : Cursor} (h : Spans (.start text) ls d) :
    d.skip.offset ≤ text.length ∧ d.skip.rest = text.drop d.skip.offset := by
  obtain ⟨n, hn, hd⟩ := h.reaches.trans d.reaches_skip
  rw [hd]
  simpa [Cursor.start, Cursor.advance] using hn

theorem isFollowed_reach (text : List Char) : IsFollowed text (reach text) := by
  obtain ⟨ls, d, hv, hs, hr⟩ := attained_reach text
  obtain ⟨hle, hrest⟩ := skip_eq_advance hs
  refine ⟨hr ▸ hle, ls, ?_, hv⟩
  rw [hr, ← hrest]
  exact CutTo.of_spans hs rfl

theorem IsFollowed.le_reach {place : Nat} (h : IsFollowed text place) : place ≤ reach text := by
  obtain ⟨hle, ls, hc, hv⟩ := h
  obtain ⟨d, k, hs, hd, hk⟩ := hc.spans
  have hp : k = place := by
    rw [List.length_drop, List.length_nil] at hk
    omega
  calc place = (Cursor.mk k (text.drop place)).offset := hp.symm
    _ ≤ d.skip.offset := hd ▸ (Cursor.reaches_skip _).offset_le
    _ ≤ reach text := offset_skip_le_reach hv hs

end Places

section Stopping

def IsJumped (text : List Char) (place : Nat) : Prop := ∃ p < place, place < p + layoutLength (text.drop p)

/-- The stopping place is the first one behind `reach` that is not jumped over. -/
structure StopsAt (text : List Char) (reach stop : Nat) : Prop where
  behind : reach < stop
  within : stop ≤ text.length
  jumped : ∀ p, reach < p → p < stop → IsJumped text p
  first : stop < text.length → ¬IsJumped text stop

theorem stopsAt_stoppingPlace {reach place pending : Nat} (rest : List Char) (hplace : place ≤ text.length)
    (hrest : rest = text.drop place) (hreach : reach < text.length)
    (hpending : ∀ p, place ≤ p → (p < pending ↔ ∃ q < place, p < q + layoutLength (text.drop q)))
    (hjumped : ∀ p, reach < p → p < place → IsJumped text p) :
    StopsAt text reach (stoppingPlace reach place pending rest) := by
  induction rest generalizing place pending with
  | nil =>
      have hend : text.length ≤ place := List.drop_eq_nil_iff.mp hrest.symm
      exact ⟨Nat.lt_of_lt_of_le hreach hend, hplace, hjumped, fun h => absurd hend (Nat.not_le_of_lt h)⟩
  | cons c cs ih =>
      have hlt : place < text.length := by
        by_contra hle
        rw [List.drop_eq_nil_iff.mpr (Nat.le_of_not_lt hle)] at hrest
        cases hrest
      rw [stoppingPlace]
      split
      · rename_i h
        exact ⟨h.1, hplace, hjumped, fun _ hj => Nat.not_lt.mpr h.2 ((hpending place (Nat.le_refl _)).mpr hj)⟩
      · rename_i h
        refine ih hlt ?_ ?_ ?_
        · rw [← List.tail_drop, ← hrest, List.tail_cons]
        · intro p hp
          rw [lt_max_iff, hpending p (by omega), hrest]
          constructor
          · rintro (⟨q, hq, hl⟩ | hl)
            · exact ⟨q, by omega, hl⟩
            · exact ⟨place, by omega, hl⟩
          · rintro ⟨q, hq, hl⟩
            rcases Nat.lt_succ_iff_lt_or_eq.mp hq with hq | rfl
            · exact .inl ⟨q, hq, hl⟩
            · exact .inr hl
        · intro p hr hp
          rcases Nat.lt_succ_iff_lt_or_eq.mp hp with hp | rfl
          · exact hjumped p hr hp
          · by_cases hpend : p < pending
            · exact (hpending p (Nat.le_refl _)).mp hpend
            · exact absurd ⟨hr, Nat.le_of_not_lt hpend⟩ h

end Stopping

section Faults

/-- The character is the last one in front of the place where reading stops, and nothing behind it is followed. -/
structure Blames (text : List Char) (k : Nat) : Prop where
  within : k < text.length
  not_followed : ∀ place, k < place → ¬IsFollowed text place
  stops : ∃ m ≤ k, IsFollowed text m ∧ StopsAt text m (k + 1)

theorem StopsAt.blames {stop : Nat} (h : StopsAt text (reach text) stop) : Blames text (stop - 1) := by
  have hstop : stop - 1 + 1 = stop := Nat.sub_add_cancel (Nat.one_le_of_lt h.behind)
  refine ⟨?_, ?_, reach text, ?_, isFollowed_reach text, ?_⟩
  · exact Nat.lt_of_lt_of_le (Nat.sub_one_lt_of_lt h.behind) h.within
  · intro place hp hf
    have hle := hf.le_reach
    have hb := h.behind
    omega
  · exact Nat.le_sub_one_of_lt h.behind
  · rwa [hstop]

theorem faultOf_cases (text : List Char) :
    (∃ k c, Blames text k ∧ text[k]? = some c ∧ faultOf text = .character c (Text.placeAt text k)) ∨
      faultOf text = .endOfText ∧ IsFollowed text text.length := by
  have hfollowed := isFollowed_reach text
  rcases Nat.lt_or_eq_of_le hfollowed.1 with hlt | heq
  · have hstop : StopsAt text (reach text) (stoppingPlace (reach text) 0 0 text) :=
      stopsAt_stoppingPlace text (Nat.zero_le _) rfl hlt (by simp) (by simp)
    have hb := hstop.blames
    refine .inl ⟨_, text.get ⟨_, hb.within⟩, hb, List.getElem?_eq_getElem hb.within, ?_⟩
    simp only [faultOf, List.getElem?_eq_getElem hb.within, if_neg (Nat.ne_of_lt hlt), List.get_eq_getElem]
  · refine .inr ⟨?_, heq ▸ hfollowed⟩
    unfold faultOf
    dsimp only
    split
    · exact if_pos heq
    · rfl

theorem parse_eq_error {fault : ParseFault} (h : parse text = .error fault) :
    fault = faultOf text ∧ ¬∃ ls ∈ fileLanguage, Cut [] text ls := by
  constructor
  · unfold parse at h
    split at h
    · cases h
    · cases h
      rfl
  · rintro ⟨ls, ⟨ts, hl⟩, hc⟩
    obtain ⟨d, hs, hd⟩ := cut_iff.mp hc
    obtain ⟨f, hf⟩ := (reads_readings text).2 ls ts d hs hl
    obtain ⟨g, hg⟩ := exists_parse_eq_ok hf hd
    rw [h] at hg
    cases hg

end Faults

end ProtoBundle.Source

namespace ProtoBundle.Schema

open Source

theorem ofText_rejects {text : String} {fault : ParseFault} (h : parse text.toList = .error fault)
    (file : Option String) :
    ∃ message line column, ofText file text = .error (.malformed message file line column) ∧
      (¬∃ ls ∈ fileLanguage, Cut [] text.toList ls) ∧
      ((∃ k, Blames text.toList k ∧ line = some ((text.toList.take k).count '\n' + 1 : Nat) ∧
          column = some (((text.toList.take k).reverse.takeWhile (· != '\n')).length + 1 : Nat)) ∨
        line = none ∧ column = none ∧ IsFollowed text.toList text.toList.length) := by
  obtain ⟨rfl, hsentence⟩ := parse_eq_error h
  have ho : ofText file text = .error (.ofParseFault file (faultOf text.toList)) := by
    unfold ofText
    rw [h]
  rcases faultOf_cases text.toList with ⟨k, c, hb, -, hf⟩ | ⟨hf, hfollowed⟩
  · rw [hf] at ho
    refine ⟨_, _, _, ho, hsentence, .inl ⟨k, hb, ?_, ?_⟩⟩
    · rw [Text.placeAt, Text.line_placeAfter]
      rfl
    · rw [Text.placeAt, column_placeAfter]
      rfl
  · rw [hf] at ho
    exact ⟨_, _, _, ho, hsentence, .inr ⟨rfl, rfl, hfollowed⟩⟩

/-- What looks like a comment inside of the quotes reaches as far as the first line does. -/
def jumping : String := "option a = \"http://x\" $ ;\n$"

theorem ofText_rejects_jumping : ∃ k, Blames jumping.toList k ∧ (jumping.toList.take k).count '\n' = 0 ∧
    ((jumping.toList.take k).reverse.takeWhile (· != '\n')).length = 24 := by
  have hp : parse jumping.toList = .error (.character ';' ⟨1, 25⟩) := by
    have hnone : (complete? jumping.toList).isNone = true := by decide +kernel
    have hfault : faultOf jumping.toList = .character ';' ⟨1, 25⟩ := by decide +kernel
    rw [parse, Option.isNone_iff_eq_none.mp hnone, hfault]
  obtain ⟨message, line, column, ho, -, hcase⟩ := ofText_rejects hp none
  have he : ofText none jumping = .error (.ofParseFault none (.character ';' ⟨1, 25⟩)) := by
    unfold ofText
    rw [hp]
  rw [he] at ho
  cases ho
  rcases hcase with ⟨k, hb, hline, hcolumn⟩ | ⟨hline, -⟩
  · have hl : (1 : Int) = _ := Option.some.inj hline
    have hc : (25 : Int) = _ := Option.some.inj hcolumn
    exact ⟨k, hb, by omega, by omega⟩
  · cases hline

end ProtoBundle.Schema
