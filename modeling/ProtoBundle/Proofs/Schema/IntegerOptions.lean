import ProtoBundle.Proofs.Schema.Declarations

namespace ProtoBundle

open Number (WritesInteger IsOverlong readInteger withoutSign)
open Source (Terminal Lexeme Cursor EndsNumber)
open Source.Grammar (refuses_word refuses_nil prefers_terminal prefers_many)

variable {base : Nat} {w : List Char} {v : Int}

section Constants

theorem Source.Lexeme.integer_of_writesInteger (h : WritesInteger base w v) {l : Lexeme}
    (hl : l.text = String.ofList w) (construct : Source.Construct) :
    (¬IsOverlong base w → l.integer construct = .ok v) ∧
      (IsOverlong base w → l.integer construct = .error (.literalTooLong construct (withoutSign w).length)) := by
  obtain ⟨hok, herror⟩ := h.readInteger_eq
  rw [integer, hl, String.toList_ofList]
  exact ⟨fun hs => by rw [hok hs], fun hs => by rw [herror hs]⟩

theorem Source.Rules.run_constant (h : WritesInteger base w v) (self : Cursor → Source.Reading Source.Message)
    {c : Cursor} {rest : List Char} (hc : c.skip.rest = w ++ rest) (hr : EndsNumber rest) :
    constant.run self c = [(.integer ⟨String.ofList w, c.skip.offset⟩, c.skip.advance w.length)] := by
  have hnone := h.length_eq_none hr
  have hother : ∀ t ∈ [Terminal.float, .special, .quoted, .dottedName], t.read c = none := by
    intro t ht
    rw [Terminal.read, hc, hnone t ht]
  have hinteger : Terminal.signedInteger.read c =
      some (⟨String.ofList w, c.skip.offset⟩, c.skip.advance w.length) := by
    simp only [Terminal.read, hc, h.length_signedInteger hr, List.take_left]
  simp only [constant, Grammar.run, hother .float (by simp), hother .special (by simp), hother .quoted (by simp),
    hother .dottedName (by simp), hinteger]
  rfl

/-- A word that closes a statement may stand behind the integer without a gap. -/
theorem Source.Rules.prefers_integer (h : WritesInteger base w v) (us : List (List Char)) :
    constant.Prefers ((w ++ ";".toList) :: us) (";".toList :: us)
      fun c => ∃ l, c = .integer l ∧ l.text = String.ofList w := by
  intro c hc
  have hlex : IsLexeme w := ⟨.signedInteger, trivial, Number.length_signedInteger_iff.mpr ⟨base, v, h⟩⟩
  have hunit : IsUnit (w ++ ";".toList) := by
    rcases hlex.isUnit with hw | hw
    · exact .inl (List.forall_mem_append.mpr ⟨hw, List.forall_mem_singleton.mpr (by decide)⟩)
    · have hnone := h.length_eq_none endsNumber_nil .quoted (by simp)
      rw [List.append_nil, Terminal.length, hw] at hnone
      cases hnone
  obtain ⟨s, hs, hl⟩ := LaysOut.skip_cons hc hunit (by simp) c.offset
  rw [List.append_assoc] at hs
  have hends : EndsNumber (";".toList ++ s) := by
    rintro _ ⟨⟩
    exact ⟨rfl, by decide⟩
  have hrun := run_constant h messages hs hends
  refine ⟨_, _, by rw [hrun]; rfl, ⟨_, rfl, rfl⟩, ?_⟩
  rw [Cursor.Before, Cursor.advance, hs, List.drop_left]
  exact hl.cons

end Constants

section Statements

def Schema.optionWords (name : String) (w : List Char) : List (List Char) :=
  ["option".toList, name.toList, "=".toList, w ++ ";".toList]

variable {name : String}

theorem Schema.prefers_option (h : WritesInteger base w v) (hn : Terminal.optionName.Takes name.toList)
    (us : List (List Char)) :
    Source.Rules.statement.Prefers (optionWords name w ++ us) us
      fun i => ∃ n l, i = .option ⟨n, .integer l⟩ ∧ n.text = name ∧ l.text = String.ofList w := by
  have hsetting : Source.Rules.setting.Prefers (name.toList :: "=".toList :: (w ++ ";".toList) :: us)
      (";".toList :: us) fun s => ∃ l, s.value = .integer l ∧ s.name.text = name ∧ l.text = String.ofList w := by
    refine (((prefers_terminal hn trivial _).before (by decide)).both (Source.Rules.prefers_integer h us)).map ?_
    rintro ⟨n, c⟩ ⟨hname, l, rfl, hl⟩
    exact ⟨l, rfl, hname.trans String.ofList_toList, hl⟩
  have hread := hsetting.between (v := "option") (w := ";") (by decide) (by decide)
  refine (((hread.map ?_).left.right ?_).right ?_).right ?_
  · rintro ⟨n, c⟩ ⟨l, rfl, hname, hl⟩
    exact ⟨n, l, rfl, hname, hl⟩
  all_goals exact refuses_word (by decide) _

theorem Schema.prefers_optionWords (h : WritesInteger base w v) (hn : Terminal.optionName.Takes name.toList) :
    Source.Rules.file.Prefers (optionWords name w) []
      fun f => ∃ n l, f.statements = [.option ⟨n, .integer l⟩] ∧ n.text = name ∧ l.text = String.ofList w := by
  have hitem : ∀ x ∈ [()], ∀ us, Source.Rules.statement.Prefers (optionWords name w ++ us) us
      fun i => ∃ n l, i = .option ⟨n, .integer l⟩ ∧ n.text = name ∧ l.text = String.ofList w :=
    fun _ _ us => prefers_option h hn us
  have hend : Source.Rules.statement.Refuses [] := refuses_nil (by decide) rfl
  refine (prefers_many (by decide) rfl hitem hend).map fun l hl => ?_
  cases hl with
  | cons hstatement hrest =>
      cases hrest
      obtain ⟨n, l, rfl, hname, htext⟩ := hstatement
      exact ⟨n, l, rfl, hname, htext⟩

def Schema.ofOption (file : Option String) (name : String) (value : Value) : Schema where
  package := none
  dialect := none
  file := file
  options := [(name, value)]
  messages := []
  enums := []
  services := []
  imports := []

theorem Schema.ofText_option (h : WritesInteger base w v) (hn : Terminal.optionName.Takes name.toList)
    (file : Option String) {text : String} (ht : Source.LaysOut false (optionWords name w) text.toList) :
    (¬IsOverlong base w → ofText file text = .ok (ofOption file name (.integer v))) ∧
      (IsOverlong base w →
        ofText file text = .error (.literalTooLong .integerConstant (withoutSign w).length)) := by
  obtain ⟨f, hf, n, l, hstatements, rfl, hl⟩ := Source.complete_of_prefers (prefers_optionWords h hn) ht
  have hread : ofText file text = (Options.entry ⟨n, .integer l⟩).map fun e => ofParts file [.option e] := by
    rw [ofText, Source.parse, hf]
    simp only [ofSource, hstatements, List.mapM_cons, List.mapM_nil, part]
    cases Options.entry ⟨n, .integer l⟩ <;> rfl
  obtain ⟨hok, herror⟩ := Source.Lexeme.integer_of_writesInteger h hl .integerConstant
  rw [hread, Options.entry, Value.ofConstant]
  constructor
  · intro hs
    rw [hok hs]
    rfl
  · intro hs
    rw [herror hs]
    rfl

end Statements

section Spellings

structure Schema.TakesInteger (base : Nat) (w : List Char) (v : Int) : Prop where
  whole : ∀ rest, EndsNumber rest → Terminal.signedInteger.length (w ++ rest) = some w.length
  alone : ∀ rest, EndsNumber rest → ∀ t ∈ Source.Rules.constant.firsts, t ≠ .signedInteger → t.length (w ++ rest) = none
  constant : ∀ self (c : Cursor) rest, c.skip.rest = w ++ rest → EndsNumber rest →
    Source.Rules.constant.run self c = [(.integer ⟨String.ofList w, c.skip.offset⟩, c.skip.advance w.length)]
  value : ¬IsOverlong base w → readInteger w = .ok v
  overlong : IsOverlong base w → readInteger w = .error ⟨(withoutSign w).length⟩
  denotes : ¬IsOverlong base w → ∀ offset, Value.ofConstant (.integer ⟨String.ofList w, offset⟩) = .ok (.integer v)
  option : ¬IsOverlong base w → ∀ file name text, Terminal.optionName.Takes name.toList →
    Source.LaysOut false (optionWords name w) text.toList → ofText file text = .ok (ofOption file name (.integer v))
  rejected : IsOverlong base w → ∀ file name text, Terminal.optionName.Takes name.toList →
    Source.LaysOut false (optionWords name w) text.toList →
      ofText file text = .error (.literalTooLong .integerConstant (withoutSign w).length)

theorem Schema.takesInteger_of_writesInteger :
    (∀ w, Terminal.signedInteger.Takes w ↔ ∃ base v, WritesInteger base w v) ∧
      ∀ base w v, WritesInteger base w v → TakesInteger base w v := by
  refine ⟨fun w => Number.length_signedInteger_iff, fun base w v h => ?_⟩
  refine ⟨fun rest hr => h.length_signedInteger hr, ?_, fun self c rest hc hr => Source.Rules.run_constant h self hc hr,
    h.readInteger_eq.1, h.readInteger_eq.2, ?_, fun hs file name text hn ht => (ofText_option h hn file ht).1 hs,
    fun hs file name text hn ht => (ofText_option h hn file ht).2 hs⟩
  · intro rest hr t ht hne
    refine h.length_eq_none hr t ?_
    have hfirsts : Source.Rules.constant.firsts = [.float, .special, .signedInteger, .quoted, .dottedName] := rfl
    simp only [hfirsts, List.mem_cons, List.not_mem_nil, or_false] at ht ⊢
    tauto
  · intro hs offset
    rw [Value.ofConstant, (Source.Lexeme.integer_of_writesInteger h rfl .integerConstant).1 hs]
    rfl

theorem Schema.takesInteger_hexadecimal : WritesInteger 16 "-0X01e5".toList (-485) ∧
    ofText none "option (a.b).c = -0X01e5;" = .ok (ofOption none "(a.b).c" (.integer (-485))) := by
  have hdigits : Number.Writes 16 "01e5".toList 485 := by
    have hd : List.Forall₂ (Number.IsDigitOf 16) "01e5".toList [0, 1, 14, 5] := by
      refine .cons ?_ (.cons ?_ (.cons ?_ (.cons ?_ .nil)))
      all_goals exact ⟨by decide, .inl rfl⟩
    exact ⟨_, hd, rfl⟩
  have hw : WritesInteger 16 "-0X01e5".toList (-485) := .minus (.hexadecimal (.inr rfl) (by decide) hdigits)
  refine ⟨hw, (takesInteger_of_writesInteger.2 16 _ _ hw).option (fun h => absurd h.1 (by decide)) _ _ _ (by decide) ?_⟩
  exact Source.laysOut_intercalate _

end Spellings

end ProtoBundle
