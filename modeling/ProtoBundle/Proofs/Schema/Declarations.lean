import ProtoBundle.Proofs.Schema.Computations
import ProtoBundle.Proofs.Schema.Writable

namespace ProtoBundle

open Source (Terminal Lexeme)
open Source.Grammar (isSound_and_consumes refuses_cons refuses_word refuses_terminal prefers_terminal)

section Constants

theorem Source.Lexeme.integer_signedDecimal {l : Lexeme} {i : Int}
    (hl : l.text = String.ofList (Number.signedDecimal i)) (hi : Number.fits i = true)
    (construct : Source.Construct) : l.integer construct = .ok i := by
  rw [integer, hl, String.toList_ofList, Number.readInteger_signedDecimal hi]

theorem Source.Lexeme.unquoted_quote {l : Lexeme} {s : String} (hl : l.text = String.ofList (quote s.toList)) :
    l.unquoted = s := by
  rw [unquoted, hl, String.toList_ofList, unquote_quote, String.ofList_toList]

theorem Source.takes_natural {i : Int} (h : 0 ≤ i) : Terminal.integer.Takes (Number.signedDecimal i) := by
  cases i with
  | ofNat n => exact takes_integer n
  | negSucc n => exact absurd h (by omega)

theorem Value.prefers_word {v : Value} (hv : v.IsWritable) (us : List (List Char)) :
    Source.Rules.constant.Prefers (v.word :: us) us fun c => Value.ofConstant c = .ok v := by
  cases v with
  | integer i =>
      have hw := Source.takes_signedInteger i
      have hlex := hw.isLexeme trivial
      have hnone := Source.length_signedDecimal i
      have hfloat := (refuses_terminal hlex (hnone .float (by simp)) trivial us).map Source.Constant.float
      have hspecial := (refuses_terminal hlex (hnone .special (by simp)) trivial us).map Source.Constant.special
      refine .right (.right (.left (.map (prefers_terminal hw trivial us) fun l hl => ?_)) hspecial) hfloat
      rw [Value.ofConstant, Lexeme.integer_signedDecimal hl hv]
      rfl
  | float x => exact hv.elim
  | flag b =>
      have hw : Terminal.dottedName.Takes (Value.flag b).word := by cases b <;> decide
      have hlex := hw.isLexeme trivial
      refine .right (.right (.right (.right (.map (prefers_terminal hw trivial us) fun l hl => ?_) ?_) ?_) ?_) ?_
      · rw [Value.ofConstant, hl]
        cases b <;> rfl
      all_goals
        refine refuses_cons rfl rfl hlex ?_ us
        cases b <;> decide
  | text s =>
      have hw := Source.takes_quoted s.toList
      have hlex := hw.isLexeme trivial
      have hrefuses : ∀ t : Terminal, t.Listed → t ≠ .quoted → Source.Grammar.Refuses (.terminal t) (_ :: us) :=
        fun t ht hq => refuses_terminal hlex (Source.length_quote ht hq s.toList) ht us
      refine .right (.right (.right (.left (.map (prefers_terminal hw trivial us) fun l hl => ?_)) ?_) ?_) ?_
      · rw [Value.ofConstant, Lexeme.unquoted_quote hl]
      · exact (hrefuses .signedInteger trivial (by decide)).map _
      · exact (hrefuses .special trivial (by decide)).map _
      · exact (hrefuses .float trivial (by decide)).map _

end Constants

section Options

variable {e : String × Value} {o : Options}

theorem Options.prefers_entry (hn : Terminal.optionName.Takes e.1.toList) (hv : e.2.IsWritable)
    (us : List (List Char)) :
    Source.Rules.setting.Prefers (entryWords e ++ us) us fun s => Options.entry s = .ok e := by
  have hname := (prefers_terminal hn trivial ("=".toList :: e.2.word :: us)).before (by decide)
  refine (hname.both (Value.prefers_word hv us)).map fun r hr => ?_
  rw [Options.entry, hr.2, hr.1, String.ofList_toList]
  rfl

theorem Options.prefers_statement (hn : Terminal.optionName.Takes e.1.toList) (hv : e.2.IsWritable)
    (us : List (List Char)) :
    Source.Rules.optionStatement.Prefers (statementWords e ++ us) us fun s => Options.entry s = .ok e :=
  (Options.prefers_entry hn hv (";".toList :: us)).between (by decide) (by decide)

theorem Options.prefers_settings (ho : o.IsWritable) (us : List (List Char)) :
    (Source.Rules.settings.before ";").Prefers (settingWords o ++ ";".toList :: us) us
      fun s => Options.ofSettings s = .ok o := by
  refine Source.Grammar.Prefers.before ?_ (by decide)
  cases o with
  | nil =>
      have hnone : Source.Rules.settings.Prefers (";".toList :: us) (";".toList :: us) fun s => s = none :=
        (refuses_word (by decide) us).optional
      exact hnone.mono fun s hs => by rw [hs]; rfl
  | cons e es =>
      have hentries : ∀ f ∈ e :: es, ∀ us, Source.Rules.setting.Prefers (entryWords f ++ us) us
          fun s => Options.entry s = .ok f := fun f hf us => Options.prefers_entry (ho.names f hf) (ho.values f hf) us
      have hend : (Source.Grammar.after "," Source.Rules.setting).Refuses ("]".toList :: ";".toList :: us) :=
        refuses_word (by decide) _
      have hseparated := (Source.Grammar.prefers_separated (by decide) (by decide) hentries hend).between (v := "[")
        (by decide) (by decide)
      have hwords : settingWords (e :: es) ++ ";".toList :: us =
          "[".toList :: (entryWords e ++ es.flatMap (fun e => ",".toList :: entryWords e) ++
            "]".toList :: ";".toList :: us) := by
        simp only [settingWords, List.cons_append, List.append_assoc, List.nil_append]
      rw [hwords]
      refine hseparated.optional.mono fun s hs => ?_
      obtain ⟨l, rfl, hl⟩ := hs
      rw [Options.ofSettings, Option.getD_some, mapM_eq_ok_iff.mpr hl]
      exact congrArg Except.ok (Table.ofList_eq_self ho.distinct)

theorem prefers_numbered {α : Type} {g : Source.Rules.Rule α} {P : α → Prop} {t : Terminal} {ws us : List (List Char)}
    {number : Int} (hg : g.Prefers ws (numberWords number o ++ us) P) (hn : t.Takes (Number.signedDecimal number))
    (ht : t.Listed) (ho : o.IsWritable) :
    (Source.Rules.numbered g t).Prefers ws us fun r =>
      P r.1 ∧ r.2.1.text = String.ofList (Number.signedDecimal number) ∧ Options.ofSettings r.2.2 = .ok o := by
  have hwords : numberWords number o ++ us =
      "=".toList :: Number.signedDecimal number :: (Options.settingWords o ++ ";".toList :: us) := by
    simp only [numberWords, List.cons_append, List.append_assoc, List.nil_append]
  rw [hwords] at hg
  exact (hg.before (by decide)).both ((prefers_terminal hn ht _).both (Options.prefers_settings ho us))

end Options

section Fields

variable {f : Field}

theorem Field.IsWritable.takes_label (hf : f.IsWritable) (hk : f.keyType = none) :
    Terminal.label.Takes f.rule.toList := by
  have hmap : f.rule ≠ "map" := by
    rw [Ne, hf.keyed, hk]
    exact Bool.false_ne_true
  have hrule := hf.rule
  simp only [List.mem_cons, List.not_mem_nil, or_false] at hrule
  rcases hrule with h | h | h | h
  · rw [h]
    decide
  · rw [h]
    decide
  · rw [h]
    decide
  · exact absurd h hmap

theorem Field.prefers_words (hf : f.IsWritable) (hk : f.keyType = none) (ho : f.oneof = none)
    (us : List (List Char)) :
    Source.Rules.field.Prefers (f.words ++ us) us fun s => Field.ofSource s = .ok f := by
  have hlabel := (prefers_terminal (hf.takes_label hk) trivial
    (f.type.toList :: f.name.toList :: (numberWords f.number f.options ++ us))).optional
  have htype := prefers_terminal hf.type trivial (f.name.toList :: (numberWords f.number f.options ++ us))
  have hname := prefers_terminal hf.name trivial (numberWords f.number f.options ++ us)
  have hread := prefers_numbered (hlabel.both (htype.both hname)) (Source.takes_natural hf.natural) trivial hf.options
  have hwords : f.words ++ us =
      f.rule.toList :: f.type.toList :: f.name.toList :: (numberWords f.number f.options ++ us) := by
    rw [Field.words, hk]
    rfl
  rw [hwords]
  refine hread.map fun r hr => ?_
  obtain ⟨⟨⟨l, hl, hrule⟩, htype, hname⟩, hnumber, hoptions⟩ := hr
  simp only [Field.ofSource, hl, Option.map_some, Option.getD_some, hrule, htype, hname, String.ofList_toList,
    hoptions, Lexeme.integer_signedDecimal hnumber hf.short]
  cases f
  cases hk
  cases ho
  rfl

theorem Field.prefers_words_map (hf : f.IsWritable) {key : String} (hk : f.keyType = some key)
    (us : List (List Char)) :
    Source.Rules.mapField.Prefers (f.words ++ us) us fun s => Field.ofMap s = .ok f := by
  have hrule : f.rule = "map" := hf.keyed.mpr (by rw [hk]; rfl)
  have ho : f.oneof = none := by
    refine Option.not_isSome_iff_eq_none.mp fun ho => ?_
    exact absurd (hrule.symm.trans (hf.single ho)) (by decide)
  have hkey := (prefers_terminal (hf.key key hk) trivial
    (",".toList :: f.type.toList :: ">".toList :: f.name.toList :: (numberWords f.number f.options ++ us))).before
      (by decide)
  have htype := prefers_terminal hf.type trivial
    (">".toList :: f.name.toList :: (numberWords f.number f.options ++ us))
  have hname := prefers_terminal hf.name trivial (numberWords f.number f.options ++ us)
  have htypes := ((hkey.both htype).between (v := "<") (by decide) (by decide)).after (w := "map") (by decide)
  have hread := prefers_numbered (htypes.both hname) (Source.takes_natural hf.natural) trivial hf.options
  have hwords : f.words ++ us = "map".toList :: "<".toList :: key.toList :: ",".toList :: f.type.toList ::
      ">".toList :: f.name.toList :: (numberWords f.number f.options ++ us) := by
    rw [Field.words, hk]
    rfl
  rw [hwords]
  refine hread.map fun r hr => ?_
  obtain ⟨⟨⟨hkey, htype⟩, hname⟩, hnumber, hoptions⟩ := hr
  simp only [Field.ofMap, hkey, htype, hname, String.ofList_toList, hoptions,
    Lexeme.integer_signedDecimal hnumber hf.short]
  cases f
  cases hk
  cases ho
  cases hrule
  rfl

theorem Field.prefers_bareWords (hf : f.IsWritable) {oneof : String} (ho : f.oneof = some oneof)
    (us : List (List Char)) :
    Source.Rules.oneofItem.Prefers (f.bareWords ++ us) us fun s => Field.ofOneofItem oneof s = .ok (some f) := by
  have hrule : f.rule = "optional" := hf.single (by rw [ho]; rfl)
  have hk : f.keyType = none := by
    refine Option.not_isSome_iff_eq_none.mp fun hk => ?_
    exact absurd (hrule.symm.trans (hf.keyed.mpr hk)) (by decide)
  have htype := prefers_terminal hf.type trivial (f.name.toList :: (numberWords f.number f.options ++ us))
  have hname := prefers_terminal hf.name trivial (numberWords f.number f.options ++ us)
  have hread := prefers_numbered (htype.both hname) (Source.takes_natural hf.natural) trivial hf.options
  have hfield : Source.Rules.oneofField.Prefers (f.bareWords ++ us) us fun s => Field.ofOneof oneof s = .ok f := by
    refine hread.map fun r hr => ?_
    obtain ⟨⟨htype, hname⟩, hnumber, hoptions⟩ := hr
    simp only [Field.ofOneof, htype, hname, String.ofList_toList, hoptions,
      Lexeme.integer_signedDecimal hnumber hf.short]
    cases f
    cases hk
    cases ho
    cases hrule
    rfl
  refine (hfield.map fun s hs => ?_).left
  rw [Field.ofOneofItem, hs]
  rfl

end Fields

section Blocks

theorem prefers_block {α γ : Type} (opening : String) {name : String} {item : Source.Rules.Rule α} {xs : List γ}
    {words : γ → List (List Char)} {P : γ → α → Prop} (hopening : Source.vocabulary.contains opening = true)
    (hname : Terminal.identifier.Takes name.toList) (hend : item.avoids "\x7d" = true)
    (h : ∀ x ∈ xs, ∀ us, item.Prefers (words x ++ us) us (P x)) (us : List (List Char)) :
    (Source.Rules.block opening item).Prefers (blockWords opening name (xs.flatMap words) ++ us) us fun r =>
      r.1.text = name ∧ List.Forall₂ (fun v x => P x v) r.2 xs := by
  obtain ⟨hs, hc⟩ := isSound_and_consumes hend
  have hitems := (Source.Grammar.prefers_many hs hc h (refuses_word hend us)).between (v := "\x7b") (by decide) (by decide)
  have hblock := ((prefers_terminal hname trivial _).both hitems).after hopening
  have hwords : blockWords opening name (xs.flatMap words) ++ us = opening.toList :: name.toList ::
      "\x7b".toList :: (xs.flatMap words ++ "\x7d".toList :: us) := by
    simp only [blockWords, List.cons_append, List.append_assoc, List.nil_append]
  rw [hwords]
  refine hblock.mono fun r hr => ⟨?_, hr.2⟩
  rw [hr.1, String.ofList_toList]

end Blocks

section Enums

theorem EnumValue.prefers_words {v : EnumValue} (hv : v.IsWritable) (us : List (List Char)) :
    Source.Rules.enumValue.Prefers (v.words ++ us) us fun s => Enum.readValue s = .ok v := by
  have hname := prefers_terminal hv.name trivial (numberWords v.number v.options ++ us)
  have hread := prefers_numbered hname (Source.takes_signedInteger v.number) trivial hv.options
  refine hread.map fun r hr => ?_
  obtain ⟨hname, hnumber, hoptions⟩ := hr
  simp only [Enum.readValue, hname, String.ofList_toList, hoptions, Lexeme.integer_signedDecimal hnumber hv.short]
  rfl

theorem length_equals_of_optionName {w : List Char} (h : Terminal.optionName.Takes w) :
    (Terminal.word "=").length w = none := by
  cases w with
  | nil => rfl
  | cons c cs =>
      refine if_neg ?_
      rintro rfl
      cases h

/-- An option is no value with the name `option`, since no equals sign follows this word. -/
theorem Options.enumValue_refuses {e : String × Value} (hn : Terminal.optionName.Takes e.1.toList)
    (us : List (List Char)) : Source.Rules.enumValue.Refuses (statementWords e ++ us) := by
  have hequals := (refuses_terminal (hn.isLexeme trivial) (length_equals_of_optionName hn)
    (Source.Terminal.listed_of_isListed (by decide)) ("=".toList :: e.2.word :: ";".toList :: us)).map fun _ => ()
  have hword : Terminal.identifier.Takes "option".toList := by decide
  exact (((hequals.behind hword trivial).map Prod.fst).both _).map _

theorem Enum.prefers_part {e : Enum} (he : e.IsWritable) :
    ∀ p ∈ e.parts, ∀ us, Source.Rules.enumItem.Prefers (p.words ++ us) us fun i => Enum.part i = .ok p := by
  intro p hp us
  rcases List.mem_append.mp hp with hp | hp
  · obtain ⟨v, hv, rfl⟩ := List.mem_map.mp hp
    refine ((EnumValue.prefers_words (he.values v hv) us).map fun s hs => ?_).left
    rw [Enum.part, hs]
    rfl
  · obtain ⟨o, ho, rfl⟩ := List.mem_map.mp hp
    have hn := he.options.names o ho
    refine (((Options.prefers_statement hn (he.options.values o ho) us).map fun s hs => ?_).left).right
      ((Options.enumValue_refuses hn us).map _)
    rw [Enum.part, hs]
    rfl

theorem Enum.prefers_words {e : Enum} (he : e.IsWritable) (us : List (List Char)) :
    Source.Rules.enum.Prefers (e.words ++ us) us fun s => Enum.ofSource s = .ok e := by
  have hblock := prefers_block "enum" (by decide) he.name (by decide) (Enum.prefers_part he) us
  refine hblock.map fun r hr => ?_
  rw [Enum.ofSource, mapM_eq_ok_iff.mpr hr.2, hr.1]
  exact congrArg Except.ok (Enum.ofParts_parts he.options.distinct)

end Enums

section Messages

theorem Message.prefers_rangeWords {first last : Int} (hf : 0 ≤ first) (hl : 0 ≤ last)
    (hfs : Number.fits first = true) (hls : Number.fits last = true) (us : List (List Char)) :
    Source.Rules.extensions.Prefers (rangeWords [first, last] ++ us) us
      fun s => readExtensions s = .ok (.extensions [first, last]) := by
  have hfirst := prefers_terminal (Source.takes_natural hf) trivial
    ("to".toList :: Number.signedDecimal last :: ";".toList :: us)
  have hnumber := (prefers_terminal (Source.takes_natural hl) trivial (";".toList :: us)).map
    (Q := fun s => readRangeEnd first (some s) = .ok last) (f := Source.RangeEnd.number)
    fun l h => Lexeme.integer_signedDecimal h hls _
  have hlast := (hnumber.left (b := .map .maximum (.terminal .maximum))).after (w := "to") (by decide)
  have hrange := (hfirst.both hlast.optional).map (f := fun r => Source.IdRange.mk r.1 r.2)
    (Q := fun s => readRange s = .ok [first, last]) (by
      rintro r ⟨h, s, hs, hl⟩
      simp only [readRange, Lexeme.integer_signedDecimal h hfs, hs]
      exact congrArg (· >>= fun last => Except.ok [first, last]) hl)
  have hsettings : Source.Rules.settings.Prefers (";".toList :: us) (";".toList :: us) fun s => s = none :=
    (refuses_word (by decide) us).optional
  have hread := (hrange.both hsettings).between (v := "extensions") (w := ";") (by decide) (by decide)
  refine hread.map fun r hr => ?_
  simp only [readExtensions, hr.1, hr.2]
  rfl

theorem Field.prefers_item {f : Field} (hf : f.IsWritable) (ho : f.oneof = none) (us : List (List Char)) :
    Source.Rules.messageItem.Prefers (f.words ++ us) us fun i => Message.part i = .ok (.field f) := by
  cases hk : f.keyType with
  | none =>
      refine ((Field.prefers_words hf hk ho us).map fun s hs => ?_).left
      rw [Message.part, hs]
      rfl
  | some key =>
      have hrefuses : Source.Rules.field.Refuses (f.words ++ us) := by
        rw [Field.words, hk]
        exact refuses_word (by decide) _
      refine ((Field.prefers_words_map hf hk us).map fun s hs => ?_).left.right (hrefuses.map _)
      rw [Message.part, hs]
      rfl

theorem Message.prefers_oneof {name : String} {fields : List Field} (hname : Terminal.identifier.Takes name.toList)
    (hf : ∀ f ∈ fields, f.IsWritable ∧ f.oneof = some name) (us : List (List Char)) :
    Source.Rules.oneof.Prefers (blockWords "oneof" name (fields.flatMap Field.bareWords) ++ us) us
      fun o => readOneof o = .ok (.oneof name fields) := by
  have hblock := prefers_block "oneof" (by decide) hname (by decide)
    (fun f hm => Field.prefers_bareWords (hf f hm).1 (hf f hm).2) us
  refine hblock.map fun r hr => ?_
  have hitems : r.2.mapM (Field.ofOneofItem name) = .ok (fields.map some) :=
    mapM_eq_ok_iff.mpr (List.forall₂_map_right_iff.mpr hr.2)
  rw [readOneof, hr.1, hitems]
  simp only [Except.map, List.filterMap_map, Function.id_comp, List.filterMap_some]

theorem Message.prefers_member {m : Message} (hm : m.IsWritable) (hn : m.NamesOneofs) :
    ∀ member ∈ arrange m.fields m.oneofs, ∀ us,
      Source.Rules.messageItem.Prefers (member.part.words ++ us) us fun i => Message.part i = .ok member.part := by
  intro member hmember us
  have hapart := hm.arranged.isApart hm.distinct member hmember
  have hfields : ∀ f ∈ member.part.fields, f.IsWritable := by
    intro f hf
    refine hm.fields f ?_
    rw [← fields_arrange m.fields m.oneofs]
    exact List.mem_flatMap.mpr ⟨member, hmember, hf⟩
  cases member with
  | field f => exact Field.prefers_item (hfields f (List.mem_singleton_self f)) hapart us
  | oneof name fields =>
      have hname : (name, fields.map Field.number) ∈ m.oneofs := by
        rw [← hm.arranged.oneofs_arrange hm.distinct]
        exact List.mem_filterMap.mpr ⟨_, hmember, rfl⟩
      have honeof := Message.prefers_oneof (hn _ hname) (fun f hf => ⟨hfields f hf, hapart f hf⟩) us
      refine (((honeof.map fun s hs => ?_).left.right ?_).right ?_)
      · rw [Message.part, hs]
        rfl
      · exact refuses_word (by decide) _
      · exact refuses_word (by decide) _

theorem Message.prefers_furtherPart {m : Message} (hm : m.IsWritable)
    (hinner : ∀ n ∈ m.messages, ∀ us,
      Source.Rules.message.Prefers (n.words ++ us) us fun s => Message.ofSource s = .ok n) :
    ∀ p ∈ m.furtherParts, ∀ us,
      Source.Rules.messageItem.Prefers (p.words ++ us) us fun i => Message.part i = .ok p := by
  intro p hp us
  simp only [furtherParts, List.mem_append, List.mem_map] at hp
  rcases hp with ((⟨e, he, rfl⟩ | ⟨n, hn, rfl⟩) | ⟨o, ho, rfl⟩) | ⟨range, hr, rfl⟩
  · have hread := Enum.prefers_words (hm.enums e he) us
    refine ((((hread.map fun s hs => ?_).left.right ?_).right ?_).right ?_).right ?_
    · rw [Message.part, hs]
      rfl
    all_goals exact refuses_word (by decide) _
  · have hread := (hinner n hn us).self
    have hrefuses : ∀ {α : Type} {g : Source.Rules.Rule α}, g.avoids "message" = true → g.Refuses (n.words ++ us) := by
      intro α g hg
      rw [Message.words_eq]
      exact refuses_word hg _
    refine (((hread.map fun s hs => ?_).left.right ?_).right ?_).right ?_
    · rw [Message.part_ofMessage, hs]
      rfl
    all_goals exact hrefuses (by decide)
  · have hread := Options.prefers_statement (hm.options.names o ho) (hm.options.values o ho) us
    refine (((((hread.map fun s hs => ?_).left.right ?_).right ?_).right ?_).right ?_).right ?_
    · rw [Message.part, hs]
      rfl
    all_goals exact refuses_word (by decide) _
  · obtain ⟨first, last, rfl, hf, hl, hfs, hls⟩ := hm.extensions range (Option.mem_toList.mp hr)
    have hread := Message.prefers_rangeWords hf hl hfs hls us
    refine (((((((hread.map fun s hs => ?_).left.right ?_).right ?_).right ?_).right ?_).right ?_).right ?_).right ?_
    · rw [Message.part, hs]
    all_goals exact refuses_word (by decide) _

theorem Message.prefers_words {m : Message} (hm : m.Everywhere IsWritable) (hn : m.Everywhere NamesOneofs) :
    ∀ us, Source.Rules.message.Prefers (m.words ++ us) us fun s => Message.ofSource s = .ok m := by
  induction hm with
  | @intro m hm _ ih =>
      obtain ⟨hn, hinner⟩ := hn
      intro us
      have hparts : ∀ p ∈ m.parts, ∀ us,
          Source.Rules.messageItem.Prefers (p.words ++ us) us fun i => Message.part i = .ok p := by
        intro p hp
        rcases List.mem_append.mp hp with hp | hp
        · obtain ⟨member, hmember, rfl⟩ := List.mem_map.mp hp
          exact Message.prefers_member hm hn member hmember
        · exact Message.prefers_furtherPart hm (fun n hm => ih n hm (hinner n hm)) p hp
      have hblock := prefers_block "message" (by decide) hm.name (by decide) hparts us
      rw [Message.words_eq]
      refine hblock.map fun r hr => ?_
      rw [Message.ofSource, Message.parts_eq_mapM, mapM_eq_ok_iff.mpr hr.2, hr.1]
      exact congrArg Except.ok (Message.ofParts_parts hm)

end Messages

end ProtoBundle
