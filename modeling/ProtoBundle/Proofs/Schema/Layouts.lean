import ProtoBundle.Proofs.Schema.Computations
import ProtoBundle.Proofs.Source.Alignment

namespace ProtoBundle

open Source (Lexeme Rules.Rule Grammar.Same)

section Combinators

variable {ρ α : Type} {related : ρ → ρ → Prop} {g : Source.Grammar ρ α}

theorem Source.Grammar.same_of_after {w : String} {x y : α} (h : (Grammar.after w g).Same related x y) :
    g.Same related x y := by
  obtain ⟨v, v', ⟨-, h⟩, rfl, rfl⟩ := h
  exact h

theorem Source.Grammar.same_of_before {w : String} {x y : α} (h : (g.before w).Same related x y) :
    g.Same related x y := by
  obtain ⟨v, v', ⟨h, -⟩, rfl, rfl⟩ := h
  exact h

theorem Source.Grammar.same_of_between {v w : String} {x y : α} (h : (Grammar.between v g w).Same related x y) :
    g.Same related x y := same_of_before (same_of_after h)

theorem Source.Grammar.same_of_separated {w : String} {xs ys : List α} (h : (g.separated w).Same related xs ys) :
    List.Forall₂ (g.Same related) xs ys := by
  obtain ⟨v, v', ⟨hx, hxs⟩, rfl, rfl⟩ := h
  exact .cons hx (hxs.imp fun _ _ => same_of_after)

end Combinators

variable {related : Source.Message → Source.Message → Prop}

section Options

theorem Source.Lexeme.integer_congr {l m : Lexeme} (h : l.text = m.text) (construct : Source.Construct) :
    l.integer construct = m.integer construct := by
  rw [integer, integer, h]

theorem Source.Lexeme.unquoted_congr {l m : Lexeme} (h : l.text = m.text) : l.unquoted = m.unquoted := by
  rw [unquoted, unquoted, h]

theorem Source.Lexeme.map_text_congr {l m : Option Lexeme} (h : Option.Rel (fun l m => l.text = m.text) l m) :
    l.map Lexeme.text = m.map Lexeme.text := by
  cases h with
  | none => rfl
  | some h => exact congrArg some h

theorem Value.ofConstant_congr {v w : Source.Constant} (h : Source.Rules.constant.Same related v w) :
    Value.ofConstant v = Value.ofConstant w := by
  rcases h with ⟨l, m, h, rfl, rfl⟩ | ⟨l, m, h, rfl, rfl⟩ | ⟨l, m, h, rfl, rfl⟩ | ⟨l, m, h, rfl, rfl⟩ |
    ⟨l, m, h, rfl, rfl⟩
  · exact congrArg (fun s : String => Except.ok (Value.float (.ofText s.toList))) h
  · exact congrArg (fun s => Except.ok (Value.text s)) h
  · exact congrArg (Except.map Value.integer) (Lexeme.integer_congr h _)
  · exact congrArg (fun s => Except.ok (Value.text s)) (Lexeme.unquoted_congr h)
  · exact congrArg (fun s => Except.ok (Value.ofName s)) h

theorem Options.entry_congr {s t : Source.Setting} (h : Source.Rules.setting.Same related s t) :
    Options.entry s = Options.entry t := by
  obtain ⟨v, w, ⟨hn, hv⟩, rfl, rfl⟩ := h
  have hname : v.1.text = w.1.text := Source.Grammar.same_of_before hn
  rw [Options.entry, Options.entry, Value.ofConstant_congr hv, hname]

theorem Options.entry_congr_statement {s t : Source.Setting} (h : Source.Rules.optionStatement.Same related s t) :
    Options.entry s = Options.entry t := Options.entry_congr (Source.Grammar.same_of_between h)

theorem Options.ofSettings_congr {s t : Option (List Source.Setting)} (h : Source.Rules.settings.Same related s t) :
    Options.ofSettings s = Options.ofSettings t := by
  cases h with
  | none => rfl
  | @some s t h =>
      have hs := Source.Grammar.same_of_separated (Source.Grammar.same_of_between h)
      exact congrArg (Except.map Table.ofList) (mapM_congr_of_forall₂ (hs.imp fun _ _ => Options.entry_congr))

end Options

section Fields

theorem Source.Rules.same_numbered {α : Type} {g : Rule α} {t : Source.Terminal} {v w}
    (h : (Source.Rules.numbered g t).Same related v w) :
    g.Same related v.1 w.1 ∧ v.2.1.text = w.2.1.text ∧ Options.ofSettings v.2.2 = Options.ofSettings w.2.2 :=
  ⟨Grammar.same_of_before h.1, h.2.1, Options.ofSettings_congr (Grammar.same_of_before h.2.2)⟩

theorem Field.ofSource_congr {f g : Source.Field} (h : Source.Rules.field.Same related f g) :
    Field.ofSource f = Field.ofSource g := by
  obtain ⟨v, w, h, rfl, rfl⟩ := h
  obtain ⟨⟨hl, ht, hn⟩, hi, ho⟩ := Source.Rules.same_numbered h
  have hlabel : v.1.1.map Lexeme.text = w.1.1.map Lexeme.text := Lexeme.map_text_congr hl
  have htype : v.1.2.1.text = w.1.2.1.text := ht
  have hname : v.1.2.2.text = w.1.2.2.text := hn
  simp only [Field.ofSource, ho, Lexeme.integer_congr hi, hlabel, htype, hname]

theorem Field.ofMap_congr {f g : Source.MapField} (h : Source.Rules.mapField.Same related f g) :
    Field.ofMap f = Field.ofMap g := by
  obtain ⟨v, w, h, rfl, rfl⟩ := h
  obtain ⟨⟨hm, hn⟩, hi, ho⟩ := Source.Rules.same_numbered h
  obtain ⟨hk, hv⟩ := Source.Grammar.same_of_between (Source.Grammar.same_of_after hm)
  have hkey : v.1.1.1.text = w.1.1.1.text := Source.Grammar.same_of_before hk
  have htype : v.1.1.2.text = w.1.1.2.text := hv
  have hname : v.1.2.text = w.1.2.text := hn
  simp only [Field.ofMap, ho, Lexeme.integer_congr hi, hkey, htype, hname]

theorem Field.ofOneof_congr (oneof : String) {f g : Source.OneofField}
    (h : Source.Rules.oneofField.Same related f g) : Field.ofOneof oneof f = Field.ofOneof oneof g := by
  obtain ⟨v, w, h, rfl, rfl⟩ := h
  obtain ⟨⟨ht, hn⟩, hi, ho⟩ := Source.Rules.same_numbered h
  have htype : v.1.1.text = w.1.1.text := ht
  have hname : v.1.2.text = w.1.2.text := hn
  simp only [Field.ofOneof, ho, Lexeme.integer_congr hi, htype, hname]

theorem Field.ofOneofItem_congr (oneof : String) {i j : Source.OneofItem}
    (h : Source.Rules.oneofItem.Same related i j) : Field.ofOneofItem oneof i = Field.ofOneofItem oneof j := by
  rcases h with ⟨v, w, h, rfl, rfl⟩ | ⟨v, w, h, rfl, rfl⟩ | ⟨v, w, -, rfl, rfl⟩
  · exact congrArg (Except.map some) (Field.ofOneof_congr oneof h)
  · exact congrArg (Except.map fun _ => none) (Options.entry_congr_statement h)
  · rfl

end Fields

section Ranges

theorem readRangeEnd_congr (first : Int) {r s : Option Source.RangeEnd}
    (h : (Source.Grammar.optional (.after "to" Source.Rules.rangeEnd)).Same related r s) :
    readRangeEnd first r = readRangeEnd first s := by
  cases h with
  | none => rfl
  | some h =>
      rcases Source.Grammar.same_of_after h with ⟨l, m, ht, rfl, rfl⟩ | ⟨l, m, -, rfl, rfl⟩
      · exact Lexeme.integer_congr ht _
      · rfl

theorem readRange_congr {r s : Source.IdRange} (h : Source.Rules.idRange.Same related r s) :
    readRange r = readRange s := by
  obtain ⟨v, w, ⟨hf, hl⟩, rfl, rfl⟩ := h
  have hfirst : v.1.integer .idRange = w.1.integer .idRange := Lexeme.integer_congr hf _
  have hlast : ∀ first, readRangeEnd first v.2 = readRangeEnd first w.2 := fun first => readRangeEnd_congr first hl
  simp only [readRange, hfirst, hlast]

theorem checkReserved_congr {is js : List Source.ReservedItem} (h : Source.Rules.reserved.Same related is js) :
    checkReserved is = checkReserved js := by
  have hitems := Source.Grammar.same_of_separated (Source.Grammar.same_of_between h)
  clear h
  induction hitems with
  | nil => rfl
  | cons h _ ih =>
      rcases h with ⟨r, s, h, rfl, rfl⟩ | ⟨l, m, -, rfl, rfl⟩
      · have hrange : (readRange r).map (fun _ => ()) = (readRange s).map fun _ => () := by rw [readRange_congr h]
        exact congrArg₂ (fun x y : Except Failure Unit => x >>= fun _ => y) hrange ih
      · exact ih

end Ranges

section Containers

theorem Source.Rules.same_block {α : Type} {opening : String} {item : Rule α} {v w : Lexeme × List α}
    (h : (Source.Rules.block opening item).Same related v w) :
    v.1.text = w.1.text ∧ List.Forall₂ (item.Same related) v.2 w.2 := by
  obtain ⟨hn, hi⟩ := Grammar.same_of_after h
  exact ⟨hn, Grammar.same_of_between hi⟩

theorem Enum.part_congr {i j : Source.EnumItem} (h : Source.Rules.enumItem.Same related i j) :
    Enum.part i = Enum.part j := by
  rcases h with ⟨_, _, ⟨v, w, h, rfl, rfl⟩, rfl, rfl⟩ | ⟨v, w, h, rfl, rfl⟩ | ⟨v, w, h, rfl, rfl⟩ |
    ⟨v, w, -, rfl, rfl⟩
  · obtain ⟨hn, hi, ho⟩ := Source.Rules.same_numbered h
    have hname : v.1.text = w.1.text := hn
    simp only [Enum.part, Enum.readValue, ho, Lexeme.integer_congr hi, hname]
  · exact congrArg (Except.map Enum.Part.option) (Options.entry_congr_statement h)
  · exact congrArg (Except.map fun _ => Enum.Part.nothing) (checkReserved_congr h)
  · rfl

theorem Enum.ofSource_congr {e f : Source.Enum} (h : Source.Rules.enum.Same related e f) :
    Enum.ofSource e = Enum.ofSource f := by
  obtain ⟨v, w, h, rfl, rfl⟩ := h
  obtain ⟨hn, hi⟩ := Source.Rules.same_block h
  have hparts : v.2.mapM Enum.part = w.2.mapM Enum.part :=
    mapM_congr_of_forall₂ (hi.imp fun _ _ => Enum.part_congr)
  simp only [Enum.ofSource, hparts, hn]

theorem Message.readOneof_congr {o p : Source.Oneof} (h : Source.Rules.oneof.Same related o p) :
    Message.readOneof o = Message.readOneof p := by
  obtain ⟨v, w, h, rfl, rfl⟩ := h
  obtain ⟨hn, hi⟩ := Source.Rules.same_block h
  have hfields : v.2.mapM (Field.ofOneofItem w.1.text) = w.2.mapM (Field.ofOneofItem w.1.text) :=
    mapM_congr_of_forall₂ (hi.imp fun _ _ => Field.ofOneofItem_congr _)
  simp only [Message.readOneof, hn, hfields]

theorem Message.readExtensions_congr {e f : Source.Extensions} (h : Source.Rules.extensions.Same related e f) :
    Message.readExtensions e = Message.readExtensions f := by
  obtain ⟨v, w, h, rfl, rfl⟩ := h
  obtain ⟨hr, hs⟩ := Source.Grammar.same_of_between h
  simp only [Message.readExtensions, readRange_congr hr, Options.ofSettings_congr hs]

abbrev Message.Agree (m n : Source.Message) : Prop := Message.ofSource m = Message.ofSource n

theorem Message.part_congr {i j : Source.MessageItem} (h : Source.Rules.messageItem.Same Message.Agree i j) :
    Message.part i = Message.part j := by
  rcases h with ⟨v, w, h, rfl, rfl⟩ | ⟨v, w, h, rfl, rfl⟩ | ⟨v, w, h, rfl, rfl⟩ | ⟨v, w, h, rfl, rfl⟩ |
    ⟨v, w, h, rfl, rfl⟩ | ⟨v, w, h, rfl, rfl⟩ | ⟨v, w, h, rfl, rfl⟩ | ⟨v, w, h, rfl, rfl⟩ | ⟨v, w, -, rfl, rfl⟩
  · exact congrArg (Except.map Message.Part.field) (Field.ofSource_congr h)
  · exact congrArg (Except.map Message.Part.field) (Field.ofMap_congr h)
  · exact Message.readOneof_congr h
  · rw [Message.part_ofMessage, Message.part_ofMessage]
    exact congrArg (Except.map Message.Part.message) h
  · exact congrArg (Except.map Message.Part.enum) (Enum.ofSource_congr h)
  · exact congrArg (Except.map Message.Part.option) (Options.entry_congr_statement h)
  · exact congrArg (Except.map fun _ => Message.Part.nothing) (checkReserved_congr h)
  · exact Message.readExtensions_congr h
  · rfl

theorem Message.agree_of_same {m n : Source.Message} (h : Source.Rules.message.Same Message.Agree m n) :
    Message.Agree m n := by
  obtain ⟨v, w, h, rfl, rfl⟩ := h
  obtain ⟨hn, hi⟩ := Source.Rules.same_block h
  have hparts : Message.part.parts v.2 = Message.part.parts w.2 := by
    rw [Message.parts_eq_mapM, Message.parts_eq_mapM]
    exact mapM_congr_of_forall₂ (hi.imp fun _ _ => Message.part_congr)
  simp only [Message.Agree, Message.ofSource, hparts, hn]

theorem Service.readRpcOption_congr {i j : Source.ServiceOption} (h : Source.Rules.serviceOption.Same related i j) :
    Service.readRpcOption i = Service.readRpcOption j := by
  rcases h with ⟨v, w, h, rfl, rfl⟩ | ⟨v, w, -, rfl, rfl⟩
  · exact congrArg (Except.map some) (Options.entry_congr_statement h)
  · rfl

theorem Source.Rules.same_rpcType {v w : Option Lexeme × Lexeme} (h : Source.Rules.rpcType.Same related v w) :
    v.1.isSome = w.1.isSome ∧ v.2.text = w.2.text := by
  obtain ⟨hs, ht⟩ := Grammar.same_of_between h
  refine ⟨?_, ht⟩
  rw [← Option.isSome_map (f := Lexeme.text), Lexeme.map_text_congr hs, Option.isSome_map]

theorem Service.readRpc_congr {r s : Source.Rpc} (h : Source.Rules.rpc.Same related r s) :
    Service.readRpc r = Service.readRpc s := by
  obtain ⟨v, w, h, rfl, rfl⟩ := h
  obtain ⟨hn, hq, h⟩ := Source.Grammar.same_of_after h
  obtain ⟨ha, hb⟩ := Source.Grammar.same_of_after h
  obtain ⟨hqs, hqt⟩ := Source.Rules.same_rpcType hq
  obtain ⟨has, hat⟩ := Source.Rules.same_rpcType ha
  have hname : v.1.text = w.1.text := hn
  have hbody : v.2.2.2.mapM Service.readRpcOption = w.2.2.2.mapM Service.readRpcOption := by
    rcases hb with ⟨_, _, -, hv, hw⟩ | hb
    · rw [← hv, ← hw]
    · exact mapM_congr_of_forall₂ ((Source.Grammar.same_of_between hb).imp fun _ _ => Service.readRpcOption_congr)
  simp only [Service.readRpc, hbody, hname, hqs, hqt, has, hat]

theorem Service.part_congr {i j : Source.ServiceItem} (h : Source.Rules.serviceItem.Same related i j) :
    Service.part i = Service.part j := by
  rcases h with ⟨v, w, h, rfl, rfl⟩ | ⟨v, w, h, rfl, rfl⟩ | ⟨v, w, -, rfl, rfl⟩
  · exact congrArg (Except.map Service.Part.rpc) (Service.readRpc_congr h)
  · exact congrArg (Except.map Service.Part.option) (Options.entry_congr_statement h)
  · rfl

theorem Service.ofSource_congr {s t : Source.Service} (h : Source.Rules.service.Same related s t) :
    Service.ofSource s = Service.ofSource t := by
  obtain ⟨v, w, h, rfl, rfl⟩ := h
  obtain ⟨hn, hi⟩ := Source.Rules.same_block h
  have hparts : v.2.mapM Service.part = w.2.mapM Service.part :=
    mapM_congr_of_forall₂ (hi.imp fun _ _ => Service.part_congr)
  simp only [Service.ofSource, hparts, hn]

end Containers

section Files

theorem Schema.part_congr {i j : Source.Statement} (h : Source.Rules.statement.Same Message.Agree i j) :
    Schema.part i = Schema.part j := by
  rcases h with ⟨v, w, h, rfl, rfl⟩ | ⟨v, w, h, rfl, rfl⟩ | ⟨v, w, h, rfl, rfl⟩ | ⟨v, w, h, rfl, rfl⟩ |
    ⟨v, w, h, rfl, rfl⟩ | ⟨v, w, h, rfl, rfl⟩ | ⟨v, w, h, rfl, rfl⟩ | ⟨v, w, -, rfl, rfl⟩
  · have htext : v.text = w.text := Source.Grammar.same_of_between (Source.Grammar.same_of_after h)
    exact congrArg (fun s => Except.ok (Schema.Part.dialect s)) (Lexeme.unquoted_congr htext)
  · have htext : v.text = w.text := Source.Grammar.same_of_between h
    exact congrArg (fun s => Except.ok (Schema.Part.package s)) htext
  · have htext : v.2.text = w.2.text := (Source.Grammar.same_of_between h).2
    exact congrArg (fun s => Except.ok (Schema.Part.import_ s)) (Lexeme.unquoted_congr htext)
  · exact congrArg (Except.map Schema.Part.option) (Options.entry_congr_statement h)
  · exact congrArg (Except.map Schema.Part.message) h
  · exact congrArg (Except.map Schema.Part.enum) (Enum.ofSource_congr h)
  · exact congrArg (Except.map Schema.Part.service) (Service.ofSource_congr h)
  · rfl

theorem Schema.ofSource_congr {f g : Source.File} (h : Source.Rules.file.Same Message.Agree f g)
    (file : Option String) : Schema.ofSource file f = Schema.ofSource file g := by
  obtain ⟨v, w, h, rfl, rfl⟩ := h
  have hparts : v.mapM Schema.part = w.mapM Schema.part :=
    mapM_congr_of_forall₂ (h.imp fun _ _ => Schema.part_congr)
  simp only [Schema.ofSource, hparts]

theorem Schema.ofText_layout (file : Option String) {words : List (List Char)} (hw : ∀ w ∈ words, Source.IsLexeme w)
    {s t : String} (hs : Source.LaysOut false words s.toList) (ht : Source.LaysOut false words t.toList) :
    (∃ e f, Schema.ofText file s = .error e ∧ Schema.ofText file t = .error f) ∨
      ∃ schema, Schema.ofText file s = .ok schema ∧ Schema.ofText file t = .ok schema := by
  have hrel := Source.complete_rel (fun _ _ => Message.agree_of_same) hw hs ht
  unfold Schema.ofText Source.parse
  generalize Source.complete? s.toList = f at hrel
  generalize Source.complete? t.toList = g at hrel
  cases hrel with
  | none => exact .inl ⟨_, _, rfl, rfl⟩
  | @some f g h =>
      have hsame := Schema.ofSource_congr h file
      cases hg : Schema.ofSource file g with
      | error e => exact .inl ⟨e, e, hsame.trans hg, hg⟩
      | ok schema => exact .inr ⟨schema, hsame.trans hg, hg⟩

theorem Schema.ofText_layout_import :
    (∃ e f, Schema.ofText none "import \"a//b\" ;" = .error e ∧
        Schema.ofText none "import/*\"*/\"a//b\"\n; " = .error f) ∨
      ∃ schema, Schema.ofText none "import \"a//b\" ;" = .ok schema ∧
        Schema.ofText none "import/*\"*/\"a//b\"\n; " = .ok schema := by
  have hw : ∀ w ∈ ["import".toList, "\"a//b\"".toList, ";".toList], Source.IsLexeme w := by
    rintro _ (_ | ⟨_, _ | ⟨_, _ | ⟨_, ⟨⟩⟩⟩⟩)
    · exact ⟨.word "import", Source.Terminal.listed_of_isListed (by decide), by decide⟩
    · exact ⟨.quoted, trivial, by decide⟩
    · exact ⟨.word ";", Source.Terminal.listed_of_isListed (by decide), by decide⟩
  have hblank : Source.Gap " ".toList := .blank (by decide) .nil
  have hbreak : Source.Gap "\n".toList := .blank (by decide) .nil
  have hend : Source.blockRest "\"*/".toList = some 3 := by decide
  have hcomment : Source.Gap "/*\"*/".toList := .block hend .nil
  refine Schema.ofText_layout none hw ?_ ?_
  · exact .word .nil nofun (.word hblank (by decide) (.word hblank (by decide) (.done .nil)))
  · exact .word .nil nofun (.word hcomment (by decide) (.word hbreak (by decide) (.done hblank)))

end Files

end ProtoBundle
