import ProtoBundle.Proofs.Source.Reading
import ProtoBundle.Source.Parse

namespace ProtoBundle.Source.Rules

open ProtoBundle.Source.Tree ProtoBundle.Source.Reads

variable {inner : Cursor → Reading Message} {bound : Nat}

section Parts

theorem reads_constant : Reads inner bound constant [Ebnf.constant] fun v => [ofConstant v] :=
  .either (((token .float rfl).named .floatConstant).map fun _ => rfl)
    (.either (((token .special rfl).named .nameConstant).map fun _ => rfl)
      (.either (((token .signedInteger rfl).named .integerConstant).map fun _ => rfl)
        (.either (((token .quoted rfl).named .quotedConstant).map fun _ => rfl)
          (.any (((token .dottedName rfl).named .nameConstant).map fun _ => rfl)))))

theorem reads_setting :
    Reads inner bound setting [.terminal .optionName, Ebnf.word "=", Ebnf.constant] fun s =>
      [.token .optionName s.name, ofConstant s.value] :=
  (((token .optionName rfl).before rfl).both reads_constant).map fun _ => rfl

theorem reads_settings : Reads inner bound settings [.optional [.rule .settings]] fun o => [ofSettings o] := by
  have hone : Reads inner bound setting [.rule .setting] fun s => [ofSetting .setting s] := reads_setting.rule rfl
  exact (((hone.separated rfl).between rfl rfl).rule rfl).optional rfl

theorem reads_optionStatement :
    Reads inner bound optionStatement [.rule .optionStatement] fun s => [ofOption s] :=
  (reads_setting.between rfl rfl).rule rfl

theorem reads_empty {α : Type} (v : α) (tree : α → Tree) (ht : tree v = Tree.empty) :
    Reads inner bound (empty v) [.rule .emptyStatement] fun v => [tree v] :=
  ((word rfl).rule rfl).map fun _ => congrArg (· :: []) ht

theorem reads_numbered {α : Type} {a : Rule α} {es : List Ebnf} {trees : α → List Tree} {number : Terminal}
    (hn : number.isWord = false) (h : Reads inner bound a es trees) :
    Reads inner bound (numbered a number) (es ++ Ebnf.numbered number) fun r =>
      trees r.1 ++ [.token number r.2.1, ofSettings r.2.2] := by
  have hb := (h.before (w := "=") rfl).both ((token number hn).both (reads_settings.before (w := ";") rfl))
  rwa [List.append_assoc] at hb

theorem reads_block {α : Type} {opening : String} {item : Rule α} {e : Ebnf} {tree : α → Tree}
    (ho : vocabulary.contains opening = true) (hp : e.Productive) (h : Reads inner bound item [e] fun v => [tree v]) :
    Reads inner (bound + 1) (block opening item) (Ebnf.block opening e) fun r =>
      .token .identifier r.1 :: r.2.map tree := by
  have hitems : Reads inner bound (Grammar.between "\x7b" (.many item) "\x7d")
      [Ebnf.word "\x7b", .many [e], Ebnf.word "\x7d"] fun vs => vs.map tree :=
    (h.many (hp.head [])).between rfl rfl
  -- The word takes up text, so that the items start nearer to the end.
  exact ((word ho).both_succ ((Ebnf.productive_terminal _).head [])
    ((token .identifier rfl).both hitems)).map fun _ => rfl

theorem reads_idRange : Reads inner bound idRange [.rule .idRange] fun r => [ofIdRange r] := by
  have hlast : Reads inner bound rangeEnd [.any [.terminal .integer, .terminal .maximum]] fun e => [ofRangeEnd e] :=
    .either ((token .integer rfl).map fun _ => rfl) (.any ((token .maximum rfl).map fun _ => rfl))
  have hto : Reads inner bound (.optional (Grammar.after "to" rangeEnd))
      [.optional [Ebnf.word "to", .any [.terminal .integer, .terminal .maximum]]] fun o =>
        [Tree.optional ofRangeEnd o] := (hlast.after rfl).optional rfl
  exact (((token .integer rfl).both hto).map fun _ => rfl).rule rfl

theorem reads_reserved : Reads inner bound reserved [.rule .reserved] fun items => [ofReserved items] := by
  have hitem : Reads inner bound reservedItem [Ebnf.reservedItem] fun i => [ofReservedItem i] :=
    .either (reads_idRange.map fun _ => rfl) (.any ((token .quoted rfl).map fun _ => rfl))
  exact ((hitem.separated rfl).between rfl rfl).rule rfl

theorem reads_extensions : Reads inner bound extensions [.rule .extensions] fun e => [ofExtensions e] :=
  (((reads_idRange.both reads_settings).between rfl rfl).map fun _ => rfl).rule rfl

end Parts

section Blocks

theorem reads_oneof : Reads inner bound oneof [.rule .oneof] fun o => [ofOneof o] := by
  have hfield : Reads inner bound oneofField [.rule .oneofField] fun f => [ofOneofField f] :=
    ((reads_numbered rfl ((token .typeName rfl).both (token .identifier rfl))).map fun _ => rfl).rule rfl
  have hitem : Reads inner bound oneofItem [Ebnf.oneofItem] fun i => [ofOneofItem i] :=
    .either (hfield.map fun _ => rfl) (.either (reads_optionStatement.map fun _ => rfl) (.any (reads_empty _ _ rfl)))
  have hp : Ebnf.oneofItem.Productive := Ebnf.productive_of_startsLexeme rfl
  exact (((reads_block rfl hp hitem).mono (Nat.le_succ _)).map fun _ => rfl).rule rfl

theorem reads_enum : Reads inner bound enum [.rule .enum] fun e => [ofEnum e] := by
  have hvalue : Reads inner bound enumValue [.rule .enumValue] fun v => [ofEnumValue v] :=
    ((reads_numbered rfl (token .identifier rfl)).map fun _ => rfl).rule rfl
  have hitem : Reads inner bound enumItem [Ebnf.enumItem] fun i => [ofEnumItem i] :=
    .either (hvalue.map fun _ => rfl)
      (.either (reads_optionStatement.map fun _ => rfl)
        (.either (reads_reserved.map fun _ => rfl) (.any (reads_empty _ _ rfl))))
  have hp : Ebnf.enumItem.Productive := Ebnf.productive_of_startsLexeme rfl
  exact (((reads_block rfl hp hitem).mono (Nat.le_succ _)).map fun _ => rfl).rule rfl

theorem reads_rpcType :
    Reads inner bound rpcType Ebnf.rpcType fun r => [Tree.optional (.token .stream) r.1, .token .typeName r.2] :=
  (((token .stream rfl).optional rfl).both (token .typeName rfl)).between rfl rfl

theorem reads_rpc : Reads inner bound rpc [.rule .rpc] fun r => [ofRpc r] := by
  have hoption : Reads inner bound serviceOption [Ebnf.serviceOption] fun o => [ofServiceOption o] :=
    .either (reads_optionStatement.map fun _ => rfl) (.any (reads_empty _ _ rfl))
  have hp : Ebnf.serviceOption.Productive := Ebnf.productive_of_startsLexeme rfl
  have hbraces : Reads inner bound (Grammar.between "\x7b" (.many serviceOption) "\x7d")
      [Ebnf.word "\x7b", .many [Ebnf.serviceOption], Ebnf.word "\x7d"] fun b => b.map ofServiceOption :=
    (hoption.many (hp.head [])).between rfl rfl
  have hnone : Reads inner bound (empty []) [Ebnf.word ";"] fun b => b.map ofServiceOption :=
    (word rfl).map fun _ => rfl
  have hbody : Reads inner bound rpcBody [.rule .rpcBody] fun b => [.node .rpcBody (b.map ofServiceOption)] :=
    (hnone.either hbraces.all.any).rule rfl
  have hresponse := (reads_rpcType.both hbody).after (w := "returns") rfl
  exact ((((token .identifier rfl).both (reads_rpcType.both hresponse)).after rfl).map fun _ => rfl).rule rfl

theorem reads_service : Reads inner bound service [.rule .service] fun s => [ofService s] := by
  have hitem : Reads inner bound serviceItem [Ebnf.serviceItem] fun i => [ofServiceItem i] :=
    .either (reads_rpc.map fun _ => rfl) (.either (reads_optionStatement.map fun _ => rfl) (.any (reads_empty _ _ rfl)))
  have hp : Ebnf.serviceItem.Productive := Ebnf.productive_of_startsLexeme rfl
  exact (((reads_block rfl hp hitem).mono (Nat.le_succ _)).map fun _ => rfl).rule rfl

end Blocks

section Messages

theorem reads_field : Reads inner bound field [.rule .field] fun f => [ofField f] := by
  have hlabel : Reads inner bound (.optional (.terminal .label)) [.optional [.terminal .label]] fun o =>
      [Tree.optional (.token .label) o] := (token .label rfl).optional rfl
  have hhead := hlabel.both ((token .typeName rfl).both (token .identifier rfl))
  exact ((reads_numbered rfl hhead).map fun _ => rfl).rule rfl

theorem reads_mapField : Reads inner bound mapField [.rule .mapField] fun f => [ofMapField f] := by
  have htypes : Reads inner bound mapTypes
      [Ebnf.word "map", Ebnf.word "<", .terminal .typeName, Ebnf.word ",", .terminal .typeName, Ebnf.word ">"]
      fun r => [.token .typeName r.1, .token .typeName r.2] :=
    ((((token .typeName rfl).before rfl).both (token .typeName rfl)).between rfl rfl).after rfl
  exact ((reads_numbered rfl (htypes.both (token .identifier rfl))).map fun _ => rfl).rule rfl

variable (hm : Reads inner bound .self [.rule .message] fun m => [ofMessage m])
include hm

theorem reads_messageItem : Reads inner bound messageItem [Ebnf.messageItem] fun i => [ofMessageItem i] :=
  .either (reads_field.map fun _ => rfl)
    (.either (reads_mapField.map fun _ => rfl)
      (.either (reads_oneof.map fun _ => rfl)
        (.either (hm.map fun _ => rfl)
          (.either (reads_enum.map fun _ => rfl)
            (.either (reads_optionStatement.map fun _ => rfl)
              (.either (reads_reserved.map fun _ => rfl)
                (.either (reads_extensions.map fun _ => rfl) (.any (reads_empty _ _ rfl)))))))))

omit hm in
theorem ofMessage_eq (m : Message) :
    ofMessage m = .node .message (.token .identifier m.name :: m.items.map ofMessageItem) := by
  rw [ofMessage, MessageItem.ofMessage, ofMessageItem, ofMessageItems_eq_map]

theorem reads_message : Reads inner (bound + 1) message [.rule .message] fun m => [ofMessage m] := by
  have hp : Ebnf.messageItem.Productive := Ebnf.productive_of_startsLexeme rfl
  exact ((reads_block rfl hp (reads_messageItem hm)).rule (c := .message) rfl).map fun _ =>
    congrArg (· :: []) (ofMessage_eq _)

theorem reads_statement : Reads inner bound statement [Ebnf.statement] fun s => [ofStatement s] := by
  have hdialect : Reads inner bound (Grammar.after "syntax" (Grammar.between "=" (.terminal .quoted) ";"))
      [.rule .dialectStatement] fun l => [.node .dialectStatement [.token .quoted l]] :=
    (((token .quoted rfl).between rfl rfl).after rfl).rule rfl
  have hpackage : Reads inner bound (Grammar.between "package" (.terminal .dottedName) ";") [.rule .packageStatement]
      fun l => [.node .packageStatement [.token .dottedName l]] := ((token .dottedName rfl).between rfl rfl).rule rfl
  have hkind : Reads inner bound (.optional (.terminal .importKind)) [.optional [.terminal .importKind]] fun o =>
      [Tree.optional (.token .importKind) o] := (token .importKind rfl).optional rfl
  have himport : Reads inner bound
      (Grammar.between "import" (.both (.optional (.terminal .importKind)) (.terminal .quoted)) ";")
      [.rule .importStatement] fun r =>
        [.node .importStatement [Tree.optional (.token .importKind) r.1, .token .quoted r.2]] :=
    ((hkind.both (token .quoted rfl)).between rfl rfl).rule rfl
  exact .either (hdialect.map fun _ => rfl)
    (.either (hpackage.map fun _ => rfl)
      (.either (himport.map fun _ => rfl)
        (.either (reads_optionStatement.map fun _ => rfl)
          (.either (hm.map fun _ => rfl)
            (.either (reads_enum.map fun _ => rfl)
              (.either (reads_service.map fun _ => rfl) (.any (reads_empty _ _ rfl))))))))

theorem reads_file : Reads inner bound file [.rule .file] fun f => [ofFile f] := by
  have hp : Ebnf.statement.Productive := Ebnf.productive_of_startsLexeme rfl
  exact (((reads_statement hm).many (hp.head [])).rule rfl).map fun _ => rfl

end Messages

end ProtoBundle.Source.Rules

namespace ProtoBundle.Source

theorem reads_messageAt (depth : Nat) :
    Reads (messageAt depth) depth .self [.rule .message] fun m => [Tree.ofMessage m] := by
  induction depth with
  | zero =>
      -- A message has lexemes, and at the end of the text there are none.
      refine ⟨fun hv => absurd hv List.not_mem_nil, fun {c d ls ts} hc hs hd => ?_⟩
      have hne : ls ≠ [] := by
        rintro rfl
        exact Ebnf.productive_rule (by decide) _ (derives_single_iff.mp hd)
      exact absurd (Nat.lt_of_lt_of_le (hs.length_lt hne) hc) (Nat.not_lt_zero _)
  | succ depth ih =>
      have hm := Rules.reads_message ih
      exact ⟨hm.sound, hm.complete⟩

theorem parse_eq_ok {text : List Char} {f : File} (h : parse text = .ok f) :
    ∃ d, (f, d) ∈ readings text ∧ d.skip.rest = [] := by
  unfold parse at h
  split at h
  · rename_i g hg
    cases h
    obtain ⟨⟨f, d⟩, hf, he⟩ := Option.map_eq_some_iff.mp hg
    cases he
    have hd := List.find?_some hf
    exact ⟨d, List.mem_of_find?_eq_some hf, List.isEmpty_iff.mp hd⟩
  · cases h

theorem exists_parse_eq_ok {text : List Char} {f : File} {d : Cursor} (hf : (f, d) ∈ readings text)
    (hd : d.skip.rest = []) : ∃ g, parse text = .ok g := by
  have hs : (complete? text).isSome = true := by
    rw [complete?, Option.isSome_map, List.find?_isSome]
    exact ⟨(f, d), hf, List.isEmpty_iff.mpr hd⟩
  obtain ⟨g, hg⟩ := Option.isSome_iff_exists.mp hs
  exact ⟨g, by rw [parse, hg]⟩

theorem reads_readings (text : List Char) :
    (∀ f d, (f, d) ∈ readings text → ∃ ls, Spans (.start text) ls d ∧ Derives (.rule .file) ls [Tree.ofFile f]) ∧
      ∀ ls ts d, Spans (.start text) ls d → Derives (.rule .file) ls ts → ∃ f, (f, d) ∈ readings text := by
  have h := Rules.reads_file (reads_messageAt text.length)
  unfold readings
  refine ⟨fun f d hf => ?_, fun ls ts d hs hd => ?_⟩
  · obtain ⟨ls, hs, hd⟩ := h.sound hf
    exact ⟨ls, hs, derives_single_iff.mp hd⟩
  · exact h.complete (Nat.le_refl _) hs (derives_single_iff.mpr hd)

theorem exists_spans_of_parse {text : List Char} {f : File} (h : parse text = .ok f) :
    ∃ ls d, Spans (.start text) ls d ∧ d.skip.rest = [] ∧ (Tree.ofFile f).tokens ⊆ ls := by
  obtain ⟨d, hr, hd⟩ := parse_eq_ok h
  obtain ⟨ls, hs, hf⟩ := (reads_readings text).1 f d hr
  refine ⟨ls, d, hs, hd, ?_⟩
  have ht : (Tree.ofFile f).tokens = ls.filter fun s => !s.1.isWord := by
    rw [← hf.tokens, List.flatMap_singleton]
  rw [ht]
  exact (List.filter_sublist ..).subset

theorem parse_ok_iff_cut (text : List Char) :
    ((∃ f, parse text = .ok f) ↔ ∃ ls ts, Cut [] text ls ∧ Derives (.rule .file) ls ts) ∧
      ∀ f, parse text = .ok f → ∃ ls, Cut [] text ls ∧ Derives (.rule .file) ls [Tree.ofFile f] ∧
        (Tree.ofFile f).tokens = (ls.filter fun s => !s.1.isWord) ∧
        ∀ s ∈ (Tree.ofFile f).tokens, ∃ front rest, s.2.StandsIn text front rest := by
  have hsound : ∀ f, parse text = .ok f → ∃ ls, Cut [] text ls ∧ Derives (.rule .file) ls [Tree.ofFile f] := by
    intro f hf
    obtain ⟨d, hr, hd⟩ := parse_eq_ok hf
    obtain ⟨ls, hs, hl⟩ := (reads_readings text).1 f d hr
    exact ⟨ls, cut_iff.mpr ⟨d, hs, hd⟩, hl⟩
  refine ⟨⟨?_, ?_⟩, fun f hf => ?_⟩
  · rintro ⟨f, hf⟩
    obtain ⟨ls, hc, hl⟩ := hsound f hf
    exact ⟨ls, _, hc, hl⟩
  · rintro ⟨ls, ts, hc, hl⟩
    obtain ⟨d, hs, hd⟩ := cut_iff.mp hc
    obtain ⟨f, hf⟩ := (reads_readings text).2 ls ts d hs hl
    exact exists_parse_eq_ok hf hd
  · obtain ⟨ls, hc, hl⟩ := hsound f hf
    have ht : (Tree.ofFile f).tokens = ls.filter fun s => !s.1.isWord := by
      rw [← hl.tokens, List.flatMap_singleton]
    refine ⟨ls, hc, hl, ht, fun s hs => ?_⟩
    rw [ht] at hs
    exact hc.standsIn s (List.mem_filter.mp hs).1

def prefixedType : List Char := "message A\x7boptionalB c = 1;\x7d//".toList

def prefixedTypeTokens : List (Terminal × Lexeme) :=
  [(.identifier, ⟨"A", 8⟩), (.typeName, ⟨"optionalB", 10⟩), (.identifier, ⟨"c", 20⟩), (.integer, ⟨"1", 24⟩)]

theorem cut_prefixedType : ∃ ls, Cut [] prefixedType ls ∧ (ls.filter fun s => !s.1.isWord) = prefixedTypeTokens := by
  have hp : ((parse prefixedType).toOption.map fun f => (Tree.ofFile f).tokens) = some prefixedTypeTokens := by
    decide +kernel
  obtain ⟨f, hf, ht⟩ := Option.map_eq_some_iff.mp hp
  cases h : parse prefixedType with
  | error e =>
      rw [h] at hf
      cases hf
  | ok g =>
      rw [h] at hf
      cases hf
      obtain ⟨ls, hc, -, hl, -⟩ := (parse_ok_iff_cut prefixedType).2 f h
      exact ⟨ls, hc, hl ▸ ht⟩

end ProtoBundle.Source
