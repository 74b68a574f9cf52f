import ProtoBundle.Proofs.Schema.Declarations

namespace ProtoBundle

open Source (Terminal Lexeme)
open Source.Grammar (refuses_word refuses_terminal prefers_terminal)

section Services

variable {type : String}

theorem Rpc.hiddenType_eq_none {n : Nat} (hs : Terminal.stream.length type.toList = some n)
    (hn : Terminal.typeName.length (type.toList.drop n) = none) : hiddenType type = none := by
  simp only [hiddenType, hs, hn, Option.isSome_none, Bool.false_eq_true, if_false]

theorem Rpc.typeAsRead_of_hidden {n m : Nat} (hs : Terminal.stream.length type.toList = some n)
    (hn : Terminal.typeName.length (type.toList.drop n) = some m) :
    typeAsRead false type = (true, String.ofList (type.toList.drop n)) := by
  simp only [typeAsRead, hiddenType, hs, hn, Option.isSome_some, if_true]

theorem Rpc.typeAsRead_of_eq_none (h : hiddenType type = none) (streamed : Bool) :
    typeAsRead streamed type = (streamed, type) := by
  cases streamed with
  | true => rfl
  | false => simp only [typeAsRead, h]

namespace Source.Rules

theorem exists_run_stream {n : Nat} (hlex : IsLexeme type.toList) (hs : Terminal.stream.length type.toList = some n)
    {us : List (List Char)} {c : Source.Cursor} (hc : c.Before (type.toList :: us)) :
    ∃ l d, (Grammar.terminal .stream : Rule Lexeme).run messages c = [(l, d)] ∧
      ∃ r, d.rest = type.toList.drop n ++ r ∧ LaysOut true us r := by
  obtain ⟨l, d, hread, -, hrest⟩ := hc.read_part hlex hs trivial
  exact ⟨l, d, by rw [Grammar.run, hread], hrest⟩

theorem read_typeName_eq_none {n : Nat} (hlex : IsLexeme type.toList)
    (hs : Terminal.stream.length type.toList = some n)
    (hn : Terminal.typeName.length (type.toList.drop n) = none) {us : List (List Char)} {d : Source.Cursor}
    {r : List Char} (hd : d.rest = type.toList.drop n ++ r) (hl : LaysOut true (")".toList :: us) r) :
    Terminal.typeName.read d = none := by
  by_cases hrest : type.toList.drop n = []
  · rw [hrest, List.nil_append] at hd
    have hclosing : d.Before (")".toList :: us) := by
      rw [Cursor.Before, hd]
      exact hl.weaken
    have hbracket : IsLexeme ")".toList := isLexeme_word (by decide)
    exact hclosing.read_eq_none hbracket.isUnit hbracket.ne_nil trivial (by decide)
  · have hbefore : d.Before (type.toList.drop n :: ")".toList :: us) := by
      rw [Cursor.Before, hd]
      exact hl.cons
    exact hbefore.read_eq_none (hlex.isUnit.drop (t := .stream) trivial hs) hrest trivial hn

theorem prefers_stream {n m : Nat} (ht : Terminal.typeName.Takes type.toList)
    (hs : Terminal.stream.length type.toList = some n)
    (hn : Terminal.typeName.length (type.toList.drop n) = some m) (us : List (List Char)) :
    (Grammar.both (.optional (.terminal .stream)) (.terminal .typeName) : Rule _).Prefers (type.toList :: us) us
      fun r => r.1.isSome = true ∧ r.2.text = String.ofList (type.toList.drop n) := by
  have hstream : (Grammar.terminal .stream : Rule Lexeme).Prefers (type.toList :: us)
      (type.toList.drop n :: us) fun _ => True := by
    intro c hc
    obtain ⟨l, d, hread, r, hd, hl⟩ := exists_run_stream (ht.isLexeme trivial) hs hc
    refine ⟨l, d, by rw [hread]; rfl, trivial, ?_⟩
    rw [Cursor.Before, hd]
    exact hl.cons
  have hrest := prefers_terminal (takes_rest_of_stream ht hs hn) trivial us
  refine (hstream.optional.both hrest).mono fun r hr => ?_
  obtain ⟨⟨l, hl, -⟩, ht⟩ := hr
  exact ⟨by rw [hl]; rfl, ht⟩

theorem prefers_unstreamed (ht : Terminal.typeName.Takes type.toList) (us : List (List Char)) :
    (Grammar.both (.optional (.terminal .stream)) (.terminal .typeName) : Rule _).Prefers
      (type.toList :: ")".toList :: us) (")".toList :: us) fun r =>
        r.1.isSome = (Rpc.typeAsRead false type).1 ∧ r.2.text = (Rpc.typeAsRead false type).2 := by
  have hlex := ht.isLexeme trivial
  have hwhole := prefers_terminal ht trivial (")".toList :: us)
  cases hs : Terminal.stream.length type.toList with
  | none =>
      have hread := (refuses_terminal hlex hs trivial (")".toList :: us)).optional.both hwhole
      have hhidden : Rpc.hiddenType type = none := by rw [Rpc.hiddenType, hs]
      have hasRead := Rpc.typeAsRead_of_eq_none hhidden false
      refine hread.mono fun r hr => ?_
      rw [hasRead, hr.1, hr.2, String.ofList_toList]
      exact ⟨rfl, rfl⟩
  | some n =>
      cases hn : Terminal.typeName.length (type.toList.drop n) with
      | none =>
          have hasRead := Rpc.typeAsRead_of_eq_none (Rpc.hiddenType_eq_none hs hn) false
          refine (hwhole.skipping fun c hc r hr => ?_).mono fun r hr => ?_
          · obtain ⟨l, d, hread, s, hd, hl⟩ := exists_run_stream hlex hs hc
            rw [hread, List.mem_singleton] at hr
            rw [hr, Grammar.run, read_typeName_eq_none hlex hs hn hd hl]
          · rw [hasRead, hr.1, hr.2, String.ofList_toList]
            exact ⟨rfl, rfl⟩
      | some m =>
          rw [Rpc.typeAsRead_of_hidden hs hn]
          exact prefers_stream ht hs hn _

end Source.Rules

theorem Service.prefers_typeWords (ht : Terminal.typeName.Takes type.toList) (streamed : Bool)
    (us : List (List Char)) :
    Source.Rules.rpcType.Prefers (typeWords streamed type ++ us) us fun r =>
      r.1.isSome = (Rpc.typeAsRead streamed type).1 ∧ r.2.text = (Rpc.typeAsRead streamed type).2 := by
  cases streamed with
  | false => exact (Source.Rules.prefers_unstreamed ht us).between (v := "(") (by decide) (by decide)
  | true =>
      have hword : Terminal.stream.Takes "stream".toList := by decide
      have hstream := (prefers_terminal hword trivial (type.toList :: ")".toList :: us)).optional
      have hread := hstream.both (prefers_terminal ht trivial (")".toList :: us))
      refine (hread.mono fun r hr => ?_).between (v := "(") (by decide) (by decide)
      obtain ⟨⟨l, hl, -⟩, ht⟩ := hr
      rw [hl, ht, String.ofList_toList]
      exact ⟨rfl, rfl⟩

theorem Service.prefers_options {o : Options} (ho : o.IsWritable) (us : List (List Char)) :
    Source.Rules.rpcBody.Prefers
      ("\x7b".toList :: (o.flatMap Options.statementWords ++ "\x7d".toList :: us)) us
      fun b => ∃ entries, b.mapM readRpcOption = .ok entries ∧ entries.filterMap id = o := by
  have hitem : ∀ e ∈ o, ∀ us, Source.Rules.serviceOption.Prefers (Options.statementWords e ++ us) us
      fun i => readRpcOption i = .ok (some e) := by
    intro e he us
    refine ((Options.prefers_statement (ho.names e he) (ho.values e he) us).map fun s hs => ?_).left
    rw [readRpcOption, hs]
    rfl
  have hend : Source.Rules.serviceOption.Refuses ("\x7d".toList :: us) :=
    refuses_word (by decide) us
  have hitems := Source.Grammar.prefers_many (by decide) rfl hitem hend
  refine ((hitems.between (v := "\x7b") (by decide) (by decide)).right ?_).mono fun b hb => ?_
  · exact refuses_word (by decide) _
  · refine ⟨o.map some, mapM_eq_ok_iff.mpr (List.forall₂_map_right_iff.mpr hb), ?_⟩
    rw [List.filterMap_map, Function.id_comp, List.filterMap_some]

theorem Service.prefers_rpcWords {r : Rpc} (hr : r.IsWritable) (us : List (List Char)) :
    Source.Rules.rpc.Prefers (rpcWords r ++ us) us fun s => readRpc s = .ok r.asRead := by
  have hbody := Service.prefers_options hr.options us
  have hresponse := (Service.prefers_typeWords hr.response r.responseStream _).both hbody
  have hrequest := (Service.prefers_typeWords hr.request r.requestStream _).both
    (hresponse.after (w := "returns") (by decide))
  have hread := ((prefers_terminal hr.name trivial _).both hrequest).after (w := "rpc") (by decide)
  have hwords : rpcWords r ++ us = "rpc".toList :: r.name.toList :: (typeWords r.requestStream r.request ++
      "returns".toList :: (typeWords r.responseStream r.response ++
        "\x7b".toList :: (r.options.flatMap Options.statementWords ++ "\x7d".toList :: us))) := by
    simp only [rpcWords, List.cons_append, List.append_assoc, List.nil_append]
  rw [hwords]
  refine hread.map fun s hs => ?_
  obtain ⟨hname, ⟨hqs, hqt⟩, ⟨hss, hst⟩, entries, hentries, ho⟩ := hs
  simp only [readRpc, hentries, hname, hqs, hqt, hss, hst, String.ofList_toList]
  change Except.ok (Rpc.mk _ _ _ _ _ (Table.ofList (entries.filterMap id))) = _
  rw [ho, Table.ofList_eq_self hr.options.distinct]
  rfl

def Service.Part.asRead : Service.Part → Service.Part
  | .rpc r => .rpc r.asRead
  | p => p

theorem Service.prefers_part {s : Service} (hs : s.IsWritable) :
    ∀ p ∈ s.parts, ∀ us,
      Source.Rules.serviceItem.Prefers (p.words ++ us) us fun i => Service.part i = .ok p.asRead := by
  intro p hp us
  rcases List.mem_append.mp hp with hp | hp
  · obtain ⟨r, hr, rfl⟩ := List.mem_map.mp hp
    refine ((Service.prefers_rpcWords (hs.rpcs r hr) us).map fun i hi => ?_).left
    rw [Service.part, hi]
    rfl
  · obtain ⟨o, ho, rfl⟩ := List.mem_map.mp hp
    refine ((Options.prefers_statement (hs.options.names o ho) (hs.options.values o ho) us).map fun i hi => ?_).left.right ?_
    · rw [Service.part, hi]
      rfl
    · exact refuses_word (by decide) _

theorem Service.parts_asRead (s : Service) : s.asRead.parts = s.parts.map Part.asRead := by
  simp only [parts, asRead, List.map_append, List.map_map, Function.comp_def, Part.asRead]

theorem Service.prefers_words {s : Service} (hs : s.IsWritable) (us : List (List Char)) :
    Source.Rules.service.Prefers (s.words ++ us) us fun t => Service.ofSource t = .ok s.asRead := by
  have hblock := prefers_block "service" (by decide) hs.name (by decide) (Service.prefers_part hs) us
  refine hblock.map fun r hr => ?_
  have hparts : r.2.mapM Service.part = .ok s.asRead.parts := by
    rw [Service.parts_asRead]
    exact mapM_eq_ok_iff.mpr (List.forall₂_map_right_iff.mpr hr.2)
  rw [Service.ofSource, hparts, hr.1]
  exact congrArg Except.ok (Service.ofParts_parts (s := s.asRead) hs.options.distinct)

end Services

section Files

def Schema.Part.asRead : Schema.Part → Schema.Part
  | .service s => .service s.asRead
  | p => p

theorem Schema.parts_asRead (s : Schema) : s.asRead.parts = s.parts.map Part.asRead := by
  simp only [parts, asRead, references, List.map_append, List.map_map, Function.comp_def, Part.asRead]

variable {s : Schema}

theorem Schema.prefers_dialect (text : String) (us : List (List Char)) :
    Source.Rules.statement.Prefers (Part.words (.dialect text) ++ us) us
      fun i => Schema.part i = .ok (.dialect text) := by
  have htext := prefers_terminal (Source.takes_quoted text.toList) trivial (";".toList :: us)
  have hread := (htext.between (v := "=") (w := ";") (by decide) (by decide)).after (w := "syntax") (by decide)
  refine (hread.map fun l hl => ?_).left
  rw [Schema.part, Lexeme.unquoted_quote hl]

theorem Schema.prefers_package {name : String} (hn : Terminal.dottedName.Takes name.toList) (us : List (List Char)) :
    Source.Rules.statement.Prefers (Part.words (.package name) ++ us) us
      fun i => Schema.part i = .ok (.package name) := by
  have hread := (prefers_terminal hn trivial (";".toList :: us)).between (v := "package") (by decide) (by decide)
  refine (hread.map fun l hl => ?_).left.right ?_
  · rw [Schema.part, hl, String.ofList_toList]
  · exact refuses_word (by decide) _

theorem Schema.prefers_import (path : String) (us : List (List Char)) :
    Source.Rules.statement.Prefers (Part.words (.import_ path) ++ us) us
      fun i => Schema.part i = .ok (.import_ path) := by
  have hw := Source.takes_quoted path.toList
  have hkind := (refuses_terminal (t := .importKind) (hw.isLexeme trivial)
    (Source.length_quote (t := .importKind) trivial (by decide) path.toList) trivial (";".toList :: us)).optional
  have hread := (hkind.both (prefers_terminal hw trivial (";".toList :: us))).between (v := "import") (by decide)
    (by decide)
  refine ((hread.map fun l hl => ?_).left.right ?_).right ?_
  · rw [Schema.part, Lexeme.unquoted_quote hl.2]
  all_goals exact refuses_word (by decide) _

theorem Schema.prefers_part (hs : s.IsWritable) (hn : s.NamesOneofs) :
    ∀ p ∈ s.parts, ∀ us,
      Source.Rules.statement.Prefers (p.words ++ us) us fun i => Schema.part i = .ok p.asRead := by
  intro p hp us
  simp only [parts, List.mem_append, List.mem_map] at hp
  rcases hp with (((((⟨text, -, rfl⟩ | ⟨name, hname, rfl⟩) | ⟨path, -, rfl⟩) | ⟨o, ho, rfl⟩) | ⟨m, hm, rfl⟩) |
    ⟨e, he, rfl⟩) | ⟨t, ht, rfl⟩
  · exact Schema.prefers_dialect text us
  · exact Schema.prefers_package (hs.package name (Option.mem_toList.mp hname)) us
  · exact Schema.prefers_import path us
  · have hread := Options.prefers_statement (hs.options.names o ho) (hs.options.values o ho) us
    refine (((hread.map fun i hi => ?_).left.right ?_).right ?_).right ?_
    · rw [Schema.part, hi]
      rfl
    all_goals exact refuses_word (by decide) _
  · have hread := (Message.prefers_words (hs.messages m hm) (hn m hm) us).self
    rw [Part.words, Message.words_eq] at *
    refine ((((hread.map fun i hi => ?_).left.right ?_).right ?_).right ?_).right ?_
    · rw [Schema.part, hi]
      rfl
    all_goals exact refuses_word (by decide) _
  · have hread := Enum.prefers_words (hs.enums e he) us
    refine (((((hread.map fun i hi => ?_).left.right ?_).right ?_).right ?_).right ?_).right ?_
    · rw [Schema.part, hi]
      rfl
    all_goals exact refuses_word (by decide) _
  · have hread := Service.prefers_words (hs.services t ht) us
    refine ((((((hread.map fun i hi => ?_).left.right ?_).right ?_).right ?_).right ?_).right ?_).right ?_
    · rw [Schema.part, hi]
      rfl
    all_goals exact refuses_word (by decide) _

theorem Schema.prefers_words (hs : s.IsWritable) (hn : s.NamesOneofs)
    (file : Option String) :
    Source.Rules.file.Prefers s.words [] fun f => Schema.ofSource file f = .ok { s.asRead with file := file } := by
  have hend : Source.Rules.statement.Refuses [] := Source.Grammar.refuses_nil (by decide) rfl
  have hstatements := Source.Grammar.prefers_many (by decide) rfl (Schema.prefers_part hs hn) hend
  rw [List.append_nil] at hstatements
  refine hstatements.map fun l hl => ?_
  have hparts : l.mapM Schema.part = .ok s.asRead.parts := by
    rw [Schema.parts_asRead]
    exact mapM_eq_ok_iff.mpr (List.forall₂_map_right_iff.mpr hl)
  rw [Schema.ofSource, hparts]
  exact congrArg Except.ok (Schema.ofParts_parts (s := s.asRead) hs.options.distinct hs.imports file)

theorem Schema.ofText_text_eq_asRead (hs : s.IsWritable)
    (hn : s.NamesOneofs) (file : Option String) :
    Schema.ofText file s.text = .ok { s.asRead with file := file } := by
  have hlaid : Source.LaysOut false s.words s.text.toList := by
    rw [text, String.toList_ofList]
    exact Source.laysOut_intercalate s.words
  obtain ⟨f, hf, hread⟩ := Source.complete_of_prefers (Schema.prefers_words hs hn file) hlaid
  rw [Schema.ofText, Source.parse, hf]
  exact hread

theorem Rpc.typeAsRead_eq_self {streamed : Bool} {type : String} (h : streamed = false → hiddenType type = none) :
    typeAsRead streamed type = (streamed, type) := by
  cases streamed with
  | true => rfl
  | false => exact typeAsRead_of_eq_none (h rfl) false

theorem Rpc.asRead_eq_self {r : Rpc} (h : r.HidesNothing) : r.asRead = r := by
  rw [asRead, typeAsRead_eq_self h.request, typeAsRead_eq_self h.response]

theorem Service.asRead_eq_self {t : Service} (h : ∀ r ∈ t.rpcs, r.HidesNothing) : t.asRead = t := by
  have hrpcs : t.rpcs.map Rpc.asRead = t.rpcs :=
    (List.map_congr_left fun r hr => Rpc.asRead_eq_self (h r hr)).trans (List.map_id _)
  rw [asRead, hrpcs]

theorem Schema.asRead_eq_self (h : s.HidesNothing) : s.asRead = s := by
  have hservices : s.services.map Service.asRead = s.services :=
    (List.map_congr_left fun t ht => Service.asRead_eq_self (h t ht)).trans (List.map_id _)
  rw [asRead, hservices]
  cases s
  rfl

theorem Schema.ofText_text (hs : s.IsWritable) (hn : s.NamesOneofs) (hh : s.HidesNothing) (file : Option String) :
    Schema.ofText file s.text = .ok { s with file := file } := by
  have hread := Schema.ofText_text_eq_asRead hs hn file
  rwa [Schema.asRead_eq_self hh] at hread

section Instances

def Schema.declaring (messages : List Message) (enums : List Enum) (services : List Service) : Schema :=
  ⟨⟨none, none, none, [], messages, enums, services⟩, []⟩

theorem Schema.isWritable_declaring {messages : List Message} {enums : List Enum} {services : List Service}
    (hm : ∀ m ∈ messages, m.Everywhere Message.IsWritable) (he : ∀ e ∈ enums, e.IsWritable)
    (hs : ∀ t ∈ services, t.IsWritable) : (declaring messages enums services).IsWritable where
  package := fun _ hp => absurd hp (Option.not_mem_none _)
  imports := fun _ hi => absurd hi List.not_mem_nil
  options := Options.isWritable_nil
  messages := hm
  enums := he
  services := hs

def Message.choosing (name : String) (fields : List Field) (oneofs : Table (List Int)) : Message :=
  ⟨name, fields, [], [], [], oneofs, none⟩

theorem Message.everywhere_choosing {P : Message → Prop} {name : String} {fields : List Field}
    {oneofs : Table (List Int)} (h : P (choosing name fields oneofs)) : (choosing name fields oneofs).Everywhere P :=
  .intro h fun _ hn => absurd hn List.not_mem_nil

theorem Message.isWritable_choosing {name : String} {fields : List Field} {oneofs : Table (List Int)}
    (hn : Terminal.identifier.Takes name.toList) (hf : ∀ f ∈ fields, f.IsWritable) (ha : Arranged fields oneofs)
    (hd : (Table.names oneofs).Nodup) : (choosing name fields oneofs).IsWritable where
  name := hn
  fields := hf
  arranged := ha
  distinct := hd
  enums := fun _ he => absurd he List.not_mem_nil
  options := Options.isWritable_nil
  extensions := fun _ hr => absurd hr (Option.not_mem_none _)

def Service.serving (name : String) (r : Rpc) : Service := ⟨name, [r], []⟩

theorem Service.isWritable_serving {name : String} {r : Rpc} (hn : Terminal.identifier.Takes name.toList)
    (hr : r.IsWritable) : (serving name r).IsWritable where
  name := hn
  rpcs := List.forall_mem_singleton.mpr hr
  options := Options.isWritable_nil

def keywordField : Field := ⟨"optional", "optionalThing", "to", 1, [], none, some "oneof"⟩

theorem isWritable_keywordField : keywordField.IsWritable where
  rule := by decide
  keyed := by decide
  single := by decide
  key := fun _ hk => absurd hk (Option.not_mem_none _)
  type := by decide
  name := by decide
  natural := by decide
  short := Number.fits_iff_length_le.mpr (by decide)
  options := Options.isWritable_nil

def keywordMessage : Message := .choosing "message" [keywordField] [("oneof", [1])]

def keywordRpc : Rpc := ⟨"returns", "stream", false, "stream.message", false, []⟩

def keywordSchema : Schema := .declaring [keywordMessage] [] [.serving "rpc" keywordRpc]

theorem Schema.ofText_text_keywords :
    keywordSchema.IsWritable ∧ keywordSchema.NamesOneofs ∧ keywordSchema.HidesNothing ∧
      Schema.ofText none keywordSchema.text = .ok keywordSchema := by
  have hmessage : keywordMessage.IsWritable :=
    Message.isWritable_choosing (by decide) (List.forall_mem_singleton.mpr isWritable_keywordField)
      (.oneof (List.forall_mem_singleton.mpr rfl) .nil) (by decide)
  have hrpc : keywordRpc.IsWritable := ⟨by decide, by decide, by decide, Options.isWritable_nil⟩
  have hs : keywordSchema.IsWritable :=
    Schema.isWritable_declaring (List.forall_mem_singleton.mpr (Message.everywhere_choosing hmessage))
      (fun _ he => absurd he List.not_mem_nil)
      (List.forall_mem_singleton.mpr (Service.isWritable_serving (by decide) hrpc))
  have hn : keywordSchema.NamesOneofs :=
    List.forall_mem_singleton.mpr (Message.everywhere_choosing (List.forall_mem_singleton.mpr (by decide)))
  have hh : keywordSchema.HidesNothing :=
    List.forall_mem_singleton.mpr (List.forall_mem_singleton.mpr ⟨fun _ => by decide +kernel, fun _ => by decide +kernel⟩)
  exact ⟨hs, hn, hh, Schema.ofText_text hs hn hh none⟩

def hidingSchema : Schema := .declaring [] [] [.serving "S" ⟨"F", "stream.Event", false, "A", false, []⟩]

def unnamedSchema : Schema := .declaring [.choosing "M" [] [("a \x7b \x7d oneof b", [])]] [] []

def namedSchema : Schema := .declaring [.choosing "M" [] [("a", []), ("b", [])]] [] []

theorem Schema.ofText_text_ne :
    (hidingSchema.IsWritable ∧ hidingSchema.NamesOneofs ∧ Schema.ofText none hidingSchema.text ≠ .ok hidingSchema) ∧
      unnamedSchema.IsWritable ∧ unnamedSchema.HidesNothing ∧
        Schema.ofText none unnamedSchema.text ≠ .ok unnamedSchema := by
  have hrpc : Rpc.IsWritable ⟨"F", "stream.Event", false, "A", false, []⟩ :=
    ⟨by decide, by decide, by decide, Options.isWritable_nil⟩
  have hhiding : hidingSchema.IsWritable :=
    Schema.isWritable_declaring (fun _ hm => absurd hm List.not_mem_nil) (fun _ he => absurd he List.not_mem_nil)
      (List.forall_mem_singleton.mpr (Service.isWritable_serving (by decide) hrpc))
  have hnames : hidingSchema.NamesOneofs := fun _ hm => absurd hm List.not_mem_nil
  have hempty : ∀ {oneofs : Table (List Int)}, Message.Arranged [] oneofs → (Table.names oneofs).Nodup →
      (Schema.declaring [.choosing "M" [] oneofs] [] []).IsWritable := fun ha hd =>
    Schema.isWritable_declaring
      (List.forall_mem_singleton.mpr (Message.everywhere_choosing
        (Message.isWritable_choosing (by decide) (fun _ hf => absurd hf List.not_mem_nil) ha hd)))
      (fun _ he => absurd he List.not_mem_nil) fun _ hs => absurd hs List.not_mem_nil
  have hblock : ∀ {name : String} {oneofs : Table (List Int)}, Message.Arranged [] oneofs →
      Message.Arranged [] ((name, []) :: oneofs) := fun ha => .oneof (fun _ hf => absurd hf List.not_mem_nil) ha
  have hnamed : namedSchema.IsWritable := hempty (hblock (hblock .nil)) (by decide)
  have honeofs : namedSchema.NamesOneofs :=
    List.forall_mem_singleton.mpr (Message.everywhere_choosing (by unfold Message.NamesOneofs; decide))
  have hsame : unnamedSchema.text = namedSchema.text := congrArg String.ofList (by decide)
  refine ⟨⟨hhiding, hnames, ?_⟩, hempty (hblock .nil) (by decide), fun _ hs => absurd hs List.not_mem_nil, ?_⟩
  · rw [Schema.ofText_text_eq_asRead hhiding hnames]
    intro h
    have hstreams := congrArg (fun r : Except Failure Schema =>
      r.toOption.map fun s => s.services.map fun t => t.rpcs.map Rpc.requestStream) h
    exact absurd hstreams (by decide +kernel)
  · rw [hsame, Schema.ofText_text_eq_asRead hnamed honeofs]
    intro h
    have hnumber := congrArg (fun r : Except Failure Schema =>
      r.toOption.map fun s => s.messages.map fun m => m.oneofs.length) h
    exact absurd hnumber (by decide)

end Instances

end Files

end ProtoBundle
