import ProtoBundle.Proofs.Json.Grammar
import ProtoBundle.Proofs.Number.Reading
import ProtoBundle.Proofs.Schema.Computations
import ProtoBundle.Proofs.Schema.Tables
import ProtoBundle.Proofs.Source.Acceptance
import ProtoBundle.Schema.Document

namespace ProtoBundle

open Source (Terminal Lexeme Tree)
open Number (Binary64)

def Number.Binary64.IsWrittenIn (x : Binary64) (ts : List (Terminal × Lexeme)) : Prop :=
  ∃ l, (Terminal.float, l) ∈ ts ∧ x = .ofText l.text.toList

def Json.Carries (j : Json) (ts : List (Terminal × Lexeme)) : Prop := ∀ x ∈ j.floats, x.IsWrittenIn ts

namespace Json

variable {ts us : List (Terminal × Lexeme)} {j : Json}

theorem Carries.mono (h : j.Carries ts) (hs : ts ⊆ us) : j.Carries us := by
  intro x hx
  obtain ⟨l, hl, he⟩ := h x hx
  exact ⟨l, hs hl, he⟩

theorem mem_ofItems {js : List Json} {x : Binary64} : x ∈ floats.ofItems js ↔ ∃ j ∈ js, x ∈ j.floats := by
  induction js with
  | nil => simp [floats.ofItems]
  | cons j js ih => simp [floats.ofItems, ih]

theorem mem_ofMembers {ms : List (String × Json)} {x : Binary64} :
    x ∈ floats.ofMembers ms ↔ ∃ m ∈ ms, x ∈ m.2.floats := by
  induction ms with
  | nil => simp [floats.ofMembers]
  | cons m ms ih => simp [floats.ofMembers, ih]

theorem carries_array {js : List Json} (h : ∀ j ∈ js, j.Carries ts) : (array js).Carries ts := by
  intro x hx
  obtain ⟨j, hj, hx⟩ := mem_ofItems.mp hx
  exact h j hj x hx

theorem carries_filterMap {π α : Type} {select : π → Option α} {document : α → Json} {parts : List π}
    (h : ∀ p ∈ parts, ∀ a ∈ select p, (document a).Carries ts) :
    (array ((parts.filterMap select).map document)).Carries ts := by
  refine carries_array fun j hj => ?_
  obtain ⟨a, ha, rfl⟩ := List.mem_map.mp hj
  obtain ⟨p, hp, ha⟩ := List.mem_filterMap.mp ha
  exact h p hp a ha

theorem carries_object {ms : List (String × Json)} (h : ∀ m ∈ ms, m.2.Carries ts) : (object ms).Carries ts := by
  intro x hx
  obtain ⟨m, hm, hx⟩ := mem_ofMembers.mp hx
  exact h m hm x hx

theorem carries_of_floats_eq_nil (h : j.floats = []) (ts : List (Terminal × Lexeme)) : j.Carries ts :=
  fun _ hx => absurd (h ▸ hx) List.not_mem_nil

theorem carries_text (s : String) : (text s).Carries ts := carries_of_floats_eq_nil rfl ts

theorem carries_integer (i : Int) : (integer i).Carries ts := carries_of_floats_eq_nil rfl ts

theorem carries_flag (b : Bool) : (flag b).Carries ts := carries_of_floats_eq_nil rfl ts

theorem carries_numbers (is : List Int) : (numbers is).Carries ts :=
  carries_array fun j hj => by
    obtain ⟨i, -, rfl⟩ := List.mem_map.mp hj
    exact carries_integer i

theorem carries_present {α : Type} (name : String) (document : α → Json) (h : ∀ a, (document a).Carries ts)
    (o : Option α) : ∀ m ∈ present name document o, m.2.Carries ts := by
  cases o with
  | none => exact fun m hm => absurd hm List.not_mem_nil
  | some a => exact List.forall_mem_singleton.mpr (h a)

end Json

open Json

section Options

theorem Options.carries_entry {s : Source.Setting} {e : String × Value} (h : Options.entry s = .ok e)
    (construct : Source.Construct) : e.2.document.Carries (Tree.ofSetting construct s).tokens := by
  obtain ⟨v, hv, rfl⟩ := exists_of_map_eq_ok h
  have hvalue : v.document.Carries (Tree.ofConstant s.value).tokens := by
    unfold Value.ofConstant at hv
    split at hv
    · rename_i l hl
      cases hv
      intro x hx
      exact ⟨l, by rw [hl]; exact List.mem_singleton_self _, List.mem_singleton.mp hx⟩
    · cases hv
      exact carries_text _
    · obtain ⟨i, -, rfl⟩ := exists_of_map_eq_ok hv
      exact carries_integer i
    · cases hv
      exact carries_text _
    · cases hv
      unfold Value.ofName
      split
      · exact carries_flag _
      · split
        · exact carries_flag _
        · exact carries_text _
  exact hvalue.mono (Tree.tokens_subset_of_mem (by simp) construct)

theorem Options.carries_ofList {entries : List (String × Value)} {ts : List (Terminal × Lexeme)}
    (h : ∀ e ∈ entries, e.2.document.Carries ts) : (Options.document (Table.ofList entries)).Carries ts := by
  refine carries_object fun m hm => ?_
  obtain ⟨e, he, rfl⟩ := List.mem_map.mp hm
  exact h e (Table.mem_of_mem_ofList he)

theorem Options.carries_filterMap {π : Type} {select : π → Option (String × Value)} {parts : List π}
    {ts : List (Terminal × Lexeme)} (h : ∀ p ∈ parts, ∀ e ∈ select p, e.2.document.Carries ts) :
    (Options.document (Table.ofList (parts.filterMap select))).Carries ts := by
  refine Options.carries_ofList fun e he => ?_
  obtain ⟨p, hp, he⟩ := List.mem_filterMap.mp he
  exact h p hp e he

theorem Options.carries_ofSettings {settings : Option (List Source.Setting)} {o : Options}
    (h : Options.ofSettings settings = .ok o) : (Options.document o).Carries (Tree.ofSettings settings).tokens := by
  obtain ⟨entries, he, rfl⟩ := exists_of_map_eq_ok h
  refine Options.carries_ofList fun e hm => ?_
  obtain ⟨s, hs, hse⟩ := exists_mem_of_mapM he hm
  cases settings with
  | none => cases hs
  | some list =>
      exact (Options.carries_entry hse .setting).mono
        (Tree.tokens_subset_of_mem (List.mem_map.mpr ⟨s, hs, rfl⟩) .settings)

end Options

section Fields

variable {ts : List (Terminal × Lexeme)}

theorem Field.carries_document {f : Field} (h : (Options.document f.options).Carries ts) : f.document.Carries ts := by
  refine carries_object (List.forall_mem_append.mpr ⟨List.forall_mem_append.mpr ⟨?_, ?_⟩, ?_⟩)
  · simp only [List.forall_mem_cons]
    exact ⟨carries_text _, carries_text _, carries_text _, carries_integer _, h, fun _ hm => absurd hm List.not_mem_nil⟩
  · exact carries_present _ _ carries_text _
  · exact carries_present _ _ carries_text _

theorem Field.carries_ofSource {f : Source.Field} {field : Field} (h : Field.ofSource f = .ok field) :
    field.document.Carries (Tree.ofField f).tokens := by
  obtain ⟨options, number, ho, -, rfl⟩ := exists_of_numbered h
  exact Field.carries_document ((Options.carries_ofSettings ho).mono (Tree.tokens_subset_of_mem (by simp) .field))

theorem Field.carries_ofMap {f : Source.MapField} {field : Field} (h : Field.ofMap f = .ok field) :
    field.document.Carries (Tree.ofMapField f).tokens := by
  obtain ⟨options, number, ho, -, rfl⟩ := exists_of_numbered h
  exact Field.carries_document ((Options.carries_ofSettings ho).mono (Tree.tokens_subset_of_mem (by simp) .mapField))

theorem Field.carries_ofOneofItem {oneof : String} {item : Source.OneofItem} {field : Field}
    (h : Field.ofOneofItem oneof item = .ok (some field)) : field.document.Carries (Tree.ofOneofItem item).tokens := by
  cases item with
  | field f =>
      obtain ⟨g, hg, he⟩ := exists_of_map_eq_ok h
      cases he
      obtain ⟨options, number, ho, -, rfl⟩ := exists_of_numbered hg
      exact Field.carries_document
        ((Options.carries_ofSettings ho).mono (Tree.tokens_subset_of_mem (by simp) .oneofField))
  | option s =>
      obtain ⟨e, -, he⟩ := exists_of_map_eq_ok h
      cases he
  | empty => cases h

end Fields

section Enums

variable {ts : List (Terminal × Lexeme)}

theorem EnumValue.carries_document (v : EnumValue) : v.document.Carries ts := by
  refine carries_object ?_
  simp only [List.forall_mem_cons]
  exact ⟨carries_text _, carries_integer _, fun _ hm => absurd hm List.not_mem_nil⟩

theorem Enum.carries_part {item : Source.EnumItem} {p : Enum.Part} (h : Enum.part item = .ok p) :
    ∀ e ∈ p.option?, e.2.document.Carries (Tree.ofEnumItem item).tokens := by
  rintro e he
  cases item with
  | option s =>
      obtain ⟨_, hs, rfl⟩ := exists_of_map_eq_ok h
      cases he
      exact Options.carries_entry hs .optionStatement
  | value v =>
      obtain ⟨_, -, rfl⟩ := exists_of_map_eq_ok h
      cases he
  | reserved items =>
      obtain ⟨_, -, rfl⟩ := exists_of_map_eq_ok h
      cases he
  | empty =>
      cases h
      cases he

theorem Enum.carries_ofSource {e : Source.Enum} {enum : Enum} (h : Enum.ofSource e = .ok enum) :
    enum.document.Carries (Tree.ofEnum e).tokens := by
  obtain ⟨parts, hp, rfl⟩ := exists_of_map_eq_ok h
  have hoptions : (Options.document (Enum.ofParts e.name.text parts).options).Carries (Tree.ofEnum e).tokens := by
    refine Options.carries_filterMap fun p hm entry he => ?_
    obtain ⟨item, hi, hpart⟩ := exists_mem_of_mapM hp hm
    exact (Enum.carries_part hpart entry he).mono
      (Tree.tokens_subset_of_mem (List.mem_cons_of_mem _ (List.mem_map_of_mem hi)) .enum)
  refine carries_object ?_
  simp only [List.forall_mem_cons]
  refine ⟨carries_text _, carries_array fun j hj => ?_, hoptions, fun _ hm => absurd hm List.not_mem_nil⟩
  obtain ⟨v, -, rfl⟩ := List.mem_map.mp hj
  exact v.carries_document

end Enums

section Messages

variable {ts us : List (Terminal × Lexeme)}

def Message.Part.Carries (ts : List (Terminal × Lexeme)) : Message.Part → Prop
  | .field f => f.document.Carries ts
  | .oneof _ fields => ∀ f ∈ fields, f.document.Carries ts
  | .message m => m.document.Carries ts
  | .enum e => e.document.Carries ts
  | .option entry => entry.2.document.Carries ts
  | .extensions _ => True
  | .nothing => True

theorem Message.Part.Carries.mono {p : Message.Part} (h : p.Carries ts) (hs : ts ⊆ us) : p.Carries us := by
  cases p with
  | oneof name fields => exact fun f hf => (h f hf).mono hs
  | extensions range => trivial
  | nothing => trivial
  | _ => exact Json.Carries.mono h hs

theorem Message.carries_ofParts (name : String) {parts : List Message.Part} (h : ∀ p ∈ parts, p.Carries ts) :
    (Message.ofParts name parts).document.Carries ts := by
  have hfields : (Json.array ((parts.flatMap Message.Part.fields).map Field.document)).Carries ts := by
    refine carries_array fun j hj => ?_
    obtain ⟨f, hf, rfl⟩ := List.mem_map.mp hj
    obtain ⟨p, hp, hf⟩ := List.mem_flatMap.mp hf
    have hc := h p hp
    cases p with
    | field g => exact List.mem_singleton.mp hf ▸ hc
    | oneof name fields => exact hc f hf
    | _ => cases hf
  have hmessages : (Json.array (Message.document.documents (parts.filterMap Message.Part.message?))).Carries ts := by
    rw [Message.documents_eq_map]
    refine Json.carries_filterMap fun p hp m hm => ?_
    have hc := h p hp
    cases p <;> cases hm
    exact hc
  have henums : (Json.array ((parts.filterMap Message.Part.enum?).map Enum.document)).Carries ts := by
    refine Json.carries_filterMap fun p hp e he => ?_
    have hc := h p hp
    cases p <;> cases he
    exact hc
  have hoptions : (Options.document (Table.ofList (parts.filterMap Message.Part.option?))).Carries ts := by
    refine Options.carries_filterMap fun p hp e he => ?_
    have hc := h p hp
    cases p <;> cases he
    exact hc
  refine carries_object (List.forall_mem_append.mpr ⟨?_, carries_present _ _ carries_numbers _⟩)
  simp only [List.forall_mem_cons]
  refine ⟨carries_text _, hfields, henums, hmessages, hoptions, carries_object fun m hm => ?_,
    fun _ hm => absurd hm List.not_mem_nil⟩
  obtain ⟨e, -, rfl⟩ := List.mem_map.mp hm
  exact carries_numbers e.2

theorem Message.carries_readOneof {o : Source.Oneof} {p : Message.Part} (h : Message.readOneof o = .ok p) :
    p.Carries (Tree.ofOneof o).tokens := by
  obtain ⟨fields, hf, rfl⟩ := exists_of_map_eq_ok h
  intro f hm
  obtain ⟨_, hm, rfl⟩ := List.mem_filterMap.mp hm
  obtain ⟨item, hi, hitem⟩ := exists_mem_of_mapM hf hm
  exact (Field.carries_ofOneofItem hitem).mono
    (Tree.tokens_subset_of_mem (List.mem_cons_of_mem _ (List.mem_map_of_mem hi)) .oneof)

mutual

theorem Message.carries_part : ∀ (item : Source.MessageItem) (p : Message.Part), Message.part item = .ok p →
    p.Carries (Tree.ofMessageItem item).tokens
  | .field f, p, h => by
      obtain ⟨_, hf, rfl⟩ := exists_of_map_eq_ok h
      exact Field.carries_ofSource hf
  | .map f, p, h => by
      obtain ⟨_, hf, rfl⟩ := exists_of_map_eq_ok h
      exact Field.carries_ofMap hf
  | .oneof o, p, h => Message.carries_readOneof h
  | .message name items, p, h => by
      obtain ⟨parts, hp, rfl⟩ := exists_of_map_eq_ok h
      refine Message.carries_ofParts name.text fun q hq => ?_
      obtain ⟨item, hi, hc⟩ := Message.carries_parts items parts hp q hq
      refine hc.mono (Tree.tokens_subset_of_mem (List.mem_cons_of_mem _ ?_) .message)
      rw [Tree.ofMessageItems_eq_map]
      exact List.mem_map_of_mem hi
  | .enum e, p, h => by
      obtain ⟨_, he, rfl⟩ := exists_of_map_eq_ok h
      exact Enum.carries_ofSource he
  | .option s, p, h => by
      obtain ⟨_, hs, rfl⟩ := exists_of_map_eq_ok h
      exact Options.carries_entry hs .optionStatement
  | .reserved items, p, h => by
      obtain ⟨_, -, rfl⟩ := exists_of_map_eq_ok h
      trivial
  | .extensions e, p, h => by
      obtain ⟨_, -, h⟩ := exists_of_bind_eq_ok h
      obtain ⟨_, -, h⟩ := exists_of_bind_eq_ok h
      cases h
      trivial
  | .empty, p, h => by
      cases h
      trivial

theorem Message.carries_parts : ∀ (items : List Source.MessageItem) (parts : List Message.Part),
    Message.part.parts items = .ok parts →
      ∀ p ∈ parts, ∃ item ∈ items, p.Carries (Tree.ofMessageItem item).tokens
  | [], parts, h => by
      cases h
      exact fun _ hp => absurd hp List.not_mem_nil
  | item :: items, parts, h => by
      obtain ⟨q, hq, h⟩ := exists_of_bind_eq_ok h
      obtain ⟨qs, hqs, h⟩ := exists_of_bind_eq_ok h
      cases h
      refine List.forall_mem_cons.mpr ⟨⟨item, List.mem_cons_self, Message.carries_part item q hq⟩, fun p hp => ?_⟩
      obtain ⟨i, hi, hc⟩ := Message.carries_parts items qs hqs p hp
      exact ⟨i, List.mem_cons_of_mem _ hi, hc⟩

end

end Messages

section Services

theorem Service.carries_readRpc {r : Source.Rpc} {rpc : Rpc} (h : Service.readRpc r = .ok rpc) :
    rpc.document.Carries (Tree.ofRpc r).tokens := by
  obtain ⟨entries, hentries, h⟩ := exists_of_bind_eq_ok h
  cases h
  have hbody : (Options.document (Table.ofList (entries.filterMap id))).Carries
      (Source.Tree.node .rpcBody (r.body.map Tree.ofServiceOption)).tokens := by
    refine Options.carries_filterMap fun _ hm e he => ?_
    cases he
    obtain ⟨item, hi, hitem⟩ := exists_mem_of_mapM hentries hm
    cases item with
    | option s =>
        obtain ⟨_, hs, h⟩ := exists_of_map_eq_ok hitem
        cases h
        have hm : Tree.ofOption s ∈ r.body.map Tree.ofServiceOption := List.mem_map.mpr ⟨_, hi, rfl⟩
        exact (Options.carries_entry hs .optionStatement).mono (Tree.tokens_subset_of_mem hm .rpcBody)
    | empty => cases hitem
  refine carries_object ?_
  simp only [List.forall_mem_cons]
  exact ⟨carries_text _, carries_flag _, carries_text _, carries_flag _,
    hbody.mono (Tree.tokens_subset_of_mem (by simp) .rpc), fun _ hm => absurd hm List.not_mem_nil⟩

def Service.Part.Carries (ts : List (Terminal × Lexeme)) : Service.Part → Prop
  | .rpc r => r.document.Carries ts
  | .option entry => entry.2.document.Carries ts
  | .nothing => True

theorem Service.carries_part {item : Source.ServiceItem} {p : Service.Part} (h : Service.part item = .ok p) :
    p.Carries (Tree.ofServiceItem item).tokens := by
  cases item with
  | rpc r =>
      obtain ⟨_, hr, rfl⟩ := exists_of_map_eq_ok h
      exact Service.carries_readRpc hr
  | option s =>
      obtain ⟨_, hs, rfl⟩ := exists_of_map_eq_ok h
      exact Options.carries_entry hs .optionStatement
  | empty =>
      cases h
      trivial

theorem Service.carries_ofSource {s : Source.Service} {service : Service} (h : Service.ofSource s = .ok service) :
    service.document.Carries (Tree.ofService s).tokens := by
  obtain ⟨parts, hp, rfl⟩ := exists_of_map_eq_ok h
  have hitem {e : Json} {p : Service.Part} (hm : p ∈ parts) (he : ∀ ts, p.Carries ts → e.Carries ts) :
      e.Carries (Tree.ofService s).tokens := by
    obtain ⟨item, hi, hpart⟩ := exists_mem_of_mapM hp hm
    exact (he _ (Service.carries_part hpart)).mono
      (Tree.tokens_subset_of_mem (List.mem_cons_of_mem _ (List.mem_map_of_mem hi)) .service)
  have hrpcs : (Json.object (Table.ofList ((parts.filterMap Service.Part.rpc?).map fun r =>
      (r.name, r.document)))).Carries (Tree.ofService s).tokens := by
    refine carries_object fun m hm => ?_
    obtain ⟨r, hr, rfl⟩ := List.mem_map.mp (Table.mem_of_mem_ofList hm)
    obtain ⟨p, hp, hr⟩ := List.mem_filterMap.mp hr
    cases p <;> cases hr
    exact hitem hp fun _ h => h
  have hoptions : (Options.document (Table.ofList (parts.filterMap Service.Part.option?))).Carries
      (Tree.ofService s).tokens := by
    refine Options.carries_filterMap fun p hp e he => ?_
    cases p <;> cases he
    exact hitem hp fun _ h => h
  refine carries_object ?_
  simp only [List.forall_mem_cons]
  exact ⟨carries_text _, hrpcs, hoptions, fun _ hm => absurd hm List.not_mem_nil⟩

end Services

section Schemas

variable {ts : List (Terminal × Lexeme)}

def Schema.Part.Carries (ts : List (Terminal × Lexeme)) : Schema.Part → Prop
  | .option entry => entry.2.document.Carries ts
  | .message m => m.document.Carries ts
  | .enum e => e.document.Carries ts
  | .service s => s.document.Carries ts
  | _ => True

theorem Schema.carries_part {statement : Source.Statement} {p : Schema.Part} (h : Schema.part statement = .ok p) :
    p.Carries (Tree.ofStatement statement).tokens := by
  cases statement with
  | option s =>
      obtain ⟨_, hs, rfl⟩ := exists_of_map_eq_ok h
      exact Options.carries_entry hs .optionStatement
  | message m =>
      obtain ⟨_, hm, rfl⟩ := exists_of_map_eq_ok h
      obtain ⟨parts, hp, rfl⟩ := exists_of_map_eq_ok hm
      refine Message.carries_part (.ofMessage m) (.message (Message.ofParts m.name.text parts)) ?_
      rw [Source.MessageItem.ofMessage, Message.part, hp]
      rfl
  | enum e =>
      obtain ⟨_, he, rfl⟩ := exists_of_map_eq_ok h
      exact Enum.carries_ofSource he
  | service s =>
      obtain ⟨_, hs, rfl⟩ := exists_of_map_eq_ok h
      exact Service.carries_ofSource hs
  | _ =>
      cases h
      trivial

theorem carries_textOrNull (name : Option String) : (textOrNull name).Carries ts := by
  cases name with
  | none => exact carries_of_floats_eq_nil rfl ts
  | some s => exact carries_text s

theorem Schema.carries_imports (parts : List Schema.Part) :
    (Json.array (Schema.document.documents (parts.filterMap Schema.Part.import?))).Carries ts := by
  induction parts with
  | nil => exact carries_of_floats_eq_nil rfl ts
  | cons p parts ih => cases p <;> exact ih

theorem Schema.carries_ofParts (file : Option String) {parts : List Schema.Part} (h : ∀ p ∈ parts, p.Carries ts) :
    (Schema.ofParts file parts).document.Carries ts := by
  have hoptions : (Options.document (Table.ofList (parts.filterMap Schema.Part.option?))).Carries ts := by
    refine Options.carries_filterMap fun p hp e he => ?_
    have hc := h p hp
    cases p <;> cases he
    exact hc
  have hmessages : (Json.array ((parts.filterMap Schema.Part.message?).map Message.document)).Carries ts := by
    refine Json.carries_filterMap fun p hp m hm => ?_
    have hc := h p hp
    cases p <;> cases hm
    exact hc
  have henums : (Json.array ((parts.filterMap Schema.Part.enum?).map Enum.document)).Carries ts := by
    refine Json.carries_filterMap fun p hp e he => ?_
    have hc := h p hp
    cases p <;> cases he
    exact hc
  have hservices : (Json.array ((parts.filterMap Schema.Part.service?).map Service.document)).Carries ts := by
    refine Json.carries_filterMap fun p hp s hs => ?_
    have hc := h p hp
    cases p <;> cases hs
    exact hc
  have himports : (Json.array (Schema.document.documents (parts.filterMap Schema.Part.import?))).Carries ts :=
    Schema.carries_imports parts
  refine carries_object ?_
  simp only [List.forall_mem_append, List.forall_mem_cons, List.not_mem_nil, false_implies, implies_true, and_true]
  exact ⟨⟨carries_textOrNull _, carries_present _ _ carries_text _⟩, hoptions, hmessages, henums, himports, hservices⟩

theorem Schema.carries_ofSource {file : Option String} {f : Source.File} {s : Schema}
    (h : Schema.ofSource file f = .ok s) : s.document.Carries (Tree.ofFile f).tokens := by
  obtain ⟨parts, hp, rfl⟩ := exists_of_map_eq_ok h
  refine Schema.carries_ofParts file fun p hm => ?_
  obtain ⟨statement, hs, hpart⟩ := exists_mem_of_mapM hp hm
  have hc := Schema.carries_part hpart
  have ht : (Tree.ofStatement statement).tokens ⊆ (Tree.ofFile f).tokens :=
    Tree.tokens_subset_of_mem (List.mem_map_of_mem hs) .file
  cases p with
  | option entry => exact Json.Carries.mono hc ht
  | message m => exact Json.Carries.mono hc ht
  | enum e => exact Json.Carries.mono hc ht
  | service s => exact Json.Carries.mono hc ht
  | _ => trivial

end Schemas

section Literals

open Number

theorem head?_splitSign_float {cs : List Char} {n : Nat} (hn : n ∈ Source.signed Source.unsignedFloatLength cs) :
    ∃ c, (Binary64.splitSign (cs.take n)).2.head? = some c ∧ (Text.isDigit c = true ∨ c = '.') := by
  have hfirst : ∀ {cs : List Char} {n : Nat}, n ∈ Source.unsignedFloatLength cs →
      ∃ c, (cs.take n).head? = some c ∧ (Text.isDigit c = true ∨ c = '.') := by
    intro cs n hn
    obtain ⟨h0, c, hc, hd⟩ := Source.head_float hn
    exact ⟨c, by rw [List.head?_take, if_neg (by omega), hc], hd⟩
  cases cs with
  | nil => cases hn
  | cons c cs =>
      rw [Source.signed] at hn
      split at hn
      · rename_i hs
        obtain ⟨m, hm, rfl⟩ := Option.map_eq_some_iff.mp hn
        obtain ⟨d, hd, hc⟩ := hfirst hm
        rcases Source.Pattern.eq_of_isSign hs with rfl | rfl <;> exact ⟨d, hd, hc⟩
      · obtain ⟨d, hd, hc⟩ := hfirst hn
        have hsign : Binary64.splitSign ((c :: cs).take n) = (false, (c :: cs).take n) := by
          unfold Binary64.splitSign
          split
          · rename_i he
            rw [he] at hd
            cases hd
            exact absurd hc (by decide)
          · rename_i he
            rw [he] at hd
            cases hd
            exact absurd hc (by decide)
          · rfl
        exact ⟨d, by rw [hsign, hd], hc⟩

theorem Source.Spans.exists_read {c d : Source.Cursor} {ls : List (Terminal × Lexeme)} (h : Source.Spans c ls d) :
    ∀ s ∈ ls, ∃ m n, s.1.read m = some (s.2, n) := by
  induction h with
  | nil c => exact fun _ hs => absurd hs List.not_mem_nil
  | cons _ hr _ ih => exact List.forall_mem_cons.mpr ⟨⟨_, _, hr⟩, ih⟩

theorem ofText_ne_nan_of_read {l : Lexeme} {c d : Source.Cursor} (h : Terminal.float.read c = some (l, d)) :
    Binary64.ofText l.text.toList ≠ .nan := by
  obtain ⟨n, hn, rfl, -⟩ := Terminal.read_eq_some.mp h
  obtain ⟨e, he, hd⟩ := head?_splitSign_float hn
  rw [String.toList_ofList]
  refine Binary64.ofText_ne_nan fun hnan => ?_
  rw [he] at hnan
  cases hnan
  revert hd
  decide

theorem ofText_ne_nan_of_parse {text : List Char} {f : Source.File} (h : Source.parse text = .ok f) {l : Lexeme}
    (hl : (Terminal.float, l) ∈ (Tree.ofFile f).tokens) : Binary64.ofText l.text.toList ≠ .nan := by
  obtain ⟨ls, _, hs, -, ht⟩ := Source.exists_spans_of_parse h
  obtain ⟨_, _, hread⟩ := hs.exists_read _ (ht hl)
  exact ofText_ne_nan_of_read hread

end Literals

end ProtoBundle
