import ProtoBundle.Proofs.Rendering.Enclosure
import ProtoBundle.Proofs.Schema.Tables

namespace ProtoBundle

open Json (Layout)
open Number (decimal digitLimit)

def Options.Shows (o : Options) (i : Int) : Prop := ∃ name, (name, Value.integer i) ∈ o

def Field.Shows (f : Field) (i : Int) : Prop := i = f.number ∨ Options.Shows f.options i

def Enum.Shows (e : Enum) (i : Int) : Prop := (∃ v ∈ e.values, i = v.number) ∨ Options.Shows e.options i

inductive Message.Shows (i : Int) : Message → Prop where
  | field {m : Message} {f : Field} (hm : f ∈ m.fields) (h : f.Shows i) : Shows i m
  | enum {m : Message} {e : Enum} (hm : e ∈ m.enums) (h : e.Shows i) : Shows i m
  | message {m n : Message} (hm : n ∈ m.messages) (h : Shows i n) : Shows i m
  | option {m : Message} (h : Options.Shows m.options i) : Shows i m
  | oneof {m : Message} {o : String × List Int} (hm : o ∈ m.oneofs) (h : i ∈ o.2) : Shows i m
  | extensions {m : Message} {range : List Int} (hm : m.extensions = some range) (h : i ∈ range) : Shows i m

/-- Of several rpcs of one name only the last is shown. -/
inductive Service.Shows (i : Int) (s : Service) : Prop where
  | option (h : Options.Shows s.options i) : Shows i s
  | rpc {front back : List Rpc} {r : Rpc} (hm : s.rpcs = front ++ r :: back) (hl : ∀ q ∈ back, q.name ≠ r.name)
      (h : Options.Shows r.options i) : Shows i s

inductive Schema.Shows (i : Int) : Schema → Prop where
  | option {s : Schema} (h : Options.Shows s.options i) : Shows i s
  | message {s : Schema} {m : Message} (hm : m ∈ s.messages) (h : m.Shows i) : Shows i s
  | enum {s : Schema} {e : Enum} (hm : e ∈ s.enums) (h : e.Shows i) : Shows i s
  | service {s : Schema} {v : Service} (hm : v ∈ s.services) (h : v.Shows i) : Shows i s
  | inlined {s n : Schema} (hm : .inlined n ∈ s.imports) (h : Shows i n) : Shows i s

section Documents

variable {i : Int}

namespace Json

variable {α : Type} {document : α → Json} {as : List α}

theorem mem_integers_array : i ∈ (array (as.map document)).integers ↔ ∃ a ∈ as, i ∈ (document a).integers := by
  rw [integers, ofItems_eq_flatMap, List.flatMap_map, List.mem_flatMap]

theorem mem_integers_object {name : α → String} :
    i ∈ (object (as.map fun a => (name a, document a))).integers ↔ ∃ a ∈ as, i ∈ (document a).integers := by
  rw [integers, ofMembers_eq_flatMap, List.flatMap_map, List.mem_flatMap]

theorem mem_integers_cons {m : String × Json} {ms : List (String × Json)} :
    i ∈ (object (m :: ms)).integers ↔ i ∈ m.2.integers ∨ i ∈ (object ms).integers := by
  rw [integers, integers.ofMembers, List.mem_append, integers]

theorem mem_integers_append {ms ns : List (String × Json)} :
    i ∈ (object (ms ++ ns)).integers ↔ i ∈ (object ms).integers ∨ i ∈ (object ns).integers := by
  simp only [integers, ofMembers_eq_flatMap, List.flatMap_append, List.mem_append]

theorem not_mem_integers_nil : i ∉ (object []).integers := List.not_mem_nil

theorem not_mem_integers_text {s : String} : i ∉ (text s).integers := List.not_mem_nil

theorem not_mem_integers_flag {b : Bool} : i ∉ (flag b).integers := List.not_mem_nil

theorem mem_integers_integer {n : Int} : i ∈ (integer n).integers ↔ i = n := List.mem_singleton

theorem mem_integers_numbers {is : List Int} : i ∈ (numbers is).integers ↔ i ∈ is := by
  simp only [numbers, mem_integers_array, mem_integers_integer, exists_eq_right']

theorem mem_integers_present {name : String} {o : Option α} :
    i ∈ (object (present name document o)).integers ↔ ∃ a, o = some a ∧ i ∈ (document a).integers := by
  cases o with
  | none => simp [present, not_mem_integers_nil]
  | some a => simp [present, mem_integers_cons, not_mem_integers_nil]

end Json

open Json

theorem Options.mem_integers_document {o : Options} : i ∈ (Options.document o).integers ↔ Options.Shows o i := by
  have hvalue (v : Value) : i ∈ v.document.integers ↔ v = .integer i := by
    cases v <;> simp [Value.document, Json.integers, eq_comm]
  simp only [Options.document, mem_integers_object, hvalue, Options.Shows]
  constructor
  · rintro ⟨⟨name, v⟩, hm, rfl⟩
    exact ⟨name, hm⟩
  · rintro ⟨name, hm⟩
    exact ⟨(name, .integer i), hm, rfl⟩

theorem Field.mem_integers_document {f : Field} : i ∈ f.document.integers ↔ f.Shows i := by
  simp only [Field.document, mem_integers_append, mem_integers_cons, mem_integers_present, mem_integers_integer,
    not_mem_integers_nil, not_mem_integers_text, Options.mem_integers_document, Field.Shows, false_or, or_false,
    and_false, exists_false]

theorem Enum.mem_integers_document {e : Enum} : i ∈ e.document.integers ↔ e.Shows i := by
  have hvalue (v : EnumValue) : i ∈ v.document.integers ↔ i = v.number := by
    simp only [EnumValue.document, mem_integers_cons, mem_integers_integer, not_mem_integers_nil,
      not_mem_integers_text, false_or, or_false]
  simp only [Enum.document, mem_integers_cons, mem_integers_array, not_mem_integers_nil, not_mem_integers_text,
    Options.mem_integers_document, hvalue, Enum.Shows, false_or, or_false]

theorem Message.shows_iff {m : Message} : m.Shows i ↔
    (∃ f ∈ m.fields, f.Shows i) ∨ (∃ e ∈ m.enums, e.Shows i) ∨ (∃ n ∈ m.messages, n.Shows i) ∨
    Options.Shows m.options i ∨ (∃ o ∈ m.oneofs, i ∈ o.2) ∨ ∃ range, m.extensions = some range ∧ i ∈ range := by
  constructor
  · intro h
    cases h with
    | field hm h => exact .inl ⟨_, hm, h⟩
    | enum hm h => exact .inr (.inl ⟨_, hm, h⟩)
    | message hm h => exact .inr (.inr (.inl ⟨_, hm, h⟩))
    | option h => exact .inr (.inr (.inr (.inl h)))
    | oneof hm h => exact .inr (.inr (.inr (.inr (.inl ⟨_, hm, h⟩))))
    | extensions hm h => exact .inr (.inr (.inr (.inr (.inr ⟨_, hm, h⟩))))
  · rintro (⟨f, hm, h⟩ | ⟨e, hm, h⟩ | ⟨n, hm, h⟩ | h | ⟨o, hm, h⟩ | ⟨range, hm, h⟩)
    · exact .field hm h
    · exact .enum hm h
    · exact .message hm h
    · exact .option h
    · exact .oneof hm h
    · exact .extensions hm h

mutual

theorem Message.mem_integers_document : ∀ m : Message, i ∈ m.document.integers ↔ m.Shows i
  | ⟨name, fields, enums, messages, options, oneofs, extensions⟩ => by
      have hmessages := Message.mem_integers_documents messages
      rw [Message.shows_iff]
      simp only [Message.document, mem_integers_append, mem_integers_cons, mem_integers_array, mem_integers_object,
        mem_integers_present, mem_integers_numbers, not_mem_integers_nil, not_mem_integers_text,
        Field.mem_integers_document, Enum.mem_integers_document, Options.mem_integers_document, hmessages, false_or,
        or_false, or_assoc]

theorem Message.mem_integers_documents : ∀ ms : List Message,
    i ∈ (array (Message.document.documents ms)).integers ↔ ∃ m ∈ ms, m.Shows i
  | [] => by simp [Message.document.documents, Json.integers, Json.integers.ofItems]
  | m :: ms => by
      have hm := Message.mem_integers_document m
      have hms := Message.mem_integers_documents ms
      rw [Message.document.documents, Json.integers, Json.integers.ofItems, List.mem_append, hm,
        List.exists_mem_cons_iff, ← hms, Json.integers]

end

theorem Service.mem_integers_document {s : Service} : i ∈ s.document.integers ↔ s.Shows i := by
  have hrpc (r : Rpc) : i ∈ r.document.integers ↔ Options.Shows r.options i := by
    simp only [Rpc.document, mem_integers_cons, not_mem_integers_nil, not_mem_integers_text, not_mem_integers_flag,
      Options.mem_integers_document, false_or, or_false]
  have htable : i ∈ (object (Table.ofList (s.rpcs.map fun r => (r.name, r.document)))).integers ↔
      ∃ front r back, s.rpcs = front ++ r :: back ∧ (∀ q ∈ back, q.name ≠ r.name) ∧ Options.Shows r.options i := by
    rw [Json.integers, ofMembers_eq_flatMap, List.mem_flatMap]
    simp only [Table.mem_ofList_iff]
    -- the entries of the table are the documents of the last rpcs of their names
    constructor
    · rintro ⟨e, ⟨front, back, he, hb⟩, hi⟩
      obtain ⟨rfront, rest, hs, rfl, hrest⟩ := List.map_eq_append_iff.mp he
      obtain ⟨r, rback, rfl, rfl, rfl⟩ := List.map_eq_cons_iff.mp hrest
      exact ⟨rfront, r, rback, hs, fun q hq => hb _ (List.mem_map_of_mem hq), (hrpc r).mp hi⟩
    · rintro ⟨front, r, back, hs, hb, hi⟩
      refine ⟨(r.name, r.document), ⟨front.map _, back.map _, by rw [hs, List.map_append, List.map_cons], ?_⟩,
        (hrpc r).mpr hi⟩
      exact List.forall_mem_map.mpr hb
  simp only [Service.document, mem_integers_cons, not_mem_integers_nil, not_mem_integers_text,
    Options.mem_integers_document, htable, false_or, or_false]
  constructor
  · rintro (⟨front, r, back, hs, hb, hi⟩ | hi)
    · exact .rpc hs hb hi
    · exact .option hi
  · intro h
    cases h with
    | option hi => exact .inr hi
    | rpc hs hb hi => exact .inl ⟨_, _, _, hs, hb, hi⟩

theorem Schema.shows_iff {s : Schema} : s.Shows i ↔
    Options.Shows s.options i ∨ (∃ m ∈ s.messages, m.Shows i) ∨ (∃ e ∈ s.enums, e.Shows i) ∨
    (∃ n, .inlined n ∈ s.imports ∧ n.Shows i) ∨ ∃ v ∈ s.services, v.Shows i := by
  constructor
  · intro h
    cases h with
    | option h => exact .inl h
    | message hm h => exact .inr (.inl ⟨_, hm, h⟩)
    | enum hm h => exact .inr (.inr (.inl ⟨_, hm, h⟩))
    | inlined hm h => exact .inr (.inr (.inr (.inl ⟨_, hm, h⟩)))
    | service hm h => exact .inr (.inr (.inr (.inr ⟨_, hm, h⟩)))
  · rintro (h | ⟨m, hm, h⟩ | ⟨e, hm, h⟩ | ⟨n, hm, h⟩ | ⟨v, hm, h⟩)
    · exact .option h
    · exact .message hm h
    · exact .enum hm h
    · exact .inlined hm h
    · exact .service hm h

mutual

theorem Schema.mem_integers_document : ∀ s : Schema, i ∈ s.document.integers ↔ s.Shows i
  | ⟨⟨package, dialect, file, options, messages, enums, services⟩, imports⟩ => by
      have himports := Schema.mem_integers_documents imports
      have hpackage : i ∉ (textOrNull package).integers := by cases package <;> exact List.not_mem_nil
      rw [Schema.shows_iff]
      simp only [Schema.document, mem_integers_append, mem_integers_cons, mem_integers_array, mem_integers_present,
        not_mem_integers_nil, not_mem_integers_text, Options.mem_integers_document, Message.mem_integers_document,
        Enum.mem_integers_document, Service.mem_integers_document, hpackage, himports, false_or, or_false, and_false,
        exists_false]

theorem Schema.mem_integers_documents : ∀ imports : List (Import Schema),
    i ∈ (array (Schema.document.documents imports)).integers ↔ ∃ n, .inlined n ∈ imports ∧ n.Shows i
  | [] => by simp [Schema.document.documents, Json.integers, Json.integers.ofItems]
  | .reference path :: imports => by
      have hrest := Schema.mem_integers_documents imports
      rw [Json.integers] at hrest
      simp [Schema.document.documents, Json.integers, Json.integers.ofItems, hrest]
  | .inlined n :: imports => by
      have hn := Schema.mem_integers_document n
      have hrest := Schema.mem_integers_documents imports
      rw [Json.integers] at hrest
      rw [Schema.document.documents, Json.integers, Json.integers.ofItems, List.mem_append, hn, hrest]
      simp only [List.mem_cons, Import.inlined.injEq, or_and_right, exists_or, exists_eq_left]

end

end Documents

namespace Namespace

def Request.Names (s : Schema) (request : Request) (name : String) : Prop :=
  request = .named name ∨ request = .derived ∧ s.package = some name ∧ name ≠ ""

theorem Request.name?_eq_some_iff {s : Schema} {request : Request} {name : String} :
    request.name? s = some name ↔ request.Names s name := by
  cases request with
  | absent => simp [name?, Names]
  | named other => simp [name?, Names]
  | derived =>
      simp only [name?, Names, reduceCtorEq, false_or, true_and]
      split
      · rename_i hp
        simp only [hp, reduceCtorEq, Option.some.injEq, false_iff, not_and, not_not]
        exact Eq.symm
      · rename_i hne
        constructor
        · intro hp
          exact ⟨hp, fun hn => hne (hn ▸ hp)⟩
        · exact And.left

def Refuses (s : Schema) (c : Convention) (request : Request) (name : String) : Prop :=
  c ≠ .structural ∧ request.Names s name ∧ isValid s name = false

theorem resolve_eq_error_iff {s : Schema} {request : Request} {e : Failure} :
    resolve s request = .error e ↔
      ∃ name, request.Names s name ∧ isValid s name = false ∧ e = .illegalNamespace name := by
  simp only [← Request.name?_eq_some_iff]
  unfold resolve
  cases request.name? s with
  | none => simp
  | some name =>
      simp only [Option.some.injEq, exists_eq_left']
      cases isValid s name with
      | true => simp
      | false =>
          rw [if_neg Bool.false_ne_true, Except.error.injEq]
          exact ⟨fun he => ⟨rfl, he.symm⟩, fun he => he.2.symm⟩

theorem scope_eq_error_iff {s : Schema} {c : Convention} {request : Request} {e : Failure} :
    s.scope c request = .error e ↔ ∃ name, Refuses s c request name ∧ e = .illegalNamespace name := by
  unfold Schema.scope
  by_cases hc : c = .structural
  · simp [hc, Refuses]
  · rw [if_neg hc, resolve_eq_error_iff]
    simp only [Refuses, hc, ne_eq, not_false_eq_true, true_and, and_assoc]

end Namespace

open Namespace (Refuses)

theorem Schema.writable_iff {s : Schema} :
    s.document.writable = true ↔ ∀ i, s.Shows i → (decimal i.natAbs).length ≤ digitLimit := by
  simp only [Json.writable, List.all_eq_true, Schema.mem_integers_document, Number.fits_iff_length_le]

theorem Schema.render_outcome (s : Schema) (c : Convention) (request : Namespace.Request) (layout : Layout) :
    (∀ name, s.render c request layout = .error (.illegalNamespace name) ↔ Refuses s c request name) ∧
    (s.render c request layout = .error .integerTooLong ↔
      (∀ name, ¬Refuses s c request name) ∧ ∃ i, s.Shows i ∧ digitLimit < (decimal i.natAbs).length) ∧
    ((∃ text, s.render c request layout = .ok text) ↔
      (∀ name, ¬Refuses s c request name) ∧ ∀ i, s.Shows i → (decimal i.natAbs).length ≤ digitLimit) ∧
    ∀ e, s.render c request layout = .error e → e = .integerTooLong ∨ ∃ name, e = .illegalNamespace name := by
  have hlong : s.document.writable = false ↔ ∃ i, s.Shows i ∧ digitLimit < (decimal i.natAbs).length := by
    rw [← Bool.not_eq_true, Schema.writable_iff]
    simp only [not_forall, Nat.not_le, exists_prop]
  rw [← Schema.writable_iff, ← hlong, render_eq]
  cases hs : s.scope c request with
  | error e =>
      obtain ⟨name, hr, rfl⟩ := Namespace.scope_eq_error_iff.mp hs
      have hone : ∀ other, Refuses s c request other ↔ name = other := by
        intro other
        constructor
        · intro ho
          have he := Namespace.scope_eq_error_iff.mpr ⟨other, ho, rfl⟩
          rw [hs] at he
          cases he
          rfl
        · rintro rfl
          exact hr
      have hnone : ¬∀ other, ¬Refuses s c request other := fun h => h name hr
      simp [Except.bind, hone]
  | ok name =>
      have hnone : ∀ other, ¬Refuses s c request other := by
        intro other ho
        have he := Namespace.scope_eq_error_iff.mpr ⟨other, ho, rfl⟩
        rw [hs] at he
        cases he
      cases hw : s.document.writable <;> simp [Except.bind, hnone]

end ProtoBundle
