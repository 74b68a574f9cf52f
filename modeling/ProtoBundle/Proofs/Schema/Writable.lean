import Mathlib.Data.List.Basic
import ProtoBundle.Proofs.Schema.Tables
import ProtoBundle.Proofs.Schema.Writing

namespace ProtoBundle

open Source (Terminal)

def Value.IsWritable : Value → Prop
  | .integer i => Number.fits i = true
  | .float _ => False
  | .flag _ => True
  | .text _ => True

structure Options.IsWritable (o : Options) : Prop where
  distinct : (Table.names o).Nodup
  names : ∀ e ∈ o, Terminal.optionName.Takes e.1.toList
  values : ∀ e ∈ o, e.2.IsWritable

theorem Options.isWritable_nil : Options.IsWritable [] := by
  constructor
  · exact .nil
  · exact fun e he => absurd he List.not_mem_nil
  · exact fun e he => absurd he List.not_mem_nil

/-- The fields with a key are the maps, and the fields of a oneof are optional. -/
structure Field.IsWritable (f : Field) : Prop where
  rule : f.rule ∈ ["required", "optional", "repeated", "map"]
  keyed : f.rule = "map" ↔ f.keyType.isSome = true
  single : f.oneof.isSome = true → f.rule = "optional"
  key : ∀ k ∈ f.keyType, Terminal.typeName.Takes k.toList
  type : Terminal.typeName.Takes f.type.toList
  name : Terminal.identifier.Takes f.name.toList
  natural : 0 ≤ f.number
  short : Number.fits f.number = true
  options : Options.IsWritable f.options

structure EnumValue.IsWritable (v : EnumValue) : Prop where
  name : Terminal.identifier.Takes v.name.toList
  short : Number.fits v.number = true
  options : Options.IsWritable v.options

structure Enum.IsWritable (e : Enum) : Prop where
  name : Terminal.identifier.Takes e.name.toList
  values : ∀ v ∈ e.values, v.IsWritable
  options : Options.IsWritable e.options

inductive Message.Everywhere (P : Message → Prop) : Message → Prop
  | intro {m : Message} (own : P m) (inner : ∀ n ∈ m.messages, Everywhere P n) : Everywhere P m

/-- The fields of each oneof stand side by side, the oneofs are listed in the order of their fields, and with the
numbers of these. -/
inductive Message.Arranged : List Field → Table (List Int) → Prop
  | nil : Arranged [] []
  | field {f : Field} {fields : List Field} {oneofs : Table (List Int)} (hf : f.oneof = none)
      (h : Arranged fields oneofs) : Arranged (f :: fields) oneofs
  | oneof {name : String} {block fields : List Field} {oneofs : Table (List Int)}
      (hb : ∀ f ∈ block, f.oneof = some name) (h : Arranged fields oneofs) :
      Arranged (block ++ fields) ((name, block.map Field.number) :: oneofs)

structure Message.IsWritable (m : Message) : Prop where
  name : Terminal.identifier.Takes m.name.toList
  fields : ∀ f ∈ m.fields, f.IsWritable
  arranged : Message.Arranged m.fields m.oneofs
  distinct : (Table.names m.oneofs).Nodup
  enums : ∀ e ∈ m.enums, e.IsWritable
  options : Options.IsWritable m.options
  extensions : ∀ range ∈ m.extensions, ∃ first last : Int, range = [first, last] ∧ 0 ≤ first ∧ 0 ≤ last ∧
    Number.fits first = true ∧ Number.fits last = true

def Message.NamesOneofs (m : Message) : Prop := ∀ e ∈ m.oneofs, Terminal.identifier.Takes e.1.toList

structure Rpc.IsWritable (r : Rpc) : Prop where
  name : Terminal.identifier.Takes r.name.toList
  request : Terminal.typeName.Takes r.request.toList
  response : Terminal.typeName.Takes r.response.toList
  options : Options.IsWritable r.options

structure Service.IsWritable (s : Service) : Prop where
  name : Terminal.identifier.Takes s.name.toList
  rpcs : ∀ r ∈ s.rpcs, r.IsWritable
  options : Options.IsWritable s.options

structure Schema.IsWritable (s : Schema) : Prop where
  package : ∀ name ∈ s.package, Terminal.dottedName.Takes name.toList
  imports : ∀ i ∈ s.imports, ∃ path, i = .reference path
  options : Options.IsWritable s.options
  messages : ∀ m ∈ s.messages, m.Everywhere Message.IsWritable
  enums : ∀ e ∈ s.enums, e.IsWritable
  services : ∀ t ∈ s.services, t.IsWritable

def Schema.NamesOneofs (s : Schema) : Prop := ∀ m ∈ s.messages, m.Everywhere Message.NamesOneofs

/-- The type reference behind the word `stream` at the front of a type, as in `stream.Event`. -/
def Rpc.hiddenType (type : String) : Option String :=
  match Terminal.stream.length type.toList with
  | some n =>
      if (Terminal.typeName.length (type.toList.drop n)).isSome then some (String.ofList (type.toList.drop n)) else none
  | none => none

structure Rpc.HidesNothing (r : Rpc) : Prop where
  request : r.requestStream = false → hiddenType r.request = none
  response : r.responseStream = false → hiddenType r.response = none

def Schema.HidesNothing (s : Schema) : Prop := ∀ t ∈ s.services, ∀ r ∈ t.rpcs, r.HidesNothing

def Rpc.typeAsRead (streamed : Bool) (type : String) : Bool × String :=
  match streamed, hiddenType type with
  | false, some hidden => (true, hidden)
  | _, _ => (streamed, type)

def Rpc.asRead (r : Rpc) : Rpc :=
  { r with
    request := (typeAsRead r.requestStream r.request).2
    requestStream := (typeAsRead r.requestStream r.request).1
    response := (typeAsRead r.responseStream r.response).2
    responseStream := (typeAsRead r.responseStream r.response).1 }

def Service.asRead (s : Service) : Service := { s with rpcs := s.rpcs.map Rpc.asRead }

def Schema.asRead (s : Schema) : Schema := { s with services := s.services.map Service.asRead }

namespace Message

variable {fields : List Field} {oneofs : Table (List Int)}

theorem Arranged.oneof_mem_names (h : Arranged fields oneofs) :
    ∀ f ∈ fields, ∀ name ∈ f.oneof, name ∈ Table.names oneofs := by
  induction h with
  | nil => exact fun f hf => absurd hf List.not_mem_nil
  | field hf _ ih =>
      intro f hm name hn
      rcases List.mem_cons.mp hm with rfl | hm
      · rw [hf] at hn
        cases hn
      · exact ih f hm name hn
  | oneof hb _ ih =>
      intro f hm name hn
      rcases List.mem_append.mp hm with hm | hm
      · rw [hb f hm] at hn
        cases hn
        exact List.mem_cons_self
      · exact List.mem_cons_of_mem _ (ih f hm name hn)

theorem Arranged.dropWhile (h : Arranged fields oneofs) :
    Arranged (fields.dropWhile Field.isPlain) oneofs := by
  induction h with
  | nil => exact .nil
  | field hf _ ih => rwa [List.dropWhile_cons_of_pos (by rw [Field.isPlain, hf]; rfl)]
  | @oneof name block fields oneofs hb h ih =>
      cases block with
      | nil => exact .oneof hb ih
      | cons f block =>
          have hf : ¬f.isPlain = true := by
            rw [Field.isPlain, hb f List.mem_cons_self]
            exact Bool.false_ne_true
          rw [List.cons_append, List.dropWhile_cons_of_neg hf]
          exact .oneof hb h

theorem takeWhile_oneof {name : String} (h : ∀ f ∈ fields, f.oneof ≠ some name) :
    fields.takeWhile (Field.isIn name) = [] ∧ fields.dropWhile (Field.isIn name) = fields := by
  cases fields with
  | nil => exact ⟨rfl, rfl⟩
  | cons f fields =>
      have hf : ¬f.isIn name = true := by
        rw [Field.isIn, beq_iff_eq]
        exact h f List.mem_cons_self
      exact ⟨List.takeWhile_cons_of_neg hf, List.dropWhile_cons_of_neg hf⟩

/-- The block of the first oneof is the one behind the fields without a oneof. -/
theorem Arranged.first {name : String} {numbers : List Int} (h : Arranged fields ((name, numbers) :: oneofs))
    (hn : name ∉ Table.names oneofs) :
    (((fields.dropWhile Field.isPlain).takeWhile (Field.isIn name)).map Field.number = numbers) ∧
      Arranged ((fields.dropWhile Field.isPlain).dropWhile (Field.isIn name)) oneofs := by
  generalize hos : (name, numbers) :: oneofs = os at h
  induction h with
  | nil => cases hos
  | field hf _ ih =>
      rw [List.dropWhile_cons_of_pos (by rw [Field.isPlain, hf]; rfl)]
      exact ih hos
  | @oneof _ block fields _ hb h _ =>
      cases hos
      have hother : ∀ f ∈ fields, f.oneof ≠ some name := fun f hf he => hn (h.oneof_mem_names f hf name he)
      cases block with
      | nil =>
          have hrest : ∀ f ∈ fields.dropWhile Field.isPlain, f.oneof ≠ some name :=
            fun f hf => hother f ((List.dropWhile_sublist _).subset hf)
          rw [List.nil_append, (takeWhile_oneof hrest).1, (takeWhile_oneof hrest).2]
          exact ⟨rfl, h.dropWhile⟩
      | cons f block =>
          have hf : ¬f.isPlain = true := by
            rw [Field.isPlain, hb f List.mem_cons_self]
            exact Bool.false_ne_true
          have hall : ∀ g ∈ f :: block, g.isIn name = true := fun g hg => beq_iff_eq.mpr (hb g hg)
          rw [List.cons_append, List.dropWhile_cons_of_neg hf, ← List.cons_append,
            List.takeWhile_append_of_pos hall, List.dropWhile_append_of_pos hall, (takeWhile_oneof hother).1,
            (takeWhile_oneof hother).2, List.append_nil]
          exact ⟨rfl, h⟩

theorem fields_arrange (fields : List Field) (oneofs : Table (List Int)) :
    (arrange fields oneofs).flatMap (fun m => m.part.fields) = fields := by
  have hplain : ∀ fs : List Field, (fs.map Member.field).flatMap (fun m => m.part.fields) = fs := by
    intro fs
    rw [List.flatMap_map]
    exact List.flatMap_singleton' fs
  induction oneofs generalizing fields with
  | nil => exact hplain fields
  | cons e oneofs ih =>
      rw [arrange, List.flatMap_append, List.flatMap_cons, hplain, ih]
      change _ ++ (List.takeWhile _ _ ++ List.dropWhile _ _) = fields
      rw [List.takeWhile_append_dropWhile, List.takeWhile_append_dropWhile]

theorem Arranged.oneofs_arrange (h : Arranged fields oneofs) (hn : (Table.names oneofs).Nodup) :
    (arrange fields oneofs).filterMap (fun m => m.part.oneof?) = oneofs := by
  have hplain : ∀ fs : List Field, (fs.map Member.field).filterMap (fun m => m.part.oneof?) = [] := by
    intro fs
    rw [List.filterMap_map]
    exact List.filterMap_eq_nil_iff.mpr fun _ _ => rfl
  induction oneofs generalizing fields with
  | nil => exact hplain fields
  | cons e oneofs ih =>
      obtain ⟨hm, hn⟩ := List.nodup_cons.mp hn
      obtain ⟨hnumbers, hrest⟩ := h.first hm
      rw [arrange, List.filterMap_append, hplain, List.nil_append, List.filterMap_cons, ih hrest hn]
      exact congrArg (fun numbers => (e.1, numbers) :: oneofs) hnumbers

def Member.IsApart : Member → Prop
  | .field f => f.oneof = none
  | .oneof name fields => ∀ f ∈ fields, f.oneof = some name

theorem Arranged.isApart (h : Arranged fields oneofs) (hn : (Table.names oneofs).Nodup) :
    ∀ m ∈ arrange fields oneofs, m.IsApart := by
  induction oneofs generalizing fields with
  | nil =>
      intro m hm
      obtain ⟨f, hf, rfl⟩ := List.mem_map.mp hm
      exact Option.eq_none_iff_forall_not_mem.mpr fun name hname =>
        absurd (h.oneof_mem_names f hf name hname) List.not_mem_nil
  | cons e oneofs ih =>
      obtain ⟨hm, hn⟩ := List.nodup_cons.mp hn
      intro m hmem
      rcases List.mem_append.mp hmem with hmem | hmem
      · obtain ⟨f, hf, rfl⟩ := List.mem_map.mp hmem
        exact Option.isNone_iff_eq_none.mp (List.all_eq_true.mp List.all_takeWhile f hf)
      · rcases List.mem_cons.mp hmem with rfl | hmem
        · exact fun f hf => beq_iff_eq.mp (List.all_eq_true.mp List.all_takeWhile f hf)
        · exact ih (h.first hm).2 hn m hmem

end Message

section Containers

theorem getLast?_toList {α : Type} (o : Option α) : o.toList.getLast? = o := by cases o <;> rfl

theorem Enum.ofParts_parts {e : Enum} (h : (Table.names e.options).Nodup) : Enum.ofParts e.name e.parts = e := by
  have hvalues : e.parts.filterMap Part.value? = e.values := by simp [parts, Part.value?, Function.comp_def]
  have hoptions : e.parts.filterMap Part.option? = e.options := by simp [parts, Part.option?, Function.comp_def]
  rw [ofParts, hvalues, hoptions, Table.ofList_eq_self h]

theorem Service.ofParts_parts {s : Service} (h : (Table.names s.options).Nodup) : Service.ofParts s.name s.parts = s := by
  have hrpcs : s.parts.filterMap Part.rpc? = s.rpcs := by simp [parts, Part.rpc?, Function.comp_def]
  have hoptions : s.parts.filterMap Part.option? = s.options := by simp [parts, Part.option?, Function.comp_def]
  rw [ofParts, hrpcs, hoptions, Table.ofList_eq_self h]

namespace Message

theorem mem_furtherParts {m : Message} {p : Part} (hp : p ∈ m.furtherParts) : p.fields = [] ∧ p.oneof? = none := by
  simp only [furtherParts, List.mem_append, List.mem_map] at hp
  rcases hp with ((⟨_, _, rfl⟩ | ⟨_, _, rfl⟩) | ⟨_, _, rfl⟩) | ⟨_, _, rfl⟩ <;> exact ⟨rfl, rfl⟩

theorem flatMap_fields_parts (m : Message) : m.parts.flatMap Part.fields = m.fields := by
  have hfurther : m.furtherParts.flatMap Part.fields = [] :=
    List.flatMap_eq_nil_iff.mpr fun p hp => (mem_furtherParts hp).1
  rw [parts, List.flatMap_append, hfurther, List.append_nil, List.flatMap_map]
  exact fields_arrange m.fields m.oneofs

theorem filterMap_oneof_parts {m : Message} (h : m.IsWritable) : m.parts.filterMap Part.oneof? = m.oneofs := by
  have hfurther : m.furtherParts.filterMap Part.oneof? = [] :=
    List.filterMap_eq_nil_iff.mpr fun p hp => (mem_furtherParts hp).2
  rw [parts, List.filterMap_append, hfurther, List.append_nil, List.filterMap_map]
  exact h.arranged.oneofs_arrange h.distinct

theorem filterMap_parts {α : Type} {g : Part → Option α} (hg : ∀ m : Member, g m.part = none) (m : Message) :
    m.parts.filterMap g = m.furtherParts.filterMap g := by
  have hmembers : ((arrange m.fields m.oneofs).map Member.part).filterMap g = [] := by
    rw [List.filterMap_map]
    exact List.filterMap_eq_nil_iff.mpr fun m _ => hg m
  rw [parts, List.filterMap_append, hmembers, List.nil_append]

theorem ofParts_parts {m : Message} (h : m.IsWritable) : ofParts m.name m.parts = m := by
  have henums : m.parts.filterMap Part.enum? = m.enums := by
    rw [filterMap_parts fun m => by cases m <;> rfl]
    simp [furtherParts, Part.enum?, Function.comp_def]
  have hmessages : m.parts.filterMap Part.message? = m.messages := by
    rw [filterMap_parts fun m => by cases m <;> rfl]
    simp [furtherParts, Part.message?, Function.comp_def]
  have hoptions : m.parts.filterMap Part.option? = m.options := by
    rw [filterMap_parts fun m => by cases m <;> rfl]
    simp [furtherParts, Part.option?, Function.comp_def]
  have hextensions : m.parts.filterMap Part.extensions? = m.extensions.toList := by
    rw [filterMap_parts fun m => by cases m <;> rfl]
    simp [furtherParts, Part.extensions?, Function.comp_def]
  rw [ofParts, flatMap_fields_parts, henums, hmessages, hoptions, filterMap_oneof_parts h, hextensions,
    Table.ofList_eq_self h.options.distinct, Table.ofList_eq_self h.distinct, getLast?_toList]
  cases m
  rfl

end Message

theorem Schema.map_reference {s : Schema} (h : ∀ i ∈ s.imports, ∃ path, i = .reference path) :
    s.references.map .reference = s.imports := by
  rw [references]
  generalize s.imports = imports at h
  induction imports with
  | nil => rfl
  | cons i imports ih =>
      obtain ⟨⟨path, rfl⟩, hrest⟩ := List.forall_mem_cons.mp h
      exact congrArg (Import.reference path :: ·) (ih hrest)

theorem Schema.ofParts_parts {s : Schema} (h : (Table.names s.options).Nodup)
    (hi : ∀ i ∈ s.imports, ∃ path, i = .reference path) (file : Option String) :
    Schema.ofParts file s.parts = { s with file := file } := by
  have hdialect : s.parts.filterMap Part.dialect? = s.dialect.toList := by
    simp [parts, Part.dialect?, Function.comp_def]
  have hpackage : s.parts.filterMap Part.package? = s.package.toList := by
    simp [parts, Part.package?, Function.comp_def]
  have himports : s.parts.filterMap Part.import? = s.imports := by
    rw [← map_reference hi]
    simp [parts, Part.import?, Function.comp_def]
  have hoptions : s.parts.filterMap Part.option? = s.options := by simp [parts, Part.option?, Function.comp_def]
  have hmessages : s.parts.filterMap Part.message? = s.messages := by simp [parts, Part.message?, Function.comp_def]
  have henums : s.parts.filterMap Part.enum? = s.enums := by simp [parts, Part.enum?, Function.comp_def]
  have hservices : s.parts.filterMap Part.service? = s.services := by simp [parts, Part.service?, Function.comp_def]
  rw [ofParts, hdialect, hpackage, himports, hoptions, hmessages, henums, hservices, getLast?_toList, getLast?_toList,
    Table.ofList_eq_self h]

end Containers

end ProtoBundle
