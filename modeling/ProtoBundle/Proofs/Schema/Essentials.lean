import ProtoBundle.Proofs.Schema.Computations

namespace ProtoBundle

section Essentials

def Source.OneofItem.essential : OneofItem → List OneofItem
  | .field f => [.field f]
  | .option _ => []
  | .empty => []

def Source.Oneof.essential (o : Oneof) : Oneof := ⟨o.name, o.items.flatMap OneofItem.essential⟩

def Source.EnumItem.essential : EnumItem → List EnumItem
  | .value v => [.value v]
  | .option s => [.option s]
  | .reserved _ => []
  | .empty => []

def Source.Enum.essential (e : Enum) : Enum := ⟨e.name, e.items.flatMap EnumItem.essential⟩

def Source.MessageItem.essential : MessageItem → List MessageItem
  | .field f => [.field f]
  | .map f => [.map f]
  | .oneof o => [.oneof o.essential]
  | .message name items => [.message name (essentials items)]
  | .enum e => [.enum e.essential]
  | .option s => [.option s]
  | .reserved _ => []
  | .extensions e => [.extensions e]
  | .empty => []
where
  essentials : List MessageItem → List MessageItem
    | [] => []
    | item :: items => item.essential ++ essentials items

def Source.Message.essential (m : Message) : Message := ⟨m.name, MessageItem.essential.essentials m.items⟩

def Source.ServiceOption.essential : ServiceOption → List ServiceOption
  | .option s => [.option s]
  | .empty => []

def Source.Rpc.essential (r : Rpc) : Rpc := { r with body := r.body.flatMap ServiceOption.essential }

def Source.ServiceItem.essential : ServiceItem → List ServiceItem
  | .rpc r => [.rpc r.essential]
  | .option s => [.option s]
  | .empty => []

def Source.Service.essential (s : Service) : Service := ⟨s.name, s.items.flatMap ServiceItem.essential⟩

def Source.Statement.essential : Statement → List Statement
  | .dialect l => [.dialect l]
  | .package l => [.package l]
  | .import_ kind path => [.import_ kind path]
  | .option s => [.option s]
  | .message m => [.message m.essential]
  | .enum e => [.enum e.essential]
  | .service s => [.service s.essential]
  | .empty => []

def Source.File.essential (f : File) : File := ⟨f.statements.flatMap Statement.essential⟩

def Enum.Part.essential : Enum.Part → List Enum.Part
  | .nothing => []
  | p => [p]

theorem Enum.Part.essential_eq (p : Enum.Part) : p.essential = [p] ∨ p = .nothing ∧ p.essential = [] := by
  cases p <;> simp [essential]

def Message.Part.essential : Message.Part → List Message.Part
  | .nothing => []
  | p => [p]

theorem Message.Part.essential_eq (p : Message.Part) : p.essential = [p] ∨ p = .nothing ∧ p.essential = [] := by
  cases p <;> simp [essential]

def Service.Part.essential : Service.Part → List Service.Part
  | .nothing => []
  | p => [p]

theorem Service.Part.essential_eq (p : Service.Part) : p.essential = [p] ∨ p = .nothing ∧ p.essential = [] := by
  cases p <;> simp [essential]

def Schema.Part.essential : Schema.Part → List Schema.Part
  | .nothing => []
  | p => [p]

theorem Schema.Part.essential_eq (p : Schema.Part) : p.essential = [p] ∨ p = .nothing ∧ p.essential = [] := by
  cases p <;> simp [essential]

end Essentials

section Lists

variable {ε α β γ π : Type}

theorem mapM_singleton_eq_ok {f : α → Except ε β} {x : α} {y : β} (h : f x = .ok y) : [x].mapM f = .ok [y] :=
  mapM_eq_ok_iff.mpr (.cons h .nil)

theorem mapM_flatMap_eq_ok {f : α → Except ε β} {expand : α → List α} {reduce : β → List β} {xs : List α} {ys : List β}
    (h : xs.mapM f = .ok ys) (he : ∀ x y, f x = .ok y → (expand x).mapM f = .ok (reduce y)) :
    (xs.flatMap expand).mapM f = .ok (ys.flatMap reduce) := by
  refine mapM_eq_ok_iff.mpr (List.rel_flatMap (mapM_eq_ok_iff.mp h) fun x y hxy => ?_)
  exact mapM_eq_ok_iff.mp (he x y hxy)

theorem filterMap_flatMap_eq {select : π → Option γ} {reduce : π → List π}
    (h : ∀ p, (reduce p).filterMap select = (select p).toList) (parts : List π) :
    (parts.flatMap reduce).filterMap select = parts.filterMap select := by
  rw [List.filterMap_flatMap, List.filterMap_eq_flatMap_toList]
  exact List.flatMap_congr fun p _ => h p

theorem filterMap_flatMap_of_silent {select : π → Option γ} {reduce : π → List π} {silent : π}
    (hr : ∀ p, reduce p = [p] ∨ p = silent ∧ reduce p = []) (hs : select silent = none) (parts : List π) :
    (parts.flatMap reduce).filterMap select = parts.filterMap select := by
  refine filterMap_flatMap_eq (fun p => ?_) parts
  rcases hr p with h | ⟨rfl, h⟩
  · rw [h, List.filterMap_eq_flatMap_toList, List.flatMap_singleton]
  · rw [h, hs]
    rfl

end Lists

section Enums

theorem Enum.ofParts_essential (name : String) (parts : List Enum.Part) :
    Enum.ofParts name (parts.flatMap Part.essential) = Enum.ofParts name parts := by
  have hselect {γ : Type} {select : Part → Option γ} (h : select .nothing = none) :
      (parts.flatMap Part.essential).filterMap select = parts.filterMap select :=
    filterMap_flatMap_of_silent Part.essential_eq h parts
  rw [ofParts, ofParts, hselect (rfl : Part.value? .nothing = none), hselect (rfl : Part.option? .nothing = none)]

theorem Enum.part_essential {item : Source.EnumItem} {p : Enum.Part} (h : Enum.part item = .ok p) :
    item.essential.mapM Enum.part = .ok p.essential := by
  cases item with
  | value v =>
      obtain ⟨_, -, rfl⟩ := exists_of_map_eq_ok h
      exact mapM_singleton_eq_ok h
  | option s =>
      obtain ⟨_, -, rfl⟩ := exists_of_map_eq_ok h
      exact mapM_singleton_eq_ok h
  | reserved items =>
      obtain ⟨_, -, rfl⟩ := exists_of_map_eq_ok h
      rfl
  | empty =>
      cases h
      rfl

theorem Enum.ofSource_essential {e : Source.Enum} {enum : Enum} (h : Enum.ofSource e = .ok enum) :
    Enum.ofSource e.essential = .ok enum := by
  obtain ⟨parts, hp, rfl⟩ := exists_of_map_eq_ok h
  rw [ofSource, Source.Enum.essential, mapM_flatMap_eq_ok hp fun _ _ => Enum.part_essential]
  exact congrArg Except.ok (Enum.ofParts_essential e.name.text parts)

end Enums

section Messages

theorem Message.readOneof_essential {o : Source.Oneof} {p : Message.Part} (h : Message.readOneof o = .ok p) :
    Message.readOneof o.essential = .ok p := by
  obtain ⟨fields, hf, rfl⟩ := exists_of_map_eq_ok h
  have hitem : ∀ item field, Field.ofOneofItem o.name.text item = .ok field →
      item.essential.mapM (Field.ofOneofItem o.name.text) = .ok (field.toList.map some) := by
    intro item field h
    cases item with
    | field f =>
        obtain ⟨_, -, rfl⟩ := exists_of_map_eq_ok h
        exact mapM_singleton_eq_ok h
    | option s =>
        obtain ⟨_, -, rfl⟩ := exists_of_map_eq_ok h
        rfl
    | empty =>
        cases h
        rfl
  rw [readOneof, Source.Oneof.essential, mapM_flatMap_eq_ok hf hitem]
  refine congrArg (fun fields => Except.ok (Part.oneof o.name.text fields)) ?_
  exact filterMap_flatMap_eq (fun field => by cases field <;> rfl) fields

theorem Message.ofParts_essential (name : String) (parts : List Message.Part) :
    Message.ofParts name (parts.flatMap Part.essential) = Message.ofParts name parts := by
  have hfields : (parts.flatMap Part.essential).flatMap Part.fields = parts.flatMap Part.fields := by
    rw [List.flatMap_assoc]
    refine List.flatMap_congr fun p _ => ?_
    rcases Part.essential_eq p with h | ⟨rfl, h⟩
    · rw [h, List.flatMap_singleton]
    · rw [h]
      rfl
  have hselect {γ : Type} {select : Part → Option γ} (h : select .nothing = none) :
      (parts.flatMap Part.essential).filterMap select = parts.filterMap select :=
    filterMap_flatMap_of_silent Part.essential_eq h parts
  rw [ofParts, ofParts, hfields, hselect (rfl : Part.enum? .nothing = none),
    hselect (rfl : Part.message? .nothing = none), hselect (rfl : Part.option? .nothing = none),
    hselect (rfl : Part.oneof? .nothing = none), hselect (rfl : Part.extensions? .nothing = none)]

mutual

theorem Message.part_essential : ∀ (item : Source.MessageItem) (p : Message.Part), Message.part item = .ok p →
    item.essential.mapM Message.part = .ok p.essential
  | .field _, _, h => by
      obtain ⟨_, -, rfl⟩ := exists_of_map_eq_ok h
      exact mapM_singleton_eq_ok h
  | .map _, _, h => by
      obtain ⟨_, -, rfl⟩ := exists_of_map_eq_ok h
      exact mapM_singleton_eq_ok h
  | .oneof o, _, h => by
      have hread := Message.readOneof_essential h
      obtain ⟨_, -, rfl⟩ := exists_of_map_eq_ok h
      exact mapM_singleton_eq_ok hread
  | .message name items, _, h => by
      obtain ⟨parts, hp, rfl⟩ := exists_of_map_eq_ok h
      refine mapM_singleton_eq_ok ?_
      -- fewer parts are read of the items, but they make the same message
      rw [Message.part, Message.parts_essential items parts hp]
      exact congrArg (fun m => Except.ok (Part.message m)) (Message.ofParts_essential name.text parts)
  | .enum e, _, h => by
      obtain ⟨_, he, rfl⟩ := exists_of_map_eq_ok h
      refine mapM_singleton_eq_ok ?_
      rw [Message.part, Enum.ofSource_essential he]
      rfl
  | .option _, _, h => by
      obtain ⟨_, -, rfl⟩ := exists_of_map_eq_ok h
      exact mapM_singleton_eq_ok h
  | .reserved _, _, h => by
      -- reserved numbers have to be readable, whether they count or not
      obtain ⟨_, -, rfl⟩ := exists_of_map_eq_ok h
      rfl
  | .extensions _, _, h => by
      obtain ⟨_, -, hrange⟩ := exists_of_bind_eq_ok h
      obtain ⟨_, -, hrange⟩ := exists_of_bind_eq_ok hrange
      cases hrange
      exact mapM_singleton_eq_ok h
  | .empty, _, h => by
      cases h
      rfl

theorem Message.parts_essential : ∀ (items : List Source.MessageItem) (parts : List Message.Part),
    Message.part.parts items = .ok parts →
      Message.part.parts (Source.MessageItem.essential.essentials items) = .ok (parts.flatMap Part.essential)
  | [], _, h => by
      cases h
      rfl
  | item :: items, _, h => by
      obtain ⟨p, hp, h⟩ := exists_of_bind_eq_ok h
      obtain ⟨parts, hparts, h⟩ := exists_of_bind_eq_ok h
      cases h
      have hitems := Message.parts_essential items parts hparts
      rw [Message.parts_eq_mapM, mapM_eq_ok_iff] at hitems ⊢
      exact List.rel_append (mapM_eq_ok_iff.mp (Message.part_essential item p hp)) hitems

end

end Messages

section Services

theorem Service.ofParts_essential (name : String) (parts : List Service.Part) :
    Service.ofParts name (parts.flatMap Part.essential) = Service.ofParts name parts := by
  have hselect {γ : Type} {select : Part → Option γ} (h : select .nothing = none) :
      (parts.flatMap Part.essential).filterMap select = parts.filterMap select :=
    filterMap_flatMap_of_silent Part.essential_eq h parts
  rw [ofParts, ofParts, hselect (rfl : Part.rpc? .nothing = none), hselect (rfl : Part.option? .nothing = none)]

theorem Service.readRpc_essential {r : Source.Rpc} {rpc : Rpc} (h : Service.readRpc r = .ok rpc) :
    Service.readRpc r.essential = .ok rpc := by
  obtain ⟨entries, he, h⟩ := exists_of_bind_eq_ok h
  cases h
  have hitem : ∀ o e, readRpcOption o = .ok e → o.essential.mapM readRpcOption = .ok (e.toList.map some) := by
    intro o e h
    cases o with
    | option s =>
        obtain ⟨_, -, rfl⟩ := exists_of_map_eq_ok h
        exact mapM_singleton_eq_ok h
    | empty =>
        cases h
        rfl
  have hentries : (entries.flatMap fun e => e.toList.map some).filterMap id = entries.filterMap id :=
    filterMap_flatMap_eq (fun e => by cases e <;> rfl) entries
  simp only [readRpc, Source.Rpc.essential, mapM_flatMap_eq_ok he hitem, bind, Except.bind, hentries]
  rfl

theorem Service.part_essential {item : Source.ServiceItem} {p : Service.Part} (h : Service.part item = .ok p) :
    item.essential.mapM Service.part = .ok p.essential := by
  cases item with
  | rpc r =>
      obtain ⟨_, hr, rfl⟩ := exists_of_map_eq_ok h
      refine mapM_singleton_eq_ok ?_
      rw [part, Service.readRpc_essential hr]
      rfl
  | option s =>
      obtain ⟨_, -, rfl⟩ := exists_of_map_eq_ok h
      exact mapM_singleton_eq_ok h
  | empty =>
      cases h
      rfl

theorem Service.ofSource_essential {s : Source.Service} {service : Service} (h : Service.ofSource s = .ok service) :
    Service.ofSource s.essential = .ok service := by
  obtain ⟨parts, hp, rfl⟩ := exists_of_map_eq_ok h
  rw [ofSource, Source.Service.essential, mapM_flatMap_eq_ok hp fun _ _ => Service.part_essential]
  exact congrArg Except.ok (Service.ofParts_essential s.name.text parts)

end Services

section Files

theorem Schema.ofParts_essential (file : Option String) (parts : List Schema.Part) :
    Schema.ofParts file (parts.flatMap Part.essential) = Schema.ofParts file parts := by
  have hselect {γ : Type} {select : Part → Option γ} (h : select .nothing = none) :
      (parts.flatMap Part.essential).filterMap select = parts.filterMap select :=
    filterMap_flatMap_of_silent Part.essential_eq h parts
  simp only [ofParts, hselect (rfl : Part.package? .nothing = none), hselect (rfl : Part.dialect? .nothing = none),
    hselect (rfl : Part.option? .nothing = none), hselect (rfl : Part.message? .nothing = none),
    hselect (rfl : Part.enum? .nothing = none), hselect (rfl : Part.service? .nothing = none),
    hselect (rfl : Part.import? .nothing = none)]

theorem Message.ofSource_essential {m : Source.Message} {message : Message} (h : Message.ofSource m = .ok message) :
    Message.ofSource m.essential = .ok message := by
  obtain ⟨parts, hp, rfl⟩ := exists_of_map_eq_ok h
  rw [ofSource, Source.Message.essential, Message.parts_essential m.items parts hp]
  exact congrArg Except.ok (Message.ofParts_essential m.name.text parts)

theorem Schema.part_essential {statement : Source.Statement} {p : Schema.Part} (h : Schema.part statement = .ok p) :
    statement.essential.mapM Schema.part = .ok p.essential := by
  cases statement with
  | message m =>
      obtain ⟨_, hm, rfl⟩ := exists_of_map_eq_ok h
      refine mapM_singleton_eq_ok ?_
      rw [part, Message.ofSource_essential hm]
      rfl
  | enum e =>
      obtain ⟨_, he, rfl⟩ := exists_of_map_eq_ok h
      refine mapM_singleton_eq_ok ?_
      rw [part, Enum.ofSource_essential he]
      rfl
  | service s =>
      obtain ⟨_, hs, rfl⟩ := exists_of_map_eq_ok h
      refine mapM_singleton_eq_ok ?_
      rw [part, Service.ofSource_essential hs]
      rfl
  | option s =>
      obtain ⟨_, -, rfl⟩ := exists_of_map_eq_ok h
      exact mapM_singleton_eq_ok h
  | empty =>
      cases h
      rfl
  | _ =>
      cases h
      rfl

theorem Schema.ofSource_essential {file : Option String} {f : Source.File} {s : Schema}
    (h : Schema.ofSource file f = .ok s) : Schema.ofSource file f.essential = .ok s := by
  obtain ⟨parts, hp, rfl⟩ := exists_of_map_eq_ok h
  rw [ofSource, Source.File.essential, mapM_flatMap_eq_ok hp fun _ _ => Schema.part_essential]
  exact congrArg Except.ok (Schema.ofParts_essential file parts)

end Files

end ProtoBundle
