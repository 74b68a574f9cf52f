import ProtoBundle.Proofs.Schema.Computations
import ProtoBundle.Proofs.Source.Containment

/-!
Trees and what is read from them, side by side. An item of a message becomes one part of it, a statement of a file one
part of the schema, and the parts of a kind stand in the order of their nodes. What holds of each message and its node
when the message is made from its parts holds at every depth.
-/

namespace ProtoBundle

open Source (Tree Lexeme)

inductive Message.Becomes : Source.MessageItem → Message.Part → Prop
  | field {f : Source.Field} {field : Field} (h : Field.ofSource f = .ok field) : Becomes (.field f) (.field field)
  | map {f : Source.MapField} {field : Field} (h : Field.ofMap f = .ok field) : Becomes (.map f) (.field field)
  | oneof {o : Source.Oneof} {fields : List (Option Field)}
      (h : o.items.mapM (Field.ofOneofItem o.name.text) = .ok fields) :
      Becomes (.oneof o) (.oneof o.name.text (fields.filterMap id))
  | message {name : Lexeme} {items : List Source.MessageItem} {parts : List Message.Part}
      (h : Message.part.parts items = .ok parts) : Becomes (.message name items) (.message (ofParts name.text parts))
  | enum {e : Source.Enum} {enum : Enum} (h : Enum.ofSource e = .ok enum) : Becomes (.enum e) (.enum enum)
  | option {s : Source.Setting} {entry : String × Value} (h : Options.entry s = .ok entry) :
      Becomes (.option s) (.option entry)
  | reserved (items : List Source.ReservedItem) : Becomes (.reserved items) .nothing
  | extensions {e : Source.Extensions} {range : List Int} (h : readRange e.range = .ok range) :
      Becomes (.extensions e) (.extensions range)
  | empty : Becomes .empty .nothing

theorem Message.becomes_of_part {item : Source.MessageItem} {p : Message.Part} (h : Message.part item = .ok p) :
    Message.Becomes item p := by
  cases item with
  | field f =>
      obtain ⟨_, hf, rfl⟩ := exists_of_map_eq_ok h
      exact .field hf
  | map f =>
      obtain ⟨_, hf, rfl⟩ := exists_of_map_eq_ok h
      exact .map hf
  | oneof o =>
      obtain ⟨_, hf, rfl⟩ := exists_of_map_eq_ok h
      exact .oneof hf
  | message name items =>
      obtain ⟨_, hp, rfl⟩ := exists_of_map_eq_ok h
      exact .message hp
  | enum e =>
      obtain ⟨_, he, rfl⟩ := exists_of_map_eq_ok h
      exact .enum he
  | option s =>
      obtain ⟨_, hs, rfl⟩ := exists_of_map_eq_ok h
      exact .option hs
  | reserved items =>
      obtain ⟨_, -, rfl⟩ := exists_of_map_eq_ok h
      exact .reserved items
  | extensions e =>
      obtain ⟨_, hr, h⟩ := exists_of_bind_eq_ok h
      obtain ⟨_, -, h⟩ := exists_of_bind_eq_ok h
      cases h
      exact .extensions hr
  | empty =>
      cases h
      exact .empty

theorem Message.becomes_parts {items : List Source.MessageItem} {parts : List Message.Part}
    (h : Message.part.parts items = .ok parts) : List.Forall₂ Message.Becomes items parts := by
  rw [Message.parts_eq_mapM, mapM_eq_ok_iff] at h
  exact h.imp fun _ _ => Message.becomes_of_part

inductive Schema.Becomes : Source.Statement → Schema.Part → Prop
  | dialect (l : Lexeme) : Becomes (.dialect l) (.dialect l.unquoted)
  | package (l : Lexeme) : Becomes (.package l) (.package l.text)
  | import_ (kind : Option Lexeme) (path : Lexeme) : Becomes (.import_ kind path) (.import_ path.unquoted)
  | option {s : Source.Setting} {entry : String × Value} (h : Options.entry s = .ok entry) :
      Becomes (.option s) (.option entry)
  | message {m : Source.Message} {parts : List Message.Part} (h : Message.part.parts m.items = .ok parts) :
      Becomes (.message m) (.message (Message.ofParts m.name.text parts))
  | enum {e : Source.Enum} {enum : Enum} (h : Enum.ofSource e = .ok enum) : Becomes (.enum e) (.enum enum)
  | service {s : Source.Service} {service : Service} (h : Service.ofSource s = .ok service) :
      Becomes (.service s) (.service service)
  | empty : Becomes .empty .nothing

theorem Schema.becomes_of_part {statement : Source.Statement} {p : Schema.Part} (h : Schema.part statement = .ok p) :
    Schema.Becomes statement p := by
  cases statement with
  | dialect l =>
      cases h
      exact .dialect l
  | package l =>
      cases h
      exact .package l
  | import_ kind path =>
      cases h
      exact .import_ kind path
  | option s =>
      obtain ⟨_, hs, rfl⟩ := exists_of_map_eq_ok h
      exact .option hs
  | message m =>
      obtain ⟨_, hm, rfl⟩ := exists_of_map_eq_ok h
      obtain ⟨_, hp, rfl⟩ := exists_of_map_eq_ok hm
      exact .message hp
  | enum e =>
      obtain ⟨_, he, rfl⟩ := exists_of_map_eq_ok h
      exact .enum he
  | service s =>
      obtain ⟨_, hs, rfl⟩ := exists_of_map_eq_ok h
      exact .service hs
  | empty =>
      cases h
      exact .empty

theorem Schema.becomes_parts {statements : List Source.Statement} {parts : List Schema.Part}
    (h : statements.mapM Schema.part = .ok parts) : List.Forall₂ Schema.Becomes statements parts :=
  (mapM_eq_ok_iff.mp h).imp fun _ _ => Schema.becomes_of_part

/-- The property holds of the node and the message, and in the same way of the nodes and the messages in them. -/
inductive Message.Alongside (P : Tree → Message → Prop) : Tree → Message → Prop
  | intro {t : Tree} {m : Message} (own : P t m) (inner : List.Forall₂ (Alongside P) t.messages m.messages) :
      Alongside P t m

section Messages

variable {P : Tree → Message → Prop}

theorem Message.alongside_of_other {item : Source.MessageItem} {p : Message.Part} (h : Message.Becomes item p)
    (hn : ∀ name items, item ≠ .message name items) :
    List.Forall₂ (Message.Alongside P) ((Tree.ofMessageItem item).outermost [.message] [.message])
      p.message?.toList := by
  have hnone : p.message? = none := by
    cases h with
    | message h => exact absurd rfl (hn _ _)
    | _ => rfl
  have hlacks : Tree.lacks (Tree.itemParts item) [.message] = true := by
    cases item with
    | message name items => exact absurd rfl (hn name items)
    | _ => rfl
  rw [(Tree.madeOf_ofMessageItem item).outermost_eq_nil hlacks, hnone]
  exact .nil

/-- The property holds of every message that is made from its parts. -/
def Message.FromParts (P : Tree → Message → Prop) : Prop :=
  ∀ name items parts, Message.part.parts items = .ok parts →
    P (Tree.ofMessage ⟨name, items⟩) (Message.ofParts name.text parts)

mutual

theorem Message.alongside_part (hP : Message.FromParts P) :
    ∀ (item : Source.MessageItem) (p : Message.Part), Message.part item = .ok p →
      List.Forall₂ (Message.Alongside P) ((Tree.ofMessageItem item).outermost [.message] [.message]) p.message?.toList
  | .field _, _, h => alongside_of_other (becomes_of_part h) nofun
  | .map _, _, h => alongside_of_other (becomes_of_part h) nofun
  | .oneof _, _, h => alongside_of_other (becomes_of_part h) nofun
  | .message name items, p, h => by
      obtain ⟨parts, hp, rfl⟩ := exists_of_map_eq_ok h
      -- the node is the message's own, and what is in it is left to the induction on the items
      rw [Tree.ofMessageItem, Tree.outermost_of_mem (by decide)]
      exact .cons (.intro (hP name items parts hp) (Message.alongside_parts hP name items parts hp)) .nil
  | .enum _, _, h => alongside_of_other (becomes_of_part h) nofun
  | .option _, _, h => alongside_of_other (becomes_of_part h) nofun
  | .reserved _, _, h => alongside_of_other (becomes_of_part h) nofun
  | .extensions _, _, h => alongside_of_other (becomes_of_part h) nofun
  | .empty, _, h => alongside_of_other (becomes_of_part h) nofun

theorem Message.alongside_parts (hP : Message.FromParts P) :
    ∀ (name : Lexeme) (items : List Source.MessageItem) (parts : List Message.Part),
      Message.part.parts items = .ok parts →
        List.Forall₂ (Message.Alongside P) (Tree.ofMessage ⟨name, items⟩).messages (parts.filterMap Part.message?)
  | _, [], _, h => by
      cases h
      exact .nil
  | name, item :: items, _, h => by
      obtain ⟨p, hp, h⟩ := exists_of_bind_eq_ok h
      obtain ⟨parts, hparts, h⟩ := exists_of_bind_eq_ok h
      cases h
      have hinner := Message.alongside_parts hP name items parts hparts
      rw [Tree.messages, Tree.within_ofMessage, List.filterMap_eq_flatMap_toList] at hinner ⊢
      exact List.rel_append (Message.alongside_part hP item p hp) hinner

end

theorem Schema.alongside_parts (hP : Message.FromParts P) {statements : List Source.Statement}
    {parts : List Schema.Part} (hp : List.Forall₂ Schema.Becomes statements parts) :
    List.Forall₂ (Message.Alongside P) (Tree.ofFile ⟨statements⟩).messages (parts.filterMap Part.message?) := by
  rw [Tree.messages, Tree.within_ofFile]
  refine forall₂_selected hp fun statement p h => ?_
  cases h with
  | @message m parts h =>
      refine Message.alongside_part hP (.ofMessage m) (.message (.ofParts m.name.text parts)) ?_
      rw [Message.part_ofMessage, Message.ofSource, h]
      rfl
  | _ =>
      rw [(Tree.madeOf_ofStatement _).outermost_eq_nil rfl]
      exact .nil

theorem Schema.alongside_ofText (hP : Message.FromParts P) {file : Option String} {text : String} {s : Schema}
    (h : Schema.ofText file text = .ok s) :
    ∃ source, Source.parse text.toList = .ok source ∧
      List.Forall₂ (Message.Alongside P) (Tree.ofFile source).messages s.messages := by
  obtain ⟨source, parts, hsource, hp, rfl⟩ := Schema.exists_parts_of_ofText h
  exact ⟨source, hsource, Schema.alongside_parts hP (Schema.becomes_parts hp)⟩

end Messages

end ProtoBundle
