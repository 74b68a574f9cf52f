import ProtoBundle.Proofs.Schema.Records

namespace ProtoBundle

open Source (Tree Lexeme)

structure Message.Tabulates (m : Message) (blocks : List (String × List Field)) : Prop where
  declared : ∀ name, name ∈ m.oneofs.names ↔ ∃ b ∈ blocks, b.1 = name
  members : ∀ name, m.fields.filter (fun f => f.oneof == some name) =
    (blocks.filter fun b => b.1 == name).flatMap Prod.snd
  entry : ∀ name, m.oneofs.get? name =
    (blocks.filter fun b => b.1 == name).getLast?.map fun b => b.2.map Field.number

def Message.Agrees (m : Message) (name : String) : Prop :=
  m.oneofs.get? name = some ((m.fields.filter fun f => f.oneof == some name).map Field.number)

section Blocks

variable {m : Message} {blocks : List (String × List Field)}

theorem Message.Tabulates.agrees_iff (h : m.Tabulates blocks) {name : String} (hn : name ∈ m.oneofs.names) :
    m.Agrees name ↔ ∀ b ∈ (blocks.filter fun b => b.1 == name).dropLast, b.2 = [] := by
  obtain ⟨b, hb, hname⟩ := (h.declared name).mp hn
  have hne : blocks.filter (fun b => b.1 == name) ≠ [] :=
    List.ne_nil_of_mem (List.mem_filter.mpr ⟨hb, beq_iff_eq.mpr hname⟩)
  obtain ⟨earlier, last, hsplit⟩ := List.eq_nil_or_concat _ |>.resolve_left hne
  -- the numbers of the earlier oneofs stand in front of the entry, which is those of the last one
  rw [Message.Agrees, h.entry, h.members, hsplit]
  simp [List.self_eq_append_left]

theorem filter_flatMap_of_members (hm : ∀ b ∈ blocks, ∀ f ∈ b.2, f.oneof = some b.1) (name : String) :
    (blocks.flatMap Prod.snd).filter (fun f => f.oneof == some name) =
      (blocks.filter fun b => b.1 == name).flatMap Prod.snd := by
  induction blocks with
  | nil => rfl
  | cons b blocks ih =>
      obtain ⟨hb, hrest⟩ := List.forall_mem_cons.mp hm
      rw [List.flatMap_cons, List.filter_append, ih hrest]
      by_cases hn : b.1 = name
      · have hall : b.2.filter (fun f => f.oneof == some name) = b.2 :=
          List.filter_eq_self.mpr fun f hf => by simp [hb f hf, hn]
        rw [hall, List.filter_cons_of_pos (by simpa using hn), List.flatMap_cons]
      · have hnone : b.2.filter (fun f => f.oneof == some name) = [] :=
          List.filter_eq_nil_iff.mpr fun f hf => by simp [hb f hf, hn]
        rw [hnone, List.filter_cons_of_neg (by simpa using hn), List.nil_append]

theorem Message.tabulates_of_blocks {t : Tree} (hb : List.Forall₂ Message.RecordsOneof t.oneofs blocks)
    (hf : m.fields.filter (fun f => f.oneof.isSome) = blocks.flatMap Prod.snd)
    (ho : m.oneofs = Table.ofList (blocks.map fun b => (b.1, b.2.map Field.number))) : m.Tabulates blocks where
  declared := by
    intro name
    rw [ho, Table.names_ofList, List.mem_eraseDups]
    simp
  members := by
    intro name
    have hmembers : ∀ b ∈ blocks, ∀ f ∈ b.2, f.oneof = some b.1 := fun b hm => by
      obtain ⟨o, -, h⟩ := exists_mem_of_forall₂ hb hm
      exact h.members
    rw [← filter_flatMap_of_members hmembers, ← hf, List.filter_filter]
    refine List.filter_congr fun f _ => ?_
    cases f.oneof <;> simp
  entry := by
    intro name
    rw [ho, Table.get?_ofList, List.filter_map, List.map_map, List.getLast?_map]
    rfl

end Blocks

def Message.TabulatesOneofs (t : Tree) (m : Message) : Prop :=
  ∃ blocks, List.Forall₂ RecordsOneof t.oneofs blocks ∧ m.Tabulates blocks ∧
    ∀ name ∈ m.oneofs.names, m.Agrees name ↔ ∀ b ∈ (blocks.filter fun b => b.1 == name).dropLast, b.2 = []

theorem Message.Part.oneof?_eq (p : Message.Part) : p.oneof? = p.block?.map fun b => (b.1, b.2.map Field.number) := by
  cases p <;> rfl

theorem Message.tabulatesOneofs_ofParts : Message.FromParts Message.TabulatesOneofs := by
  intro name items parts h
  obtain ⟨hb, hf⟩ := Message.records_blocks name (Message.becomes_parts h)
  have ho : parts.filterMap Part.oneof? =
      (parts.filterMap Part.block?).map fun b => (b.1, b.2.map Field.number) := by
    rw [List.map_filterMap]
    exact List.filterMap_congr fun p _ => Part.oneof?_eq p
  have htable := Message.tabulates_of_blocks (m := ofParts name.text parts) hb hf (congrArg Table.ofList ho)
  exact ⟨_, hb, htable, fun name hn => htable.agrees_iff hn⟩

theorem Schema.tabulatesOneofs_ofText {file : Option String} {text : String} {s : Schema}
    (h : Schema.ofText file text = .ok s) :
    ∃ source, Source.parse text.toList = .ok source ∧
      List.Forall₂ (Message.Alongside Message.TabulatesOneofs) (Tree.ofFile source).messages s.messages :=
  Schema.alongside_ofText Message.tabulatesOneofs_ofParts h

def repeatedOneof : String := "message M\x7boneof n\x7bT a=1;\x7doneof n\x7bT b=2;\x7d\x7d"

theorem Schema.tabulatesOneofs_ofText_repeated :
    ∃ s source m, Schema.ofText none repeatedOneof = .ok s ∧ Source.parse repeatedOneof.toList = .ok source ∧
      List.Forall₂ (Message.Alongside Message.TabulatesOneofs) (Tree.ofFile source).messages s.messages ∧
      s.messages = [m] ∧ (m.fields.filter fun f => f.oneof == some "n").map Field.number = [1, 2] ∧
      m.oneofs = [("n", [2])] ∧ ¬ m.Agrees "n" := by
  have hread : (Schema.ofText none repeatedOneof).toOption.map (fun s => s.messages.map fun m =>
      ((m.fields.filter fun f => f.oneof == some "n").map Field.number, m.oneofs)) =
      some [([1, 2], [("n", [2])])] := by decide +kernel
  obtain ⟨s, hs, hv⟩ := Option.map_eq_some_iff.mp hread
  obtain ⟨m, hm, hv⟩ := List.map_eq_singleton_iff.mp hv
  obtain ⟨hnumbers, honeofs⟩ := Prod.mk.inj hv
  obtain ⟨source, hsource, htable⟩ := Schema.tabulatesOneofs_ofText (eq_ok_of_toOption hs)
  refine ⟨s, source, m, eq_ok_of_toOption hs, hsource, htable, hm, hnumbers, honeofs, ?_⟩
  rw [Message.Agrees, hnumbers, honeofs]
  decide

end ProtoBundle
