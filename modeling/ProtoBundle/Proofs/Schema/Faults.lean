import ProtoBundle.Proofs.Schema.Computations

namespace ProtoBundle

variable {α β : Type} {P : Failure → Prop}

def Raises (P : Failure → Prop) (x : Except Failure α) : Prop := ∀ e, x = .error e → P e

theorem raises_ok (a : α) : Raises P (.ok a) := by
  intro e h
  cases h

theorem Raises.map {x : Except Failure α} (h : Raises P x) (f : α → β) : Raises P (x.map f) := by
  intro e he
  cases x with
  | ok a => cases he
  | error d =>
      cases he
      exact h e rfl

theorem Raises.bind {x : Except Failure α} {f : α → Except Failure β} (h : Raises P x)
    (hf : ∀ a, Raises P (f a)) : Raises P (x >>= f) := by
  intro e he
  cases x with
  | ok a => exact hf a e he
  | error d =>
      cases he
      exact h e rfl

theorem raises_mapM {f : α → Except Failure β} {xs : List α} (h : ∀ x ∈ xs, Raises P (f x)) :
    Raises P (xs.mapM f) := by
  induction xs with
  | nil => exact raises_ok []
  | cons x xs ih =>
      rw [List.mapM_cons]
      refine (h x (List.mem_cons_self ..)).bind fun y => ?_
      exact (ih fun z hz => h z (List.mem_cons_of_mem _ hz)).bind fun ys => raises_ok _

theorem raises_forM {f : α → Except Failure PUnit} {xs : List α} (h : ∀ x ∈ xs, Raises P (f x)) :
    Raises P (xs.forM f) := by
  induction xs with
  | nil => exact raises_ok _
  | cons x xs ih =>
      exact (h x (List.mem_cons_self ..)).bind fun _ => ih fun z hz => h z (List.mem_cons_of_mem _ hz)

def IsTooLong (e : Failure) : Prop := ∃ construct digits, e = .literalTooLong construct digits

theorem Source.Lexeme.raises_integer (l : Source.Lexeme) (construct : Source.Construct) :
    Raises IsTooLong (l.integer construct) := by
  intro e he
  unfold Source.Lexeme.integer at he
  split at he
  · cases he
  · cases he
    exact ⟨_, _, rfl⟩

theorem Value.raises_ofConstant (c : Source.Constant) : Raises IsTooLong (Value.ofConstant c) := by
  cases c with
  | float l => exact raises_ok _
  | special l => exact raises_ok _
  | integer l => exact (l.raises_integer _).map _
  | quoted l => exact raises_ok _
  | name l => exact raises_ok _

theorem Options.raises_entry (s : Source.Setting) : Raises IsTooLong (Options.entry s) :=
  (Value.raises_ofConstant s.value).map _

theorem Options.raises_ofSettings (settings : Option (List Source.Setting)) :
    Raises IsTooLong (Options.ofSettings settings) :=
  (raises_mapM fun s _ => Options.raises_entry s).map _

theorem raises_numbered {settings : Option (List Source.Setting)} {l : Source.Lexeme}
    {construct : Source.Construct} (f : Options → Int → α) :
    Raises IsTooLong (do
      let options ← Options.ofSettings settings
      let number ← l.integer construct
      return f options number) :=
  (Options.raises_ofSettings settings).bind fun _ => (l.raises_integer construct).bind fun _ => raises_ok _

theorem raises_readRangeEnd (first : Int) (last : Option Source.RangeEnd) :
    Raises IsTooLong (readRangeEnd first last) := by
  cases last with
  | none => exact raises_ok _
  | some bound =>
      cases bound with
      | number l => exact l.raises_integer _
      | maximum l => exact raises_ok _

theorem raises_readRange (r : Source.IdRange) : Raises IsTooLong (readRange r) :=
  (r.first.raises_integer _).bind fun _ => (raises_readRangeEnd _ _).bind fun _ => raises_ok _

theorem raises_checkReserved (items : List Source.ReservedItem) : Raises IsTooLong (checkReserved items) := by
  refine raises_forM fun item _ => ?_
  cases item with
  | range r => exact (raises_readRange r).map _
  | name l => exact raises_ok _

theorem Enum.raises_ofSource (e : Source.Enum) : Raises IsTooLong (Enum.ofSource e) := by
  refine (raises_mapM fun item _ => ?_).map _
  cases item with
  | value v => exact (raises_numbered _).map _
  | option s => exact (Options.raises_entry s).map _
  | reserved items => exact (raises_checkReserved items).map _
  | empty => exact raises_ok _

theorem Field.raises_ofOneofItem (oneof : String) (item : Source.OneofItem) :
    Raises IsTooLong (Field.ofOneofItem oneof item) := by
  cases item with
  | field f => exact (raises_numbered _).map _
  | option s => exact (Options.raises_entry s).map _
  | empty => exact raises_ok _

theorem Message.raises_readExtensions (e : Source.Extensions) : Raises IsTooLong (Message.readExtensions e) :=
  (raises_readRange e.range).bind fun _ => (Options.raises_ofSettings e.settings).bind fun _ => raises_ok _

mutual

theorem Message.raises_part : ∀ item, Raises IsTooLong (Message.part item)
  | .field _ => (raises_numbered _).map _
  | .map _ => (raises_numbered _).map _
  | .oneof o => (raises_mapM fun item _ => Field.raises_ofOneofItem o.name.text item).map _
  | .message _ items => (Message.raises_parts items).map _
  | .enum e => (Enum.raises_ofSource e).map _
  | .option s => (Options.raises_entry s).map _
  | .reserved items => (raises_checkReserved items).map _
  | .extensions e => Message.raises_readExtensions e
  | .empty => raises_ok _

theorem Message.raises_parts : ∀ items, Raises IsTooLong (Message.part.parts items)
  | [] => raises_ok _
  | item :: items =>
      (Message.raises_part item).bind fun _ => (Message.raises_parts items).bind fun _ => raises_ok _

end

theorem Service.raises_readRpc (r : Source.Rpc) : Raises IsTooLong (Service.readRpc r) := by
  refine (raises_mapM fun item _ => ?_).bind fun _ => raises_ok _
  cases item with
  | option s => exact (Options.raises_entry s).map _
  | empty => exact raises_ok _

theorem Service.raises_ofSource (s : Source.Service) : Raises IsTooLong (Service.ofSource s) := by
  refine (raises_mapM fun item _ => ?_).map _
  cases item with
  | rpc r => exact (Service.raises_readRpc r).map _
  | option s => exact (Options.raises_entry s).map _
  | empty => exact raises_ok _

theorem Schema.raises_ofSource (file : Option String) (f : Source.File) :
    Raises IsTooLong (Schema.ofSource file f) := by
  refine (raises_mapM fun statement _ => ?_).map _
  cases statement with
  | option s => exact (Options.raises_entry s).map _
  | message m => exact ((Message.raises_parts m.items).map _).map _
  | enum e => exact (Enum.raises_ofSource e).map _
  | service s => exact (Service.raises_ofSource s).map _
  | _ => exact raises_ok _

def Schema.IsReadingFault (file : Option String) : Failure → Prop
  | .malformed _ place _ _ => place = file
  | .literalTooLong _ _ => True
  | _ => False

theorem Schema.raises_ofText (file : Option String) (text : String) :
    Raises (Schema.IsReadingFault file) (Schema.ofText file text) := by
  intro e he
  unfold Schema.ofText at he
  split at he
  · obtain ⟨construct, digits, rfl⟩ := Schema.raises_ofSource file _ e he
    trivial
  · rename_i fault hf
    cases he
    cases fault <;> exact rfl

theorem Schema.file_of_ofText {file : Option String} {text : String} {s : Schema}
    (h : Schema.ofText file text = .ok s) : s.file = file := by
  obtain ⟨source, parts, -, -, rfl⟩ := Schema.exists_parts_of_ofText h
  rfl

end ProtoBundle
