import ProtoBundle.Source.Tree

/-!
What stands in which container of a tree. The nodes of a kind belong to the innermost container around them: they are
found by walking down from it and turning back at every further container.
-/

namespace ProtoBundle.Source.Tree

/-- The nodes of some kinds in a tree, up to further containers and without those inside of each other. -/
def outermost (containers kinds : List Construct) : Tree → List Tree
  | .node c children =>
      if c ∈ kinds then [.node c children] else if c ∈ containers then [] else outermostOfAll children
  | .token _ _ => []
  | .absent => []
where
  outermostOfAll : List Tree → List Tree
    | [] => []
    | t :: ts => outermost containers kinds t ++ outermostOfAll ts

def within (containers kinds : List Construct) : Tree → List Tree
  | .node _ children => children.flatMap (outermost containers kinds)
  | .token _ _ => []
  | .absent => []

def fields : Tree → List Tree := within [.message] [.field, .mapField, .oneofField]

def oneofs : Tree → List Tree := within [.message] [.oneof]

def extensions : Tree → List Tree := within [.message] [.extensions]

def messages : Tree → List Tree := within [.message] [.message]

def enums : Tree → List Tree := within [.message] [.enum]

def values : Tree → List Tree := within [.enum] [.enumValue]

def rpcs : Tree → List Tree := within [.service] [.rpc]

def services : Tree → List Tree := within [] [.service]

def imports : Tree → List Tree := within [] [.importStatement]

def options : Tree → List Tree := within [.message, .oneof, .enum, .service, .rpc] [.optionStatement]

def settings : Tree → List Tree := within [.field, .mapField, .oneofField, .enumValue, .extensions] [.setting]

def name? : Tree → Option String
  | .node _ (.token .identifier l :: _) => some l.text
  | _ => none

section Outermost

variable {containers kinds : List Construct} {c : Construct} {children : List Tree}

theorem outermostOfAll_eq_flatMap (ts : List Tree) :
    outermost.outermostOfAll containers kinds ts = ts.flatMap (outermost containers kinds) := by
  induction ts with
  | nil => rfl
  | cons t ts ih => rw [outermost.outermostOfAll, ih, List.flatMap_cons]

theorem outermost_of_mem (h : c ∈ kinds) : (node c children).outermost containers kinds = [node c children] := by
  rw [outermost, if_pos h]

theorem outermost_of_container (hk : c ∉ kinds) (hc : c ∈ containers) :
    (node c children).outermost containers kinds = [] := by
  rw [outermost, if_neg hk, if_pos hc]

theorem outermost_of_not_mem (hk : c ∉ kinds) (hc : c ∉ containers) :
    (node c children).outermost containers kinds = children.flatMap (outermost containers kinds) := by
  rw [outermost, if_neg hk, if_neg hc, outermostOfAll_eq_flatMap]

@[simp] theorem outermost_token (t : Terminal) (l : Lexeme) : (token t l).outermost containers kinds = [] := rfl

@[simp] theorem outermost_absent : absent.outermost containers kinds = [] := rfl

inductive MadeOf (cs : List Construct) : Tree → Prop
  | node {c : Construct} {children : List Tree} (hc : c ∈ cs) (h : ∀ t ∈ children, MadeOf cs t) :
      MadeOf cs (.node c children)
  | token (t : Terminal) (l : Lexeme) : MadeOf cs (.token t l)
  | absent : MadeOf cs .absent

theorem MadeOf.mono {cs ds : List Construct} {t : Tree} (h : t.MadeOf cs) (hs : cs ⊆ ds) : t.MadeOf ds := by
  induction h with
  | node hc _ ih => exact .node (hs hc) ih
  | token t l => exact .token t l
  | absent => exact .absent

theorem MadeOf.optional {α : Type} {cs : List Construct} {tree : α → Tree} (h : ∀ a, (tree a).MadeOf cs) (o : Option α) :
    (Tree.optional tree o).MadeOf cs := by
  cases o with
  | none => exact .absent
  | some a => exact h a

/-- Computed, so that it holds by evaluation of every item of a kind, whatever is in the item. -/
def lacks (cs kinds : List Construct) : Bool := cs.all fun c => !kinds.contains c

theorem MadeOf.outermost_eq_nil {cs : List Construct} {t : Tree} (h : t.MadeOf cs) (hl : lacks cs kinds = true) :
    t.outermost containers kinds = [] := by
  have hd : ∀ c ∈ cs, c ∉ kinds := by simpa [lacks] using hl
  induction h with
  | token t l => rfl
  | absent => rfl
  | @node c children hc _ ih =>
      by_cases hm : c ∈ containers
      · exact outermost_of_container (hd c hc) hm
      · rw [outermost_of_not_mem (hd c hc) hm]
        exact List.flatMap_eq_nil_iff.mpr ih

end Outermost

section Constructs

def constantParts : List Construct := [.floatConstant, .nameConstant, .integerConstant, .quotedConstant]

def optionParts : List Construct := .optionStatement :: constantParts

def settingParts : List Construct := .settings :: .setting :: constantParts

def reservedParts : List Construct := [.reserved, .idRange]

def extensionParts : List Construct := [.extensions, .idRange] ++ settingParts

def fieldParts : List Construct := [.field, .mapField] ++ settingParts

def oneofParts : List Construct := [.oneof, .oneofField, .emptyStatement] ++ optionParts ++ settingParts

def valueParts : List Construct := .enumValue :: settingParts

def enumParts : List Construct := [.enum, .emptyStatement] ++ optionParts ++ reservedParts ++ valueParts

def messageParts : List Construct := .message :: fieldParts ++ oneofParts ++ enumParts ++ extensionParts

def itemParts : MessageItem → List Construct
  | .field _ => fieldParts
  | .map _ => fieldParts
  | .oneof _ => oneofParts
  | .message _ _ => messageParts
  | .enum _ => enumParts
  | .option _ => optionParts
  | .reserved _ => reservedParts
  | .extensions _ => extensionParts
  | .empty => [.emptyStatement]

def serviceParts : List Construct := [.service, .rpc, .rpcBody, .emptyStatement] ++ optionParts

theorem madeOf_ofConstant (k : Constant) : (ofConstant k).MadeOf constantParts := by
  cases k <;> exact .node (by decide) (List.forall_mem_singleton.mpr (.token _ _))

theorem madeOf_ofSetting {cs : List Construct} (hs : constantParts ⊆ cs) {construct : Construct} (hc : construct ∈ cs)
    (s : Setting) : (ofSetting construct s).MadeOf cs := by
  refine .node hc (List.forall_mem_cons.mpr ⟨.token _ _, List.forall_mem_singleton.mpr ?_⟩)
  exact (madeOf_ofConstant s.value).mono hs

theorem madeOf_ofOption (s : Setting) : (ofOption s).MadeOf optionParts := madeOf_ofSetting (by decide) (by decide) s

theorem madeOf_empty {cs : List Construct} (h : .emptyStatement ∈ cs) : empty.MadeOf cs := .node h nofun

theorem madeOf_ofSettings (settings : Option (List Setting)) : (ofSettings settings).MadeOf settingParts := by
  refine .optional (fun settings => .node (by decide) (List.forall_mem_map.mpr fun s _ => ?_)) settings
  exact madeOf_ofSetting (by decide) (by decide) s

theorem madeOf_ofIdRange {cs : List Construct} (h : .idRange ∈ cs) (r : IdRange) : (ofIdRange r).MadeOf cs := by
  refine .node h (List.forall_mem_cons.mpr ⟨.token _ _, List.forall_mem_singleton.mpr (.optional (fun e => ?_) _)⟩)
  cases e <;> exact .token _ _

theorem madeOf_ofReserved (items : List ReservedItem) : (ofReserved items).MadeOf reservedParts := by
  refine .node (by decide) (List.forall_mem_map.mpr fun item _ => ?_)
  cases item with
  | range r => exact madeOf_ofIdRange (by decide) r
  | name l => exact .token _ _

theorem madeOf_ofExtensions (e : Extensions) : (ofExtensions e).MadeOf extensionParts := by
  refine .node (by decide) (List.forall_mem_cons.mpr ⟨madeOf_ofIdRange (by decide) _, ?_⟩)
  exact List.forall_mem_singleton.mpr ((madeOf_ofSettings _).mono (by decide))

theorem madeOf_ofOneofItem (item : OneofItem) : (ofOneofItem item).MadeOf oneofParts := by
  cases item with
  | field f =>
      have hsettings := (madeOf_ofSettings f.settings).mono (by decide : settingParts ⊆ oneofParts)
      exact .node (by decide) (by simp [MadeOf.token, hsettings])
  | option s => exact (madeOf_ofOption s).mono (by decide)
  | empty => exact madeOf_empty (by decide)

theorem madeOf_ofOneof (o : Oneof) : (ofOneof o).MadeOf oneofParts := by
  refine .node (by decide) (List.forall_mem_cons.mpr ⟨.token _ _, ?_⟩)
  exact List.forall_mem_map.mpr fun item _ => madeOf_ofOneofItem item

theorem madeOf_ofEnumValue (v : EnumValue) : (ofEnumValue v).MadeOf valueParts := by
  have hsettings := (madeOf_ofSettings v.settings).mono (by decide : settingParts ⊆ valueParts)
  exact .node (by decide) (by simp [MadeOf.token, hsettings])

theorem madeOf_ofEnumItem (item : EnumItem) : (ofEnumItem item).MadeOf enumParts := by
  cases item with
  | value v => exact (madeOf_ofEnumValue v).mono (by decide)
  | option s => exact (madeOf_ofOption s).mono (by decide)
  | reserved items => exact (madeOf_ofReserved items).mono (by decide)
  | empty => exact madeOf_empty (by decide)

theorem madeOf_ofEnum (e : Enum) : (ofEnum e).MadeOf enumParts := by
  refine .node (by decide) (List.forall_mem_cons.mpr ⟨.token _ _, ?_⟩)
  exact List.forall_mem_map.mpr fun item _ => madeOf_ofEnumItem item

theorem madeOf_ofServiceOption (o : ServiceOption) : (ofServiceOption o).MadeOf serviceParts := by
  cases o with
  | option s => exact (madeOf_ofOption s).mono (by decide)
  | empty => exact madeOf_empty (by decide)

theorem madeOf_ofServiceItem (item : ServiceItem) : (ofServiceItem item).MadeOf serviceParts := by
  cases item with
  | rpc r =>
      have hstream (o : Option Lexeme) : (optional (token .stream) o).MadeOf serviceParts := .optional (.token .stream) o
      have hbody : (node .rpcBody (r.body.map ofServiceOption)).MadeOf serviceParts :=
        .node (by decide) (List.forall_mem_map.mpr fun o _ => madeOf_ofServiceOption o)
      exact .node (by decide) (by simp [MadeOf.token, hstream, hbody])
  | option s => exact (madeOf_ofOption s).mono (by decide)
  | empty => exact madeOf_empty (by decide)

theorem madeOf_ofService (s : Service) : (ofService s).MadeOf serviceParts := by
  refine .node (by decide) (List.forall_mem_cons.mpr ⟨.token _ _, ?_⟩)
  exact List.forall_mem_map.mpr fun item _ => madeOf_ofServiceItem item

theorem madeOf_ofField (f : Field) : (ofField f).MadeOf fieldParts := by
  have hlabel : (optional (token .label) f.label).MadeOf fieldParts := .optional (.token .label) f.label
  have hsettings := (madeOf_ofSettings f.settings).mono (by decide : settingParts ⊆ fieldParts)
  exact .node (by decide) (by simp [MadeOf.token, hlabel, hsettings])

theorem madeOf_ofMapField (f : MapField) : (ofMapField f).MadeOf fieldParts := by
  have hsettings := (madeOf_ofSettings f.settings).mono (by decide : settingParts ⊆ fieldParts)
  exact .node (by decide) (by simp [MadeOf.token, hsettings])

theorem itemParts_subset (item : MessageItem) : itemParts item ⊆ messageParts := by
  have h : (itemParts item).all messageParts.contains = true := by cases item <;> rfl
  exact fun c hc => List.contains_iff_mem.mp (List.all_eq_true.mp h c hc)

mutual

theorem madeOf_ofMessageItem : ∀ item : MessageItem, (ofMessageItem item).MadeOf (itemParts item)
  | .field f => madeOf_ofField f
  | .map f => madeOf_ofMapField f
  | .oneof o => madeOf_ofOneof o
  | .message _ items => .node List.mem_cons_self (List.forall_mem_cons.mpr ⟨.token _ _, madeOf_ofMessageItems items⟩)
  | .enum e => madeOf_ofEnum e
  | .option s => madeOf_ofOption s
  | .reserved items => madeOf_ofReserved items
  | .extensions e => madeOf_ofExtensions e
  | .empty => madeOf_empty List.mem_cons_self

theorem madeOf_ofMessageItems : ∀ items : List MessageItem,
    ∀ t ∈ ofMessageItem.ofMessageItems items, t.MadeOf messageParts
  | [] => nofun
  | item :: items =>
      List.forall_mem_cons.mpr
        ⟨(madeOf_ofMessageItem item).mono (itemParts_subset item), madeOf_ofMessageItems items⟩

end

def statementParts : Statement → List Construct
  | .dialect _ => [.dialectStatement]
  | .package _ => [.packageStatement]
  | .import_ _ _ => [.importStatement]
  | .option _ => optionParts
  | .message _ => messageParts
  | .enum _ => enumParts
  | .service _ => serviceParts
  | .empty => [.emptyStatement]

theorem madeOf_ofStatement (s : Statement) : (ofStatement s).MadeOf (statementParts s) := by
  cases s with
  | dialect l => exact .node List.mem_cons_self (List.forall_mem_singleton.mpr (.token _ _))
  | package l => exact .node List.mem_cons_self (List.forall_mem_singleton.mpr (.token _ _))
  | import_ kind path =>
      refine .node List.mem_cons_self (List.forall_mem_cons.mpr ⟨.optional (.token .importKind) kind, ?_⟩)
      exact List.forall_mem_singleton.mpr (.token _ _)
  | option s => exact madeOf_ofOption s
  | message m => exact madeOf_ofMessageItem (.ofMessage m)
  | enum e => exact madeOf_ofEnum e
  | service s => exact madeOf_ofService s
  | empty => exact madeOf_empty List.mem_cons_self

end Constructs

section Containers

variable (containers kinds : List Construct)

theorem within_ofMessage (m : Message) : (ofMessage m).within containers kinds =
    m.items.flatMap fun item => (ofMessageItem item).outermost containers kinds := by
  simp [ofMessage, MessageItem.ofMessage, ofMessageItem, within, ofMessageItems_eq_map, List.flatMap_map]

theorem outermost_ofMessage {containers kinds : List Construct} (hk : .message ∉ kinds) (hc : .message ∈ containers)
    (m : Message) : (ofMessage m).outermost containers kinds = [] :=
  outermost_of_container hk hc

theorem within_ofOneof (o : Oneof) : (ofOneof o).within containers kinds =
    o.items.flatMap fun item => (ofOneofItem item).outermost containers kinds := by
  simp [ofOneof, within, List.flatMap_map]

theorem within_ofEnum (e : Enum) : (ofEnum e).within containers kinds =
    e.items.flatMap fun item => (ofEnumItem item).outermost containers kinds := by
  simp [ofEnum, within, List.flatMap_map]

theorem within_ofService (s : Service) : (ofService s).within containers kinds =
    s.items.flatMap fun item => (ofServiceItem item).outermost containers kinds := by
  simp [ofService, within, List.flatMap_map]

theorem within_ofFile (f : File) : (ofFile f).within containers kinds =
    f.statements.flatMap fun s => (ofStatement s).outermost containers kinds := by
  simp [ofFile, within, List.flatMap_map]

@[simp] theorem outermost_optional_token (t : Terminal) (o : Option Lexeme) :
    (optional (token t) o).outermost containers kinds = [] := by
  cases o <;> rfl

end Containers

section Places

structure IsSorted (t : Tree) : Prop where
  fields : t.fields = []
  oneofs : t.oneofs = []
  values : t.values = []
  rpcs : t.rpcs = []

mutual

theorem values_ofMessageItem : ∀ item : MessageItem, (ofMessageItem item).outermost [.enum] [.enumValue] = []
  | .message name items => by
      rw [ofMessageItem, outermost_of_not_mem (by decide) (by decide)]
      exact List.flatMap_eq_nil_iff.mpr (List.forall_mem_cons.mpr ⟨rfl, values_ofMessageItems items⟩)
  | .enum _ => outermost_of_container (by decide) (by decide)
  | .field f => (madeOf_ofField f).outermost_eq_nil rfl
  | .map f => (madeOf_ofMapField f).outermost_eq_nil rfl
  | .oneof o => (madeOf_ofOneof o).outermost_eq_nil rfl
  | .option s => (madeOf_ofOption s).outermost_eq_nil rfl
  | .reserved items => (madeOf_ofReserved items).outermost_eq_nil rfl
  | .extensions e => (madeOf_ofExtensions e).outermost_eq_nil rfl
  | .empty => rfl

theorem values_ofMessageItems : ∀ items : List MessageItem,
    ∀ t ∈ ofMessageItem.ofMessageItems items, t.outermost [.enum] [.enumValue] = []
  | [] => nofun
  | item :: items => List.forall_mem_cons.mpr ⟨values_ofMessageItem item, values_ofMessageItems items⟩

end

theorem within_ofFile_eq_nil {containers kinds : List Construct} {f : File}
    (h : ∀ s, (ofStatement s).outermost containers kinds = []) : (ofFile f).within containers kinds = [] := by
  rw [within_ofFile]
  exact List.flatMap_eq_nil_iff.mpr fun s _ => h s

theorem isSorted_ofFile (f : File) : (ofFile f).IsSorted where
  fields := within_ofFile_eq_nil fun s => by
    cases s with
    | message m => exact outermost_ofMessage (by decide) (by decide) m
    | _ => exact (madeOf_ofStatement _).outermost_eq_nil rfl
  oneofs := within_ofFile_eq_nil fun s => by
    cases s with
    | message m => exact outermost_ofMessage (by decide) (by decide) m
    | _ => exact (madeOf_ofStatement _).outermost_eq_nil rfl
  values := within_ofFile_eq_nil fun s => by
    cases s with
    | message m => exact values_ofMessageItem (.ofMessage m)
    | enum e => exact outermost_of_container (by decide) (by decide)
    | _ => exact (madeOf_ofStatement _).outermost_eq_nil rfl
  rpcs := within_ofFile_eq_nil fun s => by
    cases s with
    | service s => exact outermost_of_container (by decide) (by decide)
    | _ => exact (madeOf_ofStatement _).outermost_eq_nil rfl

end Places

section Settings

def settingNodes (settings : Option (List Setting)) : List Tree := (settings.getD []).map (ofSetting .setting)

theorem outermost_ofSettings {containers : List Construct} (h : .settings ∉ containers)
    (settings : Option (List Setting)) : (ofSettings settings).outermost containers [.setting] = settingNodes settings := by
  cases settings with
  | none => rfl
  | some settings =>
      have hsetting (s : Setting) : (ofSetting .setting s).outermost containers [.setting] = [ofSetting .setting s] :=
        outermost_of_mem (by decide)
      rw [ofSettings, optional, outermost_of_not_mem (by decide) h, List.flatMap_map]
      simp only [hsetting, settingNodes, Option.getD_some]
      exact List.map_eq_flatMap.symm

theorem settings_ofField (f : Field) : (ofField f).settings = settingNodes f.settings := by
  simp [ofField, settings, within, outermost_ofSettings]

theorem settings_ofMapField (f : MapField) : (ofMapField f).settings = settingNodes f.settings := by
  simp [ofMapField, settings, within, outermost_ofSettings]

theorem settings_ofOneofField (f : OneofField) : (ofOneofField f).settings = settingNodes f.settings := by
  simp [ofOneofField, settings, within, outermost_ofSettings]

theorem settings_ofEnumValue (v : EnumValue) : (ofEnumValue v).settings = settingNodes v.settings := by
  simp [ofEnumValue, settings, within, outermost_ofSettings]

end Settings

end ProtoBundle.Source.Tree
