import ProtoBundle.Source.File
import ProtoBundle.Text.Place

/-!
The syntax tree of a schema file: a node for each construct, with the lexemes that carry meaning and a mark
for each optional part that is absent. Words and punctuation leave no trace.
-/

namespace ProtoBundle.Source

inductive Construct where
  | file
  | emptyStatement
  | dialectStatement
  | packageStatement
  | importStatement
  | optionStatement
  | message
  | field
  | mapField
  | settings
  | setting
  | oneof
  | oneofField
  | reserved
  | extensions
  | idRange
  | enum
  | enumValue
  | service
  | rpc
  | rpcBody
  | floatConstant
  | nameConstant
  | integerConstant
  | quotedConstant
  deriving DecidableEq, Repr

def Construct.name : Construct → String
  | .file => "start"
  | .emptyStatement => "empty_stmt"
  | .dialectStatement => "syntax_stmt"
  | .packageStatement => "package_stmt"
  | .importStatement => "import_stmt"
  | .optionStatement => "option_stmt"
  | .message => "message_def"
  | .field => "field"
  | .mapField => "map_field"
  | .settings => "field_options"
  | .setting => "field_option"
  | .oneof => "oneof_def"
  | .oneofField => "oneof_field"
  | .reserved => "reserved_stmt"
  | .extensions => "extensions_stmt"
  | .idRange => "id_range"
  | .enum => "enum_def"
  | .enumValue => "enum_value"
  | .service => "service_def"
  | .rpc => "rpc_def"
  | .rpcBody => "rpc_body"
  | .floatConstant => "float_const"
  | .nameConstant => "ident_const"
  | .integerConstant => "int_const"
  | .quotedConstant => "string_const"

def Terminal.name : Terminal → String
  | .word text => text
  | .label => "LABEL"
  | .stream => "STREAM"
  | .importKind => "IMPORT_KIND"
  | .maximum => "MAX"
  | .special => "SIGNED_SPECIAL"
  | .identifier => "IDENT"
  | .dottedName => "FULL_IDENT"
  | .typeName => "TYPE_REF"
  | .optionName => "OPTION_NAME"
  | .integer => "INT"
  | .signedInteger => "SIGNED_INT"
  | .float => "FLOAT"
  | .quoted => "STRING"

inductive Tree where
  | node (construct : Construct) (children : List Tree)
  | token (terminal : Terminal) (lexeme : Lexeme)
  | absent
  deriving Repr

def Lexeme.place (text : List Char) (l : Lexeme) : Text.Place := Text.placeAt text l.offset

def Tree.tokens : Tree → List (Terminal × Lexeme)
  | .node _ children => tokensOfAll children
  | .token t l => [(t, l)]
  | .absent => []
where
  tokensOfAll : List Tree → List (Terminal × Lexeme)
    | [] => []
    | t :: ts => t.tokens ++ tokensOfAll ts

theorem Tree.tokensOfAll_eq_flatMap (ts : List Tree) : Tree.tokens.tokensOfAll ts = ts.flatMap Tree.tokens := by
  induction ts with
  | nil => rfl
  | cons t ts ih => simp [Tree.tokens.tokensOfAll, ih]

namespace Tree

def optional {α : Type} (tree : α → Tree) : Option α → Tree
  | some a => tree a
  | none => .absent

def ofConstant : Constant → Tree
  | .float l => .node .floatConstant [.token .float l]
  | .special l => .node .nameConstant [.token .special l]
  | .integer l => .node .integerConstant [.token .signedInteger l]
  | .quoted l => .node .quotedConstant [.token .quoted l]
  | .name l => .node .nameConstant [.token .dottedName l]

def ofSetting (construct : Construct) (s : Setting) : Tree :=
  .node construct [.token .optionName s.name, ofConstant s.value]

def ofSettings : Option (List Setting) → Tree :=
  optional fun settings => .node .settings (settings.map (ofSetting .setting))

def ofOption (s : Setting) : Tree := ofSetting .optionStatement s

def empty : Tree := .node .emptyStatement []

def ofField (f : Field) : Tree :=
  .node .field
    [optional (.token .label) f.label, .token .typeName f.type, .token .identifier f.name,
     .token .integer f.number, ofSettings f.settings]

def ofMapField (f : MapField) : Tree :=
  .node .mapField
    [.token .typeName f.key, .token .typeName f.value, .token .identifier f.name, .token .integer f.number,
     ofSettings f.settings]

def ofOneofField (f : OneofField) : Tree :=
  .node .oneofField
    [.token .typeName f.type, .token .identifier f.name, .token .integer f.number, ofSettings f.settings]

def ofOneofItem : OneofItem → Tree
  | .field f => ofOneofField f
  | .option s => ofOption s
  | .empty => empty

def ofOneof (o : Oneof) : Tree := .node .oneof (.token .identifier o.name :: o.items.map ofOneofItem)

def ofRangeEnd : RangeEnd → Tree
  | .number l => .token .integer l
  | .maximum l => .token .maximum l

def ofIdRange (r : IdRange) : Tree :=
  .node .idRange [.token .integer r.first, optional ofRangeEnd r.last]

def ofReservedItem : ReservedItem → Tree
  | .range r => ofIdRange r
  | .name l => .token .quoted l

def ofReserved (items : List ReservedItem) : Tree := .node .reserved (items.map ofReservedItem)

def ofExtensions (e : Extensions) : Tree := .node .extensions [ofIdRange e.range, ofSettings e.settings]

def ofEnumValue (v : EnumValue) : Tree :=
  .node .enumValue [.token .identifier v.name, .token .signedInteger v.number, ofSettings v.settings]

def ofEnumItem : EnumItem → Tree
  | .value v => ofEnumValue v
  | .option s => ofOption s
  | .reserved items => ofReserved items
  | .empty => empty

def ofEnum (e : Enum) : Tree := .node .enum (.token .identifier e.name :: e.items.map ofEnumItem)

def ofMessageItem : MessageItem → Tree
  | .field f => ofField f
  | .map f => ofMapField f
  | .oneof o => ofOneof o
  | .message name items => .node .message (.token .identifier name :: ofMessageItems items)
  | .enum e => ofEnum e
  | .option s => ofOption s
  | .reserved items => ofReserved items
  | .extensions e => ofExtensions e
  | .empty => empty
where
  ofMessageItems : List MessageItem → List Tree
    | [] => []
    | item :: items => ofMessageItem item :: ofMessageItems items

theorem ofMessageItems_eq_map (items : List MessageItem) :
    ofMessageItem.ofMessageItems items = items.map ofMessageItem := by
  induction items with
  | nil => rfl
  | cons item items ih => simp [ofMessageItem.ofMessageItems, ih]

def ofMessage (m : Message) : Tree := ofMessageItem (.ofMessage m)

def ofServiceOption : ServiceOption → Tree
  | .option s => ofOption s
  | .empty => empty

def ofRpc (r : Rpc) : Tree :=
  .node .rpc
    [.token .identifier r.name, optional (.token .stream) r.requestStream, .token .typeName r.request,
     optional (.token .stream) r.responseStream, .token .typeName r.response,
     .node .rpcBody (r.body.map ofServiceOption)]

def ofServiceItem : ServiceItem → Tree
  | .rpc r => ofRpc r
  | .option s => ofOption s
  | .empty => empty

def ofService (s : Service) : Tree := .node .service (.token .identifier s.name :: s.items.map ofServiceItem)

def ofStatement : Statement → Tree
  | .dialect l => .node .dialectStatement [.token .quoted l]
  | .package l => .node .packageStatement [.token .dottedName l]
  | .import_ kind path => .node .importStatement [optional (.token .importKind) kind, .token .quoted path]
  | .option s => ofOption s
  | .message m => ofMessage m
  | .enum e => ofEnum e
  | .service s => ofService s
  | .empty => empty

def ofFile (f : File) : Tree := .node .file (f.statements.map ofStatement)

end Tree

end ProtoBundle.Source
