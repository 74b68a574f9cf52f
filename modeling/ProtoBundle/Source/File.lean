import ProtoBundle.Source.Cursor

namespace ProtoBundle.Source

inductive Constant where
  | float (lexeme : Lexeme)
  | special (lexeme : Lexeme)
  | integer (lexeme : Lexeme)
  | quoted (lexeme : Lexeme)
  | name (lexeme : Lexeme)
  deriving DecidableEq, Repr

structure Setting where
  name : Lexeme
  value : Constant
  deriving DecidableEq, Repr

structure Field where
  label : Option Lexeme
  type : Lexeme
  name : Lexeme
  number : Lexeme
  settings : Option (List Setting)
  deriving DecidableEq, Repr

structure MapField where
  key : Lexeme
  value : Lexeme
  name : Lexeme
  number : Lexeme
  settings : Option (List Setting)
  deriving DecidableEq, Repr

structure OneofField where
  type : Lexeme
  name : Lexeme
  number : Lexeme
  settings : Option (List Setting)
  deriving DecidableEq, Repr

inductive OneofItem where
  | field (f : OneofField)
  | option (s : Setting)
  | empty
  deriving DecidableEq, Repr

structure Oneof where
  name : Lexeme
  items : List OneofItem
  deriving DecidableEq, Repr

inductive RangeEnd where
  | number (lexeme : Lexeme)
  | maximum (lexeme : Lexeme)
  deriving DecidableEq, Repr

structure IdRange where
  first : Lexeme
  last : Option RangeEnd
  deriving DecidableEq, Repr

inductive ReservedItem where
  | range (r : IdRange)
  | name (lexeme : Lexeme)
  deriving DecidableEq, Repr

structure Extensions where
  range : IdRange
  settings : Option (List Setting)
  deriving DecidableEq, Repr

structure EnumValue where
  name : Lexeme
  number : Lexeme
  settings : Option (List Setting)
  deriving DecidableEq, Repr

inductive EnumItem where
  | value (v : EnumValue)
  | option (s : Setting)
  | reserved (items : List ReservedItem)
  | empty
  deriving DecidableEq, Repr

structure Enum where
  name : Lexeme
  items : List EnumItem
  deriving DecidableEq, Repr

inductive MessageItem where
  | field (f : Field)
  | map (f : MapField)
  | oneof (o : Oneof)
  | message (name : Lexeme) (items : List MessageItem)
  | enum (e : Enum)
  | option (s : Setting)
  | reserved (items : List ReservedItem)
  | extensions (e : Extensions)
  | empty
  deriving Repr

structure Message where
  name : Lexeme
  items : List MessageItem
  deriving Repr

def MessageItem.ofMessage (m : Message) : MessageItem := .message m.name m.items

inductive ServiceOption where
  | option (s : Setting)
  | empty
  deriving DecidableEq, Repr

structure Rpc where
  name : Lexeme
  requestStream : Option Lexeme
  request : Lexeme
  responseStream : Option Lexeme
  response : Lexeme
  body : List ServiceOption
  deriving DecidableEq, Repr

inductive ServiceItem where
  | rpc (r : Rpc)
  | option (s : Setting)
  | empty
  deriving DecidableEq, Repr

structure Service where
  name : Lexeme
  items : List ServiceItem
  deriving DecidableEq, Repr

inductive Statement where
  | dialect (text : Lexeme)
  | package (name : Lexeme)
  | import_ (kind : Option Lexeme) (path : Lexeme)
  | option (s : Setting)
  | message (m : Message)
  | enum (e : Enum)
  | service (s : Service)
  | empty
  deriving Repr

structure File where
  statements : List Statement
  deriving Repr

end ProtoBundle.Source
