import ProtoBundle.Number.Shortest
import ProtoBundle.Proofs.Source.Literals
import ProtoBundle.Schema.OfSource

namespace ProtoBundle

open Source (Terminal)

def Value.word : Value → List Char
  | .integer i => Number.signedDecimal i
  | .float x => x.text
  | .flag true => "true".toList
  | .flag false => "false".toList
  | .text s => Source.quote s.toList

namespace Options

def entryWords (e : String × Value) : List (List Char) := [e.1.toList, "=".toList, e.2.word]

def statementWords (e : String × Value) : List (List Char) := "option".toList :: (entryWords e ++ [";".toList])

def settingWords : Options → List (List Char)
  | [] => []
  | e :: es => "[".toList :: (entryWords e ++ es.flatMap (fun e => ",".toList :: entryWords e) ++ ["]".toList])

end Options

def numberWords (number : Int) (options : Options) : List (List Char) :=
  "=".toList :: Number.signedDecimal number :: (Options.settingWords options ++ [";".toList])

def blockWords (opening name : String) (body : List (List Char)) : List (List Char) :=
  opening.toList :: name.toList :: "\x7b".toList :: (body ++ ["\x7d".toList])

def Field.words (f : Field) : List (List Char) :=
  match f.keyType with
  | some key =>
      "map".toList :: "<".toList :: key.toList :: ",".toList :: f.type.toList :: ">".toList :: f.name.toList ::
        numberWords f.number f.options
  | none => f.rule.toList :: f.type.toList :: f.name.toList :: numberWords f.number f.options

def Field.bareWords (f : Field) : List (List Char) :=
  f.type.toList :: f.name.toList :: numberWords f.number f.options

def EnumValue.words (v : EnumValue) : List (List Char) := v.name.toList :: numberWords v.number v.options

namespace Enum

def parts (e : Enum) : List Part := e.values.map .value ++ e.options.map .option

def Part.words : Part → List (List Char)
  | .value v => v.words
  | .option e => Options.statementWords e
  | .nothing => []

def words (e : Enum) : List (List Char) := blockWords "enum" e.name (e.parts.flatMap Part.words)

end Enum

def Field.isPlain (f : Field) : Bool := f.oneof.isNone

def Field.isIn (name : String) (f : Field) : Bool := f.oneof == some name

namespace Message

inductive Member where
  | field (f : Field)
  | oneof (name : String) (fields : List Field)
  deriving DecidableEq, Repr

def Member.part : Member → Part
  | .field f => .field f
  | .oneof name fields => .oneof name fields

def Member.words : Member → List (List Char)
  | .field f => f.words
  | .oneof name fields => blockWords "oneof" name (fields.flatMap Field.bareWords)

/-- Cuts the fields into those of each oneof and those in between. -/
def arrange : List Field → Table (List Int) → List Member
  | fields, [] => fields.map .field
  | fields, (name, _) :: oneofs =>
      let behind := fields.dropWhile Field.isPlain
      (fields.takeWhile Field.isPlain).map .field ++
        .oneof name (behind.takeWhile (Field.isIn name)) :: arrange (behind.dropWhile (Field.isIn name)) oneofs

def rangeWords : List Int → List (List Char)
  | [first, last] =>
      ["extensions".toList, Number.signedDecimal first, "to".toList, Number.signedDecimal last, ";".toList]
  | _ => []

def words : Message → List (List Char)
  | ⟨name, fields, enums, messages, options, oneofs, extensions⟩ =>
      blockWords "message" name
        ((arrange fields oneofs).flatMap Member.words ++
          (enums.flatMap Enum.words ++ wordsOfAll messages ++ options.flatMap Options.statementWords ++
            extensions.toList.flatMap rangeWords))
where
  wordsOfAll : List Message → List (List Char)
    | [] => []
    | m :: ms => m.words ++ wordsOfAll ms

def furtherParts (m : Message) : List Part :=
  m.enums.map .enum ++ m.messages.map .message ++ m.options.map .option ++ m.extensions.toList.map .extensions

def parts (m : Message) : List Part := (arrange m.fields m.oneofs).map Member.part ++ m.furtherParts

def Part.words : Part → List (List Char)
  | .field f => f.words
  | .oneof name fields => blockWords "oneof" name (fields.flatMap Field.bareWords)
  | .message m => m.words
  | .enum e => e.words
  | .option e => Options.statementWords e
  | .extensions range => rangeWords range
  | .nothing => []

theorem wordsOfAll_eq_flatMap (ms : List Message) : words.wordsOfAll ms = ms.flatMap words := by
  induction ms with
  | nil => rfl
  | cons m ms ih => rw [words.wordsOfAll, ih, List.flatMap_cons]

theorem words_eq (m : Message) : m.words = blockWords "message" m.name (m.parts.flatMap Part.words) := by
  obtain ⟨name, fields, enums, messages, options, oneofs, extensions⟩ := m
  have hmembers : ∀ ms : List Member, (ms.map Member.part).flatMap Part.words = ms.flatMap Member.words := by
    intro ms
    rw [List.flatMap_map]
    exact List.flatMap_congr fun m _ => by cases m <;> rfl
  simp only [words, parts, furtherParts, wordsOfAll_eq_flatMap, List.flatMap_append, hmembers, List.flatMap_map]
  rfl

end Message

namespace Service

def typeWords (streamed : Bool) (type : String) : List (List Char) :=
  "(".toList :: ((if streamed then ["stream".toList] else []) ++ [type.toList, ")".toList])

def rpcWords (r : Rpc) : List (List Char) :=
  "rpc".toList :: r.name.toList ::
    (typeWords r.requestStream r.request ++
      "returns".toList :: (typeWords r.responseStream r.response ++
        "\x7b".toList :: (r.options.flatMap Options.statementWords ++ ["\x7d".toList])))

def parts (s : Service) : List Part := s.rpcs.map .rpc ++ s.options.map .option

def Part.words : Part → List (List Char)
  | .rpc r => rpcWords r
  | .option e => Options.statementWords e
  | .nothing => []

def words (s : Service) : List (List Char) := blockWords "service" s.name (s.parts.flatMap Part.words)

end Service

namespace Schema

def parts (s : Schema) : List Part :=
  s.dialect.toList.map .dialect ++ s.package.toList.map .package ++ s.references.map .import_ ++
    s.options.map .option ++ s.messages.map .message ++ s.enums.map .enum ++ s.services.map .service

def Part.words : Part → List (List Char)
  | .dialect text => ["syntax".toList, "=".toList, Source.quote text.toList, ";".toList]
  | .package name => ["package".toList, name.toList, ";".toList]
  | .import_ reference => ["import".toList, Source.quote reference.toList, ";".toList]
  | .option e => Options.statementWords e
  | .message m => m.words
  | .enum e => e.words
  | .service s => s.words
  | .nothing => []

def words (s : Schema) : List (List Char) := s.parts.flatMap Part.words

def text (s : Schema) : String := String.ofList (List.intercalate [' '] s.words)

end Schema

end ProtoBundle
