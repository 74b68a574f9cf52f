import ProtoBundle.Source.File
import ProtoBundle.Source.Grammar

namespace ProtoBundle.Source.Rules

open Grammar

abbrev Rule (α : Type) := Grammar Message α

def constant : Rule Constant :=
  .either (.map .float (.terminal .float))
    (.either (.map .special (.terminal .special))
      (.either (.map .integer (.terminal .signedInteger))
        (.either (.map .quoted (.terminal .quoted)) (.map .name (.terminal .dottedName)))))

def setting : Rule Setting :=
  .map (fun r => ⟨r.1, r.2⟩) (.both ((Grammar.terminal .optionName).before "=") constant)

def settings : Rule (Option (List Setting)) := .optional (between "[" (separated setting ",") "]")

def optionStatement : Rule Setting := between "option" setting ";"

def numbered {α : Type} (a : Rule α) (number : Terminal) : Rule (α × Lexeme × Option (List Setting)) :=
  .both (a.before "=") (.both (.terminal number) (settings.before ";"))

def field : Rule Field :=
  .map (fun r => ⟨r.1.1, r.1.2.1, r.1.2.2, r.2.1, r.2.2⟩)
    (numbered (.both (.optional (.terminal .label)) (.both (.terminal .typeName) (.terminal .identifier)))
      .integer)

def mapTypes : Rule (Lexeme × Lexeme) :=
  after "map" (between "<" (.both ((Grammar.terminal .typeName).before ",") (.terminal .typeName)) ">")

def mapField : Rule MapField :=
  .map (fun r => ⟨r.1.1.1, r.1.1.2, r.1.2, r.2.1, r.2.2⟩)
    (numbered (.both mapTypes (.terminal .identifier)) .integer)

def oneofField : Rule OneofField :=
  .map (fun r => ⟨r.1.1, r.1.2, r.2.1, r.2.2⟩)
    (numbered (.both (.terminal .typeName) (.terminal .identifier)) .integer)

def block {α : Type} (opening : String) (item : Rule α) : Rule (Lexeme × List α) :=
  after opening (.both (.terminal .identifier) (between "\x7b" (.many item) "\x7d"))

def empty {α : Type} (a : α) : Rule α := .map (fun _ => a) (word ";")

def oneofItem : Rule OneofItem :=
  .either (.map .field oneofField) (.either (.map .option optionStatement) (empty .empty))

def oneof : Rule Oneof := .map (fun r => ⟨r.1, r.2⟩) (block "oneof" oneofItem)

def rangeEnd : Rule RangeEnd :=
  .either (.map .number (.terminal .integer)) (.map .maximum (.terminal .maximum))

def idRange : Rule IdRange :=
  .map (fun r => ⟨r.1, r.2⟩) (.both (.terminal .integer) (.optional (after "to" rangeEnd)))

def reservedItem : Rule ReservedItem := .either (.map .range idRange) (.map .name (.terminal .quoted))

def reserved : Rule (List ReservedItem) := between "reserved" (separated reservedItem ",") ";"

def extensions : Rule Extensions :=
  .map (fun r => ⟨r.1, r.2⟩) (between "extensions" (.both idRange settings) ";")

def enumValue : Rule EnumValue :=
  .map (fun r => ⟨r.1, r.2.1, r.2.2⟩) (numbered (.terminal .identifier) .signedInteger)

def enumItem : Rule EnumItem :=
  .either (.map .value enumValue)
    (.either (.map .option optionStatement) (.either (.map .reserved reserved) (empty .empty)))

def enum : Rule Enum := .map (fun r => ⟨r.1, r.2⟩) (block "enum" enumItem)

def messageItem : Rule MessageItem :=
  .either (.map .field field)
    (.either (.map .map mapField)
      (.either (.map .oneof oneof)
        (.either (.map .ofMessage .self)
          (.either (.map .enum enum)
            (.either (.map .option optionStatement)
              (.either (.map .reserved reserved)
                (.either (.map .extensions extensions) (empty .empty))))))))

def message : Rule Message := .map (fun r => ⟨r.1, r.2⟩) (block "message" messageItem)

def serviceOption : Rule ServiceOption := .either (.map .option optionStatement) (empty .empty)

def rpcType : Rule (Option Lexeme × Lexeme) :=
  between "(" (.both (.optional (.terminal .stream)) (.terminal .typeName)) ")"

def rpcBody : Rule (List ServiceOption) := .either (empty []) (between "\x7b" (.many serviceOption) "\x7d")

def rpc : Rule Rpc :=
  .map (fun r => ⟨r.1, r.2.1.1, r.2.1.2, r.2.2.1.1, r.2.2.1.2, r.2.2.2⟩)
    (after "rpc" (.both (.terminal .identifier) (.both rpcType (after "returns" (.both rpcType rpcBody)))))

def serviceItem : Rule ServiceItem :=
  .either (.map .rpc rpc) (.either (.map .option optionStatement) (empty .empty))

def service : Rule Service := .map (fun r => ⟨r.1, r.2⟩) (block "service" serviceItem)

def statement : Rule Statement :=
  .either (.map .dialect (after "syntax" (between "=" (.terminal .quoted) ";")))
    (.either (.map .package (between "package" (.terminal .dottedName) ";"))
      (.either
        (.map (fun r => .import_ r.1 r.2)
          (between "import" (.both (.optional (.terminal .importKind)) (.terminal .quoted)) ";"))
        (.either (.map .option optionStatement)
          (.either (.map .message .self)
            (.either (.map .enum enum) (.either (.map .service service) (empty .empty)))))))

def file : Rule File := .map File.mk (.many statement)

end ProtoBundle.Source.Rules
