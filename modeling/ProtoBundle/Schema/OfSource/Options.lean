import ProtoBundle.Failure
import ProtoBundle.Schema.Basic
import ProtoBundle.Source.Quotation

/-!
Lexemes and constants of a schema file as values, and options as tables of them. Numbers are read from the innermost
construct outwards, so that of several literals that are too long the first innermost one is reported.
-/

namespace ProtoBundle

def Source.Lexeme.integer (l : Source.Lexeme) (construct : Source.Construct) : Except Failure Int :=
  match Number.readInteger l.text.toList with
  | .ok i => .ok i
  | .error e => .error (.literalTooLong construct e.count)

def Source.Lexeme.unquoted (l : Source.Lexeme) : String := String.ofList (Source.unquote l.text.toList)

def Value.ofName (name : String) : Value :=
  if name = "true" then .flag true else if name = "false" then .flag false else .text name

def Value.ofConstant : Source.Constant → Except Failure Value
  | .float l => .ok (.float (Number.Binary64.ofText l.text.toList))
  | .special l => .ok (.text l.text)
  | .integer l => (l.integer .integerConstant).map .integer
  | .quoted l => .ok (.text (l.unquoted))
  | .name l => .ok (.ofName l.text)

def Options.entry (s : Source.Setting) : Except Failure (String × Value) :=
  (Value.ofConstant s.value).map fun v => (s.name.text, v)

def Options.ofSettings (settings : Option (List Source.Setting)) : Except Failure Options :=
  ((settings.getD []).mapM Options.entry).map Table.ofList

end ProtoBundle
