import ProtoBundle.Number.Integer
import ProtoBundle.Source.Parse
import ProtoBundle.Source.Tree
import ProtoBundle.Text.LineBreak
import ProtoBundle.Text.Quoted
import ProtoBundle.Text.Split

namespace ProtoBundle

inductive Failure where
  | malformed (message : String) (file : Option String) (line column : Option Int)
  | unresolved (path reference : String) (importer : Option String)
  | cycle (path reference : String) (importer : Option String) (chain : List String)
  | illegalNamespace (name : String)
  | missingDirectory (path : String)
  | integerTooLong
  | literalTooLong (construct : Source.Construct) (digits : Nat)
  | missingFile (path : String)
  | notDirectory (path : String)
  | isDirectory (path : String)
  | embeddedNull (path : String)
  | notInProgress
  | missingConvention
  | namelessDirectory
  deriving DecidableEq, Repr

namespace Failure

/-- The part of a message in front of its first colon: the file, or a stand-in for a text that has no file,
with line and column as far as they are known. A column without a line is not shown. -/
def location (file : Option String) (line column : Option Int) : String :=
  let name :=
    match file with
    | some "" => "<string>"
    | some name => name
    | none => "<string>"
  match line, column with
  | some line, some column => s!"{name}:{line}:{column}"
  | some line, none => s!"{name}:{line}"
  | none, _ => name

def importedFrom : Option String → String
  | none => ""
  | some "" => ""
  | some importer => s!" (imported from '{importer}')"

def digitLimitText : String := s!"Exceeds the limit ({Number.digitLimit} digits) for integer string conversion"

def digitLimitAdvice : String := "use sys.set_int_max_str_digits() to increase the limit"

def message : Failure → String
  | .malformed text file line column => s!"{location file line column}: {text}"
  | .unresolved path reference importer =>
      s!"Cannot resolve import '{reference}': no such file '{path}'{importedFrom importer}"
  | .cycle path _ _ chain => "Import cycle detected: " ++ Text.joinStrings " -> " (chain ++ [path])
  | .illegalNamespace name => s!"Illegal namespace: '{name}'"
  | .missingDirectory path => s!"Include directory '{path}' does not exist."
  | .integerTooLong =>
      s!"Composed schema could not be serialised: {digitLimitText}; {digitLimitAdvice}"
  | .literalTooLong construct digits =>
      s!"Error trying to process rule \"{construct.name}\":\n\n{digitLimitText}: value has {digits} digits; " ++
        digitLimitAdvice
  | .missingFile path => s!"[Errno 2] No such file or directory: {Text.quotedString path}"
  | .notDirectory path => s!"[Errno 20] Not a directory: {Text.quotedString path}"
  | .isDirectory path => s!"[Errno 21] Is a directory: {Text.quotedString path}"
  | .embeddedNull _ => "embedded null byte"
  | .notInProgress => "list.remove(x): x not in list"
  | .missingConvention => "[] is not a valid Convention"
  | .namelessDirectory => "stat: path should be string, bytes, os.PathLike or integer, not list"

/-- A text that is no schema file. Only the first line of the explanation is kept, which is cut short when the
character to blame ends a line. -/
def ofParseFault (file : Option String) : Source.ParseFault → Failure
  | .endOfText => .malformed "Unexpected end-of-input. Expected one of: " file none none
  | .character found place =>
      let text := s!"No terminal matches '{found}' in the current parser context, " ++
        s!"at line {place.line} col {place.column}"
      .malformed (String.ofList (Text.firstLine text.toList)) file (some place.line) (some place.column)

end Failure

end ProtoBundle
