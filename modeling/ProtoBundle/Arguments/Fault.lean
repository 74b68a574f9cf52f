import ProtoBundle.Arguments.Switch
import ProtoBundle.Render

namespace ProtoBundle.Arguments

inductive Fault where
  | missingInput
  | unrecognized (texts : List String)
  | invalidFormat (value : String)
  | missingValue (s : Switch)
  | uselessValue (s : Switch) (value : String)
  | ambiguous (given : String) (candidates : List String)
  | environmentFormat (value : String)
  deriving DecidableEq, Repr

def program : String := "proto_wrangler.py"

def Switch.title (s : Switch) : String := Text.joinStrings "/" s.spellings

def formatNames : List String := Convention.all.map Convention.name

def Fault.message : Fault → String
  | .missingInput => "the following arguments are required: input"
  | .unrecognized texts => "unrecognized arguments: " ++ Text.joinStrings " " texts
  | .invalidFormat value =>
      "argument " ++ Switch.format.title ++ ": invalid choice: " ++ Text.quotedString value ++ " (choose from " ++
        Text.joinStrings ", " (formatNames.map Text.quotedString) ++ ")"
  | .missingValue s => "argument " ++ s.title ++ ": expected one argument"
  | .uselessValue s value =>
      "argument " ++ s.title ++ ": ignored explicit argument " ++ Text.quotedString value
  | .ambiguous given candidates =>
      "ambiguous option: " ++ given ++ " could match " ++ Text.joinStrings ", " candidates
  | .environmentFormat value =>
      "PW_FORMAT: invalid choice: '" ++ value ++ "' (choose from " ++ Text.joinStrings ", " formatNames ++ ")"

def usage : String :=
  "usage: " ++ program ++ " [-h] [--path PATH]\n" ++
    "                         [--format \x7bjson,shim,commonjs,amd\x7d]\n" ++
    "                         [--namespace [NAMESPACE]] [--min] [--verbose]\n" ++
    "                         input\n"

def Fault.report (f : Fault) : String := usage ++ program ++ ": error: " ++ f.message ++ "\n"

end ProtoBundle.Arguments
