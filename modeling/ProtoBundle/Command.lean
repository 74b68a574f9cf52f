import ProtoBundle.Arguments.Basic
import ProtoBundle.Converter

/-!
The command: arguments, one converter, and the outcome of its run. A wrong command line and a missing include
directory end with status 2, other failures with status 1.
-/

namespace ProtoBundle.Command

structure Exit where
  status : Nat
  output : String
  errors : String
  deriving DecidableEq, Repr

inductive Outcome where
  | ended (exit : Exit)
  | escaped (f : Failure)
  deriving DecidableEq, Repr

def isExpected : Failure → Bool
  | .literalTooLong .. => false
  | .embeddedNull _ => false
  | .notInProgress => false
  | .missingConvention => false
  | .namelessDirectory => false
  | _ => true

def errorLine (f : Failure) : String := "[ERROR] " ++ f.message ++ "\n"

def directories (paths : List (Option String)) : List String := (paths.takeWhile Option.isSome).filterMap id

def converter (a : Arguments) (c : Convention) : Converter where
  input := a.input
  includes := directories a.paths
  convention := c
  request := a.request
  layout := if a.compact then .compact else .pretty
  verbose := a.verbose
  schema := none

def linesOf (verbose : Bool) (notices : List Notice) : String :=
  Text.joinStrings "" (Converter.shown verbose notices)

def render (t : FileTree) (k : Converter) (shown : String) : Outcome :=
  let rendered := k.render t
  let shown := shown ++ linesOf k.verbose rendered.notices
  match rendered.result with
  | .ok text => .ended ⟨0, text, shown⟩
  | .error e => if isExpected e then .ended ⟨1, "", shown ++ errorLine e⟩ else .escaped e

/-- Checks the convention and then the include directories from left to right, and reads no schema if one is
missing. -/
def convert (t : FileTree) (a : Arguments) : Outcome :=
  match a.convention with
  | none => .escaped .missingConvention
  | some c =>
      let checked := (converter a c).validate t
      let shown := linesOf a.verbose checked.notices
      match checked.result with
      | .error e => .ended ⟨2, "", shown ++ errorLine e⟩
      | .ok () => if none ∈ a.paths then .escaped .namelessDirectory else render t checked.converter shown

def run (t : FileTree) (words : List String) (env : Environment) : Outcome :=
  match Arguments.parse words env with
  | .error .help => .ended ⟨0, Arguments.usage, ""⟩
  | .error (.fault f) => .ended ⟨2, "", f.report⟩
  | .ok a => convert t a

end ProtoBundle.Command
