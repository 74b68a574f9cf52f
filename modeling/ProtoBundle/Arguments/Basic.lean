import ProtoBundle.Arguments.Token
import ProtoBundle.Schema.Table
import ProtoBundle.Text.Blank
import ProtoBundle.Text.Lowercase

/-!
Reading a command line: switches and their values from left to right, one input, and what is left over. Variables of
the environment then override the switches. Two dashes joined to a switch are no value, so that an include directory
can be without a name and the convention can be missing.
-/

namespace ProtoBundle

structure Arguments where
  input : String
  paths : List (Option String)
  convention : Option Convention
  request : Namespace.Request
  compact : Bool
  verbose : Bool
  deriving DecidableEq, Repr

abbrev Environment := Table String

namespace Arguments

inductive Stop where
  | help
  | fault (f : Fault)
  deriving DecidableEq, Repr

structure Progress where
  input : Option String
  paths : List (Option String)
  convention : Option Convention
  request : Namespace.Request
  compact : Bool
  verbose : Bool
  leftOver : List String
  deriving DecidableEq, Repr

def Progress.start : Progress := ⟨none, [], some .structural, .absent, false, false, []⟩

def Progress.leave (p : Progress) (word : String) : Progress := { p with leftOver := p.leftOver ++ [word] }

def valueOf (word : String) : Option String := if word = "--" then none else some word

/-- Applies a switch. A namespace without a value is the package. The name of a convention is checked only if there
is one. -/
def Progress.apply (p : Progress) (s : Switch) (word : Option String) : Except Stop Progress :=
  match s, word with
  | .help, _ => .error .help
  | .compact, _ => .ok { p with compact := true }
  | .verbose, _ => .ok { p with verbose := true }
  | .namespaced, word => .ok { p with request := ((word.bind valueOf).map .named).getD .derived }
  | .path, some word => .ok { p with paths := p.paths ++ [valueOf word] }
  | .format, some word =>
      match valueOf word with
      | none => .ok { p with convention := none }
      | some name =>
          match Convention.ofName? name with
          | some c => .ok { p with convention := some c }
          | none => .error (.fault (.invalidFormat name))
  | s, none => .error (.fault (.missingValue s))

structure Cluster where
  flags : List Switch
  last : Switch
  value : Option String
  deriving DecidableEq, Repr

/-- Takes apart what is joined to a switch. It is the value of a switch that has one; behind a flag of one letter
it is further letters, and behind other flags it is of no use. -/
def cluster (s : Switch) (short : Bool) : List Char → Except Fault Cluster
  | [] => if s.arity = .none then .error (.uselessValue s "") else .ok ⟨[], s, some ""⟩
  | c :: cs =>
      if s.arity = .none then
        match short, switch? (String.ofList ['-', c]) with
        | true, some next =>
            if cs.isEmpty then .ok ⟨[s], next, none⟩
            else (cluster next true cs).map fun k => { k with flags := s :: k.flags }
        | _, _ => .error (.uselessValue s (String.ofList (c :: cs)))
      else .ok ⟨[], s, some (String.ofList (c :: cs))⟩

def clusterOf (s : Switch) (short : Bool) : Option (List Char) → Except Fault Cluster
  | none => .ok ⟨[], s, none⟩
  | some joined => cluster s short joined

def Cluster.wants (k : Cluster) : Bool := k.last.arity != .none && k.value.isNone

def Progress.applyAll (p : Progress) (k : Cluster) (value : Option String) : Except Stop Progress := do
  let p ← k.flags.foldlM (fun p s => p.apply s none) p
  p.apply k.last value

/-- Two dashes are swallowed next to the input and left over elsewhere. -/
def read : List Token → Progress → Except Stop Progress
  | [], p => .ok p
  | .separator :: ts, p =>
      match ts, p.input with
      | .plain word :: ts, none => read ts { p with input := some word }
      | ts, _ => read ts (p.leave "--")
  | .plain word :: ts, p =>
      match ts, p.input with
      | .separator :: ts, none => read ts { p with input := some word }
      | ts, none => read ts { p with input := some word }
      | ts, some _ => read ts (p.leave word)
  | .unknown word :: ts, p => read ts (p.leave word)
  | .switch s short joined :: ts, p =>
      match clusterOf s short joined with
      | .error f => .error (.fault f)
      | .ok k =>
          if k.wants then
            match ts with
            | .plain word :: ts => (p.applyAll k (some word)).bind (read ts)
            | ts =>
                if k.last.arity = .one then .error (.fault (.missingValue k.last))
                else (p.applyAll k none).bind (read ts)
          else (p.applyAll k k.value).bind (read ts)

def Progress.arguments (p : Progress) : Except Stop Arguments :=
  match p.input with
  | none => .error (.fault .missingInput)
  | some input =>
      if p.leftOver = [] then .ok ⟨input, p.paths, p.convention, p.request, p.compact, p.verbose⟩
      else .error (.fault (.unrecognized p.leftOver))

def ofWords (words : List String) : Except Stop Arguments :=
  match tokens words with
  | .error f => .error (.fault f)
  | .ok ts =>
      match read ts .start with
      | .error stop => .error stop
      | .ok p => p.arguments

def trimmed (s : String) : String := String.ofList (Text.trim s.toList)

def lowered (s : String) : String := String.ofList (Text.lower (Text.trim s.toList))

def isTrue (s : String) : Bool := ["1", "true", "yes", "on"].contains (lowered s)

def extraPaths (env : Environment) : List String :=
  match env.get? "PW_INCLUDE_PATH" with
  | none => []
  | some paths => (Text.splitString ':' paths).filter fun p => !p.isEmpty

def environmentRequest (value : String) : Namespace.Request :=
  if (trimmed value).isEmpty then .derived else .named (trimmed value)

def variableNames : List String := ["PW_INCLUDE_PATH", "PW_FORMAT", "PW_NAMESPACE", "PW_MIN", "PW_VERBOSE"]

/-- Include directories are added to those of the switches; every other variable replaces a switch. -/
def override (env : Environment) (a : Arguments) : Except Fault Arguments := do
  let convention ←
    match env.get? "PW_FORMAT" with
    | none => .ok a.convention
    | some value =>
        match Convention.ofName? (lowered value) with
        | some c => .ok (some c)
        | none => .error (Fault.environmentFormat (lowered value))
  return {
    input := a.input
    paths := a.paths ++ (extraPaths env).map some
    convention := convention
    request := ((env.get? "PW_NAMESPACE").map environmentRequest).getD a.request
    compact := ((env.get? "PW_MIN").map isTrue).getD a.compact
    verbose := ((env.get? "PW_VERBOSE").map isTrue).getD a.verbose }

def parse (words : List String) (env : Environment) : Except Stop Arguments :=
  match ofWords words with
  | .error stop => .error stop
  | .ok a =>
      match a.override env with
      | .error f => .error (.fault f)
      | .ok a => .ok a

end Arguments

end ProtoBundle
