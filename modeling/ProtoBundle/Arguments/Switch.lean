namespace ProtoBundle.Arguments

inductive Switch where
  | help
  | path
  | format
  | namespaced
  | compact
  | verbose
  deriving DecidableEq, Repr

inductive Arity where
  | none
  | one
  | optional
  deriving DecidableEq, Repr

def Switch.arity : Switch → Arity
  | .path => .one
  | .format => .one
  | .namespaced => .optional
  | _ => .none

def Switch.spellings : Switch → List String
  | .help => ["-h", "--help"]
  | .path => ["--path", "-p"]
  | .format => ["--format", "-f"]
  | .namespaced => ["--namespace", "-n"]
  | .compact => ["--min", "-m"]
  | .verbose => ["--verbose", "-v"]

def Switch.all : List Switch := [.help, .path, .format, .namespaced, .compact, .verbose]

def spelled : List (String × Switch) := Switch.all.flatMap fun s => s.spellings.map fun name => (name, s)

def switch? (name : String) : Option Switch := (spelled.find? fun e => e.1 == name).map Prod.snd

end ProtoBundle.Arguments
