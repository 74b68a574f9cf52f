import ProtoBundle.Failure
import ProtoBundle.Schema.Basic
import ProtoBundle.Text.Split

/-!
Namespaces: dotted names of places in a schema. The segments of the package come first and have to match it one
by one; below the package each segment names a message or an enum inside of the one before.
-/

namespace ProtoBundle

inductive Namespace.Request where
  | absent
  | derived
  | named (name : String)
  deriving DecidableEq, Repr

namespace Namespace

def isSegmentChar (c : Char) : Bool := Source.continuesName c

def isSegment (cs : List Char) : Bool := !cs.isEmpty && cs.all isSegmentChar

def dropFinalLineFeed (cs : List Char) : List Char :=
  if cs.getLast? = some '\n' then cs.dropLast else cs

def dropLeadingDot : List Char → List Char
  | '.' :: cs => cs
  | cs => cs

/-- Segments with dots between them, after at most one leading dot and before at most one line feed. -/
def isDotted (cs : List Char) : Bool :=
  (Text.splitOn '.' (dropLeadingDot (dropFinalLineFeed cs))).all isSegment

/-- The pieces between the dots, without the empty one in front of a leading dot. -/
def parts (name : String) : List String :=
  match Text.splitString '.' name with
  | "" :: parts => parts
  | parts => parts

def packageParts (s : Schema) : List String :=
  match s.package with
  | none => []
  | some "" => []
  | some package => Text.splitString '.' package

inductive Member where
  | message (m : Message)
  | enum (e : Enum)
  deriving Repr

def Member.name : Member → String
  | .message m => m.name
  | .enum e => e.name

def Member.members : Member → List Member
  | .message m => m.messages.map .message ++ m.enums.map .enum
  | .enum _ => []

/-- Of several members of one name the first is taken. -/
def descends : List Member → List String → Bool
  | _, [] => true
  | members, part :: parts =>
      match members.find? fun m => m.name == part with
      | some m => descends m.members parts
      | none => false

def leads (members : List Member) : (package parts : List String) → Bool
  | _, [] => true
  | [], part :: parts => descends members (part :: parts)
  | p :: package, part :: parts => part == p && leads members package parts

/-- Whether a name is a place in a schema. Only the messages of a schema are looked up at its top. -/
def isValid (s : Schema) (name : String) : Bool :=
  isDotted name.toList && leads (s.messages.map .message) (packageParts s) (parts name)

def accepts (s : Schema) : Option String → Bool
  | none => true
  | some name => isValid s name

def Request.name? (s : Schema) : Request → Option String
  | .absent => none
  | .derived =>
      match s.package with
      | some "" => none
      | package => package
  | .named name => some name

def resolve (s : Schema) (request : Request) : Except Failure (Option String) :=
  match request.name? s with
  | none => .ok none
  | some name => if isValid s name then .ok (some name) else .error (.illegalNamespace name)

end Namespace

end ProtoBundle
