import ProtoBundle.Failure
import ProtoBundle.Path
import ProtoBundle.Text.Newline
import ProtoBundle.Text.Utf8

/-!
A tree of files and directories without links, and the working directory that relative paths start from. A path
is followed component by component, so that two dots leave the directory that has been reached; normal
paths are the ones that lead straight down.
-/

namespace ProtoBundle

inductive Node where
  | directory
  | file (bytes : List UInt8)
  deriving DecidableEq, Repr

/-- The nodes below the root, each under the components that lead to it. The root is a directory. -/
structure FileTree where
  working : List Char
  entries : List (List Path.Component × Node)
  deriving Repr

namespace FileTree

def node? (t : FileTree) : List Path.Component → Option Node
  | [] => some .directory
  | place => (t.entries.find? fun e => e.1 == place).map Prod.snd

inductive Lookup where
  | missing
  | throughFile
  | found (node : Node)
  deriving DecidableEq, Repr

def walk (t : FileTree) (place : List Path.Component) : List Path.Component → Lookup
  | [] =>
      match t.node? place with
      | some node => .found node
      | none => .missing
  | c :: cs =>
      match t.node? place with
      | none => .missing
      | some (.file _) => .throughFile
      | some .directory => t.walk (Path.step place c) cs

theorem node?_of_walk {t : FileTree} {place cs : List Path.Component} {node : Node}
    (h : t.walk place cs = .found node) : t.node? (cs.foldl Path.step place) = some node := by
  induction cs generalizing place with
  | nil =>
      simp only [walk] at h
      split at h
      · simp_all
      · simp at h
  | cons c cs ih =>
      simp only [walk] at h
      split at h
      · simp at h
      · simp at h
      · exact ih h

theorem mem_of_node? {t : FileTree} {place : List Path.Component} {node : Node} (h : t.node? place = some node) :
    place ∈ [] :: t.entries.map Prod.fst := by
  cases place with
  | nil => simp
  | cons c cs =>
      simp only [node?, Option.map_eq_some_iff] at h
      obtain ⟨e, he, -⟩ := h
      have hm := List.mem_of_find?_eq_some he
      have hp := List.find?_some he
      simp only [beq_iff_eq] at hp
      exact List.mem_cons_of_mem _ (hp ▸ List.mem_map_of_mem hm)

/-- A relative path is followed from the working directory. Nothing is found under an empty path or one with a
null character. -/
def lookup (t : FileTree) (path : List Char) : Lookup :=
  if path = [] ∨ '\x00' ∈ path then .missing
  else t.walk [] (Path.components (if Path.isAbsolute path then path else Path.append t.working path))

def isPresent (t : FileTree) (path : String) : Bool :=
  match t.lookup path.toList with
  | .found _ => true
  | _ => false

theorem mem_of_isPresent_normal {t : FileTree} {cs : List Char}
    (h : t.isPresent (String.ofList (Path.normal cs)) = true) :
    Path.normalComponents cs ∈ [] :: t.entries.map Prod.fst := by
  simp only [isPresent, lookup, String.toList_ofList, Path.isAbsolute_normal, if_true] at h
  split at h
  · rename_i node hl
    split at hl
    · simp at hl
    · have := node?_of_walk hl
      have hc : (Path.components (Path.normal cs)).foldl Path.step [] = Path.normalComponents cs :=
        Path.normalComponents_root_append (Path.isRoot_root cs) Path.proper_normalComponents
      rw [hc] at this
      exact mem_of_node? this
  · simp at h

def isDirectory (t : FileTree) (path : String) : Bool := t.lookup path.toList == .found .directory

def absolute (t : FileTree) (path : String) : String := String.ofList (Path.absolute t.working path.toList)

/-- To open a path with a null character is refused before it is followed. -/
def bytes (t : FileTree) (path : String) : Except Failure (List UInt8) :=
  if '\x00' ∈ path.toList then .error (.embeddedNull path)
  else
    match t.lookup path.toList with
    | .missing => .error (.missingFile path)
    | .throughFile => .error (.notDirectory path)
    | .found .directory => .error (.isDirectory path)
    | .found (.file bytes) => .ok bytes

def read (t : FileTree) (path : String) : Except Failure String :=
  match t.bytes path with
  | .error e => .error e
  | .ok bytes =>
      match Text.Utf8.decode bytes with
      | .ok cs => .ok (String.ofList (Text.unifyNewlines cs))
      | .error fault => .error (.malformed ("Not valid UTF-8: " ++ fault.message) (some path) none none)

def put (t : FileTree) (place : List Path.Component) (node : Node) : FileTree :=
  { t with entries := (place, node) :: t.entries.filter fun e => e.1 != place }

def makeWay (t : FileTree) (place : List Path.Component) : FileTree :=
  (List.range place.length).foldl
    (fun t n => if (t.node? (place.take n)).isSome then t else t.put (place.take n) .directory) t

def empty (working : List Char) : FileTree := ⟨working, []⟩

def addDirectory (t : FileTree) (path : String) : FileTree :=
  let place := Path.normalComponents path.toList
  if (t.node? place).isSome then t else (t.makeWay place).put place .directory

def write (t : FileTree) (path : String) (bytes : List UInt8) : FileTree :=
  let place := Path.normalComponents path.toList
  (t.makeWay place).put place (.file bytes)

/-- Only a file goes. Directories stay, those without files too. -/
def remove (t : FileTree) (path : String) : FileTree :=
  let place := Path.normalComponents path.toList
  match t.node? place with
  | some (.file _) => { t with entries := t.entries.filter fun e => e.1 != place }
  | _ => t

end FileTree

end ProtoBundle
