import ProtoBundle.Command

/-!
The command on the files of a computer. A run works on a tree of files, into which every file and directory that
it can ask for is taken up before it starts.
-/

namespace ProtoBundle.Main

def directoryCode : UInt32 := 21

def observe (t : FileTree) (path : String) : IO FileTree := do
  try
    let bytes ← IO.FS.readBinFile (t.absolute path)
    return t.write (t.absolute path) bytes.toList
  catch e =>
    match e with
    | .inappropriateType _ code _ => return if code = directoryCode then t.addDirectory (t.absolute path) else t
    | _ => return t

partial def gather (t : FileTree) (includes : List String) (done : List String) : List String → IO FileTree
  | [] => return t
  | path :: paths =>
      if done.contains path then gather t includes done paths
      else do
        let t ← observe t path
        gather t includes (path :: done) (Composition.lookedAt t includes path ++ paths)

def stages (path : String) : List String :=
  let components := Path.components path.toList
  (List.range components.length).map fun n => String.ofList (Text.join ['/'] (components.take (n + 1)))

def environment : IO Environment := do
  let values ← Arguments.variableNames.mapM fun name => do return (name, ← IO.getEnv name)
  return values.filterMap fun e => e.2.map fun value => (e.1, value)

def picture (a : Arguments) : IO FileTree := do
  let working := (← IO.currentDir).toString
  let start := (FileTree.empty working.toList).addDirectory working
  let includes := Command.directories a.paths
  let t ← (includes.flatMap stages).foldlM observe start
  gather t includes [] [t.absolute a.input]

def outcome (words : List String) : IO Command.Outcome := do
  let env ← environment
  match Arguments.parse words env with
  | .ok a => return Command.run (← picture a) words env
  | .error _ => return Command.run (FileTree.empty ['/']) words env

end ProtoBundle.Main

def main (words : List String) : IO UInt32 := do
  match ← ProtoBundle.Main.outcome words with
  | .ended exit =>
      IO.print exit.output
      IO.eprint exit.errors
      return exit.status.toUInt32
  | .escaped failure =>
      IO.eprintln failure.message
      return 1
