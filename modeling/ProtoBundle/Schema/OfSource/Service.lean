import ProtoBundle.Schema.OfSource.Options

namespace ProtoBundle.Service

inductive Part where
  | rpc (r : Rpc)
  | option (entry : String × Value)
  | nothing
  deriving DecidableEq, Repr

def Part.rpc? : Part → Option Rpc
  | .rpc r => some r
  | _ => none

def Part.option? : Part → Option (String × Value)
  | .option entry => some entry
  | _ => none

def readRpcOption : Source.ServiceOption → Except Failure (Option (String × Value))
  | .option s => (Options.entry s).map some
  | .empty => .ok none

def readRpc (r : Source.Rpc) : Except Failure Rpc := do
  let entries ← r.body.mapM readRpcOption
  return ⟨r.name.text, r.request.text, r.requestStream.isSome, r.response.text, r.responseStream.isSome,
    Table.ofList (entries.filterMap id)⟩

def part : Source.ServiceItem → Except Failure Part
  | .rpc r => (readRpc r).map .rpc
  | .option s => (Options.entry s).map .option
  | .empty => .ok .nothing

def ofParts (name : String) (parts : List Part) : Service where
  name := name
  rpcs := parts.filterMap Part.rpc?
  options := Table.ofList (parts.filterMap Part.option?)

def ofSource (s : Source.Service) : Except Failure Service := (s.items.mapM part).map (ofParts s.name.text)

end ProtoBundle.Service
