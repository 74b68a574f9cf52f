import ProtoBundle.Main
import ProtoBundle.Session
import ProtoBundle.Proofs.Composition.ImportGraph
import ProtoBundle.Proofs.Composition.Recursion
import ProtoBundle.Proofs.Composition.Search
import ProtoBundle.Proofs.Composition.Blame
import ProtoBundle.Proofs.Composition.Inlining
import ProtoBundle.Proofs.Composition.Acyclicity
import ProtoBundle.Proofs.Composition.SharedCache
import ProtoBundle.Proofs.Composition.Spellings
import ProtoBundle.Proofs.Composition.CheckedDirectories
import ProtoBundle.Proofs.Composition.Directories
import ProtoBundle.Proofs.Composition.Pruning
import ProtoBundle.Proofs.Composition.Termination
import ProtoBundle.Proofs.Composition.Conformity
import ProtoBundle.Proofs.Composition.NormalPaths
import ProtoBundle.Proofs.Rendering.Enclosure
import ProtoBundle.Proofs.Rendering.Characters
import ProtoBundle.Proofs.Rendering.Documents
import ProtoBundle.Proofs.Rendering.Refusal
import ProtoBundle.Proofs.Script.Binding
import ProtoBundle.Proofs.Session.Conversions
import ProtoBundle.Proofs.Command.Verbosity
import ProtoBundle.Proofs.Source.Rejection
import ProtoBundle.Proofs.Source.Spelling
import ProtoBundle.Proofs.Schema.Layouts
import ProtoBundle.Proofs.Schema.Restoration
import ProtoBundle.Proofs.Schema.Records
import ProtoBundle.Proofs.Schema.Oneofs
import ProtoBundle.Proofs.Schema.IntegerOptions
import ProtoBundle.Proofs.Schema.ExtensionRanges
import ProtoBundle.Proofs.Namespace.Places
