import AssemblyLinker.Assembly.Description
import AssemblyLinker.Command.Report
import AssemblyLinker.Main
import AssemblyLinker.Proofs.Text.Payload
import AssemblyLinker.Proofs.Loading.Registration
import AssemblyLinker.Proofs.Loading.Failures
import AssemblyLinker.Proofs.Document
import AssemblyLinker.Proofs.Loading.Bundle
import AssemblyLinker.Proofs.Loading.Texts
import AssemblyLinker.Proofs.Loading.Recursion
import AssemblyLinker.Proofs.Executable.Closure
import AssemblyLinker.Proofs.Executable.Embedding
import AssemblyLinker.Proofs.Loading.Modes
import AssemblyLinker.Proofs.Executable.Equivalence
import AssemblyLinker.Proofs.Loading.Canonical
import AssemblyLinker.Proofs.Loading.Dependencies
import AssemblyLinker.Proofs.Loading.Symbols
import AssemblyLinker.Proofs.Loading.Ranks
import AssemblyLinker.Proofs.Loading.Occurrences
import AssemblyLinker.Proofs.Loading.Sharing
import AssemblyLinker.Proofs.Loading.Permanence
import AssemblyLinker.Proofs.Loading.Isolation
import AssemblyLinker.Proofs.Document.RoundTrip
import AssemblyLinker.Proofs.Command.Output
import AssemblyLinker.Proofs.Loading.SearchPath
import AssemblyLinker.Proofs.Modules.Failing
import AssemblyLinker.Proofs.Loading.Reordering
import AssemblyLinker.Proofs.Modules.NormalForm
import AssemblyLinker.Proofs.Loading.Materializing
import AssemblyLinker.Proofs.Executable.Idempotence
import AssemblyLinker.Proofs.Executable.Termination
import AssemblyLinker.Proofs.Document.Schema
import AssemblyLinker.Proofs.Locating.Preorder
import AssemblyLinker.Proofs.Registry
import AssemblyLinker.Proofs.Modules.Naming
import AssemblyLinker.Proofs.Uid
