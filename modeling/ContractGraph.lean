import ContractGraph.Bundle.Validation
import ContractGraph.CommandLine.Run
import ContractGraph.Drift.ProjectIndex
import ContractGraph.Main
import ContractGraph.Manifest.File
import ContractGraph.Manifest.Similar
import ContractGraph.Manifest.Stats
import ContractGraph.Settings
import ContractGraph.Proofs.Resolver.Scan
import ContractGraph.SourceFile
import ContractGraph.Proofs.Graph.Distance
import ContractGraph.Proofs.Graph.Spread
import ContractGraph.Proofs.EntryId.NormalForm
import ContractGraph.Proofs.Resolver.Keys
import ContractGraph.Proofs.Manifest.Edges
import ContractGraph.Proofs.Manifest.Built
import ContractGraph.Proofs.Manifest.Mirror
import ContractGraph.Proofs.Collection.Walk
import ContractGraph.Proofs.Collection.Order
import ContractGraph.Proofs.Collection.Levels
import ContractGraph.Proofs.Collection.Neighbours
import ContractGraph.Proofs.Collection.Bounds
import ContractGraph.Proofs.Occurrences
import ContractGraph.Proofs.Collection.Kept
import ContractGraph.Proofs.Collection.Account
import ContractGraph.Proofs.Collection.Missing
import ContractGraph.Proofs.Collection.Completes
import ContractGraph.Proofs.Collection.OwnVersions
import ContractGraph.Proofs.Bundle.Packed
import ContractGraph.Proofs.Bundle.Checked
import ContractGraph.Proofs.Bundle.Closed
import ContractGraph.Proofs.Bundle.Modes
import ContractGraph.Proofs.Manifest.Warnings
import ContractGraph.Proofs.Resolver.Reordered
import ContractGraph.Proofs.Manifest.Reordered
import ContractGraph.Proofs.Collection.Agree
import ContractGraph.Proofs.Bundle.Reordered
import ContractGraph.Proofs.Json.Equivalent
import ContractGraph.Proofs.Json.Ascii
import ContractGraph.Proofs.Json.Members
import ContractGraph.Proofs.Manifest.Document
import ContractGraph.Proofs.Manifest.Resaved
import ContractGraph.Proofs.Files.Written
import ContractGraph.Proofs.Files.Reported
import ContractGraph.Proofs.Manifest.Saved
import ContractGraph.Proofs.Number.Digits
import ContractGraph.Proofs.Contract.Document
import ContractGraph.Proofs.Drift.Signature
import ContractGraph.Proofs.Json.Same
import ContractGraph.Proofs.Drift.Contexts
import ContractGraph.Proofs.Drift.Validated
import ContractGraph.Proofs.Digest.Form
import ContractGraph.Proofs.Digest.Checks
import ContractGraph.Proofs.Bundle.Grammar
import ContractGraph.Proofs.Bundle.Joined
import ContractGraph.Proofs.CommandLine.DriftGate
import ContractGraph.Proofs.Manifest.Superseded
import ContractGraph.Proofs.Package.FirstLookup
import ContractGraph.Proofs.Collection.Interleaved
import ContractGraph.Proofs.Contract.Fingerprint
import ContractGraph.Proofs.Bundle.CacheKey
import ContractGraph.Proofs.SourceFile.LineEnds
import ContractGraph.Proofs.SourceFile.LeftOut
import ContractGraph.Proofs.Drift.LastNodes
import ContractGraph.Proofs.Manifest.Ranked
import ContractGraph.Proofs.Manifest.Similar
import ContractGraph.Proofs.Resolver.Siblings
import ContractGraph.Proofs.Package.Specifiers
import ContractGraph.Proofs.EntryId.Canonical
import ContractGraph.Proofs.Files.Sidecars
