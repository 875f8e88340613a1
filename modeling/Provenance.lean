import Provenance.Config.Json
import Provenance.Document.Fingerprint
import Provenance.Main
import Provenance.Proofs.Expansion.Placeholders
import Provenance.Proofs.Expansion.Refinement
import Provenance.Proofs.Splice.Dangling
import Provenance.Proofs.Expansion.Once
import Provenance.Proofs.Expansion.Frames
import Provenance.Proofs.Splice.Valid
import Provenance.Proofs.Splice.Nodes
import Provenance.Proofs.Splice.Incoming
import Provenance.Proofs.Splice.Ends
import Provenance.Proofs.Graph.Index
import Provenance.Proofs.Graph.Order
import Provenance.Proofs.Graph.Placement
import Provenance.Proofs.Graph.Turns
import Provenance.Proofs.Graph.ShortestCycle
import Provenance.Proofs.Graph.CycleReport
import Provenance.Proofs.Expansion.WellFormed
import Provenance.Proofs.Graph.OfDocument
import Provenance.Proofs.Graph.Translation
import Provenance.Proofs.Batch.Verdict
import Provenance.Proofs.Batch.WellFormed
import Provenance.Proofs.Expansion.Cycles
import Provenance.Proofs.Batch.Cycles
import Provenance.Proofs.Batch.Independence
import Provenance.Proofs.Expansion.Memory
import Provenance.Proofs.Expansion.SharedIds
import Provenance.Proofs.Batch.SharedIds
import Provenance.Proofs.Expansion.Transcript
import Provenance.Proofs.Expansion.Interviews
import Provenance.Proofs.Splice.Nested
import Provenance.Proofs.Expansion.Misses
import Provenance.Proofs.Splice.Independent
import Provenance.Proofs.Expansion.Circles
import Provenance.Proofs.Expansion.Genuine
import Provenance.Proofs.Report.Counters
import Provenance.Proofs.Batch.Accounting
import Provenance.Proofs.CommandLine.ExitCode
import Provenance.Proofs.Batch.Inventory
import Provenance.Proofs.Inventory.History
import Provenance.Proofs.Batch.Shared
import Provenance.Proofs.Graph.Closure
import Provenance.Proofs.Graph.Mirror
import Provenance.Proofs.Search.Order
import Provenance.Proofs.Search.Spelling
import Provenance.Proofs.Search.Probes
import Provenance.Proofs.Pattern.Filling
import Provenance.Proofs.Fingerprint.Order
import Provenance.Proofs.Fingerprint.Layout
import Provenance.Proofs.Fingerprint.Legible
import Provenance.Proofs.Anchors.Order
import Provenance.Proofs.Anchors.Rearranged
import Provenance.Proofs.Document.Flattening
import Provenance.Proofs.Document.Settings
import Provenance.Proofs.FileSystem.Below
import Provenance.Proofs.Markup.Nesting
import Provenance.Proofs.Path.Order
import Provenance.Proofs.Discovery.Spellings
import Provenance.Proofs.Graph.Layers
import Provenance.Proofs.Expansion.Answers
import Provenance.Proofs.Expansion.Dialogue
import Provenance.Proofs.Report.Reading
