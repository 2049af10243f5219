import SymbolAtlas.Atlas
import SymbolAtlas.Atlas.Snapshot
import SymbolAtlas.Atlas.Load
import SymbolAtlas.Atlas.Query
import SymbolAtlas.Atlas.Scan
import SymbolAtlas.Digest.Sha256
import SymbolAtlas.Discovery
import SymbolAtlas.Disk
import SymbolAtlas.Encoding
import SymbolAtlas.Encoding.Utf8
import SymbolAtlas.Failure
import SymbolAtlas.Feed
import SymbolAtlas.Glob
import SymbolAtlas.Journal
import SymbolAtlas.Journal.Context
import SymbolAtlas.Ledger
import SymbolAtlas.Logging
import SymbolAtlas.Node
import SymbolAtlas.Node.Classify
import SymbolAtlas.Number.Double
import SymbolAtlas.Number.Reading
import SymbolAtlas.Number.Shortest
import SymbolAtlas.Numbered
import SymbolAtlas.Outline
import SymbolAtlas.Outline.Population
import SymbolAtlas.Outline.Query
import SymbolAtlas.ParseTree
import SymbolAtlas.ParseTree.Convert
import SymbolAtlas.Registry
import SymbolAtlas.Report.Atlas
import SymbolAtlas.Report.Outline
import SymbolAtlas.Schema.Check
import SymbolAtlas.Schema.Issue
import SymbolAtlas.Schema.Shape
import SymbolAtlas.Settings
import SymbolAtlas.Settings.Common
import SymbolAtlas.Settings.Sources
import SymbolAtlas.Snapshot
import SymbolAtlas.SourceFile
import SymbolAtlas.SourceFile.Export
import SymbolAtlas.SourceFile.Restore
import SymbolAtlas.Symbol.Entity
import SymbolAtlas.Symbol.Kind
import SymbolAtlas.Symbol.Qualified
import SymbolAtlas.Symbol.Span
import SymbolAtlas.Text.Blank
import SymbolAtlas.Text.Path
import SymbolAtlas.Text.Printable
import SymbolAtlas.Text.Quoted
import SymbolAtlas.Value
import SymbolAtlas.Value.Display
import SymbolAtlas.Value.Equality
import SymbolAtlas.Value.Json
import SymbolAtlas.Value.Overlay
import SymbolAtlas.Yaml.Reader
import SymbolAtlas.Yaml.Scalar
import SymbolAtlas.Proofs.Outline.Entering
import SymbolAtlas.Proofs.Outline.Walk
import SymbolAtlas.Proofs.Node.Contribution
import SymbolAtlas.Proofs.SourceFile.OfTree
import SymbolAtlas.Proofs.SourceFile.Views
import SymbolAtlas.Proofs.Outline.Nesting
import SymbolAtlas.Proofs.Outline.Sites
import SymbolAtlas.Proofs.Outline.Views
import SymbolAtlas.Proofs.Outline.Members
import SymbolAtlas.Proofs.SourceFile.Restore
import SymbolAtlas.Proofs.SourceFile.Ownership
import SymbolAtlas.Proofs.Ledger
import SymbolAtlas.Proofs.Registry.Coherence
import SymbolAtlas.Proofs.Registry.Operations
import SymbolAtlas.Proofs.Snapshot.Check
import SymbolAtlas.Proofs.Atlas.Session
import SymbolAtlas.Proofs.Text.Path
import SymbolAtlas.Proofs.SourceFile.Sound
import SymbolAtlas.Proofs.Outline.Alike
import SymbolAtlas.Proofs.SourceFile.RoundTrip
import SymbolAtlas.Proofs.Atlas.Mirror
import SymbolAtlas.Proofs.Atlas.Relinking
import SymbolAtlas.Proofs.Atlas.Lineage
import SymbolAtlas.Proofs.Atlas.RoundTrip
import SymbolAtlas.Proofs.Atlas.Adoption
import SymbolAtlas.Proofs.Registry.Steadiness
import SymbolAtlas.Proofs.Registry.Lasting
import SymbolAtlas.Proofs.Atlas.Traffic
import SymbolAtlas.Proofs.Node.Fitting
import SymbolAtlas.Proofs.ParseTree.Placement
import SymbolAtlas.Proofs.SourceFile.Spans
import SymbolAtlas.Proofs.SourceFile.Numbering
import SymbolAtlas.Proofs.Registry.Renumbering
import SymbolAtlas.Proofs.Registry.Tidiness
import SymbolAtlas.Proofs.Atlas.Course
import SymbolAtlas.Proofs.Atlas.Superseded
import SymbolAtlas.Proofs.Atlas.Provenance
import SymbolAtlas.Proofs.SourceFile.Relinked
import SymbolAtlas.Proofs.Atlas.Agreement
import SymbolAtlas.Proofs.Registry.Sparing
import SymbolAtlas.Proofs.Atlas.Scanning
import SymbolAtlas.Proofs.Atlas.Errands
import SymbolAtlas.Proofs.Atlas.ScanProgress
import SymbolAtlas.Proofs.Atlas.ScanOrder
import SymbolAtlas.Proofs.Discovery.Growth
import SymbolAtlas.Proofs.Atlas.Freshness
import SymbolAtlas.Proofs.Atlas.Incremental
import SymbolAtlas.Proofs.Atlas.Inclusions
import SymbolAtlas.Proofs.Outline.Search
import SymbolAtlas.Proofs.Atlas.Answers
import SymbolAtlas.Proofs.SourceFile.Offsets
import SymbolAtlas.Proofs.SourceFile.Acceptance
import SymbolAtlas.Proofs.Node.Stream
import SymbolAtlas.Proofs.SourceFile.Documentation
import SymbolAtlas.Proofs.Symbol.Qualified
import SymbolAtlas.Proofs.SourceFile.Namespaces
import SymbolAtlas.Proofs.SourceFile.Declared
import SymbolAtlas.Proofs.Atlas.Namespaces
import SymbolAtlas.Proofs.Atlas.Histories
import SymbolAtlas.Proofs.SourceFile.Unresolved
import SymbolAtlas.Proofs.Atlas.Linked
import SymbolAtlas.Proofs.Atlas.Failures
import SymbolAtlas.Proofs.ParseTree.Grouping
import SymbolAtlas.Proofs.Feed.Delivery
import SymbolAtlas.Proofs.Outline.Moving
import SymbolAtlas.Proofs.ParseTree.Chain
import SymbolAtlas.Proofs.Node.Gist
import SymbolAtlas.Proofs.ParseTree.Akin
import SymbolAtlas.Proofs.ParseTree.Comments
import SymbolAtlas.Proofs.SourceFile.Comments
import SymbolAtlas.Proofs.Discovery.Selection
import SymbolAtlas.Proofs.Settings.Canonical
import SymbolAtlas.Proofs.Settings.Faults
import SymbolAtlas.Proofs.Value.Overlay
import SymbolAtlas.Proofs.Settings.Keys
import SymbolAtlas.Proofs.Settings.Environment
import SymbolAtlas.Proofs.Settings.Precedence
import SymbolAtlas.Proofs.Atlas.Blocked
import SymbolAtlas.Proofs.Atlas.Tended
import SymbolAtlas.Proofs.Outline.Ownership
import SymbolAtlas.Proofs.ParseTree.Statements
import SymbolAtlas.Proofs.Registry.Targets
import SymbolAtlas.Proofs.Schema.Shape
import SymbolAtlas.Proofs.SourceFile.Linking
import SymbolAtlas.Proofs.SourceFile.Stems
