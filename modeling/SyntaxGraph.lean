import SyntaxGraph.CommandLine.Run
import SyntaxGraph.Config.Basic
import SyntaxGraph.Conversion.Basic
import SyntaxGraph.Emission
import SyntaxGraph.Formatter
import SyntaxGraph.Graph.Json
import SyntaxGraph.Main
import SyntaxGraph.Outline
import SyntaxGraph.Schema.Json
import SyntaxGraph.Schema.SharedCatalog
import SyntaxGraph.Synchronizer
import SyntaxGraph.Tree.Json
import SyntaxGraph.Proofs.Conversion.Meaning
import SyntaxGraph.Proofs.Emission.Meaning
import SyntaxGraph.Proofs.Conversion.Numbering
import SyntaxGraph.Proofs.Conversion.Resolution
import SyntaxGraph.Proofs.Graph.OfConverted
import SyntaxGraph.Proofs.Emission.OfConverted
import SyntaxGraph.Proofs.Conversion.Shape
import SyntaxGraph.Proofs.Conversion.Declared
import SyntaxGraph.Proofs.TreeText
import SyntaxGraph.Proofs.Conformity
import SyntaxGraph.Proofs.RoundTrip
import SyntaxGraph.Proofs.Emission.Ending
import SyntaxGraph.Proofs.Graph.Edits
import SyntaxGraph.Proofs.Graph.Invariants
import SyntaxGraph.Proofs.Graph.Loading
import SyntaxGraph.Proofs.Process.Basic
import SyntaxGraph.Proofs.Process.Ledger
import SyntaxGraph.Proofs.Process.Graphs
import SyntaxGraph.Proofs.Process.Identities
import SyntaxGraph.Proofs.Json.Plain
import SyntaxGraph.Proofs.Json.Reading
import SyntaxGraph.Proofs.Tree.Json
import SyntaxGraph.Proofs.Schema.Json
import SyntaxGraph.Proofs.Graph.Json
import SyntaxGraph.Proofs.Process.Reloading
import SyntaxGraph.Proofs.Formatting
import SyntaxGraph.Proofs.Conversion.Choices
import SyntaxGraph.Proofs.Instance
import SyntaxGraph.Proofs.Graph.Instances
import SyntaxGraph.Proofs.Renaming.Basic
import SyntaxGraph.Proofs.Renaming.Conversion
import SyntaxGraph.Proofs.Schema.SharedCatalog
import SyntaxGraph.Proofs.Conversion.Evidence
import SyntaxGraph.Proofs.Conversion.Filling
import SyntaxGraph.Proofs.Conversion.FieldOrder
import SyntaxGraph.Proofs.Graph.Unfolding
import SyntaxGraph.Proofs.Graph.Connecting
import SyntaxGraph.Proofs.Graph.Lineage
import SyntaxGraph.Proofs.Emission.Lineage
import SyntaxGraph.Proofs.Outline.Drawing
import SyntaxGraph.Proofs.Outline.Graph
import SyntaxGraph.Proofs.Outline.OfConverted
import SyntaxGraph.Proofs.Text.Bytes
import SyntaxGraph.Proofs.Schema.Catalog
import SyntaxGraph.Proofs.Programs
import SyntaxGraph.Proofs.Schema.UnitData
import SyntaxGraph.Proofs.Graph.InPlace
import SyntaxGraph.Proofs.Graph.Refusals
import SyntaxGraph.Proofs.Graph.Documents
import SyntaxGraph.Proofs.Schema.Attributes
import SyntaxGraph.Proofs.Schema.Declarations
import SyntaxGraph.Proofs.Schema.Requirements
import SyntaxGraph.Proofs.Schema.TokenFields
import SyntaxGraph.Proofs.Schema.Updates
import SyntaxGraph.Proofs.Schema.NamedChoices
import SyntaxGraph.Proofs.Schema.FirstField
import SyntaxGraph.Proofs.Tidying
import SyntaxGraph.Proofs.Schema.Ancestors
import SyntaxGraph.Proofs.CommandLine.Extras
