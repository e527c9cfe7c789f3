import Flowchart.Text.Alphanumeric
import Flowchart.Text.Basic
import Flowchart.Vocabulary.Basic
import Flowchart.Vocabulary.Kinds
import Flowchart.Vocabulary.Format
import Flowchart.Keyed
import Flowchart.Dictionary
import Flowchart.Diagram.Basic
import Flowchart.Graph.Search
import Flowchart.Graph.Arcs
import Flowchart.Graph.Reachability
import Flowchart.Graph.Paths
import Flowchart.Graph.Order
import Flowchart.Graph.Reduction
import Flowchart.Graph.Statistics
import Flowchart.Validation.Finding
import Flowchart.Validation.Rule
import Flowchart.Validation.Style
import Flowchart.Change.Compare
import Flowchart.Change.Merge
import Flowchart.Change.History
import Flowchart.Source.Span
import Flowchart.Source.Diagnostic
import Flowchart.Source.Statement
import Flowchart.Text.Quoted
import Flowchart.Source.Reader
import Flowchart.Source.Draft
import Flowchart.Text.Numeral
import Flowchart.Renaming
import Flowchart.Mermaid.Label
import Flowchart.Mermaid.Notation
import Flowchart.Mermaid.Writing
import Flowchart.Mermaid.Reading
import Flowchart.PlantUml.Label
import Flowchart.PlantUml.Notation
import Flowchart.PlantUml.Writing
import Flowchart.PlantUml.Reading
import Flowchart.D2.Notation
import Flowchart.D2.Writing
import Flowchart.D2.Reading
import Flowchart.Dot.Notation
import Flowchart.Dot.Writing
import Flowchart.Dot.Reading
import Flowchart.Flow.Token
import Flowchart.Flow.Keyword
import Flowchart.Flow.Chain
import Flowchart.Flow.Fault
import Flowchart.Flow.Parsing
import Flowchart.Flow.Assembly
import Flowchart.Flow.Reading
import Flowchart.Conversion.Formats
import Flowchart.Conversion.Settings
import Flowchart.Stored.Value
import Flowchart.Stored.Settings
import Flowchart.Stored.Toml
import Flowchart.Command.Files
import Flowchart.Command.Host
import Flowchart.Command.Arguments
import Flowchart.Command.Basic
import Flowchart.Command.Failure
import Flowchart.Command.Action
import Flowchart.Command.Run
import Flowchart.Main
import Flowchart.Proofs.Text.Runs
import Flowchart.Proofs.Text.Numeral
import Flowchart.Proofs.Diagram
import Flowchart.Proofs.Keyed
import Flowchart.Proofs.Renaming
import Flowchart.Proofs.Collisions
import Flowchart.Proofs.Source.Cutting
import Flowchart.Proofs.Source.Reads
import Flowchart.Proofs.Source.Facts
import Flowchart.Proofs.Mermaid.Reading
import Flowchart.Proofs.Mermaid.RoundTrip
import Flowchart.Proofs.PlantUml.Label
import Flowchart.Proofs.PlantUml.Reading
import Flowchart.Proofs.PlantUml.RoundTrip
import Flowchart.Proofs.D2.Reading
import Flowchart.Proofs.D2.RoundTrip
import Flowchart.Proofs.Dot.Reading
import Flowchart.Proofs.Dot.RoundTrip
import Flowchart.Proofs.Graph.Search
import Flowchart.Proofs.Graph.Leads
import Flowchart.Proofs.Graph.Reduction
import Flowchart.Proofs.Graph.UniqueReduction
import Flowchart.Proofs.Graph.SimplePaths
import Flowchart.Proofs.Graph.Cycles
import Flowchart.Proofs.Graph.Paths
import Flowchart.Proofs.Graph.Placement
import Flowchart.Proofs.Graph.Order
import Flowchart.Proofs.Graph.Cyclicity
import Flowchart.Proofs.Source.Steps
import Flowchart.Proofs.Source.Calls
import Flowchart.Proofs.D2.Accepted
import Flowchart.Proofs.Dot.Accepted
import Flowchart.Proofs.PlantUml.Accepted
import Flowchart.Proofs.Flow.Pieces
import Flowchart.Proofs.Flow.Accepted
import Flowchart.Proofs.Mermaid.Accepted
import Flowchart.Proofs.Mermaid.Lines
import Flowchart.Proofs.Mermaid.Styles
import Flowchart.Proofs.Source.Places
import Flowchart.Proofs.Source.Visible
import Flowchart.Proofs.Source.Tracks
import Flowchart.Proofs.Mermaid.Places
import Flowchart.Proofs.PlantUml.Places
import Flowchart.Proofs.D2.Places
import Flowchart.Proofs.Dot.Places
import Flowchart.Proofs.Flow.Tokens
import Flowchart.Proofs.Flow.Places
import Flowchart.Proofs.Flow.Grammar
import Flowchart.Proofs.Flow.Parsing
import Flowchart.Proofs.Flow.Drawing
import Flowchart.Proofs.Flow.Connected
import Flowchart.Proofs.Flow.Loops
import Flowchart.Proofs.Conversion.Recovery
import Flowchart.Proofs.Conversion.Accepted
import Flowchart.Proofs.Conversion.Refused
import Flowchart.Proofs.Conversion.Output
import Flowchart.Proofs.Conversion.NormalForm
import Flowchart.Proofs.Graph.Extraction
import Flowchart.Proofs.Change.Compare
import Flowchart.Proofs.Validation.Standard
import Flowchart.Proofs.Change.Operations
import Flowchart.Proofs.Command.Action
import Flowchart.Proofs.Command.Run
import Flowchart.Proofs.Graph.Isolation
import Flowchart.Proofs.Graph.Distances
import Flowchart.Proofs.Change.Merge
import Flowchart.Proofs.Validation.Connected
import Flowchart.Proofs.Flow.Building
import Flowchart.Proofs.Flow.Quoted
import Flowchart.Proofs.Flow.Tiling
import Flowchart.Proofs.Source.Scanners
import Flowchart.Proofs.Source.Balance
import Flowchart.Proofs.Source.Comments
import Flowchart.Proofs.Mermaid.Spelling
import Flowchart.Proofs.Graph.Adjacency
import Flowchart.Proofs.Graph.PlacementLoop
