import WireSchema.Command.Arguments
import WireSchema.Command.Help
import WireSchema.Command.Invocation
import WireSchema.Command.Run
import WireSchema.Compile
import WireSchema.Files.Path
import WireSchema.Files.Tree
import WireSchema.Generate
import WireSchema.Json.Lexer
import WireSchema.Json.Token
import WireSchema.Json.Tree
import WireSchema.Json.Value
import WireSchema.Main
import WireSchema.Number.Binary64
import WireSchema.Number.Shortest
import WireSchema.Plan.Basic
import WireSchema.Plan.Build
import WireSchema.Plan.Catalogue
import WireSchema.Plan.Cycle
import WireSchema.Plan.Error
import WireSchema.Plan.Facility
import WireSchema.Plan.Listing
import WireSchema.Proofs.Acceptance
import WireSchema.Proofs.ArrayCost
import WireSchema.Proofs.Balance
import WireSchema.Proofs.Blocks
import WireSchema.Proofs.CodeLines
import WireSchema.Proofs.Comments
import WireSchema.Proofs.Confinement
import WireSchema.Proofs.Culprits
import WireSchema.Proofs.Declared
import WireSchema.Proofs.Discovery
import WireSchema.Proofs.Emission
import WireSchema.Proofs.Encoding
import WireSchema.Proofs.Enumeration
import WireSchema.Proofs.ErrorPath
import WireSchema.Proofs.Failure
import WireSchema.Proofs.FileTree
import WireSchema.Proofs.FreeText
import WireSchema.Proofs.Generation
import WireSchema.Proofs.Imports
import WireSchema.Proofs.ItemNames
import WireSchema.Proofs.Items
import WireSchema.Proofs.JsonGrammar
import WireSchema.Proofs.Levels
import WireSchema.Proofs.LineNumbers
import WireSchema.Proofs.Linked
import WireSchema.Proofs.Literals
import WireSchema.Proofs.Loading
import WireSchema.Proofs.Nesting
import WireSchema.Proofs.OutputName
import WireSchema.Proofs.Parsing
import WireSchema.Proofs.Pieces
import WireSchema.Proofs.Planned
import WireSchema.Proofs.Quoting
import WireSchema.Proofs.Reading
import WireSchema.Proofs.Recursion
import WireSchema.Proofs.References
import WireSchema.Proofs.Reordering
import WireSchema.Proofs.RoundTrip
import WireSchema.Proofs.Settlement
import WireSchema.Proofs.Simulation
import WireSchema.Proofs.SoundPlan
import WireSchema.Proofs.Sources
import WireSchema.Proofs.Streaming
import WireSchema.Proofs.Tokens
import WireSchema.Proofs.TreeOrder
import WireSchema.Proofs.TypeTexts
import WireSchema.Proofs.Typing
import WireSchema.Proofs.Uses
import WireSchema.Proofs.Varint
import WireSchema.Proofs.Versions
import WireSchema.Proofs.Writing
import WireSchema.Samples
import WireSchema.Schema.Comment
import WireSchema.Schema.Document
import WireSchema.Schema.Load
import WireSchema.Schema.Message
import WireSchema.Schema.Names
import WireSchema.Schema.TypeExpr
import WireSchema.Schema.Version
import WireSchema.Source.Emit
import WireSchema.Source.Execute
import WireSchema.Source.Layout
import WireSchema.Source.Lower
import WireSchema.Source.Print
import WireSchema.Source.Program
import WireSchema.Source.Read
import WireSchema.Text.Blank
import WireSchema.Text.Case
import WireSchema.Text.CaseTable
import WireSchema.Text.Cluster
import WireSchema.Text.ClusterTable
import WireSchema.Text.Literal
import WireSchema.Text.Parser
import WireSchema.Text.Quoted
import WireSchema.Text.Range
import WireSchema.Text.SnakeCase
import WireSchema.Text.UnprintableTable
import WireSchema.Text.Utf8
import WireSchema.Wire.Decode
import WireSchema.Wire.Error
import WireSchema.Wire.Read
import WireSchema.Wire.Value
