import Lineage.Bundle
import Lineage.Chain
import Lineage.Code.Expression
import Lineage.Code.Imports
import Lineage.Code.Module
import Lineage.Command
import Lineage.Command.Arguments
import Lineage.Container
import Lineage.Conversion.Fault
import Lineage.Conversion.Functions
import Lineage.Conversion.Library
import Lineage.Conversion.Run
import Lineage.Conversion.Runtime
import Lineage.Conversion.Tracker
import Lineage.CustomResource.Definition
import Lineage.CustomResource.Review
import Lineage.Definition
import Lineage.Definition.Schema
import Lineage.Description.Field
import Lineage.Description.Issue
import Lineage.Description.Reader
import Lineage.Description.Source
import Lineage.Description.Writer
import Lineage.Document
import Lineage.Document.Json
import Lineage.Edge
import Lineage.Edge.Generate
import Lineage.Entries
import Lineage.Failure
import Lineage.Fault
import Lineage.FilePath
import Lineage.FileTree
import Lineage.Generation
import Lineage.Item
import Lineage.Json.Reader
import Lineage.Json.Writer
import Lineage.Kind
import Lineage.Lifecycle
import Lineage.Main
import Lineage.Number.Binary
import Lineage.Number.Decimal
import Lineage.Number.FloatText
import Lineage.Number.Integer
import Lineage.Number.Radix
import Lineage.Number.Real
import Lineage.Problem
import Lineage.Proofs.Bundle
import Lineage.Proofs.Chain
import Lineage.Proofs.Chain.Undone
import Lineage.Proofs.Code.Aliases
import Lineage.Proofs.Code.Notes
import Lineage.Proofs.Conversion.Addition
import Lineage.Proofs.Conversion.Alike
import Lineage.Proofs.Conversion.Along
import Lineage.Proofs.Conversion.Composition
import Lineage.Proofs.Conversion.Direct
import Lineage.Proofs.Conversion.Ending
import Lineage.Proofs.Conversion.Escape
import Lineage.Proofs.Conversion.Failing
import Lineage.Proofs.Conversion.Fields
import Lineage.Proofs.Conversion.Frame
import Lineage.Proofs.Conversion.Handling
import Lineage.Proofs.Conversion.Hop
import Lineage.Proofs.Conversion.Insertion
import Lineage.Proofs.Conversion.Instances
import Lineage.Proofs.Conversion.Inverse
import Lineage.Proofs.Conversion.Kept
import Lineage.Proofs.Conversion.Layers
import Lineage.Proofs.Conversion.Lowering
import Lineage.Proofs.Conversion.Nested
import Lineage.Proofs.Conversion.NestedHop
import Lineage.Proofs.Conversion.NestedRestoring
import Lineage.Proofs.Conversion.Nesting
import Lineage.Proofs.Conversion.Payload
import Lineage.Proofs.Conversion.Places
import Lineage.Proofs.Conversion.Resolving
import Lineage.Proofs.Conversion.Restoring
import Lineage.Proofs.Conversion.Retyping
import Lineage.Proofs.Conversion.Run
import Lineage.Proofs.Conversion.Shape
import Lineage.Proofs.Conversion.Steps
import Lineage.Proofs.Conversion.Tracked
import Lineage.Proofs.Conversion.Tracker
import Lineage.Proofs.Conversion.Untouched
import Lineage.Proofs.Conversion.Variants
import Lineage.Proofs.Conversion.Walk
import Lineage.Proofs.CustomResource.Object
import Lineage.Proofs.CustomResource.Response
import Lineage.Proofs.CustomResource.Restoring
import Lineage.Proofs.CustomResource.Review
import Lineage.Proofs.Definition.Marks
import Lineage.Proofs.Definition.Schema
import Lineage.Proofs.Description
import Lineage.Proofs.Edge
import Lineage.Proofs.Entries
import Lineage.Proofs.Generation
import Lineage.Proofs.Generation.Edges
import Lineage.Proofs.Generation.Insertion
import Lineage.Proofs.Generation.Names
import Lineage.Proofs.Generation.Notes
import Lineage.Proofs.Generation.Reordering
import Lineage.Proofs.Generation.Verdict
import Lineage.Proofs.History
import Lineage.Proofs.History.Adjacency
import Lineage.Proofs.History.Insertion
import Lineage.Proofs.History.Propagation
import Lineage.Proofs.History.Reordering
import Lineage.Proofs.Lifecycle
import Lineage.Proofs.Ranked
import Lineage.Proofs.Number.Digits
import Lineage.Proofs.Rendering
import Lineage.Proofs.Rendering.Schemas
import Lineage.Proofs.Schema
import Lineage.Proofs.Service.Nesting
import Lineage.Proofs.Text
import Lineage.Proofs.Timeline
import Lineage.Proofs.Timeline.Declarations
import Lineage.Proofs.Timeline.Path
import Lineage.Proofs.Timeline.Paths
import Lineage.Proofs.Timeline.Sublist
import Lineage.Proofs.Traversal
import Lineage.Proofs.TypeName.Arguments
import Lineage.Proofs.TypeName.Base
import Lineage.Proofs.TypeName.Default
import Lineage.Proofs.TypeName.Expression
import Lineage.Proofs.TypeName.Innermost
import Lineage.Proofs.TypeName.Reading
import Lineage.Proofs.Value.Order
import Lineage.Proofs.Value.OrderedMap
import Lineage.Proofs.Version.Level
import Lineage.Proofs.Version.Order
import Lineage.Proofs.Version.Reader
import Lineage.Proofs.WellFormed
import Lineage.Proofs.Yaml
import Lineage.Ranked
import Lineage.Rendering
import Lineage.Schema
import Lineage.Service
import Lineage.Service.Handlers
import Lineage.Service.Message
import Lineage.Service.Metrics
import Lineage.Service.Payload
import Lineage.Service.Reply
import Lineage.Service.Target
import Lineage.Settings
import Lineage.Status
import Lineage.Text.Base64
import Lineage.Text.Blank
import Lineage.Text.Cut
import Lineage.Text.Decoding
import Lineage.Text.Digit
import Lineage.Text.Encoding
import Lineage.Text.Half
import Lineage.Text.Hex
import Lineage.Text.Lines
import Lineage.Text.LowerCase
import Lineage.Text.Percent
import Lineage.Text.Printable
import Lineage.Text.Quoted
import Lineage.Text.Ranges
import Lineage.Text.Snake
import Lineage.Text.UpperCase
import Lineage.Text.Utf8
import Lineage.Text.Word
import Lineage.Timeline
import Lineage.Timeline.Path
import Lineage.TypeName
import Lineage.TypeName.Default
import Lineage.TypeName.Schema
import Lineage.Value
import Lineage.Value.Calendar
import Lineage.Value.Coerce
import Lineage.Value.Depth
import Lineage.Value.Key
import Lineage.Value.Literal
import Lineage.Value.Mapping
import Lineage.Value.Order
import Lineage.Value.OrderedMap
import Lineage.Version
import Lineage.Version.Reader
import Lineage.Yaml.Cursor
import Lineage.Yaml.Node
import Lineage.Yaml.Node.Composition
import Lineage.Yaml.Node.Value
import Lineage.Yaml.Plain
import Lineage.Yaml.Reader
import Lineage.Yaml.Scalar
import Lineage.Yaml.Token
import Lineage.Yaml.Token.Block
import Lineage.Yaml.Token.Name
import Lineage.Yaml.Token.Plain
import Lineage.Yaml.Token.Quoted
import Lineage.Yaml.Token.Stream
import Lineage.Yaml.Writer
