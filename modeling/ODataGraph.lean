import ODataGraph.Engine.Build
import ODataGraph.Engine.Query
import ODataGraph.Engine.Sdl
import ODataGraph.Registry.Sdl
import ODataGraph.Trace.Context
import ODataGraph.Trace.Span
import ODataGraph.Proofs.Sequence
import ODataGraph.Proofs.Operation.Approximation
import ODataGraph.Proofs.Operation.Spread
import ODataGraph.Proofs.Operation.Expansion
import ODataGraph.Proofs.Operation.Termination
import ODataGraph.Proofs.Operation.Validity
import ODataGraph.Proofs.Registry.Hierarchy
import ODataGraph.Proofs.Registry.UnionMembers
import ODataGraph.Proofs.Registry.Declaration
import ODataGraph.Proofs.Registry.Placement
import ODataGraph.Proofs.Registry.FieldInheritance
import ODataGraph.Proofs.Registry.Contribution
import ODataGraph.Proofs.Registry.Settlement
import ODataGraph.Proofs.Registry.UnionShape
import ODataGraph.Proofs.Registry.Shape
import ODataGraph.Proofs.Registry.Subsumption
import ODataGraph.Proofs.Registry.NearestField
import ODataGraph.Proofs.Registry.Reference
import ODataGraph.Proofs.Registry.Closure
import ODataGraph.Proofs.Registry.FieldType
import ODataGraph.Proofs.Csdl.Schema
import ODataGraph.Proofs.Registry.BaseOrder
import ODataGraph.Proofs.Registry.Cycle
import ODataGraph.Proofs.Execution.Outcome
import ODataGraph.Proofs.Execution.Handing
import ODataGraph.Proofs.Execution.ResponseKeys
import ODataGraph.Proofs.Execution.Standing
import ODataGraph.Proofs.Execution.Miss
import ODataGraph.Proofs.Execution.Coverage
import ODataGraph.Proofs.Decimal.Numeral
import ODataGraph.Proofs.Text.Percent
import ODataGraph.Proofs.Url.Parts
import ODataGraph.Proofs.Url.Translation
import ODataGraph.Proofs.Url.Query
import ODataGraph.Proofs.Execution.Run
import ODataGraph.Proofs.Execution.Outline
import ODataGraph.Proofs.Execution.FieldRun
import ODataGraph.Proofs.Execution.Requests
import ODataGraph.Proofs.Execution.RelativeRequest
import ODataGraph.Proofs.Execution.CanonicalUrl
import ODataGraph.Proofs.Execution.Home
import ODataGraph.Proofs.Execution.Position
import ODataGraph.Proofs.Execution.ErrorPath
import ODataGraph.Proofs.Execution.Refusal
import ODataGraph.Proofs.Execution.ResponseShape
import ODataGraph.Cache.Interleaving
import ODataGraph.Proofs.Cache.Cell
import ODataGraph.Proofs.Cache.History
import ODataGraph.Proofs.Cache.Invalidation
import ODataGraph.Proofs.Cache.SingleFlight
import ODataGraph.Proofs.Operation.Argument
import ODataGraph.Proofs.Operation.Condition
import ODataGraph.Proofs.Operation.Acceptance
import ODataGraph.Proofs.Registry.Variant
import ODataGraph.Proofs.Execution.ConcreteType
import ODataGraph.Proofs.Execution.Projection
import ODataGraph.Proofs.Execution.Inlining
import ODataGraph.Proofs.Execution.ResolutionOrder
import ODataGraph.Proofs.Registry.Likeness
import ODataGraph.Proofs.Registry.DeclarationOrder
import ODataGraph.Proofs.Registry.TypeName
import ODataGraph.Proofs.Operation.Intersection
import ODataGraph.Proofs.Operation.WrittenOut
import ODataGraph.Proofs.Operation.Abbreviation
import ODataGraph.Proofs.Registry.TypeAnnotation
import ODataGraph.Proofs.Registry.InheritedOption
import ODataGraph.Proofs.Execution.Visit
import ODataGraph.Proofs.Execution.ParseHook
import ODataGraph.Proofs.Engine.Services
import ODataGraph.Proofs.Engine.Construction
import ODataGraph.Proofs.Engine.QueryRoot
import ODataGraph.Proofs.Sdl.DefinedName
import ODataGraph.Proofs.Sdl.DefinedScalar
import ODataGraph.Proofs.Sdl.EmptyObject
import ODataGraph.Proofs.Json.Content
import ODataGraph.Proofs.Operation.Constant
import ODataGraph.Proofs.Operation.Instantiation
import ODataGraph.Proofs.Registry.OfferedOption
import ODataGraph.Proofs.Registry.PlaceholderField
import ODataGraph.Proofs.Graphql.Token
import ODataGraph.Proofs.Graphql.Numeral
import ODataGraph.Proofs.Decimal.Shortest
import ODataGraph.Proofs.Decimal.Notation
import ODataGraph.Proofs.Decimal.Rounding
import ODataGraph.Proofs.Decimal.Arithmetic
import ODataGraph.Proofs.Decimal.Rereading
import ODataGraph.Proofs.Decimal.Range
import ODataGraph.Proofs.Json.Validity
import ODataGraph.Proofs.Sdl.Literal
import ODataGraph.Proofs.Sdl.Description
import ODataGraph.Proofs.Json.Grammar
import ODataGraph.Proofs.Json.Record
import ODataGraph.Proofs.Execution.Collection
