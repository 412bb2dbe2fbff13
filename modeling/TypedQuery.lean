import TypedQuery.CommandLine.Compilation
import TypedQuery.CommandLine.FunctionList
import TypedQuery.CommandLine.Options
import TypedQuery.Compile.Basic
import TypedQuery.Compile.Error
import TypedQuery.Compile.Literal
import TypedQuery.Compile.Operands
import TypedQuery.Compile.Setting
import TypedQuery.DateTime
import TypedQuery.Expr.Basic
import TypedQuery.Expr.Dump
import TypedQuery.Expr.Value
import TypedQuery.Guid
import TypedQuery.Json.Basic
import TypedQuery.Json.Reading
import TypedQuery.Json.Writing
import TypedQuery.Main
import TypedQuery.Member.Basic
import TypedQuery.Member.Catalogue
import TypedQuery.Member.Matching
import TypedQuery.Number.Binary
import TypedQuery.Number.Binary.Reading
import TypedQuery.Number.Binary.Shortest
import TypedQuery.Number.Decimal
import TypedQuery.Number.Decimal.Reading
import TypedQuery.Number.Numeral
import TypedQuery.Proofs.Acyclicity
import TypedQuery.Proofs.ArgumentOrder
import TypedQuery.Proofs.AssignmentOrder
import TypedQuery.Proofs.BareNames
import TypedQuery.Proofs.BreadthFirst
import TypedQuery.Proofs.CallFormats
import TypedQuery.Proofs.CallReading
import TypedQuery.Proofs.CallStyles
import TypedQuery.Proofs.Calls
import TypedQuery.Proofs.CaseNames
import TypedQuery.Proofs.ClosedSignatures
import TypedQuery.Proofs.Compiler
import TypedQuery.Proofs.ConcreteGraphs
import TypedQuery.Proofs.Congruence
import TypedQuery.Proofs.Constants
import TypedQuery.Proofs.ConstructReading
import TypedQuery.Proofs.DeclaredTypes
import TypedQuery.Proofs.Elaboration
import TypedQuery.Proofs.ElaborationSound
import TypedQuery.Proofs.Enumerations
import TypedQuery.Proofs.ExactConversion
import TypedQuery.Proofs.Expectations
import TypedQuery.Proofs.ExpressibleTypes
import TypedQuery.Proofs.FunctionChoice
import TypedQuery.Proofs.Graph
import TypedQuery.Proofs.GroundTypes
import TypedQuery.Proofs.GuidText
import TypedQuery.Proofs.Inheritance
import TypedQuery.Proofs.InstanceMatching
import TypedQuery.Proofs.JsonForm
import TypedQuery.Proofs.LiteralTexts
import TypedQuery.Proofs.Literals
import TypedQuery.Proofs.MatchRules
import TypedQuery.Proofs.Matching
import TypedQuery.Proofs.MemberPaths
import TypedQuery.Proofs.MirroredOperators
import TypedQuery.Proofs.NodeLaws
import TypedQuery.Proofs.Numerals
import TypedQuery.Proofs.Operands
import TypedQuery.Proofs.Operations
import TypedQuery.Proofs.OperatorReading
import TypedQuery.Proofs.Overloads
import TypedQuery.Proofs.QueryLexing
import TypedQuery.Proofs.QueryParsing
import TypedQuery.Proofs.QueryTokens
import TypedQuery.Proofs.Reachability
import TypedQuery.Proofs.Reassociation
import TypedQuery.Proofs.ReceiverBinding
import TypedQuery.Proofs.Registrations
import TypedQuery.Proofs.RegistryIndexes
import TypedQuery.Proofs.Relabelling
import TypedQuery.Proofs.Rematching
import TypedQuery.Proofs.Renderable
import TypedQuery.Proofs.RenderingStyles
import TypedQuery.Proofs.Renumbering
import TypedQuery.Proofs.Rereading
import TypedQuery.Proofs.RoundTrip
import TypedQuery.Proofs.SchemaGrowth
import TypedQuery.Proofs.Scoping
import TypedQuery.Proofs.ShownMoments
import TypedQuery.Proofs.Signatures
import TypedQuery.Proofs.StandardFunctions
import TypedQuery.Proofs.Supertypes
import TypedQuery.Proofs.TypeText
import TypedQuery.Proofs.TypeTokens
import TypedQuery.Proofs.Typing
import TypedQuery.Proofs.Validation
import TypedQuery.Proofs.WholeLiterals
import TypedQuery.Query.Basic
import TypedQuery.Query.Json
import TypedQuery.Query.Operator
import TypedQuery.Query.Text
import TypedQuery.Registry.Basic
import TypedQuery.Registry.Indexed
import TypedQuery.Registry.Mapping
import TypedQuery.Registry.Standard
import TypedQuery.Rendering
import TypedQuery.Schema.Basic
import TypedQuery.Schema.Json
import TypedQuery.Schema.Model
import TypedQuery.Text.Alphanumeric
import TypedQuery.Text.Blank
import TypedQuery.Text.Digits
import TypedQuery.Text.Invisible
import TypedQuery.Text.Quoted
import TypedQuery.Text.RangeTable
import TypedQuery.Ty.Assignability
import TypedQuery.Ty.Basic
import TypedQuery.Ty.Expression
import TypedQuery.Ty.Hierarchy
import TypedQuery.Ty.Placeholders
import TypedQuery.Ty.Text
