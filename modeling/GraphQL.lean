import GraphQL.Coercion
import GraphQL.Collection
import GraphQL.Configuration
import GraphQL.Decimal.Basic
import GraphQL.Decimal.Notation
import GraphQL.Decimal.Shortest
import GraphQL.Document
import GraphQL.Document.Reader
import GraphQL.Document.Token
import GraphQL.Entries
import GraphQL.Error
import GraphQL.Execution.Completion
import GraphQL.Execution.Leaf
import GraphQL.Execution.Record
import GraphQL.Execution.Timeline
import GraphQL.Execution.Window
import GraphQL.FieldError
import GraphQL.InputValue
import GraphQL.Json.Basic
import GraphQL.Json.Outline
import GraphQL.Json.Reader
import GraphQL.Operation
import GraphQL.OperationKind
import GraphQL.Path
import GraphQL.Proofs.Agreement
import GraphQL.Proofs.Aliases
import GraphQL.Proofs.ArgumentBinding
import GraphQL.Proofs.BareFields
import GraphQL.Proofs.BareOutcomes
import GraphQL.Proofs.Bounds
import GraphQL.Proofs.ClosedVariables
import GraphQL.Proofs.Coercion
import GraphQL.Proofs.CollectedFields
import GraphQL.Proofs.Collection
import GraphQL.Proofs.Completion
import GraphQL.Proofs.Concurrency
import GraphQL.Proofs.Conformance
import GraphQL.Proofs.Correspondence
import GraphQL.Proofs.Descent
import GraphQL.Proofs.Echoes
import GraphQL.Proofs.EliminatedVariables
import GraphQL.Proofs.Elimination
import GraphQL.Proofs.ErrorPaths
import GraphQL.Proofs.ErrorReports
import GraphQL.Proofs.Events
import GraphQL.Proofs.Finishing
import GraphQL.Proofs.FragmentTransparency
import GraphQL.Proofs.Grouping
import GraphQL.Proofs.InOrder
import GraphQL.Proofs.Inlining
import GraphQL.Proofs.Isolation
import GraphQL.Proofs.JsonValues
import GraphQL.Proofs.Labels
import GraphQL.Proofs.ListLevels
import GraphQL.Proofs.Listing
import GraphQL.Proofs.LookUps
import GraphQL.Proofs.Lowering
import GraphQL.Proofs.MergeLaws
import GraphQL.Proofs.Merging
import GraphQL.Proofs.Names
import GraphQL.Proofs.NestedReferences
import GraphQL.Proofs.Pace
import GraphQL.Proofs.PathTexts
import GraphQL.Proofs.Positions
import GraphQL.Proofs.Projection
import GraphQL.Proofs.Pruning
import GraphQL.Proofs.Reading
import GraphQL.Proofs.ReadingSteps
import GraphQL.Proofs.Record
import GraphQL.Proofs.RecordObjects
import GraphQL.Proofs.Refusals
import GraphQL.Proofs.Relabelling
import GraphQL.Proofs.Replies
import GraphQL.Proofs.ResolverCalls
import GraphQL.Proofs.ResponseKeys
import GraphQL.Proofs.RootData
import GraphQL.Proofs.SerialMutations
import GraphQL.Proofs.Service
import GraphQL.Proofs.SettledConditions
import GraphQL.Proofs.Settling
import GraphQL.Proofs.Siblings
import GraphQL.Proofs.Sources
import GraphQL.Proofs.Spacing
import GraphQL.Proofs.Starting
import GraphQL.Proofs.Subscriptions
import GraphQL.Proofs.Tasks
import GraphQL.Proofs.Termination
import GraphQL.Proofs.Timeline
import GraphQL.Proofs.Uuid
import GraphQL.Proofs.UuidForms
import GraphQL.Proofs.VariableChecks
import GraphQL.Proofs.Whereabouts
import GraphQL.Proofs.WholeFloats
import GraphQL.Proofs.Window
import GraphQL.Proofs.WrittenEntries
import GraphQL.Proofs.WrittenVariables
import GraphQL.Request
import GraphQL.RequestError
import GraphQL.Response
import GraphQL.ResponseStream
import GraphQL.Scalar
import GraphQL.Schema
import GraphQL.Schema.Node
import GraphQL.Schema.Types
import GraphQL.Selection
import GraphQL.Service
import GraphQL.Text.CodePoints
import GraphQL.Text.GraphemeExtend
import GraphQL.Text.Hex
import GraphQL.Text.Position
import GraphQL.Text.Printable
import GraphQL.Text.Quoted
import GraphQL.TypeRef
import GraphQL.Uuid
import GraphQL.Value
import GraphQL.Value.Json
import GraphQL.Yaml
import GraphQL.Yaml.Cursor
import GraphQL.Yaml.Node
import GraphQL.Yaml.Scalar
import GraphQL.Yaml.Tag
import GraphQL.Yaml.Token
