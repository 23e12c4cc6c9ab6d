import SchemaForge.Code.Literal
import SchemaForge.Code.Piece
import SchemaForge.Code.Text
import SchemaForge.Command
import SchemaForge.Config.Basic
import SchemaForge.Config.Checked
import SchemaForge.Config.Reading
import SchemaForge.Dialect.ArkType
import SchemaForge.Dialect.Builder
import SchemaForge.Dialect.Effect
import SchemaForge.Dialect.Module
import SchemaForge.Dialect.Render
import SchemaForge.Dialect.Valibot
import SchemaForge.Dialect.Zod
import SchemaForge.Files.Path
import SchemaForge.Files.Pattern
import SchemaForge.Files.Tree
import SchemaForge.Generation
import SchemaForge.GraphQL.Definitions
import SchemaForge.GraphQL.Document
import SchemaForge.GraphQL.Introspection
import SchemaForge.GraphQL.Lowering
import SchemaForge.GraphQL.Mark
import SchemaForge.GraphQL.MetaTypes
import SchemaForge.GraphQL.Reader
import SchemaForge.GraphQL.Selection
import SchemaForge.GraphQL.Session
import SchemaForge.GraphQL.Token
import SchemaForge.GraphQL.TypeSystem
import SchemaForge.GraphQL.Validity
import SchemaForge.Json.Reader
import SchemaForge.Log
import SchemaForge.Logged
import SchemaForge.Main
import SchemaForge.Material.Basic
import SchemaForge.Material.Operations
import SchemaForge.Material.Source
import SchemaForge.Name
import SchemaForge.Number.Double
import SchemaForge.Number.Shortest
import SchemaForge.OpenApi.Document
import SchemaForge.OpenApi.Lowering
import SchemaForge.OpenApi.Operation
import SchemaForge.OpenApi.PathGlob
import SchemaForge.OpenApi.Pointer
import SchemaForge.Proofs.Acceptance.Datum
import SchemaForge.Proofs.Acceptance.Schema
import SchemaForge.Proofs.Code.Balance
import SchemaForge.Proofs.Code.Clear
import SchemaForge.Proofs.Code.Comments
import SchemaForge.Proofs.Code.Enclosed
import SchemaForge.Proofs.Code.Escapes
import SchemaForge.Proofs.Code.Keys
import SchemaForge.Proofs.Code.PropertyNames
import SchemaForge.Proofs.Code.References
import SchemaForge.Proofs.Code.Scanner
import SchemaForge.Proofs.Code.Texts
import SchemaForge.Proofs.Code.Words
import SchemaForge.Proofs.Config.Validity
import SchemaForge.Proofs.Dialect.ArkTypeBalance
import SchemaForge.Proofs.Dialect.ArkTypeKeys
import SchemaForge.Proofs.Dialect.ArkTypePatterns
import SchemaForge.Proofs.Dialect.ArkTypeTexts
import SchemaForge.Proofs.Dialect.Balance
import SchemaForge.Proofs.Dialect.Definitions
import SchemaForge.Proofs.Dialect.Exports
import SchemaForge.Proofs.Dialect.Locality
import SchemaForge.Proofs.Dialect.Notices
import SchemaForge.Proofs.Dialect.ObjectNames
import SchemaForge.Proofs.Dialect.Order
import SchemaForge.Proofs.Dialect.References
import SchemaForge.Proofs.Dialect.Safety
import SchemaForge.Proofs.Dialect.Steps
import SchemaForge.Proofs.Dialect.Texts
import SchemaForge.Proofs.Dialect.TypeLanguage
import SchemaForge.Proofs.Dialect.TypeTexts
import SchemaForge.Proofs.Entry.Sort
import SchemaForge.Proofs.Entry.Stability
import SchemaForge.Proofs.Entry.Visits
import SchemaForge.Proofs.Files.Writing
import SchemaForge.Proofs.Generation.Isolation
import SchemaForge.Proofs.GraphQL.Collection
import SchemaForge.Proofs.GraphQL.Execution
import SchemaForge.Proofs.GraphQL.Fragments
import SchemaForge.Proofs.GraphQL.InlinedDocuments
import SchemaForge.Proofs.GraphQL.Inlining
import SchemaForge.Proofs.GraphQL.Inputs
import SchemaForge.Proofs.GraphQL.Narrowing
import SchemaForge.Proofs.GraphQL.Nesting
import SchemaForge.Proofs.GraphQL.Offers
import SchemaForge.Proofs.GraphQL.Presence
import SchemaForge.Proofs.GraphQL.Queue
import SchemaForge.Proofs.GraphQL.Reaching
import SchemaForge.Proofs.GraphQL.Response
import SchemaForge.Proofs.GraphQL.Soundness
import SchemaForge.Proofs.GraphQL.Steps
import SchemaForge.Proofs.GraphQL.Variables
import SchemaForge.Proofs.GraphQL.Wrappers
import SchemaForge.Proofs.Lists
import SchemaForge.Proofs.Logged
import SchemaForge.Proofs.Name.TypeName
import SchemaForge.Proofs.Number.Shortest
import SchemaForge.Proofs.OpenApi.Chains
import SchemaForge.Proofs.OpenApi.Closure
import SchemaForge.Proofs.OpenApi.Compilation
import SchemaForge.Proofs.OpenApi.Components
import SchemaForge.Proofs.OpenApi.Keywords
import SchemaForge.Proofs.OpenApi.Naming
import SchemaForge.Proofs.OpenApi.Parameters
import SchemaForge.Proofs.OpenApi.Parts
import SchemaForge.Proofs.OpenApi.PathGlobs
import SchemaForge.Proofs.OpenApi.Pointers
import SchemaForge.Proofs.OpenApi.References
import SchemaForge.Proofs.OpenApi.Renaming
import SchemaForge.Proofs.OpenApi.Responses
import SchemaForge.Proofs.OpenApi.Sites
import SchemaForge.Proofs.OpenApi.Skipping
import SchemaForge.Proofs.OpenApi.Soundness
import SchemaForge.Proofs.OpenApi.Unresolved
import SchemaForge.Proofs.OpenApi.Validity
import SchemaForge.Proofs.Query.FilterStyles
import SchemaForge.Proofs.Query.OffsetArguments
import SchemaForge.Proofs.Revision.Cascade
import SchemaForge.Proofs.Revision.Commutation
import SchemaForge.Proofs.Revision.Headers
import SchemaForge.Proofs.Scalar.Acceptance
import SchemaForge.Proofs.Scalar.Balance
import SchemaForge.Proofs.Schema.Induction
import SchemaForge.Proofs.Schema.Nodes
import SchemaForge.Proofs.Schema.Properties
import SchemaForge.Proofs.Schema.Renaming
import SchemaForge.Proofs.Schema.Texts
import SchemaForge.Proofs.Schema.WellTyped
import SchemaForge.Proofs.Value.Mapping
import SchemaForge.Query.Arguments
import SchemaForge.Query.Capabilities
import SchemaForge.Query.Parameters
import SchemaForge.Revision
import SchemaForge.Scalar.Expression
import SchemaForge.Scalar.Registry
import SchemaForge.Schema.Basic
import SchemaForge.Schema.Entry
import SchemaForge.Text.Basic
import SchemaForge.Text.Case
import SchemaForge.Text.CaseTable
import SchemaForge.Text.Printable
import SchemaForge.Value.Basic
import SchemaForge.Value.Text
import SchemaForge.Yaml.Content
import SchemaForge.Yaml.Cursor
import SchemaForge.Yaml.Lexeme
import SchemaForge.Yaml.Lexer
import SchemaForge.Yaml.Node
import SchemaForge.Yaml.Scalar
