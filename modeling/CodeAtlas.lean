import CodeAtlas.Analysis
import CodeAtlas.Command.Arguments
import CodeAtlas.Command.Run
import CodeAtlas.Config
import CodeAtlas.Config.File
import CodeAtlas.Context
import CodeAtlas.Declaration.Heritage
import CodeAtlas.Declaration.Hover
import CodeAtlas.Declaration.Nearby
import CodeAtlas.Declaration.Parameters
import CodeAtlas.Declaration.Signature
import CodeAtlas.Enrichment.FieldTypes
import CodeAtlas.Enrichment.Run
import CodeAtlas.Enrichment.Steps
import CodeAtlas.Fault
import CodeAtlas.File.Archive
import CodeAtlas.File.Disk
import CodeAtlas.File.Glob
import CodeAtlas.File.Path
import CodeAtlas.File.Sources
import CodeAtlas.File.Uri
import CodeAtlas.Graph.Basic
import CodeAtlas.Graph.Builder
import CodeAtlas.Graph.Edges
import CodeAtlas.Graph.Layer
import CodeAtlas.Graph.Metrics
import CodeAtlas.Graph.Packages
import CodeAtlas.Json.Decimal
import CodeAtlas.Json.Parser
import CodeAtlas.Json.Printer
import CodeAtlas.Json.Record
import CodeAtlas.Json.Value
import CodeAtlas.Main
import CodeAtlas.Package.Basic
import CodeAtlas.Package.Discovery
import CodeAtlas.Package.External
import CodeAtlas.Package.Manifest
import CodeAtlas.Package.Origin
import CodeAtlas.Package.Pubspec
import CodeAtlas.Pattern
import CodeAtlas.Proofs.Alone
import CodeAtlas.Proofs.Answers
import CodeAtlas.Proofs.BaseNames
import CodeAtlas.Proofs.Bookkeeping
import CodeAtlas.Proofs.CallSites
import CodeAtlas.Proofs.Calls
import CodeAtlas.Proofs.ClassHeaders
import CodeAtlas.Proofs.Clauses
import CodeAtlas.Proofs.ClosedConstructors
import CodeAtlas.Proofs.ClosedFiles
import CodeAtlas.Proofs.ClosedTexts
import CodeAtlas.Proofs.CommaLists
import CodeAtlas.Proofs.Contexts
import CodeAtlas.Proofs.Cutting
import CodeAtlas.Proofs.DeclaredParameters
import CodeAtlas.Proofs.DefaultValues
import CodeAtlas.Proofs.Degrees
import CodeAtlas.Proofs.Dependencies
import CodeAtlas.Proofs.Descriptions
import CodeAtlas.Proofs.Documents
import CodeAtlas.Proofs.EdgeKinds
import CodeAtlas.Proofs.Effects
import CodeAtlas.Proofs.ErasedNodes
import CodeAtlas.Proofs.Erasure
import CodeAtlas.Proofs.Failures
import CodeAtlas.Proofs.FieldDeclarations
import CodeAtlas.Proofs.FileOrder
import CodeAtlas.Proofs.FileUris
import CodeAtlas.Proofs.Flows
import CodeAtlas.Proofs.Frames
import CodeAtlas.Proofs.Gaps
import CodeAtlas.Proofs.Identities
import CodeAtlas.Proofs.Interleavings
import CodeAtlas.Proofs.Layers
import CodeAtlas.Proofs.Leftovers
import CodeAtlas.Proofs.Lexemes
import CodeAtlas.Proofs.LineNumbers
import CodeAtlas.Proofs.LinesAbove
import CodeAtlas.Proofs.Listings
import CodeAtlas.Proofs.Loading
import CodeAtlas.Proofs.Matching
import CodeAtlas.Proofs.Members
import CodeAtlas.Proofs.Messages
import CodeAtlas.Proofs.NamesApart
import CodeAtlas.Proofs.Namesakes
import CodeAtlas.Proofs.Occurrences
import CodeAtlas.Proofs.OwnSources
import CodeAtlas.Proofs.Owners
import CodeAtlas.Proofs.PackageFolders
import CodeAtlas.Proofs.PackageSources
import CodeAtlas.Proofs.ParameterLists
import CodeAtlas.Proofs.ParentLinks
import CodeAtlas.Proofs.Parents
import CodeAtlas.Proofs.Passes
import CodeAtlas.Proofs.Paths
import CodeAtlas.Proofs.Pieces
import CodeAtlas.Proofs.Places
import CodeAtlas.Proofs.Preservation
import CodeAtlas.Proofs.PublicApi
import CodeAtlas.Proofs.Reads
import CodeAtlas.Proofs.Remembered
import CodeAtlas.Proofs.Reports
import CodeAtlas.Proofs.Responses
import CodeAtlas.Proofs.ReturnTypes
import CodeAtlas.Proofs.RoundTrips
import CodeAtlas.Proofs.Runs
import CodeAtlas.Proofs.SdkFiles
import CodeAtlas.Proofs.SdkNodes
import CodeAtlas.Proofs.Searching
import CodeAtlas.Proofs.SegmentFlags
import CodeAtlas.Proofs.Settled
import CodeAtlas.Proofs.Slices
import CodeAtlas.Proofs.SlotChoice
import CodeAtlas.Proofs.SlotRounds
import CodeAtlas.Proofs.Slots
import CodeAtlas.Proofs.Stretches
import CodeAtlas.Proofs.Supertypes
import CodeAtlas.Proofs.SymbolInvariants
import CodeAtlas.Proofs.Talking
import CodeAtlas.Proofs.TidyDisks
import CodeAtlas.Proofs.TypeArguments
import CodeAtlas.Proofs.TypeExpressions
import CodeAtlas.Proofs.TypeReferences
import CodeAtlas.Proofs.TypeWords
import CodeAtlas.Proofs.TypedParameters
import CodeAtlas.Proofs.Utf8
import CodeAtlas.Proofs.Visits
import CodeAtlas.Proofs.Walks
import CodeAtlas.Proofs.WholeNames
import CodeAtlas.Proofs.Written
import CodeAtlas.Resolver
import CodeAtlas.Server.Client
import CodeAtlas.Server.Fault
import CodeAtlas.Server.Frame
import CodeAtlas.Server.Message
import CodeAtlas.Server.Payload
import CodeAtlas.Server.Session
import CodeAtlas.Service.Inquiry
import CodeAtlas.Service.Recorded
import CodeAtlas.Source
import CodeAtlas.Source.CallSites
import CodeAtlas.Span
import CodeAtlas.Span.Bytes
import CodeAtlas.Symbol.Basic
import CodeAtlas.Symbol.Codec
import CodeAtlas.Symbol.Id
import CodeAtlas.Symbol.Kind
import CodeAtlas.Text.Class
import CodeAtlas.Text.Cut
import CodeAtlas.Text.Hidden
import CodeAtlas.Text.Number
import CodeAtlas.Text.Quoted
import CodeAtlas.Text.Ranges
import CodeAtlas.Text.Sorted
import CodeAtlas.Text.Utf8
import CodeAtlas.TypeName
import CodeAtlas.Validation
import CodeAtlas.Variables
import CodeAtlas.Yaml.Fields
import CodeAtlas.Yaml.Node
import CodeAtlas.Yaml.Place
import CodeAtlas.Yaml.Scalar
import CodeAtlas.Yaml.Token
import CodeAtlas.Yaml.Value
