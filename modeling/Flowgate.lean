import Flowgate.Config
import Flowgate.Decimal.Binary
import Flowgate.Decimal.Notation
import Flowgate.Decimal.Rounded
import Flowgate.Decimal.Shortest
import Flowgate.Digest
import Flowgate.Entries
import Flowgate.File.Path
import Flowgate.File.Tree
import Flowgate.Flow.Basic
import Flowgate.Flow.Compile
import Flowgate.Flow.Stack
import Flowgate.Flow.Store
import Flowgate.Http.MediaType
import Flowgate.Http.Message
import Flowgate.Http.Uri
import Flowgate.Http.Url
import Flowgate.Json.Printer
import Flowgate.Json.Reader
import Flowgate.Json.Shape
import Flowgate.Json.Value
import Flowgate.Package.Catalog
import Flowgate.Package.Controller
import Flowgate.Package.Identity
import Flowgate.Package.Index
import Flowgate.Package.Load
import Flowgate.Package.Manager
import Flowgate.Package.Manifest
import Flowgate.Package.Registry
import Flowgate.Package.Schema
import Flowgate.Package.Shelf
import Flowgate.Package.Toolbox
import Flowgate.Package.Workspace
import Flowgate.Proofs.Entries
import Flowgate.Proofs.File.Descents
import Flowgate.Proofs.File.Lookup
import Flowgate.Proofs.File.Names
import Flowgate.Proofs.File.Operations
import Flowgate.Proofs.File.Paths
import Flowgate.Proofs.File.Presence
import Flowgate.Proofs.File.Regions
import Flowgate.Proofs.File.Resolution
import Flowgate.Proofs.File.Soundness
import Flowgate.Proofs.File.Steps
import Flowgate.Proofs.Flow.Compilation
import Flowgate.Proofs.Flow.Documents
import Flowgate.Proofs.Flow.Isolation
import Flowgate.Proofs.Flow.Overriding
import Flowgate.Proofs.Flow.Pruning
import Flowgate.Proofs.Flow.RoundTrip
import Flowgate.Proofs.Flow.RouteSpecs
import Flowgate.Proofs.Flow.Saved
import Flowgate.Proofs.Flow.Sites
import Flowgate.Proofs.Flow.Stacks
import Flowgate.Proofs.Flow.Storage
import Flowgate.Proofs.Json.Codecs
import Flowgate.Proofs.Json.Loops
import Flowgate.Proofs.Json.Nesting
import Flowgate.Proofs.Json.Records
import Flowgate.Proofs.Json.Scalars
import Flowgate.Proofs.Json.Shapes
import Flowgate.Proofs.Json.Values
import Flowgate.Proofs.Package.Adoption
import Flowgate.Proofs.Package.Archives
import Flowgate.Proofs.Package.Backing
import Flowgate.Proofs.Package.Calls
import Flowgate.Proofs.Package.Completion
import Flowgate.Proofs.Package.Confinement
import Flowgate.Proofs.Package.Contents
import Flowgate.Proofs.Package.Effects
import Flowgate.Proofs.Package.Frame
import Flowgate.Proofs.Package.Grounded
import Flowgate.Proofs.Package.History
import Flowgate.Proofs.Package.Identities
import Flowgate.Proofs.Package.Indexing
import Flowgate.Proofs.Package.Interleaving
import Flowgate.Proofs.Package.Inventory
import Flowgate.Proofs.Package.Jobs
import Flowgate.Proofs.Package.Listing
import Flowgate.Proofs.Package.Lookup
import Flowgate.Proofs.Package.Manifests
import Flowgate.Proofs.Package.Placement
import Flowgate.Proofs.Package.Reached
import Flowgate.Proofs.Package.Recording
import Flowgate.Proofs.Package.References
import Flowgate.Proofs.Package.Refinement
import Flowgate.Proofs.Package.Removal
import Flowgate.Proofs.Package.Restoration
import Flowgate.Proofs.Package.Rollback
import Flowgate.Proofs.Package.Runs
import Flowgate.Proofs.Package.Scripts
import Flowgate.Proofs.Package.Specs
import Flowgate.Proofs.Package.Standing
import Flowgate.Proofs.Route.Acceptance
import Flowgate.Proofs.Route.Conflicts
import Flowgate.Proofs.Route.Filling
import Flowgate.Proofs.Route.Groups
import Flowgate.Proofs.Route.Handlers
import Flowgate.Proofs.Route.Keys
import Flowgate.Proofs.Route.Parameters
import Flowgate.Proofs.Route.Paths
import Flowgate.Proofs.Route.Precedence
import Flowgate.Proofs.Route.Registration
import Flowgate.Proofs.Route.Rejections
import Flowgate.Proofs.Route.Search
import Flowgate.Proofs.Route.Separation
import Flowgate.Proofs.Route.Serving
import Flowgate.Proofs.Route.Shapes
import Flowgate.Proofs.Route.Slots
import Flowgate.Proofs.Route.Specs
import Flowgate.Proofs.Route.Templates
import Flowgate.Proofs.Service.Administration
import Flowgate.Proofs.Service.Deployment
import Flowgate.Proofs.Service.Live
import Flowgate.Proofs.Service.Reachability
import Flowgate.Proofs.Task.Pauses
import Flowgate.Proofs.Task.Pool
import Flowgate.Proofs.Task.Sections
import Flowgate.Proofs.Text.Ends
import Flowgate.Proofs.Text.Pieces
import Flowgate.Proofs.Traversal
import Flowgate.Route.Diagnostic
import Flowgate.Route.Duplicate
import Flowgate.Route.Error
import Flowgate.Route.Group
import Flowgate.Route.Path
import Flowgate.Route.Pattern
import Flowgate.Route.Router
import Flowgate.Route.Spec
import Flowgate.Script.Run
import Flowgate.Script.Term
import Flowgate.Script.Token
import Flowgate.Service.Admin
import Flowgate.Service.App
import Flowgate.Task.Basic
import Flowgate.Task.Pair
import Flowgate.Text.Blank
import Flowgate.Text.Percent
import Flowgate.Text.Printable
import Flowgate.Text.Quoted
import Flowgate.Text.Split
import Flowgate.Text.Utf8
