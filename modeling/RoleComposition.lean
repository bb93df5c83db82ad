import RoleComposition.Audit
import RoleComposition.Body
import RoleComposition.Capability
import RoleComposition.Closure
import RoleComposition.CommandLine
import RoleComposition.CommandLine.Help
import RoleComposition.CommandLine.Run
import RoleComposition.Config
import RoleComposition.Decimal
import RoleComposition.Engine
import RoleComposition.Engine.Composition
import RoleComposition.Engine.Race
import RoleComposition.Engine.Resolution
import RoleComposition.Error
import RoleComposition.Event
import RoleComposition.Inspection
import RoleComposition.Json
import RoleComposition.Json.Draft
import RoleComposition.Json.Numeral
import RoleComposition.Json.Reader
import RoleComposition.Lifecycle
import RoleComposition.Main
import RoleComposition.Manifest
import RoleComposition.Manifest.Format
import RoleComposition.Manifest.FromToml
import RoleComposition.MethodTable
import RoleComposition.Proofs.Acyclicity
import RoleComposition.Proofs.Addresses
import RoleComposition.Proofs.Arenas
import RoleComposition.Proofs.Ascending
import RoleComposition.Proofs.Audits
import RoleComposition.Proofs.Bodies
import RoleComposition.Proofs.Bundles
import RoleComposition.Proofs.CallStacks
import RoleComposition.Proofs.Calm
import RoleComposition.Proofs.Capabilities
import RoleComposition.Proofs.Checks
import RoleComposition.Proofs.ClosureWaits
import RoleComposition.Proofs.Closures
import RoleComposition.Proofs.Composability
import RoleComposition.Proofs.Consultations
import RoleComposition.Proofs.Control
import RoleComposition.Proofs.Counterparts
import RoleComposition.Proofs.Counters
import RoleComposition.Proofs.Deadlocks
import RoleComposition.Proofs.Deciding
import RoleComposition.Proofs.Declarations
import RoleComposition.Proofs.Diagnosis
import RoleComposition.Proofs.Exclusions
import RoleComposition.Proofs.Failures
import RoleComposition.Proofs.Fields
import RoleComposition.Proofs.FirstMet
import RoleComposition.Proofs.Flattening
import RoleComposition.Proofs.Gathering
import RoleComposition.Proofs.Hearings
import RoleComposition.Proofs.History
import RoleComposition.Proofs.Interviews
import RoleComposition.Proofs.Layouts
import RoleComposition.Proofs.Ledgers
import RoleComposition.Proofs.Listings
import RoleComposition.Proofs.Locality
import RoleComposition.Proofs.Log.Brackets
import RoleComposition.Proofs.Log.MergeEvents
import RoleComposition.Proofs.Log.MergeSteps
import RoleComposition.Proofs.Log.RunEvents
import RoleComposition.Proofs.Log.RunSteps
import RoleComposition.Proofs.Log.TypeEvents
import RoleComposition.Proofs.Lookup
import RoleComposition.Proofs.Merging
import RoleComposition.Proofs.MutualHooks
import RoleComposition.Proofs.Nesting
import RoleComposition.Proofs.OneShot
import RoleComposition.Proofs.Openings
import RoleComposition.Proofs.Outcomes
import RoleComposition.Proofs.OwnMethods
import RoleComposition.Proofs.Passages
import RoleComposition.Proofs.Persistence
import RoleComposition.Proofs.Printing
import RoleComposition.Proofs.Promptness
import RoleComposition.Proofs.Publication
import RoleComposition.Proofs.Reachability
import RoleComposition.Proofs.Readoption
import RoleComposition.Proofs.Registering
import RoleComposition.Proofs.Reordering
import RoleComposition.Proofs.ReportReads
import RoleComposition.Proofs.Resolving
import RoleComposition.Proofs.Revisions
import RoleComposition.Proofs.RoundTrips
import RoleComposition.Proofs.Routes
import RoleComposition.Proofs.Running
import RoleComposition.Proofs.Runs
import RoleComposition.Proofs.Sends
import RoleComposition.Proofs.Settings
import RoleComposition.Proofs.SharedSlots
import RoleComposition.Proofs.Signatures
import RoleComposition.Proofs.SoloRuns
import RoleComposition.Proofs.Soundness
import RoleComposition.Proofs.Spelling
import RoleComposition.Proofs.StandIns
import RoleComposition.Proofs.StorageModes
import RoleComposition.Proofs.Sweeps
import RoleComposition.Proofs.Tracing
import RoleComposition.Proofs.Unwinding
import RoleComposition.Proofs.Waiting
import RoleComposition.Proofs.Walks
import RoleComposition.Registry
import RoleComposition.Report
import RoleComposition.ResolutionOrder
import RoleComposition.Role
import RoleComposition.Sha256
import RoleComposition.Signature
import RoleComposition.SignatureMap
import RoleComposition.Slot
import RoleComposition.Text.Blank
import RoleComposition.Text.Glyph
import RoleComposition.Text.Hex
import RoleComposition.Text.Quoted
import RoleComposition.Toml
import RoleComposition.Toml.Quoted
import RoleComposition.Toml.Reader
import RoleComposition.Toml.Scalar
import RoleComposition.Veto
import RoleComposition.Veto.Recording
