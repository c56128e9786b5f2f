import LiveRecords.ByName
import LiveRecords.ChangeSet
import LiveRecords.Coordinator
import LiveRecords.Coordinator.Script
import LiveRecords.Database
import LiveRecords.Database.Basic
import LiveRecords.Database.Change
import LiveRecords.Database.Reference
import LiveRecords.Database.Step
import LiveRecords.Diagnostic
import LiveRecords.Diagnostic.Directive
import LiveRecords.Diagnostic.Verbosity
import LiveRecords.Json
import LiveRecords.Json.Number
import LiveRecords.Json.Reader
import LiveRecords.Json.Shape
import LiveRecords.Json.Skip
import LiveRecords.Link
import LiveRecords.Name
import LiveRecords.Note
import LiveRecords.Note.Metadata
import LiveRecords.Number.Binary64
import LiveRecords.Number.Decimal
import LiveRecords.Number.Shortest
import LiveRecords.Number.Twofold
import LiveRecords.Number.Written
import LiveRecords.Observers
import LiveRecords.Observers.Script
import LiveRecords.Path
import LiveRecords.Predicate
import LiveRecords.Predicate.Clause
import LiveRecords.Record
import LiveRecords.Record.Command
import LiveRecords.Record.Commit
import LiveRecords.Record.Edit
import LiveRecords.Record.Replay
import LiveRecords.RecordId
import LiveRecords.Role
import LiveRecords.Schema
import LiveRecords.Settings
import LiveRecords.Statement
import LiveRecords.Statement.Keyword
import LiveRecords.StoreError
import LiveRecords.Table.Arithmetic
import LiveRecords.Table.Basic
import LiveRecords.Table.Cell
import LiveRecords.Table.Collation
import LiveRecords.Table.Column
import LiveRecords.Table.Constraint
import LiveRecords.Table.Declaration
import LiveRecords.Table.Evaluation
import LiveRecords.Table.Expression
import LiveRecords.Table.Expression.Reader
import LiveRecords.Table.Function
import LiveRecords.Table.Page
import LiveRecords.Table.Pattern
import LiveRecords.Table.Plan
import LiveRecords.Table.Plan.Hint
import LiveRecords.Table.Plan.Magnitude
import LiveRecords.Table.Plan.Route
import LiveRecords.Table.Plan.Stem
import LiveRecords.Table.Refusal
import LiveRecords.Table.Token
import LiveRecords.Text.Alphanumeric
import LiveRecords.Text.Blank
import LiveRecords.Text.Hex
import LiveRecords.Text.Quoted
import LiveRecords.Text.Unseen
import LiveRecords.Text.Utf8
import LiveRecords.Tour
import LiveRecords.Value
import LiveRecords.Value.Structured
import LiveRecords.Volumes
import LiveRecords.Window
import LiveRecords.Workspace
import LiveRecords.Workspace.Action
import LiveRecords.Workspace.Delivery
import LiveRecords.Workspace.Reach
import LiveRecords.Workspace.Registry
import LiveRecords.Workspace.Stores
import LiveRecords.Workspace.Views
import LiveRecords.Main
import LiveRecords.Proofs.Annotating
import LiveRecords.Proofs.Announcing
import LiveRecords.Proofs.Arriving
import LiveRecords.Proofs.Availability
import LiveRecords.Proofs.Cancelling
import LiveRecords.Proofs.Chronicles
import LiveRecords.Proofs.Comparing
import LiveRecords.Proofs.Drafting
import LiveRecords.Proofs.Durability
import LiveRecords.Proofs.Finding
import LiveRecords.Proofs.Fitting
import LiveRecords.Proofs.Freeing
import LiveRecords.Proofs.Heralding
import LiveRecords.Proofs.Histories
import LiveRecords.Proofs.Interleaving
import LiveRecords.Proofs.Isolation
import LiveRecords.Proofs.Legibility
import LiveRecords.Proofs.Lettering
import LiveRecords.Proofs.Mirroring
import LiveRecords.Proofs.Naming
import LiveRecords.Proofs.Narrowing
import LiveRecords.Proofs.Reentry
import LiveRecords.Proofs.Registering
import LiveRecords.Proofs.Restoring
import LiveRecords.Proofs.Retrying
import LiveRecords.Proofs.RoundTrip
import LiveRecords.Proofs.Showing
import LiveRecords.Proofs.Sparing
import LiveRecords.Proofs.Spelling
import LiveRecords.Proofs.Windowing
