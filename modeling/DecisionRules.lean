import DecisionRules.Audit.Artifact
import DecisionRules.Catalog.Basic
import DecisionRules.Catalog.Check
import DecisionRules.Catalog.StableId
import DecisionRules.Catalog.Version
import DecisionRules.CommandLine.Arguments
import DecisionRules.CommandLine.Run
import DecisionRules.CommandLine.Settings
import DecisionRules.Engine.Basic
import DecisionRules.Engine.Request
import DecisionRules.Engine.Session
import DecisionRules.Json.Basic
import DecisionRules.Json.NumberText
import DecisionRules.Json.Quoted
import DecisionRules.Json.Reader
import DecisionRules.Json.Token
import DecisionRules.Json.Writer
import DecisionRules.KeyMap
import DecisionRules.Main
import DecisionRules.Number.Binary64
import DecisionRules.Number.Decimal
import DecisionRules.Number.Integer
import DecisionRules.Proofs.Audit.Coherence
import DecisionRules.Proofs.Catalog.Change
import DecisionRules.Proofs.Catalog.Footprint
import DecisionRules.Proofs.Catalog.History
import DecisionRules.Proofs.Catalog.InPlace
import DecisionRules.Proofs.Catalog.Independence
import DecisionRules.Proofs.Catalog.Lifecycle
import DecisionRules.Proofs.Catalog.Listing
import DecisionRules.Proofs.Catalog.StableId
import DecisionRules.Proofs.Catalog.Stored
import DecisionRules.Proofs.Catalog.Tally
import DecisionRules.Proofs.CommandLine.ExitStatus
import DecisionRules.Proofs.CommandLine.Loading
import DecisionRules.Proofs.CommandLine.Regression
import DecisionRules.Proofs.CommandLine.TraceBlock
import DecisionRules.Proofs.Engine.Acceptance
import DecisionRules.Proofs.Engine.Accounting
import DecisionRules.Proofs.Engine.Agreement
import DecisionRules.Proofs.Engine.Chronology
import DecisionRules.Proofs.Engine.Failure
import DecisionRules.Proofs.Engine.Handover
import DecisionRules.Proofs.Engine.Provenance
import DecisionRules.Proofs.Engine.Recording
import DecisionRules.Proofs.Engine.Replay
import DecisionRules.Proofs.Engine.Resubmission
import DecisionRules.Proofs.Engine.Step
import DecisionRules.Proofs.Engine.StoredCases
import DecisionRules.Proofs.Engine.VisibleFailure
import DecisionRules.Proofs.Json.Legibility
import DecisionRules.Proofs.Json.Numeral
import DecisionRules.Proofs.Json.Quoting
import DecisionRules.Proofs.Json.RoundTrip
import DecisionRules.Proofs.Json.SingleLine
import DecisionRules.Proofs.Json.Spelling
import DecisionRules.Proofs.Number.Order
import DecisionRules.Proofs.Number.Rounding
import DecisionRules.Proofs.Number.Shortest
import DecisionRules.Proofs.Number.ZeroSign
import DecisionRules.Proofs.Record.Field
import DecisionRules.Proofs.Record.Request
import DecisionRules.Proofs.Record.RoundTrip
import DecisionRules.Proofs.Record.Trace
import DecisionRules.Proofs.Rule.Congruence
import DecisionRules.Proofs.Rule.ConnectiveLaws
import DecisionRules.Proofs.Rule.ErrorPath
import DecisionRules.Proofs.Rule.Explanation
import DecisionRules.Proofs.Rule.Expression
import DecisionRules.Proofs.Rule.Extrema
import DecisionRules.Proofs.Rule.Fields
import DecisionRules.Proofs.Rule.Grammar
import DecisionRules.Proofs.Rule.InPlace
import DecisionRules.Proofs.Rule.KeyOrder
import DecisionRules.Proofs.Rule.MembershipScan
import DecisionRules.Proofs.Rule.NumericOutcome
import DecisionRules.Proofs.Rule.OperatorScript
import DecisionRules.Proofs.Rule.Outermost
import DecisionRules.Proofs.Rule.PairwiseEquality
import DecisionRules.Proofs.Rule.Presence
import DecisionRules.Proofs.Rule.QuantifierDuality
import DecisionRules.Proofs.Rule.Relocation
import DecisionRules.Proofs.Rule.Route
import DecisionRules.Proofs.Rule.Scoping
import DecisionRules.Proofs.Rule.Script
import DecisionRules.Proofs.Rule.ShortCircuit
import DecisionRules.Proofs.Rule.Sortedness
import DecisionRules.Proofs.Rule.TracePath
import DecisionRules.Proofs.Rule.Unordered
import DecisionRules.Proofs.Rule.Validation
import DecisionRules.Proofs.Rule.Verdict
import DecisionRules.Proofs.Rule.WellFormed
import DecisionRules.Proofs.Rule.ZeroSign
import DecisionRules.Proofs.Time.Calendar
import DecisionRules.Proofs.Time.RoundTrip
import DecisionRules.Proofs.Value.Addressing
import DecisionRules.Proofs.Value.Appearance
import DecisionRules.Proofs.Value.Canonical
import DecisionRules.Proofs.Value.Composition
import DecisionRules.Proofs.Value.Encoders
import DecisionRules.Proofs.Value.Equality
import DecisionRules.Proofs.Value.Equivalence
import DecisionRules.Proofs.Value.KeyOrder
import DecisionRules.Proofs.Value.Object
import DecisionRules.Proofs.Value.Plain
import DecisionRules.Proofs.Value.RoundTrip
import DecisionRules.Proofs.Value.ZeroSign
import DecisionRules.Record.Equality
import DecisionRules.Record.Read
import DecisionRules.Record.Shape
import DecisionRules.Record.Write
import DecisionRules.Rule.Arithmetic
import DecisionRules.Rule.Connective
import DecisionRules.Rule.EvalError
import DecisionRules.Rule.Evaluate
import DecisionRules.Rule.Lookup
import DecisionRules.Rule.Membership
import DecisionRules.Rule.Operator
import DecisionRules.Rule.Quantification
import DecisionRules.Rule.Recorded
import DecisionRules.Rule.Term
import DecisionRules.Rule.Trace
import DecisionRules.Rule.Validate
import DecisionRules.Text.Blank
import DecisionRules.Time.Calendar
import DecisionRules.Time.Timestamp
import DecisionRules.Value.Basic
import DecisionRules.Value.Document
import DecisionRules.Value.Path
