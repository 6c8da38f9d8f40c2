import HttpPlan.Json.Printer
import HttpPlan.Json.Reader
import HttpPlan.Text
import HttpPlan.OrderedMap
import HttpPlan.Schema.Arena
import HttpPlan.Spec.Building
import HttpPlan.Assertion.Derivation
import HttpPlan.Assertion.Interchange
import HttpPlan.Placeholder
import HttpPlan.Plan.Interchange
import HttpPlan.Plan.Terminal
import HttpPlan.Plan.HttpFile
import HttpPlan.Plan.Compilation
import HttpPlan.Plan.InterchangeSchema
import HttpPlan.Binary64
import HttpPlan.Description
import HttpPlan.FileSystem.Tree
import HttpPlan.Main
import HttpPlan.Proofs.Plan.Bounds
import HttpPlan.Proofs.Assertion.Coverage
import HttpPlan.Proofs.Spec.Order
import HttpPlan.Proofs.Text.Percent
import HttpPlan.Proofs.Placeholder.Notes
import HttpPlan.Proofs.Plan.Scenarios
import HttpPlan.Proofs.Scenario.Slot
import HttpPlan.Proofs.Plan.Credential
import HttpPlan.Proofs.Plan.Sequence
import HttpPlan.Proofs.Plan.Paths
import HttpPlan.Proofs.Scenario.Carried
import HttpPlan.Proofs.Plan.Omission
import HttpPlan.Proofs.Plan.Departure
import HttpPlan.Proofs.Json.Record
import HttpPlan.Proofs.Assertion.Interchange
import HttpPlan.Proofs.Plan.Interchange
import HttpPlan.Proofs.Assertion.Words
import HttpPlan.Proofs.Placeholder.Conformance
import HttpPlan.Proofs.Placeholder.Midpoint
import HttpPlan.Proofs.Placeholder.Visit
import HttpPlan.Proofs.Placeholder.Silence
import HttpPlan.Proofs.Plan.RoundTrip
import HttpPlan.Proofs.Assertion.Demand
import HttpPlan.Proofs.Assertion.Tree
import HttpPlan.Proofs.Assertion.Checks
import HttpPlan.Proofs.Assertion.Exactness
import HttpPlan.Proofs.Resolution.Recording
import HttpPlan.Proofs.Schema.Validity
import HttpPlan.Proofs.Resolution.Leniency
import HttpPlan.Proofs.Resolution.Calls
import HttpPlan.Proofs.Spec.Calls
import HttpPlan.Proofs.Spec.Leniency
import HttpPlan.Proofs.Assertion.Unguarded
import HttpPlan.Proofs.Spec.Termination
import HttpPlan.Proofs.Plan.Absence
import HttpPlan.Proofs.Plan.Account
import HttpPlan.Proofs.Plan.Renumbering
import HttpPlan.Proofs.Spec.Shape
import HttpPlan.Proofs.Plan.Order
import HttpPlan.Proofs.Plan.Tokens
import HttpPlan.Proofs.Text.Lines
import HttpPlan.Proofs.Json.Printer
import HttpPlan.Proofs.Plan.Verbatim
import HttpPlan.Proofs.Plan.HttpFile
import HttpPlan.Proofs.Resolution.Log
import HttpPlan.Proofs.Spec.Log
import HttpPlan.Proofs.Spec.Identity
import HttpPlan.Proofs.Schema.Satisfaction
import HttpPlan.Proofs.Schema.Inheritance
import HttpPlan.Proofs.Resolution.Parts
import HttpPlan.Proofs.Resolution.Circular
import HttpPlan.Proofs.Spec.Aliases
import HttpPlan.Proofs.Spec.TemplateGrammar
import HttpPlan.Proofs.Plan.Query
import HttpPlan.Proofs.Placeholder.Termination
import HttpPlan.Proofs.Assertion.Position
import HttpPlan.Proofs.Assertion.Scope
import HttpPlan.Proofs.Assertion.Settling
import HttpPlan.Proofs.Placeholder.Spacing
