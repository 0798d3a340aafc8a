import DurableRules.CommandLine.Run
import DurableRules.Main
import DurableRules.Ordered.Lookup
import DurableRules.Session.Mailbox
import DurableRules.Session.Registry
import DurableRules.Store.Watched
import DurableRules.Proofs.Engine.Matching
import DurableRules.Proofs.Engine.Schedule
import DurableRules.Proofs.Engine.Coherence
import DurableRules.Proofs.Engine.Change
import DurableRules.Proofs.Engine.Preservation
import DurableRules.Proofs.Engine.Firing
import DurableRules.Proofs.Engine.Restoring
import DurableRules.Proofs.Engine.Frame
import DurableRules.Proofs.Engine.Reachable
import DurableRules.Proofs.Engine.Demand
import DurableRules.Proofs.Engine.Order
import DurableRules.Proofs.Ordered.Walk
import DurableRules.Proofs.Text.Digits
import DurableRules.Proofs.Timestamp.RoundTrip
import DurableRules.Proofs.Json.Document
import DurableRules.Proofs.Json.Scanning
import DurableRules.Proofs.Double.Spelling
import DurableRules.Proofs.Json.RoundTrip
import DurableRules.Proofs.Snapshot.RoundTrip
import DurableRules.Proofs.Store.Faithful
import DurableRules.Proofs.Store.Performing
import DurableRules.Proofs.Store.Recovering
import DurableRules.Proofs.Snapshot.Complete
import DurableRules.Proofs.Session.Processing
import DurableRules.Proofs.Session.Run
import DurableRules.Proofs.Session.Changing
import DurableRules.Proofs.Session.Preparing
import DurableRules.Proofs.Session.Operating
import DurableRules.Proofs.Snapshot.Written
import DurableRules.Proofs.Session.Standing
import DurableRules.Proofs.Session.Saving
import DurableRules.Proofs.Snapshot.Shape
import DurableRules.Proofs.Session.Acknowledging
import DurableRules.Proofs.Session.Surviving
import DurableRules.Proofs.Session.Outage
import DurableRules.Proofs.Session.Confined
import DurableRules.Proofs.Session.Isolation
import DurableRules.Proofs.Engine.Lineage
import DurableRules.Proofs.Engine.Naive
import DurableRules.Proofs.Engine.Refinement
import DurableRules.Proofs.Engine.Replay
import DurableRules.Proofs.Snapshot.Inverse
import DurableRules.Proofs.Engine.Chronicle
import DurableRules.Proofs.Engine.Enduring
import DurableRules.Proofs.Engine.Supply
import DurableRules.Proofs.Store.Renewal
import DurableRules.Proofs.Store.Skipping
import DurableRules.Proofs.Engine.Adoption
import DurableRules.Proofs.Store.Listing
import DurableRules.Proofs.Store.Interchange
import DurableRules.Proofs.Store.Interruption
import DurableRules.Proofs.Engine.Execution
import DurableRules.Proofs.Engine.Stratification
import DurableRules.Proofs.Engine.Canonical
import DurableRules.Proofs.Store.Stability
import DurableRules.Proofs.Engine.Freshness
import DurableRules.Proofs.Timestamp.Words
import DurableRules.Proofs.Timestamp.Acceptance
import DurableRules.Proofs.Timestamp.Shortest
import DurableRules.Proofs.Session.Declining
import DurableRules.Proofs.Engine.Undoing
import DurableRules.Proofs.Engine.Accumulation
import DurableRules.Proofs.Session.Reviving
import DurableRules.Proofs.Session.Idling
import DurableRules.Proofs.Store.Elsewhere
import DurableRules.Proofs.Store.Atomicity
import DurableRules.Proofs.Store.Exactness
import DurableRules.Proofs.CommandLine.Overriding
import DurableRules.Proofs.Engine.Enumeration
import DurableRules.Proofs.Engine.Provenance
import DurableRules.Proofs.Text.Word
import DurableRules.Proofs.Timestamp.Scaling
