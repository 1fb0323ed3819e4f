import AuditBroker.Foundation.Text
import AuditBroker.Foundation.Json
import AuditBroker.Foundation.Ring
import AuditBroker.Foundation.Chain
import AuditBroker.Foundation.Lines
import AuditBroker.Basic
import AuditBroker.Request
import AuditBroker.Record
import AuditBroker.RoundTrip
import AuditBroker.Quota
import AuditBroker.OpenSet
import AuditBroker.Sink
import AuditBroker.State
import AuditBroker.Rotation
import AuditBroker.Handlers
import AuditBroker.Reconstruct
import AuditBroker.Run
import AuditBroker.Foundation.History
import AuditBroker.Ledger
import AuditBroker.Journal
import AuditBroker.Replay
import AuditBroker.Carry
import AuditBroker.Frame
import AuditBroker.Filling
import AuditBroker.Swapping
import AuditBroker.Steps
import AuditBroker.Disk
import AuditBroker.Moves
import AuditBroker.Invariant
import AuditBroker.Traces
import AuditBroker.Reading
import AuditBroker.Attribution
import AuditBroker.Restart
import AuditBroker.Redemption
import AuditBroker.Foundation.JsonText
import AuditBroker.Stamping
import AuditBroker.Foundation.Stream
import AuditBroker.Wire
import AuditBroker.Reactor
import AuditBroker.Connections
import AuditBroker.Delivery
import AuditBroker.Consistency
import AuditBroker.Census
import AuditBroker.Replies
import AuditBroker.Redeemable
import AuditBroker.Alike
import AuditBroker.Nodes
import AuditBroker.Provenance
import AuditBroker.Foundation.Unwinding
import AuditBroker.Isolation
import AuditBroker.Identity
import AuditBroker.Peer
import AuditBroker.Retention
import AuditBroker.Repair
import AuditBroker.Grammar
import AuditBroker.Foundation.Tumbling
import AuditBroker.Foundation.Sliding
import AuditBroker.Volume
import AuditBroker.Rates
import AuditBroker.Quotas
import AuditBroker.Recovery
import AuditBroker.TokenLookup
import AuditBroker.RotationCalls
import AuditBroker.FailedRotation
import AuditBroker.Foundation.Cover
import AuditBroker.Shelf
import AuditBroker.Unblocked
import AuditBroker.Flood
import AuditBroker.Chronicle
