import NamedData.Main
import NamedData.Script.NodeBench
import NamedData.Script.LoopBench
import NamedData.Proofs.Node.Run
import NamedData.Proofs.Node.Acting
import NamedData.Proofs.Node.Ledger
import NamedData.Proofs.Table.Marks
import NamedData.Proofs.Table.Removal
import NamedData.Proofs.Table.Accounting
import NamedData.Proofs.Node.Effect
import NamedData.Proofs.Node.Resolution
import NamedData.Proofs.Loop.Run
import NamedData.Proofs.Loop.Order
import NamedData.Proofs.Loop.Projection
import NamedData.Proofs.Loop.Refinement
import NamedData.Proofs.Loop.Priority
import NamedData.Proofs.Json.Spelling
import NamedData.Proofs.Json.Decimal
import NamedData.Proofs.Json.Object
import NamedData.Proofs.Packet.RoundTrip
import NamedData.Proofs.Loop.Services
import NamedData.Proofs.Table.Standing
import NamedData.Proofs.Table.DelayedCalls
import NamedData.Proofs.Node.Polled
import NamedData.Proofs.Node.Delivery
import NamedData.Proofs.Node.Expiry
import NamedData.Proofs.Node.Processing
import NamedData.Proofs.Node.Completion
import NamedData.Proofs.Node.Processed
import NamedData.Proofs.Link.Contract
import NamedData.Proofs.Node.Closing
import NamedData.Proofs.Loop.Shutdown
import NamedData.Proofs.Node.Ticking
import NamedData.Proofs.Node.Coverage
import NamedData.Proofs.Node.Reading
import NamedData.Proofs.Echo.Asking
import NamedData.Proofs.Echo.Serving
import NamedData.Proofs.Echo.Answered
import NamedData.Proofs.Lockstep
import NamedData.Proofs.Node.Outcomes
import NamedData.Proofs.Loop.Outcomes
import NamedData.Proofs.Loop.Backlog
import NamedData.Proofs.Loop.Custody
import NamedData.Proofs.Loop.Process
import NamedData.Proofs.Loop.Timers
import NamedData.Proofs.Node.Pairing
import NamedData.Proofs.Node.Forgetting
import NamedData.Proofs.Node.Operating
import NamedData.Proofs.Node.Overflow
import NamedData.Proofs.Loop.Calls
import NamedData.Proofs.Loop.Forgetting
import NamedData.Proofs.Loop.Overflow
import NamedData.Proofs.Exchange.Session
import NamedData.Proofs.Exchange.Desk
import NamedData.Proofs.Exchange.Works
import NamedData.Proofs.Exchange.Desks
import NamedData.Proofs.Exchange.Closing
import NamedData.Proofs.Exchange.Tally
import NamedData.Proofs.Exchange.Accounting
import NamedData.Proofs.Exchange.Arranged
import NamedData.Proofs.Exchange.Summary
import NamedData.Proofs.Exchange.Whereabouts
import NamedData.Proofs.Exchange.Threads
import NamedData.Proofs.Exchange.Delivery
import NamedData.Proofs.Exchange.Answers
import NamedData.Proofs.Exchange.Dropped
import NamedData.Proofs.Exchange.Clock
import NamedData.Proofs.Table.Agenda
import NamedData.Proofs.Node.Moves
import NamedData.Proofs.Node.Registering
import NamedData.Proofs.Node.Offering
import NamedData.Proofs.Node.Sending
import NamedData.Proofs.Node.Expressing
import NamedData.Proofs.Table.Commuting
import NamedData.Proofs.Name.Printing
import NamedData.Proofs.Name.Spellings
import NamedData.Proofs.Name.Octets
import NamedData.Proofs.Interest.Matching
import NamedData.Proofs.Name.Order
import NamedData.Proofs.Face.Settings
import NamedData.Proofs.Loop.Idling
import NamedData.Proofs.Loop.Watch
import NamedData.Proofs.Loop.Watching
import NamedData.Proofs.Loop.Polling
import NamedData.Proofs.Loop.Rearming
