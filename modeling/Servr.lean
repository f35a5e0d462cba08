import Servr.Bus.Gaps
import Servr.Clock.Accounting
import Servr.Clock.Observers
import Servr.Lib.SortedSet
import Servr.Queue.Lifecycle
import Servr.Queue.Drain
import Servr.Snapshot.Cut
import Servr.Snapshot.Displacement
import Servr.Snapshot.RoundTrip
import Servr.Snapshot.Generations
import Servr.State.Reference
import Servr.State.Requests
import Servr.Data.Isolation
import Servr.Lib.Delivery
import Servr.Lib.Interleaving
import Servr.Outbound.Pass
import Servr.Queue.Cluster
import Servr.Queue.WriteBack
import Servr.Queue.Interchange
import Servr.Clock.Advances
import Servr.Data.Registry
import Servr.Fault.Effects
import Servr.Fault.Glob
import Servr.Mail.Allow
import Servr.Mail.Inbox
import Servr.Sign.Exact
import Servr.Stream.Agreement
import Servr.Ws.Kill
import Servr.Queue.DueTimes
import Servr.Outbound.DueTimes
import Servr.Stream.Scripted
import Servr.Fault.Latency
import Servr.Inbound
import Servr.Telemetry.Export
import Servr.Telemetry.Probe
import Servr.Trace.Parse
import Servr.Event.Tail
import Servr.Http.Accounts
import Servr.Http.Routes
import Servr.Hooks.SelfDelivery
import Servr.Mail.Routes
import Servr.Mail.Display
import Servr.Telemetry.Headers
import Servr.Ws.Heard
