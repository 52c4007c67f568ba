import Egressfox.Selection.Cooldown
import Egressfox.Selection.Idempotence
import Egressfox.Scheduling.Output
import Egressfox.Publish.Recovery
import Egressfox.History.Load
import Egressfox.Source.RoundTrip
import Egressfox.Engine.Mihomo
import Egressfox.Source.JsonDepth
import Egressfox.Scheduling.Explore
import Egressfox.Scheduling.Fit
import Egressfox.Pool.Unchanged
import Egressfox.Endpoint.UserID
import Egressfox.Checkpoint.Recoverable
import Egressfox.Source.Envelope
import Egressfox.Source.Accounting
import Egressfox.Probe.Scheduler
import Egressfox.Source.Shadowsocks
import Egressfox.Source.Hysteria2
import Egressfox.Selection.Cost
import Egressfox.Controller.Cadence
