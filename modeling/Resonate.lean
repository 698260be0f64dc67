import Resonate.Network.Wakeup
import Resonate.Network.Lease
import Resonate.Network.Local
import Resonate.Discharge
import Resonate.Network.Fence
import Resonate.Sequencing
import Resonate.SpawnedWork
import Resonate.Suspension
import Resonate.Failures
import Resonate.Network.Invariants
import Resonate.Network.Confluence
import Resonate.Network.Messages
import Resonate.Network.ErrorPath
import Resonate.Completions
import Resonate.Sleeps
import Resonate.Redirects
import Resonate.Rejections
import Resonate.Dispatch
import Resonate.Registration
import Resonate.Network.Granting
import Resonate.SharedCache
import Resonate.Heartbeat
import Resonate.Minting
import Resonate.Transparency
import Resonate.Recorded
import Resonate.Verdicts
import Resonate.Timeouts
import Resonate.HeartbeatLoop
import Resonate.Network.LeaseTimes
import Resonate.Network.Convergence
import Resonate.Sse
import Resonate.Network.Replies
import Resonate.Network.RoundTrip
import Resonate.Network.Observations
import Resonate.Network.Schedules
import Resonate.Client
import Resonate.Lib.Contracts
import Resonate.Conduct
import Resonate.Regimes
import Resonate.Repeats
import Resonate.Plain
import Resonate.Replay
import Resonate.Followed
import Resonate.Guided
import Resonate.Heeding
import Resonate.Durable
import Resonate.Network.Offers
import Resonate.Refresh
import Resonate.Postgres
