import AxenoRelay.Lib.OrdMap
import AxenoRelay.Config
import AxenoRelay.Lib.Interleave
import AxenoRelay.Lib.SepKey
import AxenoRelay.Lib.Txn
import AxenoRelay.Util
import AxenoRelay.Protocol
import AxenoRelay.QueueStore.Basic
import AxenoRelay.Lib.Fifo
import AxenoRelay.QueueStore.Rows
import AxenoRelay.QueueStore.Txns
import AxenoRelay.QueueStore.Order
import AxenoRelay.QueueStore.Fifo
import AxenoRelay.QueueStore.Tasks
import AxenoRelay.QueueStore.Drift
import AxenoRelay.FileStore.Basic
import AxenoRelay.FileStore.Tasks
import AxenoRelay.FileStore.Txns
import AxenoRelay.FileStore.Steps
import AxenoRelay.FileStore.Accounting
import AxenoRelay.FileStore.World
import AxenoRelay.FileStore.Cache
import AxenoRelay.FileStore.Shape
import AxenoRelay.State.Basic
import AxenoRelay.State.FlushFailure
import AxenoRelay.State.Tasks
import AxenoRelay.Ws.Basic
import AxenoRelay.Ws.Machine
import AxenoRelay.Lib.WriteBack
import AxenoRelay.State.Steps
import AxenoRelay.Meta.Owed
import AxenoRelay.Meta.WriteBack
import AxenoRelay.Ws.Calls
import AxenoRelay.Ws.Routes
import AxenoRelay.FileStore.Transfers
import AxenoRelay.Ws.Replies
import AxenoRelay.Lib.Trace
import AxenoRelay.Ws.Paid
import AxenoRelay.Ws.Invites
import AxenoRelay.Ws.Teardown
import AxenoRelay.Ws.LiveRoute
import AxenoRelay.Ws.Registrations
import AxenoRelay.Ws.Authority
import AxenoRelay.Lib.Lockstep
import AxenoRelay.Ws.Probing
import AxenoRelay.Ws.Leftovers
import AxenoRelay.Lib.FifoSet
import AxenoRelay.State.Tokens
import AxenoRelay.Ws.MailboxCap
import AxenoRelay.Ws.BundleCap
import AxenoRelay.QueueStore.Backstop
import AxenoRelay.Startup.Basic
import AxenoRelay.Startup.Steps
import AxenoRelay.Startup.Identity
import AxenoRelay.Lib.Replay
import AxenoRelay.Startup.Migration
import AxenoRelay.Startup.Losses
import AxenoRelay.Startup.Resume
import AxenoRelay.FileStore.Complete
import AxenoRelay.FileStore.Upload
import AxenoRelay.FileStore.Sweep
import AxenoRelay.Failures
import AxenoRelay.Keys
import AxenoRelay.Lib.RateWindow
import AxenoRelay.Pow
import AxenoRelay.State.SendRate
import AxenoRelay.Ws.Collections
import AxenoRelay.QueueStore.Restarts
import AxenoRelay.Startup.Load
import AxenoRelay.Ws.Envelopes
import AxenoRelay.Ws.Acked
import AxenoRelay.Ws.Delivery
import AxenoRelay.Ws.Cleanup
import AxenoRelay.Ws.Conversation
import AxenoRelay.Ws.Deliveries
import AxenoRelay.Ws.Origins
import AxenoRelay.Lib.Settling
import AxenoRelay.Ws.Settling
import AxenoRelay.Ws.Synced
import AxenoRelay.Ws.Lives
import AxenoRelay.Ws.FrameBudget
import AxenoRelay.Lib.Lines
import AxenoRelay.Startup.Dotenv
import AxenoRelay.Startup.Settings
import AxenoRelay.Ws.Resources
import AxenoRelay.Lib.Trailing
import AxenoRelay.Meta.WriteOrder
import AxenoRelay.Startup.UpdateCheck
