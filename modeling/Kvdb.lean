import Kvdb.Lib.Machine
import Kvdb.Tasks.Proof.Lanes
import Kvdb.Tasks.Proof.SingleCopy
import Kvdb.Tasks.History
import Kvdb.Tasks.Proof.NoLoss
import Kvdb.Tasks.Proof.Unique
import Kvdb.Tasks.Proof.Fifo
import Kvdb.Lib.Retry
import Kvdb.Tasks.Commands
import Kvdb.Utils.Retry
import Kvdb.Components.Pipeline
import Kvdb.Components.Proof.Pipeline
import Kvdb.Tasks.Proof.DefaultKwargs
import Kvdb.Tasks.Proof.Concurrency
import Kvdb.Tasks.Proof.Records
import Kvdb.Tasks.Proof.Schedule
import Kvdb.Tasks.Proof.Stuck
import Kvdb.Tasks.Process
import Kvdb.Tasks.Proof.Process
import Kvdb.Tasks.Proof.AbortFinal
import Kvdb.Tasks.Proof.Terminal
import Kvdb.Tasks.Map
import Kvdb.Tasks.Proof.Map
import Kvdb.Components.Persistence
import Kvdb.Components.Proof.HashMode
import Kvdb.Components.Proof.Twins
import Kvdb.Components.Proof.ExpirationIndex
import Kvdb.Components.Sweep
import Kvdb.Components.Proof.Sweep
import Kvdb.Components.Dump
import Kvdb.Components.Proof.Dump
import Kvdb.Components.Proof.Reload
import Kvdb.Components.Lock
import Kvdb.Components.Proof.Lock
import Kvdb.Components.ConnectionPool
import Kvdb.Components.Proof.PoolLedger
import Kvdb.Components.Proof.PoolWakeup
import Kvdb.Components.Proof.PoolCapacity
import Kvdb.Components.Proof.PoolExit
import Kvdb.Components.Proof.PoolReset
import Kvdb.Io.Encoder
import Kvdb.Types.JobData
import Kvdb.Utils.CacheKey
import Kvdb.Tasks.Registry
import Kvdb.Tasks.Cron
import Kvdb.Tasks.Proof.Cron
import Kvdb.Lib.Double
import Kvdb.Io.Objects
import Kvdb.Io.Proof.Objects
import Kvdb.Io.Cachify
import Kvdb.Io.Proof.CachifyTtl
import Kvdb.Io.Proof.CachifySize
import Kvdb.Io.CachifyTasks
import Kvdb.Io.Proof.CachifyTasks
import Kvdb.Tasks.Listen
import Kvdb.Types.Backoff
import Kvdb.Tasks.Overdue
import Kvdb.Tasks.Wait
import Kvdb.Tasks.Proof.Wait
import Kvdb.Types.Create
import Kvdb.Types.Proof.Create
import Kvdb.Types.Proof.Partition
import Kvdb.Tasks.Calls
import Kvdb.Tasks.Proof.PushQueue
import Kvdb.Tasks.Proof.Abort
import Kvdb.Tasks.ProcessQueue
import Kvdb.Tasks.Proof.ProcessQueue
import Kvdb.Tasks.Proof.Abandon
import Kvdb.Tasks.Proof.Attempts
import Kvdb.Tasks.Proof.Budget
import Kvdb.Tasks.Proof.Overflow
import Kvdb.Tasks.Proof.TaskRun
import Kvdb.Io.Compression
import Kvdb.Components.CloseLocks
import Kvdb.Components.Proof.CloseLocks
import Kvdb.Components.Listing
import Kvdb.Components.Proof.Namespace
import Kvdb.Components.Views
import Kvdb.Components.Proof.Views
import Kvdb.Components.Proof.Listing
import Kvdb.Components.Bulk
import Kvdb.Components.Proof.Bulk
import Kvdb.Components.Sets
import Kvdb.Components.Proof.Sets
import Kvdb.Components.Clone
import Kvdb.Components.Proof.Clone
import Kvdb.Components.Proof.CloneFrame
import Kvdb.Io.Schema
import Kvdb.Io.Proof.Schema
import Kvdb.Io.Proof.SchemaObjects
import Kvdb.Components.Proof.Migration
import Kvdb.Io.Proof.CachifyDomain
import Kvdb.Io.Proof.CachifyPolicy
import Kvdb.Io.CachifyWrapper
import Kvdb.Io.Proof.CachifyFaults
import Kvdb.Io.Proof.CachifyCalls
import Kvdb.Io.Proof.CachifyRefines
import Kvdb.Io.Proof.CachifyInvalidation
import Kvdb.Io.CachifyStore
import Kvdb.Io.Proof.CachifyStore
import Kvdb.Components.Proof.ConnectionUrl
import Kvdb.Tasks.Proof.Partials
import Kvdb.Tasks.Proof.PartialsLocal
import Kvdb.Lib.Decimal
import Kvdb.Types.Proof.Url
import Kvdb.Tasks.Attributes
import Kvdb.Tasks.Proof.Attributes
import Kvdb.Tasks.Heartbeats
import Kvdb.Tasks.Proof.Heartbeats
import Kvdb.Lib.Regex
import Kvdb.Utils.Cron
import Kvdb.Utils.Proof.CronFields
import Kvdb.Utils.Proof.Cron
import Kvdb.Utils.Proof.CronText
import Kvdb.Components.Proof.Reestablish
import Kvdb.Lib.Ticket
import Kvdb.Tasks.Proof.Provenance
import Kvdb.Tasks.Proof.Exclusive
import Kvdb.Tasks.Proof.Progress
import Kvdb.Lib.Noninterference
import Kvdb.Tasks.Proof.Leases
import Kvdb.Tasks.Proof.Isolation
import Kvdb.Lib.Keyspace
import Kvdb.Tasks.Server
import Kvdb.Tasks.Proof.QueueKeys
import Kvdb.Tasks.Proof.Server
import Kvdb.Client
import Kvdb.Proof.Client
import Kvdb.Tasks.Broadcast
import Kvdb.Tasks.Proof.Broadcast
