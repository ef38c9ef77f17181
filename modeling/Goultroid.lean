import Goultroid.Lib.FinMap
import Goultroid.Lib.Heap
import Goultroid.Tasks.Types
import Goultroid.Admission.Controller
import Goultroid.Admission.Waiting
import Goultroid.Admission.Select
import Goultroid.Engine.Accounting
import Goultroid.Engine.Delivery
import Goultroid.Engine.State
import Goultroid.Engine.Settlement
import Goultroid.Engine.Dispatch
import Goultroid.Engine.Requests
import Goultroid.Engine.Micro
import Goultroid.Engine.Coherence
import Goultroid.Engine.SettlementSteps
import Goultroid.Engine.DispatchSteps
import Goultroid.Engine.RequestSteps
import Goultroid.Engine.Lifecycle
import Goultroid.Engine.QueueRegistry
import Goultroid.Engine.InFlight
import Goultroid.Engine.Exclusion
import Goultroid.Engine.Credits
import Goultroid.Engine.Resources
import Goultroid.Engine.Durability
import Goultroid.Engine.Assignments
import Goultroid.Engine.Workers
import Goultroid.Engine.SlotConservation
import Goultroid.Engine.Retention
import Goultroid.Engine.KeyOrder
import Goultroid.Engine.Callbacks
import Goultroid.Delivery.Lane
import Goultroid.Delivery.Drain
import Goultroid.Jobs.Schema
import Goultroid.Jobs.Store
import Goultroid.Jobs.Lives
import Goultroid.Jobs.Transitions
import Goultroid.Jobs.Protocol
import Goultroid.Jobs.Fencing
import Goultroid.Jobs.Manager
import Goultroid.Jobs.Drivers
import Goultroid.Jobs.Snapshots
import Goultroid.Jobs.Budget
import Goultroid.Jobs.Rejection
import Goultroid.Jobs.Recovery
import Goultroid.Jobs.Passes
import Goultroid.Jobs.Convergence
import Goultroid.Jobs.Agreement
import Goultroid.Jobs.Keys
import Goultroid.Jobs.Schedules
import Goultroid.Jobs.Slots
import Goultroid.Jobs.Pump
import Goultroid.Lib.Ledger
import Goultroid.Scheduler.Claims
import Goultroid.Jobs.Registrations
import Goultroid.Lib.Faults
import Goultroid.Scheduler.Registration
import Goultroid.Scheduler.Recovery
import Goultroid.Scheduler.Batches
import Goultroid.Lib.IndexedHeap
import Goultroid.Scheduler.Periodic
import Goultroid.Scheduler.Coordinator
import Goultroid.Scheduler.Ticks
import Goultroid.Idempotency.Manager
import Goultroid.Idempotency.Claims
import Goultroid.Interaction.Session
import Goultroid.Interaction.Runtime
import Goultroid.Lib.Index
import Goultroid.Interaction.Bookkeeping
import Goultroid.Interaction.Sections
import Goultroid.SavedResponse.Template
import Goultroid.Core.Html
import Goultroid.Telegram.Executor
import Goultroid.PmPermit.StatusLocks
import Goultroid.Telegram.Decisions
import Goultroid.Jobs.Intervals
import Goultroid.Jobs.Definitions
import Goultroid.Plugin.JobNames
import Goultroid.Scheduler.Identities
import Goultroid.Interaction.Tokens
import Goultroid.Scheduler.Phase
import Goultroid.Core.Events
import Goultroid.Lib.RingLog
import Goultroid.Telegram.Ingress
import Goultroid.PmRelay.ForceSub
import Goultroid.Inline.CacheKeys
