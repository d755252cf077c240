import Noddde.Async.Protocol
import Noddde.Data.JsonRoundTrip
import Noddde.Adapters.StateTables
import Noddde.Adapters.EventTables
import Noddde.Core.Aggregate
import Noddde.Engine.System
import Noddde.Engine.DeliverySample
import Noddde.Proofs.Outbox
import Noddde.Proofs.InFlight
import Noddde.Proofs.EventualViews
import Noddde.Proofs.StrongViews
import Noddde.Proofs.StreamOrder
import Noddde.Proofs.BusOrder
import Noddde.Proofs.SagaExecutor
import Noddde.Proofs.KeyIsolation
import Noddde.Proofs.Components
import Noddde.Proofs.Lifetime
import Noddde.Proofs.CompareAndSwap
import Noddde.Proofs.DrizzleRoundTrip
import Noddde.Proofs.EventStores
import Noddde.Proofs.Isolation
import Noddde.Proofs.Causation
import Noddde.Proofs.FanOut
import Noddde.Proofs.KafkaOffsets
import Noddde.Proofs.DeadLetters
import Noddde.Proofs.MaxRetries
import Noddde.Proofs.KafkaSubscriptions
import Noddde.Proofs.CloseIsFinal
import Noddde.Proofs.OneConnection
import Noddde.Proofs.AdvisoryLocks
import Noddde.Proofs.Timestamps
import Noddde.Proofs.FairMutex
import Noddde.Proofs.BusDelivery
import Noddde.Proofs.PoisonEntries
import Noddde.Proofs.Harnesses
import Noddde.Proofs.NatsNames
import Noddde.Proofs.NatsSubscriptions
import Noddde.Proofs.NameRouting
import Noddde.Proofs.CompletionHooks
import Noddde.Proofs.StrategyRouting
import Noddde.Proofs.CommandRouting
import Noddde.Proofs.OutboxMarking
import Noddde.Proofs.DrizzleSaves
import Noddde.Proofs.EventReaders
import Noddde.Proofs.UnitsOfWork
import Noddde.Proofs.LockTimeouts
import Noddde.Proofs.EventIdempotency
import Noddde.Proofs.ConnectAttempts
import Noddde.Proofs.LockNames
import Noddde.Proofs.UuidOrder
import Noddde.Proofs.CommitMutex
import Noddde.Proofs.LockersExclude
import Noddde.Proofs.Naming
import Noddde.Proofs.AddedCommands
import Noddde.Proofs.SavesUnderLock
import Noddde.Proofs.LocksReturned
import Noddde.Proofs.Interchange
import Noddde.Proofs.OwnLocks
import Noddde.Proofs.LateReleases
import Noddde.Proofs.ReadsApart
import Noddde.Proofs.OwnSnapshots
import Noddde.Proofs.HooksOnce
import Noddde.Proofs.RejectedCommands
import Noddde.Proofs.AppendsOnce
import Noddde.Proofs.NullStates
