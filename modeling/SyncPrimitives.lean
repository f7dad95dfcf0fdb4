import SyncPrimitives.RwLock.Wakeup
import SyncPrimitives.MutexV1.Wakeup
import SyncPrimitives.MutexV2.Wakeup
import SyncPrimitives.RingBuffer.Publication
import SyncPrimitives.Channel.Model
import SyncPrimitives.Channel.Phases
import SyncPrimitives.Channel.Handles
import SyncPrimitives.Channel.Buffer
import SyncPrimitives.Channel.HandOff
import SyncPrimitives.Channel.BackPressure
import SyncPrimitives.Channel.LastSender
import SyncPrimitives.Channel.Disconnection
import SyncPrimitives.Arc.Model
import SyncPrimitives.Arc.Overflow
import SyncPrimitives.Arc.Phases
import SyncPrimitives.Arc.Lifetime
import SyncPrimitives.Channel.LostReceiver
import SyncPrimitives.Concurrency.Guarded
import SyncPrimitives.Concurrency.OwnerWord
import SyncPrimitives.MutexV1.Exclusion
import SyncPrimitives.SpinLock.Model
import SyncPrimitives.SpinLock.Exclusion
import SyncPrimitives.MutexV2.Exclusion
import SyncPrimitives.Concurrency.Ids
import SyncPrimitives.MutexV2.ManyMutexes
import SyncPrimitives.Semaphore.Model
import SyncPrimitives.Semaphore.Permits
import SyncPrimitives.CondVar.Model
import SyncPrimitives.CondVar.Notification
import SyncPrimitives.Concurrency.Calls
import SyncPrimitives.RingBuffer.Queue
import SyncPrimitives.Channel.Refinement
import SyncPrimitives.RingBuffer.Ownership
import SyncPrimitives.MutexCalls.Owners
import SyncPrimitives.MutexV1.ManyMutexes
import SyncPrimitives.MutexV2.Calls
import SyncPrimitives.MutexCalls.Interchange
import SyncPrimitives.RwLock.Progress
import SyncPrimitives.RingBuffer.Contention
import SyncPrimitives.RingBuffer.Fifo
import SyncPrimitives.RingBuffer.Destruction
import SyncPrimitives.Concurrency.Moments
import SyncPrimitives.RingBuffer.Truthful
import SyncPrimitives.RwLock.ReaderLimit
import SyncPrimitives.RwLock.ManyLocks
import SyncPrimitives.RwLock.Preference
import SyncPrimitives.RwLock.Refusals
import SyncPrimitives.MutexV1.Waiters
import SyncPrimitives.MutexV2.Contention
import SyncPrimitives.Channel.DroppedReceiver
import SyncPrimitives.CondVar.NotifyOne
import SyncPrimitives.MutexV1.WaiterQueue
import SyncPrimitives.Semaphore.Conservation
import SyncPrimitives.Semaphore.Refusals
import SyncPrimitives.Arc.Uniqueness
import SyncPrimitives.Arc.IntoInner
import SyncPrimitives.Concurrency.HappensBefore
import SyncPrimitives.Concurrency.RaceFreedom
import SyncPrimitives.Concurrency.Polling
import SyncPrimitives.SpinLock.RaceFreedom
import SyncPrimitives.MutexV1.RaceFreedom
import SyncPrimitives.MutexV2.RaceFreedom
import SyncPrimitives.RwLock.Data
import SyncPrimitives.RwLock.RaceFreedom
import SyncPrimitives.MutexV1.Clients
import SyncPrimitives.CondVar.WithMutex
import SyncPrimitives.CondVar.MutexRefinement
import SyncPrimitives.Semaphore.Clients
import SyncPrimitives.Semaphore.RaceFreedom
import SyncPrimitives.Concurrency.Progress
import SyncPrimitives.Semaphore.Progress
import SyncPrimitives.MutexV2.Progress
import SyncPrimitives.Concurrency.Poisoning
import SyncPrimitives.MutexV1.Poisoning
import SyncPrimitives.MutexV2.Poisoning
import SyncPrimitives.RwLock.Poisoning
import SyncPrimitives.Channel.Delivery
import SyncPrimitives.RingBuffer.Orderings
