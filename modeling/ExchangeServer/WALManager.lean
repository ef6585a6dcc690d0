import ExchangeServer.Lib.ProducerQueue
import ExchangeServer.MatchingEngine

/-!
# The write-ahead log

`WALManager.hpp`.  Handlers append events from many threads; one thread takes them
in batches, writes their records to `wal.bin` and forwards the events to the
engine.  It does not look at what `fwrite` or `MatchingEngine::processOrder`
return.
-/

namespace ExchangeServer

open Lib

/-- A thread that handles requests. -/
abbrev ThreadId := ℕ

/-- `WALRecord`. -/
structure WALRecord where
  type : UInt8
  timestamp : UInt64
  orderId : UInt64
  tickerId : UInt32
  userId : UInt64
  side : UInt8
  price : UInt64
  quantity : UInt64
deriving DecidableEq, Repr

/-- The record of an event.  `now` is read for cancellations. -/
def WALRecord.ofEvent (now : UInt64) : EngineEvent → WALRecord
  | .newOrder order =>
      { type := 0
        timestamp := order.timestamp
        orderId := order.orderId
        tickerId := order.tickerId
        userId := order.userId
        side := match order.side with
          | .buy => 0
          | .sell => 1
        price := order.price
        quantity := order.quantity }
  | .cancelOrder tickerId cancelOrderId cancelUserId =>
      { type := 1
        timestamp := now
        orderId := cancelOrderId
        tickerId := tickerId
        userId := cancelUserId
        side := 0
        price := 0
        quantity := 0 }

/-- `WALManager`.  `buffer` holds the events of the current batch that are still to
be forwarded, `written` says whether the batch has been handed to `fwrite`, and
`walFile` is the content of `wal.bin`, if it could be opened. -/
structure WALManager where
  queue : ProducerQueue ThreadId EngineEvent
  buffer : List EngineEvent
  written : Bool
  walFile : Option (List WALRecord)

namespace WALManager

/-- `WALManager::WALManager`. -/
def new (walFile : Option (List WALRecord)) : WALManager := ⟨[], [], true, walFile⟩

/-- `WALManager::appendOrder`, called by `thread`. -/
def appendOrder (wal : WALManager) (thread : ThreadId) (order : Order) : WALManager :=
  { wal with queue := wal.queue.enqueue thread [.newOrder order] }

/-- `WALManager::appendCancel`, called by `thread`. -/
def appendCancel (wal : WALManager) (thread : ThreadId) (tickerId : UInt32)
    (orderId userId : UInt64) : WALManager :=
  { wal with queue := wal.queue.enqueue thread [.cancelOrder tickerId orderId userId] }

/-- `wait_dequeue_bulk_timed`, served from the threads `picks`. -/
def dequeue (wal : WALManager) (picks : List ThreadId) : Option WALManager :=
  if wal.buffer = [] ∧ picks.length ≤ batchSize then
    (ProducerQueue.dequeueBulk picks wal.queue).map fun out =>
      { wal with queue := out.2, buffer := out.1, written := false }
  else none

/-- Build the records of the batch and `fwrite` them; `count` of them are
written. -/
def write (wal : WALManager) (now : ℕ → UInt64) (count : ℕ) : Option WALManager :=
  if wal.written = false ∧ count ≤ wal.buffer.length then
    let records := wal.buffer.mapIdx fun i ev => WALRecord.ofEvent (now i) ev
    some { wal with written := true, walFile := wal.walFile.map (· ++ records.take count) }
  else none

theorem dequeue_eq_some {wal wal' : WALManager} {picks : List ThreadId}
    (h : wal.dequeue picks = some wal') :
    wal.buffer = [] ∧ ∃ batch queue,
      ProducerQueue.dequeueBulk picks wal.queue = some (batch, queue) ∧
      wal' = { wal with queue := queue, buffer := batch, written := false } := by
  obtain ⟨hidle, heq⟩ := Option.ite_none_right_eq_some.mp h
  obtain ⟨⟨batch, queue⟩, hdequeue, rfl⟩ := Option.map_eq_some_iff.mp heq
  exact ⟨hidle.1, batch, queue, hdequeue, rfl⟩

theorem write_eq_some {wal wal' : WALManager} {now : ℕ → UInt64} {count : ℕ}
    (h : wal.write now count = some wal') :
    (wal.written = false ∧ count ≤ wal.buffer.length) ∧
      wal' = { wal with
        written := true
        walFile := wal.walFile.map
          (· ++ (wal.buffer.mapIdx fun i ev => WALRecord.ofEvent (now i) ev).take count) } := by
  obtain ⟨hready, heq⟩ := Option.ite_none_right_eq_some.mp h
  exact ⟨hready, (Option.some.inj heq).symm⟩

/-- The second loop of an iteration, for one event: the engine's answer is
dropped. -/
def forward (engine : MatchingEngine) : EngineEvent → MatchingEngine × Bool
  | .newOrder order => engine.processOrder order
  | .cancelOrder tickerId cancelOrderId cancelUserId =>
      (engine.cancelOrder tickerId cancelOrderId cancelUserId, true)

end WALManager

end ExchangeServer
