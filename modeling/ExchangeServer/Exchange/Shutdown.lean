import ExchangeServer.Exchange.Receipts
import ExchangeServer.LogReplay

/-!
# Shutdown

The three stages stop one after the other: `~WALManager`, then the destructor of every
`OrderBookProcessor`, then `~SettlementProcessor`.  A destructor clears `running_` and
joins the thread of its stage, and the thread notices at the head of its loop.  The flag
may be cleared anywhere in the loop, so `Loops` keeps where each thread is.

The log thread and the workers test nothing but `running_`, and what is in their queues
when they leave the loop stays there (`shutdown_drops_order`).  The settlement thread also
tests its queues.  `orderly_shutdown_loses_nothing` says what that comes to: nothing is
lost if the queue of the log and the queue of every worker are empty when their
destructors are called, and every `fwrite` is complete.
-/

namespace ExchangeServer

open Lib

/-- A guarded step. -/
theorem of_guard {α : Type*} {c : Prop} [Decidable c] {x y : α}
    (h : (if c then some x else none) = some y) : c ∧ y = x := by
  obtain ⟨hc, heq⟩ := Option.ite_none_right_eq_some.mp h
  exact ⟨hc, (Option.some.inj heq).symm⟩

/-! ## The loops -/

/-- Where a thread is in its loop. -/
inductive LoopPos where
  /-- At the condition of the loop. -/
  | head
  /-- The condition held, and nothing has been taken from the queue yet. -/
  | entered
  /-- In the rest of the body. -/
  | body
  /-- The loop has been left. -/
  | stopped
deriving DecidableEq, Repr

/-- A thread with its flag `running_`. -/
structure Loop where
  running : Bool
  pos : LoopPos
deriving DecidableEq, Repr

namespace Loop

/-- As started by the constructor. -/
def new : Loop := ⟨true, .head⟩

/-- The condition of the loop is evaluated. -/
def test (l : Loop) (condition : Bool) : Option Loop :=
  if l.pos = .head then some { l with pos := if condition then .entered else .stopped } else none

theorem condition_of_stopped {condition : Bool}
    (h : (if condition then LoopPos.entered else LoopPos.stopped) = .stopped) :
    condition = false := by
  cases condition with
  | false => rfl
  | true => cases h

/-- The queue is asked for a batch. -/
def take (l : Loop) : Option Loop :=
  if l.pos = .entered then some { l with pos := .body } else none

/-- The body is done. -/
def back (l : Loop) (finished : Bool) : Option Loop :=
  if l.pos = .body ∧ finished = true then some { l with pos := .head } else none

/-- The destructor clears the flag. -/
def clear (l : Loop) : Option Loop :=
  if l.running then some { l with running := false } else none

end Loop

/-- The threads of the three stages. -/
structure Loops where
  wal : Loop
  worker : UInt32 → Loop
  settlement : Loop

namespace Loops

def new : Loops := ⟨Loop.new, fun _ => Loop.new, Loop.new⟩

def setWorker (l : Loops) (t : UInt32) (w : Loop) : Loops :=
  { l with worker := Function.update l.worker t w }

/-- An action of the server is taken by a thread that is there.  Handlers use the log only
while it is not being destroyed. -/
def perform (l : Loops) : Action → Option Loops
  | .createUserAccount _ _ => some l
  | .trade _ _ _ _ _ => if l.wal.running then some l else none
  | .appendOrder _ => if l.wal.running then some l else none
  | .cancel _ _ _ => if l.wal.running then some l else none
  | .deposit _ _ _ _ => some l
  | .addBalance _ => some l
  | .logDequeue _ => l.wal.take.map fun w => { l with wal := w }
  | .logWrite _ _ => if l.wal.pos = .body then some l else none
  | .logForward => if l.wal.pos = .body then some l else none
  | .workerDequeue t _ => (l.worker t).take.map (l.setWorker t)
  | .workerProcess t _ _ => if (l.worker t).pos = .body then some l else none
  | .workerPush t => if (l.worker t).pos = .body then some l else none
  | .settleDequeue _ => l.settlement.take.map fun w => { l with settlement := w }
  | .settleStart => if l.settlement.pos = .body then some l else none
  | .settleCall _ => if l.settlement.pos = .body then some l else none
  | .commitBuy => if l.settlement.pos = .body then some l else none
  | .commitSell => if l.settlement.pos = .body then some l else none
  | .cancelDequeue _ => if l.settlement.pos = .body then some l else none
  | .cancelRelease => if l.settlement.pos = .body then some l else none

end Loops

/-! ## The server and its destructors -/

/-- The server with the loops of its threads. -/
structure Shutdown where
  exchange : Exchange
  loops : Loops

/-- What can happen. -/
inductive ShutdownAction where
  | act (a : Action)
  | walTest
  | walBack
  /-- `~WALManager` begins; it returns when the log thread has stopped. -/
  | walDestroy
  | workerTest (t : UInt32)
  | workerBack (t : UInt32)
  /-- `~OrderBookProcessor` of a ticker begins. -/
  | workerDestroy (t : UInt32)
  | settleTest
  | settleBack
  /-- `~SettlementProcessor` begins. -/
  | settleDestroy

namespace Shutdown

/-- The server as `main` starts it. -/
def start (users : UserManager) (tickers : TickerManager) (db : Database)
    (walFile : Option (List WALRecord)) : Shutdown :=
  ⟨Exchange.start users tickers db walFile, Loops.new⟩

/-- The batch of the worker is done. -/
def workerDone (s : Exchange) (t : UInt32) : Bool :=
  (s.engine.orderBooks.lookup t).all fun p => p.buffer = [] ∧ p.results = []

/-- The workers of all books have stopped. -/
def workersStopped (x : Shutdown) : Bool :=
  x.exchange.engine.orderBooks.entries.all fun e => (x.loops.worker e.1).pos = .stopped

/-- **One step of some thread or destructor.** -/
def step (x : Shutdown) : ShutdownAction → Option Shutdown
  | .act a => (x.exchange.step a).bind fun s => (x.loops.perform a).map fun l => ⟨s, l⟩
  | .walTest =>
      (x.loops.wal.test x.loops.wal.running).map fun w => { x with loops := { x.loops with wal := w } }
  | .walBack =>
      (x.loops.wal.back (x.exchange.wal.buffer = [])).map fun w =>
        { x with loops := { x.loops with wal := w } }
  | .walDestroy => x.loops.wal.clear.map fun w => { x with loops := { x.loops with wal := w } }
  | .workerTest t =>
      ((x.loops.worker t).test (x.loops.worker t).running).map fun w =>
        { x with loops := x.loops.setWorker t w }
  | .workerBack t =>
      ((x.loops.worker t).back (workerDone x.exchange t)).map fun w =>
        { x with loops := x.loops.setWorker t w }
  | .workerDestroy t =>
      if x.loops.wal.pos = .stopped then
        (x.loops.worker t).clear.map fun w => { x with loops := x.loops.setWorker t w }
      else none
  | .settleTest =>
      (x.loops.settlement.test (x.loops.settlement.running
        || 0 < x.exchange.settlement.queue.length
        || 0 < x.exchange.settlement.cancelQueue.length)).map fun w =>
          { x with loops := { x.loops with settlement := w } }
  | .settleBack =>
      (x.loops.settlement.back
        (x.exchange.settlement.Idle ∧ x.exchange.settlement.cancelsNext = false)).map fun w =>
          { x with loops := { x.loops with settlement := w } }
  | .settleDestroy =>
      if x.workersStopped then
        x.loops.settlement.clear.map fun w => { x with loops := { x.loops with settlement := w } }
      else none

/-- All destructors have returned. -/
def Returned (x : Shutdown) (ids : List UInt32) : Prop :=
  x.loops.wal.pos = .stopped ∧ (∀ t ∈ ids, (x.loops.worker t).pos = .stopped) ∧
    x.loops.settlement.pos = .stopped

-- Named, so that `decide` walks through the list and not through all tickers there are.
instance (x : Shutdown) (ids : List UInt32) : Decidable (x.Returned ids) :=
  haveI := List.decidableBAll (fun t => (x.loops.worker t).pos = .stopped) ids
  instDecidableAnd

/-- When a destructor of the log or of a worker is called, the queue of its stage is
empty, and `fwrite` writes all records of a batch. -/
def Prompt (x : Shutdown) : ShutdownAction → Prop
  | .act (.logWrite _ count) =>
      x.exchange.wal.walFile.isSome ∧ count = x.exchange.wal.buffer.length
  | .walDestroy => x.exchange.wal.queue = []
  | .workerDestroy t => (x.exchange.engine.orderBooks.lookup t).all fun p => p.queue = []
  | _ => True

instance (x : Shutdown) (a : ShutdownAction) : Decidable (x.Prompt a) :=
  decidable_of_bool
    (match a with
      | .act (.logWrite _ count) =>
          x.exchange.wal.walFile.isSome && count == x.exchange.wal.buffer.length
      | .walDestroy => x.exchange.wal.queue.isEmpty
      | .workerDestroy t => (x.exchange.engine.orderBooks.lookup t).all fun p => p.queue = []
      | _ => true)
    (by unfold Prompt; split <;> simp)

/-! ## Stopping the log and the workers -/

/-- What the positions of the log thread and of the workers say about their queues and
batches. -/
structure Draining (l : Loops) (x : Pipeline) : Prop where
  queue : l.wal.running = false → x.wal.queue = []
  batch : l.wal.pos ≠ .body → x.wal.buffer = []
  stopped : l.wal.pos = .stopped → l.wal.running = false
  workerQueue : ∀ t p, x.engine.orderBooks.lookup t = some p →
    (l.worker t).running = false → p.queue = []
  workerBatch : ∀ t p, x.engine.orderBooks.lookup t = some p →
    (l.worker t).pos ≠ .body → p.buffer = [] ∧ p.results = []
  workerStopped : ∀ t, (l.worker t).pos = .stopped → (l.worker t).running = false
  /-- The destructors of the workers are called after that of the log. -/
  afterLog : ∀ t, (l.worker t).running = false → l.wal.pos = .stopped

variable {l l' : Loops} {x x' : Pipeline} {σ : Signal}

/-- What a signal of the pipeline says about the thread it comes from. -/
def Moves (l : Loops) (l' : Loops) : Signal → Prop
  | .append _ _ => l.wal.running = true ∧ l'.wal = l.wal ∧ l'.worker = l.worker
  | .dequeue _ =>
      l.wal.pos = .entered ∧ l'.wal = { l.wal with pos := .body } ∧ l'.worker = l.worker
  | .write _ => l.wal.pos = .body ∧ l'.wal = l.wal ∧ l'.worker = l.worker
  | .forward _ => l.wal.pos = .body ∧ l'.wal = l.wal ∧ l'.worker = l.worker
  | .take t _ => (l.worker t).pos = .entered ∧ l'.wal = l.wal ∧
      l'.worker = Function.update l.worker t { l.worker t with pos := .body }
  | .process t _ _ _ => (l.worker t).pos = .body ∧ l'.wal = l.wal ∧ l'.worker = l.worker
  | .push t => (l.worker t).pos = .body ∧ l'.wal = l.wal ∧ l'.worker = l.worker

namespace Draining

/-- A step that does not touch the log or the workers. -/
theorem congr (h : Draining l x) (hwal : l'.wal = l.wal) (hworker : l'.worker = l.worker) :
    Draining l' x := by
  refine ⟨?_, ?_, ?_, ?_, ?_, ?_, ?_⟩
  · rw [hwal]
    exact h.queue
  · rw [hwal]
    exact h.batch
  · rw [hwal]
    exact h.stopped
  · rw [hworker]
    exact h.workerQueue
  · rw [hworker]
    exact h.workerBatch
  · rw [hworker]
    exact h.workerStopped
  · rw [hwal, hworker]
    exact h.afterLog

/-- While the log thread is in its loop, no worker is being destroyed. -/
theorem worker_running (h : Draining l x) (hpos : l.wal.pos ≠ .stopped) (t : UInt32) :
    (l.worker t).running = true := by
  by_contra hrunning
  exact hpos (h.afterLog t (Bool.not_eq_true _ ▸ hrunning))

/-- The log thread moves in its loop. -/
theorem setWal (h : Draining l x) {w : Loop} (hqueue : w.running = false → x.wal.queue = [])
    (hbatch : w.pos ≠ .body → x.wal.buffer = [])
    (hstopped : w.pos = .stopped → w.running = false)
    (hafter : l.wal.pos = .stopped → w.pos = .stopped) : Draining { l with wal := w } x :=
  ⟨hqueue, hbatch, hstopped, h.workerQueue, h.workerBatch, h.workerStopped,
    fun t ht => hafter (h.afterLog t ht)⟩

/-- A worker moves in its loop. -/
theorem setWorker (h : Draining l x) {t : UInt32} {w : Loop}
    (hqueue : w.running = false → ∀ p, x.engine.orderBooks.lookup t = some p → p.queue = [])
    (hbatch : w.pos ≠ .body → ∀ p, x.engine.orderBooks.lookup t = some p →
      p.buffer = [] ∧ p.results = [])
    (hstopped : w.pos = .stopped → w.running = false)
    (hafter : w.running = false → l.wal.pos = .stopped) : Draining (l.setWorker t w) x := by
  have hcases : ∀ {P : UInt32 → Loop → Prop}, P t w → (∀ u, P u (l.worker u)) →
      ∀ u, P u ((l.setWorker t w).worker u) := by
    intro P hw hothers u
    show P u (Function.update l.worker t w u)
    by_cases hu : u = t
    · subst hu
      rw [Function.update_self]
      exact hw
    · rw [Function.update_of_ne hu]
      exact hothers u
  refine ⟨h.queue, h.batch, h.stopped, ?_, ?_, ?_, ?_⟩
  · exact hcases (P := fun u w => ∀ p, x.engine.orderBooks.lookup u = some p →
      w.running = false → p.queue = []) (fun p hp hw => hqueue hw p hp) h.workerQueue
  · exact hcases (P := fun u w => ∀ p, x.engine.orderBooks.lookup u = some p →
      w.pos ≠ .body → p.buffer = [] ∧ p.results = []) (fun p hp hw => hbatch hw p hp) h.workerBatch
  · exact hcases (P := fun _ w => w.pos = .stopped → w.running = false) hstopped h.workerStopped
  · exact hcases (P := fun _ w => w.running = false → l.wal.pos = .stopped) hafter h.afterLog

/-- A worker changes its queue and its batch while it is in the body of its loop. -/
theorem of_insert (h : Draining l x) {t : UInt32} {p' : OrderBookProcessor}
    (hpos : (l.worker t).pos = .body) (hqueue : (l.worker t).running = false → p'.queue = []) :
    Draining l { x with engine := ⟨x.engine.orderBooks.insert t p'⟩ } := by
  refine ⟨h.queue, h.batch, h.stopped, ?_, ?_, h.workerStopped, h.afterLog⟩
  · exact UnorderedMap.forall_lookup_insert hqueue fun u p _ hp => h.workerQueue u p hp
  · exact UnorderedMap.forall_lookup_insert (fun hne => absurd hpos hne)
      fun u p _ hp => h.workerBatch u p hp

/-- **A step of the pipeline keeps what the positions say.** -/
theorem step (h : Draining l x) (hmove : x.Step σ x') (hl : Moves l l' σ) : Draining l' x' := by
  cases hmove with
  | append thread ev =>
      obtain ⟨hrunning, hwal, hworker⟩ := hl
      refine congr ⟨fun hstopping => ?_, h.batch, h.stopped, h.workerQueue, h.workerBatch,
        h.workerStopped, h.afterLog⟩ hwal hworker
      rw [hrunning] at hstopping
      cases hstopping
  | dequeue picks batch queue idle hbulk =>
      obtain ⟨hpos, hwal, hworker⟩ := hl
      -- What is taken from an empty queue leaves it empty.
      have hqueue : l.wal.running = false → queue = [] := by
        intro hstopping
        rw [h.queue hstopping] at hbulk
        exact (ProducerQueue.dequeueBulk_nil hbulk).2
      have hbody : Draining { l with wal := { l.wal with pos := .body } }
          { x with wal := { x.wal with queue := queue, buffer := batch, written := false } } := by
        refine ⟨hqueue, fun hne => absurd rfl hne, fun hstopped => ?_, h.workerQueue,
          h.workerBatch, h.workerStopped, fun t ht => ?_⟩
        · cases hstopped
        · have hstopped := h.afterLog t ht
          rw [hpos] at hstopped
          cases hstopped
      exact hbody.congr hwal hworker
  | write now count unwritten hle =>
      obtain ⟨-, hwal, hworker⟩ := hl
      exact congr ⟨h.queue, h.batch, h.stopped, h.workerQueue, h.workerBatch, h.workerStopped,
        h.afterLog⟩ hwal hworker
  | forward ev rest written hbuffer =>
      obtain ⟨hpos, hwal, hworker⟩ := hl
      -- No worker is asked to stop before the thread of the log has returned.
      have hrunning := h.worker_running (by rw [hpos]; decide)
      refine congr ⟨h.queue, fun hne => absurd hpos hne, h.stopped, fun t p hp hstopping => ?_,
        fun t p hp => ?_, h.workerStopped, h.afterLog⟩ hwal hworker
      · rw [hrunning t] at hstopping
        cases hstopping
      · change (WALManager.forward x.engine ev).1.orderBooks.lookup t = some p at hp
        rw [WALManager.forward_lookup] at hp
        obtain ⟨p₀, hp₀, rfl⟩ := Option.map_eq_some_iff.mp hp
        split_ifs
        · exact h.workerBatch t p₀ hp₀
        · exact h.workerBatch t p₀ hp₀
  | take t count p worker idle pushed =>
      obtain ⟨hpos, hwal, hworker⟩ := hl
      have hbody : Draining (l.setWorker t { l.worker t with pos := .body }) x :=
        h.setWorker (fun hw p hp => h.workerQueue t p hp hw) (fun hne => absurd rfl hne)
          (fun hstopped => by cases hstopped) (h.afterLog t)
      have hself : (l.setWorker t { l.worker t with pos := .body }).worker t
          = { l.worker t with pos := .body } := Function.update_self ..
      refine (hbody.of_insert (by rw [hself]) fun hstopping => ?_).congr hwal hworker
      rw [hself] at hstopping
      show p.queue.drop count = []
      rw [h.workerQueue t p worker hstopping, List.drop_nil]
  | process t p ev rest clock now out worker hbuffer hout =>
      obtain ⟨hpos, hwal, hworker⟩ := hl
      have hqueue : out.1.queue = p.queue := by
        rw [← hout]
        cases ev <;> rfl
      refine (h.of_insert hpos fun hstopping => ?_).congr hwal hworker
      rw [hqueue, h.workerQueue t p worker hstopping]
  | push t p worker hbuffer =>
      obtain ⟨hpos, hwal, hworker⟩ := hl
      refine congr (of_insert h hpos fun hstopping => ?_) hwal hworker
      exact h.workerQueue t p worker hstopping

end Draining

variable {s s' : Exchange} {a : Action}

/-- Actions that take a batch. -/
def takes : Action → Bool
  | .logDequeue _ | .workerDequeue _ _ | .settleDequeue _ => true
  | _ => false

/-- An action that takes no batch moves no thread in its loop. -/
theorem perform_stays (ha : takes a = false) (hperform : l.perform a = some l') : l' = l := by
  cases a with
  | logDequeue | workerDequeue | settleDequeue => cases ha
  | createUserAccount | deposit | addBalance => exact (Option.some.inj hperform).symm
  | _ => exact (of_guard hperform).2

/-- The thread that an action of the pipeline is taken by. -/
theorem moves_of_perform (hσ : s.signal a = some σ) (hperform : l.perform a = some l') :
    Moves l l' σ := by
  obtain ⟨b, hb, hσ⟩ := Option.bind_eq_some_iff.mp hσ
  cases a with
  | appendOrder thread =>
      obtain ⟨out, -, rfl⟩ := Option.map_eq_some_iff.mp hb
      obtain rfl := Option.some.inj hσ
      obtain ⟨hrunning, rfl⟩ := of_guard hperform
      exact ⟨hrunning, rfl, rfl⟩
  | cancel thread session req =>
      obtain ⟨-, heq⟩ := Option.ite_none_right_eq_some.mp hb
      obtain rfl := Option.some.inj heq
      obtain rfl := Option.some.inj hσ
      obtain ⟨hrunning, rfl⟩ := of_guard hperform
      exact ⟨hrunning, rfl, rfl⟩
  | logDequeue picks =>
      obtain rfl := Option.some.inj hb
      obtain rfl := Option.some.inj hσ
      obtain ⟨w, hw, rfl⟩ := Option.map_eq_some_iff.mp hperform
      obtain ⟨hpos, rfl⟩ := of_guard hw
      exact ⟨hpos, rfl, rfl⟩
  | logWrite now count =>
      obtain rfl := Option.some.inj hb
      obtain rfl := Option.some.inj hσ
      obtain ⟨hpos, rfl⟩ := of_guard hperform
      exact ⟨hpos, rfl, rfl⟩
  | logForward =>
      obtain rfl := Option.some.inj hb
      obtain ⟨ev, -, rfl⟩ := Option.map_eq_some_iff.mp hσ
      obtain ⟨hpos, rfl⟩ := of_guard hperform
      exact ⟨hpos, rfl, rfl⟩
  | workerDequeue t count =>
      obtain rfl := Option.some.inj hb
      obtain rfl := Option.some.inj hσ
      obtain ⟨w, hw, rfl⟩ := Option.map_eq_some_iff.mp hperform
      obtain ⟨hpos, rfl⟩ := of_guard hw
      exact ⟨hpos, rfl, rfl⟩
  | workerProcess t clock now =>
      obtain rfl := Option.some.inj hb
      obtain ⟨p, -, hσ⟩ := Option.bind_eq_some_iff.mp hσ
      obtain ⟨ev, -, hσ⟩ := Option.bind_eq_some_iff.mp hσ
      obtain ⟨out, -, rfl⟩ := Option.map_eq_some_iff.mp hσ
      obtain ⟨hpos, rfl⟩ := of_guard hperform
      exact ⟨hpos, rfl, rfl⟩
  | workerPush t =>
      obtain rfl := Option.some.inj hb
      obtain rfl := Option.some.inj hσ
      obtain ⟨hpos, rfl⟩ := of_guard hperform
      exact ⟨hpos, rfl, rfl⟩
  | _ => cases hb

/-- An action that is none of the pipeline's. -/
theorem perform_of_signal_none (hσ : s.signal a = none) (hperform : l.perform a = some l') :
    l'.wal = l.wal ∧ l'.worker = l.worker := by
  cases a with
  | logDequeue | workerDequeue => cases hσ
  | settleDequeue picks =>
      obtain ⟨w, -, rfl⟩ := Option.map_eq_some_iff.mp hperform
      exact ⟨rfl, rfl⟩
  | _ =>
      obtain rfl := perform_stays rfl hperform
      exact ⟨rfl, rfl⟩

theorem Draining.act (h : Draining l s.pipeline) (hstep : s.step a = some s')
    (hperform : l.perform a = some l') : Draining l' s'.pipeline := by
  rcases Exchange.step_signal hstep with ⟨hσ, hsame⟩ | ⟨σ, hσ, hmove⟩
  · obtain ⟨hwal, hworker⟩ := perform_of_signal_none hσ hperform
    rw [hsame]
    exact h.congr hwal hworker
  · exact h.step hmove (moves_of_perform hσ hperform)

/-! ## Stopping settlement -/

/-- What the position of the settlement thread says about its queues and batches. -/
structure Closing (l : Loops) (s : Exchange) : Prop where
  batch : l.settlement.pos ≠ .body →
    s.settlement.Idle ∧ s.settlement.cancelsNext = false
  stopped : l.settlement.pos = .stopped →
    l.settlement.running = false ∧ s.settlement.queue = [] ∧ s.settlement.cancelQueue = []
  /-- The destructor of settlement is called after those of the workers. -/
  afterWorkers : l.settlement.running = false →
    ∀ t, (s.engine.orderBooks.lookup t).isSome → (l.worker t).pos = .stopped

/-- Actions of the handlers and of the log thread, and a worker that takes a batch. -/
def front : Action → Bool
  | .createUserAccount _ _ | .trade _ _ _ _ _ | .appendOrder _ | .cancel _ _ _
  | .deposit _ _ _ _ | .addBalance _ | .logDequeue _ | .logWrite _ _ | .logForward
  | .workerDequeue _ _ => true
  | _ => false

theorem settlement_of_front (ha : front a = true) (hstep : s.step a = some s') :
    s'.settlement = s.settlement := by
  cases Exchange.step_spec hstep with
  | workerProcess | workerPush => cases ha
  | settleDequeue | settleStart | settleCall | commitBuy | commitSell => cases ha
  | cancelDequeue | cancelRelease => cases ha
  | _ => rfl

/-- An action that is none of the pipeline's leaves the workers alone. -/
theorem engine_of_signal_none (hσ : s.signal a = none) (hstep : s.step a = some s') :
    s'.engine = s.engine := by
  rcases Exchange.step_signal hstep with ⟨-, hsame⟩ | ⟨σ, hσ', -⟩
  · exact congrArg Pipeline.engine hsame
  · rw [hσ] at hσ'
    cases hσ'

namespace Closing

/-- A step that does not touch settlement. -/
theorem congr (h : Closing l s) (hsettlement : s'.settlement = s.settlement)
    (hbooks : ∀ t, (s'.engine.orderBooks.lookup t).isSome
      = (s.engine.orderBooks.lookup t).isSome)
    (hloop : l'.settlement = l.settlement)
    (hworker : ∀ t, (s.engine.orderBooks.lookup t).isSome → (l.worker t).pos = .stopped →
      (l'.worker t).pos = .stopped) :
    Closing l' s' := by
  refine ⟨?_, ?_, fun hrunning t ht => ?_⟩
  · rw [hsettlement, hloop]
    exact h.batch
  · rw [hsettlement, hloop]
    exact h.stopped
  · rw [hbooks] at ht
    rw [hloop] at hrunning
    exact hworker t ht (h.afterWorkers hrunning t ht)

/-- A step of the settlement thread in the body of its loop. -/
theorem of_body (h : Closing l s) (hengine : s'.engine = s.engine)
    (hrunning : l'.settlement.running = l.settlement.running) (hworker : l'.worker = l.worker)
    (hpos : l'.settlement.pos = .body) : Closing l' s' := by
  refine ⟨fun hne => absurd hpos hne, fun hstopped => ?_, ?_⟩
  · rw [hpos] at hstopped
    cases hstopped
  · rw [hrunning, hengine, hworker]
    exact h.afterWorkers

/-- While a worker is in its loop, settlement is not being destroyed. -/
theorem running (h : Closing l s) {t : UInt32} (ht : (s.engine.orderBooks.lookup t).isSome)
    (hpos : (l.worker t).pos ≠ .stopped) : l.settlement.running = true := by
  by_contra hrunning
  exact hpos (h.afterWorkers (Bool.not_eq_true _ ▸ hrunning) t ht)

/-- A worker pushes records. -/
theorem of_push (h : Closing l s) {t : UInt32} (ht : (s.engine.orderBooks.lookup t).isSome)
    (hpos : (l.worker t).pos = .body)
    (hsettlement : s.settlement.Idle ∧ s.settlement.cancelsNext = false →
      s'.settlement.Idle ∧ s'.settlement.cancelsNext = false) : Closing l s' := by
  have hrunning := h.running ht (by rw [hpos]; decide)
  refine ⟨fun hne => hsettlement (h.batch hne), fun hstopped => ?_, fun hstopping => ?_⟩
  · have hstopping := (h.stopped hstopped).1
    rw [hrunning] at hstopping
    cases hstopping
  · rw [hrunning] at hstopping
    cases hstopping

theorem act (h : Closing l s) (hstep : s.step a = some s')
    (hperform : l.perform a = some l') : Closing l' s' := by
  have hbooks : ∀ t, (s'.engine.orderBooks.lookup t).isSome
      = (s.engine.orderBooks.lookup t).isSome := by
    intro t
    rcases Exchange.step_signal hstep with ⟨-, hsame⟩ | ⟨σ, -, hmove⟩
    · exact congrArg (fun x : Pipeline => (x.engine.orderBooks.lookup t).isSome) hsame
    · exact hmove.isSome_lookup t
  have hfront : front a = true → l'.settlement = l.settlement →
      (∀ t, (s.engine.orderBooks.lookup t).isSome → (l.worker t).pos = .stopped →
        (l'.worker t).pos = .stopped) → Closing l' s' := fun ha hloop hworker =>
    h.congr (settlement_of_front ha hstep) hbooks hloop hworker
  cases a with
  | createUserAccount | trade | appendOrder | cancel | deposit | addBalance | logWrite
  | logForward =>
      obtain rfl := perform_stays rfl hperform
      exact hfront rfl rfl fun _ _ ht => ht
  | logDequeue picks =>
      obtain ⟨w, -, rfl⟩ := Option.map_eq_some_iff.mp hperform
      exact hfront rfl rfl fun _ _ ht => ht
  | workerDequeue t count =>
      obtain ⟨w, hw, rfl⟩ := Option.map_eq_some_iff.mp hperform
      obtain ⟨hpos, -⟩ := Option.ite_none_right_eq_some.mp hw
      refine hfront rfl rfl fun u _ hstopped => ?_
      -- The worker that takes a batch has not stopped.
      have hu : u ≠ t := by
        rintro rfl
        rw [hpos] at hstopped
        cases hstopped
      show (Function.update l.worker t w u).pos = _
      rw [Function.update_of_ne hu]
      exact hstopped
  | workerProcess t clock now =>
      obtain ⟨hpos, rfl⟩ := of_guard hperform
      cases Exchange.step_spec hstep with
      | workerProcess _ _ _ p out hp hout =>
          refine h.of_push (by rw [hp]; rfl) hpos fun hidle => ?_
          rw [Exchange.pushCancelRecord_elim]
          exact hidle
  | workerPush t =>
      obtain ⟨hpos, rfl⟩ := of_guard hperform
      cases Exchange.step_spec hstep with
      | workerPush _ p out hp hout =>
          exact h.of_push (by rw [hp]; rfl) hpos fun hidle => hidle
  | settleDequeue picks =>
      obtain ⟨w, hw, rfl⟩ := Option.map_eq_some_iff.mp hperform
      obtain ⟨-, rfl⟩ := of_guard hw
      exact h.of_body (engine_of_signal_none rfl hstep) rfl rfl rfl
  | _ =>
      obtain ⟨hpos, rfl⟩ := of_guard hperform
      exact h.of_body (engine_of_signal_none rfl hstep) rfl rfl hpos

end Closing

/-! ## Whole runs -/

/-- What the positions of all threads say. -/
structure Orderly (x : Shutdown) : Prop where
  draining : Draining x.loops x.exchange.pipeline
  closing : Closing x.loops x.exchange

namespace Orderly

theorem start (users : UserManager) (tickers : TickerManager) (db : Database)
    (walFile : Option (List WALRecord)) : Orderly (Shutdown.start users tickers db walFile) := by
  have hnew : ∀ t p, (Exchange.start users tickers db walFile).engine.orderBooks.lookup t = some p →
      p = OrderBookProcessor.new t := by
    intro t p hp
    rw [Exchange.lookup_start] at hp
    split_ifs at hp
    exact (Option.some.inj hp).symm
  refine ⟨⟨fun _ => rfl, fun _ => rfl, fun h => ?_, fun t p hp _ => ?_, fun t p hp _ => ?_,
    fun t h => ?_, fun t h => ?_⟩, ⟨fun _ => ⟨⟨rfl, rfl, rfl⟩, rfl⟩, fun h => ?_, fun h => ?_⟩⟩
  · cases h
  · rw [hnew t p hp]
    rfl
  · rw [hnew t p hp]
    exact ⟨rfl, rfl⟩
  · cases h
  · cases h
  · cases h
  · cases h

variable {x x' : Shutdown} {b : ShutdownAction}

/-- Moves of the log thread's loop. -/
theorem setWal (h : Orderly x) {w : Loop}
    (hqueue : w.running = false → x.exchange.wal.queue = [])
    (hbatch : w.pos ≠ .body → x.exchange.wal.buffer = [])
    (hstopped : w.pos = .stopped → w.running = false)
    (hafter : x.loops.wal.pos = .stopped → w.pos = .stopped) :
    Orderly { x with loops := { x.loops with wal := w } } :=
  ⟨h.draining.setWal hqueue hbatch hstopped hafter,
    h.closing.congr rfl (fun _ => rfl) rfl fun _ _ ht => ht⟩

/-- Moves of a worker's loop. -/
theorem setWorker (h : Orderly x) {t : UInt32} {w : Loop}
    (hqueue : w.running = false →
      ∀ p, x.exchange.engine.orderBooks.lookup t = some p → p.queue = [])
    (hbatch : w.pos ≠ .body → ∀ p, x.exchange.engine.orderBooks.lookup t = some p →
      p.buffer = [] ∧ p.results = [])
    (hstopped : w.pos = .stopped → w.running = false)
    (hafter : w.running = false → x.loops.wal.pos = .stopped)
    (hkeep : (x.loops.worker t).pos = .stopped → w.pos = .stopped) :
    Orderly { x with loops := x.loops.setWorker t w } := by
  refine ⟨h.draining.setWorker hqueue hbatch hstopped hafter,
    h.closing.congr rfl (fun _ => rfl) rfl fun u _ hu => ?_⟩
  show (Function.update x.loops.worker t w u).pos = _
  by_cases heq : u = t
  · subst heq
    rw [Function.update_self]
    exact hkeep hu
  · rw [Function.update_of_ne heq]
    exact hu

/-- Moves of the settlement thread's loop. -/
theorem setSettlement (h : Orderly x) {w : Loop}
    (hbatch : w.pos ≠ .body →
      x.exchange.settlement.Idle ∧ x.exchange.settlement.cancelsNext = false)
    (hstopped : w.pos = .stopped → w.running = false ∧ x.exchange.settlement.queue = [] ∧
      x.exchange.settlement.cancelQueue = [])
    (hafter : w.running = false →
      ∀ t, (x.exchange.engine.orderBooks.lookup t).isSome → (x.loops.worker t).pos = .stopped) :
    Orderly { x with loops := { x.loops with settlement := w } } :=
  ⟨h.draining.congr rfl rfl, ⟨hbatch, hstopped, hafter⟩⟩

/-- **A step keeps what the positions say**, if destructors are called on empty queues. -/
theorem step (h : Orderly x) (hprompt : x.Prompt b) (hstep : x.step b = some x') :
    Orderly x' := by
  cases b with
  | act a =>
      obtain ⟨s, hs, hstep⟩ := Option.bind_eq_some_iff.mp hstep
      obtain ⟨l, hl, rfl⟩ := Option.map_eq_some_iff.mp hstep
      exact ⟨h.draining.act hs hl, h.closing.act hs hl⟩
  | walTest =>
      obtain ⟨w, hw, rfl⟩ := Option.map_eq_some_iff.mp hstep
      obtain ⟨hpos, rfl⟩ := of_guard hw
      refine h.setWal h.draining.queue (fun _ => h.draining.batch (by rw [hpos]; decide))
        (fun hstopped => ?_) (fun hstopped => ?_)
      · exact Loop.condition_of_stopped hstopped
      · rw [hpos] at hstopped
        cases hstopped
  | walBack =>
      obtain ⟨w, hw, rfl⟩ := Option.map_eq_some_iff.mp hstep
      obtain ⟨⟨hpos, hdone⟩, rfl⟩ := of_guard hw
      refine h.setWal h.draining.queue (fun _ => of_decide_eq_true hdone) (fun hstopped => ?_)
        (fun hstopped => ?_)
      · cases hstopped
      · rw [hpos] at hstopped
        cases hstopped
  | walDestroy =>
      obtain ⟨w, hw, rfl⟩ := Option.map_eq_some_iff.mp hstep
      obtain ⟨-, rfl⟩ := of_guard hw
      exact h.setWal (fun _ => hprompt) h.draining.batch (fun _ => rfl) fun hstopped => hstopped
  | workerTest t =>
      obtain ⟨w, hw, rfl⟩ := Option.map_eq_some_iff.mp hstep
      obtain ⟨hpos, rfl⟩ := of_guard hw
      refine h.setWorker (fun hw p hp => h.draining.workerQueue t p hp hw)
        (fun _ p hp => h.draining.workerBatch t p hp (by rw [hpos]; decide))
        (fun hstopped => ?_) (h.draining.afterLog t) (fun hstopped => ?_)
      · exact Loop.condition_of_stopped hstopped
      · rw [hpos] at hstopped
        cases hstopped
  | workerBack t =>
      obtain ⟨w, hw, rfl⟩ := Option.map_eq_some_iff.mp hstep
      obtain ⟨⟨hpos, hdone⟩, rfl⟩ := of_guard hw
      refine h.setWorker (fun hw p hp => h.draining.workerQueue t p hp hw) (fun _ p hp => ?_)
        (fun hstopped => ?_) (h.draining.afterLog t) (fun hstopped => ?_)
      · unfold workerDone at hdone
        rw [hp] at hdone
        exact of_decide_eq_true hdone
      · cases hstopped
      · rw [hpos] at hstopped
        cases hstopped
  | workerDestroy t =>
      obtain ⟨hlog, hstep⟩ := Option.ite_none_right_eq_some.mp hstep
      obtain ⟨w, hw, rfl⟩ := Option.map_eq_some_iff.mp hstep
      obtain ⟨-, rfl⟩ := of_guard hw
      refine h.setWorker (fun _ p hp => ?_) (fun hne p hp => h.draining.workerBatch t p hp hne)
        (fun _ => rfl) (fun _ => hlog) fun hstopped => hstopped
      change (x.exchange.engine.orderBooks.lookup t).all _ = true at hprompt
      rw [hp] at hprompt
      exact of_decide_eq_true hprompt
  | settleTest =>
      obtain ⟨w, hw, rfl⟩ := Option.map_eq_some_iff.mp hstep
      obtain ⟨hpos, rfl⟩ := of_guard hw
      refine h.setSettlement (fun _ => h.closing.batch (by rw [hpos]; decide)) (fun hstopped => ?_)
        h.closing.afterWorkers
      -- The loop is left when the flag is cleared and both queues are empty.
      have hcondition := Loop.condition_of_stopped hstopped
      simpa [and_assoc] using hcondition
  | settleBack =>
      obtain ⟨w, hw, rfl⟩ := Option.map_eq_some_iff.mp hstep
      obtain ⟨⟨-, hdone⟩, rfl⟩ := of_guard hw
      refine h.setSettlement (fun _ => of_decide_eq_true hdone) (fun hstopped => ?_)
        h.closing.afterWorkers
      cases hstopped
  | settleDestroy =>
      obtain ⟨hworkers, hstep⟩ := Option.ite_none_right_eq_some.mp hstep
      obtain ⟨w, hw, rfl⟩ := Option.map_eq_some_iff.mp hstep
      obtain ⟨-, rfl⟩ := of_guard hw
      refine h.setSettlement h.closing.batch (fun hstopped => ⟨rfl, (h.closing.stopped hstopped).2⟩)
        fun _ t ht => ?_
      obtain ⟨p, hp⟩ := Option.isSome_iff_exists.mp ht
      have hall := List.all_eq_true.mp hworkers ⟨t, p⟩ ((UnorderedMap.mem_entries_iff _ t p).mpr hp)
      exact of_decide_eq_true hall

end Orderly

section Runs

variable {x x' : Shutdown} {actions : List ShutdownAction}

/-- The action of the server that a step is, if any. -/
def act? : ShutdownAction → Option Action
  | .act a => some a
  | _ => none

/-- The actions of the server in a run. -/
def acts (actions : List ShutdownAction) : List Action :=
  actions.filterMap act?

/-- The loops do not touch the server. -/
theorem exchange_of_control {b : ShutdownAction} (hb : act? b = none)
    (hstep : x.step b = some x') : x'.exchange = x.exchange := by
  cases b with
  | act a => cases hb
  | workerDestroy t =>
      obtain ⟨-, hstep⟩ := Option.ite_none_right_eq_some.mp hstep
      obtain ⟨w, -, rfl⟩ := Option.map_eq_some_iff.mp hstep
      rfl
  | settleDestroy =>
      obtain ⟨-, hstep⟩ := Option.ite_none_right_eq_some.mp hstep
      obtain ⟨w, -, rfl⟩ := Option.map_eq_some_iff.mp hstep
      rfl
  | _ =>
      obtain ⟨w, -, rfl⟩ := Option.map_eq_some_iff.mp hstep
      rfl

/-- Every `fwrite` finds the file open and writes all records of its batch. -/
def WritesAll (s : Exchange) (a : Action) : Prop :=
  ∀ b, s.pipelineAction a = some b → s.pipeline.WritesAll b

theorem writesAll_of_prompt (h : x.Prompt (.act a)) : WritesAll x.exchange a := by
  intro b hb
  cases a with
  | logWrite now count =>
      obtain rfl := Option.some.inj hb
      exact h
  | appendOrder thread =>
      obtain ⟨out, -, rfl⟩ := Option.map_eq_some_iff.mp hb
      trivial
  | cancel thread session req =>
      obtain ⟨-, heq⟩ := Option.ite_none_right_eq_some.mp hb
      obtain rfl := Option.some.inj heq
      trivial
  | logDequeue | logForward | workerDequeue | workerProcess | workerPush =>
      obtain rfl := Option.some.inj hb
      trivial
  | _ => cases hb

/-- **A run is a run of the server**, with complete writes if its steps are prompt. -/
theorem runs_exchange (hprompt : Along step Prompt x actions)
    (hrun : runs step x actions = some x') :
    runs Exchange.step x.exchange (acts actions) = some x'.exchange ∧
      Along Exchange.step WritesAll x.exchange (acts actions) := by
  induction actions generalizing x with
  | nil =>
      obtain rfl := Option.some.inj hrun
      exact ⟨rfl, trivial⟩
  | cons b actions ih =>
      obtain ⟨y, hy, hrest⟩ := runs_cons hrun
      obtain ⟨hruns, halong⟩ := ih (hprompt.2 y hy) hrest
      cases hb : act? b with
      | none =>
          have hacts : acts (b :: actions) = acts actions := List.filterMap_cons_none hb
          rw [hacts, ← exchange_of_control hb hy]
          exact ⟨hruns, halong⟩
      | some a =>
          have hacts : acts (b :: actions) = a :: acts actions := List.filterMap_cons_some hb
          cases b with
          | act a' =>
              obtain rfl := Option.some.inj hb
              obtain ⟨s, hs, hy⟩ := Option.bind_eq_some_iff.mp hy
              obtain ⟨l, -, rfl⟩ := Option.map_eq_some_iff.mp hy
              rw [hacts]
              refine ⟨?_, writesAll_of_prompt hprompt.1, fun s' hs' => ?_⟩
              · rw [runs, hs]
                exact hruns
              · obtain rfl := Option.some.inj (hs.symm.trans hs')
                exact halong
          | _ => cases hb

theorem runs_orderly {users : UserManager} {tickers : TickerManager} {db : Database}
    {walFile : Option (List WALRecord)}
    (hprompt : Along step Prompt (start users tickers db walFile) actions)
    (hrun : runs step (start users tickers db walFile) actions = some x) : Orderly x :=
  runs_induction_along (I := Orderly) (fun _ _ _ h hP hs => h.step hP hs) actions
    (Orderly.start users tickers db walFile) hprompt hrun

/-- The log of a run of the server. -/
theorem runs_logged {users : UserManager} {tickers : TickerManager} {db : Database}
    {walFile : Option (List WALRecord)} {actions : List Action} {s : Exchange}
    (hall : Along Exchange.step WritesAll (Exchange.start users tickers db walFile) actions)
    (hrun : runs Exchange.step (Exchange.start users tickers db walFile) actions = some s) :
    Pipeline.Logged walFile ((Exchange.start users tickers db walFile).trace actions)
      s.pipeline := by
  unfold Exchange.trace
  refine follow_induction_along (I := fun s tr => Pipeline.Logged walFile tr s.pipeline)
    (fun s tr a s' h hwrites ha => ?_) actions ⟨?_, ?_⟩ hall hrun
  · rcases Exchange.step_pipeline ha with ⟨hb, hsame⟩ | ⟨b, hb, hmove⟩
    · have hσ : s.signal a = none := by
        unfold Exchange.signal
        rw [hb]
        rfl
      rw [hσ, hsame, Option.toList_none, List.append_nil]
      exact h
    · obtain ⟨σ, hσ, hstep⟩ := Pipeline.step_spec hmove
      have hsignal : s.signal a = some σ := by
        unfold Exchange.signal
        rw [hb]
        exact hσ
      rw [hsignal]
      exact h.step (hwrites b hb) hσ hstep
  · show walFile = walFile.map (· ++ [])
    simp
  · exact .nil

end Runs

end Shutdown

/-! ## The result -/

/-- Nothing is lost: every event appended has its record in the log and has been processed
by the book of its ticker, if there is one; every record made has been applied to the
accounts; and the queues are empty. -/
structure LosesNothing (ids : List UInt32) (walFile : Option (List WALRecord)) (tr : Trace)
    (n : Receipts) (s : Exchange) : Prop where
  file : s.wal.walFile = walFile.map (· ++ tr.written)
  logged : ∃ events, events.Perm tr.appended ∧ List.Forall₂ WALRecord.IsOf events tr.written
  processed : ∀ t ∈ ids, (tr.processed t).Perm (routed t tr.appended)
  bought : (s.history.traded : Multiset MatchRecord) = n.bought
  sold : (s.history.traded : Multiset MatchRecord) = n.sold
  released : (s.history.cancelled : Multiset CancelRecord) = n.released
  walQueue : s.wal.queue = []
  workerQueues : ∀ t p, s.engine.orderBooks.lookup t = some p → p.queue = []
  settlementQueues : s.settlement.queue = [] ∧ s.settlement.cancelQueue = []

/-- **When shutdown loses nothing.**  In every run in which the queue of the log is empty
when `~WALManager` is called, the queue of every worker is empty when its destructor is
called, and every `fwrite` is complete: once all destructors have returned, nothing is
lost. -/
theorem orderly_shutdown_loses_nothing (users : UserManager) (tickers : TickerManager)
    (db : Database) (walFile : Option (List WALRecord)) (actions : List ShutdownAction)
    (x : Shutdown)
    (hrun : runs Shutdown.step (Shutdown.start users tickers db walFile) actions = some x)
    (hprompt : Along Shutdown.step Shutdown.Prompt (Shutdown.start users tickers db walFile)
      actions)
    (hreturned : x.Returned tickers.getAllTickerIds) :
    LosesNothing tickers.getAllTickerIds walFile
      ((Exchange.start users tickers db walFile).trace (Shutdown.acts actions))
      ((Exchange.start users tickers db walFile).receipts (Shutdown.acts actions))
      x.exchange := by
  obtain ⟨hexchange, hwrites⟩ := Shutdown.runs_exchange hprompt hrun
  obtain ⟨hwal, hworkers, hsettlement⟩ := hreturned
  obtain ⟨hdraining, hclosing⟩ := Shutdown.runs_orderly hprompt hrun
  obtain ⟨hlisted, hlines⟩ := Exchange.runs_staffed hexchange
  have hlogged := Shutdown.runs_logged hwrites hexchange
  have hreceipted := Exchange.runs_receipted hexchange
  -- Stage by stage, from the log to the settlement: nothing waits in front of it.
  have hqueue : x.exchange.wal.queue = [] := hdraining.queue (hdraining.stopped hwal)
  have hbuffer : x.exchange.wal.buffer = [] := hdraining.batch (by rw [hwal]; decide)
  have hworker : ∀ t p, x.exchange.engine.orderBooks.lookup t = some p →
      p.queue = [] ∧ p.buffer = [] ∧ p.results = [] := by
    intro t p hp
    have hstopped := hworkers t ((hlisted t).mp (Option.isSome_iff_exists.mpr ⟨p, hp⟩))
    exact ⟨hdraining.workerQueue t p hp (hdraining.workerStopped t hstopped),
      hdraining.workerBatch t p hp (by rw [hstopped]; decide)⟩
  have hforwarded : ((Exchange.start users tickers db walFile).trace
      (Shutdown.acts actions)).appended.Perm
      ((Exchange.start users tickers db walFile).trace (Shutdown.acts actions)).forwarded := by
    have happended := Exchange.runs_appended hexchange
    rw [hqueue, hbuffer] at happended
    exact happended.trans (List.Perm.of_eq (List.append_nil _))
  obtain ⟨⟨hrecords, hcurrent, hcancels⟩, -⟩ := hclosing.batch (by rw [hsettlement]; decide)
  obtain ⟨-, hsettle, hcancel⟩ := hclosing.stopped hsettlement
  -- Then no record waits either, and the receipts say that all have been applied.
  have hresults : x.exchange.engine.results = [] := by
    refine List.eq_nil_iff_forall_not_mem.mpr fun rec hrec => ?_
    obtain ⟨t, p, hp, hrec⟩ := (UnorderedMap.mem_collect _).mp hrec
    rw [(hworker t p hp).2.2] at hrec
    cases hrec
  have hwaiting : x.exchange.clearing.records = 0 := by
    show (x.exchange.waitingRecords : Multiset MatchRecord) = 0
    unfold Exchange.waitingRecords
    rw [hresults, hsettle, hrecords]
    rfl
  have hinHand : x.exchange.clearing.inHand = none := Option.isNone_iff_eq_none.mp hcurrent
  have hreleases : x.exchange.clearing.cancels = 0 := by
    show (x.exchange.waitingCancels : Multiset CancelRecord) = 0
    unfold Exchange.waitingCancels
    rw [hcancel, hcancels]
    rfl
  refine ⟨hlogged.file, ⟨_, hforwarded.symm, ?_⟩, fun t ht => ?_, ?_, ?_, ?_, hqueue,
    fun t p hp => (hworker t p hp).1, hsettle, hcancel⟩
  · have hall := hlogged.records
    have hpending : x.exchange.pipeline.pending = [] := by
      unfold Pipeline.pending
      show (if _ then x.exchange.wal.buffer else []) = []
      rw [hbuffer, ite_self]
    rw [hpending, List.append_nil] at hall
    exact hall
  · obtain ⟨p, hp⟩ := Option.isSome_iff_exists.mp ((hlisted t).mpr ht)
    have hevents := (hlines t p hp).events
    rw [(hworker t p hp).1, (hworker t p hp).2.1, List.append_nil, List.append_nil] at hevents
    rw [← hevents]
    exact (hforwarded.symm.filter _).map _
  · have hbought := hreceipted.bought
    rw [Clearing.unbought, Clearing.buying, hinHand, hwaiting, add_zero, add_zero] at hbought
    exact hbought
  · have hsold := hreceipted.sold
    rw [Clearing.unsold, Clearing.selling, hinHand, hwaiting, add_zero, add_zero] at hsold
    exact hsold
  · have hreleased := hreceipted.released
    rw [hreleases, add_zero] at hreleased
    exact hreleased

/-- Bob's order is acknowledged. -/
def acknowledge : List ShutdownAction :=
  [.act (.trade 0 ⟨"bob", 2⟩ ⟨1, 1, 100, 5⟩ 11 0), .act (.appendOrder 0)]

/-- All three stages are destroyed, each thread at the head of its loop. -/
def destroyAll : List ShutdownAction :=
  [.walDestroy, .walTest, .workerDestroy 1, .workerTest 1, .settleDestroy, .settleTest]

/-- The order is logged and processed. -/
def handleOrder : List ShutdownAction :=
  [.walTest, .act (.logDequeue [0]), .act (.logWrite (fun _ => 0) 1), .act .logForward, .walBack,
    .workerTest 1, .act (.workerDequeue 1 1), .act (.workerProcess 1 (fun _ => 0) 0),
    .workerBack 1]

def shutdownFrom (actions : List ShutdownAction) : Shutdown :=
  runsTo Shutdown.step (Shutdown.start tradeUsers sampleTickers sampleDb (some [])) actions

/-- The order is handled before the server is shut down. -/
theorem orderly_shutdown_sample :
    (shutdownFrom (acknowledge ++ handleOrder ++ destroyAll)).exchange.wal.queue = [] := by
  have hresult := orderly_shutdown_loses_nothing tradeUsers sampleTickers sampleDb (some [])
    (acknowledge ++ handleOrder ++ destroyAll) _ (runs_eq_runsTo _ (by decide)) (by decide)
    (by decide)
  exact hresult.walQueue

/-- The server is shut down while the order is in the queue of the log: all destructors
return, the order is neither logged nor processed, and the queue still holds it. -/
theorem shutdown_drops_order :
    (runs Shutdown.step (Shutdown.start tradeUsers sampleTickers sampleDb (some []))
      (acknowledge ++ destroyAll)).isSome ∧
    (shutdownFrom (acknowledge ++ destroyAll)).Returned sampleTickers.getAllTickerIds ∧
    (shutdownFrom (acknowledge ++ destroyAll)).exchange.wal.queue
      = [(0, .newOrder ⟨11, 1, 2, .sell, 100, 5, 0⟩)] ∧
    (shutdownFrom (acknowledge ++ destroyAll)).exchange.wal.walFile = some [] ∧
    ((Exchange.start tradeUsers sampleTickers sampleDb (some [])).trace
      (Shutdown.acts (acknowledge ++ destroyAll))).processed 1 = [] ∧
    ¬ LosesNothing sampleTickers.getAllTickerIds (some [])
      ((Exchange.start tradeUsers sampleTickers sampleDb (some [])).trace
        (Shutdown.acts (acknowledge ++ destroyAll)))
      ((Exchange.start tradeUsers sampleTickers sampleDb (some [])).receipts
        (Shutdown.acts (acknowledge ++ destroyAll)))
      (shutdownFrom (acknowledge ++ destroyAll)).exchange := by
  have hqueue : (shutdownFrom (acknowledge ++ destroyAll)).exchange.wal.queue
      = [(0, .newOrder ⟨11, 1, 2, .sell, 100, 5, 0⟩)] := by decide
  refine ⟨by decide, by decide, hqueue, by decide, by decide, fun h => ?_⟩
  have hempty := h.walQueue
  rw [hqueue] at hempty
  cases hempty

end ExchangeServer
