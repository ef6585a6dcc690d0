import ExchangeServer.Lib.ProducerQueue
import ExchangeServer.Lib.Progress

/-!
# The logger

`Logger` takes messages from all threads into a lock-free queue, and one worker writes
them to the standard output and to the log file in batches.  The worker stops when it has
found `running_` unset and the queue empty, in this order, and the destructor waits for it.

`step` interleaves the threads that log with the worker and the destructor.
`logged_are_written` says what has been written when the destructor has joined the worker:
everything that was in the queue by the time `running_` was unset, and of what came later
possibly not all.  `logger_stops` says that this point is reached.

What is said about the queue in `Settled` and `Honest` is what `size_approx` and
`try_dequeue_bulk` promise: they may overlook elements while others are at the queue.
-/

namespace ExchangeServer

open Lib Filter

inductive LogLevel where
  | DEBUG
  | INFO
  | WARN
  | ERROR
deriving DecidableEq, Repr

structure LogItem where
  level : LogLevel
  msg : String
  /-- Milliseconds since the epoch. -/
  timestamp : ℕ
deriving DecidableEq, Repr

namespace LogItem

/-- `level_str`. -/
def levelStr : LogLevel → String
  | .DEBUG => "[DEBUG]"
  | .INFO => "[INFO ]"
  | .WARN => "[WARN ]"
  | .ERROR => "[ERROR]"

/-- `std::setfill('0') << std::setw(3)`. -/
def setw3 (n : ℕ) : String :=
  String.ofList (List.replicate (3 - (toString n).length) '0') ++ toString n

/-- `final_msg`.  `putTime` is `localtime_r` and `std::put_time`, in the time zone of the
server. -/
def finalMsg (putTime : ℕ → String) (item : LogItem) : String :=
  putTime (item.timestamp / 1000) ++ "." ++ setw3 (item.timestamp % 1000) ++ " "
    ++ levelStr item.level ++ " " ++ item.msg ++ "\n"

end LogItem

namespace Logger

/-- An element of the queue. -/
structure Entry where
  item : LogItem
  /-- It was put into the queue while `running_` was set. -/
  early : Bool
deriving DecidableEq, Repr

/-- The worker. -/
inductive Stage (T : Type*) where
  /-- It has not been started. -/
  | none
  /-- Before the test of `running_`. -/
  | testing
  /-- Before the test of `queue_.size_approx()`. -/
  | sizing
  | dequeuing
  /-- In the loop over a batch, or before the `flush` after it. -/
  | writing (items : ProducerQueue T Entry)
  | sleeping
  | returned
deriving DecidableEq, Repr

/-- What the worker has taken out of the queue and not yet written. -/
def Stage.items {T : Type*} : Stage T → ProducerQueue T Entry
  | .writing items => items
  | .none | .testing | .sizing | .dequeuing | .sleeping | .returned => []

inductive Lifetime where
  | alive
  /-- In the destructor, up to `worker_.join()`. -/
  | joining
  | joined
deriving DecidableEq, Repr

end Logger

/-- The logger and the threads `T` that use it. -/
structure Logger (T : Type*) where
  running : Bool
  /-- Calls of `log` that have found `running_` set and have not enqueued yet. -/
  pending : ProducerQueue T (LogLevel × String)
  queue : ProducerQueue T Logger.Entry
  worker : Logger.Stage T
  lifetime : Logger.Lifetime
  /-- What went to `std::cout`. -/
  cout : List String
  /-- What went to the file, once it is open. -/
  fileStream : Option (List String)
  /-- What has ever been put into the queue. -/
  enqueued : ProducerQueue T Logger.Entry
  /-- What has been written. -/
  written : ProducerQueue T Logger.Entry

namespace Logger

variable {T : Type*}

/-- `Logger::getInstance` for the first time. -/
def start : Logger T :=
  ⟨false, [], [], .none, .alive, [], none, [], []⟩

/-- What can happen. -/
inductive Action (T : Type*) where
  /-- `init`, where the file can be opened or cannot. -/
  | init (opened : Bool)
  /-- A call of `log` finds `running_` set. -/
  | log (t : T) (level : LogLevel) (msg : String)
  /-- A call of `log` finds `running_` unset and returns. -/
  | logOff (t : T)
  /-- `queue_.enqueue` of a call of `log`, at the time `now`. -/
  | enqueue (t : T) (now : ℕ)
  | test
  /-- `size_approx` answers `count`. -/
  | size (count : ℕ)
  /-- `try_dequeue_bulk` takes an element of each of these threads. -/
  | dequeue (picks : List T)
  | write
  | flush
  | sleep
  /-- The destructor is entered and unsets `running_`. -/
  | destroy
  | join
deriving DecidableEq, Repr

def batchSize : ℕ := 500

variable [DecidableEq T] (putTime : ℕ → String)

/-- **One action of any thread**; `none` where it cannot happen. -/
def step (l : Logger T) : Action T → Option (Logger T)
  | .init opened =>
      match l.lifetime, l.running, opened, l.worker with
      | .alive, true, _, _ | .alive, false, false, _ => some l
      | .alive, false, true, .none =>
          some { l with running := true, fileStream := some [], worker := .testing }
      | _, _, _, _ => none
  | .log t level msg =>
      if l.running ∧ t ∉ l.pending.map Prod.fst then
        some { l with pending := l.pending.enqueue t [(level, msg)] }
      else none
  | .logOff t => if l.running = false ∧ t ∉ l.pending.map Prod.fst then some l else none
  | .enqueue t now =>
      (l.pending.dequeue t).map fun out =>
        let entry : Entry := ⟨⟨out.1.1, out.1.2, now⟩, l.running⟩
        { l with
          pending := out.2
          queue := l.queue.enqueue t [entry]
          enqueued := l.enqueued.enqueue t [entry] }
  | .test =>
      match l.worker with
      | .testing => some { l with worker := if l.running then .dequeuing else .sizing }
      | _ => none
  | .size count =>
      match l.worker with
      | .sizing => some { l with worker := if 0 < count then .dequeuing else .returned }
      | _ => none
  | .dequeue picks =>
      match l.worker with
      | .dequeuing =>
          if picks.length ≤ batchSize then
            (l.queue.dequeueBulk picks).map fun out =>
              { l with
                queue := out.2
                worker := if picks = [] then .sleeping else .writing (picks.zip out.1) }
          else none
      | _ => none
  | .write =>
      match l.worker with
      | .writing (e :: items) =>
          let finalMsg := e.2.item.finalMsg putTime
          some { l with
            worker := .writing items
            cout := l.cout ++ [finalMsg]
            fileStream := l.fileStream.map (· ++ [finalMsg])
            written := l.written ++ [e] }
      | _ => none
  | .flush =>
      match l.worker with
      | .writing [] => some { l with worker := .testing }
      | _ => none
  | .sleep =>
      match l.worker with
      | .sleeping => some { l with worker := .testing }
      | _ => none
  | .destroy =>
      match l.lifetime with
      | .alive => some { l with running := false, lifetime := .joining }
      | _ => none
  | .join =>
      match l.lifetime, l.worker with
      | .joining, .none | .joining, .returned => some { l with lifetime := .joined }
      | _, _ => none

/-- What a step does, with what it needs. -/
inductive Move (l : Logger T) : Action T → Logger T → Prop where
  | stay (opened : Bool) : Move l (.init opened) l
  | init (halive : l.lifetime = .alive) (hoff : l.running = false) (hnone : l.worker = .none) :
      Move l (.init true)
        { l with running := true, fileStream := some [], worker := .testing }
  | log (t : T) (level : LogLevel) (msg : String) :
      Move l (.log t level msg) { l with pending := l.pending.enqueue t [(level, msg)] }
  | logOff (t : T) (hfree : t ∉ l.pending.map Prod.fst) : Move l (.logOff t) l
  | enqueue (t : T) (now : ℕ) (call : LogLevel × String)
      (rest : ProducerQueue T (LogLevel × String))
      (hcall : l.pending.dequeue t = some (call, rest)) (entry : Entry)
      (hentry : entry = ⟨⟨call.1, call.2, now⟩, l.running⟩) :
      Move l (.enqueue t now)
        { l with
          pending := rest
          queue := l.queue.enqueue t [entry]
          enqueued := l.enqueued.enqueue t [entry] }
  | test (hat : l.worker = .testing) :
      Move l .test { l with worker := if l.running then .dequeuing else .sizing }
  | size (count : ℕ) (hat : l.worker = .sizing) :
      Move l (.size count) { l with worker := if 0 < count then .dequeuing else .returned }
  | dequeue (picks : List T) (as : List Entry) (rest : ProducerQueue T Entry)
      (hat : l.worker = .dequeuing) (hout : l.queue.dequeueBulk picks = some (as, rest)) :
      Move l (.dequeue picks)
        { l with
          queue := rest
          worker := if picks = [] then .sleeping else .writing (picks.zip as) }
  | write (e : T × Entry) (items : ProducerQueue T Entry)
      (hat : l.worker = .writing (e :: items)) :
      Move l .write
        { l with
          worker := .writing items
          cout := l.cout ++ [e.2.item.finalMsg putTime]
          fileStream := l.fileStream.map (· ++ [e.2.item.finalMsg putTime])
          written := l.written ++ [e] }
  | flush (hat : l.worker = .writing []) : Move l .flush { l with worker := .testing }
  | sleep (hat : l.worker = .sleeping) : Move l .sleep { l with worker := .testing }
  | destroy (halive : l.lifetime = .alive) :
      Move l .destroy { l with running := false, lifetime := .joining }
  | join (hat : l.lifetime = .joining) (hdone : l.worker = .none ∨ l.worker = .returned) :
      Move l .join { l with lifetime := .joined }

variable {putTime} {l l' : Logger T} {a : Action T}

theorem step_spec (h : l.step putTime a = some l') : Move putTime l a l' := by
  cases a with
  | init opened =>
      simp only [step] at h
      split at h
      case h_1 | h_2 =>
          obtain rfl := Option.some.inj h
          exact .stay _
      case h_3 halive hoff hnone =>
          obtain rfl := Option.some.inj h
          exact .init halive hoff hnone
      case h_4 => cases h
  | log t level msg =>
      obtain ⟨-, hsome⟩ := Option.ite_none_right_eq_some.mp h
      obtain rfl := Option.some.inj hsome
      exact .log t level msg
  | logOff t =>
      obtain ⟨⟨-, hfree⟩, hsome⟩ := Option.ite_none_right_eq_some.mp h
      obtain rfl := Option.some.inj hsome
      exact .logOff t hfree
  | enqueue t now =>
      obtain ⟨⟨call, rest⟩, hcall, rfl⟩ := Option.map_eq_some_iff.mp h
      exact .enqueue t now call rest hcall _ rfl
  | test =>
      simp only [step] at h
      split at h
      case h_1 hat =>
          obtain rfl := Option.some.inj h
          exact .test hat
      case h_2 => cases h
  | size count =>
      simp only [step] at h
      split at h
      case h_1 hat =>
          obtain rfl := Option.some.inj h
          exact .size count hat
      case h_2 => cases h
  | dequeue picks =>
      simp only [step] at h
      split at h
      case h_1 hat =>
          obtain ⟨-, htaken⟩ := Option.ite_none_right_eq_some.mp h
          obtain ⟨⟨as, rest⟩, hout, rfl⟩ := Option.map_eq_some_iff.mp htaken
          exact .dequeue picks as rest hat hout
      case h_2 => cases h
  | write =>
      simp only [step] at h
      split at h
      case h_1 e items hat =>
          obtain rfl := Option.some.inj h
          exact .write e items hat
      case h_2 => cases h
  | flush =>
      simp only [step] at h
      split at h
      case h_1 hat =>
          obtain rfl := Option.some.inj h
          exact .flush hat
      case h_2 => cases h
  | sleep =>
      simp only [step] at h
      split at h
      case h_1 hat =>
          obtain rfl := Option.some.inj h
          exact .sleep hat
      case h_2 => cases h
  | destroy =>
      simp only [step] at h
      split at h
      case h_1 halive =>
          obtain rfl := Option.some.inj h
          exact .destroy halive
      case h_2 => cases h
  | join =>
      simp only [step] at h
      split at h
      case h_1 hat hdone =>
          obtain rfl := Option.some.inj h
          exact .join hat (.inl hdone)
      case h_2 hat hdone =>
          obtain rfl := Option.some.inj h
          exact .join hat (.inr hdone)
      case h_3 => cases h

/-! ## What is written -/

/-- `size_approx` does not overlook what was put in before `running_` was unset: by then
those elements are there to be seen. -/
def Settled (l : Logger T) : Action T → Prop
  | .size count => count = 0 → ∀ e ∈ l.queue, e.2.early = false
  | .init _ | .log .. | .logOff _ | .enqueue .. | .test | .dequeue _ | .write | .flush | .sleep
  | .destroy | .join => True

instance (l : Logger T) : (a : Action T) → Decidable (l.Settled a)
  | .size count =>
      inferInstanceAs (Decidable (count = 0 → ∀ e ∈ l.queue, e.2.early = false))
  | .init _ | .log .. | .logOff _ | .enqueue .. | .test | .dequeue _ | .write | .flush | .sleep
  | .destroy | .join => isTrue trivial

variable (putTime) in
/-- What is in the logger at any time. -/
structure Accounts (l : Logger T) : Prop where
  /-- Everything is written once, in the worker's hands or in the queue, and the messages
  of one thread are in their order. -/
  fifo : ∀ t, l.enqueued.ofProducer t
    = l.written.ofProducer t ++ (l.worker.items.ofProducer t ++ l.queue.ofProducer t)
  unstarted : l.worker = .none → l.running = false ∧ l.written = [] ∧ l.fileStream = none
  /-- The worker has found `running_` unset. -/
  off : l.worker = .sizing ∨ l.worker = .returned ∨ l.lifetime ≠ .alive → l.running = false
  /-- Without a worker nothing early is left. -/
  late : l.worker = .none ∨ l.worker = .returned → ∀ e ∈ l.queue, e.2.early = false
  stopped : l.lifetime = .joined → l.worker = .none ∨ l.worker = .returned
  cout : l.cout = l.written.elems.map fun e => e.item.finalMsg putTime
  file : l.worker ≠ .none → l.fileStream = some l.cout

namespace Accounts

theorem start : Accounts putTime (Logger.start : Logger T) where
  fifo _ := rfl
  unstarted _ := ⟨rfl, rfl, rfl⟩
  off _ := rfl
  late _ := by
    intro e he
    cases he
  stopped h := by cases h
  cout := rfl
  file h := absurd rfl h

/-- The worker moves on without touching the messages. -/
theorem goOn (h : Accounts putTime l) (stage : Stage T) (hstage : stage.items = [])
    (hempty : l.worker.items = []) (hstarted : l.worker ≠ .none) (hnone : stage ≠ .none)
    (hoff : stage = .sizing → l.running = false)
    (hlate : stage = .returned → l.running = false ∧ ∀ e ∈ l.queue, e.2.early = false)
    (hstopped : l.lifetime = .joined → stage = .returned) :
    Accounts putTime { l with worker := stage } where
  fifo t := by
    rw [hstage, ← hempty]
    exact h.fifo t
  unstarted hnone' := absurd hnone' hnone
  off hcases := by
    rcases hcases with hsizing | hreturned | hdead
    · exact hoff hsizing
    · exact (hlate hreturned).1
    · exact h.off (.inr (.inr hdead))
  late hcases := (hlate (hcases.resolve_left hnone)).2
  stopped hjoined := .inr (hstopped hjoined)
  cout := h.cout
  file _ := h.file hstarted

/-- The worker is at work as long as the destructor has not joined it. -/
theorem not_joined (h : Accounts putTime l) (hnone : l.worker ≠ .none)
    (hreturned : l.worker ≠ .returned) : l.lifetime ≠ .joined := fun hjoined =>
  (h.stopped hjoined).elim hnone hreturned

theorem step (h : Accounts putTime l) (hsettled : l.Settled a)
    (hstep : l.step putTime a = some l') :
    Accounts putTime l' := by
  cases step_spec hstep with
  | stay | logOff => exact h
  | init halive hoff hnone =>
      obtain ⟨-, hwritten, -⟩ := h.unstarted hnone
      have hcout : l.cout = [] := by rw [h.cout, hwritten]; rfl
      refine ⟨fun t => ?_, fun hn => (by cases hn), fun hcases => ?_, fun hcases => ?_,
        fun hjoined => ?_, h.cout, fun _ => congrArg some hcout.symm⟩
      · rw [h.fifo t, hnone]
        rfl
      · rcases hcases with hn | hn | hdead
        · cases hn
        · cases hn
        · exact absurd halive hdead
      · rcases hcases with hn | hn <;> cases hn
      · rw [halive] at hjoined
        cases hjoined
  | log => exact { h with }
  | enqueue t now call rest hcall entry hentry =>
      refine ⟨fun t' => ?_, h.unstarted, h.off, fun hcases e he => ?_, h.stopped, h.cout,
        h.file⟩
      · show ProducerQueue.ofProducer t' (l.enqueued ++ [(t, entry)])
          = _ ++ (_ ++ ProducerQueue.ofProducer t' (l.queue ++ [(t, entry)]))
        rw [ProducerQueue.ofProducer_append, ProducerQueue.ofProducer_append, h.fifo t']
        simp only [List.append_assoc]
      · rcases List.mem_append.mp he with hold | hnew
        · exact h.late hcases e hold
        · obtain rfl := List.mem_singleton.mp hnew
          rw [hentry]
          exact hcases.elim (fun hnone => (h.unstarted hnone).1) fun hr => h.off (.inr (.inl hr))
  | test hat =>
      have hjoined : l.lifetime ≠ .joined := h.not_joined (by simp [hat]) (by simp [hat])
      refine h.goOn _ ?_ (by rw [hat]; rfl) (by simp [hat]) ?_ ?_ ?_ fun hj => absurd hj hjoined
      all_goals cases l.running <;> simp [Stage.items]
  | size count hat =>
      have hjoined : l.lifetime ≠ .joined := h.not_joined (by simp [hat]) (by simp [hat])
      have hoff := h.off (.inl hat)
      rcases Nat.eq_zero_or_pos count with rfl | hpos
      · exact h.goOn .returned rfl (by rw [hat]; rfl) (by simp [hat]) (by simp) (by simp)
          (fun _ => ⟨hoff, hsettled rfl⟩) fun hj => absurd hj hjoined
      · rw [if_pos hpos]
        exact h.goOn .dequeuing rfl (by rw [hat]; rfl) (by simp [hat]) (by simp) (by simp)
          (by simp) fun hj => absurd hj hjoined
  | dequeue picks as rest hat hout =>
      have hjoined : l.lifetime ≠ .joined := h.not_joined (by simp [hat]) (by simp [hat])
      obtain ⟨hlength, hfifo⟩ := ProducerQueue.dequeueBulk_fifo hout
      have hitems : (if picks = [] then Stage.sleeping else .writing (picks.zip as)).items
          = picks.zip as := by
        split_ifs with hnil
        · rw [hnil]
          rfl
        · rfl
      have hbusy : (if picks = [] then Stage.sleeping else .writing (picks.zip as)) ≠ .none
          ∧ (if picks = [] then Stage.sleeping else .writing (picks.zip as)) ≠ .sizing
          ∧ (if picks = [] then Stage.sleeping else .writing (picks.zip as)) ≠ .returned := by
        split_ifs <;> simp
      refine ⟨fun t => ?_, fun hn => absurd hn hbusy.1, fun hcases => ?_, fun hcases => ?_,
        fun hj => absurd hj hjoined, h.cout, fun _ => h.file (by simp [hat])⟩
      · rw [hitems, ← hfifo t, h.fifo t, hat]
        rfl
      · rcases hcases with hn | hn | hdead
        · exact absurd hn hbusy.2.1
        · exact absurd hn hbusy.2.2
        · exact h.off (.inr (.inr hdead))
      · exact hcases.elim (absurd · hbusy.1) (absurd · hbusy.2.2)
  | write e items hat =>
      have hjoined : l.lifetime ≠ .joined := h.not_joined (by simp [hat]) (by simp [hat])
      refine ⟨fun t => ?_, fun hn => (by cases hn), fun hcases => ?_, fun hcases => ?_,
        fun hj => absurd hj hjoined, ?_, fun _ => ?_⟩
      · have hsplit : ProducerQueue.ofProducer t (e :: items)
            = ProducerQueue.ofProducer t [e] ++ ProducerQueue.ofProducer t items :=
          ProducerQueue.ofProducer_append t [e] items
        rw [h.fifo t, hat, ProducerQueue.ofProducer_append, Stage.items, Stage.items, hsplit]
        simp only [List.append_assoc]
      · rcases hcases with hn | hn | hdead
        · cases hn
        · cases hn
        · exact h.off (.inr (.inr hdead))
      · rcases hcases with hn | hn <;> cases hn
      · rw [h.cout]
        simp [ProducerQueue.elems]
      · rw [h.file (by simp [hat])]
        rfl
  | flush hat =>
      exact h.goOn .testing rfl (by rw [hat]; rfl) (by simp [hat]) (by simp) (by simp) (by simp)
        fun hj => absurd hj (h.not_joined (by simp [hat]) (by simp [hat]))
  | sleep hat =>
      exact h.goOn .testing rfl (by rw [hat]; rfl) (by simp [hat]) (by simp) (by simp) (by simp)
        fun hj => absurd hj (h.not_joined (by simp [hat]) (by simp [hat]))
  | destroy halive =>
      exact ⟨h.fifo, fun hn => ⟨rfl, (h.unstarted hn).2⟩, fun _ => rfl, h.late,
        fun hj => (by cases hj), h.cout, h.file⟩
  | join hat hdone =>
      exact ⟨h.fifo, h.unstarted, fun _ => h.off (.inr (.inr (by simp [hat]))), h.late,
        fun _ => hdone, h.cout, h.file⟩

end Accounts

theorem accounts_of_runs {actions : List (Action T)}
    (hsettled : Along (step putTime) Settled start actions)
    (hrun : runs (step putTime) start actions = some l) : Accounts putTime l :=
  runs_induction_along (fun _ _ _ h hsettled hstep => h.step hsettled hstep) actions
    Accounts.start hsettled hrun

end Logger

open Logger in
/-- **What was logged in time is written.**  When the destructor has joined the worker, the
messages of every thread have been written in their order and once, but for the last ones
that came into the queue after `running_` was unset; and standard output and file have what
was written. -/
theorem logged_are_written {T : Type*} [DecidableEq T] (putTime : ℕ → String)
    (actions : List (Action T)) {l : Logger T}
    (hsettled : Along (step putTime) Settled start actions)
    (hrun : runs (step putTime) start actions = some l) (hjoined : l.lifetime = .joined) :
    (∀ t, l.enqueued.ofProducer t = l.written.ofProducer t ++ l.queue.ofProducer t) ∧
      (∀ e ∈ l.queue, e.2.early = false) ∧
      l.cout = l.written.elems.map (fun e => e.item.finalMsg putTime) ∧
      ∀ file ∈ l.fileStream, file = l.cout := by
  have haccounts := accounts_of_runs hsettled hrun
  have hstopped := haccounts.stopped hjoined
  have hitems : l.worker.items = [] := by
    rcases hstopped with h | h <;> rw [h] <;> rfl
  refine ⟨fun t => ?_, haccounts.late hstopped, haccounts.cout, fun file hfile => ?_⟩
  · rw [haccounts.fifo t, hitems]
    rfl
  · by_cases hnone : l.worker = .none
    · rw [(haccounts.unstarted hnone).2.2] at hfile
      cases hfile
    · rw [haccounts.file hnone] at hfile
      exact (Option.mem_some_iff.mp hfile).symm

namespace Logger

/-- Two threads log; the second message of `true` comes too late for the worker. -/
def twoThreads : List (Action Bool) :=
  [.logOff true, .init true, .log false .INFO "started", .log true .ERROR "failed", .test,
    .dequeue [], .enqueue true 7, .enqueue false 1008, .sleep, .test, .log true .INFO "again",
    .destroy, .dequeue [true], .write, .flush, .test, .size 1, .dequeue [false], .write, .flush,
    .test, .size 0, .enqueue true 1009, .join]

def twoThreadsEnd : Logger Bool :=
  runsTo (step fun _ => "12:00:00") start twoThreads

theorem twoThreadsEnd_run :
    runs (step fun _ => "12:00:00") start twoThreads = some twoThreadsEnd :=
  runs_eq_runsTo _ (by rfl)

end Logger

open Logger in
theorem logged_are_written_twoThreads :
    (∀ t, twoThreadsEnd.enqueued.ofProducer t
        = twoThreadsEnd.written.ofProducer t ++ twoThreadsEnd.queue.ofProducer t) ∧
      (∀ e ∈ twoThreadsEnd.queue, e.2.early = false) ∧
      twoThreadsEnd.cout
        = twoThreadsEnd.written.elems.map (fun e => e.item.finalMsg fun _ => "12:00:00") ∧
      ∀ file ∈ twoThreadsEnd.fileStream, file = twoThreadsEnd.cout :=
  logged_are_written _ twoThreads (by decide) twoThreadsEnd_run (by rfl)

namespace Logger

/-! ## The worker stops -/

variable {T : Type*} [DecidableEq T] {putTime : ℕ → String} {l l' : Logger T} {a : Action T}

/-- Who moves: a thread in `log`, the worker, or the thread in the destructor. -/
inductive Thread (T : Type*) where
  | caller (t : T)
  | worker
  | destructor

def Action.thread : Action T → Option (Thread T)
  | .logOff t | .enqueue t _ => some (.caller t)
  | .test | .size _ | .dequeue _ | .write | .flush | .sleep => some .worker
  | .join => some .destructor
  | .init _ | .log .. | .destroy => none

/-- There is nothing for the worker to do. -/
def idle (l : Logger T) : Bool :=
  l.running && l.queue.isEmpty

/-- What there is for a thread to do. -/
def Busy (t : Thread T) (l : Logger T) : Prop :=
  match t with
  | .caller t => t ∈ l.pending.map Prod.fst
  | .worker =>
      l.worker ≠ .none ∧ l.worker ≠ .returned ∧ (l.idle = false ∨ l.worker.items ≠ [])
  | .destructor => l.lifetime = .joining ∧ (l.worker = .none ∨ l.worker = .returned)

/-- The queue tells the worker whether it is empty, and gives something when it is not. -/
def Honest (l : Logger T) : Action T → Prop
  | .size count => count = 0 ↔ l.queue = []
  | .dequeue picks => picks = [] → l.queue = []
  | .init _ | .log .. | .logOff _ | .enqueue .. | .test | .write | .flush | .sleep | .destroy
  | .join => True

instance (l : Logger T) : (a : Action T) → Decidable (l.Honest a)
  | .size count => inferInstanceAs (Decidable (count = 0 ↔ l.queue = []))
  | .dequeue picks => inferInstanceAs (Decidable (picks = [] → l.queue = []))
  | .init _ | .log .. | .logOff _ | .enqueue .. | .test | .write | .flush | .sleep | .destroy
  | .join => isTrue trivial

/-- The action gets something done. -/
def useful (l : Logger T) : Action T → Bool
  | .enqueue .. | .write | .join => true
  | .test | .size _ | .dequeue _ | .flush | .sleep => !l.idle
  | .init _ | .log .. | .logOff _ | .destroy => false

/-- How far the worker is from being done with what it has; nothing is far while there is
nothing to do. -/
def Stage.rank (idle empty : Bool) : Stage T → ℕ
  | .none | .returned => 0
  | .testing => bif idle then 0 else 3
  | .sizing => bif idle then 0 else 2
  | .dequeuing => bif idle then 0 else bif empty then 5 else 1
  | .writing items => items.length + bif idle then 0 else 4
  | .sleeping => bif idle then 0 else 4

omit [DecidableEq T] in
theorem Stage.rank_filled (stage : Stage T) (idle empty : Bool) :
    stage.rank false false ≤ stage.rank idle empty + 4 := by
  cases stage <;> cases idle <;> cases empty <;> simp [Stage.rank]

omit [DecidableEq T] in
theorem Stage.rank_awake (stage : Stage T) (idle empty : Bool) :
    stage.rank false empty ≤ stage.rank idle empty + 5 := by
  cases stage <;> cases idle <;> cases empty <;> simp [Stage.rank]

def lifetimeRank (l : Logger T) : ℕ :=
  if l.lifetime = .joining then 1 else 0

/-- What is left to be done. -/
def rank (l : Logger T) : ℕ :=
  10 * l.pending.length + 5 * l.queue.length + l.worker.rank l.idle l.queue.isEmpty
    + l.lifetimeRank

def Action.brings : Action T → ℕ
  | .init _ => 3
  | .log .. => 10
  | .destroy => 6
  | .logOff _ | .enqueue .. | .test | .size _ | .dequeue _ | .write | .flush | .sleep | .join => 0

omit [DecidableEq T] in
/-- The worker moves on. -/
theorem rank_goOn (stage : Stage T) (hless : stage.rank l.idle l.queue.isEmpty + (!l.idle).toNat
      ≤ l.worker.rank l.idle l.queue.isEmpty) :
    ({ l with worker := stage } : Logger T).rank + (!l.idle).toNat ≤ l.rank := by
  show 10 * l.pending.length + 5 * l.queue.length + stage.rank l.idle l.queue.isEmpty
    + l.lifetimeRank + (!l.idle).toNat ≤ _
  rw [rank]
  omega

theorem rank_step (hhonest : l.Honest a) (h : l.step putTime a = some l') :
    l'.rank + (l.useful a).toNat ≤ l.rank + a.brings := by
  cases step_spec h with
  | stay | logOff =>
      rw [useful, Bool.toNat_false, Nat.add_zero]
      exact Nat.le_add_right _ _
  | init halive hoff hnone =>
      have hstage : (Stage.testing : Stage T).rank (true && l.queue.isEmpty) l.queue.isEmpty
          ≤ 3 := by
        cases hempty : l.queue.isEmpty <;> simp [Stage.rank]
      simp only [rank, lifetimeRank, idle, useful, Action.brings, Bool.toNat_false]
      omega
  | log t level msg =>
      simp only [rank, lifetimeRank, idle, useful, Action.brings, ProducerQueue.length_enqueue,
        List.length_singleton, Bool.toNat_false]
      omega
  | enqueue t now call rest hcall entry hentry =>
      have hlength := ProducerQueue.length_dequeue hcall
      have hstage := l.worker.rank_filled l.idle l.queue.isEmpty
      have hempty : (l.queue.enqueue t [entry]).isEmpty = false := by
        simp [ProducerQueue.enqueue]
      simp only [rank, lifetimeRank, useful, Action.brings, ProducerQueue.length_enqueue,
        List.length_singleton, Bool.toNat_true, hempty, idle, Bool.and_false] at hstage ⊢
      omega
  | test hat =>
      refine rank_goOn _ ?_
      rw [hat, idle]
      cases l.running <;> cases l.queue.isEmpty <;> simp [Stage.rank]
  | size count hat =>
      refine rank_goOn _ ?_
      have hcount : count = 0 ↔ l.queue.isEmpty = true := hhonest.trans List.isEmpty_iff.symm
      rw [hat]
      rcases Nat.eq_zero_or_pos count with hzero | hpos
      · rw [if_neg (by omega)]
        cases l.idle <;> simp [Stage.rank]
      · have hfull : l.queue.isEmpty = false :=
          Bool.eq_false_iff.mpr fun hempty => hpos.ne' (hcount.mpr hempty)
        rw [if_pos hpos, hfull]
        cases l.idle <;> simp [Stage.rank]
  | dequeue picks as rest hat hout =>
      obtain ⟨hlength, hqueue⟩ := ProducerQueue.length_dequeueBulk hout
      by_cases hnone : picks = []
      · obtain rfl := hnone
        obtain ⟨rfl, rfl⟩ := Prod.mk.inj (Option.some.inj hout)
        refine rank_goOn _ ?_
        rw [hat, if_pos rfl, List.isEmpty_iff.mpr (hhonest rfl)]
        cases l.idle <;> simp [Stage.rank]
      · have hpicks : 0 < picks.length := List.length_pos_iff.mpr hnone
        have hfull : l.queue.isEmpty = false :=
          List.isEmpty_eq_false_iff.mpr (List.ne_nil_of_length_pos (by omega))
        have hbusy : l.idle = false := by rw [idle, hfull, Bool.and_false]
        have hitems : (picks.zip as).length = picks.length := by
          rw [List.length_zip, hlength, Nat.min_self]
        have hstage : ∀ idle empty : Bool, (Stage.writing (picks.zip as)).rank idle empty
            ≤ picks.length + 4 := by
          intro idle empty
          rw [Stage.rank, hitems]
          cases idle <;> simp
        have hnow : l.worker.rank false l.queue.isEmpty = 1 := by
          rw [hat, hfull]
          rfl
        have hnext := hstage (l.running && rest.isEmpty) rest.isEmpty
        simp only [rank, lifetimeRank, useful, Action.brings, hnow, hbusy, if_neg hnone,
          Bool.not_false, Bool.toNat_true]
        simp only [idle]
        omega
  | write e items hat =>
      simp only [rank, lifetimeRank, useful, Action.brings, idle, hat, Stage.rank,
        List.length_cons, Bool.toNat_true]
      omega
  | flush hat =>
      refine rank_goOn _ ?_
      rw [hat]
      cases l.idle <;> simp [Stage.rank]
  | sleep hat =>
      refine rank_goOn _ ?_
      rw [hat]
      cases l.idle <;> simp [Stage.rank]
  | destroy halive =>
      have hstage := l.worker.rank_awake l.idle l.queue.isEmpty
      simp only [rank, lifetimeRank, useful, Action.brings, idle, Bool.toNat_false, halive,
        Bool.false_and] at hstage ⊢
      simp
      omega
  | join hat hdone =>
      simp only [rank, lifetimeRank, useful, Action.brings, idle, Bool.toNat_true, hat]
      simp

theorem useful_of_busy {t : Thread T} (hthread : a.thread = some t) (hbusy : l.Busy t)
    (hhonest : l.Honest a) (h : l.step putTime a = some l') : l.useful a = true := by
  cases t with
  | caller t =>
      cases step_spec h with
      | logOff t' hfree =>
          obtain rfl := Thread.caller.inj (Option.some.inj hthread)
          exact absurd hbusy hfree
      | enqueue => rfl
      | _ => cases hthread
  | worker =>
      obtain ⟨-, -, hwork⟩ := hbusy
      cases step_spec h with
      | write => rfl
      | test hat | size _ hat | dequeue _ _ _ hat | flush hat | sleep hat =>
          have hidle : l.idle = false := hwork.resolve_right fun h => h (by rw [hat]; rfl)
          rw [useful, hidle]
          rfl
      | _ => cases hthread
  | destructor =>
      cases step_spec h with
      | join => rfl
      | _ => cases hthread

/-- What others do leaves a thread busy. -/
theorem busy_step {t : Thread T} (hbusy : l.Busy t) (hother : a.thread ≠ some t)
    (h : l.step putTime a = some l') : l'.Busy t := by
  cases t with
  | caller t =>
      cases step_spec h with
      | log t' level msg =>
          show t ∈ (l.pending ++ [(t', level, msg)]).map Prod.fst
          rw [List.map_append]
          exact List.mem_append_left _ hbusy
      | enqueue t' now call rest hcall =>
          exact ProducerQueue.mem_dequeue hcall (fun heq => hother (by rw [heq]; rfl)) hbusy
      | _ => exact hbusy
  | worker =>
      obtain ⟨hnone, hreturned, hwork⟩ := hbusy
      cases step_spec h with
      | stay | log | logOff | join => exact ⟨hnone, hreturned, hwork⟩
      | init halive hoff hnone' => exact absurd hnone' hnone
      | enqueue =>
          refine ⟨hnone, hreturned, .inl ?_⟩
          simp [idle, ProducerQueue.enqueue]
      | destroy => exact ⟨hnone, hreturned, .inl rfl⟩
      | _ => exact absurd rfl hother
  | destructor =>
      obtain ⟨hjoining, hstopped⟩ := hbusy
      cases step_spec h with
      | stay | log | logOff | enqueue => exact ⟨hjoining, hstopped⟩
      | init halive | destroy halive =>
          rw [hjoining] at halive
          cases halive
      | test hat | size _ hat | dequeue _ _ _ hat | write _ _ hat | flush hat | sleep hat =>
          rcases hstopped with h | h <;> rw [hat] at h <;> cases h
      | join => exact absurd rfl hother

/-- A busy thread can move. -/
theorem able {t : Thread T} (hbusy : l.Busy t) :
    ∃ a : Action T, a.thread = some t ∧ l.Honest a ∧ (l.step putTime a).isSome = true := by
  cases t with
  | caller t =>
      obtain ⟨call, rest, hcall⟩ := ProducerQueue.exists_dequeue hbusy
      refine ⟨.enqueue t 0, rfl, trivial, ?_⟩
      simp [step, hcall]
  | worker =>
      obtain ⟨hnone, hreturned, -⟩ := hbusy
      cases hworker : l.worker with
      | none => exact absurd hworker hnone
      | returned => exact absurd hworker hreturned
      | testing => exact ⟨.test, rfl, trivial, by simp [step, hworker]⟩
      | sizing =>
          refine ⟨.size l.queue.length, rfl, List.length_eq_zero_iff, ?_⟩
          simp [step, hworker]
      | dequeuing =>
          cases hqueue : l.queue with
          | nil =>
              refine ⟨.dequeue [], rfl, fun _ => hqueue, ?_⟩
              simp [step, hworker, ProducerQueue.dequeueBulk]
          | cons e rest =>
              refine ⟨.dequeue [e.1], rfl, fun h => absurd h (List.cons_ne_nil _ _), ?_⟩
              simp [step, hworker, hqueue, ProducerQueue.dequeueBulk, ProducerQueue.dequeue,
                batchSize]
      | writing items =>
          cases items with
          | nil => exact ⟨.flush, rfl, trivial, by simp [step, hworker]⟩
          | cons e items => exact ⟨.write, rfl, trivial, by simp [step, hworker]⟩
      | sleeping => exact ⟨.sleep, rfl, trivial, by simp [step, hworker]⟩
  | destructor =>
      obtain ⟨hjoining, hstopped⟩ := hbusy
      refine ⟨.join, rfl, trivial, ?_⟩
      rcases hstopped with h | h <;> simp [step, hjoining, h]

variable (T putTime) in
def workload : Workload (step (T := T) putTime) (Thread T) where
  Inv _ := True
  inv_step _ _ _ := trivial
  thread := Action.thread
  Busy := Busy
  Honest := Honest
  useful := useful
  rank := rank
  brings := Action.brings
  brings_thread {a t} h := by cases a <;> first | rfl | cases h
  rank_step _ := rank_step
  useful_of_busy := useful_of_busy
  busy_step := busy_step
  able _ := able

theorem step_logOff (t : T) (hoff : l.running = false) (hpending : l.pending = []) :
    l.step putTime (.logOff t) = some l :=
  if_pos ⟨hoff, by rw [hpending]; exact List.not_mem_nil⟩

/-- The destructor has been entered. -/
structure Ending (l : Logger T) : Prop where
  not_alive : l.lifetime ≠ .alive
  off : l.running = false

theorem Ending.step (hending : Ending l) (h : l.step putTime a = some l') : Ending l' := by
  obtain ⟨hlifetime, hoff⟩ := hending
  cases step_spec h with
  | init halive => exact absurd halive hlifetime
  | destroy halive => exact absurd halive hlifetime
  | join => exact ⟨by simp, hoff⟩
  | _ => exact ⟨hlifetime, hoff⟩

theorem Ending.of_destroy (h : l.step putTime .destroy = some l') : Ending l' := by
  cases step_spec h with
  | destroy => exact ⟨by simp, rfl⟩

/-- Where nobody is busy the destructor has joined the worker. -/
theorem Ending.joined (hending : Ending l) (hidle : ∀ t, ¬ l.Busy t) : l.lifetime = .joined := by
  have hstopped : l.worker = .none ∨ l.worker = .returned := by
    by_contra hworking
    obtain ⟨hnone, hreturned⟩ := not_or.mp hworking
    exact hidle .worker ⟨hnone, hreturned, .inl (by rw [idle, hending.off]; rfl)⟩
  cases hlifetime : l.lifetime with
  | alive => exact absurd hlifetime hending.not_alive
  | joining => exact absurd ⟨hlifetime, hstopped⟩ (hidle .destructor)
  | joined => rfl

end Logger

open Logger in
/-- **The logger stops.**  When the destructor has been entered and no more messages come,
it joins the worker in the end, and by then no call of `log` is under way. -/
theorem logger_stops {T : Type*} [DecidableEq T] (putTime : ℕ → String)
    (r : InfiniteRun (step (T := T) putTime)) (hhonest : ∀ n, (r.state n).Honest (r.action n))
    (hdestroy : ∃ n, r.action n = .destroy)
    (hquiet : ∀ᶠ n in atTop, (r.action n).thread.isSome)
    (hfair : ∀ t, (∀ᶠ n in atTop, (r.state n).Busy t) →
      ∃ᶠ n in atTop, (r.action n).thread = some t) :
    ∀ᶠ n in atTop, (r.state n).lifetime = .joined ∧ (r.state n).pending = [] := by
  have hidle := Workload.eventually_idle (w := workload T putTime) r trivial hhonest hquiet hfair
  obtain ⟨N, hN⟩ := hdestroy
  have hending : ∀ n, N + 1 ≤ n → Ending (r.state n) := by
    intro n hn
    induction n, hn using Nat.le_induction with
    | base => exact .of_destroy (hN ▸ r.moves N)
    | succ n _ ih => exact ih.step (r.moves n)
  filter_upwards [hidle, eventually_ge_atTop (N + 1)] with n hn hlate
  refine ⟨(hending n hlate).joined hn, List.eq_nil_iff_forall_not_mem.mpr fun call hcall => ?_⟩
  exact hn (.caller call.1) (List.mem_map_of_mem hcall)

namespace Logger

/-- The run of `twoThreads`, after which `false` finds the logger off again and again. -/
def twoThreadsForever : InfiniteRun (step (T := Bool) fun _ => "12:00:00") :=
  .ending twoThreadsEnd_run (step_logOff false (by rfl) (by rfl))

theorem twoThreadsEnd_done (t : Thread Bool) : ¬ twoThreadsEnd.Busy t := by
  cases t with
  | caller t => exact List.not_mem_nil
  | worker => exact fun hbusy => hbusy.2.1 rfl
  | destructor => exact fun hbusy => nomatch hbusy.1

end Logger

open Logger in
theorem logger_stops_twoThreads : ∀ᶠ n in atTop,
    (twoThreadsForever.state n).lifetime = .joined ∧
      (twoThreadsForever.state n).pending = [] := by
  refine logger_stops _ twoThreadsForever ?_ ⟨11, rfl⟩ ?_ ?_
  · exact InfiniteRun.ending_along twoThreadsEnd_run _ (by decide) trivial
  · refine eventually_atTop.mpr ⟨twoThreads.length, fun n hn => ?_⟩
    rw [twoThreadsForever, InfiniteRun.ending_action _ _ hn]
    rfl
  · intro t hbusy
    obtain ⟨n, hbusy, hn⟩ := (hbusy.and (eventually_ge_atTop twoThreads.length)).exists
    rw [twoThreadsForever, InfiniteRun.ending_state _ _ hn] at hbusy
    exact absurd hbusy (twoThreadsEnd_done t)

end ExchangeServer
