import ExchangeServer.Lib.Runs
import ExchangeServer.Replay

/-!
# The pipeline

The way of an event through the server: a handler appends it to the log queue, the
log thread takes it in a batch, writes its record and forwards it, and the worker of
its ticker takes it in a batch of its own and processes it.  `Pipeline.step` is what
the threads of the pipeline can do, in any order; the events it is given are any.

What an action does is written down as a `Signal`, and the trace of a run is the list
of its signals: what was appended, written, forwarded and processed is read off the
trace.  `Step` says what each signal does to the pipeline, and `step_spec` that an
action does what its signal says; everything about the order in which events are
handled uses `Step` only.

`runs_staffed` is the first result: every worker is given the events forwarded for its
ticker, in that order, and it has made of those it processed what a replica makes of
them.
-/

namespace ExchangeServer

open Lib

/-! ## The threads -/

/-- The log and the engine. -/
structure Pipeline where
  wal : WALManager
  engine : MatchingEngine

/-- What a thread of the pipeline can do. -/
inductive PipelineAction where
  | append (thread : ThreadId) (ev : EngineEvent)
  | logDequeue (picks : List ThreadId)
  | logWrite (now : ℕ → UInt64) (count : ℕ)
  | logForward
  | workerDequeue (tickerId : UInt32) (count : ℕ)
  | workerProcess (tickerId : UInt32) (clock : ℕ → UInt64) (now : UInt64)
  | workerPush (tickerId : UInt32)

/-- `appendOrder` or `appendCancel`, by the kind of the event. -/
def WALManager.append (wal : WALManager) (thread : ThreadId) : EngineEvent → WALManager
  | .newOrder order => wal.appendOrder thread order
  | .cancelOrder tickerId cancelOrderId cancelUserId =>
      wal.appendCancel thread tickerId cancelOrderId cancelUserId

theorem WALManager.append_eq (wal : WALManager) (thread : ThreadId) (ev : EngineEvent) :
    wal.append thread ev = { wal with queue := wal.queue.enqueue thread [ev] } := by
  cases ev <;> rfl

namespace Pipeline

/-- The pipeline as `main` starts it, with a book for every ticker. -/
def start (ids : List UInt32) (walFile : Option (List WALRecord)) : Pipeline where
  wal := WALManager.new walFile
  engine := ids.foldl MatchingEngine.init MatchingEngine.new

/-- The next event of the batch goes to the engine. -/
def logForward (x : Pipeline) : Option Pipeline :=
  match x.wal.written, x.wal.buffer with
  | true, ev :: rest =>
      some ⟨{ x.wal with buffer := rest }, (WALManager.forward x.engine ev).1⟩
  | _, _ => none

/-- The worker of a ticker takes a step of its loop. -/
def withWorker (x : Pipeline) (tickerId : UInt32)
    (loop : OrderBookProcessor → Option OrderBookProcessor) : Option Pipeline :=
  (x.engine.orderBooks.lookup tickerId).bind fun p =>
    (loop p).map fun p' => { x with engine := ⟨x.engine.orderBooks.insert tickerId p'⟩ }

/-- **One action of some thread.** -/
def step (x : Pipeline) : PipelineAction → Option Pipeline
  | .append thread ev => some { x with wal := x.wal.append thread ev }
  | .logDequeue picks => (x.wal.dequeue picks).map fun wal => { x with wal }
  | .logWrite now count => (x.wal.write now count).map fun wal => { x with wal }
  | .logForward => x.logForward
  | .workerDequeue t count => x.withWorker t fun p => p.dequeue count
  | .workerProcess t clock now => x.withWorker t fun p => (p.processNext clock now).map Prod.fst
  | .workerPush t => x.withWorker t fun p => p.pushRecords.map Prod.fst

end Pipeline

/-! ## Signals -/

/-- What an action does. -/
inductive Signal where
  | append (thread : ThreadId) (ev : EngineEvent)
  | dequeue (picks : List ThreadId)
  /-- The records that `fwrite` reports as written. -/
  | write (records : List WALRecord)
  | forward (ev : EngineEvent)
  | take (tickerId : UInt32) (count : ℕ)
  /-- A worker has processed an event, with the records it made. -/
  | process (tickerId : UInt32) (ev : EngineEvent) (traded : List MatchRecord)
      (cancelled : List CancelRecord)
  | push (tickerId : UInt32)

/-- The records that `fwrite` writes when it writes `count` of them: none when the
file could not be opened. -/
def WALManager.fwritten (wal : WALManager) (now : ℕ → UInt64) (count : ℕ) : List WALRecord :=
  match wal.walFile with
  | none => []
  | some _ => (wal.buffer.mapIdx fun i ev => WALRecord.ofEvent (now i) ev).take count

namespace Pipeline

/-- **What the pipeline does on a signal.** -/
inductive Step (x : Pipeline) : Signal → Pipeline → Prop
  | append (thread : ThreadId) (ev : EngineEvent) :
      Step x (.append thread ev)
        { x with wal := { x.wal with queue := x.wal.queue.enqueue thread [ev] } }
  | dequeue (picks : List ThreadId) (batch : List EngineEvent)
      (queue : ProducerQueue ThreadId EngineEvent) (idle : x.wal.buffer = [])
      (h : ProducerQueue.dequeueBulk picks x.wal.queue = some (batch, queue)) :
      Step x (.dequeue picks)
        { x with wal := { x.wal with queue := queue, buffer := batch, written := false } }
  | write (now : ℕ → UInt64) (count : ℕ) (unwritten : x.wal.written = false)
      (h : count ≤ x.wal.buffer.length) :
      Step x (.write (x.wal.fwritten now count))
        { x with wal := { x.wal with
            written := true
            walFile := x.wal.walFile.map (· ++ x.wal.fwritten now count) } }
  | forward (ev : EngineEvent) (rest : List EngineEvent) (written : x.wal.written = true)
      (h : x.wal.buffer = ev :: rest) :
      Step x (.forward ev)
        { wal := { x.wal with buffer := rest }, engine := (WALManager.forward x.engine ev).1 }
  | take (t : UInt32) (count : ℕ) (p : OrderBookProcessor)
      (worker : x.engine.orderBooks.lookup t = some p)
      (idle : p.buffer = []) (pushed : p.results = []) :
      Step x (.take t count)
        { x with engine := ⟨x.engine.orderBooks.insert t
            { p with buffer := p.queue.take count, queue := p.queue.drop count }⟩ }
  | process (t : UInt32) (p : OrderBookProcessor) (ev : EngineEvent) (rest : List EngineEvent)
      (clock : ℕ → UInt64) (now : UInt64) (out : OrderBookProcessor × Option CancelRecord)
      (worker : x.engine.orderBooks.lookup t = some p) (h : p.buffer = ev :: rest)
      (hout : OrderBookProcessor.processEvent clock now { p with buffer := rest } ev = out) :
      Step x (.process t ev (out.1.results.drop p.results.length) out.2.toList)
        { x with engine := ⟨x.engine.orderBooks.insert t out.1⟩ }
  | push (t : UInt32) (p : OrderBookProcessor)
      (worker : x.engine.orderBooks.lookup t = some p) (h : p.buffer = []) :
      Step x (.push t)
        { x with engine := ⟨x.engine.orderBooks.insert t { p with results := [] }⟩ }

/-- What an action does, if it can be taken. -/
def signal (x : Pipeline) : PipelineAction → Option Signal
  | .append thread ev => some (.append thread ev)
  | .logDequeue picks => some (.dequeue picks)
  | .logWrite now count => some (.write (x.wal.fwritten now count))
  | .logForward => x.wal.buffer.head?.map .forward
  | .workerDequeue t count => some (.take t count)
  | .workerProcess t clock now =>
      (x.engine.orderBooks.lookup t).bind fun p =>
        p.buffer.head?.bind fun ev => (p.processNext clock now).map fun out =>
          .process t ev (out.1.results.drop p.results.length) out.2.toList
  | .workerPush t => some (.push t)

/-- **An action does what its signal says.** -/
theorem step_spec {x x' : Pipeline} {a : PipelineAction} (hstep : x.step a = some x') :
    ∃ σ, x.signal a = some σ ∧ x.Step σ x' := by
  cases a with
  | append thread ev =>
      obtain rfl := Option.some.inj hstep
      rw [WALManager.append_eq]
      exact ⟨_, rfl, .append thread ev⟩
  | logDequeue picks =>
      obtain ⟨wal, hwal, rfl⟩ := Option.map_eq_some_iff.mp hstep
      obtain ⟨hidle, batch, queue, hdequeue, rfl⟩ := WALManager.dequeue_eq_some hwal
      exact ⟨_, rfl, .dequeue picks batch queue hidle hdequeue⟩
  | logWrite now count =>
      obtain ⟨wal, hwal, rfl⟩ := Option.map_eq_some_iff.mp hstep
      obtain ⟨hready, rfl⟩ := WALManager.write_eq_some hwal
      have hfile : x.wal.walFile.map (· ++ x.wal.fwritten now count)
          = x.wal.walFile.map (· ++
            (x.wal.buffer.mapIdx fun i ev => WALRecord.ofEvent (now i) ev).take count) := by
        unfold WALManager.fwritten
        cases x.wal.walFile <;> rfl
      have hwrite := Step.write (x := x) now count hready.1 hready.2
      rw [hfile] at hwrite
      exact ⟨_, rfl, hwrite⟩
  | logForward =>
      change x.logForward = some x' at hstep
      unfold logForward at hstep
      split at hstep
      case h_2 => cases hstep
      case h_1 ev rest hwritten hbuffer =>
        obtain rfl := Option.some.inj hstep
        refine ⟨.forward ev, ?_, .forward ev rest hwritten hbuffer⟩
        rw [signal, hbuffer]
        rfl
  | workerDequeue t count =>
      obtain ⟨p, hp, hstep⟩ := Option.bind_eq_some_iff.mp hstep
      obtain ⟨p', hp', rfl⟩ := Option.map_eq_some_iff.mp hstep
      obtain ⟨hidle, rfl⟩ := OrderBookProcessor.dequeue_eq_some hp'
      exact ⟨_, rfl, .take t count p hp hidle.1 hidle.2.1⟩
  | workerProcess t clock now =>
      obtain ⟨p, hp, hstep⟩ := Option.bind_eq_some_iff.mp hstep
      obtain ⟨p', hp', rfl⟩ := Option.map_eq_some_iff.mp hstep
      obtain ⟨out, hout, rfl⟩ := Option.map_eq_some_iff.mp hp'
      obtain ⟨ev, rest, hbuffer, heq⟩ := OrderBookProcessor.processNext_eq_some hout
      refine ⟨_, ?_, .process t p ev rest clock now out hp hbuffer heq.symm⟩
      simp only [signal, hp, Option.bind_some, hbuffer, List.head?_cons, hout, Option.map_some]
  | workerPush t =>
      obtain ⟨p, hp, hstep⟩ := Option.bind_eq_some_iff.mp hstep
      obtain ⟨p', hp', rfl⟩ := Option.map_eq_some_iff.mp hstep
      obtain ⟨out, hout, rfl⟩ := Option.map_eq_some_iff.mp hp'
      obtain ⟨hready, rfl⟩ := OrderBookProcessor.pushRecords_eq_some hout
      exact ⟨_, rfl, .push t p hp hready.1⟩

end Pipeline

/-! ## Traces -/

namespace Signal

def appended? : Signal → Option EngineEvent
  | append _ ev => some ev
  | _ => none

def forwarded? : Signal → Option EngineEvent
  | forward ev => some ev
  | _ => none

def written : Signal → List WALRecord
  | write records => records
  | _ => []

def processed (t : UInt32) : Signal → List EngineEvent
  | process t' ev _ _ => if t' = t then [ev] else []
  | _ => []

def traded (t : UInt32) : Signal → List MatchRecord
  | process t' _ traded _ => if t' = t then traded else []
  | _ => []

def cancelled (t : UInt32) : Signal → List CancelRecord
  | process t' _ _ cancelled => if t' = t then cancelled else []
  | _ => []

end Signal

/-- The signals of a run, oldest first. -/
abbrev Trace := List Signal

namespace Trace

/-- The events appended to the log queue. -/
def appended (tr : Trace) : List EngineEvent :=
  tr.filterMap Signal.appended?

/-- The events handed to `MatchingEngine::processOrder` or `CancelOrder`. -/
def forwarded (tr : Trace) : List EngineEvent :=
  tr.filterMap Signal.forwarded?

/-- The records that `fwrite` reported as written. -/
def written (tr : Trace) : List WALRecord :=
  tr.flatMap Signal.written

/-- The events that the book of a ticker has processed. -/
def processed (tr : Trace) (t : UInt32) : List EngineEvent :=
  tr.flatMap (Signal.processed t)

/-- The match records that the worker of a ticker has made. -/
def traded (tr : Trace) (t : UInt32) : List MatchRecord :=
  tr.flatMap (Signal.traded t)

/-- The cancel records that the worker of a ticker has made. -/
def cancelled (tr : Trace) (t : UInt32) : List CancelRecord :=
  tr.flatMap (Signal.cancelled t)

section Snoc

variable (tr : Trace) (σ : Signal) (t : UInt32)

theorem appended_snoc : appended (tr ++ [σ]) = tr.appended ++ σ.appended?.toList := by
  rw [appended, List.filterMap_append]
  cases h : σ.appended? <;> simp [h, appended]

theorem forwarded_snoc : forwarded (tr ++ [σ]) = tr.forwarded ++ σ.forwarded?.toList := by
  rw [forwarded, List.filterMap_append]
  cases h : σ.forwarded? <;> simp [h, forwarded]

theorem written_snoc : written (tr ++ [σ]) = tr.written ++ σ.written := by
  simp [written]

theorem processed_snoc : processed (tr ++ [σ]) t = tr.processed t ++ σ.processed t := by
  simp [processed]

theorem traded_snoc : traded (tr ++ [σ]) t = tr.traded t ++ σ.traded t := by
  simp [traded]

theorem cancelled_snoc : cancelled (tr ++ [σ]) t = tr.cancelled t ++ σ.cancelled t := by
  simp [cancelled]

end Snoc

end Trace

/-- The trace of a run. -/
def Pipeline.trace (x : Pipeline) (actions : List PipelineAction) : Trace :=
  follow (fun x a tr => tr ++ (x.signal a).toList) Pipeline.step x [] actions

/-! ## Workers and replicas -/

namespace Pipeline

variable {x x' : Pipeline} {σ : Signal} {tr : Trace}

/-- The worker of `t` is given what is forwarded for `t`, and has made of what it
processed what a replica makes of it. -/
structure Line (tr : Trace) (t : UInt32) (p : OrderBookProcessor) : Prop where
  events : routed t tr.forwarded = tr.processed t ++ (p.buffer ++ p.queue)
  follows : ∀ clock now,
    (Replica.replay clock now t (tr.processed t)).Follows p (tr.traded t) (tr.cancelled t)

/-- Every worker is in line. -/
def Lines (tr : Trace) (x : Pipeline) : Prop :=
  ∀ t p, x.engine.orderBooks.lookup t = some p → Line tr t p

/-- A signal that the worker does not take part in. -/
theorem Line.congr {t : UInt32} {p p' : OrderBookProcessor} (h : Line tr t p)
    (hforward : routed t σ.forwarded?.toList = []) (hprocess : σ.processed t = [])
    (htraded : σ.traded t = []) (hcancelled : σ.cancelled t = [])
    (hevents : p'.buffer ++ p'.queue = p.buffer ++ p.queue) (hbook : p'.book = p.book) :
    Line (tr ++ [σ]) t p' := by
  refine ⟨?_, fun clock now => ?_⟩
  · rw [Trace.forwarded_snoc, Trace.processed_snoc, routed_append, hforward, hprocess, hevents,
      List.append_nil, List.append_nil]
    exact h.events
  · rw [Trace.processed_snoc, Trace.traded_snoc, Trace.cancelled_snoc, hprocess, htraded,
      hcancelled, List.append_nil, List.append_nil, List.append_nil]
    exact (h.follows clock now).congr hbook

/-- A signal that only the worker of `t'` takes part in. -/
theorem Lines.of_insert (h : Lines tr x) {t' : UInt32} {p' : OrderBookProcessor}
    (hline : Line (tr ++ [σ]) t' p') (hforward : σ.forwarded? = none)
    (hothers : ∀ t ≠ t', σ.processed t = [] ∧ σ.traded t = [] ∧ σ.cancelled t = []) (wal) :
    Lines (tr ++ [σ]) ⟨wal, ⟨x.engine.orderBooks.insert t' p'⟩⟩ := by
  refine UnorderedMap.forall_lookup_insert hline fun t p ht hp => ?_
  obtain ⟨hprocess, htraded, hcancelled⟩ := hothers t ht
  refine (h t p hp).congr ?_ hprocess htraded hcancelled rfl rfl
  rw [hforward]
  rfl

/-- **A step keeps every worker in line.** -/
theorem Lines.step (h : Lines tr x) (hstep : x.Step σ x') : Lines (tr ++ [σ]) x' := by
  intro t p hp
  cases hstep with
  | append thread ev => exact (h t p hp).congr rfl rfl rfl rfl rfl rfl
  | dequeue picks batch queue idle hbulk => exact (h t p hp).congr rfl rfl rfl rfl rfl rfl
  | write now count unwritten hle => exact (h t p hp).congr rfl rfl rfl rfl rfl rfl
  | forward ev rest written hbuffer =>
      change (WALManager.forward x.engine ev).1.orderBooks.lookup t = some p at hp
      rw [WALManager.forward_lookup] at hp
      obtain ⟨p₀, hp₀, rfl⟩ := Option.map_eq_some_iff.mp hp
      have hline := h t p₀ hp₀
      by_cases ht : ev.tickerId = t
      · -- The event joins the back of the queue, and is not processed yet.
        rw [if_pos ht]
        refine ⟨?_, fun clock now => ?_⟩
        · rw [Trace.forwarded_snoc, Trace.processed_snoc, routed_append, hline.events]
          show _ ++ routed t [ev] = _ ++ [] ++ (p₀.buffer ++ (p₀.queue ++ [ev.delivered]))
          rw [routed_singleton, if_pos ht]
          simp only [List.append_assoc, List.nil_append]
        · rw [Trace.processed_snoc, Trace.traded_snoc, Trace.cancelled_snoc]
          show (Replica.replay clock now t (tr.processed t ++ [])).Follows _
            (tr.traded t ++ []) (tr.cancelled t ++ [])
          rw [List.append_nil, List.append_nil, List.append_nil]
          exact (hline.follows clock now).congr rfl
      · rw [if_neg ht]
        refine hline.congr ?_ rfl rfl rfl rfl rfl
        show routed t [ev] = []
        rw [routed_singleton, if_neg ht]
  | take t' count p₀ worker idle pushed =>
      refine Lines.of_insert h ?_ rfl (fun _ _ => ⟨rfl, rfl, rfl⟩) _ t p hp
      refine (h t' p₀ worker).congr rfl rfl rfl rfl ?_ rfl
      rw [idle, List.take_append_drop, List.nil_append]
  | process t' p₀ ev rest clock now out worker hbuffer hout =>
      refine Lines.of_insert h ?_ rfl (fun t ht => ?_) _ t p hp
      · have hline := h t' p₀ worker
        have hqueues : out.1.buffer = rest ∧ out.1.queue = p₀.queue := by
          rw [← hout]
          cases ev <;> exact ⟨rfl, rfl⟩
        refine ⟨?_, fun clock' now' => ?_⟩
        · rw [Trace.forwarded_snoc, Trace.processed_snoc, routed_append, hline.events, hbuffer,
            hqueues.1, hqueues.2]
          show _ ++ [] = _ ++ (if t' = t' then [ev] else []) ++ _
          rw [if_pos rfl, List.append_nil, List.append_assoc]
          rfl
        · have hreplay : Replica.Follows _ { p₀ with buffer := rest } _ _ :=
            (hline.follows clock' now').congr rfl
          have hdone := hreplay.process clock clock' now now' ev
          rw [hout] at hdone
          rw [Trace.processed_snoc, Trace.traded_snoc, Trace.cancelled_snoc]
          simp only [Signal.processed, Signal.traded, Signal.cancelled, if_true,
            Replica.replay_append]
          exact hdone
      · simp only [Signal.processed, Signal.traded, Signal.cancelled, if_neg (Ne.symm ht),
          and_self]
  | push t' p₀ worker hbuffer =>
      refine Lines.of_insert h ?_ rfl (fun _ _ => ⟨rfl, rfl, rfl⟩) _ t p hp
      exact (h t' p₀ worker).congr rfl rfl rfl rfl rfl rfl

/-- A step adds and removes no worker. -/
theorem Step.isSome_lookup (hstep : x.Step σ x') (t : UInt32) :
    (x'.engine.orderBooks.lookup t).isSome = (x.engine.orderBooks.lookup t).isSome := by
  have hinsert : ∀ t' p' p₀, x.engine.orderBooks.lookup t' = some p₀ →
      ((AList.insert t' p' x.engine.orderBooks).lookup t).isSome
        = (x.engine.orderBooks.lookup t).isSome := by
    intro t' p' p₀ hp₀
    rw [UnorderedMap.lookup_insert_eq]
    split_ifs with ht
    · rw [ht, hp₀]
      rfl
    · rfl
  cases hstep with
  | forward ev rest written hbuffer =>
      show ((WALManager.forward x.engine ev).1.orderBooks.lookup t).isSome = _
      rw [WALManager.forward_lookup, Option.isSome_map]
  | take t' count p₀ worker idle pushed => exact hinsert t' _ p₀ worker
  | process t' p₀ ev rest clock now out worker hbuffer hout => exact hinsert t' _ p₀ worker
  | push t' p₀ worker hbuffer => exact hinsert t' _ p₀ worker
  | _ => rfl

/-! ## Nothing is lost on the way -/

/-- The events appended are those forwarded and those still in the log. -/
theorem Step.appended (hstep : x.Step σ x')
    (h : tr.appended.Perm (tr.forwarded ++ (x.wal.buffer ++ x.wal.queue.elems))) :
    (Trace.appended (tr ++ [σ])).Perm
      (Trace.forwarded (tr ++ [σ]) ++ (x'.wal.buffer ++ x'.wal.queue.elems)) := by
  rw [Trace.appended_snoc, Trace.forwarded_snoc]
  cases hstep with
  | append thread ev =>
      show (tr.appended ++ [ev]).Perm
        (tr.forwarded ++ [] ++ (x.wal.buffer ++ (x.wal.queue.enqueue thread [ev]).elems))
      rw [ProducerQueue.elems_enqueue, List.append_nil, ← List.append_assoc, ← List.append_assoc,
        List.append_assoc tr.forwarded]
      exact h.append_right [ev]
  | dequeue picks batch queue idle hbulk =>
      have hmoved := ProducerQueue.dequeueBulk_perm hbulk
      rw [idle, List.nil_append] at h
      show (tr.appended ++ []).Perm (tr.forwarded ++ [] ++ (batch ++ queue.elems))
      rw [List.append_nil, List.append_nil]
      exact h.trans (hmoved.append_left _)
  | forward ev rest written hbuffer =>
      rw [hbuffer] at h
      show (tr.appended ++ []).Perm (tr.forwarded ++ [ev] ++ (rest ++ x.wal.queue.elems))
      rw [List.append_nil, List.append_assoc]
      exact h
  | write now count unwritten hle => simpa [Signal.appended?, Signal.forwarded?] using h
  | take t count p worker idle pushed => simpa [Signal.appended?, Signal.forwarded?] using h
  | process t p ev rest clock now out worker hbuffer hout =>
      simpa [Signal.appended?, Signal.forwarded?] using h
  | push t p worker hbuffer => simpa [Signal.appended?, Signal.forwarded?] using h

/-! ## Runs -/

variable {ids : List UInt32} {walFile : Option (List WALRecord)} {actions : List PipelineAction}

/-- **The invariant rule of the pipeline**, for runs whose actions meet a
condition. -/
theorem trace_induction_along {P : Pipeline → PipelineAction → Prop}
    {I : Trace → Pipeline → Prop}
    (hstep : ∀ tr x a σ x', I tr x → P x a → x.signal a = some σ → Step x σ x' →
      I (tr ++ [σ]) x')
    (hstart : I [] x) (hP : Along step P x actions) (hrun : runs step x actions = some x') :
    I (x.trace actions) x' := by
  unfold trace
  refine follow_induction_along (I := fun x tr => I tr x) ?_ actions hstart hP hrun
  intro x tr a x' hI hPa ha
  obtain ⟨σ, hσ, hmove⟩ := step_spec ha
  rw [hσ]
  exact hstep tr x a σ x' hI hPa hσ hmove

/-- **The invariant rule of the pipeline.** -/
theorem trace_induction {I : Trace → Pipeline → Prop}
    (hstep : ∀ tr x σ x', I tr x → Step x σ x' → I (tr ++ [σ]) x')
    (hstart : I [] x) (hrun : runs step x actions = some x') : I (x.trace actions) x' :=
  trace_induction_along (P := fun _ _ => True)
    (fun tr x _ σ x' hI _ _ hmove => hstep tr x σ x' hI hmove) hstart
    (along_of_forall (fun _ _ => trivial) x actions) hrun

/-- There is a worker for each of the tickers, and every worker is in line. -/
def Staffed (ids : List UInt32) (tr : Trace) (x : Pipeline) : Prop :=
  (∀ t, (x.engine.orderBooks.lookup t).isSome ↔ t ∈ ids) ∧ Lines tr x

theorem Staffed.start (ids : List UInt32) (walFile : Option (List WALRecord)) :
    Staffed ids [] (Pipeline.start ids walFile) := by
  have hlookup : ∀ t, (Pipeline.start ids walFile).engine.orderBooks.lookup t
      = if t ∈ ids then some (OrderBookProcessor.new t) else none :=
    MatchingEngine.lookup_init _ _ fun t p hp => by cases hp
  refine ⟨fun t => ?_, fun t p hp => ?_⟩
  · rw [hlookup]
    split_ifs with ht <;> simp [ht]
  · rw [hlookup] at hp
    split_ifs at hp
    obtain rfl := Option.some.inj hp
    exact ⟨rfl, fun _ _ => ⟨rfl, rfl, rfl⟩⟩

theorem Staffed.step (h : Staffed ids tr x) (hstep : x.Step σ x') :
    Staffed ids (tr ++ [σ]) x' := by
  refine ⟨fun t => ?_, h.2.step hstep⟩
  rw [hstep.isSome_lookup]
  exact h.1 t

/-- In every run, every worker is in line. -/
theorem runs_staffed (hrun : runs Pipeline.step (Pipeline.start ids walFile) actions = some x) :
    Staffed ids ((Pipeline.start ids walFile).trace actions) x :=
  trace_induction (I := fun tr x => Staffed ids tr x)
    (fun _ _ _ _ h hstep => h.step hstep) (Staffed.start ids walFile) hrun

end Pipeline

end ExchangeServer
