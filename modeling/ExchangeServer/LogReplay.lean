import ExchangeServer.Lib.Bytes
import ExchangeServer.Lib.Framing
import ExchangeServer.Pipeline

/-!
# The log and the books

`wal.bin` is a sequence of packed `WALRecord`s, and a record gives back the event it
was made from.  When `fwrite` writes all it is asked to write, the records in the
file are those of the events forwarded so far and of the rest of the current batch.

* `log_determines_books` — what is in the file determines the books: the first `k`
  records, decoded and fed to fresh books, give every ticker the book and the records
  that its worker has once it has processed its events among those `k`.
* `forwarded_are_logged` — no event is forwarded before its record was written.
  `forwarded_not_logged` are runs in which one is: the log thread looks neither at
  what `fopen` nor at what `fwrite` returned.

The orders of a batch are shared objects whose quantity a book lowers.  Their records
are made before the first of them is forwarded, so what is read for a record is the
quantity of the request.
-/

namespace ExchangeServer

open Lib

/-! ## The file -/

namespace WALRecord

/-- `sizeof(WALRecord)`. -/
def size : ℕ := 46

/-- The record in the file: its members without padding, least significant byte
first. -/
def bytes (rec : WALRecord) : List Byte :=
  littleEndian 1 rec.type.toNat ++ (littleEndian 8 rec.timestamp.toNat ++
    (littleEndian 8 rec.orderId.toNat ++ (littleEndian 4 rec.tickerId.toNat ++
      (littleEndian 8 rec.userId.toNat ++ (littleEndian 1 rec.side.toNat ++
        (littleEndian 8 rec.price.toNat ++ littleEndian 8 rec.quantity.toNat))))))

/-- The record that `bs` starts with. -/
def ofBytes (bs : List Byte) : WALRecord where
  type := UInt8.ofNat (ofLittleEndian (bs.take 1))
  timestamp := UInt64.ofNat (ofLittleEndian ((bs.drop 1).take 8))
  orderId := UInt64.ofNat (ofLittleEndian ((bs.drop 9).take 8))
  tickerId := UInt32.ofNat (ofLittleEndian ((bs.drop 17).take 4))
  userId := UInt64.ofNat (ofLittleEndian ((bs.drop 21).take 8))
  side := UInt8.ofNat (ofLittleEndian ((bs.drop 29).take 1))
  price := UInt64.ofNat (ofLittleEndian ((bs.drop 30).take 8))
  quantity := UInt64.ofNat (ofLittleEndian ((bs.drop 38).take 8))

@[simp] theorem length_bytes (rec : WALRecord) : rec.bytes.length = size := by
  simp [bytes, size]

/-- Behind a member of a packed structure comes the next one. -/
theorem drop_member {bs rest : List Byte} {k w n : ℕ} (h : bs.drop k = littleEndian w n ++ rest) :
    bs.drop (k + w) = rest := by
  rw [← List.drop_drop, h]
  exact List.drop_left' (length_littleEndian w n)

theorem take_member {bs rest : List Byte} {w n : ℕ} (h : bs = littleEndian w n ++ rest) :
    bs.take w = littleEndian w n := by
  rw [h]
  exact List.take_left' (length_littleEndian w n)

/-- **A record survives the file.** -/
theorem ofBytes_bytes (rec : WALRecord) : ofBytes rec.bytes = rec := by
  have htype : rec.bytes.drop 0 = rec.bytes := List.drop_zero
  have htimestamp := drop_member (k := 0) (w := 1) htype
  have horderId := drop_member htimestamp
  have htickerId := drop_member horderId
  have huserId := drop_member htickerId
  have hside := drop_member huserId
  have hprice := drop_member hside
  have hquantity := (drop_member hprice).trans (List.append_nil _).symm
  unfold ofBytes
  simp only [Nat.zero_add, Nat.reduceAdd] at *
  have htake : rec.bytes.take 1 = littleEndian 1 rec.type.toNat := take_member rfl
  rw [htake, take_member htimestamp, take_member horderId, take_member htickerId,
    take_member huserId, take_member hside, take_member hprice, take_member hquantity]
  simp only [ofLittleEndian_uint8, ofLittleEndian_uint32, ofLittleEndian_uint64]

/-- The event that a record was made from. -/
def event (rec : WALRecord) : EngineEvent :=
  if rec.type = 0 then
    .newOrder
      { orderId := rec.orderId
        tickerId := rec.tickerId
        userId := rec.userId
        side := if rec.side = 0 then .buy else .sell
        price := rec.price
        quantity := rec.quantity
        timestamp := rec.timestamp }
  else .cancelOrder rec.tickerId rec.orderId rec.userId

/-- **A record has every field of its event.** -/
theorem event_ofEvent (now : UInt64) (ev : EngineEvent) : (ofEvent now ev).event = ev := by
  cases ev with
  | newOrder o =>
      obtain ⟨orderId, tickerId, userId, side, price, quantity, timestamp⟩ := o
      cases side <;> rfl
  | cancelOrder t x u => rfl

end WALRecord

/-- The record at the head of the file, if all of it is there. -/
def walRecords : FrameFormat Byte WALRecord where
  next bs :=
    if bs.length < WALRecord.size then none
    else some (WALRecord.ofBytes (bs.take WALRecord.size), WALRecord.size)
  size_pos h := by
    split_ifs at h
    rw [← (Prod.mk.inj (Option.some.inj h)).2]
    decide
  size_le h := by
    split_ifs at h with hshort
    rw [← (Prod.mk.inj (Option.some.inj h)).2]
    exact Nat.le_of_not_lt hshort
  stable h more := by
    split_ifs at h with hshort
    rw [← h, List.length_append, if_neg (by omega),
      List.take_append_of_le_length (Nat.le_of_not_lt hshort)]

theorem walRecords_encodes (rec : WALRecord) : walRecords.Encodes WALRecord.bytes rec := by
  unfold FrameFormat.Encodes walRecords
  simp only [WALRecord.length_bytes, lt_irrefl, if_false]
  rw [List.take_of_length_le (le_of_eq rec.length_bytes), WALRecord.ofBytes_bytes]

/-- The events in the file. -/
def decodeLog (bs : List Byte) : List EngineEvent :=
  (walRecords.parse bs).1.map WALRecord.event

/-- `rec` is the record of `ev`. -/
def WALRecord.IsOf (ev : EngineEvent) (rec : WALRecord) : Prop :=
  ∃ now, rec = WALRecord.ofEvent now ev

/-- The records of a batch. -/
theorem forall₂_records (now : ℕ → UInt64) (events : List EngineEvent) :
    List.Forall₂ WALRecord.IsOf events
      (events.mapIdx fun i ev => WALRecord.ofEvent (now i) ev) := by
  induction events generalizing now with
  | nil => exact .nil
  | cons ev events ih =>
      rw [List.mapIdx_cons]
      exact .cons ⟨now 0, rfl⟩ (ih fun i => now (i + 1))

/-- **What is decoded is what was encoded.** -/
theorem decodeLog_bytes {events : List EngineEvent} {records : List WALRecord}
    (h : List.Forall₂ WALRecord.IsOf events records) :
    decodeLog (records.flatMap WALRecord.bytes) = events := by
  induction h with
  | nil =>
      unfold decodeLog
      rw [List.flatMap_nil, walRecords.parse_of_none rfl]
      rfl
  | cons hrec _ ih =>
      obtain ⟨now, rfl⟩ := hrec
      unfold decodeLog at ih ⊢
      rw [List.flatMap_cons, (walRecords_encodes _).parse_append]
      simp only [List.map_cons, WALRecord.event_ofEvent, ih]

/-! ## What the file holds -/

namespace Pipeline

/-- The events of the batch whose records have been handed to `fwrite` and that are
still to be forwarded. -/
def pending (x : Pipeline) : List EngineEvent :=
  if x.wal.written then x.wal.buffer else []

/-- Every `fwrite` finds the file open and writes all it is asked to write. -/
def WritesAll (x : Pipeline) : PipelineAction → Prop
  | .logWrite _ count => x.wal.walFile.isSome ∧ count = x.wal.buffer.length
  | _ => True

instance (x : Pipeline) (a : PipelineAction) : Decidable (x.WritesAll a) := by
  cases a <;> (unfold WritesAll; infer_instance)

/-- The records written are those of the events forwarded and pending. -/
structure Logged (walFile : Option (List WALRecord)) (tr : Trace) (x : Pipeline) : Prop where
  file : x.wal.walFile = walFile.map (· ++ tr.written)
  records : List.Forall₂ WALRecord.IsOf (tr.forwarded ++ x.pending) tr.written

variable {walFile : Option (List WALRecord)} {tr : Trace} {x x' : Pipeline}

/-- A signal that neither writes nor forwards. -/
theorem Logged.congr (h : Logged walFile tr x) {σ : Signal} (hforward : σ.forwarded? = none)
    (hwritten : σ.written = []) (hfile : x'.wal.walFile = x.wal.walFile)
    (hpending : x'.pending = x.pending) : Logged walFile (tr ++ [σ]) x' := by
  refine ⟨?_, ?_⟩
  · rw [hfile, Trace.written_snoc, hwritten, List.append_nil]
    exact h.file
  · rw [Trace.written_snoc, Trace.forwarded_snoc, hwritten, hforward, hpending, Option.toList_none,
      List.append_nil, List.append_nil]
    exact h.records

/-- A complete `fwrite` writes the records of the batch. -/
theorem written_of_writesAll {a : PipelineAction} {records : List WALRecord}
    (hall : x.WritesAll a) (hσ : x.signal a = some (.write records)) :
    List.Forall₂ WALRecord.IsOf x.wal.buffer records := by
  cases a with
  | logWrite now count =>
      obtain ⟨hopen, rfl⟩ := hall
      obtain ⟨file, hfile⟩ := Option.isSome_iff_exists.mp hopen
      have hrecords := Signal.write.inj (Option.some.inj hσ)
      rw [← hrecords, WALManager.fwritten, hfile]
      have hbatch := forall₂_records now x.wal.buffer
      rw [List.take_of_length_le (le_of_eq hbatch.length_eq.symm)]
      exact hbatch
  | append thread ev => simp [signal] at hσ
  | logDequeue picks => simp [signal] at hσ
  | logForward => simp [signal] at hσ
  | workerDequeue t count => simp [signal] at hσ
  | workerProcess t clock now => simp [signal, Option.bind_eq_some_iff] at hσ
  | workerPush t => simp [signal] at hσ

/-- **One action**, given that it writes all. -/
theorem Logged.step (h : Logged walFile tr x) {a : PipelineAction} {σ : Signal}
    (hall : x.WritesAll a) (hσ : x.signal a = some σ) (hstep : x.Step σ x') :
    Logged walFile (tr ++ [σ]) x' := by
  cases hstep with
  | append thread ev => exact h.congr rfl rfl rfl rfl
  | dequeue picks batch queue idle hbulk =>
      refine h.congr rfl rfl rfl ?_
      -- The last batch has been forwarded, and the new one is not written yet.
      unfold pending
      rw [idle, ite_self]
      rfl
  | write now count unwritten hle =>
      have hbatch := written_of_writesAll hall hσ
      refine ⟨?_, ?_⟩
      · rw [Trace.written_snoc]
        show x.wal.walFile.map (· ++ x.wal.fwritten now count)
          = walFile.map (· ++ (tr.written ++ x.wal.fwritten now count))
        rw [h.file, Option.map_map]
        simp only [Function.comp_def, List.append_assoc]
      · have hnone : x.pending = [] := by
          unfold pending
          rw [unwritten]
          rfl
        have hsofar := h.records
        rw [hnone, List.append_nil] at hsofar
        rw [Trace.written_snoc, Trace.forwarded_snoc]
        show List.Forall₂ _ (tr.forwarded ++ [] ++ x.wal.buffer)
          (tr.written ++ x.wal.fwritten now count)
        rw [List.append_nil]
        exact List.rel_append hsofar hbatch
  | forward ev rest written hbuffer =>
      refine ⟨?_, ?_⟩
      · rw [Trace.written_snoc]
        show x.wal.walFile = walFile.map (· ++ (tr.written ++ []))
        rw [List.append_nil]
        exact h.file
      · have hpending : x.pending = ev :: rest := by
          unfold pending
          rw [written, hbuffer]
          rfl
        have hsofar := h.records
        rw [hpending] at hsofar
        have hrest : Pipeline.pending ⟨{ x.wal with buffer := rest },
            (WALManager.forward x.engine ev).1⟩ = rest := by
          unfold pending
          rw [written]
          rfl
        rw [Trace.written_snoc, Trace.forwarded_snoc, hrest]
        show List.Forall₂ _ (tr.forwarded ++ [ev] ++ rest) (tr.written ++ [])
        rw [List.append_assoc, List.append_nil]
        exact hsofar
  | take t count p worker idle pushed => exact h.congr rfl rfl rfl rfl
  | process t p ev rest clock now out worker hbuffer hout => exact h.congr rfl rfl rfl rfl
  | push t p worker hbuffer => exact h.congr rfl rfl rfl rfl

/-- In every run whose writes are complete, the file is in step with the engine. -/
theorem runs_logged {ids : List UInt32} {actions : List PipelineAction}
    (hall : Along step WritesAll (start ids walFile) actions)
    (hrun : runs step (start ids walFile) actions = some x) :
    Logged walFile ((start ids walFile).trace actions) x := by
  refine trace_induction_along (I := fun tr x => Logged walFile tr x) ?_ ⟨?_, ?_⟩ hall hrun
  · intro tr x a σ x' hI hall hσ hstep
    exact hI.step hall hσ hstep
  · show walFile = walFile.map (· ++ [])
    simp
  · exact .nil

end Pipeline

open Pipeline

/-! ## Log before act -/

/-- Every event that was forwarded has its record among those written: the first of
the records written are those of the forwarded events. -/
def LoggedFirst (tr : Trace) : Prop :=
  ∃ records, records <+: tr.written ∧ List.Forall₂ WALRecord.IsOf tr.forwarded records

/-- **No event is forwarded before its record was written, as long as the file could
be opened and every `fwrite` is complete**, whatever events are appended, however
they are cut into batches and whatever the other threads do.  A part of a run is a
run, so this holds at every moment. -/
theorem forwarded_are_logged (ids : List UInt32) (walFile : Option (List WALRecord))
    (actions : List PipelineAction) (x : Pipeline)
    (hall : Along Pipeline.step WritesAll (Pipeline.start ids walFile) actions)
    (hrun : runs Pipeline.step (Pipeline.start ids walFile) actions = some x) :
    LoggedFirst ((Pipeline.start ids walFile).trace actions) := by
  have hrecords := (runs_logged hall hrun).records
  have htake := List.forall₂_take ((Pipeline.start ids walFile).trace actions).forwarded.length
    hrecords
  rw [List.take_left] at htake
  exact ⟨_, List.take_prefix _ _, htake⟩

/-- A sell and a buy of ticker `1` that trade, an order of ticker `2`, and a
cancellation of what is left of the sell, in two batches. -/
def logActions : List PipelineAction :=
  [.append 0 (.newOrder ⟨11, 1, 10, .sell, 100, 5, 3⟩),
    .append 1 (.newOrder ⟨12, 1, 20, .buy, 101, 3, 4⟩),
    .append 1 (.newOrder ⟨13, 2, 20, .buy, 7, 1, 5⟩),
    .logDequeue [0, 1, 1], .logWrite (fun _ => 9) 3, .logForward, .logForward, .logForward,
    .append 0 (.cancelOrder 1 11 10), .logDequeue [0], .logWrite (fun _ => 9) 1,
    .workerDequeue 1 2, .workerProcess 1 (fun _ => 6) 7, .workerProcess 1 (fun _ => 6) 7]

def logEnd : Pipeline :=
  runsTo Pipeline.step (Pipeline.start [1, 2] (some [])) logActions

theorem logActions_writesAll :
    Along Pipeline.step WritesAll (Pipeline.start [1, 2] (some [])) logActions := by
  decide

theorem logEnd_run :
    runs Pipeline.step (Pipeline.start [1, 2] (some [])) logActions = some logEnd :=
  runs_eq_runsTo _ (by decide)

theorem forwarded_are_logged_sample :
    Along Pipeline.step WritesAll (Pipeline.start [1, 2] (some [])) logActions ∧
      runs Pipeline.step (Pipeline.start [1, 2] (some [])) logActions = some logEnd ∧
      LoggedFirst ((Pipeline.start [1, 2] (some [])).trace logActions) :=
  ⟨logActions_writesAll, logEnd_run,
    forwarded_are_logged _ _ _ _ logActions_writesAll logEnd_run⟩

/-- An order is appended, taken, not written and forwarded. -/
def unloggedActions : List PipelineAction :=
  [.append 0 (.newOrder ⟨11, 1, 10, .sell, 100, 5, 3⟩), .logDequeue [0],
    .logWrite (fun _ => 9) 0, .logForward]

theorem not_loggedFirst {trace : Trace} {e : EngineEvent} {es : List EngineEvent}
    (hforwarded : trace.forwarded = e :: es) (hwritten : trace.written = []) :
    ¬ LoggedFirst trace := by
  rintro ⟨records, hpre, hrecords⟩
  rw [hwritten, List.prefix_nil] at hpre
  rw [hforwarded, hpre] at hrecords
  cases hrecords

/-- Both when the file could not be opened and when `fwrite` writes less than it was
asked to write, the event goes to the engine all the same. -/
theorem forwarded_not_logged :
    ((runs Pipeline.step (Pipeline.start [1] none) unloggedActions).isSome = true ∧
      ((Pipeline.start [1] none).trace unloggedActions).forwarded
        = [.newOrder ⟨11, 1, 10, .sell, 100, 5, 3⟩] ∧
      ¬ LoggedFirst ((Pipeline.start [1] none).trace unloggedActions)) ∧
    (runs Pipeline.step (Pipeline.start [1] (some [])) unloggedActions).isSome = true ∧
      ((Pipeline.start [1] (some [])).trace unloggedActions).forwarded
        = [.newOrder ⟨11, 1, 10, .sell, 100, 5, 3⟩] ∧
      ¬ LoggedFirst ((Pipeline.start [1] (some [])).trace unloggedActions) := by
  have hclosed : ((Pipeline.start [1] none).trace unloggedActions).forwarded
      = [.newOrder ⟨11, 1, 10, .sell, 100, 5, 3⟩] := by decide
  have hopen : ((Pipeline.start [1] (some [])).trace unloggedActions).forwarded
      = [.newOrder ⟨11, 1, 10, .sell, 100, 5, 3⟩] := by decide
  refine ⟨⟨by decide, hclosed, ?_⟩, by decide, hopen, ?_⟩
  · exact not_loggedFirst hclosed (by decide)
  · exact not_loggedFirst hopen (by decide)

/-! ## Replay -/

/-- **The log determines the books.**  For every run of the log thread and the workers
in which `fwrite` writes all it is asked to write: the file is what it was and then
the records written since; decoded, these are the events forwarded, in that order, and
the rest of the batch; and whenever the worker of a ticker has processed its events
among the first `k` of them, it has the book that fresh books get when those `k` are
replayed, and it has made the same match and cancel records, except for their
timestamps. -/
theorem log_determines_books (ids : List UInt32) (walFile : Option (List WALRecord))
    (actions : List PipelineAction) (x : Pipeline)
    (hall : Along Pipeline.step WritesAll (Pipeline.start ids walFile) actions)
    (hrun : runs Pipeline.step (Pipeline.start ids walFile) actions = some x) :
    let tr := (Pipeline.start ids walFile).trace actions
    let decoded := decodeLog (tr.written.flatMap WALRecord.bytes)
    x.wal.walFile = walFile.map (· ++ tr.written) ∧
      decoded = tr.forwarded ++ x.pending ∧
      ∀ (k : ℕ) (clock : ℕ → UInt64) (now : UInt64) (t : UInt32) (p : OrderBookProcessor),
        x.engine.orderBooks.lookup t = some p →
        tr.processed t = routed t (decoded.take k) →
        ∃ r, (recover clock now ids (decoded.take k)).lookup t = some r ∧
          p.book = r.processor.book ∧
          (tr.traded t).map MatchRecord.untimed
            = r.processor.results.map MatchRecord.untimed ∧
          (tr.cancelled t).map CancelRecord.untimed = r.cancelled.map CancelRecord.untimed := by
  intro tr decoded
  have hlogged := runs_logged hall hrun
  obtain ⟨hlisted, hlines⟩ := runs_staffed hrun
  refine ⟨hlogged.file, decodeLog_bytes hlogged.records, fun k clock now t p hp hprocessed => ?_⟩
  have ht : t ∈ ids := (hlisted t).mp (by rw [hp]; rfl)
  have hfollows := (hlines t p hp).follows clock now
  refine ⟨Replica.replay clock now t (routed t (decoded.take k)), ?_, ?_⟩
  · rw [recover_lookup, if_pos ht]
  · rw [← hprocessed]
    exact ⟨hfollows.book, hfollows.traded, hfollows.cancelled⟩

/-- At the end of the sample, the worker of ticker `1` has processed its events among
the first three, and the cancellation is written and still to be forwarded. -/
theorem log_determines_books_sample :
    let decoded := decodeLog
      (((Pipeline.start [1, 2] (some [])).trace logActions).written.flatMap WALRecord.bytes)
    ∃ p, logEnd.engine.orderBooks.lookup 1 = some p ∧
      ∃ r, (recover (fun _ => 0) 0 [1, 2] (decoded.take 3)).lookup 1 = some r ∧
        p.book = r.processor.book := by
  intro decoded
  obtain ⟨-, hdecoded, hreplay⟩ :=
    log_determines_books _ _ _ _ logActions_writesAll logEnd_run
  have hsome : (logEnd.engine.orderBooks.lookup 1).isSome = true := by decide
  obtain ⟨p, hp⟩ := Option.isSome_iff_exists.mp hsome
  have hprocessed : ((Pipeline.start [1, 2] (some [])).trace logActions).processed 1
      = routed 1 (decoded.take 3) := by
    show _ = routed 1 ((decodeLog _).take 3)
    rw [hdecoded]
    decide
  obtain ⟨r, hr, hbook, -⟩ := hreplay 3 (fun _ => 0) 0 1 p hp hprocessed
  exact ⟨p, hp, r, hr, hbook⟩

end ExchangeServer
