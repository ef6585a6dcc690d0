import ExchangeServer.Backing
import ExchangeServer.Exchange.Basic

/-!
# The exchange clears

`Exchange.clearing` forgets where things are.  `step_clearing` says that an action
of the server is then nothing at all, or one event of the clearing house: taking
from one queue and putting into the next is nothing, a freeze, a repository call or
an account update is the event of that name, and what a worker does to its book is
a `market` event.

The last of these rests on `Worker`, which ties the book of a worker to a flat
book, and on the ids of open orders being distinct.
-/

namespace ExchangeServer

open Lib PriceTime

namespace Exchange

/-- The exchange as an accountant sees it. -/
def clearing (s : Exchange) : Clearing where
  users := s.users
  db := s.db
  deposits := s.depositing.elems
  orders := s.openOrders
  dropped := s.history.dropped
  records := s.waitingRecords
  inHand := s.settlement.current
  cancels := s.waitingCancels
  accepted := s.accepted
  traded := s.history.traded
  cancelled := s.history.cancelled
  credited := s.history.credited

theorem coe_openOrders (s : Exchange) : (s.openOrders : Multiset Order)
    = s.trading.elems + s.logOrders + s.engine.queued + s.engine.resting := by
  simp only [openOrders, Multiset.coe_add]

theorem coe_waitingRecords (s : Exchange) : (s.waitingRecords : Multiset MatchRecord)
    = s.engine.results + s.settlement.queue.elems + s.settlement.buffer := by
  simp only [waitingRecords, Multiset.coe_add]

theorem coe_waitingCancels (s : Exchange) : (s.waitingCancels : Multiset CancelRecord)
    = s.settlement.cancelQueue.elems + s.settlement.cancelBuffer := by
  simp only [waitingCancels, Multiset.coe_add]

theorem coe_accepted (s : Exchange) :
    (s.accepted : Multiset Order) = s.history.acknowledged + s.trading.elems := by
  simp only [accepted, Multiset.coe_add]

/-! ## Queues as multisets -/

section Queues

variable {α β : Type*}

theorem coe_dequeue {p : ThreadId} {q q' : ProducerQueue ThreadId α} {a : α}
    (h : ProducerQueue.dequeue p q = some (a, q')) :
    (q.elems : Multiset α) = a ::ₘ q'.elems :=
  Multiset.coe_eq_coe.mpr (ProducerQueue.dequeue_perm h)

theorem coe_dequeueBulk {P : Type*} [DecidableEq P] {picks : List P}
    {q q' : ProducerQueue P α} {as : List α}
    (h : ProducerQueue.dequeueBulk picks q = some (as, q')) :
    (q.elems : Multiset α) = as + q'.elems := by
  rw [Multiset.coe_add]
  exact Multiset.coe_eq_coe.mpr (ProducerQueue.dequeueBulk_perm h)

theorem coe_collect (f : OrderBookProcessor → List α)
    {books : UnorderedMap UInt32 OrderBookProcessor} {t : UInt32} {p : OrderBookProcessor}
    (h : books.lookup t = some p) :
    (books.collect f : Multiset α) = f p + UnorderedMap.collect f (books.erase t) := by
  rw [Multiset.coe_add]
  exact Multiset.coe_eq_coe.mpr (UnorderedMap.collect_perm_of_lookup f h)

theorem coe_collect_insert (f : OrderBookProcessor → List α)
    (books : UnorderedMap UInt32 OrderBookProcessor) (t : UInt32) (p : OrderBookProcessor) :
    (UnorderedMap.collect f (AList.insert t p books) : Multiset α)
      = f p + UnorderedMap.collect f (books.erase t) := by
  rw [UnorderedMap.collect_insert, Multiset.coe_add]

/-- A worker that is replaced by one with the same `f` leaves the whole as it was. -/
theorem coe_collect_replace (f : OrderBookProcessor → List α)
    {books : UnorderedMap UInt32 OrderBookProcessor} {t : UInt32} {p p' : OrderBookProcessor}
    (h : books.lookup t = some p) (hf : f p' = f p) :
    (UnorderedMap.collect f (AList.insert t p' books) : Multiset α) = books.collect f := by
  rw [coe_collect_insert, coe_collect f h, hf]

end Queues

end Exchange

/-! ## Workers -/

/-- The orders in a worker's queue and batch. -/
def OrderBookProcessor.queued (p : OrderBookProcessor) : List Order :=
  (p.buffer ++ p.queue).filterMap EngineEvent.order?

/-- The worker of ticker `t`, while the orders of `c` are the accepted ones: it is
handed accepted orders of its ticker, and its book simulates a flat book of such
orders as long as ids are distinct. -/
structure Worker (c : Clearing) (tickers : TickerManager) (t : UInt32)
    (p : OrderBookProcessor) : Prop where
  listed : (tickers.idToSymbol.lookup t).isSome
  ticker : p.book.tickerId = t
  queued : ∀ o ∈ p.queued, o.tickerId = t ∧ o ∈ c.accepted
  owned : p.book.OwnedBy c.Trader
  simulates : c.DistinctIds →
    ∃ resting, Simulates p.book resting ∧ ∀ o ∈ resting, o.tickerId = t

namespace Worker

variable {c c' : Clearing} {tickers : TickerManager} {t : UInt32} {p : OrderBookProcessor}

/-- Accepting more orders changes nothing for a worker. -/
theorem mono (h : Worker c tickers t p) (hle : c.accepted ≤ c'.accepted) :
    Worker c' tickers t p where
  listed := h.listed
  ticker := h.ticker
  queued o ho := ⟨(h.queued o ho).1, Multiset.mem_of_le hle (h.queued o ho).2⟩
  owned := ⟨h.owned.allocated, fun q hq => (h.owned.owners q hq).mono hle⟩
  simulates hids := h.simulates (Multiset.nodup_of_le (Multiset.map_le_map hle) hids)

/-- Only the book and the orders still to come matter. -/
theorem congr (h : Worker c tickers t p) {p' : OrderBookProcessor} (hbook : p'.book = p.book)
    (hqueued : ∀ o ∈ p'.queued, o.tickerId = t ∧ o ∈ c.accepted) : Worker c tickers t p' where
  listed := h.listed
  ticker := hbook ▸ h.ticker
  queued := hqueued
  owned := hbook ▸ h.owned
  simulates := hbook ▸ h.simulates

theorem new (c : Clearing) (hlisted : (tickers.idToSymbol.lookup t).isSome) :
    Worker c tickers t (OrderBookProcessor.new t) where
  listed := hlisted
  ticker := rfl
  queued o ho := by cases ho
  owned := OrderBook.OwnedBy.new t
  simulates _ := ⟨[], Simulates.new t, by simp⟩

/-- What processing an event comes to: the worker after it, and the records it made.
Whatever the ids are, the parties of a record are traders. -/
structure Processed (c : Clearing) (tickers : TickerManager) (t : UInt32)
    (p : OrderBookProcessor) (ev : EngineEvent) (out : OrderBookProcessor × Option CancelRecord)
    (pushed : List MatchRecord) : Prop where
  worker : Worker c tickers t out.1
  queued : out.1.queued = p.queued
  results : out.1.results = p.results ++ pushed
  parties : ∀ rec ∈ pushed, rec.Between c.Trader
  ticker : c.DistinctIds → ∀ rec ∈ pushed, rec.tickerId = t
  trades : c.DistinctIds → ∀ rest : Multiset Order,
    Trades (↑(ev.order?.toList ++ p.book.resting) + rest) pushed out.2.toList
      (out.1.book.resting + rest)

/-- **A new order is filled by trades.** -/
theorem processNew (h : Worker c tickers t p) (clock : ℕ → UInt64) (now : UInt64) {o : Order}
    (hticker : o.tickerId = t) (haccepted : o ∈ c.accepted)
    (hfresh : c.DistinctIds → o.orderId ∉ p.book.resting.map Order.orderId) :
    ∃ pushed, Processed c tickers t p (.newOrder o)
      (p.processEvent clock now (.newOrder o)) pushed := by
  obtain ⟨howned, pushed, hpushed, hparties⟩ :=
    h.owned.processOrder clock ⟨o, haccepted, rfl⟩ p.results
  -- What the flat book says, once ids are known to be distinct.
  have hsim : c.DistinctIds → ∃ resting, Simulates p.book resting ∧
      (∀ r ∈ resting, r.tickerId = o.tickerId) ∧ o.orderId ∉ resting.map Order.orderId ∧
      Simulates (p.book.processOrder clock o p.results).1 (submit resting o).2 ∧
      pushed.map MatchRecord.untimed = (submit resting o).1.map (Fill.record o.tickerId) := by
    intro hids
    obtain ⟨resting, hsim, htickers⟩ := h.simulates hids
    have hfresh' : o.orderId ∉ resting.map Order.orderId := fun hx =>
      hfresh hids ((hsim.perm.map _).mem_iff.mpr hx)
    obtain ⟨hsim', pushed', hpushed', hrecords⟩ := hsim.processOrder clock p.results hfresh'
    obtain rfl := List.append_cancel_left (hpushed.symm.trans hpushed')
    rw [h.ticker, ← hticker] at hrecords
    exact ⟨resting, hsim, fun r hr => (htickers r hr).trans hticker.symm, hfresh', hsim',
      hrecords⟩
  refine ⟨pushed, ⟨h.listed, ?_, h.queued, howned, fun hids => ?_⟩, rfl, hpushed, hparties,
    fun hids rec hrec => ?_, fun hids rest => ?_⟩
  · exact (Simulates.tickerId_processOrder ..).trans h.ticker
  · obtain ⟨resting, -, htickers, -, hsim', -⟩ := hsim hids
    refine ⟨_, hsim', fun r hr => ?_⟩
    rcases mem_submit hr with ⟨r₀, hr₀, hcore, -⟩ | hcore
    · exact (Order.tickerId_of_core hcore).trans ((htickers r₀ hr₀).trans hticker)
    · exact (Order.tickerId_of_core hcore).trans hticker
  · obtain ⟨resting, -, -, -, -, hrecords⟩ := hsim hids
    obtain ⟨f, -, hf⟩ := List.mem_map.mp (hrecords ▸ List.mem_map_of_mem hrec)
    exact (congrArg MatchRecord.tickerId hf).symm.trans hticker
  · obtain ⟨resting, hsim₀, htickers, hfresh', hsim', hrecords⟩ := hsim hids
    have htrades := submit_trades hsim₀.sound hfresh' htickers rest hrecords
    rw [← Multiset.coe_eq_coe.mpr hsim₀.perm, ← Multiset.coe_eq_coe.mpr hsim'.perm,
      ← Multiset.cons_add] at htrades
    exact htrades

/-- **A cancellation takes out one order or none.** -/
theorem processCancel (h : Worker c tickers t p) (clock : ℕ → UInt64) (now : UInt64)
    (t' : UInt32) (x u : UInt64) :
    Processed c tickers t p (.cancelOrder t' x u)
      (p.processEvent clock now (.cancelOrder t' x u)) [] := by
  refine ⟨⟨h.listed, ?_, h.queued, h.owned.cancelOrder _ u, fun hids => ?_⟩, rfl,
    (List.append_nil _).symm, by simp, by simp, fun hids rest => ?_⟩
  · exact (Simulates.tickerId_cancelOrder ..).trans h.ticker
  · obtain ⟨resting, hsim, htickers⟩ := h.simulates hids
    refine ⟨_, (hsim.cancelOrder x.toUInt32 u).2.1, fun r hr => ?_⟩
    exact htickers r (List.mem_of_mem_filter hr)
  · obtain ⟨resting, hsim, htickers⟩ := h.simulates hids
    obtain ⟨hreturned, hsim', -⟩ := hsim.cancelOrder x.toUInt32 u
    have htrades := cancel_trades hsim.sound.distinct x.toUInt32.toUInt64 u now rest
    rw [← hreturned, ← Multiset.coe_eq_coe.mpr hsim.perm, ← Multiset.coe_eq_coe.mpr hsim'.perm]
      at htrades
    exact htrades

end Worker

/-! ## The invariant -/

namespace Exchange

/-- Every listed ticker has a worker, every worker is in order, and what waits to get
to one was accepted. -/
structure Workers (s : Exchange) : Prop where
  books : ∀ t, (s.tickers.idToSymbol.lookup t).isSome → (s.engine.orderBooks.lookup t).isSome
  worker : ∀ t p, s.engine.orderBooks.lookup t = some p → Worker s.clearing s.tickers t p
  log : ∀ o ∈ s.logOrders, o ∈ s.clearing.accepted

variable {s s' : Exchange}

/-- An order about to be processed is not in the book. -/
theorem fresh_of_ids {t : UInt32} {p : OrderBookProcessor}
    (hp : s.engine.orderBooks.lookup t = some p) {o : Order} (ho : o ∈ p.queued)
    (hle : s.clearing.orders.map Order.orderId ≤ s.clearing.accepted.map Order.orderId)
    (hids : s.clearing.DistinctIds) : o.orderId ∉ p.book.resting.map Order.orderId := by
  have hnodup : (s.clearing.orders.map Order.orderId).Nodup := Multiset.nodup_of_le hle hids
  have hparts : (p.queued : Multiset Order) + p.book.resting ≤ s.clearing.orders := by
    have hqueued := coe_collect OrderBookProcessor.queued hp
    have hresting := coe_collect (fun p : OrderBookProcessor => p.book.resting) hp
    refine le_trans (add_le_add (b := (s.engine.queued : Multiset Order))
      (d := (s.engine.resting : Multiset Order)) ?_ ?_) ?_
    · exact le_of_le_of_eq (Multiset.le_add_right _ _) hqueued.symm
    · exact le_of_le_of_eq (Multiset.le_add_right _ _) hresting.symm
    · show _ ≤ (s.openOrders : Multiset Order)
      rw [coe_openOrders]
      exact add_le_add_left (Multiset.le_add_left _ _) _
  have hsmall := Multiset.nodup_of_le (Multiset.map_le_map hparts) hnodup
  rw [Multiset.map_add, Multiset.nodup_add] at hsmall
  intro hx
  exact Multiset.disjoint_left.mp hsmall.2.2 (Multiset.mem_map_of_mem _ ho)
    (by simpa using hx)

/-- An action that leaves the engine alone leaves the workers in order. -/
theorem Workers.of_engine_eq (h : s.Workers) (hengine : s'.engine = s.engine)
    (htickers : s'.tickers = s.tickers) (hle : s.clearing.accepted ≤ s'.clearing.accepted)
    (hlog : ∀ o ∈ s'.logOrders, o ∈ s'.clearing.accepted) : s'.Workers where
  books t ht := by
    rw [hengine]
    rw [htickers] at ht
    exact h.books t ht
  worker t p hp := by
    rw [hengine] at hp
    rw [htickers]
    exact (h.worker t p hp).mono hle
  log := hlog

/-- So does an action that replaces one worker by one that is in order. -/
theorem Workers.of_insert (h : s.Workers) {t : UInt32} {p : OrderBookProcessor}
    (hengine : s'.engine.orderBooks = AList.insert t p s.engine.orderBooks)
    (htickers : s'.tickers = s.tickers) (haccepted : s'.clearing.accepted = s.clearing.accepted)
    (hp : Worker s.clearing s.tickers t p)
    (hlog : ∀ o ∈ s'.logOrders, o ∈ s.clearing.accepted) : s'.Workers where
  books t' ht' := by
    rw [hengine, UnorderedMap.lookup_insert_eq]
    rw [htickers] at ht'
    split_ifs
    · rfl
    · exact h.books t' ht'
  worker t' p' hp' := by
    rw [hengine, UnorderedMap.lookup_insert_eq] at hp'
    rw [htickers]
    split_ifs at hp' with ht
    · obtain rfl := Option.some.inj hp'
      subst ht
      exact hp.mono (le_of_eq haccepted.symm)
    · exact (h.worker t' p' hp').mono (le_of_eq haccepted.symm)
  log o ho := haccepted ▸ hlog o ho

/-! ## Actions and events -/

/-- The event an action may be. -/
inductive Raises : Action → Event → Prop
  | create (uid : UInt64) (username : String) :
      Raises (.createUserAccount uid username) (.create uid username)
  | freeze (thread : ThreadId) (session : Session) (req : TradeRequest)
      (orderId now : UInt64) (login : session.isLoggedIn = true) :
      Raises (.trade thread session req orderId now) (.freeze (req.order session orderId now))
  | refuse (thread : ThreadId) (session : Session) (req : TradeRequest)
      (orderId now : UInt64) (login : session.isLoggedIn = true) :
      Raises (.trade thread session req orderId now) (.refuse (req.order session orderId now))
  | deposit (thread : ThreadId) (session : Session) (req : DepositRequest)
      (fault : Option Fault) (login : session.isLoggedIn = true) :
      Raises (.deposit thread session req fault)
        (.deposit session req.amount.toInt64 fault)
  | credit (thread : ThreadId) : Raises (.addBalance thread) .credit
  | drop : Raises .logForward .drop
  | market (tickerId : UInt32) (clock : ℕ → UInt64) (now : UInt64) :
      Raises (.workerProcess tickerId clock now) .market
  | start : Raises .settleStart .start
  | call (fault : Option Fault) : Raises (.settleCall fault) (.call fault)
  | commitBuy : Raises .commitBuy .commitBuy
  | commitSell : Raises .commitSell .commitSell
  | release : Raises .cancelRelease .release

/-- What an action comes to: the workers stay in order, and the clearing house sees
nothing or one event. -/
structure Clears (s : Exchange) (a : Action) (s' : Exchange) : Prop where
  tickers : s'.tickers = s.tickers
  workers : s'.Workers
  clearing : s'.clearing = s.clearing ∨
    ∃ e, Raises a e ∧ Clearing.Step s.tickers s.clearing e s'.clearing

/-! ### Handlers -/

/-- The order that is built carries what is frozen. -/
theorem freeze_order (req : TradeRequest) (session : Session) (orderId now : UInt64)
    (users : UserManager) :
    (req.order session orderId now).freeze users = req.freeze users session := by
  have hamount : req.amount.toUInt64.toUInt32 = req.amount := by simp
  unfold Order.freeze TradeRequest.freeze
  cases hside : req.orderSide <;>
    simp only [TradeRequest.order, TradeRequest.totalCost, hamount, hside]

theorem clears_trade (h : s.Workers) {thread : ThreadId} {session : Session}
    {req : TradeRequest} {orderId now : UInt64}
    (hstep : Step s (.trade thread session req orderId now) s') :
    Clears s (.trade thread session req orderId now) s' := by
  have hfreeze := freeze_order req session orderId now s.users
  cases hstep with
  | tradeIgnored => exact ⟨rfl, h, Or.inl rfl⟩
  | tradeRefused _ _ _ _ _ _ hlogin hok =>
      rw [← hfreeze] at hok ⊢
      exact ⟨rfl, h.of_engine_eq rfl rfl (le_refl _) h.log, Or.inr ⟨_,
        .refuse _ _ _ _ _ hlogin, Clearing.Step.refuse s.clearing _ hok⟩⟩
  | tradeFrozen _ _ _ _ _ _ hlogin hok =>
      rw [← hfreeze] at hok ⊢
      have haccepted : ∀ q : ProducerQueue ThreadId Order, q.elems
          = s.trading.elems ++ [req.order session orderId now] →
          ((s.history.acknowledged ++ q.elems : List Order) : Multiset Order)
            = req.order session orderId now ::ₘ s.accepted := by
        intro q hq
        rw [hq, ← List.append_assoc]
        exact Multiset.coe_eq_coe.mpr (List.perm_append_singleton _ _)
      have hnew := haccepted _ (ProducerQueue.elems_enqueue s.trading thread
        [req.order session orderId now])
      refine ⟨rfl, h.of_engine_eq rfl rfl ?_ fun o ho => ?_, Or.inr ⟨_,
        .freeze _ _ _ _ _ hlogin, ?_⟩⟩
      · exact le_of_le_of_eq (Multiset.le_cons_self _ _) hnew.symm
      · refine Multiset.mem_of_le (le_of_le_of_eq (Multiset.le_cons_self _ _) hnew.symm) ?_
        exact h.log o ho
      · refine (Clearing.Step.freeze s.clearing _ hok).congr
          (Clearing.ext rfl rfl rfl ?_ rfl rfl rfl rfl hnew rfl rfl rfl)
        show (Exchange.openOrders _ : Multiset Order) = _ ::ₘ (s.openOrders : Multiset Order)
        rw [coe_openOrders, coe_openOrders, ProducerQueue.elems_enqueue, ← Multiset.coe_add]
        simp only [Multiset.coe_singleton, ← Multiset.singleton_add]
        show _ + (s.logOrders : Multiset Order) + _ + _ = _
        abel

theorem clears_appendOrder (h : s.Workers) {thread : ThreadId}
    (hstep : Step s (.appendOrder thread) s') : Clears s (.appendOrder thread) s' := by
  cases hstep with
  | appendOrder _ o trading hdequeue =>
      have helems := coe_dequeue hdequeue
      have haccepted : ((s.history.acknowledged ++ [o] ++ trading.elems : List Order) :
          Multiset Order) = s.accepted := by
        rw [coe_accepted, helems, ← Multiset.coe_add, ← Multiset.coe_add, Multiset.coe_singleton,
          ← Multiset.singleton_add]
        abel
      have hlog : ∀ wal : WALManager, wal = s.wal.appendOrder thread o →
          (wal.buffer ++ wal.queue.elems).filterMap EngineEvent.order? = s.logOrders ++ [o] := by
        rintro wal rfl
        simp only [WALManager.appendOrder, ProducerQueue.elems_enqueue, ← List.append_assoc]
        rw [List.filterMap_append]
        rfl
      refine ⟨rfl, h.of_engine_eq rfl rfl (le_of_eq haccepted.symm) fun o' ho' => ?_, Or.inl ?_⟩
      · rw [logOrders, hlog _ rfl] at ho'
        show o' ∈ ((s.history.acknowledged ++ [o] ++ trading.elems : List Order) : Multiset Order)
        rcases List.mem_append.mp ho' with ho' | ho'
        · rw [haccepted]
          exact h.log o' ho'
        · rw [List.mem_singleton.mp ho']
          simp
      · refine Clearing.ext rfl rfl rfl ?_ rfl rfl rfl rfl haccepted rfl rfl rfl
        show (Exchange.openOrders _ : Multiset Order) = (s.openOrders : Multiset Order)
        rw [coe_openOrders, coe_openOrders, helems]
        simp only [logOrders]
        rw [hlog _ rfl, ← Multiset.coe_add, Multiset.coe_singleton, ← Multiset.singleton_add]
        show _ = {o} + (trading.elems : Multiset Order) + (s.logOrders : Multiset Order) + _ + _
        abel

/-- An action that only moves events about within the log. -/
theorem clears_wal (h : s.Workers) (a : Action) (wal : WALManager)
    (hlog : (((wal.buffer ++ wal.queue.elems).filterMap EngineEvent.order? : List Order) :
      Multiset Order) = s.logOrders) : Clears s a { s with wal := wal } := by
  refine ⟨rfl, h.of_engine_eq rfl rfl (le_refl _) fun o ho => h.log o ?_, Or.inl ?_⟩
  · exact (Multiset.coe_eq_coe.mp hlog).mem_iff.mp ho
  · refine Clearing.ext rfl rfl rfl ?_ rfl rfl rfl rfl rfl rfl rfl rfl
    show (Exchange.openOrders _ : Multiset Order) = (s.openOrders : Multiset Order)
    rw [coe_openOrders, coe_openOrders]
    exact congrArg (fun m : Multiset Order =>
      (s.trading.elems : Multiset Order) + m + s.engine.queued + s.engine.resting) hlog

theorem clears_cancel (h : s.Workers) {thread : ThreadId} {session : Session}
    {req : CancelRequest} (hstep : Step s (.cancel thread session req) s') :
    Clears s (.cancel thread session req) s' := by
  cases hstep with
  | cancel _ _ _ hfree =>
      refine clears_wal h _ _ ?_
      unfold CancelRequest.handle
      split_ifs with hlogin
      · simp only [WALManager.appendCancel, ProducerQueue.elems_enqueue, ← List.append_assoc]
        rw [List.filterMap_append]
        exact congrArg _ (List.append_nil _)
      · rfl

theorem clears_deposit (h : s.Workers) {thread : ThreadId} {session : Session}
    {req : DepositRequest} {fault : Option Fault}
    (hstep : Step s (.deposit thread session req fault) s') :
    Clears s (.deposit thread session req fault) s' := by
  cases hstep with
  | depositIgnored => exact ⟨rfl, h, Or.inl rfl⟩
  | depositFailed _ _ _ _ _ hlogin hpos hreturned =>
      refine ⟨rfl, h.of_engine_eq rfl rfl (le_refl _) h.log, Or.inr ⟨_,
        .deposit _ _ _ _ hlogin, ?_⟩⟩
      exact (Clearing.Step.deposit s.clearing session _ fault hpos).congr
        (Clearing.ext rfl rfl (if_neg (Bool.eq_false_iff.mp hreturned)).symm rfl rfl rfl rfl rfl
          rfl rfl rfl rfl)
  | depositWritten _ _ _ _ _ hlogin hpos hreturned =>
      refine ⟨rfl, h.of_engine_eq rfl rfl (le_refl _) h.log, Or.inr ⟨_,
        .deposit _ _ _ _ hlogin, ?_⟩⟩
      refine (Clearing.Step.deposit s.clearing session _ fault hpos).congr
        (Clearing.ext rfl rfl ?_ rfl rfl rfl rfl rfl rfl rfl rfl rfl)
      refine Eq.trans ?_ (if_pos hreturned).symm
      show ((ProducerQueue.elems _ : List (UInt64 × Int64)) : Multiset (UInt64 × Int64)) = _
      rw [ProducerQueue.elems_enqueue]
      exact Multiset.coe_eq_coe.mpr (List.perm_append_singleton _ _)

theorem clears_addBalance (h : s.Workers) {thread : ThreadId}
    (hstep : Step s (.addBalance thread) s') : Clears s (.addBalance thread) s' := by
  cases hstep with
  | addBalance _ uid amount depositing hdequeue =>
      have helems := coe_dequeue hdequeue
      refine ⟨rfl, h.of_engine_eq rfl rfl (le_refl _) h.log, Or.inr ⟨_, .credit .., ?_⟩⟩
      refine (Clearing.Step.credit s.clearing uid amount _ helems).congr
        (Clearing.ext rfl rfl rfl rfl rfl rfl rfl rfl rfl rfl rfl ?_)
      show ((if s.users.HasAccount uid then s.history.credited ++ [(uid, amount)]
          else s.history.credited : List (UInt64 × Int64)) : Multiset (UInt64 × Int64))
        = if s.users.HasAccount uid then (uid, amount) ::ₘ s.history.credited
          else s.history.credited
      split_ifs
      · exact Multiset.coe_eq_coe.mpr (List.perm_append_singleton _ _)
      · rfl

/-! ### The log thread -/

theorem clears_logDequeue (h : s.Workers) {picks : List ThreadId}
    (hstep : Step s (.logDequeue picks) s') : Clears s (.logDequeue picks) s' := by
  cases hstep with
  | logDequeue _ wal hwal =>
      obtain ⟨hidle, events, queue, hdequeue, rfl⟩ := WALManager.dequeue_eq_some hwal
      refine clears_wal h _ _ (Multiset.coe_eq_coe.mpr ?_)
      unfold logOrders
      rw [hidle]
      exact ((ProducerQueue.dequeueBulk_perm hdequeue).filterMap _).symm

theorem clears_logWrite (h : s.Workers) {now : ℕ → UInt64} {count : ℕ}
    (hstep : Step s (.logWrite now count) s') : Clears s (.logWrite now count) s' := by
  cases hstep with
  | logWrite _ _ wal hwal =>
      obtain ⟨-, rfl⟩ := WALManager.write_eq_some hwal
      exact clears_wal h _ _ rfl

/-- An event reaches a worker. -/
theorem worker_enqueue {t : UInt32} {p : OrderBookProcessor} (h : s.Workers)
    (hp : s.engine.orderBooks.lookup t = some p) {ev : EngineEvent}
    (hev : ∀ o ∈ ev.order?, o.tickerId = t ∧ o ∈ s.clearing.accepted) :
    Worker s.clearing s.tickers t (p.enqueue ev) := by
  refine (h.worker t p hp).congr rfl fun o ho => ?_
  unfold OrderBookProcessor.queued OrderBookProcessor.enqueue at ho
  rw [← List.append_assoc, List.filterMap_append] at ho
  rcases List.mem_append.mp ho with ho | ho
  · exact (h.worker t p hp).queued o ho
  · refine hev o ?_
    cases ev with
    | newOrder o' => exact (congrArg some (List.mem_singleton.mp ho)).symm
    | cancelOrder t' x u => cases ho

theorem coe_queued_enqueue {t : UInt32} {p : OrderBookProcessor}
    (hp : s.engine.orderBooks.lookup t = some p) (ev : EngineEvent) :
    (UnorderedMap.collect (fun p : OrderBookProcessor =>
        (p.buffer ++ p.queue).filterMap EngineEvent.order?)
      (AList.insert t (p.enqueue ev) s.engine.orderBooks) : Multiset Order)
      = ev.order?.toList + s.engine.queued := by
  have hsplit : ((p.enqueue ev).buffer ++ (p.enqueue ev).queue).filterMap EngineEvent.order?
      = (p.buffer ++ p.queue).filterMap EngineEvent.order? ++ ev.order?.toList := by
    unfold OrderBookProcessor.enqueue
    rw [← List.append_assoc, List.filterMap_append]
    cases ev <;> rfl
  rw [coe_collect_insert, hsplit, ← Multiset.coe_add]
  unfold MatchingEngine.queued
  rw [coe_collect _ hp]
  abel

/-- The open orders, once the engine and the log are known. -/
theorem openOrders_forward (s : Exchange) {wal : WALManager} {engine : MatchingEngine}
    {history : History} {ev : EngineEvent} {rest : List EngineEvent}
    (hbuffer : s.wal.buffer = ev :: rest) (hwal : wal = { s.wal with buffer := rest })
    (hqueued : (engine.queued : Multiset Order) = ev.order?.toList + s.engine.queued)
    (hresting : (engine.resting : Multiset Order) = s.engine.resting) :
    (({ s with wal := wal, engine := engine, history := history } : Exchange).openOrders :
      Multiset Order) = s.openOrders := by
  have hlog : s.logOrders
      = ev.order?.toList ++ (rest ++ s.wal.queue.elems).filterMap EngineEvent.order? := by
    unfold logOrders
    rw [hbuffer, List.cons_append, List.filterMap_cons]
    cases ev <;> rfl
  subst hwal
  rw [coe_openOrders, coe_openOrders, hlog]
  simp only [logOrders, hqueued, hresting, ← Multiset.coe_add]
  abel

/-- Handing an event to a worker leaves the books and the results alone. -/
theorem clears_route (h : s.Workers) (a : Action) (ev' : EngineEvent) {ev : EngineEvent}
    {rest : List EngineEvent} (hbuffer : s.wal.buffer = ev :: rest) {t : UInt32}
    {p : OrderBookProcessor} (hp : s.engine.orderBooks.lookup t = some p)
    (hev : ev'.order? = ev.order?) (hticker : ∀ o ∈ ev.order?, o.tickerId = t) :
    Clears s a { s with
      wal := { s.wal with buffer := rest }
      engine := ⟨AList.insert t (p.enqueue ev') s.engine.orderBooks⟩ } := by
  have hlog : ∀ o, (o ∈ ev.order? ∨
      o ∈ (rest ++ s.wal.queue.elems).filterMap EngineEvent.order?) → o ∈ s.clearing.accepted := by
    intro o ho
    refine h.log o ?_
    unfold logOrders
    rw [hbuffer, List.cons_append, List.mem_filterMap]
    rcases ho with ho | ho
    · exact ⟨ev, List.mem_cons_self, ho⟩
    · obtain ⟨ev'', hev'', ho⟩ := List.mem_filterMap.mp ho
      exact ⟨ev'', List.mem_cons_of_mem _ hev'', ho⟩
  refine ⟨rfl, h.of_insert rfl rfl rfl ?_ fun o ho => hlog o (Or.inr ho), Or.inl ?_⟩
  · refine worker_enqueue h hp fun o ho => ?_
    rw [hev] at ho
    exact ⟨hticker o ho, hlog o (Or.inl ho)⟩
  · refine Clearing.ext rfl rfl rfl ?_ rfl ?_ rfl rfl rfl rfl rfl rfl
    · refine openOrders_forward s hbuffer rfl ?_ ?_
      · exact (coe_queued_enqueue hp ev').trans (by rw [hev])
      · exact coe_collect_replace (fun p : OrderBookProcessor => p.book.resting) hp rfl
    · show (Exchange.waitingRecords _ : Multiset MatchRecord) = s.waitingRecords
      rw [coe_waitingRecords, coe_waitingRecords]
      exact congrArg (fun m : Multiset MatchRecord =>
        m + s.settlement.queue.elems + s.settlement.buffer)
        (coe_collect_replace OrderBookProcessor.results hp rfl)

theorem clears_logForward (h : s.Workers) (hstep : Step s .logForward s') :
    Clears s .logForward s' := by
  cases hstep with
  | logForward ev rest hwritten hbuffer =>
      have hlog : ∀ o ∈ (rest ++ s.wal.queue.elems).filterMap EngineEvent.order?,
          o ∈ s.clearing.accepted := by
        intro o ho
        refine h.log o ?_
        unfold logOrders
        rw [hbuffer, List.cons_append]
        obtain ⟨ev', hev', ho⟩ := List.mem_filterMap.mp ho
        exact List.mem_filterMap.mpr ⟨ev', List.mem_cons_of_mem _ hev', ho⟩
      cases ev with
      | newOrder o =>
          cases hp : s.engine.orderBooks.lookup o.tickerId with
          | some p =>
              have hroute := clears_route h .logForward (.newOrder o) hbuffer hp rfl
                fun o' ho' => by rw [Option.mem_some_iff.mp ho']
              simpa [WALManager.forward, MatchingEngine.processOrder, hp] using hroute
          | none =>
              -- The engine refuses the order and nobody looks: it is dropped.
              have hforward : WALManager.forward s.engine (.newOrder o) = (s.engine, false) := by
                simp [WALManager.forward, MatchingEngine.processOrder, hp]
              simp only [hforward]
              have hfirst : (s.openOrders : Multiset Order)
                  = o ::ₘ (Exchange.openOrders { s with wal := { s.wal with buffer := rest } } :
                    Multiset Order) := by
                rw [coe_openOrders, coe_openOrders]
                simp only [logOrders, hbuffer, List.cons_append, List.filterMap_cons,
                  EngineEvent.order?_newOrder, ← Multiset.cons_coe, ← Multiset.singleton_add]
                abel
              have hunlisted : s.tickers.idToSymbol.lookup o.tickerId = none := by
                refine Option.not_isSome_iff_eq_none.mp fun hlisted => ?_
                have hbook := h.books o.tickerId hlisted
                rw [hp] at hbook
                cases hbook
              refine ⟨rfl, h.of_engine_eq rfl rfl (le_refl _) hlog, Or.inr ⟨_, .drop, ?_⟩⟩
              refine (Clearing.Step.drop s.clearing o _ hunlisted hfirst).congr
                (Clearing.ext rfl rfl rfl rfl ?_ rfl rfl rfl rfl rfl rfl rfl)
              exact Multiset.coe_eq_coe.mpr (List.perm_append_singleton _ _)
      | cancelOrder t x u =>
          cases hp : s.engine.orderBooks.lookup t with
          | some p =>
              have hroute := clears_route h .logForward (.cancelOrder 0 x u) hbuffer hp rfl
                fun o' ho' => by cases ho'
              simpa [WALManager.forward, MatchingEngine.cancelOrder, hp] using hroute
          | none =>
              have hwal := clears_wal h .logForward { s.wal with buffer := rest } (by
                unfold logOrders
                rw [hbuffer]
                rfl)
              simpa [WALManager.forward, MatchingEngine.cancelOrder, hp] using hwal

/-! ### Workers -/

/-- A worker that moves what it holds, and may pass records on to settlement. -/
theorem clears_replace (h : s.Workers) (a : Action) {t : UInt32} {p : OrderBookProcessor}
    (hp : s.engine.orderBooks.lookup t = some p) (p' : OrderBookProcessor)
    (queue : ProducerQueue UInt32 MatchRecord) (hbook : p'.book = p.book)
    (hqueued : p'.queued = p.queued)
    (hrecords : (p'.results : Multiset MatchRecord) + queue.elems
      = p.results + s.settlement.queue.elems) :
    Clears s a { s with
      engine := ⟨AList.insert t p' s.engine.orderBooks⟩
      settlement := { s.settlement with queue := queue } } := by
  refine ⟨rfl, h.of_insert rfl rfl rfl ?_ h.log, Or.inl ?_⟩
  · refine (h.worker t p hp).congr hbook fun o ho => (h.worker t p hp).queued o ?_
    rwa [hqueued] at ho
  · refine Clearing.ext rfl rfl rfl ?_ rfl ?_ rfl rfl rfl rfl rfl rfl
    · show (Exchange.openOrders _ : Multiset Order) = s.openOrders
      rw [coe_openOrders, coe_openOrders]
      have hq := coe_collect_replace OrderBookProcessor.queued hp hqueued
      have hr := coe_collect_replace (fun p : OrderBookProcessor => p.book.resting) hp
        (congrArg OrderBook.resting hbook)
      exact congrArg₂ (fun m m' : Multiset Order =>
        (s.trading.elems : Multiset Order) + s.logOrders + m + m') hq hr
    · show (Exchange.waitingRecords _ : Multiset MatchRecord) = s.waitingRecords
      rw [coe_waitingRecords, coe_waitingRecords]
      simp only [MatchingEngine.results]
      rw [coe_collect_insert, coe_collect OrderBookProcessor.results hp]
      calc (p'.results : Multiset MatchRecord)
            + UnorderedMap.collect OrderBookProcessor.results (s.engine.orderBooks.erase t)
            + queue.elems + s.settlement.buffer
          = (p'.results + queue.elems)
            + UnorderedMap.collect OrderBookProcessor.results (s.engine.orderBooks.erase t)
            + s.settlement.buffer := by abel
        _ = (p.results + s.settlement.queue.elems)
            + UnorderedMap.collect OrderBookProcessor.results (s.engine.orderBooks.erase t)
            + s.settlement.buffer := by rw [hrecords]
        _ = p.results
            + UnorderedMap.collect OrderBookProcessor.results (s.engine.orderBooks.erase t)
            + s.settlement.queue.elems + s.settlement.buffer := by abel

theorem clears_workerDequeue (h : s.Workers) {t : UInt32} {count : ℕ}
    (hstep : Step s (.workerDequeue t count) s') : Clears s (.workerDequeue t count) s' := by
  cases hstep with
  | workerDequeue _ _ p p' hp hp' =>
      obtain ⟨hidle, rfl⟩ := OrderBookProcessor.dequeue_eq_some hp'
      refine clears_replace h _ hp _ s.settlement.queue rfl ?_ rfl
      unfold OrderBookProcessor.queued
      rw [hidle.1, List.take_append_drop]
      rfl

theorem clears_workerPush (h : s.Workers) {t : UInt32} (hstep : Step s (.workerPush t) s') :
    Clears s (.workerPush t) s' := by
  cases hstep with
  | workerPush _ p out hp hout =>
      obtain ⟨-, rfl⟩ := OrderBookProcessor.pushRecords_eq_some hout
      refine clears_replace h _ hp _ (s.settlement.queue.enqueue t p.results) rfl rfl ?_
      rw [ProducerQueue.elems_enqueue, ← Multiset.coe_add, Multiset.coe_nil, zero_add, add_comm]

/-- The open orders split at the event a worker is about to process. -/
theorem openOrders_process (s : Exchange) {t : UInt32} {p p' : OrderBookProcessor}
    (hp : s.engine.orderBooks.lookup t = some p) {ev : EngineEvent} {rest : List EngineEvent}
    (hbuffer : p.buffer = ev :: rest)
    (hqueued : p'.queued = ({ p with buffer := rest } : OrderBookProcessor).queued)
    (settlement : SettlementProcessor) (history : History) :
    ∃ others : Multiset Order,
      (s.openOrders : Multiset Order) = ↑(ev.order?.toList ++ p.book.resting) + others ∧
      (Exchange.openOrders { s with
        engine := ⟨AList.insert t p' s.engine.orderBooks⟩
        settlement := settlement
        history := history } : Multiset Order) = p'.book.resting + others := by
  have hsplit : p.queued = ev.order?.toList ++ p'.queued := by
    rw [hqueued]
    unfold OrderBookProcessor.queued
    rw [hbuffer, List.cons_append, List.filterMap_cons]
    cases ev <;> rfl
  have hqueues := coe_collect OrderBookProcessor.queued hp
  have hbooks := coe_collect (fun p : OrderBookProcessor => p.book.resting) hp
  have hqueues' := coe_collect_insert OrderBookProcessor.queued s.engine.orderBooks t p'
  have hbooks' := coe_collect_insert (fun p : OrderBookProcessor => p.book.resting)
    s.engine.orderBooks t p'
  refine ⟨s.trading.elems + s.logOrders + p'.queued
    + UnorderedMap.collect OrderBookProcessor.queued (s.engine.orderBooks.erase t)
    + UnorderedMap.collect (fun p : OrderBookProcessor => p.book.resting)
      (s.engine.orderBooks.erase t), ?_, ?_⟩
  · rw [coe_openOrders]
    show _ + (UnorderedMap.collect OrderBookProcessor.queued s.engine.orderBooks :
      Multiset Order) + (UnorderedMap.collect (fun p : OrderBookProcessor => p.book.resting)
      s.engine.orderBooks : Multiset Order) = _
    rw [hqueues, hbooks, hsplit, ← Multiset.coe_add, ← Multiset.coe_add]
    abel
  · rw [coe_openOrders]
    show _ + (UnorderedMap.collect OrderBookProcessor.queued
      (AList.insert t p' s.engine.orderBooks) : Multiset Order)
      + (UnorderedMap.collect (fun p : OrderBookProcessor => p.book.resting)
      (AList.insert t p' s.engine.orderBooks) : Multiset Order) = _
    rw [hqueues', hbooks']
    show (s.trading.elems : Multiset Order) + s.logOrders + _ + _ = _
    abel

/-- What a worker does with an event that is next in its batch. -/
theorem worker_process (h : s.Workers)
    (htracked : s.clearing.DistinctIds → s.clearing.Tracked s.tickers) {t : UInt32}
    {p : OrderBookProcessor} (hp : s.engine.orderBooks.lookup t = some p) {ev : EngineEvent}
    {rest : List EngineEvent} (hbuffer : p.buffer = ev :: rest) (clock : ℕ → UInt64)
    (now : UInt64) :
    Worker s.clearing s.tickers t { p with buffer := rest } ∧
      ∃ pushed, Worker.Processed s.clearing s.tickers t { p with buffer := rest } ev
        (OrderBookProcessor.processEvent clock now { p with buffer := rest } ev) pushed := by
  have hmem : ∀ o, (o ∈ ev.order? ∨
      o ∈ ({ p with buffer := rest } : OrderBookProcessor).queued) → o ∈ p.queued := by
    intro o ho
    unfold OrderBookProcessor.queued at ho ⊢
    rw [hbuffer, List.cons_append, List.mem_filterMap]
    rcases ho with ho | ho
    · exact ⟨ev, List.mem_cons_self, ho⟩
    · obtain ⟨ev', hev', ho⟩ := List.mem_filterMap.mp ho
      exact ⟨ev', List.mem_cons_of_mem _ hev', ho⟩
  have hworker : Worker s.clearing s.tickers t { p with buffer := rest } :=
    (h.worker t p hp).congr rfl fun o ho => (h.worker t p hp).queued o (hmem o (Or.inr ho))
  refine ⟨hworker, ?_⟩
  cases ev with
  | newOrder o =>
      have ho := hmem o (Or.inl rfl)
      exact hworker.processNew clock now ((h.worker t p hp).queued o ho).1
        ((h.worker t p hp).queued o ho).2
        fun hids => fresh_of_ids hp ho (htracked hids).ids hids
  | cancelOrder t' x u => exact ⟨[], hworker.processCancel clock now t' x u⟩

/-- The cancel record of an event, if there is one, goes to the worker's queue. -/
theorem pushCancelRecord_elim (settlement : SettlementProcessor) (t : UInt32)
    (cancel : Option CancelRecord) :
    cancel.elim settlement (settlement.pushCancelRecord t)
      = { settlement with
          cancelQueue := settlement.cancelQueue.enqueue t cancel.toList } := by
  cases cancel with
  | none => simp [ProducerQueue.enqueue]
  | some rec => rfl

theorem clears_workerProcess (h : s.Workers)
    (htracked : s.clearing.DistinctIds → s.clearing.Tracked s.tickers) {t : UInt32}
    {clock : ℕ → UInt64} {now : UInt64} (hstep : Step s (.workerProcess t clock now) s') :
    Clears s (.workerProcess t clock now) s' := by
  cases hstep with
  | workerProcess _ _ _ p out hp hout =>
      obtain ⟨ev, rest, hbuffer, rfl⟩ := OrderBookProcessor.processNext_eq_some hout
      obtain ⟨hworker, pushed, hdone⟩ := worker_process h htracked hp hbuffer clock now
      generalize OrderBookProcessor.processEvent clock now { p with buffer := rest } ev = out
        at hdone ⊢
      have hpushed : out.1.results.drop p.results.length = pushed := by
        rw [hdone.results]
        exact List.drop_left
      simp only [hpushed, pushCancelRecord_elim]
      obtain ⟨others, horders, horders'⟩ := openOrders_process s hp hbuffer hdone.queued
        { s.settlement with cancelQueue := s.settlement.cancelQueue.enqueue t out.2.toList }
        { s.history with
          traded := s.history.traded ++ pushed, cancelled := s.history.cancelled ++ out.2.toList }
      refine ⟨rfl, h.of_insert rfl rfl rfl hdone.worker h.log, Or.inr ⟨_, .market .., ?_⟩⟩
      refine (Clearing.Step.market s.clearing (out.1.book.resting + others) pushed out.2.toList
        hdone.parties ?_ ?_).congr
          (Clearing.ext rfl rfl rfl horders' rfl ?_ rfl ?_ rfl ?_ ?_ rfl)
      · intro hids rec hrec
        rw [hdone.ticker hids rec hrec]
        exact hworker.listed
      · intro hids
        have htrades := hdone.trades hids others
        show Trades (s.openOrders : Multiset Order) _ _ _
        rw [horders]
        exact htrades
      · show (Exchange.waitingRecords _ : Multiset MatchRecord)
          = pushed + (s.waitingRecords : Multiset MatchRecord)
        rw [coe_waitingRecords, coe_waitingRecords]
        simp only [MatchingEngine.results]
        rw [coe_collect_insert, coe_collect OrderBookProcessor.results hp, hdone.results,
          ← Multiset.coe_add]
        abel
      · show (Exchange.waitingCancels _ : Multiset CancelRecord)
          = out.2.toList + (s.waitingCancels : Multiset CancelRecord)
        rw [coe_waitingCancels, coe_waitingCancels, ProducerQueue.elems_enqueue,
          ← Multiset.coe_add]
        abel
      · show ((s.history.traded ++ pushed : List MatchRecord) : Multiset MatchRecord)
          = pushed + s.history.traded
        rw [← Multiset.coe_add, add_comm]
      · show ((s.history.cancelled ++ out.2.toList : List CancelRecord) :
          Multiset CancelRecord) = out.2.toList + s.history.cancelled
        rw [← Multiset.coe_add, add_comm]

/-! ### The settlement thread -/

/-- An action that takes records from the settlement queues. -/
theorem clears_settlement (h : s.Workers) (a : Action) (settlement : SettlementProcessor)
    (hcurrent : settlement.current = s.settlement.current)
    (hrecords : (settlement.queue.elems : Multiset MatchRecord) + settlement.buffer
      = s.settlement.queue.elems + s.settlement.buffer)
    (hcancels : (settlement.cancelQueue.elems : Multiset CancelRecord) + settlement.cancelBuffer
      = s.settlement.cancelQueue.elems + s.settlement.cancelBuffer) :
    Clears s a { s with settlement := settlement } := by
  refine ⟨rfl, h.of_engine_eq rfl rfl (le_refl _) h.log, Or.inl ?_⟩
  refine Clearing.ext rfl rfl rfl rfl rfl ?_ hcurrent ?_ rfl rfl rfl rfl
  · show (Exchange.waitingRecords _ : Multiset MatchRecord) = s.waitingRecords
    rw [coe_waitingRecords, coe_waitingRecords, add_assoc, add_assoc]
    exact congrArg (fun m : Multiset MatchRecord =>
      (s.engine.results : Multiset MatchRecord) + m) hrecords
  · show (Exchange.waitingCancels _ : Multiset CancelRecord) = s.waitingCancels
    rw [coe_waitingCancels, coe_waitingCancels]
    exact hcancels

theorem clears_settleDequeue (h : s.Workers) {picks : List UInt32}
    (hstep : Step s (.settleDequeue picks) s') : Clears s (.settleDequeue picks) s' := by
  cases hstep with
  | settleDequeue _ settlement hs =>
      unfold SettlementProcessor.dequeueRecords at hs
      split_ifs at hs with hidle
      obtain ⟨⟨records, queue⟩, hdequeue, rfl⟩ := Option.map_eq_some_iff.mp hs
      refine clears_settlement h _ _ rfl ?_ rfl
      rw [hidle.1.1, coe_dequeueBulk hdequeue, Multiset.coe_nil, add_zero, add_comm]

theorem clears_cancelDequeue (h : s.Workers) {picks : List UInt32}
    (hstep : Step s (.cancelDequeue picks) s') : Clears s (.cancelDequeue picks) s' := by
  cases hstep with
  | cancelDequeue _ settlement hs =>
      unfold SettlementProcessor.dequeueCancels at hs
      split_ifs at hs with hidle
      obtain ⟨⟨records, queue⟩, hdequeue, rfl⟩ := Option.map_eq_some_iff.mp hs
      refine clears_settlement h _ _ rfl rfl ?_
      rw [hidle.1.2.2, coe_dequeueBulk hdequeue, Multiset.coe_nil, add_zero, add_comm]

theorem clears_settleStart (h : s.Workers) (hstep : Step s .settleStart s') :
    Clears s .settleStart s' := by
  cases hstep with
  | settleStart settlement hs =>
      unfold SettlementProcessor.startRecord at hs
      split at hs
      case h_2 => cases hs
      case h_1 rec rest hcurrent hbuffer =>
        obtain rfl := Option.some.inj hs
        have hfirst : (s.waitingRecords : Multiset MatchRecord)
            = rec ::ₘ (s.engine.results + s.settlement.queue.elems + rest) := by
          rw [coe_waitingRecords, hbuffer, ← Multiset.cons_coe, Multiset.add_cons]
        refine ⟨rfl, h.of_engine_eq rfl rfl (le_refl _) h.log, Or.inr ⟨_, .start, ?_⟩⟩
        refine (Clearing.Step.start s.clearing rec _ hcurrent hfirst).congr
          (Clearing.ext rfl rfl rfl rfl rfl ?_ rfl rfl rfl rfl rfl rfl)
        exact coe_waitingRecords _

theorem clears_settleCall (h : s.Workers) {fault : Option Fault}
    (hstep : Step s (.settleCall fault) s') : Clears s (.settleCall fault) s' := by
  cases hstep with
  | settleCall _ job k hcurrent =>
      exact ⟨rfl, h.of_engine_eq rfl rfl (le_refl _) h.log,
        Or.inr ⟨_, .call fault, Clearing.Step.call s.clearing job k fault hcurrent⟩⟩

theorem clears_commitBuy (h : s.Workers) (hstep : Step s .commitBuy s') :
    Clears s .commitBuy s' := by
  cases hstep with
  | commitBuy job hcurrent =>
      exact ⟨rfl, h.of_engine_eq rfl rfl (le_refl _) h.log,
        Or.inr ⟨_, .commitBuy, Clearing.Step.commitBuy s.clearing job hcurrent⟩⟩

theorem clears_commitSell (h : s.Workers) (hstep : Step s .commitSell s') :
    Clears s .commitSell s' := by
  cases hstep with
  | commitSell job hcurrent =>
      exact ⟨rfl, h.of_engine_eq rfl rfl (le_refl _) h.log,
        Or.inr ⟨_, .commitSell, Clearing.Step.commitSell s.clearing job hcurrent⟩⟩

theorem clears_cancelRelease (h : s.Workers) (hstep : Step s .cancelRelease s') :
    Clears s .cancelRelease s' := by
  cases hstep with
  | cancelRelease rec rest hcurrent hbuffer hcancels =>
      have hfirst : (s.waitingCancels : Multiset CancelRecord)
          = rec ::ₘ (s.settlement.cancelQueue.elems + rest) := by
        rw [coe_waitingCancels, hcancels, ← Multiset.cons_coe, Multiset.add_cons]
      refine ⟨rfl, h.of_engine_eq rfl rfl (le_refl _) h.log, Or.inr ⟨_, .release, ?_⟩⟩
      refine (Clearing.Step.release s.clearing rec _ hcurrent hfirst).congr
        (Clearing.ext rfl rfl rfl rfl rfl rfl rfl ?_ rfl rfl rfl rfl)
      exact coe_waitingCancels _

/-! ## Steps and runs -/

/-- **Every action clears.** -/
theorem step_clears (h : s.Workers)
    (htracked : s.clearing.DistinctIds → s.clearing.Tracked s.tickers) {a : Action}
    (hstep : s.step a = some s') : Clears s a s' := by
  have hstep := step_spec hstep
  cases a with
  | createUserAccount uid username =>
      cases hstep
      exact ⟨rfl, h.of_engine_eq rfl rfl (le_refl _) h.log,
        Or.inr ⟨_, .create .., Clearing.Step.create s.clearing uid username⟩⟩
  | trade thread session req orderId now => exact clears_trade h hstep
  | appendOrder thread => exact clears_appendOrder h hstep
  | cancel thread session req => exact clears_cancel h hstep
  | deposit thread session req fault => exact clears_deposit h hstep
  | addBalance thread => exact clears_addBalance h hstep
  | logDequeue picks => exact clears_logDequeue h hstep
  | logWrite now count => exact clears_logWrite h hstep
  | logForward => exact clears_logForward h hstep
  | workerDequeue t count => exact clears_workerDequeue h hstep
  | workerProcess t clock now => exact clears_workerProcess h htracked hstep
  | workerPush t => exact clears_workerPush h hstep
  | settleDequeue picks => exact clears_settleDequeue h hstep
  | settleStart => exact clears_settleStart h hstep
  | settleCall fault => exact clears_settleCall h hstep
  | commitBuy => exact clears_commitBuy h hstep
  | commitSell => exact clears_commitSell h hstep
  | cancelDequeue picks => exact clears_cancelDequeue h hstep
  | cancelRelease => exact clears_cancelRelease h hstep

end Exchange

end ExchangeServer
