import ExchangeServer.Exchange.Simulation

/-!
# The laws of the exchange

What holds in every state the server can reach, for every interleaving of its
threads.

* `frozen_backed` — what an account has frozen is what its open orders, its
  unsettled records and its dropped orders need.
* `assets_conserved` — cash and shares are neither created nor destroyed.
* `orders_not_stranded` — no accepted order is lost, provided that it is for a
  listed ticker.  `order_stranded` is a run in which it is not: the engine refuses
  an order of an unlisted ticker after its cash was frozen, and the log thread does
  not look at what the engine returns.
-/

namespace ExchangeServer

open Lib PriceTime

namespace Exchange

/-! ## Runs -/

section Start

variable (users : UserManager) (tickers : TickerManager) (db : Database)
  (walFile : Option (List WALRecord))

theorem start_fresh : (start users tickers db walFile).clearing.Fresh := by
  have hempty : ∀ {α : Type} (f : OrderBookProcessor → List α),
      (∀ t, f (OrderBookProcessor.new t) = []) →
      (UnorderedMap.collect f (start users tickers db walFile).engine.orderBooks :
        Multiset α) = 0 := by
    intro α f hf
    refine Multiset.eq_zero_of_forall_notMem fun a ha => ?_
    obtain ⟨t, p, hp, ha⟩ := (UnorderedMap.mem_collect f).mp ha
    rw [lookup_start] at hp
    split_ifs at hp
    rw [← Option.some.inj hp, hf t] at ha
    cases ha
  refine ⟨rfl, ?_, rfl, ?_, rfl, rfl, rfl, rfl, rfl, rfl⟩
  · show (Exchange.openOrders _ : Multiset Order) = 0
    rw [coe_openOrders]
    have hqueued := hempty OrderBookProcessor.queued fun _ => rfl
    have hresting := hempty (fun p => p.book.resting) fun _ => rfl
    show 0 + 0 + (UnorderedMap.collect OrderBookProcessor.queued _ : Multiset Order)
      + (UnorderedMap.collect (fun p : OrderBookProcessor => p.book.resting) _ :
        Multiset Order) = 0
    rw [hqueued, hresting]
    rfl
  · show (Exchange.waitingRecords _ : Multiset MatchRecord) = 0
    rw [coe_waitingRecords]
    have hresults := hempty OrderBookProcessor.results fun _ => rfl
    show (UnorderedMap.collect OrderBookProcessor.results _ : Multiset MatchRecord) + 0 + 0 = 0
    rw [hresults]
    rfl

theorem start_workers : (start users tickers db walFile).Workers where
  books t ht := by
    rw [lookup_start, if_pos ((listed_iff tickers t).mpr ht)]
    rfl
  worker t p hp := by
    rw [lookup_start] at hp
    split_ifs at hp with ht
    rw [← Option.some.inj hp]
    exact Worker.new _ ((listed_iff tickers t).mp ht)
  log o ho := by cases ho

end Start

variable {users : UserManager} {tickers : TickerManager} {db : Database}
  {walFile : Option (List WALRecord)} {actions : List Action} {s : Exchange}
  {G : Clearing → Event → Prop}

/-- The action raises only events that `G` allows. -/
def Allows (G : Clearing → Event → Prop) (s : Exchange) (a : Action) : Prop :=
  ∀ e, Raises a e → G s.clearing e

/-- **Every run clears**: its workers are in order, and it is a sequence of events of
the clearing house, allowed ones if its actions are. -/
theorem runs_clear (hG : Along step (Allows G) (start users tickers db walFile) actions)
    (hrun : runs step (start users tickers db walFile) actions = some s) :
    s.tickers = tickers ∧ s.Workers ∧
      Clearing.Reaches tickers G (start users tickers db walFile).clearing s.clearing := by
  have hfresh := start_fresh users tickers db walFile
  refine runs_induction_along (I := fun s => s.tickers = tickers ∧ s.Workers ∧
      Clearing.Reaches tickers G (start users tickers db walFile).clearing s.clearing)
    (fun s a s' ih hallows hstep => ?_) actions
    ⟨rfl, start_workers users tickers db walFile, Relation.ReflTransGen.refl⟩ hG hrun
  obtain ⟨htickers, hworkers, hreach⟩ := ih
  have htracked : s.clearing.DistinctIds → s.clearing.Tracked s.tickers := by
    intro hids
    rw [htickers]
    exact (hreach.backed hfresh hids).1
  have hclears := step_clears hworkers htracked hstep
  refine ⟨hclears.tickers.trans htickers, hclears.workers, ?_⟩
  rcases hclears.clearing with heq | ⟨e, hraises, hevent⟩
  · rw [heq]
    exact hreach
  · rw [htickers] at hevent
    exact hreach.tail ⟨e, hevent, hallows e hraises⟩

/-- A run whose actions are not restricted. -/
theorem runs_clear_any
    (hrun : runs step (start users tickers db walFile) actions = some s) :
    s.tickers = tickers ∧ s.Workers ∧ Clearing.Reaches tickers (fun _ _ => True)
      (start users tickers db walFile).clearing s.clearing :=
  runs_clear (along_of_forall (fun _ _ _ _ => trivial) _ _) hrun

/-- **Every action clears in a state that is reached.** -/
theorem reached_clears {a : Action}
    (hrun : runs step (start users tickers db walFile) actions = some s)
    (hstep : s.step a = some s') : Clears s a s' := by
  obtain ⟨htickers, hworkers, hreach⟩ := runs_clear_any hrun
  refine step_clears hworkers (fun hids => ?_) hstep
  rw [htickers]
  exact (hreach.backed (start_fresh users tickers db walFile) hids).1

/-! ## Frozen assets -/

section Sums

/-- What is left of the buys of a user, at their limit prices. -/
def buyCash (u : UInt64) (orders : List Order) : ℕ :=
  ((orders.filter fun o => o.side = .buy ∧ o.userId = u).map
    fun o => o.price.toNat * o.quantity.toNat).sum

/-- What is left of the sells of a user in a ticker. -/
def sellShares (u : UInt64) (t : UInt32) (orders : List Order) : ℕ :=
  ((orders.filter fun o => o.side = .sell ∧ o.userId = u ∧ o.tickerId = t).map
    fun o => o.quantity.toNat).sum

/-- What a user expected to pay for the trades in which it buys. -/
def boughtCash (u : UInt64) (records : List MatchRecord) : ℕ :=
  ((records.filter fun rec => rec.buyerUserId = u).map
    fun rec => rec.buyerExpectedPrice.toNat * rec.matchQuantity.toNat).sum

/-- What a user sells of a ticker in some trades. -/
def soldShares (u : UInt64) (t : UInt32) (records : List MatchRecord) : ℕ :=
  ((records.filter fun rec => rec.sellUserId = u ∧ rec.tickerId = t).map
    fun rec => rec.matchQuantity.toNat).sum

/-- What cancelled buys of a user had left. -/
def cancelledCash (u : UInt64) (cancels : List CancelRecord) : ℕ :=
  ((cancels.filter fun rec => rec.side = .buy ∧ rec.userId = u).map
    fun rec => rec.price.toNat * rec.quantity.toNat).sum

/-- What cancelled sells of a user in a ticker had left. -/
def cancelledShares (u : UInt64) (t : UInt32) (cancels : List CancelRecord) : ℕ :=
  ((cancels.filter fun rec => rec.side = .sell ∧ rec.userId = u ∧ rec.tickerId = t).map
    fun rec => rec.quantity.toNat).sum

/-- The cash that is behind something the server still has to do for `u`. -/
def pendingCash (s : Exchange) (u : UInt64) : ℕ :=
  buyCash u s.openOrders + boughtCash u s.unboughtRecords + cancelledCash u s.waitingCancels

/-- The shares that are behind something the server still has to do for `u`. -/
def pendingShares (s : Exchange) (u : UInt64) (t : UInt32) : ℕ :=
  sellShares u t s.openOrders + soldShares u t s.unsoldRecords
    + cancelledShares u t s.waitingCancels

theorem sum_map_filter {α : Type*} (p : α → Prop) [DecidablePred p] (f : α → ℕ)
    (l : List α) : ((l.filter p).map f).sum = (l.map fun a => if p a then f a else 0).sum := by
  rw [List.sum_map_ite]
  simp

theorem coe_unbought (s : Exchange) : s.clearing.unbought = (s.unboughtRecords : Multiset _) := by
  have hinHand : s.clearing.inHand = s.settlement.current := rfl
  have hrecords : s.clearing.records = (s.waitingRecords : Multiset _) := rfl
  unfold Clearing.unbought Clearing.buying unboughtRecords
  rw [hinHand, hrecords]
  rcases s.settlement.current with _ | ⟨job, _ | _ | _⟩
  · exact zero_add _
  · exact Multiset.singleton_add ..
  · exact Multiset.singleton_add ..
  · exact zero_add _

theorem coe_unsold (s : Exchange) : s.clearing.unsold = (s.unsoldRecords : Multiset _) := by
  have hinHand : s.clearing.inHand = s.settlement.current := rfl
  have hrecords : s.clearing.records = (s.waitingRecords : Multiset _) := rfl
  unfold Clearing.unsold Clearing.selling unsoldRecords
  rw [hinHand, hrecords]
  rcases s.settlement.current with _ | ⟨job, _⟩
  · exact zero_add _
  · exact Multiset.singleton_add ..

variable (u : UInt64) (t : UInt32)

theorem orders_cash (orders : List Order) : (cash u).orders orders = buyCash u orders := by
  rw [Valuation.orders_coe, buyCash, sum_map_filter]
  refine congrArg List.sum (List.map_congr_left fun o _ => ?_)
  simp only [shareWorth, cash, Order.core, ite_mul, zero_mul]

theorem orders_shares (orders : List Order) :
    (shares u t).orders orders = sellShares u t orders := by
  rw [Valuation.orders_coe, sellShares, sum_map_filter]
  refine congrArg List.sum (List.map_congr_left fun o _ => ?_)
  simp only [shareWorth, shares, Order.core, ite_mul, zero_mul, one_mul]

theorem trades_cash (records : List MatchRecord) :
    (cash u).trades records = boughtCash u records := by
  rw [boughtCash, sum_map_filter]
  rfl

theorem trades_shares (records : List MatchRecord) :
    (shares u t).trades records = soldShares u t records := by
  rw [soldShares, sum_map_filter]
  rfl

theorem cancels_cash (cancels : List CancelRecord) :
    (cash u).cancels cancels = cancelledCash u cancels := by
  rw [cancelledCash, sum_map_filter]
  rfl

theorem cancels_shares (cancels : List CancelRecord) :
    (shares u t).cancels cancels = cancelledShares u t cancels := by
  rw [cancelledShares, sum_map_filter]
  rfl

theorem backing_frozenCash (s : Exchange) :
    (frozenCash u).backing s.clearing = s.pendingCash u + buyCash u s.history.dropped := by
  have horders := orders_cash u s.openOrders
  have hdropped := orders_cash u s.history.dropped
  have htrades := trades_cash u s.unboughtRecords
  have hcancels := cancels_cash u s.waitingCancels
  show (cash u).orders s.openOrders + (cash u).orders s.history.dropped
    + (cash u).trades s.clearing.unbought + (cash u).cancels s.waitingCancels = _
  rw [coe_unbought]
  unfold pendingCash
  omega

theorem backing_frozenShares (s : Exchange) :
    (frozenShares u t).backing s.clearing
      = s.pendingShares u t + sellShares u t s.history.dropped := by
  have horders := orders_shares u t s.openOrders
  have hdropped := orders_shares u t s.history.dropped
  have htrades := trades_shares u t s.unsoldRecords
  have hcancels := cancels_shares u t s.waitingCancels
  show (shares u t).orders s.openOrders + (shares u t).orders s.history.dropped
    + (shares u t).trades s.clearing.unsold + (shares u t).cancels s.waitingCancels = _
  rw [coe_unsold]
  unfold pendingShares
  omega

end Sums

theorem distinctIds_iff (s : Exchange) : s.clearing.DistinctIds ↔ DistinctIds s.accepted := by
  unfold Clearing.DistinctIds DistinctIds
  exact Multiset.coe_nodup

end Exchange

open Exchange

/-- **Frozen assets are exactly backed.**  In every state the server can reach from
one where nothing is frozen, whatever the threads did and in whatever order: what a
user has frozen is what is behind its open orders, the records not yet committed,
the cancellations not yet released and the orders for which there was no book, up to
wrap-around of the machine integers. -/
theorem frozen_backed (users : UserManager) (tickers : TickerManager) (db : Database)
    (walFile : Option (List WALRecord)) (actions : List Action) (s : Exchange)
    (hstart : users.NothingFrozen)
    (hrun : runs Exchange.step (Exchange.start users tickers db walFile) actions = some s)
    (hids : DistinctIds s.accepted) (u : UInt64) :
    (s.users.frozenBalance u).toInt
        ≡ (s.pendingCash u + buyCash u s.history.dropped : ℕ) [ZMOD 2 ^ 64] ∧
      ∀ t, (s.users.frozenStock u t).toInt
        ≡ (s.pendingShares u t + sellShares u t s.history.dropped : ℕ) [ZMOD 2 ^ 32] := by
  obtain ⟨-, -, hreach⟩ := runs_clear_any hrun
  obtain ⟨-, hbacked⟩ := Clearing.Reaches.backed hreach (start_fresh users tickers db walFile)
    ((distinctIds_iff s).mpr hids)
  refine ⟨?_, fun t => ?_⟩
  · have hcash := hbacked (frozenCash u) (congrArg Int64.toInt (hstart u).1)
    unfold Meter.Backed at hcash
    rwa [backing_frozenCash] at hcash
  · have hshares := hbacked (frozenShares u t) (congrArg Int32.toInt ((hstart u).2 t))
    unfold Meter.Backed at hshares
    rwa [backing_frozenShares] at hshares

/-- Alice has cash and bob has shares. -/
def tradeUsers : UserManager :=
  (sampleUsers.addBalance 1 1000).modifyAccount 2
    fun acc => { acc with availableStock := acc.availableStock.update 1 (· + 10) }

/-- Bob offers five shares and alice buys three of them, up to `commitBuy`. -/
def tradeActions : List Action :=
  [.trade 0 ⟨"bob", 2⟩ ⟨1, 1, 100, 5⟩ 11 0, .trade 1 ⟨"alice", 1⟩ ⟨1, 0, 101, 3⟩ 12 0,
    .appendOrder 0, .appendOrder 1, .logDequeue [0, 1], .logWrite (fun _ => 0) 2,
    .logForward, .logForward, .workerDequeue 1 2, .workerProcess 1 (fun _ => 0) 0,
    .workerProcess 1 (fun _ => 0) 0, .workerPush 1, .settleDequeue [1], .settleStart,
    .settleCall none, .settleCall none, .settleCall none, .settleCall none, .commitBuy]

/-- Cash for alice and shares for bob freeze nothing. -/
theorem sampleUsers_nothingFrozen (cash : Int64) :
    ((sampleUsers.addBalance 1 cash).modifyAccount 2 fun acc =>
      { acc with availableStock := acc.availableStock.update 1 (· + 10) }).NothingFrozen := by
  have hnew : sampleUsers.NothingFrozen :=
    (UserManager.NothingFrozen.new.create 1 "alice").create 2 "bob"
  have hcash : (sampleUsers.addBalance 1 cash).NothingFrozen := by
    refine hnew.modify 1 ?_ ?_ <;> intro acc <;> simp only [UserAccount.addBalance]
  refine hcash.modify 2 ?_ ?_ <;> intro acc <;> rfl

theorem tradeUsers_nothingFrozen : tradeUsers.NothingFrozen :=
  sampleUsers_nothingFrozen 1000

/-- The server after that. -/
def tradeEnd : Exchange :=
  runsTo Exchange.step (Exchange.start tradeUsers sampleTickers sampleDb none) tradeActions

theorem tradeEnd_run :
    runs Exchange.step (Exchange.start tradeUsers sampleTickers sampleDb none) tradeActions
      = some tradeEnd :=
  runs_eq_runsTo _ (by decide)

theorem frozen_backed_sample : DistinctIds tradeEnd.accepted ∧
    (tradeEnd.users.frozenStock 2 1).toInt
      ≡ (tradeEnd.pendingShares 2 1 + sellShares 2 1 tradeEnd.history.dropped : ℕ)
        [ZMOD 2 ^ 32] := by
  have hids : DistinctIds tradeEnd.accepted := by
    unfold DistinctIds
    decide
  exact ⟨hids, (frozen_backed tradeUsers sampleTickers sampleDb none tradeActions tradeEnd
    tradeUsers_nothingFrozen tradeEnd_run hids 2).2 1⟩

/-! ## Conservation -/

/-- **Trading neither creates nor destroys cash or shares.**  Both parties of the
record in hand have an account, and whenever it is not between its two commits, all
cash is what there was at the start and what was paid in, and all shares of a ticker
are what there was at the start, up to wrap-around. -/
theorem assets_conserved (users : UserManager) (tickers : TickerManager) (db : Database)
    (walFile : Option (List WALRecord)) (actions : List Action) (s : Exchange)
    (hrun : runs Exchange.step (Exchange.start users tickers db walFile) actions = some s) :
    (∀ job stage, s.settlement.current = some (job, stage) →
      s.users.HasAccount job.record.buyerUserId ∧ s.users.HasAccount job.record.sellUserId) ∧
    ((∀ job, s.settlement.current ≠ some (job, .commitSell)) →
      s.users.cashTotal
          ≡ users.cashTotal + (s.history.credited.map fun d => d.2.toInt).sum [ZMOD 2 ^ 64] ∧
        ∀ t, s.users.stockTotal t ≡ users.stockTotal t [ZMOD 2 ^ 32]) := by
  obtain ⟨-, -, hreach⟩ := runs_clear_any hrun
  have hfresh := start_fresh users tickers db walFile
  obtain ⟨howned, hcash, hstock⟩ := Clearing.Reaches.conserves hreach hfresh.owned
  refine ⟨fun job stage hcurrent => howned.inHand hcurrent, fun hwhole => ?_⟩
  have hhalfCash : s.clearing.halfCash = 0 := by
    unfold Clearing.halfCash
    split
    case h_1 job hcurrent => exact absurd hcurrent (hwhole job)
    case h_2 => rfl
  have hhalfStock : ∀ t, s.clearing.halfStock t = 0 := by
    intro t
    unfold Clearing.halfStock
    split
    case h_1 job hcurrent => exact absurd hcurrent (hwhole job)
    case h_2 => rfl
  have hpaid : s.clearing.paidIn = (s.history.credited.map fun d => d.2.toInt).sum := rfl
  refine ⟨?_, fun t => ?_⟩
  · have hledger : s.users.cashTotal + s.clearing.halfCash - s.clearing.paidIn
        ≡ users.cashTotal + 0 - 0 [ZMOD 2 ^ 64] := hcash
    have hpaidBack := hledger.add_right s.clearing.paidIn
    rw [hhalfCash] at hpaidBack
    rw [← hpaid]
    simpa using hpaidBack
  · have hledger : s.users.stockTotal t - s.clearing.halfStock t
        ≡ users.stockTotal t - 0 [ZMOD 2 ^ 32] := hstock t
    rw [hhalfStock] at hledger
    simpa using hledger

theorem assets_conserved_sample :
    tradeEnd.users.HasAccount 1 ∧ tradeEnd.users.HasAccount 2 := by
  have hcurrent : tradeEnd.settlement.current
      = some (⟨⟨1, 11, 12, 1, 2, 101, 100, 3, 0⟩, "alice", "bob", "AAPL"⟩, .commitSell) := by
    decide
  exact (assets_conserved tradeUsers sampleTickers sampleDb none tradeActions tradeEnd
    tradeEnd_run).1 _ _ hcurrent

/-! ## Accepted orders -/

namespace Exchange

/-- Nothing waits in the log or in the engine. -/
def Drained (s : Exchange) : Prop :=
  s.wal.buffer = [] ∧ s.wal.queue.elems = [] ∧
    ∀ t p, s.engine.orderBooks.lookup t = some p → p.buffer = [] ∧ p.queue = []

/-- The order's ticker has a book, and its quantity was traded, cancelled or rests
there. -/
def AccountedFor (s : Exchange) (o : Order) : Prop :=
  ∃ p, s.engine.orderBooks.lookup o.tickerId = some p ∧
    o.quantity.toNat = matchedQuantity o.orderId s.history.traded
      + cancelledQuantity o.orderId s.history.cancelled
      + restingQuantity o.orderId p.book.resting

/-- What is frozen is for something that is still to be done. -/
def NothingStranded (s : Exchange) : Prop :=
  ∀ u, (s.users.frozenBalance u).toInt ≡ s.pendingCash u [ZMOD 2 ^ 64] ∧
    ∀ t, (s.users.frozenStock u t).toInt ≡ s.pendingShares u t [ZMOD 2 ^ 32]

/-- A trade request that is accepted names a listed ticker and is given a new id. -/
def Routable (tickers : TickerManager) (s : Exchange) : Action → Prop
  | .trade _ session req orderId _ =>
      session.isLoggedIn = true → (req.freeze s.users session).2 = true →
        (tickers.idToSymbol.lookup req.tickerId).isSome ∧
          orderId ∉ s.accepted.map Order.orderId
  | _ => True

instance (tickers : TickerManager) (s : Exchange) (a : Action) :
    Decidable (Routable tickers s a) :=
  decidable_of_bool
    (match a with
      | .trade _ session req orderId _ =>
          session.isLoggedIn = true → (req.freeze s.users session).2 = true →
            (tickers.idToSymbol.lookup req.tickerId).isSome ∧
              orderId ∉ s.accepted.map Order.orderId
      | _ => true)
    (by
      unfold Routable
      split
      · exact decide_eq_true_iff
      · exact iff_of_true rfl trivial)

theorem allows_of_routable {tickers : TickerManager} {s : Exchange} {a : Action}
    (h : Routable tickers s a) : Allows (Clearing.Routes tickers) s a := by
  intro e hraises
  cases hraises with
  | freeze thread session req orderId now hlogin =>
      intro hok
      change ((req.order session orderId now).freeze s.users).2 = true at hok
      rw [freeze_order] at hok
      obtain ⟨hlisted, hnew⟩ := h hlogin hok
      refine ⟨hlisted, fun hmem => hnew ?_⟩
      simpa [clearing, TradeRequest.order] using hmem
  | _ => trivial

section Quantities

variable (x : UInt64)

theorem trades_quantityOf (records : List MatchRecord) :
    (quantityOf x).trades records = matchedQuantity x records := by
  rw [matchedQuantity, sum_map_filter]
  rfl

theorem cancels_quantityOf (records : List CancelRecord) :
    (quantityOf x).cancels records = cancelledQuantity x records := by
  rw [cancelledQuantity, sum_map_filter]
  rfl

/-- A drained engine has no order in its queues. -/
theorem Drained.queued {s : Exchange} (h : s.Drained) : s.engine.queued = [] := by
  refine List.eq_nil_iff_forall_not_mem.mpr fun o ho => ?_
  obtain ⟨t, p, hp, ho⟩ := (UnorderedMap.mem_collect _).mp ho
  obtain ⟨hbuffer, hqueue⟩ := h.2.2 t p hp
  rw [hbuffer, hqueue] at ho
  cases ho

theorem Drained.logOrders {s : Exchange} (h : s.Drained) : s.logOrders = [] := by
  unfold Exchange.logOrders
  rw [h.1, h.2.1]
  rfl

/-- An accepted order rests in the book of its ticker or nowhere. -/
theorem resting_of_accepted {s : Exchange} (hworkers : s.Workers)
    (htracked : s.clearing.Tracked s.tickers) (hids : DistinctIds s.accepted) {o : Order}
    (ho : o ∈ s.accepted) {p : OrderBookProcessor}
    (hp : s.engine.orderBooks.lookup o.tickerId = some p) :
    worth (ofOrder o.orderId) s.engine.resting = worth (ofOrder o.orderId) p.book.resting := by
  have hsplit := UnorderedMap.collect_perm_of_lookup
    (fun p : OrderBookProcessor => p.book.resting) hp
  have hothers : worth (ofOrder o.orderId)
      (UnorderedMap.collect (fun p : OrderBookProcessor => p.book.resting)
        (s.engine.orderBooks.erase o.tickerId)) = 0 := by
    refine worth_ofOrder_eq_zero fun hx => ?_
    obtain ⟨o', ho', hid⟩ := List.mem_map.mp hx
    obtain ⟨t, p', hp', hmem⟩ := (UnorderedMap.mem_collect _).mp ho'
    have ht : t ≠ o.tickerId := by
      rintro rfl
      rw [AList.lookup_erase] at hp'
      cases hp'
    rw [AList.lookup_erase_ne ht] at hp'
    -- The other book's order has the core of an accepted order, which is `o` by its id.
    have hopen : o' ∈ s.clearing.orders := by
      show o' ∈ s.openOrders
      exact List.mem_append_right _ ((UnorderedMap.mem_collect _).mpr ⟨t, p', hp', hmem⟩)
    obtain ⟨a, ha, hcore⟩ := htracked.cores o' hopen
    have hsame : a = o := List.inj_on_of_nodup_map hids ha ho
      ((Order.orderId_of_core hcore).symm.trans hid)
    obtain ⟨resting, hsim, htickers⟩ :=
      (hworkers.worker t p' hp').simulates ((distinctIds_iff s).mpr hids)
    have hticker := htickers o' (hsim.perm.mem_iff.mp hmem)
    rw [Order.tickerId_of_core hcore, hsame] at hticker
    exact ht hticker.symm
  have hworth := worth_perm (ofOrder o.orderId) hsplit
  rw [worth_append, hothers] at hworth
  exact hworth

/-- Once the queues are empty, what was accepted and not dropped is accounted for. -/
theorem accountedFor {s : Exchange} (hworkers : s.Workers)
    (htracked : s.clearing.Tracked s.tickers) (hids : DistinctIds s.accepted)
    (hdropped : s.history.dropped = []) (hdrained : s.Drained) {o : Order}
    (ho : o ∈ s.history.acknowledged)
    (hlisted : (s.tickers.idToSymbol.lookup o.tickerId).isSome) : s.AccountedFor o := by
  obtain ⟨p, hp⟩ := Option.isSome_iff_exists.mp (hworkers.books o.tickerId hlisted)
  refine ⟨p, hp, ?_⟩
  have hmem : o ∈ s.accepted := List.mem_append_left _ ho
  have haccounted : (quantityOf o.orderId).orders s.accepted
      = (quantityOf o.orderId).orders s.openOrders
        + (quantityOf o.orderId).orders s.history.dropped
        + (quantityOf o.orderId).trades s.history.traded
        + (quantityOf o.orderId).cancels s.history.cancelled :=
    htracked.accounted (quantityOf o.orderId)
  have htrading : worth (ofOrder o.orderId) s.trading.elems = 0 := by
    refine worth_ofOrder_eq_zero fun hx => ?_
    unfold DistinctIds accepted at hids
    rw [List.map_append] at hids
    exact (List.nodup_append'.mp hids).2.2 (List.mem_map_of_mem ho) hx
  rw [Valuation.orders_coe, Valuation.orders_coe, Valuation.orders_coe, trades_quantityOf,
    cancels_quantityOf, hdropped] at haccounted
  change worth (ofOrder o.orderId) s.accepted = worth (ofOrder o.orderId) s.openOrders
    + worth (ofOrder o.orderId) [] + _ + _ at haccounted
  rw [worth_ofOrder hids hmem, openOrders, hdrained.logOrders, hdrained.queued, worth_append,
    worth_append, worth_append, htrading, worth_nil,
    resting_of_accepted hworkers htracked hids hmem hp] at haccounted
  rw [restingQuantity_eq_worth]
  omega

end Quantities

end Exchange

/-- **No accepted order strands its assets, as long as every order that is accepted
can be routed**: in every state reached by such a run, once the log and the engine
are empty, the quantity of an acknowledged order was traded, cancelled or rests in
the book of its ticker; and at all times what is frozen is for something that is
still to be done. -/
theorem orders_not_stranded (users : UserManager) (tickers : TickerManager) (db : Database)
    (walFile : Option (List WALRecord)) (actions : List Action) (s : Exchange)
    (hstart : users.NothingFrozen)
    (hroutable : Along Exchange.step (Routable tickers)
      (Exchange.start users tickers db walFile) actions)
    (hrun : runs Exchange.step (Exchange.start users tickers db walFile) actions = some s) :
    (s.Drained → ∀ o ∈ s.history.acknowledged, s.AccountedFor o) ∧ s.NothingStranded := by
  have hfresh := start_fresh users tickers db walFile
  obtain ⟨htickers, hworkers, hreach⟩ := runs_clear (hroutable.mono fun _ _ => allows_of_routable)
    hrun
  obtain ⟨hids, hdropped, hlisted⟩ := Clearing.Reaches.routed hreach hfresh
  have htracked := (Clearing.Reaches.backed hreach hfresh hids).1
  have hids' := (distinctIds_iff s).mp hids
  have hdropped' : s.history.dropped = [] := Multiset.coe_eq_zero s.history.dropped |>.mp hdropped
  refine ⟨fun hdrained o ho => ?_, fun u => ?_⟩
  · refine accountedFor hworkers (htickers ▸ htracked) hids' hdropped' hdrained ho ?_
    rw [htickers]
    exact hlisted o (List.mem_append_left _ ho)
  · obtain ⟨-, hbacked⟩ := Clearing.Reaches.backed hreach hfresh hids
    refine ⟨?_, fun t => ?_⟩
    · have hcash := hbacked (frozenCash u) (congrArg Int64.toInt (hstart u).1)
      unfold Meter.Backed at hcash
      rw [backing_frozenCash, hdropped'] at hcash
      exact hcash
    · have hshares := hbacked (frozenShares u t) (congrArg Int32.toInt ((hstart u).2 t))
      unfold Meter.Backed at hshares
      rw [backing_frozenShares, hdropped'] at hshares
      exact hshares

theorem orders_not_stranded_sample :
    Along Exchange.step (Routable sampleTickers)
      (Exchange.start tradeUsers sampleTickers sampleDb none) tradeActions ∧
    tradeEnd.Drained ∧ tradeEnd.AccountedFor ⟨12, 1, 1, .buy, 101, 3, 0⟩ := by
  have hroutable : Along Exchange.step (Routable sampleTickers)
      (Exchange.start tradeUsers sampleTickers sampleDb none) tradeActions := by decide
  have hdrained : tradeEnd.Drained := by
    refine ⟨by decide, by decide, fun t p hp => ?_⟩
    have hall : ∀ e ∈ tradeEnd.engine.orderBooks.entries,
        e.2.buffer = [] ∧ e.2.queue = [] := by decide
    exact hall ⟨t, p⟩ ((UnorderedMap.mem_entries_iff _ t p).mpr hp)
  exact ⟨hroutable, hdrained, (orders_not_stranded tradeUsers sampleTickers sampleDb none
    tradeActions tradeEnd tradeUsers_nothingFrozen hroutable tradeEnd_run).1 hdrained _
    (by decide)⟩

/-- Alice buys a ticker that is not listed: her cash is frozen, the order is
acknowledged, logged and refused by the engine. -/
def strandActions : List Action :=
  [.trade 0 ⟨"alice", 1⟩ ⟨99, 0, 100, 3⟩ 11 0, .appendOrder 0, .logDequeue [0],
    .logWrite (fun _ => 0) 1, .logForward]

def strandEnd : Exchange :=
  runsTo Exchange.step (Exchange.start tradeUsers sampleTickers sampleDb none) strandActions

/-- The order is in no queue, no book and no record, and its cash stays frozen. -/
theorem order_stranded :
    runs Exchange.step (Exchange.start tradeUsers sampleTickers sampleDb none) strandActions
        = some strandEnd ∧
      strandEnd.Drained ∧
      (∃ o ∈ strandEnd.history.acknowledged, ¬ strandEnd.AccountedFor o) ∧
      strandEnd.users.frozenBalance 1 = 300 ∧ strandEnd.pendingCash 1 = 0 ∧
      ¬ strandEnd.NothingStranded := by
  have hfrozen : strandEnd.users.frozenBalance 1 = 300 := by decide
  have hpending : strandEnd.pendingCash 1 = 0 := by decide
  refine ⟨runs_eq_runsTo _ (by decide), ⟨by decide, by decide, fun t p hp => ?_⟩,
    ⟨⟨11, 99, 1, .buy, 100, 3, 0⟩, by decide, ?_⟩, hfrozen, hpending, fun h => ?_⟩
  · have hall : ∀ e ∈ strandEnd.engine.orderBooks.entries,
        e.2.buffer = [] ∧ e.2.queue = [] := by decide
    exact hall ⟨t, p⟩ ((UnorderedMap.mem_entries_iff _ t p).mpr hp)
  · rintro ⟨p, hp, -⟩
    have hnone : (strandEnd.engine.orderBooks.lookup 99).isSome = false := by decide
    rw [hp] at hnone
    cases hnone
  · have hcash := (h 1).1
    rw [hfrozen, hpending] at hcash
    exact absurd hcash (by decide)

end ExchangeServer
