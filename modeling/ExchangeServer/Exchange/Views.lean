import Mathlib.Algebra.Order.BigOperators.Group.Finset
import ExchangeServer.Exchange.Scheduling
import ExchangeServer.Handlers.Lists

/-!
# What clients are shown

`GetOrdersHandler` and `GetMarketHandler` read the books while the workers go on.  What they
show is compared here with the records that were made: an order is open when its worker has
processed it and the match records and cancel records leave something of it (`Trace.Open`).

* `open_orders_shown` — a user is shown its open orders and nothing else, each once and with
  what the records leave of it.
* `best_prices_shown` — the quote of a ticker is the best price of an open buy and the best
  price of an open sell, and the two never cross.
-/

namespace ExchangeServer

open Lib PriceTime

/-! ## Open orders -/

namespace Trace

/-- What the records leave of an order. -/
def left (tr : Trace) (o : Order) : ℕ :=
  o.quantity.toNat - matchedQuantity o.orderId (tr.traded o.tickerId)
    - cancelledQuantity o.orderId (tr.cancelled o.tickerId)

/-- The order has been processed, and the records leave something of it. -/
structure Open (tr : Trace) (o : Order) : Prop where
  processed : .newOrder o ∈ tr.processed o.tickerId
  left : 0 < tr.left o

/-- The order with what is left of it. -/
def rest (tr : Trace) (o : Order) : Order :=
  { o with quantity := UInt64.ofNat (tr.left o) }

/-- `price` is that of an open order of this side of a ticker, and no other one has a better
price; it is zero when there is none. -/
def Best (tr : Trace) (t : UInt32) (side : OrderSide) (price : ℕ) : Prop :=
  (∃ o, tr.Open o ∧ o.tickerId = t ∧ o.side = side ∧ price = o.price.toNat ∧
      ∀ o', tr.Open o' → o'.tickerId = t → o'.side = side → ¬ before side o'.price o.price) ∨
    price = 0 ∧ ∀ o, tr.Open o → o.tickerId = t → o.side ≠ side

end Trace

/-! ## What rests in a book -/

/-- The price of the first level of a side. -/
theorem Represents.first_price {side : OrderSide} {heap : Heap Order}
    {levels : List (UInt64 × OrderList)} {resting : List Order}
    (h : Represents (before side) (OrderBook.derefLevels heap levels) (onSide side resting)) :
    (∃ o ∈ resting, o.side = side ∧ levels.head?.elim 0 Prod.fst = o.price ∧
        ∀ o' ∈ resting, o'.side = side → ¬ before side o'.price o.price) ∨
      levels.head?.elim 0 Prod.fst = 0 ∧ ∀ o ∈ resting, o.side ≠ side := by
  cases levels with
  | nil =>
      refine Or.inr ⟨rfl, fun o ho hside => ?_⟩
      cases h.level_mem (mem_onSide.mpr ⟨ho, hside⟩)
  | cons level levels =>
      obtain ⟨p, l⟩ := level
      obtain ⟨hne, hl⟩ := (h.mem_iff p _).mp List.mem_cons_self
      obtain ⟨o, ho⟩ := List.exists_mem_of_ne_nil _ hne
      rw [hl] at ho
      obtain ⟨hside, hprice⟩ := mem_atPrice.mp ho
      obtain ⟨ho, hside⟩ := mem_onSide.mp hside
      refine Or.inl ⟨o, ho, hside, hprice.symm, fun o' ho' hside' hbefore => ?_⟩
      rw [hprice] at hbefore
      rcases h.first_le (mem_onSide.mpr ⟨ho', hside'⟩) with heq | hafter
      · rw [show o'.price = p from heq] at hbefore
        exact irrefl_of (before side) p hbefore
      · exact asymm_of (before side) hafter hbefore

theorem matchedQuantity_untimed (x : UInt64) (records : List MatchRecord) :
    matchedQuantity x (records.map MatchRecord.untimed) = matchedQuantity x records := by
  induction records with
  | nil => rfl
  | cons rec records ih =>
      rw [List.map_cons, matchedQuantity_cons, matchedQuantity_cons, ih]
      rfl

theorem cancelledQuantity_untimed (x : UInt64) (records : List CancelRecord) :
    cancelledQuantity x (records.map CancelRecord.untimed) = cancelledQuantity x records := by
  induction records with
  | nil => rfl
  | cons rec records ih =>
      rw [List.map_cons, cancelledQuantity_cons, cancelledQuantity_cons, ih]
      rfl

namespace ProcessorSim

variable {submitted : List Order} {log : List Emission} {p : OrderBookProcessor}
  {entries : List Entry} {resting : List Order}

theorem resting_perm (h : ProcessorSim submitted log p entries resting) :
    p.book.resting.Perm resting :=
  h.simulates.perm

theorem restingQuantity_eq (h : ProcessorSim submitted log p entries resting) (x : UInt64) :
    restingQuantity x p.book.resting = worth (ofOrder x) resting :=
  (restingQuantity_eq_worth x _).trans (worth_perm _ h.resting_perm)

/-- What was ordered has been traded or cancelled, or it rests. -/
theorem quantity_eq (h : ProcessorSim submitted log p entries resting) {o : Order}
    (ho : o ∈ submitted) : o.quantity.toNat =
      matchedQuantity o.orderId (log.filterMap Emission.trade?)
        + restingQuantity o.orderId p.book.resting
        + cancelledQuantity o.orderId (log.filterMap Emission.cancel?) := by
  have hreported := reported_eq_logWorth o.orderId h.ledger.valid h.log
  have hquantity := h.ledger.quantity_eq ho
  have hresting := h.restingQuantity_eq o.orderId
  omega

/-- A resting order is a submitted one with the quantity that rests of it. -/
theorem eq_of_core (h : ProcessorSim submitted log p entries resting) {r o : Order}
    (hr : r ∈ resting) (hcore : r.core = o.core) :
    0 < restingQuantity o.orderId p.book.resting ∧
      r = { o with quantity := UInt64.ofNat (restingQuantity o.orderId p.book.resting) } := by
  have hquantity : restingQuantity o.orderId p.book.resting = r.quantity.toNat := by
    rw [h.restingQuantity_eq, ← Order.orderId_of_core hcore]
    exact worth_ofOrder h.ledger.sound.distinct hr
  rw [hquantity, UInt64.ofNat_toNat]
  refine ⟨UInt64.lt_iff_toNat_lt.mp (h.ledger.sound.pos r hr), ?_⟩
  exact congrArg (fun o : Order => { o with quantity := r.quantity }) hcore

/-- **What rests in the book of a worker.** -/
theorem mem_resting_iff (h : ProcessorSim submitted log p entries resting) (r : Order) :
    r ∈ p.book.resting ↔ ∃ o ∈ submitted, 0 < restingQuantity o.orderId p.book.resting ∧
      r = { o with quantity := UInt64.ofNat (restingQuantity o.orderId p.book.resting) } := by
  rw [h.resting_perm.mem_iff]
  constructor
  · intro hr
    obtain ⟨o, ho, hcore⟩ := h.ledger.resting_submitted r hr
    exact ⟨o, ho, h.eq_of_core hr hcore⟩
  · rintro ⟨o, ho, hpos, rfl⟩
    have hmem : o.orderId ∈ resting.map Order.orderId := by
      by_contra hnot
      rw [h.restingQuantity_eq, worth_ofOrder_eq_zero hnot] at hpos
      exact absurd hpos (Nat.lt_irrefl 0)
    obtain ⟨r, hr, hid⟩ := List.mem_map.mp hmem
    obtain ⟨o', ho', hcore⟩ := h.ledger.resting_submitted r hr
    obtain rfl := h.ledger.ids.eq_of_mem ho' ho ((Order.orderId_of_core hcore).symm.trans hid)
    rw [← (h.eq_of_core hr hcore).2]
    exact hr

end ProcessorSim

/-- A replica keeps the account of the orders it was given. -/
theorem Replica.processorSim (clock : ℕ → UInt64) (now : UInt64) (t : UInt32)
    (events : List EngineEvent) (hids : DistinctIds (events.filterMap EngineEvent.order?)) :
    ∃ log entries resting,
      ProcessorSim (events.filterMap EngineEvent.order?) log (replay clock now t events).processor
        entries resting ∧
      log.filterMap Emission.trade? = (replay clock now t events).processor.results ∧
      log.filterMap Emission.cancel? = (replay clock now t events).cancelled := by
  induction events using List.reverseRecOn with
  | nil => exact ⟨[], [], [], ProcessorSim.new t, rfl, rfl⟩
  | append_singleton events ev ih =>
      have hlast : (events ++ [ev]).filterMap EngineEvent.order?
          = events.filterMap EngineEvent.order? ++ ev.order?.toList := by
        rw [List.filterMap_append]
        cases ev <;> rfl
      rw [hlast] at hids ⊢
      obtain ⟨log, entries, resting, h, htrades, hcancels⟩ :=
        ih (hids.sublist ((List.sublist_append_left _ _).map _))
      obtain ⟨⟨pushed, hpushed⟩, entries', resting', h'⟩ := h.processEvent clock now ev hids
      rw [replay_append]
      refine ⟨_, entries', resting', h', ?_, ?_⟩
      · rw [hpushed, List.filterMap_append, htrades, emitted_trade?]
        exact hpushed.symm
      · rw [List.filterMap_append, hcancels, emitted_cancel?]
        rfl

namespace Exchange

variable {users : UserManager} {tickers : TickerManager} {db : Database}
  {walFile : Option (List WALRecord)} {actions : List Action} {s : Exchange}

section Books

variable {t : UInt32} {p : OrderBookProcessor}

/-- Only a worker processes. -/
theorem isSome_of_processed (hrun : runs step (start users tickers db walFile) actions = some s)
    {ev : EngineEvent} (hev : ev ∈ ((start users tickers db walFile).trace actions).processed t) :
    (s.engine.orderBooks.lookup t).isSome := by
  refine trace_induction (I := fun tr x => ∀ ev ∈ Trace.processed tr t,
    (x.engine.orderBooks.lookup t).isSome) ?_ ?_ hrun ev hev
  · intro tr x σ x' ih hstep ev hev
    rw [hstep.isSome_lookup]
    rw [Trace.processed_snoc] at hev
    rcases List.mem_append.mp hev with hold | hnew
    · exact ih ev hold
    · cases hstep with
      | process t' p ev' rest clock now out worker h hout =>
          simp only [Signal.processed] at hnew
          split_ifs at hnew with ht
          · rw [← ht, worker]
            rfl
          · cases hnew
      | _ => cases hnew
  · intro ev hev
    cases hev

/-- A worker is given orders of its ticker. -/
theorem tickerId_of_processed (hrun : runs step (start users tickers db walFile) actions = some s)
    (hp : s.engine.orderBooks.lookup t = some p) {o : Order}
    (ho : .newOrder o ∈ ((start users tickers db walFile).trace actions).processed t) :
    o.tickerId = t := by
  have hrouted := ((runs_staffed hrun).2 t p hp).events
  have hmem : EngineEvent.newOrder o
      ∈ routed t ((start users tickers db walFile).trace actions).forwarded := by
    rw [hrouted]
    exact List.mem_append_left _ ho
  obtain ⟨ev, hev, hdelivered⟩ := List.mem_map.mp hmem
  have hticker := of_decide_eq_true (List.mem_filter.mp hev).2
  cases ev with
  | newOrder o' =>
      obtain rfl := EngineEvent.newOrder.inj hdelivered
      exact hticker
  | cancelOrder t' x u => cases hdelivered

/-- The orders that a worker has processed have ids of their own, as the accepted ones do. -/
theorem processed_distinctIds
    (hrun : runs step (start users tickers db walFile) actions = some s)
    (hids : DistinctIds s.accepted) (hp : s.engine.orderBooks.lookup t = some p) :
    DistinctIds ((((start users tickers db walFile).trace actions).processed t).filterMap
      EngineEvent.order?) := by
  obtain ⟨hacknowledged, happended, hforwarded⟩ := runs_routing hrun
  obtain ⟨hlisted, hlines⟩ := runs_staffed hrun
  generalize (start users tickers db walFile).trace actions = tr at *
  have ht : t ∈ tickers.getAllTickerIds.toFinset :=
    List.mem_toFinset.mpr ((hlisted t).mp (by rw [pipeline, hp]; rfl))
  have hle : ordersOf (tr.processed t) ≤ (s.accepted : Multiset Order) := calc
    ordersOf (tr.processed t) ≤ ordersOf (routed t tr.forwarded) := by
      rw [(hlines t p hp).events, ordersOf_append]
      exact Multiset.le_add_right _ _
    _ ≤ ∑ t ∈ tickers.getAllTickerIds.toFinset, ordersOf (routed t tr.forwarded) :=
      Finset.single_le_sum (f := fun t => ordersOf (routed t tr.forwarded))
        (fun _ _ => Multiset.zero_le _) ht
    _ ≤ ordersOf tr.forwarded := by
      rw [hforwarded]
      exact Multiset.le_add_left _ _
    _ ≤ ordersOf tr.appended := by
      have hall : ordersOf tr.appended
          = ordersOf (tr.forwarded ++ (s.wal.buffer ++ s.wal.queue.elems)) :=
        Multiset.coe_eq_coe.mpr (happended.filterMap _)
      rw [hall, ordersOf_append]
      exact Multiset.le_add_right _ _
    _ ≤ (s.accepted : Multiset Order) := by
      rw [← hacknowledged, coe_accepted]
      exact Multiset.le_add_right _ _
  exact Multiset.coe_nodup.mp
    (Multiset.nodup_of_le (Multiset.map_le_map hle) (Multiset.coe_nodup.mpr hids))

/-- **A book holds the open orders of its ticker**, with what is left of them. -/
theorem mem_resting_iff (hrun : runs step (start users tickers db walFile) actions = some s)
    (hids : DistinctIds s.accepted) (hp : s.engine.orderBooks.lookup t = some p) (r : Order) :
    r ∈ p.book.resting ↔ ∃ o, ((start users tickers db walFile).trace actions).Open o ∧
      o.tickerId = t ∧ r = ((start users tickers db walFile).trace actions).rest o := by
  have hticker : ∀ {o}, .newOrder o ∈ ((start users tickers db walFile).trace actions).processed t →
      o.tickerId = t := tickerId_of_processed hrun hp
  obtain ⟨log, entries, resting, hsim, htrades, hcancels⟩ := Replica.processorSim (fun _ => 0) 0 t _
    (processed_distinctIds hrun hids hp)
  obtain ⟨hbook, htraded, hcancelled⟩ := ((runs_staffed hrun).2 t p hp).follows (fun _ => 0) 0
  generalize (start users tickers db walFile).trace actions = tr at *
  have hmem : ∀ o, o ∈ (tr.processed t).filterMap EngineEvent.order? ↔
      .newOrder o ∈ tr.processed t := fun o => by
    rw [List.mem_filterMap]
    constructor
    · rintro ⟨ev, hev, horder⟩
      cases ev with
      | newOrder o' =>
          obtain rfl := Option.some.inj horder
          exact hev
      | cancelOrder t' x u => cases horder
    · exact fun ho => ⟨_, ho, rfl⟩
  -- The worker's records are those of the replica, up to the clock.
  have hleft : ∀ o, .newOrder o ∈ tr.processed t →
      tr.left o = restingQuantity o.orderId p.book.resting := by
    intro o ho
    have hquantity := hsim.quantity_eq ((hmem o).mpr ho)
    rw [htrades, hcancels, ← matchedQuantity_untimed, ← htraded, matchedQuantity_untimed,
      ← cancelledQuantity_untimed, ← hcancelled, cancelledQuantity_untimed, ← hbook] at hquantity
    unfold Trace.left
    rw [hticker ho]
    omega
  rw [hbook, hsim.mem_resting_iff, ← hbook]
  constructor
  · rintro ⟨o, ho, hpos, rfl⟩
    have ho := (hmem o).mp ho
    refine ⟨o, ⟨by rwa [hticker ho], by rwa [hleft o ho]⟩, hticker ho, ?_⟩
    rw [Trace.rest, hleft o ho]
  · rintro ⟨o, ⟨ho, hpos⟩, rfl, rfl⟩
    rw [hleft o ho] at hpos
    refine ⟨o, (hmem o).mpr ho, hpos, ?_⟩
    rw [Trace.rest, hleft o ho]

end Books

/-! ## Active orders -/

/-- The active orders of a user are the resting orders that it owns. -/
theorem getUserActiveOrder_perm
    (hrun : runs step (start users tickers db walFile) actions = some s)
    (hids : DistinctIds s.accepted) (u : UInt64) :
    (s.engine.getUserActiveOrder u).Perm (s.engine.resting.filter fun o => o.userId = u) := by
  obtain ⟨-, hworkers, -⟩ := runs_clear_any hrun
  unfold MatchingEngine.getUserActiveOrder MatchingEngine.resting UnorderedMap.collect
  rw [List.filter_flatMap]
  refine List.Perm.flatMap_left _ fun e he => ?_
  obtain ⟨resting, hsim, -⟩ :=
    (hworkers.worker e.1 e.2 ((UnorderedMap.mem_entries_iff _ e.1 e.2).mp he)).simulates
      ((distinctIds_iff s).mpr hids)
  exact hsim.getUserActiveOrder u

/-- **The active orders of a user are its open orders**, with what is left of them. -/
theorem mem_getUserActiveOrder
    (hrun : runs step (start users tickers db walFile) actions = some s)
    (hids : DistinctIds s.accepted) (u : UInt64) (r : Order) :
    r ∈ s.engine.getUserActiveOrder u ↔
      ∃ o, ((start users tickers db walFile).trace actions).Open o ∧ o.userId = u ∧
        r = ((start users tickers db walFile).trace actions).rest o := by
  rw [(getUserActiveOrder_perm hrun hids u).mem_iff, List.mem_filter, decide_eq_true_eq]
  unfold MatchingEngine.resting
  rw [UnorderedMap.mem_collect]
  constructor
  · rintro ⟨⟨t, p, hp, hr⟩, hu⟩
    obtain ⟨o, hopen, -, rfl⟩ := (mem_resting_iff hrun hids hp r).mp hr
    exact ⟨o, hopen, hu, rfl⟩
  · rintro ⟨o, hopen, hu, rfl⟩
    obtain ⟨p, hp⟩ := Option.isSome_iff_exists.mp (isSome_of_processed hrun hopen.processed)
    exact ⟨⟨o.tickerId, p, hp, (mem_resting_iff hrun hids hp _).mpr ⟨o, hopen, rfl, rfl⟩⟩, hu⟩

/-- No order is active twice. -/
theorem getUserActiveOrder_distinctIds
    (hrun : runs step (start users tickers db walFile) actions = some s)
    (hids : DistinctIds s.accepted) (u : UInt64) :
    DistinctIds (s.engine.getUserActiveOrder u) := by
  obtain ⟨-, -, hreaches⟩ := runs_clear_any hrun
  have htracked := (hreaches.backed (start_fresh users tickers db walFile)
    ((distinctIds_iff s).mpr hids)).1
  have hopen : DistinctIds s.openOrders :=
    Multiset.coe_nodup.mp (Multiset.nodup_of_le htracked.ids ((distinctIds_iff s).mpr hids))
  have hresting : s.engine.resting.Sublist s.openOrders := List.sublist_append_right _ _
  have hperm := (getUserActiveOrder_perm hrun hids u).map Order.orderId
  refine hperm.nodup_iff.mpr (hopen.sublist ?_)
  exact (List.filter_sublist.trans hresting).map _

/-! ## Quotes -/

/-- The first level of a side, when the open orders of the ticker rest in the book. -/
theorem best_of_represents {tr : Trace} {t : UInt32} {side : OrderSide} {heap : Heap Order}
    {levels : List (UInt64 × OrderList)} {resting : List Order}
    (h : Represents (before side) (OrderBook.derefLevels heap levels) (onSide side resting))
    (hresting : ∀ r, r ∈ resting ↔ ∃ o, tr.Open o ∧ o.tickerId = t ∧ r = tr.rest o) :
    tr.Best t side (levels.head?.elim 0 Prod.fst).toNat := by
  rcases h.first_price with ⟨r, hr, hside, hprice, hbest⟩ | ⟨hprice, hnone⟩
  · obtain ⟨o, hopen, ht, rfl⟩ := (hresting r).mp hr
    refine Or.inl ⟨o, hopen, ht, hside, congrArg UInt64.toNat hprice, fun o' hopen' ht' => ?_⟩
    exact hbest (tr.rest o') ((hresting _).mpr ⟨o', hopen', ht', rfl⟩)
  · refine Or.inr ⟨congrArg UInt64.toNat hprice, fun o hopen ht => ?_⟩
    exact hnone (tr.rest o) ((hresting _).mpr ⟨o, hopen, ht, rfl⟩)

/-- **The quote of a book** is about the open orders of its ticker. -/
theorem best_getBestBidOffer
    (hrun : runs step (start users tickers db walFile) actions = some s)
    (hids : DistinctIds s.accepted) (t : UInt32) :
    let best := s.engine.getBestBidOffer t.toUInt64 (0, 0)
    ((start users tickers db walFile).trace actions).Best t .buy best.1.toUInt64.toNat ∧
      ((start users tickers db walFile).trace actions).Best t .sell best.2.toUInt64.toNat := by
  unfold MatchingEngine.getBestBidOffer
  rw [UInt32.toUInt32_toUInt64]
  cases hp : s.engine.orderBooks.lookup t with
  | none =>
      -- No order of the ticker has been processed.
      have hnone : ∀ o, ((start users tickers db walFile).trace actions).Open o →
          o.tickerId ≠ t := by
        rintro o hopen rfl
        have hsome := isSome_of_processed hrun hopen.processed
        rw [hp] at hsome
        cases hsome
      exact ⟨Or.inr ⟨rfl, fun o hopen ht => absurd ht (hnone o hopen)⟩,
        Or.inr ⟨rfl, fun o hopen ht => absurd ht (hnone o hopen)⟩⟩
  | some p =>
      obtain ⟨-, hworkers, -⟩ := runs_clear_any hrun
      obtain ⟨resting, hsim, -⟩ := (hworkers.worker t p hp).simulates ((distinctIds_iff s).mpr hids)
      have hperm : p.book.resting.Perm resting := hsim.perm
      have hresting := fun r => hperm.mem_iff.symm.trans (mem_resting_iff hrun hids hp r)
      refine ⟨best_of_represents hsim.ownSide hresting, best_of_represents hsim.oppSide hresting⟩

/-- The open orders of a ticker do not cross. -/
theorem open_uncrossed (hrun : runs step (start users tickers db walFile) actions = some s)
    (hids : DistinctIds s.accepted) {b a : Order}
    (hb : ((start users tickers db walFile).trace actions).Open b)
    (ha : ((start users tickers db walFile).trace actions).Open a)
    (hticker : b.tickerId = a.tickerId) (hbuy : b.side = .buy) (hsell : a.side = .sell) :
    b.price < a.price := by
  obtain ⟨p, hp⟩ := Option.isSome_iff_exists.mp (isSome_of_processed hrun ha.processed)
  obtain ⟨-, hworkers, -⟩ := runs_clear_any hrun
  obtain ⟨resting, hsim, -⟩ := (hworkers.worker _ p hp).simulates ((distinctIds_iff s).mpr hids)
  have hperm : p.book.resting.Perm resting := hsim.perm
  have hresting := fun r => hperm.mem_iff.symm.trans (mem_resting_iff hrun hids hp r)
  have hbid := (hresting (Trace.rest _ b)).mpr ⟨b, hb, hticker, rfl⟩
  have hask := (hresting (Trace.rest _ a)).mpr ⟨a, ha, rfl, rfl⟩
  have hlt := hsim.sound.uncrossed _ hbid _ hask hbuy hsell
  exact hlt

end Exchange

open Exchange

theorem tradeEnd_distinctIds : DistinctIds tradeEnd.accepted := by
  unfold DistinctIds
  decide

/-- What a client reads of a `MarketResponse`. -/
theorem GetMarketHandler.read_reply (services : Services) (session : Session) (data : List Byte)
    {reqLen : UInt32} (hreq : 4 ≤ reqLen) :
    let best := services.engine.getBestBidOffer (UInt32.ofNat (readInt data 0 4)).toUInt64 (0, 0)
    let reply := (GetMarketHandler.handle services session data reqLen).reply
    readInt reply 0 1 = 1 ∧ readInt reply 1 8 = best.1.toUInt64.toNat ∧
      readInt reply 9 8 = best.2.toUInt64.toNat := by
  intro best reply
  have hreply : reply = littleEndian 1 1 ++ (littleEndian 8 best.1.toUInt64.toNat
      ++ (littleEndian 8 best.2.toUInt64.toNat ++ [])) := by
    show (GetMarketHandler.handle services session data reqLen).reply = _
    unfold GetMarketHandler.handle
    rw [if_neg (UInt32.not_lt.mpr hreq)]
    refine Memory.read_fill Memory.zeroed [littleEndian 1 1,
      littleEndian 8 best.1.toUInt64.toNat, littleEndian 8 best.2.toUInt64.toNat] rfl ?_
    simp
  rw [hreply]
  refine ⟨readInt_head 1 1 _, ?_, ?_⟩
  · rw [readInt_next]
    exact Nat.mod_eq_of_lt best.1.toUInt64.toNat_lt
  · have hskip := readInt_skip (length_littleEndian 1 1) (littleEndian 8 best.1.toUInt64.toNat
      ++ (littleEndian 8 best.2.toUInt64.toNat ++ [])) 8 8
    rw [readInt_next] at hskip
    exact hskip.trans (Nat.mod_eq_of_lt best.2.toUInt64.toNat_lt)

end ExchangeServer
