import ExchangeServer.OrderBook.Refinement
import ExchangeServer.Ledger

/-!
# Runs of an order book

A run is any sequence of `processOrder` and `cancelOrder` calls on a book that
starts empty.  `OrderBook.run` makes the calls on the level maps and
`PriceTime.run` makes them on the flat book; as long as no order id comes twice
the two stay in step (`run_step`, `run_sim`), and everything that is said of a
reachable book is read off that one relation.
-/

namespace ExchangeServer

open Lib PriceTime

/-- A call on a book. -/
inductive BookOp where
  | processOrder (order : Order)
  | cancelOrder (orderId : UInt32) (userId : UInt64)
deriving DecidableEq, Repr

/-- The order a call submits. -/
def BookOp.order? : BookOp → Option Order
  | processOrder order => some order
  | cancelOrder .. => none

/-- The orders a sequence of calls submits, as they were when submitted. -/
def submittedBy (ops : List BookOp) : List Order :=
  ops.filterMap BookOp.order?

/-- No order id is submitted twice. -/
def FreshIds (ops : List BookOp) : Prop :=
  DistinctIds (submittedBy ops)

instance (ops : List BookOp) : Decidable (FreshIds ops) := by
  unfold FreshIds DistinctIds
  infer_instance

/-! ## The two runs -/

/-- A book with what its calls have handed out: the results vector, and the
answer of every `cancelOrder`. -/
structure BookRun where
  book : OrderBook
  results : List MatchRecord
  returned : List (Option Order)

/-- One call on the level maps. -/
def BookRun.call (clock : ℕ → UInt64) (r : BookRun) : BookOp → BookRun
  | .processOrder order =>
      let out := r.book.processOrder clock order r.results
      { r with book := out.1, results := out.2 }
  | .cancelOrder orderId userId =>
      let out := r.book.cancelOrder orderId userId
      { r with book := out.1, returned := r.returned ++ [out.2] }

/-- A sequence of calls on an empty book. -/
def OrderBook.run (clock : ℕ → UInt64) (tickerId : UInt32) (ops : List BookOp) : BookRun :=
  ops.foldl (BookRun.call clock) ⟨OrderBook.new tickerId, [], []⟩

/-- A flat book with what its calls have handed out. -/
structure FlatRun where
  resting : List Order
  fills : List Fill
  returned : List (Option Order)

/-- One call on the flat book.  The id of a cancellation is the one the function
receives, 32 bits wide. -/
def FlatRun.call (r : FlatRun) : BookOp → FlatRun
  | .processOrder order =>
      let out := submit r.resting order
      { r with resting := out.2, fills := r.fills ++ out.1 }
  | .cancelOrder orderId userId =>
      let out := cancel r.resting orderId.toUInt64 userId
      { r with resting := out.2, returned := r.returned ++ [out.1] }

/-- The same sequence of calls on an empty flat book. -/
def PriceTime.run (ops : List BookOp) : FlatRun :=
  ops.foldl FlatRun.call ⟨[], [], []⟩

/-! ## In step -/

/-- The two runs after the same calls. -/
structure RunSim (tickerId : UInt32) (submitted : List Order) (r : BookRun) (flat : FlatRun) :
    Prop where
  ticker : r.book.tickerId = tickerId
  simulates : Simulates r.book flat.resting
  results : r.results.map MatchRecord.untimed = flat.fills.map (Fill.record tickerId)
  returned : r.returned = flat.returned
  /-- The history of the flat book. -/
  ledger : ∃ log, Ledger submitted log flat.resting ∧
    ∀ f ∈ flat.fills, Entry.trade f ∈ log

theorem RunSim.new (tickerId : UInt32) :
    RunSim tickerId [] ⟨OrderBook.new tickerId, [], []⟩ ⟨[], [], []⟩ where
  ticker := rfl
  simulates := Simulates.new tickerId
  results := rfl
  returned := rfl
  ledger := ⟨[], Ledger.nil, by simp⟩

/-- **One call keeps the runs in step.** -/
theorem RunSim.call {tickerId : UInt32} {submitted : List Order} {r : BookRun} {flat : FlatRun}
    (h : RunSim tickerId submitted r flat) (clock : ℕ → UInt64) (op : BookOp)
    (hids : DistinctIds (submitted ++ op.order?.toList)) :
    RunSim tickerId (submitted ++ op.order?.toList) (r.call clock op) (flat.call op) := by
  obtain ⟨log, hledger, hfills⟩ := h.ledger
  cases op with
  | processOrder o =>
      have hfresh : o.orderId ∉ submitted.map Order.orderId := by
        unfold DistinctIds at hids
        rw [List.map_append] at hids
        exact fun hx => (List.nodup_append'.mp hids).2.2 hx List.mem_cons_self
      obtain ⟨hsim, pushed, hresults, hpushed⟩ := h.simulates.processOrder clock r.results
        fun hx => hfresh (hledger.resting_ids hx)
      refine ⟨(Simulates.tickerId_processOrder ..).trans h.ticker, hsim, ?_, h.returned,
        _, hledger.submit hfresh, fun f hf => ?_⟩
      · simp only [BookRun.call, FlatRun.call, List.map_append]
        rw [hresults, List.map_append, h.results, hpushed, h.ticker]
      · rcases List.mem_append.mp hf with hf | hf
        · exact List.mem_append_left _ (hfills f hf)
        · exact List.mem_append_right _ (List.mem_map_of_mem hf)
  | cancelOrder orderId userId =>
      obtain ⟨hreturned, hsim, -⟩ := h.simulates.cancelOrder orderId userId
      refine ⟨(Simulates.tickerId_cancelOrder ..).trans h.ticker, hsim, h.results, ?_,
        _, by simpa [BookOp.order?, FlatRun.call] using hledger.cancel orderId.toUInt64 userId,
        fun f hf => List.mem_append_left _ (hfills f hf)⟩
      simp only [BookRun.call, FlatRun.call]
      rw [hreturned, h.returned]

/-- **Runs stay in step**, as long as no order id comes twice. -/
theorem run_sim (clock : ℕ → UInt64) (tickerId : UInt32) (ops : List BookOp)
    (hids : FreshIds ops) :
    RunSim tickerId (submittedBy ops) (OrderBook.run clock tickerId ops)
      (PriceTime.run ops) := by
  induction ops using List.reverseRecOn with
  | nil => exact RunSim.new tickerId
  | append_singleton ops op ih =>
      have hsplit : submittedBy (ops ++ [op]) = submittedBy ops ++ op.order?.toList := by
        rw [submittedBy, List.filterMap_append]
        cases h : op.order? <;> simp [submittedBy, h]
      rw [FreshIds, hsplit] at hids
      have hprefix : FreshIds ops := hids.sublist ((List.sublist_append_left _ _).map _)
      have hstep := (ih hprefix).call clock op hids
      rw [hsplit]
      simpa [OrderBook.run, PriceTime.run] using hstep

/-- **The order book implements price-time priority.**  After every prefix of a
run the level maps and the flat book have pushed the same match records (up to
their clock readings) and returned the same cancelled orders, each price level
is the flat book's orders of that side and price in arrival order, and nothing
else rests. -/
theorem orderBook_implements_priceTime (clock : ℕ → UInt64) (tickerId : UInt32)
    (ops : List BookOp) (hids : FreshIds ops) :
    ∀ done, done <+: ops →
      let r := OrderBook.run clock tickerId done
      let flat := PriceTime.run done
      r.results.map MatchRecord.untimed = flat.fills.map (Fill.record tickerId) ∧
        r.returned = flat.returned ∧
        Represents bidBefore r.book.bidLevels (onSide .buy flat.resting) ∧
        Represents askBefore r.book.askLevels (onSide .sell flat.resting) ∧
        r.book.resting.Perm flat.resting := by
  intro done hdone r flat
  have hprefix : FreshIds done :=
    hids.sublist ((hdone.sublist.filterMap _).map _)
  have h := run_sim clock tickerId done hprefix
  exact ⟨h.results, h.returned, h.simulates.ownSide, h.simulates.oppSide, h.simulates.perm⟩

/-- A run with a partial fill, a second maker at the same price and a cancellation. -/
def sampleOps : List BookOp :=
  [.processOrder ⟨1, 7, 10, .sell, 100, 5, 0⟩,
    .processOrder ⟨2, 7, 11, .sell, 100, 5, 0⟩,
    .processOrder ⟨3, 7, 12, .buy, 101, 7, 0⟩,
    .cancelOrder 2 11]

theorem orderBook_implements_priceTime_sample :
    FreshIds sampleOps ∧
      (OrderBook.run (fun _ => 0) 7 sampleOps).results.map MatchRecord.untimed
        = (PriceTime.run sampleOps).fills.map (Fill.record 7) :=
  ⟨by decide,
    (orderBook_implements_priceTime (fun _ => 0) 7 sampleOps (by decide) sampleOps
      (List.prefix_refl _)).1⟩

/-! ## Reachable books -/

/-- The books that calls reach from an empty one, whatever results vectors and
clocks they are given; `submitted` lists the orders processed on the way. -/
inductive OrderBook.Reachable : List Order → OrderBook → Prop
  | new (tickerId : UInt32) : Reachable [] (OrderBook.new tickerId)
  | processOrder {submitted : List Order} {book : OrderBook} (h : Reachable submitted book)
      (clock : ℕ → UInt64) (order : Order) (results : List MatchRecord)
      (fresh : order.orderId ∉ submitted.map Order.orderId) :
      Reachable (submitted ++ [order]) (book.processOrder clock order results).1
  | cancelOrder {submitted : List Order} {book : OrderBook} (h : Reachable submitted book)
      (orderId : UInt32) (userId : UInt64) :
      Reachable submitted (book.cancelOrder orderId userId).1

/-- **Every reachable book is simulated** by a flat book with a history. -/
theorem OrderBook.Reachable.simulates {submitted : List Order} {book : OrderBook}
    (h : Reachable submitted book) :
    ∃ log resting, Ledger submitted log resting ∧ Simulates book resting := by
  induction h with
  | new tickerId => exact ⟨[], [], Ledger.nil, Simulates.new tickerId⟩
  | processOrder _ clock order results fresh ih =>
      obtain ⟨log, resting, hledger, hsim⟩ := ih
      exact ⟨_, _, hledger.submit fresh,
        (hsim.processOrder clock results fun hx => fresh (hledger.resting_ids hx)).1⟩
  | cancelOrder _ orderId userId ih =>
      obtain ⟨log, resting, hledger, hsim⟩ := ih
      exact ⟨_, _, hledger.cancel orderId.toUInt64 userId, (hsim.cancelOrder orderId userId).2.1⟩

/-- The representation invariant of the three structures of a book. -/
structure OrderBook.Invariant (book : OrderBook) : Prop where
  /-- No price level is empty. -/
  levels : ∀ e ∈ book.bidLevels ++ book.askLevels, e.2 ≠ []
  /-- Levels hold live orders of their side and price. -/
  bids : ∀ e ∈ book.bidLevels, ∀ o ∈ e.2, o.side = .buy ∧ o.price = e.1 ∧ 0 < o.quantity
  asks : ∀ e ∈ book.askLevels, ∀ o ∈ e.2, o.side = .sell ∧ o.price = e.1 ∧ 0 < o.quantity
  /-- The book is neither crossed nor locked. -/
  uncrossed : ∀ b ∈ book.bidLevels, ∀ a ∈ book.askLevels, b.1 < a.1
  /-- The index leads to an order object exactly when it is the one resting order
  with that owner and id. -/
  index : ∀ u x ptr, NestedMap.find? book.userActiveOrders u x = some ptr ↔
    book.restingPtrs.filter
      (fun p => (book.heap.get p).orderId = x ∧ (book.heap.get p).userId = u) = [ptr]

/-- The orders of the levels of one side. -/
theorem Represents.level_orders {lt : UInt64 → UInt64 → Prop} {side : OrderSide}
    {ladder : Ladder} {resting : List Order} (h : Represents lt ladder (onSide side resting))
    (hsound : Sound resting) : ∀ e ∈ ladder, e.2 ≠ [] ∧
      ∀ o ∈ e.2, o ∈ resting ∧ o.side = side ∧ o.price = e.1 ∧ 0 < o.quantity := by
  rintro ⟨p, l⟩ he
  obtain ⟨hne, hl⟩ := (h.mem_iff p l).mp he
  refine ⟨hne, fun o ho => ?_⟩
  have ho : o ∈ atPrice p (onSide side resting) := hl ▸ ho
  obtain ⟨hmem, hprice⟩ := mem_atPrice.mp ho
  obtain ⟨hmem, hside⟩ := mem_onSide.mp hmem
  exact ⟨hmem, hside, hprice, hsound.pos o hmem⟩

theorem Simulates.invariant {book : OrderBook} {resting : List Order}
    (h : Simulates book resting) : book.Invariant where
  levels e he := by
    rcases List.mem_append.mp he with he | he
    · exact (h.ownSide.level_orders h.sound e he).1
    · exact (h.oppSide.level_orders h.sound e he).1
  bids e he o ho := ((h.ownSide.level_orders h.sound e he).2 o ho).2
  asks e he o ho := ((h.oppSide.level_orders h.sound e he).2 o ho).2
  uncrossed b hb a ha := by
    obtain ⟨hbne, hborders⟩ := h.ownSide.level_orders h.sound b hb
    obtain ⟨hane, haorders⟩ := h.oppSide.level_orders h.sound a ha
    obtain ⟨ob, hob⟩ := List.exists_mem_of_ne_nil _ hbne
    obtain ⟨oa, hoa⟩ := List.exists_mem_of_ne_nil _ hane
    obtain ⟨hbmem, hbside, hbprice, -⟩ := hborders ob hob
    obtain ⟨hamem, haside, haprice, -⟩ := haorders oa hoa
    rw [← hbprice, ← haprice]
    exact h.sound.uncrossed ob hbmem oa hamem hbside haside
  index u x ptr := by
    rw [h.indexed]
    constructor
    · rintro ⟨hptr, hu, hx⟩
      obtain ⟨pre, post, hsplit⟩ := List.append_of_mem hptr
      have hnodup := h.nodup
      rw [hsplit] at hnodup
      obtain ⟨-, hcons, hdisj⟩ := List.nodup_append'.mp hnodup
      have hother : ∀ l : List Ptr, l ⊆ pre ++ ptr :: post → ptr ∉ l →
          l.filter (fun p => (book.heap.get p).orderId = x ∧ (book.heap.get p).userId = u)
            = [] := by
        intro l hl hnot
        refine List.filter_eq_nil_iff.mpr fun q hq hkey => hnot ?_
        rw [decide_eq_true_eq] at hkey
        have heq := h.eq_of_orderId (hsplit ▸ hl hq) hptr (hkey.1.trans hx.symm)
        exact heq ▸ hq
      unfold OrderBook.restingPtrs
      rw [hsplit, List.filter_append, List.filter_cons_of_pos (by simp [hx, hu]),
        hother pre (by simp) fun hmem => hdisj hmem List.mem_cons_self,
        hother post (fun q hq => by simp [hq]) (List.nodup_cons.mp hcons).1]
      rfl
    · intro hfilter
      have hmem := hfilter ▸ List.mem_singleton_self ptr
      obtain ⟨hptr, hkey⟩ := List.mem_filter.mp hmem
      rw [decide_eq_true_eq] at hkey
      exact ⟨hptr, hkey.2, hkey.1⟩

/-- A user's active orders are the resting orders the user owns. -/
theorem Simulates.getUserActiveOrder {book : OrderBook} {resting : List Order}
    (h : Simulates book resting) (u : UInt64) :
    (book.getUserActiveOrder u).Perm (book.resting.filter (fun o => o.userId = u)) := by
  have hrow : book.getUserActiveOrder u
      = ((NestedMap.row book.userActiveOrders u).entries.map Sigma.snd).map book.heap.get := by
    unfold OrderBook.getUserActiveOrder NestedMap.row
    cases book.userActiveOrders.lookup u with
    | none => rfl
    | some orders => simp
  have hentry : ∀ e, e ∈ (NestedMap.row book.userActiveOrders u).entries ↔
      e.2 ∈ book.restingPtrs ∧ (book.heap.get e.2).userId = u ∧
        (book.heap.get e.2).orderId = e.1 := fun e =>
    (UnorderedMap.mem_entries_iff _ e.1 e.2).trans (h.indexed u e.1 e.2)
  have hkeys : ((NestedMap.row book.userActiveOrders u).entries.map Sigma.snd).map
      (fun p => (book.heap.get p).orderId)
        = (NestedMap.row book.userActiveOrders u).keys := by
    rw [List.map_map]
    exact List.map_congr_left fun e he => ((hentry e).mp he).2.2
  have hnodup : ((NestedMap.row book.userActiveOrders u).entries.map Sigma.snd).Nodup := by
    refine List.Nodup.of_map (fun p => (book.heap.get p).orderId) ?_
    rw [hkeys]
    exact AList.keys_nodup _
  have hptrs : ((NestedMap.row book.userActiveOrders u).entries.map Sigma.snd).Perm
      (book.restingPtrs.filter (fun p => (book.heap.get p).userId = u)) := by
    refine (List.perm_ext_iff_of_nodup hnodup (h.nodup.filter _)).mpr fun p => ?_
    rw [List.mem_map, List.mem_filter, decide_eq_true_eq]
    constructor
    · rintro ⟨e, he, rfl⟩
      obtain ⟨hp, hu, -⟩ := (hentry e).mp he
      exact ⟨hp, hu⟩
    · rintro ⟨hp, hu⟩
      exact ⟨⟨(book.heap.get p).orderId, p⟩, (hentry _).mpr ⟨hp, hu, rfl⟩, rfl⟩
  rw [hrow, OrderBook.resting, List.filter_map]
  exact hptrs.map _

end ExchangeServer
