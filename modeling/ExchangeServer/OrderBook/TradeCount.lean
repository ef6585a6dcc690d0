import Mathlib.Data.List.Flatten
import ExchangeServer.OrderBook.Owners
import ExchangeServer.OrderBook.Runs

/-!
# How many trades there are

A single order may trade with everything that rests, so no bound on the records of one
`processOrder` call is of use.  Over a run there is one: every trade uses up the taker
or a maker, and an order is used up once.  The potential is the number of records made
and of orders resting; a walk does not raise it by more than the taker itself is worth
(`matchLevels_potential`), so a book never holds and has made more than it was given
orders (`records_le_submitted`).

Nothing is assumed of the order ids.
-/

namespace ExchangeServer

open Lib OrderBook

/-! ## The match loops -/

namespace MatchState

/-- One trade is left to a taker that has quantity left. -/
def owes (taker : Ptr) (st : MatchState) : ℕ :=
  if (st.heap.get taker).quantity = 0 then 0 else 1

/-- Records made, and the trade that is left to the taker. -/
def potential (taker : Ptr) (st : MatchState) : ℕ :=
  st.results.length + st.owes taker

theorem owes_le (taker : Ptr) (st : MatchState) : st.owes taker ≤ 1 := by
  unfold owes
  split_ifs <;> omega

theorem owes_of_done {taker : Ptr} {st : MatchState} (h : (st.heap.get taker).quantity = 0) :
    st.owes taker = 0 :=
  if_pos h

theorem owes_of_left {taker : Ptr} {st : MatchState} (h : (st.heap.get taker).quantity ≠ 0) :
    st.owes taker = 1 :=
  if_neg h

end MatchState

section Loops

variable (record : Order → Order → UInt64 → UInt64 → MatchRecord) (clock : ℕ → UInt64)
  {taker : Ptr}

section Trade

variable {maker : Ptr} (levelPrice : UInt64) {st : MatchState}

/-- A trade makes a record. -/
theorem potential_trade_le (q : UInt64) (hleft : (st.heap.get taker).quantity ≠ 0) :
    (st.trade record clock taker maker levelPrice q).potential taker
      ≤ st.potential taker + 1 := by
  unfold MatchState.potential
  rw [MatchState.owes_of_left hleft]
  have howes := (st.trade record clock taker maker levelPrice q).owes_le taker
  have hresults : (st.trade record clock taker maker levelPrice q).results.length
      = st.results.length + 1 := by simp [MatchState.trade]
  omega

/-- When it leaves something of the maker, nothing is left of the taker. -/
theorem potential_trade_of_left (hne : maker ≠ taker)
    (hleft : (st.heap.get taker).quantity ≠ 0) {q : UInt64}
    (hq : q = min (st.heap.get taker).quantity (st.heap.get maker).quantity)
    (hmaker : ((st.trade record clock taker maker levelPrice q).heap.get maker).quantity ≠ 0) :
    (st.trade record clock taker maker levelPrice q).potential taker = st.potential taker := by
  rw [get_trade_maker record clock q st hne, hq] at hmaker
  have hused : ((st.trade record clock taker maker levelPrice q).heap.get taker).quantity = 0 := by
    rw [get_trade_taker record clock q st hne, hq]
    exact PriceTime.less_min_eq_zero hmaker
  unfold MatchState.potential
  rw [MatchState.owes_of_left hleft, MatchState.owes_of_done hused]
  simp [MatchState.trade]

end Trade

theorem matchLevel_potential (levelPrice : UInt64) (ptrs : List Ptr) (st : MatchState)
    (htaker : taker ∉ ptrs) :
    let out := matchLevel record clock taker levelPrice ptrs st
    out.2.potential taker + out.1.length ≤ st.potential taker + ptrs.length := by
  induction ptrs generalizing st with
  | nil => exact Nat.le_refl _
  | cons maker rest ih =>
      by_cases hzero : (st.heap.get taker).quantity = 0
      · simp only [matchLevel, if_pos hzero]
        exact Nat.le_refl _
      obtain ⟨hmaker, hrest⟩ := List.ne_and_not_mem_of_not_mem_cons htaker
      simp only [matchLevel, if_neg hzero]
      split_ifs with hdone
      · -- the maker is used up and leaves the level
        apply (ih _ hrest).trans
        rw [List.length_cons, Nat.add_comm rest.length, ← Nat.add_assoc]
        exact Nat.add_le_add_right (potential_trade_le record clock levelPrice _ hzero) _
      · -- the maker stays, so the taker is used up
        have hsame := potential_trade_of_left record clock levelPrice hmaker.symm hzero rfl hdone
        exact Nat.succ_le_succ
          ((ih _ hrest).trans (Nat.add_le_add_right (le_of_eq hsame) _))

/-- The pointers of a ladder. -/
abbrev ptrCount (levels : List (UInt64 × OrderList)) : ℕ :=
  (levels.flatMap Prod.snd).length

theorem matchLevels_potential (stops : UInt64 → UInt64 → Bool)
    (levels : List (UInt64 × OrderList)) (st : MatchState)
    (htaker : taker ∉ levels.flatMap Prod.snd) :
    let out := matchLevels record clock stops taker levels st
    out.2.potential taker + ptrCount out.1 ≤ st.potential taker + ptrCount levels := by
  induction levels generalizing st with
  | nil => exact Nat.le_refl _
  | cons e rest ih =>
      obtain ⟨levelPrice, level⟩ := e
      by_cases hzero : (st.heap.get taker).quantity = 0
      · simp only [matchLevels, if_pos hzero]
        exact Nat.le_refl _
      by_cases hstop : stops levelPrice (st.heap.get taker).price
      · simp only [matchLevels, if_neg hzero, if_pos hstop]
        exact Nat.le_refl _
      rw [List.flatMap_cons, List.mem_append, not_or] at htaker
      have hhere := matchLevel_potential record clock levelPrice level st htaker.1
      have hlater := ih (matchLevel record clock taker levelPrice level st).2 htaker.2
      simp only [matchLevels, if_neg hzero, if_neg hstop]
      unfold ptrCount at hlater ⊢
      rw [List.flatMap_cons, flatMap_cons_kept, List.length_append, List.length_append]
      dsimp only at hhere hlater ⊢
      omega

end Loops

/-! ## Writing a level -/

section Levels

variable {lt : UInt64 → UInt64 → Prop} [DecidableRel lt] [IsStrictTotalOrder UInt64 lt]

omit [IsStrictTotalOrder UInt64 lt] in
variable (lt) in
/-- Rewriting a level moves the count by what it moves that level. -/
theorem ptrCount_upsertEntries (price : UInt64) (f : Option OrderList → OrderList)
    (levels : List (UInt64 × OrderList)) :
    ∃ old : Option OrderList,
      ptrCount (OrderedMap.upsertEntries lt price f levels) + (old.getD []).length
        = ptrCount levels + (f old).length := by
  unfold ptrCount
  induction levels with
  | nil => exact ⟨none, by simp [OrderedMap.upsertEntries]⟩
  | cons e rest ih =>
      obtain ⟨price', level⟩ := e
      simp only [OrderedMap.upsertEntries]
      split_ifs
      · refine ⟨some level, ?_⟩
        simp only [List.flatMap_cons, List.length_append, Option.getD_some]
        omega
      · refine ⟨none, ?_⟩
        simp only [List.flatMap_cons, List.length_append, Option.getD_none, List.length_nil]
        omega
      · obtain ⟨old, hold⟩ := ih
        refine ⟨old, ?_⟩
        simp only [List.flatMap_cons, List.length_append]
        omega

theorem ptrCount_upsert_pushBack (levels : OrderedMap UInt64 OrderList lt) (price : UInt64)
    (ptr : Ptr) :
    ptrCount (levels.upsert price (pushBack ptr)).entries = ptrCount levels.entries + 1 := by
  obtain ⟨old, hold⟩ :=
    ptrCount_upsertEntries lt price (pushBack ptr) levels.entries
  rw [pushBack, List.length_append, List.length_singleton] at hold
  exact Nat.add_right_cancel (hold.trans (by omega))

omit [DecidableRel lt] [IsStrictTotalOrder UInt64 lt] in
theorem ptrCount_eraseIfEmpty_le (levels : OrderedMap UInt64 OrderList lt) (price : UInt64) :
    ptrCount (eraseIfEmpty levels price).entries ≤ ptrCount levels.entries := by
  unfold eraseIfEmpty
  split_ifs
  · exact (List.filter_sublist.flatMap Prod.snd).length_le
  · exact Nat.le_refl _

theorem ptrCount_removeOrder_le (levels : OrderedMap UInt64 OrderList lt) (heap : Heap Order)
    (orderId : UInt32) (price : UInt64) :
    ptrCount (eraseIfEmpty (levels.upsert price (removeOrder heap orderId)) price).entries
      ≤ ptrCount levels.entries := by
  apply (ptrCount_eraseIfEmpty_le _ price).trans
  obtain ⟨old, hold⟩ :=
    ptrCount_upsertEntries lt price (removeOrder heap orderId) levels.entries
  have hfilter : (removeOrder heap orderId old).length ≤ (old.getD []).length :=
    List.length_filter_le _ _
  unfold OrderedMap.upsert
  dsimp only
  omega

end Levels

/-! ## The two operations -/

namespace OrderBook

theorem length_restingPtrs (book : OrderBook) :
    book.restingPtrs.length = ptrCount book.bids.entries + ptrCount book.asks.entries :=
  List.length_append

/-- What the walk of a new order comes to. -/
theorem walk_potential (record : Order → Order → UInt64 → UInt64 → MatchRecord)
    (clock : ℕ → UInt64) (stops : UInt64 → UInt64 → Bool) {book : OrderBook} (o : Order)
    (results : List MatchRecord) {levels : List (UInt64 × OrderList)}
    (hnew : book.heap.next ∉ levels.flatMap Prod.snd) :
    let walk := matchLevels record clock stops book.heap.next levels
      ⟨book.heap.alloc o, book.userActiveOrders, results⟩
    walk.2.results.length + walk.2.owes book.heap.next + ptrCount walk.1
      ≤ results.length + 1 + ptrCount levels :=
  (matchLevels_potential record clock stops levels _ hnew).trans
    (Nat.add_le_add_right (Nat.add_le_add_left (MatchState.owes_le _ _) _) _)

/-- **An order adds one to the records made and the orders resting, at most.** -/
theorem processOrder_potential {book : OrderBook}
    (hallocated : ∀ p ∈ book.restingPtrs, p < book.heap.next) (clock : ℕ → UInt64) (o : Order)
    (results : List MatchRecord) :
    let out := book.processOrder clock o results
    out.2.length + out.1.restingPtrs.length ≤ results.length + book.restingPtrs.length + 1 := by
  have hbids : book.heap.next ∉ book.bids.entries.flatMap Prod.snd := fun hp =>
    Nat.lt_irrefl _ (hallocated _ (mem_restingPtrs.mpr (Or.inl hp)))
  have hasks : book.heap.next ∉ book.asks.entries.flatMap Prod.snd := fun hp =>
    Nat.lt_irrefl _ (hallocated _ (mem_restingPtrs.mpr (Or.inr hp)))
  rw [length_restingPtrs book]
  simp only [OrderBook.processOrder]
  -- an order that rests has found no trade for the rest of it
  cases hside : o.side with
  | buy =>
      have hwalk := walk_potential (buyRecord book.tickerId) clock
        (fun askPrice limit => askPrice > limit) o results hasks
      simp only [matchBuyOrder]
      split_ifs with hleft
      · have howes := MatchState.owes_of_left (UInt64.pos_iff_ne_zero.mp hleft)
        simp only [length_restingPtrs, OrderedMap.entries_shrink, ptrCount_upsert_pushBack]
        dsimp only at hwalk
        omega
      · simp only [length_restingPtrs, OrderedMap.entries_shrink]
        dsimp only at hwalk
        omega
  | sell =>
      have hwalk := walk_potential (sellRecord book.tickerId) clock
        (fun bidsPrice limit => bidsPrice < limit) o results hbids
      simp only [matchSellOrder]
      split_ifs with hleft
      · have howes := MatchState.owes_of_left (UInt64.pos_iff_ne_zero.mp hleft)
        simp only [length_restingPtrs, OrderedMap.entries_shrink, ptrCount_upsert_pushBack]
        dsimp only at hwalk
        omega
      · simp only [length_restingPtrs, OrderedMap.entries_shrink]
        dsimp only at hwalk
        omega

theorem cancelOrder_restingPtrs_le (book : OrderBook) (orderId : UInt32) (userId : UInt64) :
    (book.cancelOrder orderId userId).1.restingPtrs.length ≤ book.restingPtrs.length := by
  unfold OrderBook.cancelOrder
  cases book.userActiveOrders.lookup userId with
  | none => exact Nat.le_refl _
  | some orders =>
      cases hfind : orders.lookup orderId.toUInt64 with
      | none =>
          simp only [hfind]
          exact Nat.le_refl _
      | some ptr =>
          simp only [hfind, length_restingPtrs]
          cases (book.heap.get ptr).side with
          | buy => exact Nat.add_le_add_right (ptrCount_removeOrder_le ..) _
          | sell => exact Nat.add_le_add_left (ptrCount_removeOrder_le ..) _

end OrderBook

/-! ## Runs -/

/-- The pointers of a book point to objects, whatever its orders are. -/
abbrev OrderBook.Allocated (book : OrderBook) : Prop :=
  book.OwnedBy fun _ => True

/-- One call keeps the balance. -/
theorem BookRun.call_potential {r : BookRun} (hbook : r.book.Allocated) (clock : ℕ → UInt64)
    (op : BookOp) :
    (r.call clock op).book.Allocated ∧
      (r.call clock op).results.length + (r.call clock op).book.restingPtrs.length
        ≤ r.results.length + r.book.restingPtrs.length + op.order?.toList.length := by
  cases op with
  | processOrder o =>
      exact ⟨(hbook.processOrder clock trivial r.results).1,
        processOrder_potential hbook.allocated clock o r.results⟩
  | cancelOrder orderId userId =>
      exact ⟨hbook.cancelOrder orderId userId,
        Nat.add_le_add_left (cancelOrder_restingPtrs_le r.book orderId userId) _⟩

/-- **There are no more trades than orders.**  In every run of a book the match records
made and the orders still resting are together no more than the orders submitted. -/
theorem records_le_submitted (clock : ℕ → UInt64) (tickerId : UInt32) (ops : List BookOp) :
    let r := OrderBook.run clock tickerId ops
    r.results.length + r.book.restingPtrs.length ≤ (submittedBy ops).length := by
  suffices h : (OrderBook.run clock tickerId ops).book.Allocated ∧
      (OrderBook.run clock tickerId ops).results.length
          + (OrderBook.run clock tickerId ops).book.restingPtrs.length
        ≤ (submittedBy ops).length from h.2
  induction ops using List.reverseRecOn with
  | nil => exact ⟨OwnedBy.new tickerId, Nat.le_refl _⟩
  | append_singleton ops op ih =>
      obtain ⟨hbook, hle⟩ := ih
      obtain ⟨hbook', hstep⟩ := BookRun.call_potential hbook clock op
      have hrun : OrderBook.run clock tickerId (ops ++ [op])
          = (OrderBook.run clock tickerId ops).call clock op := List.foldl_concat ..
      have hsubmitted : (submittedBy (ops ++ [op])).length
          = (submittedBy ops).length + op.order?.toList.length := by
        rw [submittedBy, List.filterMap_append, List.length_append]
        cases h : op.order? <;> simp [submittedBy, h]
      rw [hrun, hsubmitted]
      exact ⟨hbook', hstep.trans (Nat.add_le_add_right hle _)⟩

end ExchangeServer
