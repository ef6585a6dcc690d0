import ExchangeServer.OrderBook.Refinement

/-!
# Whose orders a book holds

What a book does is only predictable while order ids tell its orders apart.  One
thing needs no such condition: the parties of a trade are owners of orders that
the book was given.  `OrderBook.OwnedBy` says that all of them are in a set of
users, and `OwnedBy.processOrder` that the records then name users of that set.  The
order a cancellation returns is found through the index, so for it to be one of them
the index has to point to order objects (`OrderBook.Indexed`).
-/

namespace ExchangeServer

open Lib OrderBook

variable {P : UInt64 → Prop}

/-- Every order object belongs to a user in `P`, and the levels point to order
objects. -/
structure OrderBook.OwnedBy (P : UInt64 → Prop) (book : OrderBook) : Prop where
  allocated : ∀ p ∈ book.restingPtrs, p < book.heap.next
  owners : ∀ p, p < book.heap.next → P (book.heap.get p).userId

/-- Both parties of the record are in `P`. -/
def MatchRecord.Between (P : UInt64 → Prop) (rec : MatchRecord) : Prop :=
  P rec.buyerUserId ∧ P rec.sellUserId

/-! ## The match loops -/

/-- What the loops do to a state that is all `P` needs: they push records between
users in `P` and change nothing but quantities. -/
structure MatchState.Keeps (P : UInt64 → Prop) (st st' : MatchState) : Prop where
  next : st'.heap.next = st.heap.next
  core : ∀ p, (st'.heap.get p).core = (st.heap.get p).core
  results : ∃ pushed, st'.results = st.results ++ pushed ∧ ∀ rec ∈ pushed, rec.Between P

namespace MatchState.Keeps

theorem refl (st : MatchState) : Keeps P st st where
  next := rfl
  core _ := rfl
  results := ⟨[], by simp, by simp⟩

theorem trans {st₁ st₂ st₃ : MatchState} (h₁ : Keeps P st₁ st₂) (h₂ : Keeps P st₂ st₃) :
    Keeps P st₁ st₃ where
  next := h₂.next.trans h₁.next
  core p := (h₂.core p).trans (h₁.core p)
  results := by
    obtain ⟨pushed₁, heq₁, hbetween₁⟩ := h₁.results
    obtain ⟨pushed₂, heq₂, hbetween₂⟩ := h₂.results
    refine ⟨pushed₁ ++ pushed₂, by rw [heq₂, heq₁, List.append_assoc], fun rec hrec => ?_⟩
    rcases List.mem_append.mp hrec with hrec | hrec
    · exact hbetween₁ rec hrec
    · exact hbetween₂ rec hrec

theorem owner {st st' : MatchState} (h : Keeps P st st') (p : Ptr) :
    (st'.heap.get p).userId = (st.heap.get p).userId :=
  Order.userId_of_core (h.core p)

end MatchState.Keeps

theorem core_modify_less (heap : Heap Order) (p p' : Ptr) (q : UInt64) :
    ((heap.modify p (·.less q)).get p').core = (heap.get p').core := by
  by_cases h : p' = p
  · subst h
    rw [Heap.get_modify_self, Order.core_less]
  · rw [Heap.get_modify_of_ne _ _ h]

section Loops

variable (record : Order → Order → UInt64 → UInt64 → MatchRecord) (clock : ℕ → UInt64)
  {taker : Ptr}
  (hrecord : ∀ maker taker, P maker.userId → P taker.userId → ∀ price q now,
    MatchRecord.Between P { record maker taker price q with timestamp := now })
include hrecord

theorem keeps_trade (maker : Ptr) (levelPrice q : UInt64) {st : MatchState}
    (hmaker : P (st.heap.get maker).userId) (htaker : P (st.heap.get taker).userId) :
    MatchState.Keeps P st (st.trade record clock taker maker levelPrice q) where
  next := rfl
  core p := (core_modify_less _ maker p q).trans (core_modify_less _ taker p q)
  results := by
    refine ⟨_, rfl, fun rec hrec => ?_⟩
    rw [List.mem_singleton.mp hrec]
    exact hrecord _ _ hmaker htaker _ _ _

theorem matchLevel_keeps (levelPrice : UInt64) (ptrs : List Ptr) (st : MatchState)
    (htaker : P (st.heap.get taker).userId) (hptrs : ∀ p ∈ ptrs, P (st.heap.get p).userId) :
    let out := matchLevel record clock taker levelPrice ptrs st
    out.1 ⊆ ptrs ∧ MatchState.Keeps P st out.2 := by
  induction ptrs generalizing st with
  | nil => exact ⟨List.Subset.refl _, MatchState.Keeps.refl st⟩
  | cons maker rest ih =>
      by_cases hzero : (st.heap.get taker).quantity = 0
      · simp only [matchLevel, if_pos hzero]
        exact ⟨List.Subset.refl _, MatchState.Keeps.refl st⟩
      let q := min (st.heap.get taker).quantity (st.heap.get maker).quantity
      have htrade : MatchState.Keeps P st (st.trade record clock taker maker levelPrice q) :=
        keeps_trade record clock hrecord maker levelPrice q (hptrs maker List.mem_cons_self) htaker
      -- Dropping the maker from the index does not touch what `Keeps` is about.
      have later : ∀ st' : MatchState, MatchState.Keeps P st st' →
          (matchLevel record clock taker levelPrice rest st').1 ⊆ rest ∧
            MatchState.Keeps P st (matchLevel record clock taker levelPrice rest st').2 := by
        intro st' hst'
        obtain ⟨hsub, hkeeps⟩ := ih st' (by rw [hst'.owner]; exact htaker) fun p hp => by
          rw [hst'.owner]
          exact hptrs p (List.mem_cons_of_mem _ hp)
        exact ⟨hsub, hst'.trans hkeeps⟩
      simp only [matchLevel, if_neg hzero]
      split_ifs with hdone
      · obtain ⟨hsub, hkeeps⟩ :=
          later ((st.trade record clock taker maker levelPrice q).unindex maker)
            ⟨htrade.next, htrade.core, htrade.results⟩
        exact ⟨List.subset_cons_of_subset _ hsub, hkeeps⟩
      · obtain ⟨hsub, hkeeps⟩ := later _ htrade
        exact ⟨List.cons_subset_cons _ hsub, hkeeps⟩

theorem matchLevels_keeps (stops : UInt64 → UInt64 → Bool)
    (levels : List (UInt64 × OrderList)) (st : MatchState)
    (htaker : P (st.heap.get taker).userId)
    (hptrs : ∀ p ∈ levels.flatMap Prod.snd, P (st.heap.get p).userId) :
    let out := matchLevels record clock stops taker levels st
    out.1.flatMap Prod.snd ⊆ levels.flatMap Prod.snd ∧ MatchState.Keeps P st out.2 := by
  induction levels generalizing st with
  | nil => exact ⟨List.Subset.refl _, MatchState.Keeps.refl st⟩
  | cons e rest ih =>
      obtain ⟨levelPrice, level⟩ := e
      by_cases hzero : (st.heap.get taker).quantity = 0
      · simp only [matchLevels, if_pos hzero]
        exact ⟨List.Subset.refl _, MatchState.Keeps.refl st⟩
      by_cases hstop : stops levelPrice (st.heap.get taker).price
      · simp only [matchLevels, if_neg hzero, if_pos hstop]
        exact ⟨List.Subset.refl _, MatchState.Keeps.refl st⟩
      rw [List.flatMap_cons] at hptrs
      obtain ⟨hsub, hkeeps⟩ := matchLevel_keeps record clock hrecord levelPrice level st htaker
        fun p hp => hptrs p (List.mem_append_left _ hp)
      obtain ⟨hsub', hkeeps'⟩ := ih (matchLevel record clock taker levelPrice level st).2
        (by rw [hkeeps.owner]; exact htaker) fun p hp => by
          rw [hkeeps.owner]
          exact hptrs p (List.mem_append_right _ hp)
      simp only [matchLevels, if_neg hzero, if_neg hstop]
      refine ⟨?_, hkeeps.trans hkeeps'⟩
      rw [List.flatMap_cons, flatMap_cons_kept]
      exact List.append_subset.mpr ⟨List.subset_append_of_subset_left _ hsub,
        List.subset_append_of_subset_right _ hsub'⟩

end Loops

/-! ## The two operations -/

section Levels

variable {lt : UInt64 → UInt64 → Prop} [DecidableRel lt] [IsStrictTotalOrder UInt64 lt]
  {levels : OrderedMap UInt64 OrderList lt} {Q : Ptr → Prop}

/-- What holds of all pointers of a side still does after a level was rewritten. -/
theorem ptrs_upsert (price : UInt64) {f : Option OrderList → OrderList}
    (h : ∀ p ∈ levels.entries.flatMap Prod.snd, Q p)
    (hf : ∀ level : Option OrderList, (∀ p ∈ level.getD [], Q p) → ∀ p ∈ f level, Q p) :
    ∀ p ∈ (levels.upsert price f).entries.flatMap Prod.snd, Q p := by
  obtain ⟨old, hold, hmem⟩ := levels.mem_entries_upsert price f
  intro p hp
  obtain ⟨e, he, hpe⟩ := List.mem_flatMap.mp hp
  rcases (hmem e).mp he with ⟨hin, -⟩ | rfl
  · exact h p (List.mem_flatMap.mpr ⟨e, hin, hpe⟩)
  · refine hf old (fun p' hp' => ?_) p hpe
    cases old with
    | none => cases hp'
    | some level => exact h p' (List.mem_flatMap.mpr ⟨_, (hold level).mpr rfl, hp'⟩)

omit [DecidableRel lt] [IsStrictTotalOrder UInt64 lt] in
theorem ptrs_eraseIfEmpty (price : UInt64) (h : ∀ p ∈ levels.entries.flatMap Prod.snd, Q p) :
    ∀ p ∈ (eraseIfEmpty levels price).entries.flatMap Prod.snd, Q p := by
  intro p hp
  obtain ⟨e, he, hpe⟩ := List.mem_flatMap.mp hp
  refine h p (List.mem_flatMap.mpr ⟨e, ?_, hpe⟩)
  unfold eraseIfEmpty at he
  split_ifs at he
  · exact (OrderedMap.mem_entries_erase.mp he).1
  · exact he

theorem forall_mem_pushBack {ptr : Ptr} (hptr : Q ptr) (level : Option OrderList)
    (h : ∀ p ∈ level.getD [], Q p) : ∀ p ∈ pushBack ptr level, Q p := by
  intro p hp
  rcases List.mem_append.mp hp with hp | hp
  · exact h p hp
  · rw [List.mem_singleton.mp hp]
    exact hptr

end Levels

namespace OrderBook

theorem mem_restingPtrs {book : OrderBook} {p : Ptr} :
    p ∈ book.restingPtrs ↔ p ∈ book.bids.entries.flatMap Prod.snd ∨
      p ∈ book.asks.entries.flatMap Prod.snd :=
  List.mem_append

theorem OwnedBy.new (tickerId : UInt32) : OwnedBy P (OrderBook.new tickerId) where
  allocated p hp := by cases hp
  owners p hp := absurd hp (Nat.not_lt_zero p)

/-- **The parties of every trade own orders the book was given.** -/
theorem OwnedBy.processOrder {book : OrderBook} (h : book.OwnedBy P) (clock : ℕ → UInt64)
    {o : Order} (ho : P o.userId) (results : List MatchRecord) :
    let out := book.processOrder clock o results
    out.1.OwnedBy P ∧
      ∃ pushed, out.2 = results ++ pushed ∧ ∀ rec ∈ pushed, rec.Between P := by
  let heap := book.heap.alloc o
  have howner : ∀ p, p < heap.next → P (heap.get p).userId := by
    intro p hp
    rcases Nat.lt_succ_iff_lt_or_eq.mp hp with hlt | rfl
    · rw [Heap.get_alloc_of_lt _ _ hlt]
      exact h.owners p hlt
    · rw [Heap.get_alloc_self]
      exact ho
  have hself : book.heap.next < heap.next := Nat.lt_succ_self _
  have hbids : ∀ p ∈ book.bids.entries.flatMap Prod.snd, p < heap.next := fun p hp =>
    Nat.lt_succ_of_lt (h.allocated p (mem_restingPtrs.mpr (Or.inl hp)))
  have hasks : ∀ p ∈ book.asks.entries.flatMap Prod.snd, p < heap.next := fun p hp =>
    Nat.lt_succ_of_lt (h.allocated p (mem_restingPtrs.mpr (Or.inr hp)))
  have htaker := howner _ hself
  -- Only the index differs between an order that rests and one that is used up.
  have hindex : ∀ (b : OrderBook) (index : NestedMap UInt64 UInt64 Ptr), b.OwnedBy P →
      ({ b with userActiveOrders := index } : OrderBook).OwnedBy P :=
    fun b index hb => ⟨hb.allocated, hb.owners⟩
  cases hside : o.side with
  | buy =>
      obtain ⟨hsub, hkeeps⟩ := matchLevels_keeps (buyRecord book.tickerId) clock
        (fun maker taker hm ht _ _ _ => ⟨ht, hm⟩) (fun askPrice limit => askPrice > limit)
        book.asks.entries ⟨heap, book.userActiveOrders, results⟩ htaker
        (fun p hp => howner p (hasks p hp))
      have hbook : ((({ book with heap := heap } : OrderBook).matchBuyOrder clock
          book.heap.next results).1).OwnedBy P := by
        refine ⟨fun p hp => ?_, fun p hp => ?_⟩
        · refine lt_of_lt_of_eq ?_ hkeeps.next.symm
          rcases mem_restingPtrs.mp hp with hp | hp
          · simp only [matchBuyOrder] at hp
            split_ifs at hp with hleft
            · exact ptrs_upsert _ hbids (forall_mem_pushBack (Q := (· < heap.next)) hself) p hp
            · exact hbids p hp
          · exact hasks p (hsub hp)
        · refine (congrArg P (hkeeps.owner p)).mpr (howner p ?_)
          exact lt_of_lt_of_eq hp hkeeps.next
      simp only [OrderBook.processOrder, hside]
      split_ifs
      · exact ⟨hindex _ _ hbook, hkeeps.results⟩
      · exact ⟨hbook, hkeeps.results⟩
  | sell =>
      obtain ⟨hsub, hkeeps⟩ := matchLevels_keeps (sellRecord book.tickerId) clock
        (fun maker taker hm ht _ _ _ => ⟨hm, ht⟩) (fun bidsPrice limit => bidsPrice < limit)
        book.bids.entries ⟨heap, book.userActiveOrders, results⟩ htaker
        (fun p hp => howner p (hbids p hp))
      have hbook : ((({ book with heap := heap } : OrderBook).matchSellOrder clock
          book.heap.next results).1).OwnedBy P := by
        refine ⟨fun p hp => ?_, fun p hp => ?_⟩
        · refine lt_of_lt_of_eq ?_ hkeeps.next.symm
          rcases mem_restingPtrs.mp hp with hp | hp
          · exact hbids p (hsub hp)
          · simp only [matchSellOrder] at hp
            split_ifs at hp with hleft
            · exact ptrs_upsert _ hasks (forall_mem_pushBack (Q := (· < heap.next)) hself) p hp
            · exact hasks p hp
        · refine (congrArg P (hkeeps.owner p)).mpr (howner p ?_)
          exact lt_of_lt_of_eq hp hkeeps.next
      simp only [OrderBook.processOrder, hside]
      split_ifs
      · exact ⟨hindex _ _ hbook, hkeeps.results⟩
      · exact ⟨hbook, hkeeps.results⟩

theorem OwnedBy.cancelOrder {book : OrderBook} (h : book.OwnedBy P) (orderId : UInt32)
    (userId : UInt64) : (book.cancelOrder orderId userId).1.OwnedBy P := by
  have hbids : ∀ p ∈ book.bids.entries.flatMap Prod.snd, p < book.heap.next := fun p hp =>
    h.allocated p (mem_restingPtrs.mpr (Or.inl hp))
  have hasks : ∀ p ∈ book.asks.entries.flatMap Prod.snd, p < book.heap.next := fun p hp =>
    h.allocated p (mem_restingPtrs.mpr (Or.inr hp))
  have hremove : ∀ level : Option OrderList, (∀ p ∈ level.getD [], p < book.heap.next) →
      ∀ p ∈ removeOrder book.heap orderId level, p < book.heap.next :=
    fun level hlevel p hp => hlevel p (List.mem_of_mem_filter hp)
  unfold OrderBook.cancelOrder
  cases book.userActiveOrders.lookup userId with
  | none => exact h
  | some orders =>
      cases hfind : orders.lookup orderId.toUInt64 with
      | none =>
          simp only [hfind]
          exact h
      | some ptr =>
          simp only [hfind]
          cases (book.heap.get ptr).side with
          | buy =>
              refine ⟨fun p hp => ?_, h.owners⟩
              rcases mem_restingPtrs.mp hp with hp | hp
              · exact ptrs_eraseIfEmpty _ (ptrs_upsert _ hbids hremove) p hp
              · exact hasks p hp
          | sell =>
              refine ⟨fun p hp => ?_, h.owners⟩
              rcases mem_restingPtrs.mp hp with hp | hp
              · exact hbids p hp
              · exact ptrs_eraseIfEmpty _ (ptrs_upsert _ hasks hremove) p hp

end OrderBook

/-! ## The index -/

/-- The loops make no objects and only take entries out of the index. -/
def MatchState.Shrinks (st st' : MatchState) : Prop :=
  st'.heap.next = st.heap.next ∧ ∀ u x ptr,
    NestedMap.find? st'.userActiveOrders u x = some ptr →
      NestedMap.find? st.userActiveOrders u x = some ptr

theorem MatchState.Shrinks.refl (st : MatchState) : st.Shrinks st :=
  ⟨rfl, fun _ _ _ h => h⟩

theorem MatchState.Shrinks.trans {st₁ st₂ st₃ : MatchState} (h₁ : st₁.Shrinks st₂)
    (h₂ : st₂.Shrinks st₃) : st₁.Shrinks st₃ :=
  ⟨h₂.1.trans h₁.1, fun u x ptr h => h₁.2 u x ptr (h₂.2 u x ptr h)⟩

theorem MatchState.shrinks_unindex (st : MatchState) (maker : Ptr) :
    st.Shrinks (st.unindex maker) := by
  refine ⟨rfl, fun u x ptr h => ?_⟩
  rw [MatchState.unindex, NestedMap.find?_erase] at h
  split_ifs at h
  exact h

section Shrink

variable (record : Order → Order → UInt64 → UInt64 → MatchRecord) (clock : ℕ → UInt64)
  (taker : Ptr)

theorem shrinks_matchLevel (levelPrice : UInt64) (ptrs : List Ptr) (st : MatchState) :
    st.Shrinks (matchLevel record clock taker levelPrice ptrs st).2 := by
  induction ptrs generalizing st with
  | nil => exact .refl st
  | cons maker rest ih =>
      have htrade : ∀ q, st.Shrinks (st.trade record clock taker maker levelPrice q) :=
        fun q => ⟨rfl, fun _ _ _ h => h⟩
      simp only [matchLevel]
      split_ifs
      · exact .refl st
      · exact ((htrade _).trans (MatchState.shrinks_unindex _ maker)).trans (ih _)
      · exact (htrade _).trans (ih _)

theorem shrinks_matchLevels (stops : UInt64 → UInt64 → Bool)
    (levels : List (UInt64 × OrderList)) (st : MatchState) :
    st.Shrinks (matchLevels record clock stops taker levels st).2 := by
  induction levels generalizing st with
  | nil => exact .refl st
  | cons e rest ih =>
      obtain ⟨levelPrice, level⟩ := e
      by_cases hzero : (st.heap.get taker).quantity = 0
      · simp only [matchLevels, if_pos hzero]
        exact .refl st
      by_cases hstop : stops levelPrice (st.heap.get taker).price
      · simp only [matchLevels, if_neg hzero, if_pos hstop]
        exact .refl st
      simp only [matchLevels, if_neg hzero, if_neg hstop]
      exact (shrinks_matchLevel record clock taker levelPrice level st).trans (ih _)

end Shrink

namespace OrderBook

/-- The index points to order objects. -/
def Indexed (book : OrderBook) : Prop :=
  ∀ u x ptr, NestedMap.find? book.userActiveOrders u x = some ptr → ptr < book.heap.next

theorem Indexed.new (tickerId : UInt32) : (OrderBook.new tickerId).Indexed := by
  intro u x ptr h
  exact absurd ((NestedMap.find?_empty u x).symm.trans h) (by simp)

theorem Indexed.processOrder {book : OrderBook} (h : book.Indexed) (clock : ℕ → UInt64)
    (o : Order) (results : List MatchRecord) :
    (book.processOrder clock o results).1.Indexed := by
  -- Both match functions walk one side and leave the new object where it is.
  have hwalk : ∀ (book' : OrderBook) (st : MatchState),
      MatchState.Shrinks ⟨book.heap.alloc o, book.userActiveOrders, results⟩ st →
      book'.heap = st.heap → book'.userActiveOrders = st.userActiveOrders →
      book'.Indexed ∧ book.heap.next < book'.heap.next := by
    intro book' st hst hheap hindex
    have hnext : book'.heap.next = book.heap.next + 1 := by
      rw [hheap, hst.1]
      rfl
    rw [hnext]
    refine ⟨fun u x ptr hptr => ?_, Nat.lt_succ_self _⟩
    rw [hindex] at hptr
    rw [hnext]
    exact Nat.lt_succ_of_lt (h u x ptr (hst.2 u x ptr hptr))
  have hset : ∀ book' : OrderBook, book'.Indexed → book.heap.next < book'.heap.next → ∀ u x,
      Indexed { book' with
        userActiveOrders := NestedMap.set book'.userActiveOrders u x book.heap.next } := by
    intro book' hbook' hlt u x u' x' ptr hptr
    rw [NestedMap.find?_set] at hptr
    split_ifs at hptr
    · exact Option.some.inj hptr ▸ hlt
    · exact hbook' u' x' ptr hptr
  unfold OrderBook.processOrder
  cases o.side with
  | buy =>
      obtain ⟨hindexed, hlt⟩ := hwalk
        (matchBuyOrder clock { book with heap := book.heap.alloc o } book.heap.next results).1 _
        (shrinks_matchLevels ..) rfl rfl
      simp only
      split_ifs
      · exact hset _ hindexed hlt _ _
      · exact hindexed
  | sell =>
      obtain ⟨hindexed, hlt⟩ := hwalk
        (matchSellOrder clock { book with heap := book.heap.alloc o } book.heap.next results).1 _
        (shrinks_matchLevels ..) rfl rfl
      simp only
      split_ifs
      · exact hset _ hindexed hlt _ _
      · exact hindexed

theorem Indexed.cancelOrder {book : OrderBook} (h : book.Indexed) (orderId : UInt32)
    (userId : UInt64) : (book.cancelOrder orderId userId).1.Indexed := by
  unfold OrderBook.cancelOrder
  cases hrow : book.userActiveOrders.lookup userId with
  | none => exact h
  | some orders =>
      cases hfind : orders.lookup orderId.toUInt64 with
      | none =>
          simp only [hfind]
          exact h
      | some ptr =>
          have herase : ∀ book' : OrderBook, book'.heap = book.heap →
              book'.userActiveOrders = NestedMap.erase book.userActiveOrders userId
                orderId.toUInt64 → book'.Indexed := by
            intro book' hheap hindex u x ptr' hptr'
            rw [hindex, NestedMap.find?_erase] at hptr'
            split_ifs at hptr'
            rw [hheap]
            exact h u x ptr' hptr'
          have hsame : NestedMap.erase book.userActiveOrders userId orderId.toUInt64
              = AList.insert userId (orders.erase orderId.toUInt64) book.userActiveOrders := by
            rw [NestedMap.erase, NestedMap.row, hrow]
            rfl
          simp only [hfind]
          cases (book.heap.get ptr).side with
          | buy => exact herase _ rfl hsame.symm
          | sell => exact herase _ rfl hsame.symm

/-- **The order a cancellation returns is one that the book was given.** -/
theorem OwnedBy.returned {book : OrderBook} (h : book.OwnedBy P) (hindexed : book.Indexed)
    {orderId : UInt32} {userId : UInt64} {o : Order}
    (ho : (book.cancelOrder orderId userId).2 = some o) : P o.userId := by
  unfold OrderBook.cancelOrder at ho
  cases hrow : book.userActiveOrders.lookup userId with
  | none => simp [hrow] at ho
  | some orders =>
      cases hfind : orders.lookup orderId.toUInt64 with
      | none => simp [hrow, hfind] at ho
      | some ptr =>
          simp only [hrow, hfind, Option.some.injEq] at ho
          rw [← ho]
          refine h.owners ptr (hindexed userId orderId.toUInt64 ptr ?_)
          rw [NestedMap.find?, NestedMap.row, hrow]
          exact hfind

end OrderBook

end ExchangeServer
