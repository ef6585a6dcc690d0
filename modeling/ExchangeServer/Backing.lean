import ExchangeServer.Clearing

/-!
# What frozen assets are for

A `Meter` reads one frozen number of an account — cash, or the shares of a ticker —
and says what a share of an order is worth to it.  `Backed` is the law of the
exchange: what the meter reads is what the open orders, the dropped ones, the
records still to be settled and the cancellations still to be released are worth,
up to wrap-around of the machine integers.

The law needs order ids to be distinct, since without that a book may lose an order
or cancel two at once.
-/

namespace ExchangeServer

open Lib PriceTime

namespace Clearing

variable {tickers : TickerManager} {G : Clearing → Event → Prop} {c c' : Clearing} {e : Event}

/-! ## What distinct ids give -/

/-- Open orders are accepted ones with less quantity, none is open twice, records and
cancellations make sense, and everything accepted is still open, dropped, traded or
cancelled. -/
structure Tracked (tickers : TickerManager) (c : Clearing) : Prop where
  ids : c.orders.map Order.orderId ≤ c.accepted.map Order.orderId
  cores : ∀ o ∈ c.orders, ∃ a ∈ c.accepted, o.core = a.core
  cancelOwners : ∀ rec ∈ c.cancels, c.Trader rec.userId
  sound : ∀ rec ∈ c.unsold, (tickers.idToSymbol.lookup rec.tickerId).isSome ∧
    rec.matchPrice ≤ rec.buyerExpectedPrice ∧ 0 < rec.matchQuantity
  accounted : ∀ V : Valuation, V.orders c.accepted
    = V.orders c.orders + V.orders c.dropped + V.trades c.traded + V.cancels c.cancelled

theorem Tracked.step (h : c.Tracked tickers) (hstep : Step tickers c e c')
    (hids : c.DistinctIds) : c'.Tracked tickers := by
  have hsound : ∀ rec ∈ c'.unsold, (tickers.idToSymbol.lookup rec.tickerId).isSome ∧
      rec.matchPrice ≤ rec.buyerExpectedPrice ∧ 0 < rec.matchQuantity := by
    intro rec hrec
    rcases hstep.mem_unsold hrec with hrec | ⟨-, hrec⟩
    · exact h.sound rec hrec
    · exact hrec hids
  have hmono : ∀ {u}, c.Trader u → c'.Trader u := fun hu => hu.mono hstep.accepted_le
  have hsub : ∀ {o}, o ∈ c.accepted → o ∈ c'.accepted := Multiset.mem_of_le hstep.accepted_le
  cases hstep with
  | freeze o hok =>
      refine ⟨?_, fun o' ho' => ?_, fun rec hrec => hmono (h.cancelOwners rec hrec), hsound,
        fun V => ?_⟩
      · simpa using h.ids
      · rcases Multiset.mem_cons.mp ho' with rfl | ho'
        · exact ⟨o', Multiset.mem_cons_self _ _, rfl⟩
        · obtain ⟨a, ha, hcore⟩ := h.cores o' ho'
          exact ⟨a, hsub ha, hcore⟩
      · have haccounted := h.accounted V
        simp only [Valuation.orders_cons]
        omega
  | drop o rest unlisted ho =>
      refine ⟨?_, fun o' ho' => h.cores o' ?_, h.cancelOwners, hsound, fun V => ?_⟩
      · refine le_trans ?_ h.ids
        rw [ho, Multiset.map_cons]
        exact Multiset.le_cons_self _ _
      · rw [ho]
        exact Multiset.mem_cons_of_mem ho'
      · have haccounted := h.accounted V
        rw [ho] at haccounted
        simp only [Valuation.orders_cons] at haccounted ⊢
        omega
  | market orders records cancels parties listed trades =>
      have htrades := trades hids
      obtain ⟨hcores, hcancels⟩ :=
        htrades.cores (P := fun core => ∃ a ∈ c.accepted, core = a.core) h.cores
      refine ⟨htrades.ids_le.trans h.ids, hcores, fun rec hrec => ?_, hsound, fun V => ?_⟩
      · rcases Multiset.mem_add.mp hrec with hrec | hrec
        · obtain ⟨o, now, rfl, a, ha, hcore⟩ := hcancels rec hrec
          exact ⟨a, ha, (Order.userId_of_core hcore).symm⟩
        · exact h.cancelOwners rec hrec
      · have haccounted := h.accounted V
        have hbalance := htrades.balance V
        simp only [Valuation.trades_add, Valuation.cancels_add]
        omega
  | release rec rest idle hrec =>
      refine ⟨h.ids, h.cores, fun rec' hrec' => h.cancelOwners rec' ?_, hsound, h.accounted⟩
      rw [hrec]
      exact Multiset.mem_cons_of_mem hrec'
  | _ => exact ⟨h.ids, h.cores, h.cancelOwners, hsound, h.accounted⟩

end Clearing

/-! ## Meters -/

/-- A frozen number of an account, as an integer with a modulus, and the valuation
it is to agree with.  `change` is what a move of some user adds to it. -/
structure Meter where
  V : Valuation
  modulus : ℤ
  reading : UserManager → ℤ
  change : UInt64 → Delta → ℤ
  /-- Whether a trade is done with when the seller is settled, or the buyer. -/
  bySell : Bool
  moves : ∀ {m uid δ m'}, UserManager.Moves m uid δ m' →
    reading m' ≡ reading m + change uid δ [ZMOD modulus]
  create : ∀ m uid name, reading (UserManager.createUserAccount m uid name) = reading m
  zero : ∀ uid, change uid Delta.zero = 0
  freezes : ∀ o : Order, change o.userId o.freezes ≡ shareWorth V.share o [ZMOD modulus]
  buys : ∀ rec : MatchRecord,
    change rec.buyerUserId rec.buys ≡ (if bySell then 0 else -(V.trade rec : ℤ)) [ZMOD modulus]
  sells : ∀ rec : MatchRecord,
    change rec.sellUserId rec.sells ≡ (if bySell then -(V.trade rec : ℤ) else 0) [ZMOD modulus]
  releases : ∀ rec : CancelRecord,
    change rec.userId rec.releases ≡ -(V.cancel rec : ℤ) [ZMOD modulus]
  pays : ∀ uid amount, change uid (Delta.addBalance amount) = 0

namespace Meter

variable (M : Meter)

/-- The records the meter still has to hold for. -/
def pending (c : Clearing) : Multiset MatchRecord :=
  if M.bySell then c.unsold else c.unbought

/-- What the meter should read. -/
def backing (c : Clearing) : ℕ :=
  M.V.orders c.orders + M.V.orders c.dropped + M.V.trades (M.pending c) + M.V.cancels c.cancels

/-! ### What each event does to the backing -/

section Backing

variable {tickers : TickerManager} {c : Clearing}

theorem backing_freeze (c : Clearing) (o : Order) (users : UserManager) :
    M.backing { c with
        users := users, orders := o ::ₘ c.orders, accepted := o ::ₘ c.accepted }
      = M.backing c + shareWorth M.V.share o := by
  show M.V.orders (o ::ₘ c.orders) + M.V.orders c.dropped + M.V.trades (M.pending c)
    + M.V.cancels c.cancels = _
  rw [Valuation.orders_cons]
  unfold backing
  omega

theorem backing_drop {o : Order} {rest : Multiset Order} (h : c.orders = o ::ₘ rest) :
    M.backing { c with orders := rest, dropped := o ::ₘ c.dropped } = M.backing c := by
  show M.V.orders rest + M.V.orders (o ::ₘ c.dropped) + M.V.trades (M.pending c)
    + M.V.cancels c.cancels = _
  unfold backing
  rw [h, Valuation.orders_cons, Valuation.orders_cons]
  omega

theorem backing_market {orders : Multiset Order} {records : Multiset MatchRecord}
    {cancels : Multiset CancelRecord} (h : Trades c.orders records cancels orders)
    (traded : Multiset MatchRecord) (cancelled : Multiset CancelRecord) :
    M.backing { c with
        orders := orders, records := records + c.records, cancels := cancels + c.cancels,
        traded := traded, cancelled := cancelled }
      = M.backing c := by
  have hbalance := h.balance M.V
  have hpending : M.pending { c with
        orders := orders, records := records + c.records, cancels := cancels + c.cancels,
        traded := traded, cancelled := cancelled } = records + M.pending c := by
    unfold pending
    split_ifs
    · exact add_left_comm c.selling records c.records
    · exact add_left_comm c.buying records c.records
  unfold backing
  rw [hpending]
  simp only [Valuation.trades_add, Valuation.cancels_add]
  omega

theorem pending_start {rec : MatchRecord} {rest : Multiset MatchRecord}
    (idle : c.inHand = none) (h : c.records = rec ::ₘ rest) :
    M.pending { c with
        records := rest
        inHand := some (SettleJob.start c.users tickers rec, .call .deductBalance) }
      = M.pending c := by
  unfold pending Clearing.unsold Clearing.unbought Clearing.selling Clearing.buying
  rw [idle, h]
  simp [SettleJob.start]

theorem pending_call {job : SettleJob} {k : SettleCall} (h : c.inHand = some (job, .call k))
    (db : Database) :
    M.pending { c with db := db, inHand := some (job, k.next) } = M.pending c := by
  have hselling := Clearing.selling_call h db
  have hbuying := Clearing.buying_call h db
  unfold pending Clearing.unsold Clearing.unbought
  rw [hselling, hbuying]

theorem backing_start (tickers : TickerManager) {rec : MatchRecord} {rest : Multiset MatchRecord}
    (idle : c.inHand = none) (h : c.records = rec ::ₘ rest) :
    M.backing { c with
        records := rest
        inHand := some (SettleJob.start c.users tickers rec, .call .deductBalance) }
      = M.backing c := by
  unfold backing
  rw [M.pending_start idle h]

theorem backing_call {job : SettleJob} {k : SettleCall} (h : c.inHand = some (job, .call k))
    (db : Database) :
    M.backing { c with db := db, inHand := some (job, k.next) } = M.backing c := by
  unfold backing
  rw [M.pending_call h]

theorem backing_commitBuy {job : SettleJob} (h : c.inHand = some (job, .commitBuy))
    (users : UserManager) :
    M.backing { c with users := users, inHand := some (job, .commitSell) }
        + (if M.bySell then 0 else M.V.trade job.record) = M.backing c := by
  unfold backing pending Clearing.unsold Clearing.unbought Clearing.selling Clearing.buying
  rw [h]
  split_ifs
  · rfl
  · simp only [Multiset.singleton_add, Valuation.trades_cons, zero_add]
    omega

theorem backing_commitSell {job : SettleJob} (h : c.inHand = some (job, .commitSell))
    (users : UserManager) :
    M.backing { c with users := users, inHand := none }
        + (if M.bySell then M.V.trade job.record else 0) = M.backing c := by
  unfold backing pending Clearing.unsold Clearing.unbought Clearing.selling Clearing.buying
  rw [h]
  split_ifs
  · simp only [Multiset.singleton_add, Valuation.trades_cons, zero_add]
    omega
  · rfl

theorem backing_release {rec : CancelRecord} {rest : Multiset CancelRecord}
    (h : c.cancels = rec ::ₘ rest) (users : UserManager) :
    M.backing { c with users := users, cancels := rest } + M.V.cancel rec = M.backing c := by
  show M.V.orders c.orders + M.V.orders c.dropped + M.V.trades (M.pending c)
    + M.V.cancels rest + M.V.cancel rec = _
  unfold backing
  rw [h, Valuation.cancels_cons]
  omega

end Backing

/-- **What is frozen is what is owed**, up to wrap-around. -/
def Backed (c : Clearing) : Prop :=
  M.reading c.users ≡ M.backing c [ZMOD M.modulus]

variable {M} {tickers : TickerManager} {c c' : Clearing} {e : Event}

/-- A move keeps the law if it changes the reading as the backing changes. -/
theorem Backed.of_moves (h : M.Backed c) {uid : UInt64} {δ : Delta}
    (hmoves : c.users.Moves uid δ c'.users) {n : ℤ}
    (hchange : M.change uid δ ≡ n [ZMOD M.modulus])
    (hbacking : (M.backing c' : ℤ) = M.backing c + n) : M.Backed c' := by
  unfold Backed at h ⊢
  rw [hbacking]
  exact (M.moves hmoves).trans (h.add hchange)

theorem Backed.of_backing_eq (h : M.Backed c) (husers : c'.users = c.users)
    (hbacking : M.backing c' = M.backing c) : M.Backed c' := by
  unfold Backed at h ⊢
  rw [husers, hbacking]
  exact h

/-- **Every step keeps frozen assets backed.** -/
theorem Backed.step (h : M.Backed c) (hstep : Clearing.Step tickers c e c')
    (hids : c.DistinctIds) (howned : c.Owned) (htracked : c.Tracked tickers) :
    M.Backed c' := by
  cases hstep with
  | create uid username =>
      unfold Backed at h ⊢
      rw [M.create]
      exact h
  | freeze o hok =>
      refine h.of_moves (o.freeze_spec c.users).2 (n := shareWorth M.V.share o) ?_ ?_
      · rw [if_pos hok]
        exact M.freezes o
      · rw [M.backing_freeze, Nat.cast_add]
  | refuse o hno =>
      refine h.of_moves (o.freeze_spec c.users).2 (n := 0) ?_ (Int.add_zero _).symm
      rw [hno]
      exact congrArg (· % M.modulus) (M.zero _)
  | drop o rest unlisted ho => exact h.of_backing_eq rfl (M.backing_drop ho)
  | market orders records cancels parties listed trades =>
      exact h.of_backing_eq rfl (M.backing_market (trades hids) _ _)
  | start rec rest idle hrec => exact h.of_backing_eq rfl (M.backing_start tickers idle hrec)
  | call job k fault hhand => exact h.of_backing_eq rfl (M.backing_call hhand _)
  | commitBuy job hhand =>
      refine h.of_moves (job.moves_commitBuy (howned.inHand hhand).1) (M.buys job.record) ?_
      have hbacking := M.backing_commitBuy hhand (job.commitBuy c.users)
      split_ifs at hbacking ⊢ <;> omega
  | commitSell job hhand =>
      refine h.of_moves (job.moves_commitSell (howned.inHand hhand).2) (M.sells job.record) ?_
      have hbacking := M.backing_commitSell hhand (job.commitSell c.users)
      split_ifs at hbacking ⊢ <;> omega
  | release rec rest idle hrec =>
      have hacc := howned.traders _ (htracked.cancelOwners rec (by simp [hrec]))
      refine h.of_moves (rec.moves_release hacc) (M.releases rec) ?_
      have hbacking := M.backing_release hrec (rec.release c.users)
      omega
  | deposit session amount fault pos => exact h.of_backing_eq rfl rfl
  | credit uid amount rest hdep =>
      refine h.of_moves (c.users.moves_addBalance uid amount) (n := 0) ?_ (Int.add_zero _).symm
      split_ifs
      · exact congrArg (· % M.modulus) (M.pays _ _)
      · exact congrArg (· % M.modulus) (M.zero _)

end Meter

theorem toInt64_product (a b : UInt64) :
    (a * b).toInt64.toInt ≡ (a.toNat * b.toNat : ℕ) [ZMOD 2 ^ 64] := by
  refine (toInt64_modEq _).trans ?_
  rw [Nat.cast_mul]
  exact uint64_mul_modEq a b

/-- `frozen_balance` of a user. -/
def frozenCash (u : UInt64) : Meter where
  V := cash u
  modulus := 2 ^ 64
  reading m := (m.frozenBalance u).toInt
  change uid δ := if u = uid then δ.frozen.toInt else 0
  bySell := false
  moves {m uid δ m'} h := by
    rw [h.frozen u]
    split_ifs
    · exact int64_add_modEq _ _
    · rw [Int64.add_zero, Int.add_zero]
  create m uid name := congrArg Int64.toInt ((m.moves_createUserAccount uid name).2.1 u)
  zero uid := by simp [Delta.zero]
  freezes o := by
    simp only [shareWorth, cash, Order.core, Order.freezes]
    cases hside : o.side with
    | buy =>
        by_cases hu : u = o.userId
        · simpa [hu, Delta.freezeBalance] using toInt64_product o.price o.quantity
        · simp [hu, Ne.symm hu]
    | sell => simp [Delta.freezeStock]
  buys rec := by
    simp only [MatchRecord.buys, Delta.commitBuy, cash, rec.sellMoney_add_refundMoney]
    by_cases hu : u = rec.buyerUserId
    · simp only [hu, if_true]
      exact (int64_neg_modEq _).trans (toInt64_product _ _).neg
    · simp [hu, Ne.symm hu]
  sells rec := by simp [MatchRecord.sells, Delta.commitSell]
  releases rec := by
    simp only [CancelRecord.releases, cash]
    cases hside : rec.side with
    | buy =>
        by_cases hu : u = rec.userId
        · simp only [hu, if_true, and_self, Delta.unfreezeBalance]
          exact (int64_neg_modEq _).trans (toInt64_product _ _).neg
        · simp [hu, Ne.symm hu]
    | sell => simp [Delta.unfreezeStock]
  pays uid amount := by simp [Delta.addBalance]

/-- `frozen_stock` of a user in a ticker. -/
def frozenShares (u : UInt64) (t : UInt32) : Meter where
  V := shares u t
  modulus := 2 ^ 32
  reading m := (m.frozenStock u t).toInt
  change uid δ := if u = uid then (δ.frozenStock t).toInt else 0
  bySell := true
  moves {m uid δ m'} h := by
    rw [h.frozenStock u t]
    split_ifs
    · exact int32_add_modEq _ _
    · rw [Int32.add_zero, Int.add_zero]
  create m uid name := congrArg Int32.toInt ((m.moves_createUserAccount uid name).2.2.2.1 u t)
  zero uid := by simp [Delta.zero]
  freezes o := by
    simp only [shareWorth, shares, Order.core, Order.freezes]
    cases hside : o.side with
    | buy => simp [Delta.freezeBalance]
    | sell =>
        by_cases hut : u = o.userId ∧ t = o.tickerId
        · simpa [hut.1, hut.2, Delta.freezeStock, Delta.single] using narrow_modEq o.quantity
        · by_cases hu : u = o.userId
          · have ht : ¬ t = o.tickerId := fun ht => hut ⟨hu, ht⟩
            simp [hu, ht, Ne.symm ht, Delta.freezeStock, Delta.single]
          · simp [hu, Ne.symm hu]
  buys rec := by simp [MatchRecord.buys, Delta.commitBuy]
  sells rec := by
    simp only [MatchRecord.sells, Delta.commitSell, shares, if_true]
    by_cases hut : u = rec.sellUserId ∧ t = rec.tickerId
    · simp only [hut.1, hut.2, Delta.single, if_true, and_self]
      exact (int32_neg_modEq _).trans (narrow_modEq rec.matchQuantity).neg
    · by_cases hu : u = rec.sellUserId
      · have ht : ¬ t = rec.tickerId := fun ht => hut ⟨hu, ht⟩
        simp [hu, ht, Ne.symm ht, Delta.single]
      · simp [hu, Ne.symm hu]
  releases rec := by
    simp only [CancelRecord.releases, shares]
    cases hside : rec.side with
    | buy => simp [Delta.unfreezeBalance]
    | sell =>
        by_cases hut : u = rec.userId ∧ t = rec.tickerId
        · simp only [hut.1, hut.2, Delta.unfreezeStock, Delta.single, if_true, and_self]
          exact (int32_neg_modEq _).trans (narrow_modEq rec.quantity).neg
        · by_cases hu : u = rec.userId
          · have ht : ¬ t = rec.tickerId := fun ht => hut ⟨hu, ht⟩
            simp [hu, ht, Ne.symm ht, Delta.unfreezeStock, Delta.single]
          · simp [hu, Ne.symm hu]
  pays uid amount := by simp [Delta.addBalance]

namespace Clearing

variable {tickers : TickerManager} {G : Clearing → Event → Prop} {c c' : Clearing}

/-- A clearing house before anything was accepted. -/
structure Fresh (c : Clearing) : Prop where
  deposits : c.deposits = 0
  orders : c.orders = 0
  dropped : c.dropped = 0
  records : c.records = 0
  inHand : c.inHand = none
  cancels : c.cancels = 0
  accepted : c.accepted = 0
  traded : c.traded = 0
  cancelled : c.cancelled = 0
  credited : c.credited = 0

namespace Fresh

variable (h : c.Fresh)
include h

theorem not_trader (u : UInt64) : ¬ c.Trader u := by
  rintro ⟨o, ho, -⟩
  rw [h.accepted] at ho
  exact Multiset.notMem_zero o ho

theorem unsold : c.unsold = 0 := by
  simp [Clearing.unsold, selling, h.inHand, h.records]

theorem unbought : c.unbought = 0 := by
  simp [Clearing.unbought, buying, h.inHand, h.records]

theorem owned : c.Owned where
  traders u hu := absurd hu (h.not_trader u)
  unsold rec hrec := by simp [h.unsold] at hrec

theorem tracked (tickers : TickerManager) : c.Tracked tickers where
  ids := by
    rw [h.orders]
    exact Multiset.zero_le _
  cores o ho := by simp [h.orders] at ho
  cancelOwners rec hrec := by simp [h.cancels] at hrec
  sound rec hrec := by simp [h.unsold] at hrec
  accounted V := by simp [h.accepted, h.orders, h.dropped, h.traded, h.cancelled]

theorem backing (M : Meter) : M.backing c = 0 := by
  unfold Meter.backing Meter.pending
  rw [h.orders, h.dropped, h.cancels, h.unsold, h.unbought, ite_self]
  rfl

end Fresh

/-- **The law of the exchange.**  From a clearing house where nothing is frozen, as
long as no two accepted orders share an id, everything accepted is accounted for
and every meter reads what it should. -/
theorem Reaches.backed (h : Reaches tickers G c c') (hfresh : c.Fresh)
    (hids : c'.DistinctIds) :
    c'.Tracked tickers ∧ ∀ M : Meter, M.reading c.users = 0 → M.Backed c' := by
  induction h with
  | refl =>
      refine ⟨hfresh.tracked tickers, fun M hM => ?_⟩
      unfold Meter.Backed
      rw [hM, hfresh.backing]
      rfl
  | tail hreach hstep ih =>
      obtain ⟨e, hstep, -⟩ := hstep
      have hids' := hstep.distinctIds hids
      obtain ⟨htracked, hbacked⟩ := ih hids'
      have howned := (Reaches.conserves hreach hfresh.owned).1
      exact ⟨htracked.step hstep hids',
        fun M hM => (hbacked M hM).step hstep hids' howned htracked⟩

/-- An order that is accepted has a new id and is for a listed ticker. -/
def Routes (tickers : TickerManager) (c : Clearing) : Event → Prop
  | .freeze o => (o.freeze c.users).2 = true →
      (tickers.idToSymbol.lookup o.tickerId).isSome ∧ o.orderId ∉ c.accepted.map Order.orderId
  | _ => True

/-- **What is routed is not dropped.** -/
theorem Reaches.routed (h : Reaches tickers (Routes tickers) c c') (hfresh : c.Fresh) :
    c'.DistinctIds ∧ c'.dropped = 0 ∧
      ∀ o ∈ c'.accepted, (tickers.idToSymbol.lookup o.tickerId).isSome := by
  induction h with
  | refl =>
      refine ⟨?_, hfresh.dropped, fun o ho => ?_⟩
      · unfold DistinctIds
        rw [hfresh.accepted]
        exact Multiset.nodup_zero
      · rw [hfresh.accepted] at ho
        exact absurd ho (Multiset.notMem_zero o)
  | @tail c₁ c₂ hreach hstep ih =>
      obtain ⟨e, hstep, hroutes⟩ := hstep
      obtain ⟨hids, hdropped, hlisted⟩ := ih
      cases hstep with
      | freeze o hok =>
          obtain ⟨hticker, hnew⟩ := hroutes hok
          refine ⟨?_, hdropped, fun o' ho' => ?_⟩
          · unfold DistinctIds
            rw [Multiset.map_cons]
            exact Multiset.nodup_cons.mpr ⟨hnew, hids⟩
          · rcases Multiset.mem_cons.mp ho' with rfl | ho'
            · exact hticker
            · exact hlisted o' ho'
      | drop o rest unlisted ho =>
          -- An open order is an accepted one, so it has a book.
          have hmem : o ∈ c₁.orders := ho ▸ Multiset.mem_cons_self o rest
          obtain ⟨a, ha, hcore⟩ := (Reaches.backed hreach hfresh hids).1.cores o hmem
          have hbook := hlisted a ha
          rw [← Order.tickerId_of_core hcore, unlisted] at hbook
          cases hbook
      | _ => exact ⟨hids, hdropped, hlisted⟩

end Clearing

end ExchangeServer
