import ExchangeServer.PriceTime

/-!
# The history of a flat book

A book is judged by what has gone in and what has come out.  `Ledger` relates the
orders submitted so far, the trades and cancellations so far (`Entry`, in the
order they happened) and the orders still resting:

* nothing is lost — for every way `v` of pricing a share, the submitted orders
  are worth what rests plus what the entries took off (`Ledger.balance`);
* every entry is about submitted orders that accept each other (`Entry.Valid`);
* a cancellation closes its order (`Ledger.closed`).

`submit` and `cancel` keep it (`Ledger.submit`, `Ledger.cancel`).  Every quantity
and every amount of money the exchange accounts for is one choice of `v`.
-/

namespace ExchangeServer

namespace PriceTime

/-! ## Entries -/

/-- What takes quantity off a book. -/
inductive Entry where
  | trade (f : Fill)
  | cancel (o : Order)

namespace Entry

/-- What an entry takes off the worth of a book. -/
def worth (v : Order → ℕ) : Entry → ℕ
  | trade f => fillWorth v f
  | cancel o => shareWorth v o

/-- The orders an entry is about. -/
def orders : Entry → List Order
  | trade f => [f.maker, f.taker]
  | cancel o => [o]

/-- The quantity that leaves the book. -/
def quantity : Entry → UInt64
  | trade f => f.quantity
  | cancel o => o.quantity

/-- An entry is about orders that were submitted; the two parties of a trade are
different orders that accept each other's price. -/
structure Valid (submitted : List Order) (e : Entry) : Prop where
  submitted : ∀ o ∈ e.orders, ∃ s ∈ submitted, o.core = s.core
  pos : 0 < e.quantity
  trade : ∀ f, e = .trade f → Crosses f.taker f.maker ∧ f.maker.orderId ≠ f.taker.orderId

theorem Valid.mono {submitted submitted' : List Order} {e : Entry} (h : e.Valid submitted)
    (hsub : submitted ⊆ submitted') : e.Valid submitted' where
  submitted o ho := by
    obtain ⟨s, hs, hcore⟩ := h.submitted o ho
    exact ⟨s, hsub hs, hcore⟩
  pos := h.pos
  trade := h.trade

end Entry

/-- What a list of entries took off a book. -/
def logWorth (v : Order → ℕ) (log : List Entry) : ℕ :=
  (log.map (Entry.worth v)).sum

@[simp] theorem logWorth_append (v : Order → ℕ) (log log' : List Entry) :
    logWorth v (log ++ log') = logWorth v log + logWorth v log' := by
  simp [logWorth]

theorem logWorth_trades (v : Order → ℕ) (fills : List Fill) :
    logWorth v (fills.map Entry.trade) = (fills.map (fillWorth v)).sum := by
  rw [logWorth, List.map_map]
  rfl

theorem logWorth_cancels (v : Order → ℕ) (orders : List Order) :
    logWorth v (orders.map Entry.cancel) = worth v orders := by
  rw [logWorth, List.map_map]
  rfl

/-! ## The shares of one order -/

/-- A share counts if it belongs to the order `x`. -/
def ofOrder (x : UInt64) (o : Order) : ℕ :=
  if o.orderId = x then 1 else 0

theorem shareWorth_ofOrder (x : UInt64) (o : Order) :
    shareWorth (ofOrder x) o = if o.orderId = x then o.quantity.toNat else 0 := by
  unfold shareWorth ofOrder
  by_cases h : o.orderId = x <;> simp [Order.core, h]

theorem fillWorth_ofOrder {f : Fill} (hne : f.maker.orderId ≠ f.taker.orderId) (x : UInt64) :
    fillWorth (ofOrder x) f =
      if f.maker.orderId = x ∨ f.taker.orderId = x then f.quantity.toNat else 0 := by
  unfold fillWorth ofOrder
  by_cases hm : f.maker.orderId = x
  · subst hm
    simp [Order.core, hne.symm]
  · by_cases ht : f.taker.orderId = x <;> simp [Order.core, hm, ht]

/-- Orders with other ids do not count. -/
theorem worth_ofOrder_eq_zero {x : UInt64} {orders : List Order}
    (h : x ∉ orders.map Order.orderId) : worth (ofOrder x) orders = 0 := by
  refine List.sum_eq_zero fun n hn => ?_
  obtain ⟨o, ho, rfl⟩ := List.mem_map.mp hn
  rw [shareWorth_ofOrder, if_neg]
  rintro rfl
  exact h (List.mem_map_of_mem ho)

/-- Among orders with distinct ids, the shares of one of them are its quantity. -/
theorem worth_ofOrder {orders : List Order} (hids : DistinctIds orders) {o : Order}
    (ho : o ∈ orders) : worth (ofOrder o.orderId) orders = o.quantity.toNat := by
  obtain ⟨pre, post, rfl⟩ := List.append_of_mem ho
  unfold DistinctIds at hids
  rw [List.map_append, List.map_cons] at hids
  obtain ⟨-, hcons, hdisj⟩ := List.nodup_append'.mp hids
  have hpre : o.orderId ∉ pre.map Order.orderId := fun h => hdisj h List.mem_cons_self
  have hpost : o.orderId ∉ post.map Order.orderId := (List.nodup_cons.mp hcons).1
  rw [worth_append, worth_cons, worth_ofOrder_eq_zero hpre, worth_ofOrder_eq_zero hpost,
    shareWorth_ofOrder, if_pos rfl]
  omega

/-- An entry takes its whole quantity from each order it is about. -/
theorem Entry.Valid.worth_ofOrder {submitted : List Order} {e : Entry}
    (h : e.Valid submitted) {o : Order} (ho : o ∈ e.orders) :
    e.worth (ofOrder o.orderId) = e.quantity.toNat := by
  cases e with
  | trade f =>
      have hor : f.maker.orderId = o.orderId ∨ f.taker.orderId = o.orderId := by
        rcases List.mem_cons.mp ho with rfl | ho
        · exact Or.inl rfl
        · rw [List.mem_singleton.mp ho]
          exact Or.inr rfl
      exact (fillWorth_ofOrder (h.trade f rfl).2 o.orderId).trans (if_pos hor)
  | cancel o' =>
      rw [List.mem_singleton.mp ho]
      exact (shareWorth_ofOrder _ _).trans (if_pos rfl)

/-- The parties of a valid trade are a submitted buy and a submitted sell. -/
theorem Entry.Valid.parties {submitted : List Order} {f : Fill}
    (h : (Entry.trade f).Valid submitted) :
    ∃ b ∈ submitted, ∃ s ∈ submitted, b.side = .buy ∧ s.side = .sell ∧
      f.buy.core = b.core ∧ f.sell.core = s.core ∧
      ((f.maker = f.sell ∧ f.taker = f.buy) ∨ (f.maker = f.buy ∧ f.taker = f.sell)) := by
  obtain ⟨m, hm, hmcore⟩ := h.submitted f.maker (by simp [Entry.orders])
  obtain ⟨t, ht, htcore⟩ := h.submitted f.taker (by simp [Entry.orders])
  have hsides := (h.trade f rfl).1.1
  rw [Order.side_of_core hmcore, Order.side_of_core htcore] at hsides
  have htside := Order.side_of_core htcore
  cases hside : t.side with
  | buy =>
      rw [hside] at hsides htside
      exact ⟨t, ht, m, hm, hside, hsides, by simp [Fill.buy, htside, htcore],
        by simp [Fill.sell, htside, hmcore], Or.inl (by simp [Fill.buy, Fill.sell, htside])⟩
  | sell =>
      rw [hside] at hsides htside
      exact ⟨m, hm, t, ht, hsides, hside, by simp [Fill.buy, htside, hmcore],
        by simp [Fill.sell, htside, htcore], Or.inr (by simp [Fill.buy, Fill.sell, htside])⟩

/-- The price of a valid trade is within both limits. -/
theorem Entry.Valid.limits {submitted : List Order} {f : Fill}
    (h : (Entry.trade f).Valid submitted) :
    f.sell.price ≤ f.maker.price ∧ f.maker.price ≤ f.buy.price := by
  have hcross := (h.trade f rfl).1.2
  cases hside : f.taker.side with
  | buy =>
      simp only [hside] at hcross
      simp only [Fill.sell, Fill.buy, hside]
      exact ⟨UInt64.le_refl _, hcross⟩
  | sell =>
      simp only [hside] at hcross
      simp only [Fill.sell, Fill.buy, hside]
      exact ⟨hcross, UInt64.le_refl _⟩

/-! ## The ledger -/

/-- The orders submitted to a book, what has left it, and what rests in it. -/
structure Ledger (submitted : List Order) (log : List Entry) (resting : List Order) :
    Prop where
  ids : DistinctIds submitted
  sound : Sound resting
  /-- What was submitted rests, was traded or was cancelled. -/
  balance : ∀ v, worth v resting + logWorth v log = worth v submitted
  resting_submitted : ∀ o ∈ resting, ∃ s ∈ submitted, o.core = s.core
  valid : ∀ e ∈ log, e.Valid submitted
  /-- With a cancellation, all of the order has left the book. -/
  closed : ∀ n o, log[n]? = some (.cancel o) →
    logWorth (ofOrder o.orderId) (log.take (n + 1)) = worth (ofOrder o.orderId) submitted

namespace Ledger

variable {submitted resting : List Order} {log : List Entry}

theorem nil : Ledger [] [] [] where
  ids := List.nodup_nil
  sound := Sound.nil
  balance _ := rfl
  resting_submitted o ho := by cases ho
  valid e he := by cases he
  closed n o h := by cases h

theorem resting_ids (h : Ledger submitted log resting) :
    resting.map Order.orderId ⊆ submitted.map Order.orderId := by
  intro x hx
  obtain ⟨o, ho, rfl⟩ := List.mem_map.mp hx
  obtain ⟨s, hs, hcore⟩ := h.resting_submitted o ho
  exact Order.orderId_of_core hcore ▸ List.mem_map_of_mem hs

/-- **Submitting keeps the ledger**, given a fresh id. -/
theorem submit (h : Ledger submitted log resting) {o : Order}
    (hid : o.orderId ∉ submitted.map Order.orderId) :
    Ledger (submitted ++ [o]) (log ++ (submit resting o).1.map Entry.trade)
      (submit resting o).2 := by
  have hfresh : o.orderId ∉ resting.map Order.orderId := fun hx => hid (h.resting_ids hx)
  have hsub : submitted ⊆ submitted ++ [o] := List.subset_append_left _ _
  refine ⟨?_, h.sound.submit hfresh, fun v => ?_, fun x hx => ?_, fun e he => ?_, ?_⟩
  · unfold DistinctIds
    rw [List.map_append, List.map_singleton]
    refine List.nodup_append'.mpr ⟨h.ids, List.nodup_singleton _, fun x hx hx' => hid ?_⟩
    exact List.mem_singleton.mp hx' ▸ hx
  · have hsubmit := submit_worth v h.sound.distinct o
    have hbalance := h.balance v
    rw [logWorth_append, logWorth_trades, worth_append, worth_cons, worth_nil]
    omega
  · rcases mem_submit hx with ⟨x₀, hx₀, hcore, -⟩ | hcore
    · obtain ⟨s, hs, hcore₀⟩ := h.resting_submitted x₀ hx₀
      exact ⟨s, hsub hs, hcore.trans hcore₀⟩
    · exact ⟨o, by simp, hcore⟩
  · rcases List.mem_append.mp he with he | he
    · exact (h.valid e he).mono hsub
    · obtain ⟨f, hf, rfl⟩ := List.mem_map.mp he
      rw [submit_fst] at hf
      have hfill := fillAll_valid o resting f hf
      obtain ⟨m, hm, hmcore⟩ := hfill.maker_mem
      obtain ⟨s, hs, hscore⟩ := h.resting_submitted m hm
      refine ⟨fun x hx => ?_, fillAll_pos o resting h.sound.pos f hf, ?_⟩
      · rcases List.mem_cons.mp hx with rfl | hx
        · exact ⟨s, hsub hs, hmcore.trans hscore⟩
        · rw [List.mem_singleton.mp hx]
          exact ⟨o, by simp, hfill.taker_core⟩
      · rintro f' hf'
        obtain rfl := Entry.trade.inj hf'
        refine ⟨hfill.crosses, fun heq => hid ?_⟩
        rw [Order.orderId_of_core hmcore, Order.orderId_of_core hscore,
          Order.orderId_of_core hfill.taker_core] at heq
        exact heq ▸ List.mem_map_of_mem hs
  · -- The new entries are trades, so a cancellation is an old one, of another order.
    intro n c hc
    by_cases hn : n < log.length
    · rw [List.getElem?_append_left hn] at hc
      have hne : c.orderId ∉ [o].map Order.orderId := by
        obtain ⟨s, hs, hcore⟩ := (h.valid _ (List.mem_of_getElem? hc)).submitted c (by
          simp [Entry.orders])
        intro hmem
        refine hid ?_
        rw [← List.mem_singleton.mp hmem, Order.orderId_of_core hcore]
        exact List.mem_map_of_mem hs
      rw [List.take_append_of_le_length (by omega), h.closed n c hc, worth_append,
        worth_ofOrder_eq_zero hne, Nat.add_zero]
    · rw [List.getElem?_append_right (by omega)] at hc
      obtain ⟨f, -, hf⟩ := List.mem_map.mp (List.mem_of_getElem? hc)
      cases hf

/-- Cancelling splits the book into what it deletes and what it keeps. -/
theorem cancel_worth (v : Order → ℕ) (hids : DistinctIds resting) (x u : UInt64) :
    worth v (cancel resting x u).2 + worth v (cancel resting x u).1.toList
      = worth v resting := by
  cases hc : (PriceTime.cancel resting x u).1 with
  | none =>
      rw [cancel_snd_of_none hc]
      rfl
  | some o =>
      have hsum := worth_perm v (cancel_perm hids hc)
      rw [worth_cons] at hsum
      rw [Option.toList_some, worth_cons, worth_nil]
      omega

/-- **Cancelling keeps the ledger.** -/
theorem cancel (h : Ledger submitted log resting) (x u : UInt64) :
    Ledger submitted (log ++ (cancel resting x u).1.toList.map Entry.cancel)
      (cancel resting x u).2 := by
  have hbalance : ∀ v, worth v (PriceTime.cancel resting x u).2 +
      logWorth v (log ++ (PriceTime.cancel resting x u).1.toList.map Entry.cancel)
        = worth v submitted := by
    intro v
    have hsplit := cancel_worth v h.sound.distinct x u
    have := h.balance v
    rw [logWorth_append, logWorth_cancels]
    omega
  have hdeleted : ∀ o ∈ (PriceTime.cancel resting x u).1.toList,
      o ∈ resting ∧ o.orderId = x ∧ o.userId = u := fun o ho =>
    mem_of_cancel (Option.mem_toList.mp ho)
  refine ⟨h.ids, h.sound.cancel x u, hbalance, ?_, fun e he => ?_, ?_⟩
  · exact fun o ho => h.resting_submitted o (List.mem_of_mem_filter ho)
  · rcases List.mem_append.mp he with he | he
    · exact h.valid e he
    · obtain ⟨o, ho, rfl⟩ := List.mem_map.mp he
      obtain ⟨ho, -⟩ := hdeleted o ho
      refine ⟨fun o' ho' => ?_, h.sound.pos o ho, fun f hf => by cases hf⟩
      rw [List.mem_singleton.mp ho']
      exact h.resting_submitted o ho
  · intro n o hn
    by_cases hlt : n < log.length
    · rw [List.getElem?_append_left hlt] at hn
      rw [List.take_append_of_le_length (by omega)]
      exact h.closed n o hn
    · -- The cancellation is the last entry, and nothing of the order rests any more.
      rw [List.getElem?_append_right (by omega)] at hn
      obtain ⟨o', ho', heq⟩ := List.mem_map.mp (List.mem_of_getElem? hn)
      obtain rfl := Entry.cancel.inj heq
      obtain ⟨hmem, hx, hu⟩ := hdeleted o' ho'
      have hlen : (PriceTime.cancel resting x u).1.toList.length ≤ 1 := by
        cases (PriceTime.cancel resting x u).1 <;> simp
      have hgone : worth (ofOrder o'.orderId) (PriceTime.cancel resting x u).2 = 0 := by
        refine worth_ofOrder_eq_zero fun hid => ?_
        obtain ⟨k, hk, hkid⟩ := List.mem_map.mp hid
        obtain ⟨hk, hkey⟩ := List.mem_filter.mp hk
        obtain rfl := h.sound.distinct.eq_of_mem hk hmem hkid
        simp [hx, hu] at hkey
      have := hbalance (ofOrder o'.orderId)
      rw [List.take_of_length_le (by simp; omega)]
      omega

/-- The quantity of a submitted order: what rests of it and what has left. -/
theorem quantity_eq (h : Ledger submitted log resting) {s : Order} (hs : s ∈ submitted) :
    worth (ofOrder s.orderId) resting + logWorth (ofOrder s.orderId) log
      = s.quantity.toNat :=
  (h.balance _).trans (worth_ofOrder h.ids hs)

/-- **An order is live when it is named**: before each entry about it, less than
all of it has left the book and it has not been cancelled. -/
theorem live (h : Ledger submitted log resting) {n : ℕ} {e : Entry} (he : log[n]? = some e)
    {o : Order} (ho : o ∈ e.orders) :
    logWorth (ofOrder o.orderId) (log.take n) < worth (ofOrder o.orderId) submitted ∧
      ∀ c, Entry.cancel c ∈ log.take n → c.orderId ≠ o.orderId := by
  have hvalid := h.valid e (List.mem_of_getElem? he)
  have hpos : 0 < e.worth (ofOrder o.orderId) := by
    rw [hvalid.worth_ofOrder ho]
    exact UInt64.lt_iff_toNat_lt.mp hvalid.pos
  obtain ⟨hlt, hget⟩ := List.getElem?_eq_some_iff.mp he
  have htake : log.take (n + 1) = log.take n ++ [e] := by
    rw [List.take_add_one, he]
    rfl
  have htotal : ∀ v k, logWorth v (log.take k) ≤ worth v submitted := by
    intro v k
    have hsplit := logWorth_append v (log.take k) (log.drop k)
    rw [List.take_append_drop] at hsplit
    have := h.balance v
    omega
  have hnext := htotal (ofOrder o.orderId) (n + 1)
  have hone : logWorth (ofOrder o.orderId) [e] = e.worth (ofOrder o.orderId) := by
    simp [logWorth]
  rw [htake, logWorth_append, hone] at hnext
  refine ⟨by omega, fun c hc heq => ?_⟩
  -- A cancellation before the entry would have taken the rest of the order with it.
  obtain ⟨m, hm⟩ := List.getElem?_of_mem hc
  have hmn : m < n := by
    by_contra hge
    rw [List.getElem?_eq_none (by simp; omega)] at hm
    cases hm
  rw [List.getElem?_take_of_lt hmn] at hm
  have hclosed := h.closed m c hm
  rw [heq] at hclosed
  have hprefix : log.take (m + 1) = (log.take n).take (m + 1) := by
    rw [List.take_take, Nat.min_eq_left (by omega)]
  have hle : logWorth (ofOrder o.orderId) (log.take (m + 1))
      ≤ logWorth (ofOrder o.orderId) (log.take n) := by
    have hsplit := logWorth_append (ofOrder o.orderId) ((log.take n).take (m + 1))
      ((log.take n).drop (m + 1))
    rw [List.take_append_drop, ← hprefix] at hsplit
    omega
  omega

end Ledger

end PriceTime

end ExchangeServer
