import ExchangeServer.Solvency.Basic

/-!
# Smooth steps keep the exchange solvent

One lemma for each event that moves cash or shares.  What is available after the event
is known up to wrap-around from what the event moves; that it is in range follows from
the mirror, since the database holds no more than its columns do and what backs the
frozen assets is positive.
-/

namespace ExchangeServer

open Lib PriceTime

namespace Clearing

variable {tickers : TickerManager} {G : Clearing → Event → Prop} {c c' : Clearing} {e : Event}
  {u : UInt64} {t : UInt32}

/-! ## Cash -/

theorem frozenBalance_eq (hbacked : (frozenCash u).Backed c)
    (hbacking : (frozenCash u).backing c < 2 ^ 63) :
    (c.users.frozenBalance u).toInt = (frozenCash u).backing c :=
  int64_toInt_of_modEq hbacked (by omega) (by omega)

theorem frozenStock_eq (hbacked : (frozenShares u t).Backed c)
    (hbacking : (frozenShares u t).backing c < 2 ^ 31) :
    (c.users.frozenStock u t).toInt = (frozenShares u t).backing c :=
  int32_toInt_of_modEq hbacked (by omega) (by omega)

/-- What is available moves by what the account gains and what comes out of its frozen
cash. -/
theorem available_modEq {m m' : UserManager} {uid : UInt64} {δ : Delta}
    (hmoves : m.Moves uid δ m') {n w : ℤ}
    (hδ : δ.available.toInt + δ.frozen.toInt ≡ n [ZMOD 2 ^ 64])
    (hchange : (frozenCash u).change uid δ ≡ w [ZMOD 2 ^ 64]) :
    (m'.availableBalance u).toInt
      ≡ (m.availableBalance u).toInt + (if uid = u then n else 0) - w [ZMOD 2 ^ 64] := by
  rw [hmoves.available u, if_congr (eq_comm (a := uid)) rfl rfl]
  change (if u = uid then δ.frozen.toInt else 0) ≡ w [ZMOD 2 ^ 64] at hchange
  split_ifs at hchange ⊢
  · have hgain := hδ.sub hchange
    rw [Int.add_sub_cancel] at hgain
    refine (int64_add_modEq _ _).trans ?_
    rw [Int.add_sub_assoc]
    exact hgain.add_left _
  · have hsub := hchange.neg.add_left (m.availableBalance u).toInt
    rw [Int64.add_zero, Int.add_zero]
    rwa [Int.neg_zero, Int.add_zero] at hsub

/-- The same for shares. -/
theorem availableStock_modEq {m m' : UserManager} {uid : UInt64} {δ : Delta}
    (hmoves : m.Moves uid δ m') {n w : ℤ}
    (hδ : (δ.availableStock t).toInt + (δ.frozenStock t).toInt ≡ n [ZMOD 2 ^ 32])
    (hchange : (frozenShares u t).change uid δ ≡ w [ZMOD 2 ^ 32]) :
    (m'.availableStock u t).toInt
      ≡ (m.availableStock u t).toInt + (if uid = u then n else 0) - w [ZMOD 2 ^ 32] := by
  rw [hmoves.availableStock u t, if_congr (eq_comm (a := uid)) rfl rfl]
  change (if u = uid then (δ.frozenStock t).toInt else 0) ≡ w [ZMOD 2 ^ 32] at hchange
  split_ifs at hchange ⊢
  · have hgain := hδ.sub hchange
    rw [Int.add_sub_cancel] at hgain
    refine (int32_add_modEq _ _).trans ?_
    rw [Int.add_sub_assoc]
    exact hgain.add_left _
  · have hsub := hchange.neg.add_left (m.availableStock u t).toInt
    rw [Int32.add_zero, Int.add_zero]
    rwa [Int.neg_zero, Int.add_zero] at hsub

/-- **A balanced account does not wrap.**  If what is available is `n` up to wrap-around
and the mirror is exact with `n`, then it is `n`. -/
theorem CashSolvent.of_modEq (hlinked : c.Linked tickers) (htracked : c.Tracked tickers) {n : ℤ}
    (havailable : (c.users.availableBalance u).toInt ≡ n [ZMOD 2 ^ 64]) (hn : 0 ≤ n)
    (hbacking : (frozenCash u).backing c < 2 ^ 63)
    (hmirror : (c.db.balance (c.users.getName u)).toInt
      = n + (frozenCash u).backing c + c.toCredit u + c.cashAhead u) : c.CashSolvent u := by
  have hahead := neg_backing_le_cashAhead hlinked htracked u
  have hcredit := toCredit_nonneg hlinked u
  have hhigh := (c.db.balance (c.users.getName u)).toInt_lt
  obtain rfl := int64_toInt_of_modEq havailable (by omega) (by omega)
  exact ⟨hn, hbacking, hmirror⟩

/-- An accepted buy takes no more than there is, and what is frozen stays in range. -/
theorem CashSolvent.freeze (h : c.CashSolvent u) (hbacked : (frozenCash u).Backed c) {o : Order}
    (hok : (o.freeze c.users).2 = true) (hfits : o.FreezeFits c.users) :
    (shareWorth (frozenCash u).V.share o : ℤ) ≤ (c.users.availableBalance u).toInt ∧
      (frozenCash u).backing c + shareWorth (frozenCash u).V.share o < 2 ^ 63 := by
  have havailable := h.available
  have hbacking := h.backing
  have hfrozen := frozenBalance_eq hbacked hbacking
  obtain ⟨-, hcovered⟩ := (o.freeze_spec c.users).1.mp hok
  show (shareWorth (cash u).share o : ℤ) ≤ _ ∧ _ + shareWorth (cash u).share o < _
  simp only [shareWorth, cash, Order.core]
  unfold Order.FreezeFits at hfits
  unfold Order.Covered at hcovered
  cases hside : o.side with
  | sell => simpa using ⟨havailable, hbacking⟩
  | buy =>
      by_cases hu : o.userId = u
      · simp only [hside, hu] at hfits hcovered
        have hproduct : (o.price * o.quantity).toNat = o.price.toNat * o.quantity.toNat :=
          uint64_mul_of_range (by omega)
        have hcost : (o.price * o.quantity).toInt64.toInt
            = (o.price.toNat * o.quantity.toNat : ℕ) := by
          rw [toInt64_of_range (by omega), hproduct]
        have hle := Int64.le_iff_toInt_le.mp hcovered
        rw [if_pos ⟨rfl, hu⟩]
        omega
      · simpa [hu] using ⟨havailable, hbacking⟩

/-! ## Shares -/

/-- An accepted sell takes no more shares than there are. -/
theorem StockSolvent.freeze (h : c.StockSolvent tickers u t) {o : Order}
    (hok : (o.freeze c.users).2 = true) (hfits : o.FreezeFits c.users) :
    (shareWorth (frozenShares u t).V.share o : ℤ) ≤ (c.users.availableStock u t).toInt := by
  have havailable := h.available
  obtain ⟨-, hcovered⟩ := (o.freeze_spec c.users).1.mp hok
  show (shareWorth (shares u t).share o : ℤ) ≤ _
  simp only [shareWorth, shares, Order.core]
  unfold Order.FreezeFits at hfits
  unfold Order.Covered at hcovered
  cases hside : o.side with
  | buy => simpa using havailable
  | sell =>
      by_cases hut : o.userId = u ∧ o.tickerId = t
      · simp only [hside, hut.1, hut.2] at hfits hcovered
        have hle := Int32.le_iff_toInt_le.mp hcovered
        rw [narrow_of_range hfits] at hle
        rw [if_pos ⟨rfl, hut⟩]
        omega
      · simpa [hut] using havailable

/-- If the shares that are available are `n` up to wrap-around and the position fits with
`n`, then they are `n`. -/
theorem StockSolvent.of_modEq {n : ℤ} (hn : 0 ≤ n)
    (hmod : (c.users.availableStock u t).toInt ≡ n [ZMOD 2 ^ 32])
    (hposition : n + (frozenShares u t).backing c < 2 ^ 31)
    (hreceived : ∀ job stage, c.inHand = some (job, stage) →
      job.record.buyerUserId = u ∧ job.record.tickerId = t →
      stage.ahead .updateStockHolding = true →
      n + (frozenShares u t).backing c + job.record.qty.toInt < 2 ^ 31)
    (hmirror : (tickers.idToSymbol.lookup t).isSome →
      (c.db.holding (c.users.getName u) (tickers.getSymbol t)).toInt
        = n + (frozenShares u t).backing c + c.stockAhead u t) : c.StockSolvent tickers u t := by
  obtain rfl := int32_toInt_of_modEq hmod (by omega) (by omega)
  exact ⟨hn, hposition, hreceived, hmirror⟩

/-- Whatever leaves the position, the record in hand and the row alone keeps the shares
solvent. -/
theorem StockSolvent.of_position (h : c.StockSolvent tickers u t) {n : ℤ} (hn : 0 ≤ n)
    (hmod : (c'.users.availableStock u t).toInt ≡ n [ZMOD 2 ^ 32])
    (hposition : n + (frozenShares u t).backing c'
      = (c.users.availableStock u t).toInt + (frozenShares u t).backing c)
    (hhand : c'.inHand = c.inHand) (hname : c'.users.getName u = c.users.getName u)
    (hholdings : c'.db.holdings = c.db.holdings) : c'.StockSolvent tickers u t := by
  have hahead : c'.stockAhead u t = c.stockAhead u t := by
    unfold stockAhead
    rw [hhand]
  refine StockSolvent.of_modEq hn hmod (hposition ▸ h.position)
    (fun job stage hjob hparty hstage => ?_) (fun ht => ?_)
  · rw [hposition]
    exact h.received job stage (hhand ▸ hjob) hparty hstage
  · rw [hposition, hname, hahead, Database.holding, hholdings]
    exact h.mirror ht

theorem ite_single (uid : UInt64) (t' : UInt32) (qty : Int32) :
    (if uid = u then (Delta.single t' qty t).toInt else 0)
      = if uid = u ∧ t' = t then qty.toInt else 0 := by
  unfold Delta.single
  by_cases hu : uid = u
  · by_cases ht : t' = t
    · simp [hu, ht]
    · simp [hu, ht, Ne.symm ht]
  · simp [hu]

/-! ## Events that move cash -/

section CashEvents

variable (h : c.Solvent tickers) (hu : c.users.HasAccount u) (hlinked' : c'.Linked tickers)
  (htracked' : c'.Tracked tickers)
include h hu hlinked' htracked'

/-- The five numbers of the mirror move together: what the row gains is what the account,
its backing, the deposits under way and the record in hand gain. -/
theorem cashSolvent_of_balance (hname : c'.users.getName u = c.users.getName u) {n : ℤ}
    (hmod : (c'.users.availableBalance u).toInt
      ≡ (c.users.availableBalance u).toInt + n [ZMOD 2 ^ 64])
    (hn : 0 ≤ (c.users.availableBalance u).toInt + n)
    (hbacking : (frozenCash u).backing c' < 2 ^ 63)
    (hbalance : (c'.db.balance (c.users.getName u)).toInt
        - (c.db.balance (c.users.getName u)).toInt
      = n + ((frozenCash u).backing c' - (frozenCash u).backing c)
        + (c'.toCredit u - c.toCredit u) + (c'.cashAhead u - c.cashAhead u)) :
    c'.CashSolvent u := by
  have hmirror := (h.cash u hu).mirror
  refine CashSolvent.of_modEq hlinked' htracked' hmod hn hbacking ?_
  rw [hname]
  omega

/-- An event that only hands things on. -/
theorem cashSolvent_of_same (husers : c'.users = c.users) (hdb : c'.db = c.db)
    (hdeposits : c'.deposits = c.deposits)
    (hbacking : (frozenCash u).backing c' = (frozenCash u).backing c)
    (hahead : c'.cashAhead u = c.cashAhead u) : c'.CashSolvent u := by
  have hcredit : c'.toCredit u = c.toCredit u := congrArg (credits u) hdeposits
  have hcash := h.cash u hu
  refine cashSolvent_of_balance h hu hlinked' htracked' (congrArg (UserManager.getName · u) husers)
    (n := 0) ?_ ?_ (hbacking ▸ hcash.backing) ?_
  · rw [husers, Int.add_zero]
  · rw [Int.add_zero]
    exact hcash.available
  · rw [hdb, hbacking, hcredit, hahead]
    omega

theorem cashSolvent_freeze (hbacked : (frozenCash u).Backed c) {o : Order}
    (hok : (o.freeze c.users).2 = true) (hfits : o.FreezeFits c.users)
    (hc' : c' = { c with
      users := (o.freeze c.users).1, orders := o ::ₘ c.orders, accepted := o ::ₘ c.accepted }) :
    c'.CashSolvent u := by
  subst hc'
  obtain ⟨hle, hlt⟩ := (h.cash u hu).freeze hbacked hok hfits
  have hbacking := (frozenCash u).backing_freeze c o (o.freeze c.users).1
  have hspec := (o.freeze_spec c.users).2
  rw [if_pos hok] at hspec
  have hmod := available_modEq hspec o.freezes_cash ((frozenCash u).freezes o)
  rw [ite_self, Int.add_zero, Int.sub_eq_add_neg] at hmod
  refine cashSolvent_of_balance h hu hlinked' htracked' (hspec.getName u) hmod (by omega)
    (by omega) ?_
  show (c.db.balance (c.users.getName u)).toInt - (c.db.balance (c.users.getName u)).toInt
    = _ + _ + (c.toCredit u - c.toCredit u) + (c.cashAhead u - c.cashAhead u)
  omega

theorem cashSolvent_call (howned : c.Owned) (htracked : c.Tracked tickers) {job : SettleJob}
    {k : SettleCall} {fault : Option Fault} (hhand : c.inHand = some (job, .call k))
    (herror : (job.execute k fault c.db).error = false)
    (hc' : c' = { c with
      db := (job.execute k fault c.db).db, inHand := some (job, k.next) }) :
    c'.CashSolvent u := by
  subst hc'
  have hcash := h.cash u hu
  have hbacking := (frozenCash u).backing_call hhand (job.execute k fault c.db).db
  have hwritten := balance_execute h.linked howned hhand (h.applied howned htracked hhand herror) hu
  have hahead : c.cashAhead u = job.cashAhead (.call k) u := by simp [cashAhead, hhand]
  refine cashSolvent_of_balance h hu hlinked' htracked' rfl (n := 0) ?_ ?_
    (hbacking ▸ hcash.backing) ?_
  · rw [Int.add_zero]
  · rw [Int.add_zero]
    exact hcash.available
  · rw [hbacking, hahead]
    show ((job.execute k fault c.db).db.balance (c.users.getName u)).toInt - _
      = _ + _ + (c.toCredit u - c.toCredit u) + (job.cashAhead k.next u - _)
    omega

/-- The buyer pays no more than what was frozen for the shares, and the rest comes
back. -/
theorem cashSolvent_commitBuy (howned : c.Owned) (htracked : c.Tracked tickers) {job : SettleJob}
    (hhand : c.inHand = some (job, .commitBuy))
    (hc' : c' = { c with users := job.commitBuy c.users, inHand := some (job, .commitSell) }) :
    c'.CashSolvent u := by
  subst hc'
  have havailable := (h.cash u hu).available
  have hlt := (h.cash u hu).backing
  have hmoves := job.moves_commitBuy (howned.inHand hhand).1
  have hmod := available_modEq (u := u) hmoves job.record.buys_cash
    ((frozenCash u).buys job.record)
  have hbacking := (frozenCash u).backing_commitBuy hhand (job.commitBuy c.users)
  change _ + (cash u).trade job.record = _ at hbacking
  change _ ≡ _ + _ - -((cash u).trade job.record : ℤ) [ZMOD 2 ^ 64] at hmod
  have hpaid : (if job.record.buyerUserId = u then job.record.sellMoney.toInt else 0)
      ≤ ((cash u).trade job.record : ℤ) := by
    split_ifs with heq
    · have hexact := (h.linked.inHand _ _ hhand).2.sellMoney
      have hle := price_le (htracked.sound _ (mem_unsold hhand)).2.1
      rw [← heq, cash_trade_self]
      omega
    · omega
  have hahead : job.cashAhead .commitSell u = c.cashAhead u
      + (if job.record.buyerUserId = u then job.record.sellMoney.toInt else 0) := by
    simp [cashAhead, hhand, job.cashAhead_commitBuy, job.cashAhead_commitSell]
  rw [Int.add_sub_assoc] at hmod
  refine cashSolvent_of_balance h hu hlinked' htracked' (hmoves.getName u) hmod ?_ (by omega) ?_
  · split_ifs at hpaid ⊢ <;> omega
  · show (c.db.balance (c.users.getName u)).toInt - (c.db.balance (c.users.getName u)).toInt
      = _ + _ + (c.toCredit u - c.toCredit u) + (job.cashAhead .commitSell u - _)
    split_ifs at hahead ⊢ <;> omega

theorem cashSolvent_commitSell (howned : c.Owned) {job : SettleJob}
    (hhand : c.inHand = some (job, .commitSell))
    (hc' : c' = { c with users := job.commitSell c.users, inHand := none }) :
    c'.CashSolvent u := by
  subst hc'
  have havailable := (h.cash u hu).available
  have hlt := (h.cash u hu).backing
  have hmoves := job.moves_commitSell (howned.inHand hhand).2
  have hmod := available_modEq (u := u) hmoves job.record.sells_cash
    ((frozenCash u).sells job.record)
  have hbacking := (frozenCash u).backing_commitSell hhand (job.commitSell c.users)
  change _ + 0 = _ at hbacking
  change _ ≡ _ + _ - 0 [ZMOD 2 ^ 64] at hmod
  rw [Int.sub_zero] at hmod
  have hexact := (h.linked.inHand _ _ hhand).2.sellMoney
  have hahead : c.cashAhead u
      = if job.record.sellUserId = u then job.record.sellMoney.toInt else 0 := by
    simp [cashAhead, hhand, job.cashAhead_commitSell]
  refine cashSolvent_of_balance h hu hlinked' htracked' (hmoves.getName u) hmod ?_ (by omega) ?_
  · split_ifs <;> omega
  · show (c.db.balance (c.users.getName u)).toInt - (c.db.balance (c.users.getName u)).toInt
      = _ + _ + (c.toCredit u - c.toCredit u) + (0 - _)
    split_ifs at hahead ⊢ <;> omega

theorem cashSolvent_release (howned : c.Owned) (htracked : c.Tracked tickers)
    {rec : CancelRecord} {rest : Multiset CancelRecord} (hrec : c.cancels = rec ::ₘ rest)
    (hc' : c' = { c with users := rec.release c.users, cancels := rest }) :
    c'.CashSolvent u := by
  subst hc'
  have havailable := (h.cash u hu).available
  have hlt := (h.cash u hu).backing
  have hacc := howned.traders _ (htracked.cancelOwners rec (by simp [hrec]))
  have hmoves := rec.moves_release hacc
  have hmod := available_modEq (u := u) hmoves rec.releases_cash ((frozenCash u).releases rec)
  rw [ite_self, Int.add_zero, Int.sub_neg] at hmod
  have hbacking := (frozenCash u).backing_release hrec (rec.release c.users)
  refine cashSolvent_of_balance h hu hlinked' htracked' (hmoves.getName u) hmod (by omega)
    (by omega) ?_
  show (c.db.balance (c.users.getName u)).toInt - (c.db.balance (c.users.getName u)).toInt
    = _ + _ + (c.toCredit u - c.toCredit u) + (c.cashAhead u - c.cashAhead u)
  omega

/-- A deposit goes to the row that the session names, which is that of its user. -/
theorem cashSolvent_deposit {session : Session} {amount : Int64} {fault : Option Fault}
    (herror : (c.db.updateBalance fault session.username amount).error = false)
    (hrow : (c.db.accounts.lookup session.username).map AccountRow.id = some session.userId)
    (hc' : c' = { c with
      db := (c.db.updateBalance fault session.username amount).db
      deposits := (session.userId, amount) ::ₘ c.deposits }) : c'.CashSolvent u := by
  subst hc'
  have hcash := h.cash u hu
  have hsome : (c.db.accounts.lookup session.username).isSome := by
    rw [← Option.isSome_map, hrow]
    rfl
  have happlied := (c.db.updateBalance_spec fault session.username amount).1.mpr
    (Database.canCredit_of_no_error hsome herror)
  have hwritten := Database.balance_updateBalance happlied (c.users.getName u)
  have hsession : c.users.getName u = session.username ↔ session.userId = u := by
    obtain ⟨hacc, hsame⟩ := (h.linked.rows _ _).mp hrow
    rw [← hsame]
    exact h.linked.getName_inj hu hacc
  rw [if_congr hsession rfl rfl] at hwritten
  have hcredit := credits_cons u session.userId amount c.deposits
  refine cashSolvent_of_balance h hu hlinked' htracked' rfl (n := 0) ?_ ?_ hcash.backing ?_
  · rw [Int.add_zero]
  · rw [Int.add_zero]
    exact hcash.available
  · show ((c.db.updateBalance fault session.username amount).db.balance
        (c.users.getName u)).toInt - _
      = 0 + ((frozenCash u).backing c - (frozenCash u).backing c)
      + (credits u ((session.userId, amount) ::ₘ c.deposits) - credits u c.deposits)
      + (c.cashAhead u - c.cashAhead u)
    omega

/-- Then the account gets what the row got. -/
theorem cashSolvent_credit {uid : UInt64} {amount : Int64} {rest : Multiset (UInt64 × Int64)}
    {credited : Multiset (UInt64 × Int64)} (hdep : c.deposits = (uid, amount) ::ₘ rest)
    (hc' : c' = { c with
      users := c.users.addBalance uid amount, deposits := rest, credited := credited }) :
    c'.CashSolvent u := by
  subst hc'
  have hcash := h.cash u hu
  have havailable := hcash.available
  have hpos : 0 < amount.toInt :=
    h.linked.deposits (uid, amount) (hdep ▸ Multiset.mem_cons_self _ _)
  have hcredit : c.toCredit u = _ := (congrArg (credits u) hdep).trans (credits_cons ..)
  have hmoves := c.users.moves_addBalance uid amount
  have hmod := available_modEq (u := u) hmoves
    (n := if c.users.HasAccount uid then amount.toInt else 0) (w := 0)
    (by split_ifs <;> simp [Delta.addBalance, Delta.zero])
    (by split_ifs <;> simp [frozenCash, Delta.addBalance, Delta.zero])
  have hgain : (if uid = u then (if c.users.HasAccount uid then amount.toInt else 0) else 0)
      = if uid = u then amount.toInt else 0 := by
    split_ifs with heq hacc
    · rfl
    · exact absurd (heq ▸ hu) hacc
    · rfl
  rw [Int.sub_zero, hgain] at hmod
  refine cashSolvent_of_balance h hu hlinked' htracked' (hmoves.getName u) hmod ?_
    hcash.backing ?_
  · split_ifs <;> omega
  · show (c.db.balance (c.users.getName u)).toInt - (c.db.balance (c.users.getName u)).toInt
      = _ + ((frozenCash u).backing c - (frozenCash u).backing c)
        + (credits u rest - c.toCredit u) + (c.cashAhead u - c.cashAhead u)
    omega

end CashEvents

/-- **Every smooth step keeps the cash of an account solvent.** -/
theorem cashSolvent_step (h : c.Solvent tickers) (howned : c.Owned)
    (htracked : c.Tracked tickers) (hids : c.DistinctIds) (hsmooth : c.Smooth e)
    (hstep : Step tickers c e c') (hbacked : (frozenCash u).Backed c)
    (hu : c.users.HasAccount u) : c'.CashSolvent u := by
  have hlinked' := h.linked_step howned htracked hstep hsmooth
  have htracked' := htracked.step hstep hids
  cases hstep with
  | create uid username => exact absurd hsmooth id
  | freeze o hok =>
      exact cashSolvent_freeze h hu hlinked' htracked' hbacked hok (hsmooth hok) rfl
  | refuse o hno =>
      have hspec := (o.freeze_spec c.users).2
      rw [hno] at hspec
      have hmod := available_modEq (u := u) (n := 0) (w := 0) hspec rfl
        (congrArg (· % 2 ^ 64) ((frozenCash u).zero _))
      rw [ite_self, Int.sub_zero] at hmod
      refine cashSolvent_of_balance h hu hlinked' htracked' (hspec.getName u) hmod ?_
        (h.cash u hu).backing ?_
      · rw [Int.add_zero]
        exact (h.cash u hu).available
      · show (c.db.balance (c.users.getName u)).toInt - _ = 0 + ((frozenCash u).backing c - _)
          + (c.toCredit u - c.toCredit u) + (c.cashAhead u - c.cashAhead u)
        omega
  | drop o rest unlisted ho =>
      exact cashSolvent_of_same h hu hlinked' htracked' rfl rfl rfl
        ((frozenCash u).backing_drop ho) rfl
  | market orders records cancels parties listed trades =>
      exact cashSolvent_of_same h hu hlinked' htracked' rfl rfl rfl
        ((frozenCash u).backing_market (trades hids) _ _) rfl
  | start rec rest idle hrec =>
      have hahead : c.cashAhead u = 0 := by simp [cashAhead, idle]
      exact cashSolvent_of_same h hu hlinked' htracked' rfl rfl rfl
        ((frozenCash u).backing_start tickers idle hrec)
        ((SettleJob.cashAhead_start _ u).trans hahead.symm)
  | call job k fault hhand =>
      exact cashSolvent_call h hu hlinked' htracked' howned htracked hhand (hsmooth job k hhand) rfl
  | commitBuy job hhand =>
      exact cashSolvent_commitBuy h hu hlinked' htracked' howned htracked hhand rfl
  | commitSell job hhand =>
      exact cashSolvent_commitSell h hu hlinked' htracked' howned hhand rfl
  | release rec rest idle hrec =>
      exact cashSolvent_release h hu hlinked' htracked' howned htracked hrec rfl
  | deposit session amount fault pos =>
      obtain ⟨herror, hrow⟩ := hsmooth pos
      refine cashSolvent_deposit h hu hlinked' htracked' herror hrow ?_
      rw [if_pos (Database.returned_of_no_error herror)]
  | credit uid amount rest hdep =>
      exact cashSolvent_credit h hu hlinked' htracked' hdep rfl

/-! ## Events that move shares -/

section StockEvents

variable (h : c.Solvent tickers) (hu : c.users.HasAccount u) (howned : c.Owned)
include h hu howned

/-- A call that succeeded left a sum that fits the column, so the position of the buyer
has room for the shares. -/
theorem stockSolvent_call (htracked : c.Tracked tickers) (hunique : tickers.SymbolsUnique)
    {job : SettleJob} {k : SettleCall} {fault : Option Fault}
    (hhand : c.inHand = some (job, .call k))
    (herror : (job.execute k fault c.db).error = false)
    (hc' : c' = { c with
      db := (job.execute k fault c.db).db, inHand := some (job, k.next) }) :
    c'.StockSolvent tickers u t := by
  subst hc'
  have hstock := h.stock u t hu
  have hbacking := (frozenShares u t).backing_call hhand (job.execute k fault c.db).db
  have happlied := h.applied howned htracked hhand herror
  have hlisted := (htracked.sound _ (mem_unsold hhand)).1
  have hahead : c.stockAhead u t = job.stockAhead (.call k) u t := by simp [stockAhead, hhand]
  refine ⟨hstock.available, hbacking ▸ hstock.position, fun job' stage hjob hparty hstage => ?_,
    fun ht => ?_⟩
  · obtain ⟨rfl, rfl⟩ := Prod.mk.inj (Option.some.inj hjob)
    rw [hbacking]
    show (c.users.availableStock u t).toInt + _ + _ < _
    cases k with
    | deductBalance => cases hstage
    | updateStockHolding =>
        obtain ⟨-, -, hfits⟩ := Database.canReceive_of_no_error herror
        obtain ⟨rfl, rfl⟩ := hparty
        have hmirror := hstock.mirror hlisted
        have hzero : job.stockAhead (.call .updateStockHolding) job.record.buyerUserId
            job.record.tickerId = 0 := by simp [SettleJob.stockAhead, SettleStage.ahead]
        rw [h.linked.buyerName hhand, h.linked.symbol hhand] at hfits
        omega
    | updateBalance => exact hstock.received job _ hhand hparty rfl
    | deductStockHolding => exact hstock.received job _ hhand hparty rfl
  · have hmirror := hstock.mirror ht
    have hwritten := holding_execute h.linked howned hhand happlied hu hunique hlisted ht
    rw [hbacking]
    show ((job.execute k fault c.db).db.holding (c.users.getName u)
      (tickers.getSymbol t)).toInt = (c.users.availableStock u t).toInt + _
        + job.stockAhead k.next u t
    omega

theorem stockSolvent_commitBuy {job : SettleJob} (hhand : c.inHand = some (job, .commitBuy))
    (hc' : c' = { c with users := job.commitBuy c.users, inHand := some (job, .commitSell) }) :
    c'.StockSolvent tickers u t := by
  subst hc'
  have hstock := h.stock u t hu
  have havailable := hstock.available
  have hposition := hstock.position
  have hmoves := job.moves_commitBuy (howned.inHand hhand).1
  have hmod := availableStock_modEq (u := u) hmoves (job.record.buys_stock t)
    ((frozenShares u t).buys job.record)
  have hbacking := (frozenShares u t).backing_commitBuy hhand (job.commitBuy c.users)
  change _ + 0 = _ at hbacking
  change _ ≡ _ + _ - 0 [ZMOD 2 ^ 32] at hmod
  rw [Int.sub_zero, ite_single] at hmod
  have hqty := (h.linked.inHand _ _ hhand).2.qty
  have hahead : job.stockAhead .commitSell u t = c.stockAhead u t
      - (if job.record.buyerUserId = u ∧ job.record.tickerId = t then
        job.record.qty.toInt else 0) := by
    simp [stockAhead, hhand, job.stockAhead_commitBuy, job.stockAhead_commitSell]
  have hroom : (c.users.availableStock u t).toInt
      + (if job.record.buyerUserId = u ∧ job.record.tickerId = t then
        job.record.qty.toInt else 0) + (frozenShares u t).backing c < 2 ^ 31 := by
    split_ifs with hparty
    · have hreceived := hstock.received job _ hhand hparty rfl
      omega
    · omega
  have hgain : 0 ≤ (if job.record.buyerUserId = u ∧ job.record.tickerId = t then
      job.record.qty.toInt else 0) := by
    split_ifs <;> omega
  refine StockSolvent.of_modEq (by omega) hmod (by omega)
    (fun job' stage hjob hparty hstage => ?_) (fun ht => ?_)
  · -- The next stage is `commitSell`, where the shares are in the account.
    obtain ⟨-, rfl⟩ := Prod.mk.inj (Option.some.inj hjob)
    cases hstage
  · have hmirror := hstock.mirror ht
    rw [show (job.commitBuy c.users).getName u = c.users.getName u from hmoves.getName u]
    show (c.db.holding (c.users.getName u) (tickers.getSymbol t)).toInt
      = _ + _ + job.stockAhead .commitSell u t
    omega

/-- The shares leave the frozen ones, and what is available stays. -/
theorem stockSolvent_commitSell {job : SettleJob} (hhand : c.inHand = some (job, .commitSell))
    (hc' : c' = { c with users := job.commitSell c.users, inHand := none }) :
    c'.StockSolvent tickers u t := by
  subst hc'
  have hstock := h.stock u t hu
  have hposition := hstock.position
  have hmoves := job.moves_commitSell (howned.inHand hhand).2
  have hmod := availableStock_modEq (u := u) hmoves (job.record.sells_stock t)
    ((frozenShares u t).sells job.record)
  have hbacking := (frozenShares u t).backing_commitSell hhand (job.commitSell c.users)
  change _ + (shares u t).trade job.record = _ at hbacking
  change _ ≡ _ + _ - -((shares u t).trade job.record : ℤ) [ZMOD 2 ^ 32] at hmod
  have hqty := (h.linked.inHand _ _ hhand).2.qty
  have htrade : ((shares u t).trade job.record : ℤ)
      = if job.record.sellUserId = u ∧ job.record.tickerId = t then
        job.record.qty.toInt else 0 := by
    rw [hqty]
    exact Nat.cast_ite _ _ _
  -- The database has already lost the shares that leave the account now.
  have hahead : c.stockAhead u t = -((shares u t).trade job.record : ℤ) := by
    simp [stockAhead, hhand, job.stockAhead_commitSell, htrade]
  have hzero : (if job.record.sellUserId = u then
      -(Delta.single job.record.tickerId job.record.qty t).toInt else 0)
      = -((shares u t).trade job.record : ℤ) := by
    rw [htrade, ← ite_single]
    split_ifs <;> rfl
  rw [hzero, Int.sub_neg, Int.neg_add_cancel_right] at hmod
  refine StockSolvent.of_modEq hstock.available hmod (by omega)
    (fun job' stage hjob hparty hstage => ?_) (fun ht => ?_)
  · cases hjob
  · have hmirror := hstock.mirror ht
    rw [show (job.commitSell c.users).getName u = c.users.getName u from hmoves.getName u]
    show (c.db.holding (c.users.getName u) (tickers.getSymbol t)).toInt = _ + _ + 0
    omega

end StockEvents

/-- **Every smooth step keeps the shares of an account solvent.** -/
theorem stockSolvent_step (h : c.Solvent tickers) (howned : c.Owned)
    (htracked : c.Tracked tickers) (hids : c.DistinctIds) (hsmooth : c.Smooth e)
    (hstep : Step tickers c e c') (hunique : tickers.SymbolsUnique)
    (hu : c.users.HasAccount u) (t : UInt32) : c'.StockSolvent tickers u t := by
  obtain ⟨_, _, hmoves⟩ := hstep.moves hsmooth.not_create
  have hname := hmoves.getName u
  have hstock := h.stock u t hu
  have havailable := hstock.available
  cases hstep with
  | create uid username => exact absurd hsmooth id
  | freeze o hok =>
      have hle := hstock.freeze hok (hsmooth hok)
      have hbacking := (frozenShares u t).backing_freeze c o (o.freeze c.users).1
      have hspec := (o.freeze_spec c.users).2
      rw [if_pos hok] at hspec
      have hmod := availableStock_modEq hspec (o.freezes_stock t) ((frozenShares u t).freezes o)
      rw [ite_self, Int.add_zero] at hmod
      exact hstock.of_position (by omega) hmod (by omega) rfl hname rfl
  | refuse o hno =>
      have hspec := (o.freeze_spec c.users).2
      rw [hno] at hspec
      have hmod := availableStock_modEq (u := u) (t := t) (n := 0) (w := 0) hspec rfl
        (congrArg (· % 2 ^ 32) ((frozenShares u t).zero _))
      rw [ite_self, Int.add_zero, Int.sub_zero] at hmod
      exact hstock.of_position havailable hmod rfl rfl hname rfl
  | drop o rest unlisted ho =>
      have hsame := (frozenShares u t).backing_drop ho
      exact hstock.of_position havailable rfl (by rw [hsame]) rfl hname rfl
  | market orders records cancels parties listed trades =>
      have hsame := (frozenShares u t).backing_market (trades hids) (records + c.traded)
        (cancels + c.cancelled)
      exact hstock.of_position havailable rfl (by rw [hsame]) rfl hname rfl
  | start rec rest idle hrec =>
      have hsame := (frozenShares u t).backing_start tickers idle hrec
      have hahead : c.stockAhead u t = 0 := by simp [stockAhead, idle]
      have hahead' := (SettleJob.start c.users tickers rec).stockAhead_start u t
      refine ⟨havailable, hsame ▸ hstock.position, fun job stage hjob hparty hstage => ?_,
        fun ht => ?_⟩
      · obtain ⟨-, rfl⟩ := Prod.mk.inj (Option.some.inj hjob)
        cases hstage
      · have hmirror := hstock.mirror ht
        rw [hsame]
        show (c.db.holding (c.users.getName u) (tickers.getSymbol t)).toInt
          = (c.users.availableStock u t).toInt + _
            + (SettleJob.start c.users tickers rec).stockAhead (.call .deductBalance) u t
        omega
  | call job k fault hhand =>
      exact stockSolvent_call h hu howned htracked hunique hhand (hsmooth job k hhand) rfl
  | commitBuy job hhand => exact stockSolvent_commitBuy h hu howned hhand rfl
  | commitSell job hhand => exact stockSolvent_commitSell h hu howned hhand rfl
  | release rec rest idle hrec =>
      have hacc := howned.traders _ (htracked.cancelOwners rec (by simp [hrec]))
      have hmod := availableStock_modEq (u := u) (rec.moves_release hacc) (rec.releases_stock t)
        ((frozenShares u t).releases rec)
      rw [ite_self, Int.add_zero] at hmod
      have hbacking := (frozenShares u t).backing_release hrec (rec.release c.users)
      exact hstock.of_position (by omega) hmod (by omega) rfl hname rfl
  | deposit session amount fault pos =>
      have hholdings : (c.db.updateBalance fault session.username amount).db.holdings
          = c.db.holdings := by
        rw [(c.db.updateBalance_spec fault _ _).2]
        split_ifs <;> rfl
      exact hstock.of_position havailable rfl rfl rfl hname hholdings
  | credit uid amount rest hdep =>
      have hmod := availableStock_modEq (u := u) (t := t) (n := 0) (w := 0)
        (c.users.moves_addBalance uid amount)
        (by split_ifs <;> simp [Delta.addBalance, Delta.zero])
        (by split_ifs <;> simp [frozenShares, Delta.addBalance, Delta.zero])
      rw [ite_self, Int.add_zero, Int.sub_zero] at hmod
      exact hstock.of_position havailable hmod rfl rfl hname rfl

/-! ## Runs -/

/-- **Solvency is kept** by any steps that are smooth. -/
theorem Reaches.solvent (h : Reaches tickers Smooth c c') (hfresh : c.Fresh)
    (hfrozen : c.users.NothingFrozen) (hunique : tickers.SymbolsUnique)
    (hsolvent : c.Solvent tickers) (hids : c'.DistinctIds) : c'.Solvent tickers := by
  induction h with
  | refl => exact hsolvent
  | tail hreach hstep ih =>
      obtain ⟨e, hstep, hsmooth⟩ := hstep
      have hids' := hstep.distinctIds hids
      have hsolvent := ih hids'
      have howned := (Reaches.conserves hreach hfresh.owned).1
      obtain ⟨htracked, hbacked⟩ := Reaches.backed hreach hfresh hids'
      obtain ⟨_, _, hmoves⟩ := hstep.moves hsmooth.not_create
      refine ⟨hsolvent.linked_step howned htracked hstep hsmooth, fun u hu => ?_,
        fun u t hu => ?_⟩
      · exact cashSolvent_step hsolvent howned htracked hids' hsmooth hstep
          (hbacked (frozenCash u) (congrArg Int64.toInt (hfrozen u).1))
          ((hmoves.hasAccount u).mp hu)
      · exact stockSolvent_step hsolvent howned htracked hids' hsmooth hstep hunique
          ((hmoves.hasAccount u).mp hu) t

/-- What is frozen is exactly what backs it. -/
theorem Reaches.frozen_eq (h : Reaches tickers G c c') (hfresh : c.Fresh)
    (hfrozen : c.users.NothingFrozen) (hids : c'.DistinctIds) (hsolvent : c'.Solvent tickers)
    (hu : c'.users.HasAccount u) :
    (c'.users.frozenBalance u).toInt = (frozenCash u).backing c' ∧
      ∀ t, (c'.users.frozenStock u t).toInt = (frozenShares u t).backing c' := by
  obtain ⟨-, hbacked⟩ := Reaches.backed h hfresh hids
  refine ⟨?_, fun t => ?_⟩
  · exact frozenBalance_eq (hbacked (frozenCash u) (congrArg Int64.toInt (hfrozen u).1))
      (hsolvent.cash u hu).backing
  · have havailable := (hsolvent.stock u t hu).available
    have hposition := (hsolvent.stock u t hu).position
    exact frozenStock_eq (hbacked (frozenShares u t) (congrArg Int32.toInt ((hfrozen u).2 t)))
      (by omega)

/-- **Nobody is in debt.** -/
theorem Solvent.nonneg (h : c.Solvent tickers)
    (hfrozen : ∀ u, c.users.HasAccount u →
      (c.users.frozenBalance u).toInt = (frozenCash u).backing c ∧
        ∀ t, (c.users.frozenStock u t).toInt = (frozenShares u t).backing c) (u : UInt64) :
    0 ≤ (c.users.availableBalance u).toInt ∧ 0 ≤ (c.users.frozenBalance u).toInt ∧
      ∀ t, 0 ≤ (c.users.availableStock u t).toInt ∧ 0 ≤ (c.users.frozenStock u t).toInt := by
  by_cases hu : c.users.HasAccount u
  · obtain ⟨hcash, hshares⟩ := hfrozen u hu
    refine ⟨(h.cash u hu).available, ?_, fun t => ⟨(h.stock u t hu).available, ?_⟩⟩
    · rw [hcash]
      exact Int.natCast_nonneg _
    · rw [hshares t]
      exact Int.natCast_nonneg _
  · -- Without an account every number reads as `0`.
    have hread : ∀ {α : Type} (d : α) (f : UserAccount → α), c.users.read d f u = d :=
      fun d f => UserManager.read_of_not_hasAccount d f hu
    unfold UserManager.availableBalance UserManager.frozenBalance UserManager.availableStock
      UserManager.frozenStock
    simp only [hread]
    exact ⟨by decide, by decide, fun _ => ⟨by decide, by decide⟩⟩

/-- The cache and the database agree, with nothing under way. -/
structure Mirrored (users : UserManager) (tickers : TickerManager) (db : Database) : Prop where
  rows : ∀ u name, (db.accounts.lookup name).map AccountRow.id = some u ↔
    users.HasAccount u ∧ users.getName u = name
  balance : ∀ u, users.HasAccount u →
    users.availableBalance u = db.balance (users.getName u)
  holding : ∀ u t, users.HasAccount u → (tickers.idToSymbol.lookup t).isSome →
    users.availableStock u t = db.holding (users.getName u) (tickers.getSymbol t)
  unlisted : ∀ u t, tickers.idToSymbol.lookup t = none → users.availableStock u t = 0
  symbols : tickers.SymbolsUnique

/-- No row is negative. -/
structure NoDebts (db : Database) : Prop where
  balance : ∀ name, 0 ≤ (db.balance name).toInt
  holding : ∀ name symbol, 0 ≤ (db.holding name symbol).toInt

/-- **A fresh clearing house whose cache mirrors its database is solvent.** -/
theorem Fresh.solvent (hfresh : c.Fresh) (hmirrored : Mirrored c.users tickers c.db)
    (hdebts : NoDebts c.db) : c.Solvent tickers := by
  refine ⟨⟨hmirrored.rows, fun job stage hhand => ?_, fun d hd => ?_⟩, fun u hu => ?_,
    fun u t hu => ?_⟩
  · rw [hfresh.inHand] at hhand
    cases hhand
  · rw [hfresh.deposits] at hd
    exact absurd hd (Multiset.notMem_zero d)
  · have hcredit : c.toCredit u = 0 := by simp [toCredit, credits, hfresh.deposits]
    have hahead : c.cashAhead u = 0 := by simp [cashAhead, hfresh.inHand]
    have hbalance := hmirrored.balance u hu
    have hnonneg := hdebts.balance (c.users.getName u)
    refine ⟨by rw [hbalance]; exact hnonneg, by rw [hfresh.backing]; decide, ?_⟩
    rw [hfresh.backing, hbalance, hcredit, hahead]
    simp
  · have hahead : c.stockAhead u t = 0 := by simp [stockAhead, hfresh.inHand]
    have hnonneg : 0 ≤ (c.users.availableStock u t).toInt := by
      cases hlookup : tickers.idToSymbol.lookup t with
      | none =>
          rw [hmirrored.unlisted u t hlookup]
          decide
      | some symbol =>
          rw [hmirrored.holding u t hu (by rw [hlookup]; rfl)]
          exact hdebts.holding _ _
    have hlt := (c.users.availableStock u t).toInt_lt
    refine ⟨hnonneg, ?_, fun job stage hhand => ?_, fun ht => ?_⟩
    · rw [hfresh.backing]
      omega
    · rw [hfresh.inHand] at hhand
      cases hhand
    · rw [hfresh.backing, hahead, hmirrored.holding u t hu ht]
      simp

end Clearing

end ExchangeServer
