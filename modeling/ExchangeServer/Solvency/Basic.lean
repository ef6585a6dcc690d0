import Mathlib.Algebra.Order.BigOperators.Group.Multiset
import ExchangeServer.Backing

/-!
# Solvency

The assets of a user are kept twice, in the cache and in the database, and settlement
and deposits write the database first.  `Solvent` relates the two in every state: the
balance of a row is what the account has available, what backs its frozen cash, what
deposits still have to bring, and what the calls already made for the record in hand
have written ahead of the accounts.  Holdings are treated in the same way.

From this the machine integers are seen not to wrap, no asset becomes negative, and the
guards of the two `deduct` statements hold when settlement gets to them.  It takes
distinct order ids, statements that do not fail, and freezes that fit: an accepted buy
must not push `frozen_balance` beyond an `int64_t`.
-/

namespace ExchangeServer

open Lib PriceTime

/-! ## Ahead of the accounts -/

/-- The call has been made, and the account update it belongs to has not. -/
def SettleStage.ahead (stage : SettleStage) : SettleCall → Bool
  | .deductBalance => stage ∈ [.call .updateStockHolding, .call .updateBalance,
      .call .deductStockHolding, .commitBuy]
  | .updateStockHolding => stage ∈ [.call .updateBalance, .call .deductStockHolding, .commitBuy]
  | .updateBalance => stage ∈ [.call .deductStockHolding, .commitBuy, .commitSell]
  | .deductStockHolding => stage ∈ [.commitBuy, .commitSell]

namespace SettleJob

/-- How much more cash of `u` the database has than the accounts, on account of the
record. -/
def cashAhead (job : SettleJob) (stage : SettleStage) (u : UInt64) : ℤ :=
  (if job.record.sellUserId = u ∧ stage.ahead .updateBalance then
    job.record.sellMoney.toInt else 0)
  - (if job.record.buyerUserId = u ∧ stage.ahead .deductBalance then
    job.record.sellMoney.toInt else 0)

/-- The same for the shares of `u` in `t`. -/
def stockAhead (job : SettleJob) (stage : SettleStage) (u : UInt64) (t : UInt32) : ℤ :=
  (if (job.record.buyerUserId = u ∧ job.record.tickerId = t) ∧
      stage.ahead .updateStockHolding then job.record.qty.toInt else 0)
  - (if (job.record.sellUserId = u ∧ job.record.tickerId = t) ∧
      stage.ahead .deductStockHolding then job.record.qty.toInt else 0)

variable (job : SettleJob) (u : UInt64) (t : UInt32)

theorem cashAhead_start : job.cashAhead (.call .deductBalance) u = 0 := by
  simp [cashAhead, SettleStage.ahead]

theorem cashAhead_commitBuy : job.cashAhead .commitBuy u
    = (if job.record.sellUserId = u then job.record.sellMoney.toInt else 0)
      - (if job.record.buyerUserId = u then job.record.sellMoney.toInt else 0) := by
  simp [cashAhead, SettleStage.ahead]

theorem cashAhead_commitSell : job.cashAhead .commitSell u
    = if job.record.sellUserId = u then job.record.sellMoney.toInt else 0 := by
  simp [cashAhead, SettleStage.ahead]

theorem stockAhead_start : job.stockAhead (.call .deductBalance) u t = 0 := by
  simp [stockAhead, SettleStage.ahead]

theorem stockAhead_commitBuy : job.stockAhead .commitBuy u t
    = (if job.record.buyerUserId = u ∧ job.record.tickerId = t then job.record.qty.toInt else 0)
      - (if job.record.sellUserId = u ∧ job.record.tickerId = t then
        job.record.qty.toInt else 0) := by
  simp [stockAhead, SettleStage.ahead]

theorem stockAhead_commitSell : job.stockAhead .commitSell u t
    = -(if job.record.sellUserId = u ∧ job.record.tickerId = t then
      job.record.qty.toInt else 0) := by
  simp [stockAhead, SettleStage.ahead]

end SettleJob

/-- The amounts of the record are what they are in integers. -/
structure MatchRecord.Exact (rec : MatchRecord) : Prop where
  sellMoney : rec.sellMoney.toInt = (rec.matchPrice.toNat * rec.matchQuantity.toNat : ℕ)
  qty : rec.qty.toInt = rec.matchQuantity.toNat

/-- `symbol` is a unique column of `stocks`. -/
def TickerManager.SymbolsUnique (tickers : TickerManager) : Prop :=
  ∀ t t', (tickers.idToSymbol.lookup t).isSome → (tickers.idToSymbol.lookup t').isSome →
    tickers.getSymbol t = tickers.getSymbol t' → t = t'

/-- The freeze of the order fits the frozen amount of the account. -/
def Order.FreezeFits (o : Order) (users : UserManager) : Prop :=
  match o.side with
  | .buy => (users.frozenBalance o.userId).toInt + (o.price.toNat * o.quantity.toNat : ℕ)
      < 2 ^ 63
  | .sell => o.quantity.toNat < 2 ^ 31

namespace Clearing

/-- What deposits bring to the account of `u`. -/
def credits (u : UInt64) (deposits : Multiset (UInt64 × Int64)) : ℤ :=
  (deposits.map fun d => if d.1 = u then d.2.toInt else 0).sum

theorem credits_cons (u uid : UInt64) (amount : Int64) (rest : Multiset (UInt64 × Int64)) :
    credits u ((uid, amount) ::ₘ rest)
      = (if uid = u then amount.toInt else 0) + credits u rest := by
  unfold credits
  rw [Multiset.map_cons, Multiset.sum_cons]

/-- What is still to be brought there. -/
def toCredit (c : Clearing) (u : UInt64) : ℤ :=
  credits u c.deposits

def cashAhead (c : Clearing) (u : UInt64) : ℤ :=
  c.inHand.elim 0 fun hand => hand.1.cashAhead hand.2 u

def stockAhead (c : Clearing) (u : UInt64) (t : UInt32) : ℤ :=
  c.inHand.elim 0 fun hand => hand.1.stockAhead hand.2 u t

/-- Nobody registers, no statement fails, a deposit is made under the name of the row of
its user, and an accepted order has a freeze that fits. -/
def Smooth (c : Clearing) : Event → Prop
  | .create _ _ => False
  | .freeze o => (o.freeze c.users).2 = true → o.FreezeFits c.users
  | .call fault => ∀ job k, c.inHand = some (job, .call k) →
      (job.execute k fault c.db).error = false
  | .deposit session amount fault => 0 < amount →
      (c.db.updateBalance fault session.username amount).error = false ∧
        (c.db.accounts.lookup session.username).map AccountRow.id = some session.userId
  | _ => True

/-- The accounts are those of the rows, the record in hand goes by the names of its
parties and is exact, and deposits bring something. -/
structure Linked (tickers : TickerManager) (c : Clearing) : Prop where
  rows : ∀ u name, (c.db.accounts.lookup name).map AccountRow.id = some u ↔
    c.users.HasAccount u ∧ c.users.getName u = name
  inHand : ∀ job stage, c.inHand = some (job, stage) →
    job = SettleJob.start c.users tickers job.record ∧ job.record.Exact
  deposits : ∀ d ∈ c.deposits, 0 < d.2.toInt

/-- The cash of `u`. -/
structure CashSolvent (c : Clearing) (u : UInt64) : Prop where
  available : 0 ≤ (c.users.availableBalance u).toInt
  backing : (frozenCash u).backing c < 2 ^ 63
  mirror : (c.db.balance (c.users.getName u)).toInt
    = (c.users.availableBalance u).toInt + (frozenCash u).backing c + c.toCredit u
      + c.cashAhead u

/-- The shares of `u` in `t`. -/
structure StockSolvent (tickers : TickerManager) (c : Clearing) (u : UInt64) (t : UInt32) :
    Prop where
  available : 0 ≤ (c.users.availableStock u t).toInt
  position : (c.users.availableStock u t).toInt + (frozenShares u t).backing c < 2 ^ 31
  /-- Shares that are in the database already fit the account as well. -/
  received : ∀ job stage, c.inHand = some (job, stage) →
    job.record.buyerUserId = u ∧ job.record.tickerId = t →
    stage.ahead .updateStockHolding = true →
    (c.users.availableStock u t).toInt + (frozenShares u t).backing c + job.record.qty.toInt
      < 2 ^ 31
  mirror : (tickers.idToSymbol.lookup t).isSome →
    (c.db.holding (c.users.getName u) (tickers.getSymbol t)).toInt
      = (c.users.availableStock u t).toInt + (frozenShares u t).backing c + c.stockAhead u t

/-- **The cache and the database agree up to what is under way**, and nothing is
negative. -/
structure Solvent (tickers : TickerManager) (c : Clearing) : Prop where
  linked : c.Linked tickers
  cash : ∀ u, c.users.HasAccount u → c.CashSolvent u
  stock : ∀ u t, c.users.HasAccount u → c.StockSolvent tickers u t

variable {tickers : TickerManager} {G : Clearing → Event → Prop} {c c' : Clearing} {e : Event}
  {u : UInt64} {t : UInt32}

/-! ## The names -/

/-- Every step but a registration moves something on one account. -/
theorem Step.moves (h : Step tickers c e c') (hcreate : ∀ uid name, e ≠ .create uid name) :
    ∃ uid δ, c.users.Moves uid δ c'.users := by
  -- An operation on an account moves what it adds, or nothing.
  have hmodify : ∀ {uid g δ}, UserAccount.Adds g δ →
      ∃ uid' δ', c.users.Moves uid' δ' (c.users.modifyAccount uid g) := by
    intro uid g δ hadds
    by_cases hacc : c.users.HasAccount uid
    · exact ⟨uid, δ, UserManager.moves_modifyAccount hadds hacc⟩
    · exact ⟨uid, Delta.zero, UserManager.moves_of_not_hasAccount g hacc⟩
  cases h with
  | create uid username => exact absurd rfl (hcreate uid username)
  | freeze o hok => exact ⟨_, _, (o.freeze_spec c.users).2⟩
  | refuse o hno => exact ⟨_, _, (o.freeze_spec c.users).2⟩
  | commitBuy job hhand => exact hmodify (UserAccount.adds_commitBuy ..)
  | commitSell job hhand => exact hmodify (UserAccount.adds_commitSell ..)
  | release rec rest idle hrec =>
      unfold CancelRecord.release
      cases rec.side with
      | buy => exact hmodify (UserAccount.adds_unfreezeBalance _)
      | sell => exact hmodify (UserAccount.adds_unfreezeStock _ _)
  | credit uid amount rest hdep => exact hmodify (UserAccount.adds_addBalance amount)
  | _ => exact ⟨0, Delta.zero, UserManager.Moves.refl _ _⟩

theorem Smooth.not_create (h : c.Smooth e) (uid : UInt64) (name : String) :
    e ≠ .create uid name := by
  rintro rfl
  exact h

section Linked

variable (h : c.Linked tickers)
include h

theorem Linked.isSome_lookup (hu : c.users.HasAccount u) :
    (c.db.accounts.lookup (c.users.getName u)).isSome := by
  have hrow := (h.rows u _).mpr ⟨hu, rfl⟩
  rw [← Option.isSome_map, hrow]
  rfl

/-- Different users have different names. -/
theorem Linked.getName_inj {v : UInt64} (hu : c.users.HasAccount u) (hv : c.users.HasAccount v) :
    c.users.getName u = c.users.getName v ↔ v = u := by
  constructor
  · intro hname
    have hrow := (h.rows u _).mpr ⟨hu, rfl⟩
    rw [hname, (h.rows v _).mpr ⟨hv, rfl⟩] at hrow
    exact Option.some.inj hrow
  · rintro rfl
    rfl

variable {job : SettleJob} {stage : SettleStage} (hhand : c.inHand = some (job, stage))
include hhand

theorem Linked.buyerName : job.buyerName = c.users.getName job.record.buyerUserId :=
  congrArg SettleJob.buyerName (h.inHand job stage hhand).1

theorem Linked.sellerName : job.sellerName = c.users.getName job.record.sellUserId :=
  congrArg SettleJob.sellerName (h.inHand job stage hhand).1

theorem Linked.symbol : job.symbol = tickers.getSymbol job.record.tickerId :=
  congrArg SettleJob.symbol (h.inHand job stage hhand).1

end Linked

/-- A repository call leaves the rows to their users. -/
theorem id_execute (job : SettleJob) (k : SettleCall) (fault : Option Fault) (db : Database)
    (name : String) :
    ((job.execute k fault db).db.accounts.lookup name).map AccountRow.id
      = (db.accounts.lookup name).map AccountRow.id := by
  cases k with
  | deductBalance =>
      show ((db.deductBalance fault _ _).db.accounts.lookup name).map _ = _
      rw [(db.deductBalance_spec fault _ _).2]
      split_ifs
      · exact db.id_setBalance ..
      · rfl
  | updateStockHolding =>
      show ((db.updateStockHolding fault _ _ _).db.accounts.lookup name).map _ = _
      rw [(db.updateStockHolding_spec fault _ _ _).2]
      split_ifs <;> rfl
  | updateBalance =>
      show ((db.updateBalance fault _ _).db.accounts.lookup name).map _ = _
      rw [(db.updateBalance_spec fault _ _).2]
      split_ifs
      · exact db.id_setBalance ..
      · rfl
  | deductStockHolding =>
      show ((db.deductStockHolding fault _ _ _).db.accounts.lookup name).map _ = _
      rw [(db.deductStockHolding_spec fault _ _ _).2]
      split_ifs <;> rfl

/-! ## The record in hand -/

/-- A record that is pending for a meter is part of what backs it. -/
theorem trade_le_backing (M : Meter) {rec : MatchRecord} (h : rec ∈ M.pending c) :
    M.V.trade rec ≤ M.backing c := by
  have hle := M.V.trade_le h
  unfold Meter.backing
  omega

theorem mem_unbought {job : SettleJob} {stage : SettleStage}
    (hhand : c.inHand = some (job, stage)) (hstage : stage ≠ .commitSell) :
    job.record ∈ c.unbought := by
  refine Multiset.mem_add.mpr (Or.inl ?_)
  unfold buying
  rw [hhand]
  cases stage with
  | commitSell => exact absurd rfl hstage
  | _ => exact Multiset.mem_singleton_self _

theorem mem_unsold {job : SettleJob} {stage : SettleStage}
    (hhand : c.inHand = some (job, stage)) : job.record ∈ c.unsold := by
  refine Multiset.mem_add.mpr (Or.inl ?_)
  unfold selling
  rw [hhand]
  exact Multiset.mem_singleton_self _

theorem cash_trade_self (rec : MatchRecord) : (cash rec.buyerUserId).trade rec
    = rec.buyerExpectedPrice.toNat * rec.matchQuantity.toNat :=
  if_pos rfl

theorem shares_trade_self (rec : MatchRecord) :
    (shares rec.sellUserId rec.tickerId).trade rec = rec.matchQuantity.toNat :=
  if_pos ⟨rfl, rfl⟩

/-- The price is within what the buyer expected to pay. -/
theorem price_le {rec : MatchRecord} (h : rec.matchPrice ≤ rec.buyerExpectedPrice) :
    rec.matchPrice.toNat * rec.matchQuantity.toNat
      ≤ rec.buyerExpectedPrice.toNat * rec.matchQuantity.toNat :=
  Nat.mul_le_mul_right _ (UInt64.le_iff_toNat_le.mp h)

/-- A record that the frozen assets of its parties back has exact amounts. -/
theorem exact_of_backed {rec : MatchRecord} (hprice : rec.matchPrice ≤ rec.buyerExpectedPrice)
    (hcash : rec.buyerExpectedPrice.toNat * rec.matchQuantity.toNat < 2 ^ 63)
    (hshares : rec.matchQuantity.toNat < 2 ^ 31) : rec.Exact := by
  have hle := price_le hprice
  have hproduct : (rec.matchPrice * rec.matchQuantity).toNat
      = rec.matchPrice.toNat * rec.matchQuantity.toNat := uint64_mul_of_range (by omega)
  refine ⟨?_, narrow_of_range hshares⟩
  rw [MatchRecord.sellMoney, toInt64_of_range (by omega), hproduct]

/-- What was written ahead of the accounts is no more than what is frozen for it. -/
theorem neg_backing_le_cashAhead (hlinked : c.Linked tickers) (htracked : c.Tracked tickers)
    (u : UInt64) : -((frozenCash u).backing c : ℤ) ≤ c.cashAhead u := by
  unfold cashAhead
  cases hhand : c.inHand with
  | none => simp
  | some hand =>
      obtain ⟨job, stage⟩ := hand
      have hexact := (hlinked.inHand job stage hhand).2.sellMoney
      have hle := price_le (htracked.sound _ (mem_unsold hhand)).2.1
      have hseller : 0 ≤ (if job.record.sellUserId = u ∧ stage.ahead .updateBalance then
          job.record.sellMoney.toInt else 0) := by
        split_ifs <;> omega
      have hbuyer : (if job.record.buyerUserId = u ∧ stage.ahead .deductBalance then
          job.record.sellMoney.toInt else 0) ≤ ((frozenCash u).backing c : ℤ) := by
        split_ifs with hbuyer
        · obtain ⟨rfl, hahead⟩ := hbuyer
          have hstage : stage ≠ .commitSell := by
            rintro rfl
            cases hahead
          have htrade := trade_le_backing (frozenCash job.record.buyerUserId)
            (mem_unbought hhand hstage)
          change (cash job.record.buyerUserId).trade job.record ≤ _ at htrade
          rw [cash_trade_self] at htrade
          omega
        · omega
      simp only [Option.elim_some, SettleJob.cashAhead]
      omega

theorem toCredit_nonneg (hlinked : c.Linked tickers) (u : UInt64) : 0 ≤ c.toCredit u := by
  refine Multiset.sum_nonneg fun x hx => ?_
  obtain ⟨d, hd, rfl⟩ := Multiset.mem_map.mp hx
  have hpos := hlinked.deposits d hd
  split_ifs <;> omega

/-! ## The guards -/

section Guards

variable (h : c.Solvent tickers) (howned : c.Owned) (htracked : c.Tracked tickers)
  {job : SettleJob}
include h howned htracked

/-- **The buyer's row covers the price** when `deductBalance` is called. -/
theorem Solvent.canDebit (hhand : c.inHand = some (job, .call .deductBalance)) :
    c.db.CanDebit job.buyerName job.record.sellMoney := by
  have hacc := (howned.inHand hhand).1
  obtain ⟨row, hrow⟩ := Option.isSome_iff_exists.mp (h.linked.isSome_lookup hacc)
  have hcash := h.cash _ hacc
  have hmirror := hcash.mirror
  have hexact := (h.linked.inHand _ _ hhand).2.sellMoney
  have hle := price_le (htracked.sound _ (mem_unsold hhand)).2.1
  have htrade := trade_le_backing (frozenCash job.record.buyerUserId)
    (mem_unbought hhand (by simp))
  change (ExchangeServer.cash job.record.buyerUserId).trade job.record ≤ _ at htrade
  rw [cash_trade_self] at htrade
  have hahead : c.cashAhead job.record.buyerUserId = 0 := by
    simp [cashAhead, hhand, SettleJob.cashAhead, SettleStage.ahead]
  have hcredit := toCredit_nonneg h.linked job.record.buyerUserId
  have havailable := hcash.available
  have hhigh := row.balance.toInt_lt
  rw [Database.balance_of_lookup hrow, hahead] at hmirror
  rw [h.linked.buyerName hhand]
  refine ⟨row, hrow, ?_, ?_, ?_⟩ <;> omega

/-- **The seller's row covers the shares** when `deductStockHolding` is called. -/
theorem Solvent.canDeliver (hhand : c.inHand = some (job, .call .deductStockHolding)) :
    c.db.CanDeliver job.sellerName job.symbol job.record.qty := by
  have hacc := (howned.inHand hhand).2
  obtain ⟨hlisted, -, hpos⟩ := htracked.sound _ (mem_unsold hhand)
  have hstock := h.stock _ job.record.tickerId hacc
  have hmirror := hstock.mirror hlisted
  have hexact := (h.linked.inHand _ _ hhand).2.qty
  have htrade := trade_le_backing (frozenShares job.record.sellUserId job.record.tickerId)
    (mem_unsold hhand)
  change (shares job.record.sellUserId job.record.tickerId).trade job.record ≤ _ at htrade
  rw [shares_trade_self] at htrade
  have hpos' : 0 < job.record.matchQuantity.toNat := UInt64.lt_iff_toNat_lt.mp hpos
  have hahead : 0 ≤ c.stockAhead job.record.sellUserId job.record.tickerId := by
    simp only [stockAhead, hhand, Option.elim_some, SettleJob.stockAhead, SettleStage.ahead]
    split_ifs <;> simp_all
  have havailable := hstock.available
  rw [h.linked.sellerName hhand, h.linked.symbol hhand]
  -- A row that is missing would read as no shares.
  cases hrow : c.db.holdings.lookup (c.users.getName job.record.sellUserId,
      tickers.getSymbol job.record.tickerId) with
  | none =>
      rw [Database.holding, hrow] at hmirror
      change (0 : ℤ) = _ at hmirror
      omega
  | some quantity =>
      rw [Database.holding, hrow, Option.getD_some] at hmirror
      have hhigh := quantity.toInt_lt
      refine ⟨quantity, hrow, ?_, ?_, ?_⟩ <;> omega

/-- **No statement is refused**: without a database error every call writes its row. -/
theorem Solvent.applied {k : SettleCall} {fault : Option Fault}
    (hhand : c.inHand = some (job, .call k))
    (herror : (job.execute k fault c.db).error = false) :
    (job.execute k fault c.db).applied = true := by
  cases k with
  | deductBalance =>
      exact (c.db.deductBalance_spec fault _ _).1.mpr
        ⟨Database.deductBalance_fault herror, h.canDebit howned htracked hhand⟩
  | updateStockHolding =>
      exact (c.db.updateStockHolding_spec fault _ _ _).1.mpr
        (Database.canReceive_of_no_error herror)
  | updateBalance =>
      refine (c.db.updateBalance_spec fault _ _).1.mpr
        (Database.canCredit_of_no_error ?_ herror)
      rw [h.linked.sellerName hhand]
      exact h.linked.isSome_lookup (howned.inHand hhand).2
  | deductStockHolding =>
      exact (c.db.deductStockHolding_spec fault _ _ _).1.mpr
        ⟨Database.deductStockHolding_fault herror, h.canDeliver howned htracked hhand⟩

end Guards

/-! ## What a call writes -/

section Execute

variable (hlinked : c.Linked tickers) (howned : c.Owned) {job : SettleJob} {k : SettleCall}
  {fault : Option Fault} (hhand : c.inHand = some (job, .call k))
  (happlied : (job.execute k fault c.db).applied = true) (hu : c.users.HasAccount u)
include hlinked howned hhand happlied hu

/-- **A call writes to the balances what the record is then ahead by.** -/
theorem balance_execute :
    ((job.execute k fault c.db).db.balance (c.users.getName u)).toInt
      = (c.db.balance (c.users.getName u)).toInt
        + (job.cashAhead k.next u - job.cashAhead (.call k) u) := by
  obtain ⟨hbuyer, hseller⟩ := howned.inHand hhand
  cases k with
  | deductBalance =>
      refine (Database.balance_deductBalance happlied _).trans ?_
      simp only [hlinked.buyerName hhand, hlinked.getName_inj hu hbuyer, SettleJob.cashAhead,
        SettleStage.ahead, SettleCall.next]
      simp [Int.sub_eq_add_neg]
  | updateStockHolding =>
      show ((c.db.updateStockHolding fault _ _ _).db.balance _).toInt = _
      rw [(c.db.updateStockHolding_spec fault _ _ _).2]
      split_ifs <;> simp [SettleJob.cashAhead, SettleStage.ahead, SettleCall.next]
  | updateBalance =>
      refine (Database.balance_updateBalance happlied _).trans ?_
      simp only [hlinked.sellerName hhand, hlinked.getName_inj hu hseller, SettleJob.cashAhead,
        SettleStage.ahead, SettleCall.next]
      simp
  | deductStockHolding =>
      show ((c.db.deductStockHolding fault _ _ _).db.balance _).toInt = _
      rw [(c.db.deductStockHolding_spec fault _ _ _).2]
      split_ifs <;> simp [SettleJob.cashAhead, SettleStage.ahead, SettleCall.next]

/-- **A call writes to the holdings what the record is then ahead by.** -/
theorem holding_execute (hunique : tickers.SymbolsUnique)
    (hlisted : (tickers.idToSymbol.lookup job.record.tickerId).isSome)
    (ht : (tickers.idToSymbol.lookup t).isSome) :
    ((job.execute k fault c.db).db.holding (c.users.getName u) (tickers.getSymbol t)).toInt
      = (c.db.holding (c.users.getName u) (tickers.getSymbol t)).toInt
        + (job.stockAhead k.next u t - job.stockAhead (.call k) u t) := by
  obtain ⟨hbuyer, hseller⟩ := howned.inHand hhand
  have hsymbol : tickers.getSymbol t = job.symbol ↔ job.record.tickerId = t := by
    rw [hlinked.symbol hhand]
    constructor
    · intro heq
      exact (hunique t _ ht hlisted heq).symm
    · rintro rfl
      rfl
  cases k with
  | deductBalance =>
      show ((c.db.deductBalance fault _ _).db.holding _ _).toInt = _
      rw [(c.db.deductBalance_spec fault _ _).2]
      split_ifs <;> simp [SettleJob.stockAhead, SettleStage.ahead, SettleCall.next]
  | updateStockHolding =>
      refine (Database.holding_updateStockHolding happlied _ _).trans ?_
      simp only [Prod.mk.injEq, hsymbol, hlinked.buyerName hhand, hlinked.getName_inj hu hbuyer,
        SettleJob.stockAhead, SettleStage.ahead, SettleCall.next]
      simp
  | updateBalance =>
      show ((c.db.updateBalance fault _ _).db.holding _ _).toInt = _
      rw [(c.db.updateBalance_spec fault _ _).2]
      split_ifs <;> simp [SettleJob.stockAhead, SettleStage.ahead, SettleCall.next]
  | deductStockHolding =>
      refine (Database.holding_deductStockHolding happlied _ _).trans ?_
      simp only [Prod.mk.injEq, hsymbol, hlinked.sellerName hhand,
        hlinked.getName_inj hu hseller, SettleJob.stockAhead, SettleStage.ahead, SettleCall.next]
      simp
      omega

end Execute

/-! ## Links -/

/-- No step changes whose row it is. -/
theorem Step.id_eq (h : Step tickers c e c') (name : String) :
    (c'.db.accounts.lookup name).map AccountRow.id
      = (c.db.accounts.lookup name).map AccountRow.id := by
  cases h with
  | call job k fault hhand => exact id_execute job k fault c.db name
  | deposit session amount fault pos =>
      show ((c.db.updateBalance fault _ _).db.accounts.lookup name).map _ = _
      rw [(c.db.updateBalance_spec fault _ _).2]
      split_ifs
      · exact c.db.id_setBalance ..
      · rfl
  | _ => rfl

/-- The record in hand was so before, or was waiting. -/
theorem Step.inHand_cases (h : Step tickers c e c') {job : SettleJob} {stage : SettleStage}
    (hhand : c'.inHand = some (job, stage)) :
    (∃ stage', c.inHand = some (job, stage')) ∨
      (job = SettleJob.start c.users tickers job.record ∧ job.record ∈ c.records) := by
  cases h with
  | start rec rest idle hrec =>
      obtain ⟨rfl, -⟩ := Prod.mk.inj (Option.some.inj hhand)
      exact Or.inr ⟨rfl, hrec ▸ Multiset.mem_cons_self rec rest⟩
  | call job' k fault hhand' =>
      obtain ⟨rfl, -⟩ := Prod.mk.inj (Option.some.inj hhand)
      exact Or.inl ⟨_, hhand'⟩
  | commitBuy job' hhand' =>
      obtain ⟨rfl, -⟩ := Prod.mk.inj (Option.some.inj hhand)
      exact Or.inl ⟨_, hhand'⟩
  | commitSell job' hhand' => cases hhand
  | _ => exact Or.inl ⟨stage, hhand⟩

/-- A record that waits for settlement is exact. -/
theorem Solvent.exact (h : c.Solvent tickers) (howned : c.Owned) (htracked : c.Tracked tickers)
    {rec : MatchRecord} (hrec : rec ∈ c.records) : rec.Exact := by
  have hunsold : rec ∈ c.unsold := Multiset.mem_add.mpr (Or.inr hrec)
  obtain ⟨hbuyer, hseller⟩ := howned.unsold rec hunsold
  have hcash := (h.cash _ (howned.traders _ hbuyer)).backing
  have hstock := h.stock _ rec.tickerId (howned.traders _ hseller)
  have havailable := hstock.available
  have hposition := hstock.position
  have htradeCash := trade_le_backing (frozenCash rec.buyerUserId)
    (Multiset.mem_add.mpr (Or.inr hrec) : rec ∈ c.unbought)
  have htradeShares := trade_le_backing (frozenShares rec.sellUserId rec.tickerId) hunsold
  change (ExchangeServer.cash rec.buyerUserId).trade rec ≤ _ at htradeCash
  change (shares rec.sellUserId rec.tickerId).trade rec ≤ _ at htradeShares
  rw [cash_trade_self] at htradeCash
  rw [shares_trade_self] at htradeShares
  exact exact_of_backed (htracked.sound rec hunsold).2.1 (by omega) (by omega)

theorem Solvent.linked_step (h : c.Solvent tickers) (howned : c.Owned)
    (htracked : c.Tracked tickers) (hstep : Step tickers c e c') (hsmooth : c.Smooth e) :
    c'.Linked tickers := by
  obtain ⟨uid, δ, hmoves⟩ := hstep.moves hsmooth.not_create
  refine ⟨fun u name => ?_, fun job stage hhand => ?_, ?_⟩
  · rw [hstep.id_eq, hmoves.hasAccount, hmoves.getName]
    exact h.linked.rows u name
  · have hstart : ∀ rec, SettleJob.start c'.users tickers rec
        = SettleJob.start c.users tickers rec := by
      intro rec
      unfold SettleJob.start
      rw [hmoves.getName, hmoves.getName]
    rw [hstart]
    rcases hstep.inHand_cases hhand with ⟨stage', hhand⟩ | ⟨hjob, hrec⟩
    · exact h.linked.inHand job stage' hhand
    · exact ⟨hjob, h.exact howned htracked hrec⟩
  · cases hstep with
    | deposit session amount fault pos =>
        intro d hd
        change d ∈ (if _ then _ else _) at hd
        split_ifs at hd
        · rcases Multiset.mem_cons.mp hd with rfl | hd
          · exact Int64.lt_iff_toInt_lt.mp pos
          · exact h.linked.deposits d hd
        · exact h.linked.deposits d hd
    | credit uid amount rest hdep =>
        intro d hd
        exact h.linked.deposits d (hdep ▸ Multiset.mem_cons_of_mem hd)
    | _ => exact h.linked.deposits

end Clearing

end ExchangeServer
