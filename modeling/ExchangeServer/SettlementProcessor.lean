import ExchangeServer.Lib.ProducerQueue
import ExchangeServer.OrderBookProcessor
import ExchangeServer.Repositories
import ExchangeServer.UserManager

/-!
# Settlement

`SettlementProcessor.hpp`.  One thread takes match records and cancel records from
two queues.  For a match record it makes four repository calls and then the two
account updates; for a cancel record it releases what the order still had frozen.
Nothing holds a lock over a whole record, so every call is a step of its own, and
the names and the symbol it needs are read once, before the first call.

The four calls are made one after the other and their results are not looked at.
`settle_applied` says exactly which of them write, and `allOrNothing_iff` when
that is all of them or none.
-/

namespace ExchangeServer

open Lib PriceTime

/-- `TickerManager`: the symbol of every listed ticker. -/
structure TickerManager where
  idToSymbol : UnorderedMap UInt32 String

/-- `TickerManager::getSymbol`. -/
def TickerManager.getSymbol (m : TickerManager) (tickerId : UInt32) : String :=
  match m.idToSymbol.lookup tickerId with
  | none => "UNKNOWN"
  | some symbol => symbol

/-! ## The amounts of a record -/

namespace MatchRecord

/-- `int64_t sell_money = rec.match_price * rec.match_quantity`. -/
def sellMoney (rec : MatchRecord) : Int64 :=
  (rec.matchPrice * rec.matchQuantity).toInt64

/-- `int64_t refund_money = (rec.buyer_expected_price - rec.match_price) * rec.match_quantity`. -/
def refundMoney (rec : MatchRecord) : Int64 :=
  ((rec.buyerExpectedPrice - rec.matchPrice) * rec.matchQuantity).toInt64

/-- `rec.match_quantity` passed for an `int`. -/
def qty (rec : MatchRecord) : Int32 :=
  rec.matchQuantity.toUInt32.toInt32

end MatchRecord

namespace CancelRecord

/-- `int64_t refund_money = rec.price * rec.quantity`. -/
def refundMoney (rec : CancelRecord) : Int64 :=
  (rec.price * rec.quantity).toInt64

/-- `rec.quantity` passed for an `int`. -/
def qty (rec : CancelRecord) : Int32 :=
  rec.quantity.toUInt32.toInt32

end CancelRecord

/-- Reading a `uint64_t` sum as an `int64_t`. -/
theorem toInt64_add (a b : UInt64) : (a + b).toInt64 = a.toInt64 + b.toInt64 := rfl

/-- Cost and refund together are what was frozen for the shares, also when the
products wrap. -/
theorem MatchRecord.sellMoney_add_refundMoney (rec : MatchRecord) :
    rec.sellMoney + rec.refundMoney
      = (rec.buyerExpectedPrice * rec.matchQuantity).toInt64 := by
  have hsplit : rec.matchPrice * rec.matchQuantity
        + (rec.buyerExpectedPrice - rec.matchPrice) * rec.matchQuantity
      = rec.buyerExpectedPrice * rec.matchQuantity := by
    grind
  rw [sellMoney, refundMoney, ← toInt64_add, hsplit]

/-- **Limit prices are respected and the refund never wraps.**  Every match record
of every run is about a buy and a sell that were submitted; it reports their
owners and the buy's limit, and its price is the maker's limit and within both
limits. -/
theorem match_respects_limits (clock : ℕ → UInt64) (tickerId : UInt32) (ops : List BookOp)
    (hids : FreshIds ops) :
    ∀ rec ∈ (OrderBook.run clock tickerId ops).results,
      ∃ buy ∈ submittedBy ops, ∃ sell ∈ submittedBy ops, ∃ maker ∈ submittedBy ops,
        buy.side = .buy ∧ sell.side = .sell ∧
        ((rec.makerOrderId = sell.orderId ∧ rec.takerOrderId = buy.orderId ∧ maker = sell) ∨
          (rec.makerOrderId = buy.orderId ∧ rec.takerOrderId = sell.orderId ∧ maker = buy)) ∧
        rec.matchPrice = maker.price ∧ rec.buyerExpectedPrice = buy.price ∧
        sell.price ≤ rec.matchPrice ∧ rec.matchPrice ≤ rec.buyerExpectedPrice ∧
        rec.buyerUserId = buy.userId ∧ rec.sellUserId = sell.userId ∧
        (rec.buyerExpectedPrice - rec.matchPrice).toNat
          = rec.buyerExpectedPrice.toNat - rec.matchPrice.toNat ∧
        rec.matchPrice.toNat * rec.matchQuantity.toNat
            + (rec.buyerExpectedPrice - rec.matchPrice).toNat * rec.matchQuantity.toNat
          = rec.buyerExpectedPrice.toNat * rec.matchQuantity.toNat ∧
        rec.sellMoney + rec.refundMoney
          = (rec.buyerExpectedPrice * rec.matchQuantity).toInt64 := by
  intro rec hrec
  have h := run_sim clock tickerId ops hids
  obtain ⟨log, hledger, hfills⟩ := h.ledger
  obtain ⟨f, hf, hrecord⟩ := List.mem_map.mp (h.results ▸ List.mem_map_of_mem hrec)
  have hvalid := hledger.valid _ (hfills f hf)
  obtain ⟨buy, hbuy, sell, hsell, hbs, hss, hbcore, hscore, hparties⟩ := hvalid.parties
  have hm : f.maker.orderId = rec.makerOrderId := congrArg MatchRecord.makerOrderId hrecord
  have ht : f.taker.orderId = rec.takerOrderId := congrArg MatchRecord.takerOrderId hrecord
  have hbu : f.buy.userId = rec.buyerUserId := congrArg MatchRecord.buyerUserId hrecord
  have hsu : f.sell.userId = rec.sellUserId := congrArg MatchRecord.sellUserId hrecord
  have hbp : f.buy.price = rec.buyerExpectedPrice :=
    congrArg MatchRecord.buyerExpectedPrice hrecord
  have hmp : f.maker.price = rec.matchPrice := congrArg MatchRecord.matchPrice hrecord
  obtain ⟨hlow, hhigh⟩ := hvalid.limits
  rw [hmp] at hlow hhigh
  rw [hbp] at hhigh
  rw [Order.price_of_core hscore] at hlow
  have hsub := UInt64.toNat_sub_of_le _ _ hhigh
  have hle := UInt64.le_iff_toNat_le.mp hhigh
  -- The maker is the sell or the buy of the trade, and sets the price.
  have hroles : ∃ maker ∈ submittedBy ops, rec.matchPrice = maker.price ∧
      ((rec.makerOrderId = sell.orderId ∧ rec.takerOrderId = buy.orderId ∧ maker = sell) ∨
        (rec.makerOrderId = buy.orderId ∧ rec.takerOrderId = sell.orderId ∧ maker = buy)) := by
    rcases hparties with ⟨hmaker, htaker⟩ | ⟨hmaker, htaker⟩
    · rw [hmaker, Order.orderId_of_core hscore] at hm
      rw [htaker, Order.orderId_of_core hbcore] at ht
      rw [hmaker, Order.price_of_core hscore] at hmp
      exact ⟨sell, hsell, hmp.symm, Or.inl ⟨hm.symm, ht.symm, rfl⟩⟩
    · rw [hmaker, Order.orderId_of_core hbcore] at hm
      rw [htaker, Order.orderId_of_core hscore] at ht
      rw [hmaker, Order.price_of_core hbcore] at hmp
      exact ⟨buy, hbuy, hmp.symm, Or.inr ⟨hm.symm, ht.symm, rfl⟩⟩
  obtain ⟨maker, hmaker, hprice, hroles⟩ := hroles
  refine ⟨buy, hbuy, sell, hsell, maker, hmaker, hbs, hss, hroles, hprice,
    hbp.symm.trans (Order.price_of_core hbcore), hlow, hhigh,
    hbu.symm.trans (Order.userId_of_core hbcore),
    hsu.symm.trans (Order.userId_of_core hscore), hsub, ?_, rec.sellMoney_add_refundMoney⟩
  rw [hsub, ← Nat.add_mul, Nat.add_sub_cancel' hle]

theorem match_respects_limits_sample :
    FreshIds sampleOps ∧ ∃ rec ∈ (OrderBook.run (fun _ => 0) 7 sampleOps).results,
      rec.matchPrice ≤ rec.buyerExpectedPrice := by
  refine ⟨by decide, ⟨7, 1, 3, 12, 10, 101, 100, 5, 0⟩, by decide, ?_⟩
  obtain ⟨_, _, _, _, _, _, _, _, _, _, _, _, hle, _⟩ :=
    match_respects_limits (fun _ => 0) 7 sampleOps (by decide)
      ⟨7, 1, 3, 12, 10, 101, 100, 5, 0⟩ (by decide)
  exact hle

/-! ## One record -/

/-- The repository calls of one match record, in the order they are made. -/
inductive SettleCall where
  | deductBalance
  | updateStockHolding
  | updateBalance
  | deductStockHolding
deriving DecidableEq, Repr

/-- A match record with the names the loop body looked up for it. -/
structure SettleJob where
  record : MatchRecord
  buyerName : String
  sellerName : String
  symbol : String
deriving DecidableEq, Repr

namespace SettleJob

/-- The head of the loop body. -/
def start (users : UserManager) (tickers : TickerManager) (rec : MatchRecord) : SettleJob where
  record := rec
  buyerName := users.getName rec.buyerUserId
  sellerName := users.getName rec.sellUserId
  symbol := tickers.getSymbol rec.tickerId

/-- One of the four repository calls. -/
def execute (job : SettleJob) (call : SettleCall) (fault : Option Fault) (db : Database) : Call :=
  match call with
  | .deductBalance => db.deductBalance fault job.buyerName job.record.sellMoney
  | .updateStockHolding => db.updateStockHolding fault job.buyerName job.symbol job.record.qty
  | .updateBalance => db.updateBalance fault job.sellerName job.record.sellMoney
  | .deductStockHolding => db.deductStockHolding fault job.sellerName job.symbol job.record.qty

/-- `commitBuy` for the record. -/
def commitBuy (job : SettleJob) (users : UserManager) : UserManager :=
  users.commitBuy job.record.buyerUserId job.record.tickerId job.record.sellMoney job.record.qty
    job.record.refundMoney

/-- `commitSell` for the record. -/
def commitSell (job : SettleJob) (users : UserManager) : UserManager :=
  users.commitSell job.record.sellUserId job.record.tickerId job.record.sellMoney job.record.qty

end SettleJob

/-- The account update of a cancel record. -/
def CancelRecord.release (rec : CancelRecord) (users : UserManager) : UserManager :=
  match rec.side with
  | .buy => users.unfreezeBalance rec.userId rec.refundMoney
  | .sell => users.unfreezeStock rec.userId rec.tickerId rec.qty

/-! ## The loop -/

/-- Where the loop body is in a match record. -/
inductive SettleStage where
  | call (c : SettleCall)
  | commitBuy
  | commitSell
deriving DecidableEq, Repr

/-- The stage after a repository call. -/
def SettleCall.next : SettleCall → SettleStage
  | .deductBalance => .call .updateStockHolding
  | .updateStockHolding => .call .updateBalance
  | .updateBalance => .call .deductStockHolding
  | .deductStockHolding => .commitBuy

/-- `SettlementProcessor`.  `buffer` and `cancelBuffer` hold the records taken from
the queues that are still to be handled, `current` the match record in hand, and
`cancelsNext` says which of the two queues the loop turns to next.  The producers
of both queues are the workers of the tickers. -/
structure SettlementProcessor where
  queue : ProducerQueue UInt32 MatchRecord
  cancelQueue : ProducerQueue UInt32 CancelRecord
  buffer : List MatchRecord
  current : Option (SettleJob × SettleStage)
  cancelBuffer : List CancelRecord
  cancelsNext : Bool

namespace SettlementProcessor

/-- `SettlementProcessor::SettlementProcessor`. -/
def new : SettlementProcessor := ⟨[], [], [], none, [], false⟩

/-- `SettlementProcessor::pushRecords`, called by the worker of `tickerId`. -/
def pushRecords (p : SettlementProcessor) (tickerId : UInt32) (records : List MatchRecord) :
    SettlementProcessor :=
  { p with queue := p.queue.enqueue tickerId records }

/-- `SettlementProcessor::pushCancelRecord`. -/
def pushCancelRecord (p : SettlementProcessor) (tickerId : UInt32) (record : CancelRecord) :
    SettlementProcessor :=
  { p with cancelQueue := p.cancelQueue.enqueue tickerId [record] }

/-- Nothing is left of what was taken from the queues. -/
def Idle (p : SettlementProcessor) : Prop :=
  p.buffer = [] ∧ p.current.isNone ∧ p.cancelBuffer = []

instance (p : SettlementProcessor) : Decidable p.Idle := by
  unfold Idle
  infer_instance

/-- `queue_.try_dequeue_bulk`, served from the workers `picks`. -/
def dequeueRecords (p : SettlementProcessor) (picks : List UInt32) :
    Option SettlementProcessor :=
  if p.Idle ∧ p.cancelsNext = false ∧ picks.length ≤ batchSize then
    (ProducerQueue.dequeueBulk picks p.queue).map fun out =>
      { p with queue := out.2, buffer := out.1, cancelsNext := true }
  else none

/-- The next match record of the batch is taken in hand. -/
def startRecord (p : SettlementProcessor) (users : UserManager) (tickers : TickerManager) :
    Option SettlementProcessor :=
  match p.current, p.buffer with
  | none, rec :: rest =>
      some { p with
        buffer := rest
        current := some (SettleJob.start users tickers rec, .call .deductBalance) }
  | _, _ => none

/-- `cancel_queue_.try_dequeue_bulk`, once the match records are done. -/
def dequeueCancels (p : SettlementProcessor) (picks : List UInt32) :
    Option SettlementProcessor :=
  if p.Idle ∧ p.cancelsNext = true ∧ picks.length ≤ batchSize then
    (ProducerQueue.dequeueBulk picks p.cancelQueue).map fun out =>
      { p with cancelQueue := out.2, cancelBuffer := out.1, cancelsNext := false }
  else none

end SettlementProcessor

/-! ## All or nothing -/

/-- What settling a record did to the database: the tables after it, and which of
the four calls wrote. -/
structure Settled where
  db : Database
  applied : SettleCall → Bool

/-- All four updates of the record took effect, or none did. -/
def Settled.AllOrNothing (s : Settled) : Prop :=
  (∀ c, s.applied c = true) ∨ (∀ c, s.applied c = false)

namespace SettleJob

variable (job : SettleJob) (faults : SettleCall → Option Fault) (db : Database)

/-- The first call, on the tables the record finds. -/
def debit : Call :=
  job.execute .deductBalance (faults .deductBalance) db

/-- The second call. -/
def receive : Call :=
  job.execute .updateStockHolding (faults .updateStockHolding) (job.debit faults db).db

/-- The third call. -/
def credit : Call :=
  job.execute .updateBalance (faults .updateBalance) (job.receive faults db).db

/-- The fourth call. -/
def deliver : Call :=
  job.execute .deductStockHolding (faults .deductStockHolding) (job.credit faults db).db

/-- The four calls, one after the other, whatever each of them returned. -/
def settle : Settled where
  db := (job.deliver faults db).db
  applied
    | .deductBalance => (job.debit faults db).applied
    | .updateStockHolding => (job.receive faults db).applied
    | .updateBalance => (job.credit faults db).applied
    | .deductStockHolding => (job.deliver faults db).applied

/-! ### What each call finds and leaves

The balance calls work on the accounts and the holding calls on the holdings, so
each finds its table as the call before the previous one left it. -/

theorem debit_spec :
    ((job.debit faults db).applied = true ↔
      faults .deductBalance = none ∧ db.CanDebit job.buyerName job.record.sellMoney) ∧
    (job.debit faults db).db =
      if (job.debit faults db).applied then
        db.setBalance job.buyerName (db.balance job.buyerName - job.record.sellMoney)
      else db :=
  db.deductBalance_spec _ _ _

theorem holdings_debit : (job.debit faults db).db.holdings = db.holdings := by
  rw [(job.debit_spec faults db).2]
  split_ifs <;> rfl

theorem receive_spec :
    ((job.receive faults db).applied = true ↔
      faults .updateStockHolding = none ∧
        db.CanReceive job.buyerName job.symbol job.record.qty) ∧
    (job.receive faults db).db.accounts = (job.debit faults db).db.accounts ∧
    (job.receive faults db).db.holdings =
      (if (job.receive faults db).applied then
        db.setHolding job.buyerName job.symbol
          (db.holding job.buyerName job.symbol + job.record.qty)
       else db).holdings := by
  obtain ⟨happlied, hdb⟩ := (job.debit faults db).db.updateStockHolding_spec
    (faults .updateStockHolding) job.buyerName job.symbol job.record.qty
  have hholdings := job.holdings_debit faults db
  rw [Database.canReceive_congr hholdings] at happlied
  have hholding : (job.debit faults db).db.holding job.buyerName job.symbol
      = db.holding job.buyerName job.symbol := by
    unfold Database.holding
    rw [hholdings]
  refine ⟨happlied, ?_, ?_⟩
  · refine (congrArg Database.accounts hdb).trans ?_
    split_ifs <;> rfl
  · refine (congrArg Database.holdings hdb).trans ?_
    unfold receive execute
    split_ifs
    · simp only [Database.setHolding, hholding, hholdings]
    · exact hholdings

theorem credit_spec :
    ((job.credit faults db).applied = true ↔
      faults .updateBalance = none ∧
        (job.debit faults db).db.CanCredit job.sellerName job.record.sellMoney) ∧
    (job.credit faults db).db.accounts =
      (if (job.credit faults db).applied then
        (job.debit faults db).db.setBalance job.sellerName
          ((job.debit faults db).db.balance job.sellerName + job.record.sellMoney)
       else (job.debit faults db).db).accounts ∧
    (job.credit faults db).db.holdings = (job.receive faults db).db.holdings := by
  obtain ⟨happlied, hdb⟩ := (job.receive faults db).db.updateBalance_spec
    (faults .updateBalance) job.sellerName job.record.sellMoney
  have haccounts := (job.receive_spec faults db).2.1
  rw [Database.canCredit_congr haccounts] at happlied
  have hbalance : (job.receive faults db).db.balance job.sellerName
      = (job.debit faults db).db.balance job.sellerName := by
    unfold Database.balance
    rw [haccounts]
  refine ⟨happlied, ?_, ?_⟩
  · refine (congrArg Database.accounts hdb).trans ?_
    unfold credit execute
    split_ifs
    · simp only [Database.setBalance, hbalance, haccounts]
    · exact haccounts
  · refine (congrArg Database.holdings hdb).trans ?_
    split_ifs <;> rfl

theorem deliver_spec :
    ((job.deliver faults db).applied = true ↔
      faults .deductStockHolding = none ∧
        (job.receive faults db).db.CanDeliver job.sellerName job.symbol job.record.qty) ∧
    (job.deliver faults db).db.accounts = (job.credit faults db).db.accounts ∧
    (job.deliver faults db).db.holdings =
      (if (job.deliver faults db).applied then
        (job.receive faults db).db.setHolding job.sellerName job.symbol
          ((job.receive faults db).db.holding job.sellerName job.symbol - job.record.qty)
       else (job.receive faults db).db).holdings := by
  obtain ⟨happlied, hdb⟩ := (job.credit faults db).db.deductStockHolding_spec
    (faults .deductStockHolding) job.sellerName job.symbol job.record.qty
  have hholdings := (job.credit_spec faults db).2.2
  rw [Database.canDeliver_congr hholdings] at happlied
  have hholding : (job.credit faults db).db.holding job.sellerName job.symbol
      = (job.receive faults db).db.holding job.sellerName job.symbol := by
    unfold Database.holding
    rw [hholdings]
  refine ⟨happlied, ?_, ?_⟩
  · refine (congrArg Database.accounts hdb).trans ?_
    split_ifs <;> rfl
  · refine (congrArg Database.holdings hdb).trans ?_
    unfold deliver execute
    split_ifs
    · simp only [Database.setHolding, hholding, hholdings]
    · exact hholdings

/-! ### When all four write, and when none does -/

/-- After the buyer was debited, the seller can be credited: always if they are
the same user, else as before. -/
theorem canCredit_debit (h : (job.debit faults db).applied = true) :
    (job.debit faults db).db.CanCredit job.sellerName job.record.sellMoney ↔
      (job.sellerName ≠ job.buyerName →
        db.CanCredit job.sellerName job.record.sellMoney) := by
  obtain ⟨-, row, hrow, hle, hfits⟩ := (job.debit_spec faults db).1.mp h
  rw [(job.debit_spec faults db).2, if_pos h]
  unfold Database.CanCredit
  by_cases heq : job.sellerName = job.buyerName
  · simp only [heq, ne_eq, not_true_eq_false, false_implies, iff_true]
    refine ⟨{ row with balance := db.balance job.buyerName - job.record.sellMoney }, ?_, ?_⟩
    · rw [Database.lookup_setBalance, if_pos heq, hrow]
      rfl
    · rw [Database.balance_of_lookup hrow, int64_sub_of_range hfits.1 hfits.2]
      have hlow := Int64.le_toInt row.balance
      have hhigh := Int64.toInt_lt row.balance
      constructor <;> omega
  · simp only [heq, ne_eq, not_false_eq_true, true_implies, Database.lookup_setBalance,
      if_false]

/-- After the buyer received the shares, the seller can deliver them: out of what
the buyer had if they are the same user, else as before. -/
theorem canDeliver_receive (h : (job.receive faults db).applied = true) :
    (job.receive faults db).db.CanDeliver job.sellerName job.symbol job.record.qty ↔
      if job.sellerName = job.buyerName then 0 ≤ (db.holding job.buyerName job.symbol).toInt
      else db.CanDeliver job.sellerName job.symbol job.record.qty := by
  obtain ⟨-, hfits⟩ := (job.receive_spec faults db).1.mp h
  have hholdings := (job.receive_spec faults db).2.2
  rw [if_pos h] at hholdings
  rw [Database.canDeliver_congr hholdings]
  unfold Database.CanDeliver
  simp only [Database.lookup_setHolding]
  have hsum := int32_add_of_range hfits.1 hfits.2
  by_cases heq : job.sellerName = job.buyerName
  · have hlow := Int32.le_toInt (db.holding job.buyerName job.symbol)
    have hhigh := Int32.toInt_lt (db.holding job.buyerName job.symbol)
    simp only [heq, if_true, Option.some.injEq, exists_eq_left', hsum]
    constructor
    · rintro ⟨hle, -⟩
      omega
    · intro hle
      refine ⟨by omega, ?_, ?_⟩ <;> omega
  · simp [heq]

/-- The tables can take all four updates of the record, and no statement fails. -/
structure Settleable : Prop where
  faultless : ∀ c, faults c = none
  debit : db.CanDebit job.buyerName job.record.sellMoney
  receive : db.CanReceive job.buyerName job.symbol job.record.qty
  credit : job.sellerName ≠ job.buyerName → db.CanCredit job.sellerName job.record.sellMoney
  deliver : if job.sellerName = job.buyerName then
      0 ≤ (db.holding job.buyerName job.symbol).toInt
    else db.CanDeliver job.sellerName job.symbol job.record.qty

/-- Each of the four statements fails or is one the tables cannot take. -/
structure Refused : Prop where
  debit : faults .deductBalance = none → ¬ db.CanDebit job.buyerName job.record.sellMoney
  receive : faults .updateStockHolding = none →
    ¬ db.CanReceive job.buyerName job.symbol job.record.qty
  credit : faults .updateBalance = none →
    ¬ db.CanCredit job.sellerName job.record.sellMoney
  deliver : faults .deductStockHolding = none →
    ¬ db.CanDeliver job.sellerName job.symbol job.record.qty

theorem settle_all_iff :
    (∀ c, (job.settle faults db).applied c = true) ↔ job.Settleable faults db := by
  constructor
  · intro h
    have hdebit := h .deductBalance
    have hreceive := h .updateStockHolding
    obtain ⟨hf₁, hd⟩ := (job.debit_spec faults db).1.mp hdebit
    obtain ⟨hf₂, hr⟩ := (job.receive_spec faults db).1.mp hreceive
    obtain ⟨hf₃, hc⟩ := (job.credit_spec faults db).1.mp (h .updateBalance)
    obtain ⟨hf₄, hl⟩ := (job.deliver_spec faults db).1.mp (h .deductStockHolding)
    refine ⟨fun c => ?_, hd, hr, ?_, ?_⟩
    · cases c
      · exact hf₁
      · exact hf₂
      · exact hf₃
      · exact hf₄
    · exact (job.canCredit_debit faults db hdebit).mp hc
    · exact (job.canDeliver_receive faults db hreceive).mp hl
  · intro h
    have hdebit := (job.debit_spec faults db).1.mpr ⟨h.faultless _, h.debit⟩
    have hreceive := (job.receive_spec faults db).1.mpr ⟨h.faultless _, h.receive⟩
    intro c
    cases c with
    | deductBalance => exact hdebit
    | updateStockHolding => exact hreceive
    | updateBalance =>
        exact (job.credit_spec faults db).1.mpr
          ⟨h.faultless _, (job.canCredit_debit faults db hdebit).mpr h.credit⟩
    | deductStockHolding =>
        exact (job.deliver_spec faults db).1.mpr
          ⟨h.faultless _, (job.canDeliver_receive faults db hreceive).mpr h.deliver⟩

theorem settle_none_iff :
    (∀ c, (job.settle faults db).applied c = false) ↔ job.Refused faults db := by
  -- A call that writes nothing leaves the tables to the next one as they were.
  have hdebit : (job.debit faults db).applied = false → (job.debit faults db).db = db := by
    intro h
    rw [(job.debit_spec faults db).2, h]
    rfl
  have hreceive : (job.receive faults db).applied = false →
      (job.receive faults db).db.holdings = db.holdings := by
    intro h
    rw [(job.receive_spec faults db).2.2, h]
    rfl
  constructor
  · intro h
    have h₁ := h .deductBalance
    have h₂ := h .updateStockHolding
    have h₃ := h .updateBalance
    have h₄ := h .deductStockHolding
    refine ⟨fun hf hcan => ?_, fun hf hcan => ?_, fun hf hcan => ?_, fun hf hcan => ?_⟩
    · exact Bool.false_ne_true (h₁.symm.trans ((job.debit_spec faults db).1.mpr ⟨hf, hcan⟩))
    · exact Bool.false_ne_true (h₂.symm.trans ((job.receive_spec faults db).1.mpr ⟨hf, hcan⟩))
    · rw [← hdebit h₁] at hcan
      exact Bool.false_ne_true (h₃.symm.trans ((job.credit_spec faults db).1.mpr ⟨hf, hcan⟩))
    · rw [← Database.canDeliver_congr (hreceive h₂)] at hcan
      exact Bool.false_ne_true (h₄.symm.trans ((job.deliver_spec faults db).1.mpr ⟨hf, hcan⟩))
  · intro h
    have h₁ : (job.debit faults db).applied = false := by
      refine Bool.eq_false_iff.mpr fun happ => ?_
      obtain ⟨hf, hcan⟩ := (job.debit_spec faults db).1.mp happ
      exact h.debit hf hcan
    have h₂ : (job.receive faults db).applied = false := by
      refine Bool.eq_false_iff.mpr fun happ => ?_
      obtain ⟨hf, hcan⟩ := (job.receive_spec faults db).1.mp happ
      exact h.receive hf hcan
    intro c
    cases c with
    | deductBalance => exact h₁
    | updateStockHolding => exact h₂
    | updateBalance =>
        refine Bool.eq_false_iff.mpr fun happ => ?_
        obtain ⟨hf, hcan⟩ := (job.credit_spec faults db).1.mp happ
        rw [hdebit h₁] at hcan
        exact h.credit hf hcan
    | deductStockHolding =>
        refine Bool.eq_false_iff.mpr fun happ => ?_
        obtain ⟨hf, hcan⟩ := (job.deliver_spec faults db).1.mp happ
        rw [Database.canDeliver_congr (hreceive h₂)] at hcan
        exact h.deliver hf hcan

/-- **Settlement of one record is all or nothing exactly when** the tables can
take all of it, or none of it. -/
theorem allOrNothing_iff :
    (job.settle faults db).AllOrNothing ↔
      job.Settleable faults db ∨ job.Refused faults db :=
  or_congr (job.settle_all_iff faults db) (job.settle_none_iff faults db)

/-! ### Totals -/

/-- What the four calls do to all cash. -/
theorem totalBalance_settle :
    (job.settle faults db).db.totalBalance = db.totalBalance
      - (if (job.settle faults db).applied .deductBalance then
          job.record.sellMoney.toInt else 0)
      + (if (job.settle faults db).applied .updateBalance then
          job.record.sellMoney.toInt else 0) := by
  have hdebit : (job.debit faults db).db.totalBalance = db.totalBalance
      - (if (job.debit faults db).applied then job.record.sellMoney.toInt else 0) := by
    rw [(job.debit_spec faults db).2]
    split_ifs with h
    · obtain ⟨-, row, hrow, -, hfits⟩ := (job.debit_spec faults db).1.mp h
      rw [Database.totalBalance_setBalance _ _ (by rw [hrow]; rfl),
        Database.balance_of_lookup hrow, int64_sub_of_range hfits.1 hfits.2]
      omega
    · omega
  have hcredit : (job.credit faults db).db.totalBalance
      = (job.debit faults db).db.totalBalance
        + (if (job.credit faults db).applied then job.record.sellMoney.toInt else 0) := by
    rw [Database.totalBalance_congr (job.credit_spec faults db).2.1]
    split_ifs with h
    · obtain ⟨-, row, hrow, hfits⟩ := (job.credit_spec faults db).1.mp h
      rw [Database.totalBalance_setBalance _ _ (by rw [hrow]; rfl),
        Database.balance_of_lookup hrow, int64_add_of_range hfits.1 hfits.2]
      omega
    · omega
  have hdeliver : (job.settle faults db).db.totalBalance
      = (job.credit faults db).db.totalBalance :=
    Database.totalBalance_congr (job.deliver_spec faults db).2.1
  rw [hdeliver, hcredit, hdebit]
  rfl

/-- What the four calls do to all shares of a stock. -/
theorem totalHolding_settle (symbol : String) :
    (job.settle faults db).db.totalHolding symbol = db.totalHolding symbol
      + (if (job.settle faults db).applied .updateStockHolding ∧ job.symbol = symbol then
          job.record.qty.toInt else 0)
      - (if (job.settle faults db).applied .deductStockHolding ∧ job.symbol = symbol then
          job.record.qty.toInt else 0) := by
  have hreceive : (job.receive faults db).db.totalHolding symbol = db.totalHolding symbol
      + (if (job.receive faults db).applied ∧ job.symbol = symbol then
          job.record.qty.toInt else 0) := by
    rw [Database.totalHolding_congr (job.receive_spec faults db).2.2]
    by_cases h : (job.receive faults db).applied = true
    · obtain ⟨-, hfits⟩ := (job.receive_spec faults db).1.mp h
      rw [if_pos h, Database.totalHolding_setHolding, int32_add_of_range hfits.1 hfits.2]
      simp only [h, true_and]
      split_ifs <;> omega
    · simp [h]
  have hdeliver : (job.deliver faults db).db.totalHolding symbol
      = (job.receive faults db).db.totalHolding symbol
        - (if (job.deliver faults db).applied ∧ job.symbol = symbol then
            job.record.qty.toInt else 0) := by
    rw [Database.totalHolding_congr (job.deliver_spec faults db).2.2]
    by_cases h : (job.deliver faults db).applied = true
    · obtain ⟨-, quantity, hrow, -, hfits⟩ := (job.deliver_spec faults db).1.mp h
      have hholding : (job.receive faults db).db.holding job.sellerName job.symbol
          = quantity := by
        rw [Database.holding, hrow]
        rfl
      rw [if_pos h, Database.totalHolding_setHolding, hholding,
        int32_sub_of_range hfits.1 hfits.2]
      simp only [h, true_and]
      split_ifs <;> omega
    · simp [h]
  have hsettle : (job.settle faults db).db.totalHolding symbol
      = (job.deliver faults db).db.totalHolding symbol := rfl
  rw [hsettle, hdeliver, hreceive]
  rfl

/-- Settling all of a record or nothing of it moves cash and shares between users. -/
theorem totals_of_allOrNothing (h : (job.settle faults db).AllOrNothing) :
    (job.settle faults db).db.totalBalance = db.totalBalance ∧
      ∀ symbol, (job.settle faults db).db.totalHolding symbol = db.totalHolding symbol := by
  rw [totalBalance_settle]
  refine ⟨?_, fun symbol => ?_⟩
  · rcases h with h | h <;> rw [h, h] <;> simp
  · rw [totalHolding_settle]
    rcases h with h | h <;> rw [h, h] <;> simp

end SettleJob

/-! ### Sequences of records -/

/-- What settling the records one after the other did, record by record. -/
def settleAll (users : UserManager) (tickers : TickerManager) :
    Database → List (MatchRecord × (SettleCall → Option Fault)) → List Settled
  | _, [] => []
  | db, (rec, faults) :: rest =>
      let s := (SettleJob.start users tickers rec).settle faults db
      s :: settleAll users tickers s.db rest

/-- The tables after the records. -/
def settledDb (users : UserManager) (tickers : TickerManager) :
    Database → List (MatchRecord × (SettleCall → Option Fault)) → Database
  | db, [] => db
  | db, (rec, faults) :: rest =>
      settledDb users tickers ((SettleJob.start users tickers rec).settle faults db).db rest

/-- Every record, when its turn comes, finds tables that can take all of it or
nothing of it. -/
def AllTakeable (users : UserManager) (tickers : TickerManager) :
    Database → List (MatchRecord × (SettleCall → Option Fault)) → Prop
  | _, [] => True
  | db, (rec, faults) :: rest =>
      let job := SettleJob.start users tickers rec
      (job.Settleable faults db ∨ job.Refused faults db) ∧
        AllTakeable users tickers (job.settle faults db).db rest

/-- **Settlement is all or nothing, record by record, exactly when** every record
finds tables that can take all of it or nothing of it; and then all cash and all
shares in the database stay what they were. -/
theorem settlement_allOrNothing_iff (users : UserManager) (tickers : TickerManager)
    (db : Database) (records : List (MatchRecord × (SettleCall → Option Fault))) :
    ((∀ s ∈ settleAll users tickers db records, s.AllOrNothing) ↔
      AllTakeable users tickers db records) ∧
    (AllTakeable users tickers db records →
      (settledDb users tickers db records).totalBalance = db.totalBalance ∧
        ∀ symbol, (settledDb users tickers db records).totalHolding symbol
          = db.totalHolding symbol) := by
  induction records generalizing db with
  | nil => simp [settleAll, AllTakeable, settledDb]
  | cons r rest ih =>
      obtain ⟨rec, faults⟩ := r
      have hjob := (SettleJob.start users tickers rec).allOrNothing_iff faults db
      obtain ⟨hiff, htotals⟩ := ih ((SettleJob.start users tickers rec).settle faults db).db
      refine ⟨?_, fun h => ?_⟩
      · simp only [settleAll, AllTakeable, List.forall_mem_cons]
        rw [hjob, hiff]
      · obtain ⟨hhere, hrest⟩ := h
        obtain ⟨hbalance, hholding⟩ := htotals hrest
        obtain ⟨hbalance', hholding'⟩ :=
          (SettleJob.start users tickers rec).totals_of_allOrNothing faults db (hjob.mpr hhere)
        exact ⟨hbalance.trans hbalance', fun symbol => (hholding symbol).trans (hholding' symbol)⟩

/-- Two users, one of whom has too little money in the database for the trade. -/
def sampleUsers : UserManager :=
  (UserManager.new.createUserAccount 1 "alice").createUserAccount 2 "bob"

def sampleTickers : TickerManager :=
  ⟨AList.singleton 1 "AAPL"⟩

def sampleDb : Database where
  accounts := [⟨"alice", ⟨1, 5⟩⟩, ⟨"bob", ⟨2, 0⟩⟩].toAList
  holdings := [⟨("bob", "AAPL"), 10⟩].toAList

/-- The buyer's balance of `5` does not cover the price of `10`. -/
def sampleRecord : MatchRecord := ⟨1, 11, 12, 1, 2, 10, 10, 1, 0⟩

/-- The first statement is refused and the other three are carried out: the seller
is paid with money that nobody lost. -/
theorem settlement_not_allOrNothing :
    (∃ s ∈ settleAll sampleUsers sampleTickers sampleDb [(sampleRecord, fun _ => none)],
      ¬ s.AllOrNothing) ∧
    sampleDb.totalBalance = 5 ∧
    (settledDb sampleUsers sampleTickers sampleDb [(sampleRecord, fun _ => none)]).totalBalance
      = 15 := by
  refine ⟨⟨_, List.mem_cons_self, ?_⟩, by decide, by decide⟩
  rintro (hall | hnone)
  · exact absurd (hall .deductBalance) (by decide)
  · exact absurd (hnone .updateBalance) (by decide)

end ExchangeServer
