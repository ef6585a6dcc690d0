import Mathlib.Logic.Relation
import ExchangeServer.AccountMoves
import ExchangeServer.Handler
import ExchangeServer.Market
import ExchangeServer.OrderBook.Owners

/-!
# Clearing

The exchange as an accountant sees it.  Where an order, a record or a deposit is
held — by a handler, in a queue, in a batch, in a book — makes no difference to
what is owed for it, so `Clearing` keeps the orders still to be filled, the records
still to be settled and the deposits still to be credited as multisets.  It also
remembers everything that was accepted, traded, cancelled and credited.

`Clearing.Step` lists what can happen.  Two results hold along every sequence of
steps, whatever the order ids are:

* every party of a record has an account (`Owned`), and
* cash and shares are neither created nor destroyed (`Conserves`).

While the accepted order ids are distinct, two more do: what an account has frozen
is what its open orders and unsettled records need (`Backed`), and every accepted
order is accounted for (`Accounted`).
-/

namespace ExchangeServer

open Lib PriceTime

/-! ## The state -/

/-- What is owed, and what has happened. -/
@[ext]
structure Clearing where
  users : UserManager
  db : Database
  /-- Written to the database, still to be added to the account. -/
  deposits : Multiset (UInt64 × Int64)
  /-- Accepted orders with what they have left, wherever they are. -/
  orders : Multiset Order
  /-- Orders that no book took. -/
  dropped : Multiset Order
  /-- Match records that no settlement has started on. -/
  records : Multiset MatchRecord
  inHand : Option (SettleJob × SettleStage)
  /-- Cancel records still to be released. -/
  cancels : Multiset CancelRecord
  accepted : Multiset Order
  traded : Multiset MatchRecord
  cancelled : Multiset CancelRecord
  credited : Multiset (UInt64 × Int64)

/-- What can happen. -/
inductive Event where
  | create (uid : UInt64) (username : String)
  | freeze (o : Order)
  | refuse (o : Order)
  | drop
  | market
  | start
  | call (fault : Option Fault)
  | commitBuy
  | commitSell
  | release
  | deposit (session : Session) (amount : Int64) (fault : Option Fault)
  | credit

namespace Clearing

/-- The user has had an order accepted. -/
def Trader (c : Clearing) (u : UInt64) : Prop :=
  ∃ o ∈ c.accepted, o.userId = u

/-- No two accepted orders have the same id. -/
def DistinctIds (c : Clearing) : Prop :=
  (c.accepted.map Order.orderId).Nodup

/-- The record in hand, while its buyer is still to be settled. -/
def buying (c : Clearing) : Multiset MatchRecord :=
  match c.inHand with
  | none => 0
  | some (_, .commitSell) => 0
  | some (job, _) => {job.record}

/-- The record in hand, whose seller comes last. -/
def selling (c : Clearing) : Multiset MatchRecord :=
  match c.inHand with
  | none => 0
  | some (job, _) => {job.record}

/-- The records whose buyer is still to be settled. -/
def unbought (c : Clearing) : Multiset MatchRecord :=
  c.buying + c.records

/-- The records whose seller is still to be settled. -/
def unsold (c : Clearing) : Multiset MatchRecord :=
  c.selling + c.records

/-- **What can happen**, with the listed tickers. -/
inductive Step (tickers : TickerManager) : Clearing → Event → Clearing → Prop
  | create (c : Clearing) (uid : UInt64) (username : String) :
      Step tickers c (.create uid username)
        { c with users := c.users.createUserAccount uid username }
  | freeze (c : Clearing) (o : Order) (h : (o.freeze c.users).2 = true) :
      Step tickers c (.freeze o)
        { c with
          users := (o.freeze c.users).1
          orders := o ::ₘ c.orders
          accepted := o ::ₘ c.accepted }
  | refuse (c : Clearing) (o : Order) (h : (o.freeze c.users).2 = false) :
      Step tickers c (.refuse o) { c with users := (o.freeze c.users).1 }
  | drop (c : Clearing) (o : Order) (rest : Multiset Order)
      (unlisted : tickers.idToSymbol.lookup o.tickerId = none) (h : c.orders = o ::ₘ rest) :
      Step tickers c .drop { c with orders := rest, dropped := o ::ₘ c.dropped }
  /-- A worker processes an event.  Without distinct ids nothing is said about the
  orders it leaves. -/
  | market (c : Clearing) (orders : Multiset Order) (records : Multiset MatchRecord)
      (cancels : Multiset CancelRecord)
      (parties : ∀ rec ∈ records, rec.Between c.Trader)
      (listed : c.DistinctIds →
        ∀ rec ∈ records, (tickers.idToSymbol.lookup rec.tickerId).isSome)
      (trades : c.DistinctIds → Trades c.orders records cancels orders) :
      Step tickers c .market
        { c with
          orders := orders
          records := records + c.records
          cancels := cancels + c.cancels
          traded := records + c.traded
          cancelled := cancels + c.cancelled }
  | start (c : Clearing) (rec : MatchRecord) (rest : Multiset MatchRecord)
      (idle : c.inHand = none) (h : c.records = rec ::ₘ rest) :
      Step tickers c .start
        { c with
          records := rest
          inHand := some (SettleJob.start c.users tickers rec, .call .deductBalance) }
  | call (c : Clearing) (job : SettleJob) (k : SettleCall) (fault : Option Fault)
      (h : c.inHand = some (job, .call k)) :
      Step tickers c (.call fault)
        { c with db := (job.execute k fault c.db).db, inHand := some (job, k.next) }
  | commitBuy (c : Clearing) (job : SettleJob) (h : c.inHand = some (job, .commitBuy)) :
      Step tickers c .commitBuy
        { c with users := job.commitBuy c.users, inHand := some (job, .commitSell) }
  | commitSell (c : Clearing) (job : SettleJob) (h : c.inHand = some (job, .commitSell)) :
      Step tickers c .commitSell { c with users := job.commitSell c.users, inHand := none }
  | release (c : Clearing) (rec : CancelRecord) (rest : Multiset CancelRecord)
      (idle : c.inHand = none) (h : c.cancels = rec ::ₘ rest) :
      Step tickers c .release { c with users := rec.release c.users, cancels := rest }
  | deposit (c : Clearing) (session : Session) (amount : Int64) (fault : Option Fault)
      (pos : 0 < amount) :
      Step tickers c (.deposit session amount fault)
        { c with
          db := (c.db.updateBalance fault session.username amount).db
          deposits :=
            if (c.db.updateBalance fault session.username amount).returned then
              (session.userId, amount) ::ₘ c.deposits
            else c.deposits }
  | credit (c : Clearing) (uid : UInt64) (amount : Int64) (rest : Multiset (UInt64 × Int64))
      (h : c.deposits = (uid, amount) ::ₘ rest) :
      Step tickers c .credit
        { c with
          users := c.users.addBalance uid amount
          deposits := rest
          credited :=
            if c.users.HasAccount uid then (uid, amount) ::ₘ c.credited else c.credited }

theorem Step.congr {tickers : TickerManager} {c c₁ c₂ : Clearing} {e : Event}
    (h : Step tickers c e c₁) (heq : c₂ = c₁) : Step tickers c e c₂ :=
  heq ▸ h

/-- One step with an event that `G` allows. -/
def Allowed (tickers : TickerManager) (G : Clearing → Event → Prop) (c c' : Clearing) : Prop :=
  ∃ e, Step tickers c e c' ∧ G c e

/-- Any number of steps with events that `G` allows. -/
abbrev Reaches (tickers : TickerManager) (G : Clearing → Event → Prop) :
    Clearing → Clearing → Prop :=
  Relation.ReflTransGen (Allowed tickers G)

variable {tickers : TickerManager} {G : Clearing → Event → Prop} {c c' : Clearing} {e : Event}

/-! ## Accounts -/

theorem Step.accepted_le (h : Step tickers c e c') : c.accepted ≤ c'.accepted := by
  cases h with
  | freeze o h => exact Multiset.le_cons_self _ _
  | _ => exact le_refl _

theorem Step.distinctIds (h : Step tickers c e c') (hids : c'.DistinctIds) : c.DistinctIds :=
  Multiset.nodup_of_le (Multiset.map_le_map h.accepted_le) hids

theorem Trader.mono (hle : c.accepted ≤ c'.accepted) {u : UInt64} (h : c.Trader u) :
    c'.Trader u := by
  obtain ⟨o, ho, hu⟩ := h
  exact ⟨o, Multiset.mem_of_le hle ho, hu⟩

/-- No step removes an account. -/
theorem Step.hasAccount (h : Step tickers c e c') {u : UInt64} (hu : c.users.HasAccount u) :
    c'.users.HasAccount u := by
  cases h with
  | create uid username => exact hu.create uid username
  | freeze o h => exact ((o.freeze_spec c.users).2.hasAccount u).mpr hu
  | refuse o h => exact ((o.freeze_spec c.users).2.hasAccount u).mpr hu
  | commitBuy job h => exact (UserManager.hasAccount_modifyAccount ..).mpr hu
  | commitSell job h => exact (UserManager.hasAccount_modifyAccount ..).mpr hu
  | release rec rest idle h =>
      unfold CancelRecord.release
      cases rec.side with
      | buy => exact (UserManager.hasAccount_modifyAccount ..).mpr hu
      | sell => exact (UserManager.hasAccount_modifyAccount ..).mpr hu
  | credit uid amount rest h => exact (UserManager.hasAccount_modifyAccount ..).mpr hu
  | _ => exact hu

/-- Everybody who trades has an account, and records are between traders. -/
structure Owned (c : Clearing) : Prop where
  traders : ∀ u, c.Trader u → c.users.HasAccount u
  unsold : ∀ rec ∈ c.unsold, rec.Between c.Trader

theorem selling_call {job : SettleJob} {k : SettleCall} (h : c.inHand = some (job, .call k))
    (db : Database) :
    ({ c with db := db, inHand := some (job, k.next) } : Clearing).selling = c.selling := by
  simp only [selling, h]

theorem buying_call {job : SettleJob} {k : SettleCall} (h : c.inHand = some (job, .call k))
    (db : Database) :
    ({ c with db := db, inHand := some (job, k.next) } : Clearing).buying = c.buying := by
  cases k <;> simp only [buying, h, SettleCall.next]

/-- A record whose seller is still to be settled was so before, or is new. -/
theorem Step.mem_unsold (h : Step tickers c e c') {rec : MatchRecord} (hrec : rec ∈ c'.unsold) :
    rec ∈ c.unsold ∨ (rec.Between c.Trader ∧ (c.DistinctIds →
      (tickers.idToSymbol.lookup rec.tickerId).isSome ∧
        rec.matchPrice ≤ rec.buyerExpectedPrice ∧ 0 < rec.matchQuantity)) := by
  cases h with
  | market orders records cancels parties listed trades =>
      have hsplit : rec ∈ c.selling + (records + c.records) := hrec
      rcases Multiset.mem_add.mp hsplit with hmem | hmem
      · exact Or.inl (Multiset.mem_add.mpr (Or.inl hmem))
      rcases Multiset.mem_add.mp hmem with hmem | hmem
      · exact Or.inr ⟨parties rec hmem,
          fun hids => ⟨listed hids rec hmem, (trades hids).sound rec hmem⟩⟩
      · exact Or.inl (Multiset.mem_add.mpr (Or.inr hmem))
  | start rec' rest idle hrec' =>
      refine Or.inl ?_
      simpa [unsold, selling, idle, hrec', SettleJob.start] using hrec
  | call job k fault hhand =>
      refine Or.inl ?_
      rwa [unsold, selling_call hhand] at hrec
  | commitBuy job hhand =>
      refine Or.inl ?_
      simpa [unsold, selling, hhand] using hrec
  | commitSell job hhand =>
      refine Or.inl ?_
      simp only [unsold, selling, zero_add] at hrec
      exact Multiset.mem_add.mpr (Or.inr hrec)
  | _ => exact Or.inl hrec

theorem Owned.step (h : c.Owned) (hstep : Step tickers c e c') : c'.Owned := by
  refine ⟨fun u hu => ?_, fun rec hrec => ?_⟩
  · by_cases hold : c.Trader u
    · exact hstep.hasAccount (h.traders u hold)
    · obtain ⟨o', ho', rfl⟩ := hu
      cases hstep with
      | freeze o hok =>
          have hspec := o.freeze_spec c.users
          rcases Multiset.mem_cons.mp ho' with rfl | ho'
          · exact (hspec.2.hasAccount _).mpr (hspec.1.mp hok).1
          · exact absurd ⟨o', ho', rfl⟩ hold
      | _ => exact absurd ⟨o', ho', rfl⟩ hold
  · have hbetween : rec.Between c.Trader := by
      rcases hstep.mem_unsold hrec with hrec | ⟨hrec, -⟩
      · exact h.unsold rec hrec
      · exact hrec
    exact ⟨hbetween.1.mono hstep.accepted_le, hbetween.2.mono hstep.accepted_le⟩

/-- The parties of the record in hand have accounts. -/
theorem Owned.inHand (h : c.Owned) {job : SettleJob} {stage : SettleStage}
    (hhand : c.inHand = some (job, stage)) :
    c.users.HasAccount job.record.buyerUserId ∧ c.users.HasAccount job.record.sellUserId := by
  have hmem : job.record ∈ c.unsold := by
    simp [Clearing.unsold, selling, hhand]
  exact ⟨h.traders _ (h.unsold _ hmem).1, h.traders _ (h.unsold _ hmem).2⟩

/-! ## Conservation -/

/-- The cash of a record that was taken from the buyer and not yet given to the
seller. -/
def halfCash (c : Clearing) : ℤ :=
  match c.inHand with
  | some (job, .commitSell) => job.record.sellMoney.toInt
  | _ => 0

/-- The shares of a record that were given to the buyer and not yet taken from the
seller. -/
def halfStock (c : Clearing) (t : UInt32) : ℤ :=
  match c.inHand with
  | some (job, .commitSell) => (Delta.single job.record.tickerId job.record.qty t).toInt
  | _ => 0

/-- The cash that was paid in. -/
def paidIn (c : Clearing) : ℤ :=
  (c.credited.map fun d => d.2.toInt).sum

/-- All cash as if the record in hand were done and nothing had been paid in. -/
def cashLedger (c : Clearing) : ℤ :=
  c.users.cashTotal + c.halfCash - c.paidIn

/-- All shares of a ticker as if the record in hand were done. -/
def stockLedger (c : Clearing) (t : UInt32) : ℤ :=
  c.users.stockTotal t - c.halfStock t

theorem halfCash_call {job : SettleJob} {k : SettleCall} (h : c.inHand = some (job, .call k))
    (db : Database) :
    ({ c with db := db, inHand := some (job, k.next) } : Clearing).halfCash = c.halfCash := by
  cases k <;> simp only [halfCash, h, SettleCall.next]

theorem halfStock_call {job : SettleJob} {k : SettleCall} (h : c.inHand = some (job, .call k))
    (db : Database) :
    ({ c with db := db, inHand := some (job, k.next) } : Clearing).halfStock = c.halfStock := by
  funext t
  cases k <;> simp only [halfStock, h, SettleCall.next]

/-- A move that leaves the sum of an account alone leaves the ledger alone. -/
theorem cashLedger_of_moves {users : UserManager} {uid : UInt64} {δ : Delta}
    (hmoves : c.users.Moves uid δ users) {n : ℤ}
    (hδ : δ.available.toInt + δ.frozen.toInt ≡ n [ZMOD 2 ^ 64])
    (hhalf : c'.halfCash - c'.paidIn + n = c.halfCash - c.paidIn) (husers : c'.users = users) :
    c'.cashLedger ≡ c.cashLedger [ZMOD 2 ^ 64] := by
  have htotal := (hmoves.cashTotal.trans (hδ.add_left _)).add_right (c'.halfCash - c'.paidIn)
  unfold cashLedger
  rw [husers]
  calc users.cashTotal + c'.halfCash - c'.paidIn
      = users.cashTotal + (c'.halfCash - c'.paidIn) := by omega
    _ ≡ c.users.cashTotal + n + (c'.halfCash - c'.paidIn) [ZMOD 2 ^ 64] := htotal
    _ = c.users.cashTotal + c.halfCash - c.paidIn := by omega

theorem stockLedger_of_moves {users : UserManager} {uid : UInt64} {δ : Delta}
    (hmoves : c.users.Moves uid δ users) (t : UInt32) {n : ℤ}
    (hδ : (δ.availableStock t).toInt + (δ.frozenStock t).toInt ≡ n [ZMOD 2 ^ 32])
    (hhalf : n - c'.halfStock t = -c.halfStock t) (husers : c'.users = users) :
    c'.stockLedger t ≡ c.stockLedger t [ZMOD 2 ^ 32] := by
  have htotal := ((hmoves.stockTotal t).trans (hδ.add_left _)).sub_right (c'.halfStock t)
  unfold stockLedger
  rw [husers]
  calc users.stockTotal t - c'.halfStock t
      ≡ c.users.stockTotal t + n - c'.halfStock t [ZMOD 2 ^ 32] := htotal
    _ = c.users.stockTotal t - c.halfStock t := by omega

/-- **No step creates or destroys cash**, except for what is paid in. -/
theorem Step.cashLedger (h : Step tickers c e c') (howned : c.Owned) :
    c'.cashLedger ≡ c.cashLedger [ZMOD 2 ^ 64] := by
  cases h with
  | create uid username =>
      have htotal := (c.users.moves_createUserAccount uid username).2.2.2.2.1
      unfold Clearing.cashLedger
      rw [htotal]
      rfl
  | freeze o hok =>
      refine cashLedger_of_moves (o.freeze_spec c.users).2 (n := 0) ?_ (by simp [halfCash, paidIn])
        rfl
      rw [if_pos hok]
      exact o.freezes_cash
  | refuse o hno =>
      refine cashLedger_of_moves (o.freeze_spec c.users).2 (n := 0) ?_ (by simp [halfCash, paidIn])
        rfl
      rw [hno]
      rfl
  | call job k fault hhand =>
      -- A call writes to the database only, and the ledger is about the accounts.
      have hhalf := halfCash_call hhand (job.execute k fault c.db).db
      unfold Clearing.cashLedger
      rw [hhalf]
      rfl
  | commitBuy job hhand =>
      refine cashLedger_of_moves (job.moves_commitBuy (howned.inHand hhand).1)
        job.record.buys_cash ?_ rfl
      simp only [halfCash, hhand, paidIn]
      omega
  | commitSell job hhand =>
      refine cashLedger_of_moves (job.moves_commitSell (howned.inHand hhand).2)
        job.record.sells_cash ?_ rfl
      simp only [halfCash, hhand, paidIn]
      omega
  | release rec rest idle hrec =>
      -- Without an account nothing is given back.
      by_cases hacc : c.users.HasAccount rec.userId
      · exact cashLedger_of_moves (rec.moves_release hacc) rec.releases_cash
          (by simp [halfCash, paidIn]) rfl
      · unfold Clearing.cashLedger
        rw [rec.release_of_not_hasAccount hacc]
        rfl
  | credit uid amount rest hdep =>
      refine cashLedger_of_moves (c.users.moves_addBalance uid amount)
        (n := if c.users.HasAccount uid then amount.toInt else 0) ?_ ?_ rfl
      · split_ifs
        · exact congrArg (· % 2 ^ 64) (Int.add_zero _)
        · rfl
      · have hhalf : ∀ credited, ({ c with
            users := c.users.addBalance uid amount, deposits := rest, credited := credited } :
              Clearing).halfCash = c.halfCash := fun _ => rfl
        rw [hhalf]
        simp only [paidIn]
        split_ifs
        · simp only [Multiset.map_cons, Multiset.sum_cons]
          omega
        · omega
  | start rec rest idle hrec =>
      unfold Clearing.cashLedger
      simp only [halfCash, idle]
      rfl
  | _ => rfl

/-- **No step creates or destroys shares.** -/
theorem Step.stockLedger (h : Step tickers c e c') (howned : c.Owned) (t : UInt32) :
    c'.stockLedger t ≡ c.stockLedger t [ZMOD 2 ^ 32] := by
  cases h with
  | create uid username =>
      have htotal := (c.users.moves_createUserAccount uid username).2.2.2.2.2 t
      unfold Clearing.stockLedger
      rw [htotal]
      rfl
  | freeze o hok =>
      refine stockLedger_of_moves (o.freeze_spec c.users).2 t (n := 0) ?_ (by simp [halfStock]) rfl
      rw [if_pos hok]
      exact o.freezes_stock t
  | refuse o hno =>
      refine stockLedger_of_moves (o.freeze_spec c.users).2 t (n := 0) ?_ (by simp [halfStock]) rfl
      rw [hno]
      rfl
  | call job k fault hhand =>
      have hhalf := halfStock_call hhand (job.execute k fault c.db).db
      unfold Clearing.stockLedger
      rw [hhalf]
  | commitBuy job hhand =>
      refine stockLedger_of_moves (job.moves_commitBuy (howned.inHand hhand).1) t
        (job.record.buys_stock t) ?_ rfl
      simp only [halfStock, hhand]
      omega
  | commitSell job hhand =>
      refine stockLedger_of_moves (job.moves_commitSell (howned.inHand hhand).2) t
        (job.record.sells_stock t) ?_ rfl
      simp only [halfStock, hhand]
      omega
  | release rec rest idle hrec =>
      by_cases hacc : c.users.HasAccount rec.userId
      · exact stockLedger_of_moves (rec.moves_release hacc) t (rec.releases_stock t)
          (by simp [halfStock]) rfl
      · unfold Clearing.stockLedger
        rw [rec.release_of_not_hasAccount hacc]
        rfl
  | credit uid amount rest hdep =>
      refine stockLedger_of_moves (c.users.moves_addBalance uid amount) t (n := 0) ?_
        (by simp [halfStock]) rfl
      split_ifs <;> rfl
  | start rec rest idle hrec =>
      unfold Clearing.stockLedger
      simp only [halfStock, idle]
      rfl
  | _ => rfl

/-- **Conservation.**  Along any steps, records stay between users with accounts,
and the two ledgers keep their values up to wrap-around. -/
theorem Reaches.conserves (h : Reaches tickers G c c') (howned : c.Owned) :
    c'.Owned ∧ c'.cashLedger ≡ c.cashLedger [ZMOD 2 ^ 64] ∧
      ∀ t, c'.stockLedger t ≡ c.stockLedger t [ZMOD 2 ^ 32] := by
  induction h with
  | refl => exact ⟨howned, rfl, fun t => rfl⟩
  | tail _ hstep ih =>
      obtain ⟨e, hstep, -⟩ := hstep
      obtain ⟨howned, hcash, hstock⟩ := ih
      exact ⟨howned.step hstep, (hstep.cashLedger howned).trans hcash,
        fun t => (hstep.stockLedger howned t).trans (hstock t)⟩

end Clearing

end ExchangeServer
