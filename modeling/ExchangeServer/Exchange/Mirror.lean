import ExchangeServer.Exchange.Laws
import ExchangeServer.Solvency.Steps

/-!
# The cache mirrors the database

Settlement does not look at what its statements return, so everything rests on the
statements not being refused.  `assets_solvent` says that they are not, that nobody's
assets become negative, and that cache and database agree whenever no deposit and no
record is half-way, for every interleaving of the threads.

The run must be smooth: no statement fails, and the freezes fit.  That `price * amount`
fits an `int64_t` is not enough for the latter.  While a buyer's record is half-way, its
cash is gone from the database and still frozen in the cache, so a deposit can take the
cash of the account beyond what the column holds; freezing it all then makes
`frozen_balance` negative (`assets_not_solvent`).
-/

namespace ExchangeServer

open Lib PriceTime

/-- The amount of the freeze fits its type. -/
def TradeRequest.ExactFreeze (req : TradeRequest) : Prop :=
  match req.orderSide with
  | .buy => req.price.toNat * req.amount.toNat < 2 ^ 63
  | .sell => req.amount.toNat < 2 ^ 31

/-- So does what is frozen after it. -/
def TradeRequest.FreezeFits (req : TradeRequest) (users : UserManager) (session : Session) :
    Prop :=
  match req.orderSide with
  | .buy => (users.frozenBalance session.userId).toInt
      + (req.price.toNat * req.amount.toNat : ℕ) < 2 ^ 63
  | .sell => req.amount.toNat < 2 ^ 31

instance (req : TradeRequest) : Decidable req.ExactFreeze := by
  unfold TradeRequest.ExactFreeze
  cases req.orderSide <;> infer_instance

instance (req : TradeRequest) (users : UserManager) (session : Session) :
    Decidable (req.FreezeFits users session) := by
  unfold TradeRequest.FreezeFits
  cases req.orderSide <;> infer_instance

namespace Exchange

/-- Nobody registers, no statement fails, a deposit comes from a session that was logged
in with the row of its name, and a trade that is accepted is one that `P` allows. -/
def Smooth (P : UserManager → Session → TradeRequest → Prop) (s : Exchange) : Action → Prop
  | .createUserAccount _ _ => False
  | .trade _ session req _ _ => session.isLoggedIn = true →
      (req.freeze s.users session).2 = true → P s.users session req
  | .deposit _ session req fault => session.isLoggedIn = true → 0 < req.amount.toInt64 →
      (s.db.updateBalance fault session.username req.amount.toInt64).error = false ∧
        (s.db.accounts.lookup session.username).map AccountRow.id = some session.userId
  | .settleCall fault =>
      match s.settlement.current with
      | some (job, .call k) => (job.execute k fault s.db).error = false
      | _ => True
  | _ => True

instance (P : UserManager → Session → TradeRequest → Prop)
    [∀ users session req, Decidable (P users session req)] (s : Exchange) (a : Action) :
    Decidable (s.Smooth P a) := by
  cases a with
  | settleCall fault =>
      unfold Smooth
      match s.settlement.current with
      | none => exact inferInstanceAs (Decidable True)
      | some (_, .commitBuy) => exact inferInstanceAs (Decidable True)
      | some (_, .commitSell) => exact inferInstanceAs (Decidable True)
      | some (job, .call k) =>
          exact inferInstanceAs (Decidable ((job.execute k fault s.db).error = false))
  | _ => unfold Smooth; infer_instance

/-- A smooth action is a smooth event of the clearing house. -/
theorem allows_of_smooth {s : Exchange} {a : Action}
    (h : s.Smooth (fun users session req => req.FreezeFits users session) a) :
    Allows Clearing.Smooth s a := by
  intro e hraises
  cases hraises with
  | create uid username => exact h
  | freeze thread session req orderId now login =>
      intro hok
      change ((req.order session orderId now).freeze s.users).2 = true at hok
      rw [freeze_order] at hok
      have hfits := h login hok
      have hamount : req.amount.toUInt64.toNat = req.amount.toNat := UInt32.toNat_toUInt64 _
      unfold TradeRequest.FreezeFits at hfits
      show Order.FreezeFits (req.order session orderId now) s.users
      unfold Order.FreezeFits
      simp only [TradeRequest.order, hamount]
      exact hfits
  | deposit thread session req fault login => exact h login
  | call fault =>
      intro job k hhand
      change s.settlement.current = some (job, .call k) at hhand
      unfold Smooth at h
      simp only [hhand] at h
      exact h
  | _ => trivial

end Exchange

open Exchange

/-- **Solvency and database mirror.**  From a state in which the cache mirrors the
database, nothing is frozen and no row is negative, along every smooth run in which the
freezes fit and the order ids are distinct: what users have available and frozen is never
negative; whenever no deposit and no record is half-way, the database has what is
available and frozen together; and when settlement gets to one of its two guarded
statements, the guard holds. -/
theorem assets_solvent (users : UserManager) (tickers : TickerManager) (db : Database)
    (walFile : Option (List WALRecord)) (actions : List Action) (s : Exchange)
    (hmirrored : Clearing.Mirrored users tickers db) (hfrozen : users.NothingFrozen)
    (hdebts : Clearing.NoDebts db)
    (hsmooth : Along Exchange.step
      (Smooth fun users session req => req.FreezeFits users session)
      (Exchange.start users tickers db walFile) actions)
    (hrun : runs Exchange.step (Exchange.start users tickers db walFile) actions = some s)
    (hids : DistinctIds s.accepted) :
    (∀ u, 0 ≤ (s.users.availableBalance u).toInt ∧ 0 ≤ (s.users.frozenBalance u).toInt ∧
      ∀ t, 0 ≤ (s.users.availableStock u t).toInt ∧ 0 ≤ (s.users.frozenStock u t).toInt) ∧
    (s.depositing = [] → s.settlement.current = none → ∀ u, s.users.HasAccount u →
      (s.db.balance (s.users.getName u)).toInt
          = (s.users.availableBalance u).toInt + (s.users.frozenBalance u).toInt ∧
        ∀ t, (tickers.idToSymbol.lookup t).isSome →
          (s.db.holding (s.users.getName u) (tickers.getSymbol t)).toInt
            = (s.users.availableStock u t).toInt + (s.users.frozenStock u t).toInt) ∧
    ∀ job, (s.settlement.current = some (job, .call .deductBalance) →
        s.db.CanDebit job.buyerName job.record.sellMoney) ∧
      (s.settlement.current = some (job, .call .deductStockHolding) →
        s.db.CanDeliver job.sellerName job.symbol job.record.qty) := by
  have hfresh := start_fresh users tickers db walFile
  have hids' := (distinctIds_iff s).mpr hids
  obtain ⟨-, -, hreach⟩ :=
    runs_clear (hsmooth.mono fun _ _ hsmooth => allows_of_smooth hsmooth) hrun
  have hstart : (Exchange.start users tickers db walFile).clearing.Solvent tickers :=
    hfresh.solvent hmirrored hdebts
  have hsolvent := hreach.solvent hfresh hfrozen hmirrored.symbols hstart hids'
  have howned := (hreach.conserves hfresh.owned).1
  obtain ⟨htracked, -⟩ := hreach.backed hfresh hids'
  have heq : ∀ u, s.users.HasAccount u →
      (s.users.frozenBalance u).toInt = (frozenCash u).backing s.clearing ∧
        ∀ t, (s.users.frozenStock u t).toInt = (frozenShares u t).backing s.clearing :=
    fun u hu => hreach.frozen_eq hfresh hfrozen hids' hsolvent hu
  refine ⟨hsolvent.nonneg heq, fun hdeposits hidle u hu => ⟨?_, fun t ht => ?_⟩,
    fun job => ⟨fun hhand => ?_, fun hhand => ?_⟩⟩
  · have hmirror := (hsolvent.cash u hu).mirror
    have hcredit : s.clearing.toCredit u = 0 := by
      show Clearing.credits u (s.depositing.elems : Multiset _) = 0
      rw [hdeposits]
      rfl
    have hahead : s.clearing.cashAhead u = 0 := by
      show s.settlement.current.elim _ _ = _
      rw [hidle]
      rfl
    rw [hcredit, hahead, Int.add_zero, Int.add_zero] at hmirror
    rw [(heq u hu).1]
    exact hmirror
  · have hmirror := (hsolvent.stock u t hu).mirror ht
    have hahead : s.clearing.stockAhead u t = 0 := by
      show s.settlement.current.elim _ _ = _
      rw [hidle]
      rfl
    rw [hahead, Int.add_zero] at hmirror
    rw [(heq u hu).2 t]
    exact hmirror
  · exact hsolvent.canDebit howned htracked hhand
  · exact hsolvent.canDeliver howned htracked hhand

/-! ## Runs -/

/-- Alice has some cash and bob ten shares. -/
def mirrorUsers (cash : Int64) : UserManager :=
  (sampleUsers.addBalance 1 cash).modifyAccount 2
    fun acc => { acc with availableStock := acc.availableStock.update 1 (· + 10) }

/-- The database says so too. -/
def mirrorDb (cash : Int64) : Database where
  accounts := AList.insert "alice" ⟨1, cash⟩ (AList.insert "bob" ⟨2, 0⟩ ∅)
  holdings := AList.insert ("bob", "AAPL") 10 ∅

theorem lookup_mirrorDb (cash : Int64) (name : String) :
    (mirrorDb cash).accounts.lookup name
      = if name = "alice" then some ⟨1, cash⟩ else if name = "bob" then some ⟨2, 0⟩ else none := by
  refine (UnorderedMap.lookup_insert_eq ..).trans ?_
  rw [UnorderedMap.lookup_insert_eq]
  rfl

theorem holding_mirrorDb (cash : Int64) (name symbol : String) :
    (mirrorDb cash).holding name symbol = if (name, symbol) = ("bob", "AAPL") then 10 else 0 := by
  unfold Database.holding
  refine (congrArg (Option.getD · 0) (UnorderedMap.lookup_insert_eq ..)).trans ?_
  split_ifs <;> rfl

/-- Nobody else has an account. -/
theorem getAccount_mirrorUsers (cash : Int64) {u : UInt64} (h₁ : u ≠ 1) (h₂ : u ≠ 2) :
    (mirrorUsers cash).getAccount u = none := by
  unfold mirrorUsers sampleUsers UserManager.addBalance
  simp only [UserManager.getAccount_modifyAccount, UserManager.getAccount_createUserAccount,
    h₁, h₂, false_and, if_false]
  rfl

theorem hasAccount_mirrorUsers (cash : Int64) (u : UInt64) :
    (mirrorUsers cash).HasAccount u ↔ u = 1 ∨ u = 2 := by
  constructor
  · intro hacc
    by_contra hne
    obtain ⟨h₁, h₂⟩ := not_or.mp hne
    rw [UserManager.HasAccount, getAccount_mirrorUsers cash h₁ h₂] at hacc
    cases hacc
  · rintro (rfl | rfl) <;> rfl

theorem mirrorUsers_nothingFrozen (cash : Int64) : (mirrorUsers cash).NothingFrozen :=
  sampleUsers_nothingFrozen cash

theorem eq_one_of_listed {t : UInt32} (h : (sampleTickers.idToSymbol.lookup t).isSome) :
    t = 1 :=
  List.mem_singleton.mp ((listed_iff sampleTickers t).mpr h)

theorem mirrored (cash : Int64) :
    Clearing.Mirrored (mirrorUsers cash) sampleTickers (mirrorDb cash) where
  rows u name := by
    rw [lookup_mirrorDb, hasAccount_mirrorUsers]
    constructor
    · intro hrow
      split_ifs at hrow with halice hbob
      · obtain rfl := Option.some.inj hrow
        exact ⟨Or.inl rfl, halice.symm⟩
      · obtain rfl := Option.some.inj hrow
        exact ⟨Or.inr rfl, hbob.symm⟩
      · cases hrow
    · rintro ⟨rfl | rfl, rfl⟩ <;> rfl
  balance u hu := by
    rcases (hasAccount_mirrorUsers cash u).mp hu with rfl | rfl
    · exact Int64.zero_add cash
    · rfl
  holding u t hu ht := by
    obtain rfl := eq_one_of_listed ht
    rcases (hasAccount_mirrorUsers cash u).mp hu with rfl | rfl <;> rfl
  unlisted u t ht := by
    have hne : t ≠ 1 := by
      rintro rfl
      cases ht
    by_cases hu : (mirrorUsers cash).HasAccount u
    · rcases (hasAccount_mirrorUsers cash u).mp hu with rfl | rfl
      · rfl
      · exact (StockMap.get_update ..).trans (if_neg hne)
    · exact UserManager.read_of_not_hasAccount _ _ hu
  symbols t t' ht ht' _ := (eq_one_of_listed ht).trans (eq_one_of_listed ht').symm

theorem mirrorDb_noDebts {cash : Int64} (h : 0 ≤ cash.toInt) : Clearing.NoDebts (mirrorDb cash) where
  balance name := by
    unfold Database.balance
    rw [lookup_mirrorDb]
    split_ifs
    · exact h
    · decide
    · decide
  holding name symbol := by
    rw [holding_mirrorDb]
    split_ifs <;> decide

/-- The server after the trade and the rest of its settlement. -/
def mirrorEnd : Exchange :=
  runsTo Exchange.step (Exchange.start (mirrorUsers 1000) sampleTickers (mirrorDb 1000) none)
    (tradeActions ++ [.commitSell])

theorem assets_solvent_sample :
    mirrorEnd.settlement.current = none ∧
      (mirrorEnd.db.balance (mirrorEnd.users.getName 1)).toInt
        = (mirrorEnd.users.availableBalance 1).toInt
          + (mirrorEnd.users.frozenBalance 1).toInt := by
  have hids : DistinctIds mirrorEnd.accepted := by
    unfold DistinctIds
    decide
  have hresult := assets_solvent (mirrorUsers 1000) sampleTickers (mirrorDb 1000) none
    (tradeActions ++ [.commitSell]) mirrorEnd (mirrored 1000) (mirrorUsers_nothingFrozen 1000)
    (mirrorDb_noDebts (by decide)) (by decide) (runs_eq_runsTo _ (by decide)) hids
  exact ⟨by decide, (hresult.2.1 (by decide) (by decide) 1 (by decide)).1⟩

/-- Alice has as much cash as there can be and buys a share for `100`.  When the price has
been taken from the database and not yet from the cache, she pays in `100` and bids all
that is available then. -/
def overflowActions : List Action :=
  [.trade 0 ⟨"bob", 2⟩ ⟨1, 1, 100, 5⟩ 11 0, .trade 1 ⟨"alice", 1⟩ ⟨1, 0, 100, 1⟩ 12 0,
    .appendOrder 0, .appendOrder 1, .logDequeue [0, 1], .logWrite (fun _ => 0) 2,
    .logForward, .logForward, .workerDequeue 1 2, .workerProcess 1 (fun _ => 0) 0,
    .workerProcess 1 (fun _ => 0) 0, .workerPush 1, .settleDequeue [1], .settleStart,
    .settleCall none, .deposit 1 ⟨"alice", 1⟩ ⟨100⟩ none, .addBalance 1,
    .trade 1 ⟨"alice", 1⟩ ⟨1, 0, 9223372036854775807, 1⟩ 13 0]

def overflowEnd : Exchange :=
  runsTo Exchange.step (Exchange.start (mirrorUsers 9223372036854775807) sampleTickers
    (mirrorDb 9223372036854775807) none) overflowActions

/-- A negative row makes the cache negative from the start, and an exact freeze can still
push `frozen_balance` beyond its type. -/
theorem assets_not_solvent :
    (Clearing.Mirrored (mirrorUsers (-5)) sampleTickers (mirrorDb (-5)) ∧
      (mirrorUsers (-5)).NothingFrozen ∧
      ((Exchange.start (mirrorUsers (-5)) sampleTickers (mirrorDb (-5)) none).users.availableBalance
        1).toInt < 0) ∧
    Clearing.Mirrored (mirrorUsers 9223372036854775807) sampleTickers
        (mirrorDb 9223372036854775807) ∧
      (mirrorUsers 9223372036854775807).NothingFrozen ∧
      Clearing.NoDebts (mirrorDb 9223372036854775807) ∧
      Along Exchange.step (Smooth fun _ _ req => req.ExactFreeze)
        (Exchange.start (mirrorUsers 9223372036854775807) sampleTickers
          (mirrorDb 9223372036854775807) none) overflowActions ∧
      runs Exchange.step (Exchange.start (mirrorUsers 9223372036854775807) sampleTickers
        (mirrorDb 9223372036854775807) none) overflowActions = some overflowEnd ∧
      DistinctIds overflowEnd.accepted ∧
      (overflowEnd.users.frozenBalance 1).toInt < 0 := by
  have hids : DistinctIds overflowEnd.accepted := by
    unfold DistinctIds
    decide
  refine ⟨⟨mirrored _, mirrorUsers_nothingFrozen _, by decide⟩, mirrored _,
    mirrorUsers_nothingFrozen _, mirrorDb_noDebts (by decide), by decide,
    runs_eq_runsTo _ (by decide), hids, by decide⟩

end ExchangeServer
