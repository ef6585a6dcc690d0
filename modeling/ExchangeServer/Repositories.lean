import ExchangeServer.Lib.Containers
import ExchangeServer.Lib.Machine

/-!
# The database

The two tables that settlement and deposits write, `accounts` and `holdings`, and
the four repository calls that write them (`UserRepositoryImpl.cpp`,
`StockRepositoryImpl.cpp`).  Each call is one SQL statement, which MySQL runs
atomically.

A statement can fail: at `mysql_stmt_prepare`, at `mysql_stmt_execute` (a lost
connection, say), or because the value it computes does not fit its column.  A
failed statement writes nothing.  `Call` separates what the statement did to the
tables from what the C++ function makes of it: after a failed `UPDATE`,
`mysql_stmt_affected_rows` is the all-ones value, which the two `deduct` functions
report as success.
-/

namespace ExchangeServer

open Lib

/-- A row of `accounts`: `balance` is a `BIGINT` column; the password is not read
here. -/
structure AccountRow where
  id : UInt64
  balance : Int64
deriving DecidableEq, Repr

/-- The tables: accounts by username, holdings by username and symbol, whose
`quantity` is an `INT` column. -/
structure Database where
  accounts : UnorderedMap String AccountRow
  holdings : UnorderedMap (String × String) Int32

/-- The value fits a `BIGINT` column. -/
def FitsBigint (x : ℤ) : Prop := -2 ^ 63 ≤ x ∧ x < 2 ^ 63

/-- The value fits an `INT` column. -/
def FitsInt (x : ℤ) : Prop := -2 ^ 31 ≤ x ∧ x < 2 ^ 31

instance (x : ℤ) : Decidable (FitsBigint x) := by unfold FitsBigint; infer_instance

instance (x : ℤ) : Decidable (FitsInt x) := by unfold FitsInt; infer_instance

/-- Where a statement fails for reasons outside the tables. -/
inductive Fault where
  | prepare
  | execute
deriving DecidableEq, Repr

/-- A repository call: the tables after it, whether the statement wrote its row,
whether the database reported an error, and what the C++ function returned. -/
structure Call where
  db : Database
  applied : Bool
  error : Bool
  returned : Bool

namespace Database

/-- The cash of a user, `0` without a row. -/
def balance (db : Database) (username : String) : Int64 :=
  ((db.accounts.lookup username).map AccountRow.balance).getD 0

/-- The shares of a user in a stock, `0` without a row. -/
def holding (db : Database) (username symbol : String) : Int32 :=
  (db.holdings.lookup (username, symbol)).getD 0

/-- Write the balance of an existing row. -/
def setBalance (db : Database) (username : String) (balance : Int64) : Database :=
  { db with
    accounts := UnorderedMap.modify db.accounts username fun row => { row with balance } }

/-- Write a holding, in its row or a new one. -/
def setHolding (db : Database) (username symbol : String) (quantity : Int32) : Database :=
  { db with holdings := AList.insert (username, symbol) quantity db.holdings }

/-! ## The four calls -/

/-- A statement that fails before it reaches the tables. -/
def failed (db : Database) (returned : Bool) : Call :=
  ⟨db, false, true, returned⟩

/-- `UserRepositoryImpl::updateBalance`. -/
def updateBalance (db : Database) (fault : Option Fault) (username : String) (amount : Int64) :
    Call :=
  match fault with
  | some _ => db.failed false
  | none =>
      match db.accounts.lookup username with
      | none => ⟨db, false, false, true⟩
      | some row =>
          if FitsBigint (row.balance.toInt + amount.toInt) then
            ⟨db.setBalance username (row.balance + amount), true, false, true⟩
          else db.failed false

/-- `UserRepositoryImpl::deductBalance`; `affected_rows` counts rows whose value
changed. -/
def deductBalance (db : Database) (fault : Option Fault) (username : String) (amount : Int64) :
    Call :=
  match fault with
  | some .prepare => db.failed false
  | some .execute => db.failed true
  | none =>
      match db.accounts.lookup username with
      | none => ⟨db, false, false, false⟩
      | some row =>
          if row.balance ≥ amount then
            if FitsBigint (row.balance.toInt - amount.toInt) then
              ⟨db.setBalance username (row.balance - amount), true, false, amount ≠ 0⟩
            else db.failed true
          else ⟨db, false, false, false⟩

/-- `StockRepositoryImpl::updateStockHolding`. -/
def updateStockHolding (db : Database) (fault : Option Fault) (username symbol : String)
    (delta : Int32) : Call :=
  match fault with
  | some _ => db.failed false
  | none =>
      if FitsInt ((db.holding username symbol).toInt + delta.toInt) then
        ⟨db.setHolding username symbol (db.holding username symbol + delta), true, false, true⟩
      else db.failed false

/-- `StockRepositoryImpl::deductStockHolding`. -/
def deductStockHolding (db : Database) (fault : Option Fault) (username symbol : String)
    (amount : Int32) : Call :=
  match fault with
  | some .prepare => db.failed false
  | some .execute => db.failed true
  | none =>
      match db.holdings.lookup (username, symbol) with
      | none => ⟨db, false, false, false⟩
      | some quantity =>
          if quantity ≥ amount then
            if FitsInt (quantity.toInt - amount.toInt) then
              ⟨db.setHolding username symbol (quantity - amount), true, false, amount ≠ 0⟩
            else db.failed true
          else ⟨db, false, false, false⟩

/-! ## When a statement writes -/

/-- The row is there and the sum fits. -/
def CanCredit (db : Database) (username : String) (amount : Int64) : Prop :=
  ∃ row, db.accounts.lookup username = some row ∧
    FitsBigint (row.balance.toInt + amount.toInt)

/-- The row is there, holds enough, and the difference fits. -/
def CanDebit (db : Database) (username : String) (amount : Int64) : Prop :=
  ∃ row, db.accounts.lookup username = some row ∧ amount.toInt ≤ row.balance.toInt ∧
    FitsBigint (row.balance.toInt - amount.toInt)

/-- The sum fits; a missing row counts as `0`. -/
def CanReceive (db : Database) (username symbol : String) (delta : Int32) : Prop :=
  FitsInt ((db.holding username symbol).toInt + delta.toInt)

/-- The row is there, holds enough, and the difference fits. -/
def CanDeliver (db : Database) (username symbol : String) (amount : Int32) : Prop :=
  ∃ quantity, db.holdings.lookup (username, symbol) = some quantity ∧
    amount.toInt ≤ quantity.toInt ∧ FitsInt (quantity.toInt - amount.toInt)

/-- What can be written to the accounts depends on the accounts alone. -/
theorem canCredit_congr {db db' : Database} (h : db.accounts = db'.accounts) (username : String)
    (amount : Int64) : db.CanCredit username amount ↔ db'.CanCredit username amount := by
  unfold CanCredit
  rw [h]

/-- What can be written to the holdings depends on the holdings alone. -/
theorem canReceive_congr {db db' : Database} (h : db.holdings = db'.holdings)
    (username symbol : String) (delta : Int32) :
    db.CanReceive username symbol delta ↔ db'.CanReceive username symbol delta := by
  unfold CanReceive holding
  rw [h]

theorem canDeliver_congr {db db' : Database} (h : db.holdings = db'.holdings)
    (username symbol : String) (amount : Int32) :
    db.CanDeliver username symbol amount ↔ db'.CanDeliver username symbol amount := by
  unfold CanDeliver
  rw [h]

section Apply

variable (db : Database) (fault : Option Fault) (username symbol : String)

theorem updateBalance_spec (amount : Int64) :
    let call := db.updateBalance fault username amount
    (call.applied = true ↔ fault = none ∧ db.CanCredit username amount) ∧
      call.db = if call.applied then
        db.setBalance username (db.balance username + amount) else db := by
  unfold updateBalance CanCredit balance
  cases fault with
  | some f => simp [failed]
  | none =>
      cases hrow : db.accounts.lookup username with
      | none => simp
      | some row =>
          by_cases hfits : FitsBigint (row.balance.toInt + amount.toInt) <;>
            simp [hfits, failed]

theorem deductBalance_spec (amount : Int64) :
    let call := db.deductBalance fault username amount
    (call.applied = true ↔ fault = none ∧ db.CanDebit username amount) ∧
      call.db = if call.applied then
        db.setBalance username (db.balance username - amount) else db := by
  unfold deductBalance CanDebit balance
  cases fault with
  | some f => cases f <;> simp [failed]
  | none =>
      cases hrow : db.accounts.lookup username with
      | none => simp
      | some row =>
          by_cases hle : amount.toInt ≤ row.balance.toInt
          · by_cases hfits : FitsBigint (row.balance.toInt - amount.toInt) <;>
              simp [Int64.le_iff_toInt_le, hle, hfits, failed]
          · simp [Int64.le_iff_toInt_le, hle]

theorem updateStockHolding_spec (delta : Int32) :
    let call := db.updateStockHolding fault username symbol delta
    (call.applied = true ↔ fault = none ∧ db.CanReceive username symbol delta) ∧
      call.db = if call.applied then
        db.setHolding username symbol (db.holding username symbol + delta) else db := by
  unfold updateStockHolding CanReceive
  cases fault with
  | some f => simp [failed]
  | none =>
      by_cases hfits : FitsInt ((db.holding username symbol).toInt + delta.toInt) <;>
        simp [hfits, failed]

theorem deductStockHolding_spec (amount : Int32) :
    let call := db.deductStockHolding fault username symbol amount
    (call.applied = true ↔ fault = none ∧ db.CanDeliver username symbol amount) ∧
      call.db = if call.applied then
        db.setHolding username symbol (db.holding username symbol - amount) else db := by
  unfold deductStockHolding CanDeliver holding
  cases fault with
  | some f => cases f <;> simp [failed]
  | none =>
      cases hrow : db.holdings.lookup (username, symbol) with
      | none => simp
      | some quantity =>
          by_cases hle : amount.toInt ≤ quantity.toInt
          · by_cases hfits : FitsInt (quantity.toInt - amount.toInt) <;>
              simp [Int32.le_iff_toInt_le, hle, hfits, failed]
          · simp [Int32.le_iff_toInt_le, hle]

/-! ### Calls without an error -/

variable {db fault username symbol}

theorem canCredit_of_no_error {amount : Int64}
    (hrow : (db.accounts.lookup username).isSome)
    (h : (db.updateBalance fault username amount).error = false) :
    fault = none ∧ db.CanCredit username amount := by
  obtain ⟨row, hrow⟩ := Option.isSome_iff_exists.mp hrow
  unfold updateBalance at h
  cases fault with
  | some f => cases h
  | none =>
      simp only [hrow] at h
      split_ifs at h with hfits
      · exact ⟨rfl, row, hrow, hfits⟩
      · cases h

theorem returned_of_no_error {amount : Int64}
    (h : (db.updateBalance fault username amount).error = false) :
    (db.updateBalance fault username amount).returned = true := by
  unfold updateBalance at h ⊢
  cases fault with
  | some f => cases h
  | none =>
      cases hrow : db.accounts.lookup username with
      | none => rfl
      | some row =>
          simp only [hrow] at h ⊢
          split_ifs at h ⊢
          · rfl
          · cases h

theorem canReceive_of_no_error {delta : Int32}
    (h : (db.updateStockHolding fault username symbol delta).error = false) :
    fault = none ∧ db.CanReceive username symbol delta := by
  unfold updateStockHolding at h
  cases fault with
  | some f => cases h
  | none =>
      simp only at h
      split_ifs at h with hfits
      · exact ⟨rfl, hfits⟩
      · cases h

theorem deductBalance_fault {amount : Int64}
    (h : (db.deductBalance fault username amount).error = false) : fault = none := by
  cases fault with
  | none => rfl
  | some f => cases f <;> cases h

theorem deductStockHolding_fault {amount : Int32}
    (h : (db.deductStockHolding fault username symbol amount).error = false) :
    fault = none := by
  cases fault with
  | none => rfl
  | some f => cases f <;> cases h

end Apply

/-! ## Reading after writing -/

section Read

variable (db : Database) (username username' symbol symbol' : String)

theorem lookup_setBalance (x : Int64) :
    (db.setBalance username x).accounts.lookup username' =
      if username' = username then
        (db.accounts.lookup username).map fun row => { row with balance := x }
      else db.accounts.lookup username' :=
  UnorderedMap.lookup_modify _ _ _ _

/-- Whose row it is does not change. -/
theorem id_setBalance (x : Int64) :
    ((db.setBalance username x).accounts.lookup username').map AccountRow.id
      = (db.accounts.lookup username').map AccountRow.id := by
  rw [lookup_setBalance]
  split_ifs with h
  · rw [h, Option.map_map]
    rfl
  · rfl

@[simp] theorem holdings_setBalance (x : Int64) :
    (db.setBalance username x).holdings = db.holdings := rfl

@[simp] theorem holding_setBalance (x : Int64) :
    (db.setBalance username x).holding username' symbol = db.holding username' symbol := rfl

@[simp] theorem accounts_setHolding (x : Int32) :
    (db.setHolding username symbol x).accounts = db.accounts := rfl

@[simp] theorem balance_setHolding (x : Int32) :
    (db.setHolding username symbol x).balance username' = db.balance username' := rfl

theorem lookup_setHolding (x : Int32) :
    (db.setHolding username symbol x).holdings.lookup (username', symbol') =
      if (username', symbol') = (username, symbol) then some x
      else db.holdings.lookup (username', symbol') :=
  UnorderedMap.lookup_insert_eq _ _ _ _

theorem holding_setHolding (x : Int32) :
    (db.setHolding username symbol x).holding username' symbol' =
      if (username', symbol') = (username, symbol) then x
      else db.holding username' symbol' := by
  unfold holding
  rw [lookup_setHolding]
  split_ifs <;> rfl

variable {db username}

theorem balance_of_lookup {row : AccountRow} (h : db.accounts.lookup username = some row) :
    db.balance username = row.balance := by
  rw [balance, h]
  rfl

theorem balance_setBalance (hrow : (db.accounts.lookup username).isSome) (x : Int64) :
    (db.setBalance username x).balance username' =
      if username' = username then x else db.balance username' := by
  obtain ⟨row, hrow⟩ := Option.isSome_iff_exists.mp hrow
  unfold balance
  rw [lookup_setBalance]
  split_ifs with h
  · rw [hrow]
    rfl
  · rfl

end Read

/-! ## What a call that writes does to the numbers -/

section Write

variable {db : Database} {fault : Option Fault} {username symbol : String}

theorem balance_updateBalance {amount : Int64}
    (h : (db.updateBalance fault username amount).applied = true) (username' : String) :
    ((db.updateBalance fault username amount).db.balance username').toInt
      = (db.balance username').toInt + if username' = username then amount.toInt else 0 := by
  obtain ⟨happlied, hdb⟩ := db.updateBalance_spec fault username amount
  obtain ⟨-, row, hrow, hfits⟩ := happlied.mp h
  rw [hdb, if_pos h, balance_setBalance username' (Option.isSome_of_mem hrow)]
  split_ifs with heq
  · rw [heq, balance_of_lookup hrow, int64_add_of_range hfits.1 hfits.2]
  · rw [Int.add_zero]

theorem balance_deductBalance {amount : Int64}
    (h : (db.deductBalance fault username amount).applied = true) (username' : String) :
    ((db.deductBalance fault username amount).db.balance username').toInt
      = (db.balance username').toInt - if username' = username then amount.toInt else 0 := by
  obtain ⟨happlied, hdb⟩ := db.deductBalance_spec fault username amount
  obtain ⟨-, row, hrow, -, hfits⟩ := happlied.mp h
  rw [hdb, if_pos h, balance_setBalance username' (Option.isSome_of_mem hrow)]
  split_ifs with heq
  · rw [heq, balance_of_lookup hrow, int64_sub_of_range hfits.1 hfits.2]
  · rw [Int.sub_zero]

theorem holding_updateStockHolding {delta : Int32}
    (h : (db.updateStockHolding fault username symbol delta).applied = true)
    (username' symbol' : String) :
    ((db.updateStockHolding fault username symbol delta).db.holding username' symbol').toInt
      = (db.holding username' symbol').toInt
        + if (username', symbol') = (username, symbol) then delta.toInt else 0 := by
  obtain ⟨happlied, hdb⟩ := db.updateStockHolding_spec fault username symbol delta
  obtain ⟨-, hfits⟩ := happlied.mp h
  rw [hdb, if_pos h, holding_setHolding]
  split_ifs with heq
  · obtain ⟨rfl, rfl⟩ := Prod.mk.inj heq
    rw [int32_add_of_range hfits.1 hfits.2]
  · rw [Int.add_zero]

theorem holding_deductStockHolding {amount : Int32}
    (h : (db.deductStockHolding fault username symbol amount).applied = true)
    (username' symbol' : String) :
    ((db.deductStockHolding fault username symbol amount).db.holding username' symbol').toInt
      = (db.holding username' symbol').toInt
        - if (username', symbol') = (username, symbol) then amount.toInt else 0 := by
  obtain ⟨happlied, hdb⟩ := db.deductStockHolding_spec fault username symbol amount
  obtain ⟨-, quantity, hrow, -, hfits⟩ := happlied.mp h
  have hholding : db.holding username symbol = quantity := by
    rw [holding, hrow]
    rfl
  rw [hdb, if_pos h, holding_setHolding]
  split_ifs with heq
  · obtain ⟨rfl, rfl⟩ := Prod.mk.inj heq
    rw [hholding, int32_sub_of_range hfits.1 hfits.2]
  · rw [Int.sub_zero]

end Write

/-! ## Totals -/

/-- All cash in the database. -/
def totalBalance (db : Database) : ℤ :=
  UnorderedMap.total (fun _ row => row.balance.toInt) db.accounts

/-- All shares of a stock in the database. -/
def totalHolding (db : Database) (symbol : String) : ℤ :=
  UnorderedMap.total (fun key quantity => if key.2 = symbol then quantity.toInt else 0)
    db.holdings

theorem totalBalance_setBalance (db : Database) (username : String)
    (hrow : (db.accounts.lookup username).isSome) (x : Int64) :
    (db.setBalance username x).totalBalance
      = db.totalBalance + (x.toInt - (db.balance username).toInt) := by
  obtain ⟨row, hrow⟩ := Option.isSome_iff_exists.mp hrow
  have h := UnorderedMap.total_modify (fun _ row => row.balance.toInt) hrow
    fun row => { row with balance := x }
  rw [balance_of_lookup hrow]
  unfold totalBalance setBalance
  dsimp only at *
  omega

theorem totalBalance_congr {db db' : Database} (h : db.accounts = db'.accounts) :
    db.totalBalance = db'.totalBalance := by
  unfold totalBalance
  rw [h]

theorem totalHolding_congr {db db' : Database} (h : db.holdings = db'.holdings)
    (symbol : String) : db.totalHolding symbol = db'.totalHolding symbol := by
  unfold totalHolding
  rw [h]

theorem totalHolding_setHolding (db : Database) (username symbol symbol' : String) (x : Int32) :
    (db.setHolding username symbol x).totalHolding symbol'
      = db.totalHolding symbol' +
        if symbol = symbol' then x.toInt - (db.holding username symbol).toInt else 0 := by
  unfold totalHolding setHolding holding
  cases hrow : db.holdings.lookup (username, symbol) with
  | none =>
      rw [UnorderedMap.total_insert_of_none _ hrow]
      by_cases h : symbol = symbol'
      · simp [h]
        omega
      · simp [h]
  | some quantity =>
      rw [UnorderedMap.total_insert, UnorderedMap.total_of_lookup _ hrow]
      by_cases h : symbol = symbol'
      · simp [h]
        omega
      · simp [h]

end Database

end ExchangeServer
