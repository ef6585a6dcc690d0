import Mathlib.Algebra.BigOperators.Group.Finset.Piecewise
import Mathlib.Data.Fintype.BigOperators
import ExchangeServer.Lib.Containers
import ExchangeServer.Lib.Machine

/-!
# The account cache

`UserManager.hpp`: the cash and the shares of every user, each split into what is
available and what is frozen, in 256 buckets by user id.  Every operation takes
the lock of the account it works on, so each is one step.

Amounts are `int64_t` and share counts are `int`; where an addition leaves their
range the model wraps around.

The operations find an account or do nothing (`getAccount_modifyAccount`), and a
sum over all accounts moves by what the one account moves
(`total_modifyAccount`): these two facts are all that is used of the buckets.
-/

namespace ExchangeServer

open Lib

/-! ## Accounts -/

/-- Shares by ticker. -/
abbrev StockMap := UnorderedMap UInt32 Int32

namespace StockMap

/-- What `operator[]` reads: the shares of a ticker, `0` when it has no entry. -/
def get (m : StockMap) (tickerId : UInt32) : Int32 :=
  (m.lookup tickerId).getD 0

/-- `operator[]` followed by an assignment. -/
def update (m : StockMap) (tickerId : UInt32) (f : Int32 → Int32) : StockMap :=
  AList.insert tickerId (f (get m tickerId)) m

theorem get_update (m : StockMap) (t t' : UInt32) (f : Int32 → Int32) :
    get (update m t f) t' = if t' = t then f (get m t) else get m t' := by
  unfold get update
  rw [UnorderedMap.lookup_insert_eq]
  split_ifs <;> rfl

end StockMap

/-- `UserAccount`. -/
structure UserAccount where
  userId : UInt64
  username : String
  availableBalance : Int64
  frozenBalance : Int64
  availableStock : StockMap
  frozenStock : StockMap

namespace UserAccount

/-- The account `createUserAccount` makes. -/
def new (userId : UInt64) (username : String) : UserAccount :=
  ⟨userId, username, 0, 0, ∅, ∅⟩

/-- The body of `tryFreezeBalance`, when there is enough. -/
def freezeBalance (amount : Int64) (acc : UserAccount) : UserAccount :=
  { acc with
    availableBalance := acc.availableBalance - amount
    frozenBalance := acc.frozenBalance + amount }

/-- The body of `tryFreezeStock`, when there is enough. -/
def freezeStock (tickerId : UInt32) (qty : Int32) (acc : UserAccount) : UserAccount :=
  { acc with
    availableStock := acc.availableStock.update tickerId (· - qty)
    frozenStock := acc.frozenStock.update tickerId (· + qty) }

/-- The comparison of `tryFreezeStock` reads the entry with `operator[]`, which
creates it when it is not there. -/
def touchStock (tickerId : UInt32) (acc : UserAccount) : UserAccount :=
  { acc with availableStock := acc.availableStock.update tickerId id }

/-- The body of `commitBuy`. -/
def commitBuy (tickerId : UInt32) (cost : Int64) (qty : Int32) (refundDiff : Int64)
    (acc : UserAccount) : UserAccount :=
  { acc with
    frozenBalance := acc.frozenBalance - (cost + refundDiff)
    availableBalance := acc.availableBalance + refundDiff
    availableStock := acc.availableStock.update tickerId (· + qty) }

/-- The body of `commitSell`. -/
def commitSell (tickerId : UInt32) (revenue : Int64) (qty : Int32) (acc : UserAccount) :
    UserAccount :=
  { acc with
    frozenStock := acc.frozenStock.update tickerId (· - qty)
    availableBalance := acc.availableBalance + revenue }

/-- The body of `unfreezeBalance`. -/
def unfreezeBalance (amount : Int64) (acc : UserAccount) : UserAccount :=
  { acc with
    frozenBalance := acc.frozenBalance - amount
    availableBalance := acc.availableBalance + amount }

/-- The body of `unfreezeStock`. -/
def unfreezeStock (tickerId : UInt32) (qty : Int32) (acc : UserAccount) : UserAccount :=
  { acc with
    frozenStock := acc.frozenStock.update tickerId (· - qty)
    availableStock := acc.availableStock.update tickerId (· + qty) }

/-- The body of `addBalance`. -/
def addBalance (amount : Int64) (acc : UserAccount) : UserAccount :=
  { acc with availableBalance := acc.availableBalance + amount }

end UserAccount

/-! ## The buckets -/

/-- `AccountBucket`.  `find_account_` points to the accounts of `account_`; the
id stands for the pointer. -/
structure AccountBucket where
  account : UnorderedMap UInt64 UserAccount
  findAccount : UnorderedMap String UInt64

/-- `UserManager`. -/
structure UserManager where
  bucket : Fin 256 → AccountBucket

namespace UserManager

/-- The manager as constructed. -/
def new : UserManager := ⟨fun _ => ⟨∅, ∅⟩⟩

/-- `IdToMtx`: `uid % mtx_count`. -/
def idToMtx (uid : UInt64) : Fin 256 :=
  Fin.ofNat 256 uid.toNat

/-- `UserManager::getAccount`. -/
def getAccount (m : UserManager) (uid : UInt64) : Option UserAccount :=
  (m.bucket (idToMtx uid)).account.lookup uid

/-- Write through the pointer `getAccount` returns. -/
def modifyAccount (m : UserManager) (uid : UInt64) (f : UserAccount → UserAccount) :
    UserManager :=
  ⟨Function.update m.bucket (idToMtx uid)
    { m.bucket (idToMtx uid) with
      account := UnorderedMap.modify (m.bucket (idToMtx uid)).account uid f }⟩

/-- `UserManager::createUserAccount`. -/
def createUserAccount (m : UserManager) (uid : UInt64) (username : String) : UserManager :=
  match m.getAccount uid with
  | some _ => m
  | none =>
      let b := m.bucket (idToMtx uid)
      ⟨Function.update m.bucket (idToMtx uid)
        { findAccount := AList.insert username uid b.findAccount
          account := AList.insert uid (UserAccount.new uid username) b.account }⟩

/-- `UserManager::getName`. -/
def getName (m : UserManager) (uid : UInt64) : String :=
  match m.getAccount uid with
  | none => "UNKNOWN"
  | some acc => acc.username

/-- `UserManager::tryFreezeBalance`. -/
def tryFreezeBalance (m : UserManager) (uid : UInt64) (amount : Int64) : UserManager × Bool :=
  match m.getAccount uid with
  | none => (m, false)
  | some acc =>
      if acc.availableBalance ≥ amount then
        (m.modifyAccount uid (UserAccount.freezeBalance amount), true)
      else (m, false)

/-- `UserManager::tryFreezeStock`. -/
def tryFreezeStock (m : UserManager) (uid : UInt64) (tickerId : UInt32) (qty : Int32) :
    UserManager × Bool :=
  match m.getAccount uid with
  | none => (m, false)
  | some acc =>
      if acc.availableStock.get tickerId ≥ qty then
        (m.modifyAccount uid (UserAccount.freezeStock tickerId qty), true)
      else (m.modifyAccount uid (UserAccount.touchStock tickerId), false)

/-- `UserManager::commitBuy`. -/
def commitBuy (m : UserManager) (uid : UInt64) (tickerId : UInt32) (cost : Int64) (qty : Int32)
    (refundDiff : Int64) : UserManager :=
  m.modifyAccount uid (UserAccount.commitBuy tickerId cost qty refundDiff)

/-- `UserManager::commitSell`. -/
def commitSell (m : UserManager) (uid : UInt64) (tickerId : UInt32) (revenue : Int64)
    (qty : Int32) : UserManager :=
  m.modifyAccount uid (UserAccount.commitSell tickerId revenue qty)

/-- `UserManager::unfreezeBalance`. -/
def unfreezeBalance (m : UserManager) (uid : UInt64) (amount : Int64) : UserManager :=
  m.modifyAccount uid (UserAccount.unfreezeBalance amount)

/-- `UserManager::unfreezeStock`. -/
def unfreezeStock (m : UserManager) (uid : UInt64) (tickerId : UInt32) (qty : Int32) :
    UserManager :=
  m.modifyAccount uid (UserAccount.unfreezeStock tickerId qty)

/-- `UserManager::addBalance`. -/
def addBalance (m : UserManager) (uid : UInt64) (amount : Int64) : UserManager :=
  m.modifyAccount uid (UserAccount.addBalance amount)

/-- `UserManager::getBalance`. -/
def getBalance (m : UserManager) (uid : UInt64) : Int64 :=
  match m.getAccount uid with
  | none => 0
  | some acc => acc.availableBalance

/-! ## Finding accounts -/

theorem getAccount_modifyAccount (m : UserManager) (uid uid' : UInt64)
    (f : UserAccount → UserAccount) :
    (m.modifyAccount uid f).getAccount uid' =
      if uid' = uid then (m.getAccount uid).map f else m.getAccount uid' := by
  unfold getAccount modifyAccount
  by_cases hb : idToMtx uid' = idToMtx uid
  · rw [hb]
    simp only [Function.update_self]
    exact UnorderedMap.lookup_modify _ uid uid' f
  · have hne : uid' ≠ uid := fun h => hb (h ▸ rfl)
    rw [if_neg hne]
    simp only [Function.update_of_ne hb]

theorem getAccount_createUserAccount (m : UserManager) (uid uid' : UInt64) (name : String) :
    (m.createUserAccount uid name).getAccount uid' =
      if uid' = uid ∧ m.getAccount uid = none then some (UserAccount.new uid name)
      else m.getAccount uid' := by
  unfold createUserAccount
  cases hacc : m.getAccount uid with
  | some acc => simp
  | none =>
      simp only [and_true]
      unfold getAccount
      by_cases hb : idToMtx uid' = idToMtx uid
      · rw [hb]
        simp only [Function.update_self]
        exact UnorderedMap.lookup_insert_eq _ uid uid' _
      · have hne : uid' ≠ uid := fun h => hb (h ▸ rfl)
        rw [if_neg hne]
        simp only [Function.update_of_ne hb]

/-- A user has an account. -/
def HasAccount (m : UserManager) (uid : UInt64) : Prop :=
  (m.getAccount uid).isSome

instance (m : UserManager) (uid : UInt64) : Decidable (m.HasAccount uid) := by
  unfold HasAccount
  infer_instance

/-- No operation removes an account. -/
theorem hasAccount_modifyAccount (m : UserManager) (uid uid' : UInt64)
    (f : UserAccount → UserAccount) :
    (m.modifyAccount uid f).HasAccount uid' ↔ m.HasAccount uid' := by
  unfold HasAccount
  rw [getAccount_modifyAccount]
  split_ifs with h
  · rw [h, Option.isSome_map]
  · rfl

theorem HasAccount.create {m : UserManager} {uid' : UInt64} (h : m.HasAccount uid')
    (uid : UInt64) (name : String) : (m.createUserAccount uid name).HasAccount uid' := by
  unfold HasAccount at *
  rw [getAccount_createUserAccount]
  split_ifs
  · rfl
  · exact h

/-! ## Reading accounts -/

section Read

variable {α : Type*} (d : α) (f : UserAccount → α)

/-- A field of a user's account, `d` when there is none. -/
def read (m : UserManager) (uid : UInt64) : α :=
  ((m.getAccount uid).map f).getD d

theorem read_modifyAccount (m : UserManager) (uid uid' : UInt64) (g : UserAccount → UserAccount) :
    read d f (m.modifyAccount uid g) uid' =
      if uid' = uid then read d (f ∘ g) m uid else read d f m uid' := by
  unfold read
  rw [getAccount_modifyAccount]
  split_ifs with h
  · rw [Option.map_map]
  · rfl

/-- A field that an operation leaves alone. -/
theorem read_modifyAccount_same (m : UserManager) (uid uid' : UInt64)
    {g : UserAccount → UserAccount} (h : ∀ acc, f (g acc) = f acc) :
    read d f (m.modifyAccount uid g) uid' = read d f m uid' := by
  rw [read_modifyAccount]
  split_ifs with heq
  · have hcomp : f ∘ g = f := funext h
    rw [heq, hcomp]
  · rfl

/-- A new account reads as no account does. -/
theorem read_createUserAccount (m : UserManager) (uid uid' : UInt64) (name : String)
    (h : f (UserAccount.new uid name) = d) :
    read d f (m.createUserAccount uid name) uid' = read d f m uid' := by
  unfold read
  rw [getAccount_createUserAccount]
  split_ifs with heq
  · obtain ⟨rfl, hnone⟩ := heq
    rw [hnone]
    exact h
  · rfl

theorem read_of_getAccount {m : UserManager} {uid : UInt64} {acc : UserAccount}
    (h : m.getAccount uid = some acc) : read d f m uid = f acc := by
  rw [read, h]
  rfl

/-- A user without an account has nothing. -/
theorem read_of_not_hasAccount {m : UserManager} {u : UInt64} (h : ¬ m.HasAccount u) :
    read d f m u = d := by
  rw [read, Option.not_isSome_iff_eq_none.mp h]
  rfl

end Read

/-- `frozen_balance` of a user. -/
def frozenBalance (m : UserManager) (uid : UInt64) : Int64 :=
  read 0 UserAccount.frozenBalance m uid

/-- `available_balance` of a user. -/
def availableBalance (m : UserManager) (uid : UInt64) : Int64 :=
  read 0 UserAccount.availableBalance m uid

/-- `frozen_stock` of a user in a ticker. -/
def frozenStock (m : UserManager) (uid : UInt64) (tickerId : UInt32) : Int32 :=
  read 0 (fun acc => acc.frozenStock.get tickerId) m uid

/-- `available_stock` of a user in a ticker. -/
def availableStock (m : UserManager) (uid : UInt64) (tickerId : UInt32) : Int32 :=
  read 0 (fun acc => acc.availableStock.get tickerId) m uid

/-- Nothing is frozen. -/
def NothingFrozen (m : UserManager) : Prop :=
  ∀ u, m.frozenBalance u = 0 ∧ ∀ t, m.frozenStock u t = 0

namespace NothingFrozen

theorem new : UserManager.new.NothingFrozen :=
  fun _ => ⟨rfl, fun _ => rfl⟩

variable {m : UserManager} (h : m.NothingFrozen) (uid : UInt64)
include h

theorem create (username : String) : (m.createUserAccount uid username).NothingFrozen :=
  fun u => ⟨(read_createUserAccount _ _ m uid u username rfl).trans (h u).1,
    fun t => (read_createUserAccount _ _ m uid u username rfl).trans ((h u).2 t)⟩

/-- An operation that leaves the frozen amounts of an account alone. -/
theorem modify {g : UserAccount → UserAccount}
    (hbalance : ∀ acc, (g acc).frozenBalance = acc.frozenBalance)
    (hstock : ∀ acc, (g acc).frozenStock = acc.frozenStock) :
    (m.modifyAccount uid g).NothingFrozen := by
  intro u
  refine ⟨(read_modifyAccount_same _ _ m uid u hbalance).trans (h u).1, fun t => ?_⟩
  exact (read_modifyAccount_same _ _ m uid u fun acc => by rw [hstock acc]).trans ((h u).2 t)

end NothingFrozen

/-! ## Sums over all accounts -/

section Total

variable (f : UserAccount → ℤ)

/-- The sum of `f` over all accounts. -/
def total (m : UserManager) : ℤ :=
  ∑ i, UnorderedMap.total (fun _ acc => f acc) (m.bucket i).account

/-- Replacing one bucket replaces its part of the sum. -/
theorem total_update (m : UserManager) (i : Fin 256) (b : AccountBucket) :
    total f ⟨Function.update m.bucket i b⟩
        + UnorderedMap.total (fun _ acc => f acc) (m.bucket i).account
      = total f m + UnorderedMap.total (fun _ acc => f acc) b.account := by
  have hsplit : ∀ g : Fin 256 → AccountBucket,
      (∑ j, UnorderedMap.total (fun _ acc => f acc) (g j).account)
        = UnorderedMap.total (fun _ acc => f acc) (g i).account
          + ∑ j ∈ Finset.univ.erase i, UnorderedMap.total (fun _ acc => f acc) (g j).account :=
    fun g => (Finset.add_sum_erase _ _ (Finset.mem_univ i)).symm
  have hother : ∑ j ∈ Finset.univ.erase i,
        UnorderedMap.total (fun _ acc => f acc) (Function.update m.bucket i b j).account
      = ∑ j ∈ Finset.univ.erase i,
        UnorderedMap.total (fun _ acc => f acc) (m.bucket j).account := by
    refine Finset.sum_congr rfl fun j hj => ?_
    rw [Function.update_of_ne (Finset.ne_of_mem_erase hj)]
  unfold total
  rw [hsplit (Function.update m.bucket i b), hsplit m.bucket, hother, Function.update_self]
  omega

/-- **A sum over all accounts moves by what one account moves.** -/
theorem total_modifyAccount {m : UserManager} {uid : UInt64} {acc : UserAccount}
    (h : m.getAccount uid = some acc) (g : UserAccount → UserAccount) :
    total f (m.modifyAccount uid g) = total f m + (f (g acc) - f acc) := by
  have hbucket := total_update f m (idToMtx uid)
    { m.bucket (idToMtx uid) with
      account := UnorderedMap.modify (m.bucket (idToMtx uid)).account uid g }
  have haccount := UnorderedMap.total_modify (fun _ acc => f acc) h g
  unfold modifyAccount
  dsimp only at *
  omega

theorem modifyAccount_of_none {m : UserManager} {uid : UInt64}
    (h : m.getAccount uid = none) (g : UserAccount → UserAccount) :
    m.modifyAccount uid g = m := by
  have hsame : UnorderedMap.modify (m.bucket (idToMtx uid)).account uid g
      = (m.bucket (idToMtx uid)).account := by
    unfold getAccount at h
    unfold UnorderedMap.modify
    rw [h]
  unfold modifyAccount
  rw [hsame, Function.update_eq_self]

/-- A new account adds what is in it. -/
theorem total_createUserAccount (m : UserManager) (uid : UInt64) (name : String)
    (h : f (UserAccount.new uid name) = 0) :
    total f (m.createUserAccount uid name) = total f m := by
  unfold createUserAccount
  cases hacc : m.getAccount uid with
  | some acc => rfl
  | none =>
      have hbucket := total_update f m (idToMtx uid)
        { findAccount := AList.insert name uid (m.bucket (idToMtx uid)).findAccount
          account := AList.insert uid (UserAccount.new uid name)
            (m.bucket (idToMtx uid)).account }
      have haccount := UnorderedMap.total_insert_of_none (fun _ acc => f acc) hacc
        (UserAccount.new uid name)
      dsimp only at *
      omega

end Total

end UserManager

end ExchangeServer
