import ExchangeServer.Lib.CriticalSections
import ExchangeServer.Startup

/-!
# The account cache, access by access

`UserManager` taken apart: each method is what its thread does under which lock, one
statement after the other, so that the statements of all threads interleave.  A
bucket's lock guards its two maps and what is never written again after an account is
made; the lock of an account guards its cash and shares.

* `UserManager.method` — the methods, as the source has them.
* `UserManager.apply` — the same methods as single steps, which is how the rest of the
  model sees them.
-/

namespace ExchangeServer

open Lib

/-! ## What the locks guard -/

/-- `user_id` and `username` of an account. -/
structure AccountOwner where
  userId : UInt64
  username : String

/-- The fields of an account that are read and written under its lock. -/
structure AccountAssets where
  availableBalance : Int64
  frozenBalance : Int64
  availableStock : StockMap
  frozenStock : StockMap

namespace AccountAssets

/-- The defaults of a new account. -/
def new : AccountAssets := ⟨0, 0, ∅, ∅⟩

end AccountAssets

namespace UserAccount

def owner (acc : UserAccount) : AccountOwner := ⟨acc.userId, acc.username⟩

def assets (acc : UserAccount) : AccountAssets :=
  ⟨acc.availableBalance, acc.frozenBalance, acc.availableStock, acc.frozenStock⟩

end UserAccount

namespace UserManager

/-- `AccountBucket::mtx` and `UserAccount::mtx`. -/
inductive Mutex where
  | bucket (i : Fin 256)
  | account (uid : UInt64)
deriving DecidableEq

/-- The maps of a bucket, with what a reader may follow a pointer to. -/
structure Directory where
  account : UnorderedMap UInt64 AccountOwner
  findAccount : UnorderedMap String UInt64

/-- What each lock guards. -/
abbrev Cell : Mutex → Type
  | .bucket _ => Directory
  | .account _ => AccountAssets

/-- The memory that holds the manager `m`. -/
def cells (m : UserManager) : (l : Mutex) → Cell l
  | .bucket i => (⟨UnorderedMap.mapValues (m.bucket i).account UserAccount.owner,
      (m.bucket i).findAccount⟩ : Directory)
  | .account uid => read AccountAssets.new UserAccount.assets m uid

/-! ## The methods -/

/-- What the methods return. -/
inductive Reply where
  | unit
  | flag (ok : Bool)
  | id (uid : UInt64)
  | name (username : String)
  | balance (amount : Int64)
  | holdings (stock : StockMap)

abbrev Method := Prog Cell Reply

/-- Statements under the lock of an account. -/
abbrev AccountBody := Body AccountAssets Reply

/-- `getAccount`: whether the pointer is there; then `k`. -/
def findAccount (uid : UInt64) (k : Bool → Method) : Method :=
  .shared (.bucket (idToMtx uid))
    (.look fun d : Directory => .done (d.account.lookup uid).isSome) k

/-- A method that works on the account of `uid` under its lock, and returns `missing`
when there is none. -/
def onAccount (uid : UInt64) (missing : Reply) (body : AccountBody) : Method :=
  findAccount uid fun found =>
    if found then .exclusive (.account uid) body .ret else .ret missing

namespace AccountBody

/-- `tryFreezeBalance` -/
def tryFreezeBalance (amount : Int64) : AccountBody :=
  .act id fun acc =>
    if acc.availableBalance ≥ amount then
      .act (fun acc => { acc with availableBalance := acc.availableBalance - amount }) fun _ =>
      .act (fun acc => { acc with frozenBalance := acc.frozenBalance + amount }) fun _ =>
      .done (.flag true)
    else .done (.flag false)

/-- `tryFreezeStock`; the comparison makes the entry that it reads. -/
def tryFreezeStock (tickerId : UInt32) (qty : Int32) : AccountBody :=
  .act (fun acc => { acc with availableStock := acc.availableStock.update tickerId id }) fun acc =>
    if acc.availableStock.get tickerId ≥ qty then
      .act (fun acc =>
        { acc with availableStock := acc.availableStock.update tickerId (· - qty) }) fun _ =>
      .act (fun acc =>
        { acc with frozenStock := acc.frozenStock.update tickerId (· + qty) }) fun _ =>
      .done (.flag true)
    else .done (.flag false)

/-- `commitBuy` -/
def commitBuy (tickerId : UInt32) (cost : Int64) (qty : Int32) (refundDiff : Int64) :
    AccountBody :=
  .act (fun acc => { acc with frozenBalance := acc.frozenBalance - (cost + refundDiff) }) fun _ =>
  .act (fun acc => { acc with availableBalance := acc.availableBalance + refundDiff }) fun _ =>
  .act (fun acc =>
    { acc with availableStock := acc.availableStock.update tickerId (· + qty) }) fun _ =>
  .done .unit

/-- `commitSell` -/
def commitSell (tickerId : UInt32) (revenue : Int64) (qty : Int32) : AccountBody :=
  .act (fun acc =>
    { acc with frozenStock := acc.frozenStock.update tickerId (· - qty) }) fun _ =>
  .act (fun acc => { acc with availableBalance := acc.availableBalance + revenue }) fun _ =>
  .done .unit

/-- `unfreezeBalance` -/
def unfreezeBalance (amount : Int64) : AccountBody :=
  .act (fun acc => { acc with frozenBalance := acc.frozenBalance - amount }) fun _ =>
  .act (fun acc => { acc with availableBalance := acc.availableBalance + amount }) fun _ =>
  .done .unit

/-- `unfreezeStock` -/
def unfreezeStock (tickerId : UInt32) (qty : Int32) : AccountBody :=
  .act (fun acc =>
    { acc with frozenStock := acc.frozenStock.update tickerId (· - qty) }) fun _ =>
  .act (fun acc =>
    { acc with availableStock := acc.availableStock.update tickerId (· + qty) }) fun _ =>
  .done .unit

/-- `addBalance` -/
def addBalance (amount : Int64) : AccountBody :=
  .act (fun acc => { acc with availableBalance := acc.availableBalance + amount }) fun _ =>
  .done .unit

/-- `getBalance` -/
def getBalance : AccountBody :=
  .act id fun acc => .done (.balance acc.availableBalance)

/-- `getHoldings` -/
def getHoldings : AccountBody :=
  .act id fun acc => .done (.holdings acc.availableStock)

end AccountBody

/-- `createUserAccount` under the lock of the bucket.  The account is in `find_account_`
before it is in `account_`. -/
def createBody (uid : UInt64) (username : String) : Body Directory Reply :=
  .act id fun d =>
    if (d.account.lookup uid).isSome then .done .unit
    else
      .act (fun d => { d with findAccount := AList.insert username uid d.findAccount }) fun _ =>
      .act (fun d => { d with account := AList.insert uid ⟨uid, username⟩ d.account }) fun _ =>
      .done .unit

/-- What `getId` sees in a bucket. -/
def Directory.idOf (username : String) (d : Directory) : Option UInt64 :=
  (d.findAccount.lookup username).map fun uid => ((d.account.lookup uid).map (·.userId)).getD 0

/-- `getId`, with the buckets that are still to be searched. -/
def scan (username : String) : List (Fin 256) → Method
  | [] => .ret (.id 0)
  | i :: is =>
      .shared (.bucket i) (.look fun d : Directory => .done (d.idOf username)) fun found =>
        found.elim (scan username is) fun uid => .ret (.id uid)

/-- `getName` under the lock of the bucket. -/
def nameOf (uid : UInt64) : Reader Directory Reply :=
  .look fun d => .done (.name (((d.account.lookup uid).map (·.username)).getD "UNKNOWN"))

/-- The public methods with their arguments. -/
inductive Call where
  | createUserAccount (uid : UInt64) (username : String)
  | getId (username : String)
  | getName (uid : UInt64)
  | tryFreezeBalance (uid : UInt64) (amount : Int64)
  | tryFreezeStock (uid : UInt64) (tickerId : UInt32) (qty : Int32)
  | commitBuy (uid : UInt64) (tickerId : UInt32) (cost : Int64) (qty : Int32)
      (refundDiff : Int64)
  | commitSell (uid : UInt64) (tickerId : UInt32) (revenue : Int64) (qty : Int32)
  | unfreezeBalance (uid : UInt64) (amount : Int64)
  | unfreezeStock (uid : UInt64) (tickerId : UInt32) (qty : Int32)
  | addBalance (uid : UInt64) (amount : Int64)
  | getBalance (uid : UInt64)
  | getHoldings (uid : UInt64)

/-- What a thread does in a call. -/
def method : Call → Method
  | .createUserAccount uid username =>
      .exclusive (.bucket (idToMtx uid)) (createBody uid username) .ret
  | .getId username => scan username (List.finRange 256)
  | .getName uid => .shared (.bucket (idToMtx uid)) (nameOf uid) .ret
  | .tryFreezeBalance uid amount =>
      onAccount uid (.flag false) (.tryFreezeBalance amount)
  | .tryFreezeStock uid tickerId qty =>
      onAccount uid (.flag false) (.tryFreezeStock tickerId qty)
  | .commitBuy uid tickerId cost qty refundDiff =>
      onAccount uid .unit (.commitBuy tickerId cost qty refundDiff)
  | .commitSell uid tickerId revenue qty =>
      onAccount uid .unit (.commitSell tickerId revenue qty)
  | .unfreezeBalance uid amount => onAccount uid .unit (.unfreezeBalance amount)
  | .unfreezeStock uid tickerId qty => onAccount uid .unit (.unfreezeStock tickerId qty)
  | .addBalance uid amount => onAccount uid .unit (.addBalance amount)
  | .getBalance uid => onAccount uid (.balance 0) .getBalance
  | .getHoldings uid => onAccount uid (.holdings ∅) .getHoldings

/-! ## The methods as single steps -/

/-- The whole call at once. -/
def apply (m : UserManager) : Call → UserManager × Reply
  | .createUserAccount uid username => (m.createUserAccount uid username, .unit)
  | .getId username => (m, .id (m.getId username))
  | .getName uid => (m, .name (m.getName uid))
  | .tryFreezeBalance uid amount => (m.tryFreezeBalance uid amount).map id .flag
  | .tryFreezeStock uid tickerId qty => (m.tryFreezeStock uid tickerId qty).map id .flag
  | .commitBuy uid tickerId cost qty refundDiff =>
      (m.commitBuy uid tickerId cost qty refundDiff, .unit)
  | .commitSell uid tickerId revenue qty => (m.commitSell uid tickerId revenue qty, .unit)
  | .unfreezeBalance uid amount => (m.unfreezeBalance uid amount, .unit)
  | .unfreezeStock uid tickerId qty => (m.unfreezeStock uid tickerId qty, .unit)
  | .addBalance uid amount => (m.addBalance uid amount, .unit)
  | .getBalance uid => (m, .balance (m.getBalance uid))
  | .getHoldings uid => (m, .holdings (m.getHoldings uid))

/-- The account of `username` in bucket `i`. -/
def idIn (m : UserManager) (i : Fin 256) (username : String) : Option UInt64 :=
  ((m.bucket i).findAccount.lookup username).map fun uid =>
    (((m.bucket i).account.lookup uid).map UserAccount.userId).getD 0

/-- What a call does on its own.  Where several buckets know a name, `getId` may answer
with any of them: it looks at one bucket after the other. -/
inductive Serves (m : UserManager) : Call → UserManager → Reply → Prop
  | once (c : Call) : Serves m c (m.apply c).1 (m.apply c).2
  | someId {i : Fin 256} {username : String} {uid : UInt64} : m.idIn i username = some uid →
      Serves m (.getId username) m (.id uid)

end UserManager

end ExchangeServer
