import ExchangeServer.AccountMoves
import ExchangeServer.Handlers.Leaks
import ExchangeServer.Lib.Rounding

/-!
# Deposits

`DepositHandler` reads the amount, which is unsigned on the wire, as an `int64_t`, adds
it to the row of the user and to the cache, and then asks the database what the row
holds.  `UserRepositoryImpl::getBalance` fetches a `BIGINT`, returns an `int64_t`, and
puts the number in a `double` on the way, so it answers with 53 significant bits.

`handleOn` puts the handler on a database whose two statements may fail;
`deposit_exact_iff` says when a deposit is exact in all three places.
-/

namespace ExchangeServer

open Lib

namespace Database

/-- `UserRepositoryImpl::getBalance`, whose `final_balance` is a `double`. -/
def getBalance (db : Database) (fault : Option Fault) (username : String) : Int64 :=
  match fault with
  | some _ => -1
  | none =>
      match db.accounts.lookup username with
      | none => -1
      | some row => Int64.ofInt (roundInt 53 row.balance.toInt)

section Statements

variable {db : Database} {username : String}
  (hrow : (db.accounts.lookup username).isSome)
include hrow

/-- With a row, `updateBalance` returns whether it was written. -/
theorem returned_eq_applied (fault : Option Fault) (amount : Int64) :
    (db.updateBalance fault username amount).returned
      = (db.updateBalance fault username amount).applied := by
  obtain ⟨row, hrow⟩ := Option.isSome_iff_exists.mp hrow
  unfold updateBalance
  cases fault with
  | some f => rfl
  | none =>
      simp only [hrow]
      split_ifs <;> rfl

theorem canCredit_iff {amount : Int64} :
    db.CanCredit username amount ↔ FitsBigint ((db.balance username).toInt + amount.toInt) := by
  obtain ⟨row, hrow⟩ := Option.isSome_iff_exists.mp hrow
  rw [balance_of_lookup hrow]
  constructor
  · rintro ⟨row', hrow', hfits⟩
    exact Option.some.inj (hrow.symm.trans hrow') ▸ hfits
  · exact fun hfits => ⟨row, hrow, hfits⟩

/-- What is sent of the answer of `getBalance` is the balance exactly when the statement
does not fail and no bit is lost. -/
theorem getBalance_exact_iff (fault : Option Fault) (hpos : 0 < (db.balance username).toInt) :
    ((db.getBalance fault username).toUInt64.toNat : ℤ) = (db.balance username).toInt ↔
      fault = none ∧ Significant 53 (db.balance username).toInt.natAbs := by
  obtain ⟨row, hrow⟩ := Option.isSome_iff_exists.mp hrow
  rw [balance_of_lookup hrow] at hpos ⊢
  have hbound := row.balance.toInt_lt
  unfold getBalance
  cases fault with
  | some f =>
      refine ⟨fun h => ?_, fun h => nomatch h.1⟩
      have hminus : ((18446744073709551615 : ℕ) : ℤ) = row.balance.toInt := h
      omega
  | none =>
      have hround : roundBits 53 row.balance.toInt.natAbs < 2 ^ 64 := by
        have hle := roundBits_le (p := 53) (n := row.balance.toInt.natAbs) (by decide) (by omega)
        omega
      have hsent : (Int64.ofInt (roundInt 53 row.balance.toInt)).toUInt64.toNat
          = roundBits 53 row.balance.toInt.natAbs := by
        rw [roundInt_of_pos 53 hpos, Int64.ofInt_eq_ofNat, Int64.toUInt64_ofNat',
          UInt64.toNat_ofNat']
        exact Nat.mod_eq_of_lt hround
      rw [hrow]
      show ((Int64.ofInt (roundInt 53 row.balance.toInt)).toUInt64.toNat : ℤ) = _ ↔ _
      rw [hsent, ← roundInt_of_pos 53 hpos, roundInt_eq_iff (by decide)]
      exact (and_iff_right rfl).symm

end Statements

/-- An update keeps the rows. -/
theorem isSome_lookup_updateBalance (db : Database) (fault : Option Fault)
    (username : String) (amount : Int64) (username' : String) :
    ((db.updateBalance fault username amount).db.accounts.lookup username').isSome
      = (db.accounts.lookup username').isSome := by
  rw [(db.updateBalance_spec fault username amount).2]
  split_ifs
  · rw [← Option.isSome_map, id_setBalance, Option.isSome_map]
  · rfl

end Database

/-! ## The handler on a database -/

/-- `DepositHandler::handle`, and the database after it.  `fault` is met by the statement
of `updateBalance`, `fault'` by that of `getBalance`, which reads what the first one has
left. -/
def DepositHandler.handleOn (answers : Answers) (services : Services) (session : Session)
    (data : List Byte) (reqLen : UInt32) (db : Database) (fault fault' : Option Fault) :
    Handled × Database :=
  let amount := (UInt64.ofNat (readInt data 0 8)).toInt64
  let updated := (db.updateBalance fault session.username amount).db
  let handled := DepositHandler.handle
    { answers with
      updateBalance := fun username amount => (db.updateBalance fault username amount).returned
      getBalance := fun username => updated.getBalance fault' username }
    services session data reqLen
  (handled, if .updateBalance session.username amount ∈ handled.calls then updated else db)

/-- The request on the wire. -/
def DepositRequest.bytes (amount : UInt64) : List Byte :=
  littleEndian 8 amount.toNat

/-- `DepositResponse::status`. -/
def DepositResponse.status (reply : List Byte) : ℕ :=
  readInt reply 0 1

/-- `DepositResponse::new_balance`. -/
def DepositResponse.newBalance (reply : List Byte) : ℕ :=
  readInt reply 1 8

/-- A deposit that is reported as done has been done, in the database, in the cache and in
the reply; one that is refused has changed nothing. -/
structure DepositExact (amount : UInt64) (services : Services) (session : Session)
    (db : Database) (out : Handled × Database) : Prop where
  done : DepositResponse.status out.1.reply = 1 →
    (0 < amount.toNat ∧ amount.toNat < 2 ^ 63) ∧
      (out.2.balance session.username).toInt = (db.balance session.username).toInt + amount.toNat ∧
      (out.1.services.users.availableBalance session.userId).toInt
        = (services.users.availableBalance session.userId).toInt + amount.toNat ∧
      (DepositResponse.newBalance out.1.reply : ℤ) = (out.2.balance session.username).toInt
  refused : DepositResponse.status out.1.reply = 0 → out.2 = db ∧ out.1.services = services

theorem status_reply (status : ℕ) (field : List Byte) :
    DepositResponse.status (littleEndian 1 status ++ field) = status % 256 :=
  readInt_head 1 status field

theorem newBalance_reply (status : ℕ) (field : UInt64) :
    DepositResponse.newBalance (littleEndian 1 status ++ littleEndian 8 field.toNat)
      = field.toNat := by
  have hread := readInt_next 1 status 8 field.toNat []
  rw [List.append_nil] at hread
  exact hread.trans (Nat.mod_eq_of_lt field.toNat_lt)

section Handle

variable (answers : Answers) {services : Services} {session : Session} (rest : List Byte)
  {reqLen : UInt32} (db : Database) (fault fault' : Option Fault) (amount : UInt64)
  (hlogin : session.isLoggedIn = true) (hreq : 8 ≤ reqLen)

theorem amount_bytes :
    UInt64.ofNat (readInt (DepositRequest.bytes amount ++ rest) 0 8) = amount := by
  have hread := readInt_append (rfl : ([] : List Byte).length = 0)
    (length_littleEndian 8 amount.toNat) rest
  exact (congrArg UInt64.ofNat hread).trans (ofLittleEndian_uint64 amount)

/-- The reply without a balance. -/
theorem status_refusal :
    DepositResponse.status ((Memory.zeroed.store 0 (littleEndian 1 0)).read 9) = 0 := by
  have hread := Memory.zeroed.read_store_head (littleEndian 1 0) 8
  exact (congrArg DepositResponse.status hread).trans (status_reply 0 _)

include hlogin hreq

/-- **The three ways through the handler.** -/
theorem DepositHandler.handleOn_eq :
    DepositHandler.handleOn answers services session (DepositRequest.bytes amount ++ rest) reqLen
        db fault fault'
      = let call := db.updateBalance fault session.username amount.toInt64
        if amount.toInt64 ≤ 0 then
          (answer services session ((Memory.zeroed.store 0 (littleEndian 1 0)).read 9), db)
        else if call.returned = true then
          ({ reply := littleEndian 1 1 ++ littleEndian 8
                (call.db.getBalance fault' session.username).toUInt64.toNat
             session := session
             services := { services with
               users := services.users.addBalance session.userId amount.toInt64 }
             calls := [.updateBalance session.username amount.toInt64,
               .getBalance session.username] }, call.db)
        else
          (⟨(Memory.zeroed.store 0 (littleEndian 1 0)).read 9, session, services,
            [.updateBalance session.username amount.toInt64]⟩, call.db) := by
  have hlong : ¬ reqLen < 8 := UInt32.not_lt.mpr hreq
  simp only [handleOn, DepositHandler.handle, amount_bytes, if_pos hlogin, if_neg hlong,
    read_status_field]
  split_ifs <;> simp [answer] at *

end Handle

/-- The amounts that are positive when they are read with a sign. -/
theorem toInt64_pos_iff {amount : UInt64} :
    ¬ amount.toInt64 ≤ 0 ↔ 0 < amount.toNat ∧ amount.toNat < 2 ^ 63 := by
  have hbound := amount.toNat_lt
  have hlimit := amount.toInt64.toInt_lt
  have hsigned := toInt64_modEq amount
  have hzero : (0 : Int64).toInt = 0 := rfl
  rw [Int64.le_iff_toInt_le, hzero]
  unfold Int.ModEq at hsigned
  have hlow := amount.toInt64.le_toInt
  omega

theorem UserManager.toInt_availableBalance_addBalance {m : UserManager} {uid : UInt64}
    (hcached : m.HasAccount uid) (amount : Int64)
    (hlow : -2 ^ 63 ≤ (m.availableBalance uid).toInt + amount.toInt)
    (hhigh : (m.availableBalance uid).toInt + amount.toInt < 2 ^ 63) :
    ((m.addBalance uid amount).availableBalance uid).toInt
      = (m.availableBalance uid).toInt + amount.toInt := by
  have hmoves := m.moves_addBalance uid amount
  rw [if_pos hcached] at hmoves
  rw [hmoves.available, if_pos rfl]
  exact int64_add_of_range hlow hhigh

/-- **When a deposit is exact.**  It always is unless it is credited: the amount is below
2^63 and not zero, the update does not fail and the new balance fits the column.  A
credited one is exact when `getBalance` does not fail and the new balance has at most 53
significant bits. -/
theorem deposit_exact_iff (answers : Answers) (services : Services) (session : Session)
    (amount : UInt64) (rest : List Byte) (reqLen : UInt32) (db : Database)
    (fault fault' : Option Fault) (hlogin : session.isLoggedIn = true) (hreq : 8 ≤ reqLen)
    (hcached : services.users.HasAccount session.userId)
    (hrow : (db.accounts.lookup session.username).isSome)
    (havailable : 0 ≤ (services.users.availableBalance session.userId).toInt)
    (hle : (services.users.availableBalance session.userId).toInt
      ≤ (db.balance session.username).toInt) :
    DepositExact amount services session db
        (DepositHandler.handleOn answers services session (DepositRequest.bytes amount ++ rest)
          reqLen db fault fault') ↔
      (0 < amount.toNat → amount.toNat < 2 ^ 63 → fault = none →
        (db.balance session.username).toInt + amount.toNat < 2 ^ 63 →
          fault' = none ∧
            Significant 53 ((db.balance session.username).toInt + amount.toNat).natAbs) := by
  have hspec := db.updateBalance_spec fault session.username amount.toInt64
  have happlied := Database.returned_eq_applied hrow fault amount.toInt64
  rw [DepositHandler.handleOn_eq answers rest db fault fault' amount hlogin hreq]
  dsimp only
  split_ifs with hnegative hreturned
  · -- The amount is `0` or is read as a negative number.
    refine iff_of_true ⟨fun hdone => ?_, fun _ => ⟨rfl, rfl⟩⟩ fun hpos hsmall => ?_
    · exact absurd (status_refusal.symm.trans hdone) (by decide)
    · exact absurd hnegative (toInt64_pos_iff.mpr ⟨hpos, hsmall⟩)
  · -- It is credited.
    obtain ⟨hpos, hsmall⟩ := toInt64_pos_iff.mp hnegative
    have hamount : amount.toInt64.toInt = amount.toNat := toInt64_of_range hsmall
    rw [hreturned] at happlied
    obtain ⟨hfault, hcredit⟩ := hspec.1.mp happlied.symm
    have hfits := (Database.canCredit_iff hrow).mp hcredit
    have hbalance := Database.balance_updateBalance happlied.symm session.username
    rw [if_pos rfl, hamount] at hbalance
    rw [hamount] at hfits
    have hcache := UserManager.toInt_availableBalance_addBalance hcached
      amount.toInt64 (by omega) (by have := hfits.2; omega)
    rw [hamount] at hcache
    have hrow' := (db.isSome_lookup_updateBalance fault session.username amount.toInt64
      session.username).trans hrow
    have hexact := Database.getBalance_exact_iff hrow' fault' (by omega)
    rw [hbalance] at hexact
    constructor
    · intro h _ _ _ _
      have hreport := (h.done (status_reply 1 _)).2.2.2
      rw [newBalance_reply] at hreport
      exact hexact.mp (hreport.trans hbalance)
    · intro h
      have hreport := hexact.mpr (h hpos hsmall hfault hfits.2)
      refine ⟨fun _ => ⟨⟨hpos, hsmall⟩, hbalance, hcache, ?_⟩, fun hrefused => ?_⟩
      · rw [newBalance_reply]
        exact hreport.trans hbalance.symm
      · exact absurd ((status_reply 1 _).symm.trans hrefused) (by decide)
  · -- The row is not written.
    have hnot : ¬ (db.updateBalance fault session.username amount.toInt64).applied = true :=
      fun h => hreturned (happlied.trans h)
    refine iff_of_true ⟨fun hdone => ?_, fun _ => ⟨hspec.2.trans (if_neg hnot), rfl⟩⟩
      fun hpos hsmall hfault hroom => ?_
    · exact absurd (status_refusal.symm.trans hdone) (by decide)
    · refine absurd (hspec.1.mpr ⟨hfault, (Database.canCredit_iff hrow).mpr ⟨?_, ?_⟩⟩) hnot
      · rw [toInt64_of_range hsmall]
        omega
      · rw [toInt64_of_range hsmall]
        exact hroom

/-- The cache knows a user, who has nothing available. -/
def depositorServices : Services :=
  { Services.new with users := UserManager.new.createUserAccount 7 "alice" }

/-- The row of that user. -/
def depositorRow (balance : Int64) : Database where
  accounts := [⟨"alice", ⟨7, balance⟩⟩].toAList
  holdings := ∅

theorem deposit_exact_iff_sample :
    DepositExact 5 depositorServices ⟨"alice", 7⟩ (depositorRow 100)
      (DepositHandler.handleOn Answers.offline depositorServices ⟨"alice", 7⟩
        (DepositRequest.bytes 5 ++ []) 8 (depositorRow 100) none none) := by
  refine (deposit_exact_iff Answers.offline depositorServices ⟨"alice", 7⟩ 5 [] 8
    (depositorRow 100) none none rfl (by decide) (by decide) rfl (by decide) (by decide)).mpr ?_
  exact fun _ _ _ _ => ⟨rfl, significant_of_lt (by decide)⟩

/-- The row holds 2^53, 1 is deposited, and the reply says 2^53. -/
theorem deposit_not_exact :
    ∃ (services : Services) (session : Session) (amount : UInt64) (db : Database),
      session.isLoggedIn = true ∧ services.users.HasAccount session.userId ∧
      (db.accounts.lookup session.username).isSome ∧
      0 ≤ (services.users.availableBalance session.userId).toInt ∧
      (services.users.availableBalance session.userId).toInt
        ≤ (db.balance session.username).toInt ∧
      ¬ DepositExact amount services session db
        (DepositHandler.handleOn Answers.offline services session
          (DepositRequest.bytes amount ++ []) 8 db none none) := by
  refine ⟨depositorServices, ⟨"alice", 7⟩, 1, depositorRow 9007199254740992, rfl, by decide, rfl,
    by decide, by decide, fun h => ?_⟩
  have hreport := (h.done (by decide)).2.2.2
  exact absurd hreport (by decide)

end ExchangeServer
