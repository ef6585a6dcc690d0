import ExchangeServer.SettlementProcessor

/-!
# What an operation moves

Every operation on an account adds something to its four numbers, with
wrap-around, and to nobody else's.  `Delta` is what it adds, `Moves` what that does
to the accounts and to the sums over all of them.  The accounting of the exchange
uses the operations only through the `Moves` lemmas below.
-/

namespace ExchangeServer

open Lib

/-- What is added to the numbers of one account. -/
structure Delta where
  available : Int64
  frozen : Int64
  availableStock : UInt32 → Int32
  frozenStock : UInt32 → Int32

namespace Delta

/-- Shares of one ticker. -/
def single (t : UInt32) (qty : Int32) (t' : UInt32) : Int32 :=
  if t' = t then qty else 0

def zero : Delta := ⟨0, 0, fun _ => 0, fun _ => 0⟩

/-- Cash from available to frozen. -/
def freezeBalance (amount : Int64) : Delta :=
  ⟨-amount, amount, fun _ => 0, fun _ => 0⟩

/-- Shares from available to frozen. -/
def freezeStock (t : UInt32) (qty : Int32) : Delta :=
  ⟨0, 0, single t (-qty), single t qty⟩

/-- Shares bought for frozen cash, of which a part comes back. -/
def commitBuy (t : UInt32) (cost : Int64) (qty : Int32) (refundDiff : Int64) : Delta :=
  ⟨refundDiff, -(cost + refundDiff), single t qty, fun _ => 0⟩

/-- Frozen shares sold. -/
def commitSell (t : UInt32) (revenue : Int64) (qty : Int32) : Delta :=
  ⟨revenue, 0, fun _ => 0, single t (-qty)⟩

/-- Cash back from frozen. -/
def unfreezeBalance (amount : Int64) : Delta :=
  ⟨amount, -amount, fun _ => 0, fun _ => 0⟩

/-- Shares back from frozen. -/
def unfreezeStock (t : UInt32) (qty : Int32) : Delta :=
  ⟨0, 0, single t qty, single t (-qty)⟩

/-- Cash paid in. -/
def addBalance (amount : Int64) : Delta :=
  ⟨amount, 0, fun _ => 0, fun _ => 0⟩

end Delta

/-- The operation adds `δ` to an account. -/
structure UserAccount.Adds (g : UserAccount → UserAccount) (δ : Delta) : Prop where
  username : ∀ acc, (g acc).username = acc.username
  available : ∀ acc, (g acc).availableBalance = acc.availableBalance + δ.available
  frozen : ∀ acc, (g acc).frozenBalance = acc.frozenBalance + δ.frozen
  availableStock : ∀ acc t,
    (g acc).availableStock.get t = acc.availableStock.get t + δ.availableStock t
  frozenStock : ∀ acc t, (g acc).frozenStock.get t = acc.frozenStock.get t + δ.frozenStock t

namespace UserAccount

theorem get_update_add (m : StockMap) (t t' : UInt32) (qty : Int32) :
    (m.update t (· + qty)).get t' = m.get t' + Delta.single t qty t' := by
  rw [StockMap.get_update, Delta.single]
  split_ifs with h
  · rw [h]
  · rw [Int32.add_zero]

theorem get_update_sub (m : StockMap) (t t' : UInt32) (qty : Int32) :
    (m.update t (· - qty)).get t' = m.get t' + Delta.single t (-qty) t' := by
  rw [StockMap.get_update, Delta.single]
  split_ifs with h
  · rw [h, Int32.sub_eq_add_neg]
  · rw [Int32.add_zero]

theorem adds_freezeBalance (amount : Int64) :
    Adds (freezeBalance amount) (Delta.freezeBalance amount) where
  username _ := rfl
  available _ := Int64.sub_eq_add_neg ..
  frozen _ := rfl
  availableStock _ _ := (Int32.add_zero _).symm
  frozenStock _ _ := (Int32.add_zero _).symm

theorem adds_freezeStock (t : UInt32) (qty : Int32) :
    Adds (freezeStock t qty) (Delta.freezeStock t qty) where
  username _ := rfl
  available _ := (Int64.add_zero _).symm
  frozen _ := (Int64.add_zero _).symm
  availableStock _ t' := get_update_sub _ t t' qty
  frozenStock _ t' := get_update_add _ t t' qty

theorem adds_touchStock (t : UInt32) : Adds (touchStock t) Delta.zero where
  username _ := rfl
  available _ := (Int64.add_zero _).symm
  frozen _ := (Int64.add_zero _).symm
  availableStock acc t' := by
    refine Eq.trans ?_ (Int32.add_zero _).symm
    refine (StockMap.get_update ..).trans ?_
    split_ifs with h
    · rw [h]
      rfl
    · rfl
  frozenStock _ _ := (Int32.add_zero _).symm

theorem adds_commitBuy (t : UInt32) (cost : Int64) (qty : Int32) (refundDiff : Int64) :
    Adds (commitBuy t cost qty refundDiff) (Delta.commitBuy t cost qty refundDiff) where
  username _ := rfl
  available _ := rfl
  frozen _ := Int64.sub_eq_add_neg ..
  availableStock _ t' := get_update_add _ t t' qty
  frozenStock _ _ := (Int32.add_zero _).symm

theorem adds_commitSell (t : UInt32) (revenue : Int64) (qty : Int32) :
    Adds (commitSell t revenue qty) (Delta.commitSell t revenue qty) where
  username _ := rfl
  available _ := rfl
  frozen _ := (Int64.add_zero _).symm
  availableStock _ _ := (Int32.add_zero _).symm
  frozenStock _ t' := get_update_sub _ t t' qty

theorem adds_unfreezeBalance (amount : Int64) :
    Adds (unfreezeBalance amount) (Delta.unfreezeBalance amount) where
  username _ := rfl
  available _ := rfl
  frozen _ := Int64.sub_eq_add_neg ..
  availableStock _ _ := (Int32.add_zero _).symm
  frozenStock _ _ := (Int32.add_zero _).symm

theorem adds_unfreezeStock (t : UInt32) (qty : Int32) :
    Adds (unfreezeStock t qty) (Delta.unfreezeStock t qty) where
  username _ := rfl
  available _ := (Int64.add_zero _).symm
  frozen _ := (Int64.add_zero _).symm
  availableStock _ t' := get_update_add _ t t' qty
  frozenStock _ t' := get_update_sub _ t t' qty

theorem adds_addBalance (amount : Int64) : Adds (addBalance amount) (Delta.addBalance amount) where
  username _ := rfl
  available _ := rfl
  frozen _ := (Int64.add_zero _).symm
  availableStock _ _ := (Int32.add_zero _).symm
  frozenStock _ _ := (Int32.add_zero _).symm

end UserAccount

/-! ## Moves -/

namespace UserManager

/-- All cash in the cache, available and frozen. -/
def cashTotal (m : UserManager) : ℤ :=
  m.total fun acc => acc.availableBalance.toInt + acc.frozenBalance.toInt

/-- All shares of a ticker in the cache, available and frozen. -/
def stockTotal (m : UserManager) (t : UInt32) : ℤ :=
  m.total fun acc => (acc.availableStock.get t).toInt + (acc.frozenStock.get t).toInt

/-- `m'` is `m` with `δ` added to the account of `uid`. -/
structure Moves (m : UserManager) (uid : UInt64) (δ : Delta) (m' : UserManager) : Prop where
  hasAccount : ∀ u, m'.HasAccount u ↔ m.HasAccount u
  getName : ∀ u, m'.getName u = m.getName u
  available : ∀ u, m'.availableBalance u
    = m.availableBalance u + if u = uid then δ.available else 0
  frozen : ∀ u, m'.frozenBalance u = m.frozenBalance u + if u = uid then δ.frozen else 0
  availableStock : ∀ u t, m'.availableStock u t
    = m.availableStock u t + if u = uid then δ.availableStock t else 0
  frozenStock : ∀ u t, m'.frozenStock u t
    = m.frozenStock u t + if u = uid then δ.frozenStock t else 0
  cashTotal : m'.cashTotal ≡ m.cashTotal + (δ.available.toInt + δ.frozen.toInt) [ZMOD 2 ^ 64]
  stockTotal : ∀ t, m'.stockTotal t
    ≡ m.stockTotal t + ((δ.availableStock t).toInt + (δ.frozenStock t).toInt) [ZMOD 2 ^ 32]

theorem Moves.refl (m : UserManager) (uid : UInt64) : m.Moves uid Delta.zero m where
  hasAccount _ := Iff.rfl
  getName _ := rfl
  available u := by simp [Delta.zero]
  frozen u := by simp [Delta.zero]
  availableStock u t := by simp [Delta.zero]
  frozenStock u t := by simp [Delta.zero]
  cashTotal := by simp [Delta.zero, Int.ModEq]
  stockTotal t := by simp [Delta.zero, Int.ModEq]

section Modify

variable {m : UserManager} {uid : UInt64}

theorem getName_eq_read (m : UserManager) (u : UInt64) :
    m.getName u = read "UNKNOWN" UserAccount.username m u := by
  unfold getName read
  cases m.getAccount u <;> rfl

theorem read_add {α : Type*} [Add α] [OfNat α 0] (hzero : ∀ x : α, x + 0 = x)
    {f : UserAccount → α} {g : UserAccount → UserAccount} {d : α}
    (hg : ∀ acc, f (g acc) = f acc + d) (hacc : m.HasAccount uid) (u : UInt64) :
    read 0 f (m.modifyAccount uid g) u = read 0 f m u + if u = uid then d else 0 := by
  rw [read_modifyAccount]
  split_ifs with h
  · obtain ⟨acc, hget⟩ := Option.isSome_iff_exists.mp hacc
    rw [h, read_of_getAccount _ _ hget, read_of_getAccount _ _ hget]
    exact hg acc
  · exact (hzero _).symm

/-- A sum moves by what the account moves, up to wrap-around. -/
theorem total_modEq {n : ℤ} {f : UserAccount → ℤ} {g : UserAccount → UserAccount} {d : ℤ}
    (hg : ∀ acc, f (g acc) ≡ f acc + d [ZMOD n]) (hacc : m.HasAccount uid) :
    total f (m.modifyAccount uid g) ≡ total f m + d [ZMOD n] := by
  obtain ⟨acc, hget⟩ := Option.isSome_iff_exists.mp hacc
  rw [total_modifyAccount f hget]
  refine Int.ModEq.add_left _ ?_
  have h := (hg acc).sub_right (f acc)
  rwa [add_sub_cancel_left] at h

/-- **An operation that adds `δ` moves `δ`.** -/
theorem moves_modifyAccount {g : UserAccount → UserAccount} {δ : Delta}
    (h : UserAccount.Adds g δ) (hacc : m.HasAccount uid) :
    m.Moves uid δ (m.modifyAccount uid g) where
  hasAccount u := hasAccount_modifyAccount m uid u g
  getName u := by
    rw [getName_eq_read, getName_eq_read]
    exact read_modifyAccount_same _ _ m uid u h.username
  available u := read_add Int64.add_zero h.available hacc u
  frozen u := read_add Int64.add_zero h.frozen hacc u
  availableStock u t := read_add Int32.add_zero (fun acc => h.availableStock acc t) hacc u
  frozenStock u t := read_add Int32.add_zero (fun acc => h.frozenStock acc t) hacc u
  cashTotal := by
    refine total_modEq (fun acc => ?_) hacc
    rw [h.available, h.frozen, add_add_add_comm]
    exact (int64_add_modEq _ _).add (int64_add_modEq _ _)
  stockTotal t := by
    refine total_modEq (fun acc => ?_) hacc
    rw [h.availableStock, h.frozenStock, add_add_add_comm]
    exact (int32_add_modEq _ _).add (int32_add_modEq _ _)

/-- An operation on an account that is not there moves nothing. -/
theorem moves_of_not_hasAccount (g : UserAccount → UserAccount) (hacc : ¬ m.HasAccount uid) :
    m.Moves uid Delta.zero (m.modifyAccount uid g) := by
  rw [modifyAccount_of_none (Option.not_isSome_iff_eq_none.mp hacc)]
  exact Moves.refl m uid

end Modify

/-- A new account moves nothing. -/
theorem moves_createUserAccount (m : UserManager) (uid : UInt64) (name : String) :
    let m' := m.createUserAccount uid name
    (∀ u, m'.availableBalance u = m.availableBalance u) ∧
      (∀ u, m'.frozenBalance u = m.frozenBalance u) ∧
      (∀ u t, m'.availableStock u t = m.availableStock u t) ∧
      (∀ u t, m'.frozenStock u t = m.frozenStock u t) ∧
      m'.cashTotal = m.cashTotal ∧ ∀ t, m'.stockTotal t = m.stockTotal t :=
  ⟨fun u => read_createUserAccount _ _ m uid u name rfl,
    fun u => read_createUserAccount _ _ m uid u name rfl,
    fun u _ => read_createUserAccount _ _ m uid u name rfl,
    fun u _ => read_createUserAccount _ _ m uid u name rfl,
    total_createUserAccount _ m uid name rfl, fun _ => total_createUserAccount _ m uid name rfl⟩

end UserManager

/-! ## The operations of the exchange -/

/-- What an order freezes: cash for a buy, shares for a sell. -/
def Order.freezes (o : Order) : Delta :=
  match o.side with
  | .buy => Delta.freezeBalance (o.price * o.quantity).toInt64
  | .sell => Delta.freezeStock o.tickerId o.quantity.toUInt32.toInt32

/-- There is enough to freeze for the order. -/
def Order.Covered (o : Order) (users : UserManager) : Prop :=
  match o.side with
  | .buy => (o.price * o.quantity).toInt64 ≤ users.availableBalance o.userId
  | .sell => o.quantity.toUInt32.toInt32 ≤ users.availableStock o.userId o.tickerId

/-- Freeze what an order can spend. -/
def Order.freeze (o : Order) (users : UserManager) : UserManager × Bool :=
  match o.side with
  | .buy => users.tryFreezeBalance o.userId (o.price * o.quantity).toInt64
  | .sell => users.tryFreezeStock o.userId o.tickerId o.quantity.toUInt32.toInt32

/-- **A freeze moves what the order freezes**, if the account is there and has
enough, and otherwise nothing. -/
theorem Order.freeze_spec (o : Order) (users : UserManager) :
    ((o.freeze users).2 = true ↔ users.HasAccount o.userId ∧ o.Covered users) ∧
      users.Moves o.userId (if (o.freeze users).2 then o.freezes else Delta.zero)
        (o.freeze users).1 := by
  unfold freeze freezes Covered
  cases hacc : users.getAccount o.userId with
  | none =>
      have hnot : ¬ users.HasAccount o.userId := by simp [UserManager.HasAccount, hacc]
      cases o.side <;>
        simpa [UserManager.tryFreezeBalance, UserManager.tryFreezeStock, hacc, hnot]
          using UserManager.Moves.refl users o.userId
  | some acc =>
      have hhas : users.HasAccount o.userId := by simp [UserManager.HasAccount, hacc]
      cases o.side with
      | buy =>
          have hread : users.availableBalance o.userId = acc.availableBalance :=
            UserManager.read_of_getAccount _ _ hacc
          simp only [UserManager.tryFreezeBalance, hacc, hread, hhas, true_and]
          by_cases hle : (o.price * o.quantity).toInt64 ≤ acc.availableBalance
          · rw [if_pos hle]
            exact ⟨iff_of_true rfl hle,
              UserManager.moves_modifyAccount (UserAccount.adds_freezeBalance _) hhas⟩
          · rw [if_neg hle]
            exact ⟨iff_of_false Bool.false_ne_true hle, UserManager.Moves.refl _ _⟩
      | sell =>
          have hread : users.availableStock o.userId o.tickerId
              = acc.availableStock.get o.tickerId :=
            UserManager.read_of_getAccount 0 (fun acc => acc.availableStock.get o.tickerId) hacc
          simp only [UserManager.tryFreezeStock, hacc, hread, hhas, true_and]
          by_cases hle : o.quantity.toUInt32.toInt32 ≤ acc.availableStock.get o.tickerId
          · rw [if_pos hle]
            exact ⟨iff_of_true rfl hle,
              UserManager.moves_modifyAccount (UserAccount.adds_freezeStock _ _) hhas⟩
          · rw [if_neg hle]
            exact ⟨iff_of_false Bool.false_ne_true hle,
              UserManager.moves_modifyAccount (UserAccount.adds_touchStock _) hhas⟩

/-- What a cancel record releases. -/
def CancelRecord.releases (rec : CancelRecord) : Delta :=
  match rec.side with
  | .buy => Delta.unfreezeBalance rec.refundMoney
  | .sell => Delta.unfreezeStock rec.tickerId rec.qty

theorem CancelRecord.moves_release (rec : CancelRecord) {users : UserManager}
    (hacc : users.HasAccount rec.userId) :
    users.Moves rec.userId rec.releases (rec.release users) := by
  unfold releases release
  cases rec.side with
  | buy => exact UserManager.moves_modifyAccount (UserAccount.adds_unfreezeBalance _) hacc
  | sell => exact UserManager.moves_modifyAccount (UserAccount.adds_unfreezeStock _ _) hacc

/-- What a match record gives its buyer. -/
def MatchRecord.buys (rec : MatchRecord) : Delta :=
  Delta.commitBuy rec.tickerId rec.sellMoney rec.qty rec.refundMoney

/-- What a match record gives its seller. -/
def MatchRecord.sells (rec : MatchRecord) : Delta :=
  Delta.commitSell rec.tickerId rec.sellMoney rec.qty

theorem SettleJob.moves_commitBuy (job : SettleJob) {users : UserManager}
    (hacc : users.HasAccount job.record.buyerUserId) :
    users.Moves job.record.buyerUserId job.record.buys (job.commitBuy users) :=
  UserManager.moves_modifyAccount (UserAccount.adds_commitBuy ..) hacc

theorem SettleJob.moves_commitSell (job : SettleJob) {users : UserManager}
    (hacc : users.HasAccount job.record.sellUserId) :
    users.Moves job.record.sellUserId job.record.sells (job.commitSell users) :=
  UserManager.moves_modifyAccount (UserAccount.adds_commitSell ..) hacc

theorem CancelRecord.release_of_not_hasAccount (rec : CancelRecord) {users : UserManager}
    (hacc : ¬ users.HasAccount rec.userId) : rec.release users = users := by
  have hnone := Option.not_isSome_iff_eq_none.mp hacc
  unfold release
  cases rec.side with
  | buy => exact UserManager.modifyAccount_of_none hnone _
  | sell => exact UserManager.modifyAccount_of_none hnone _

theorem UserManager.moves_addBalance (m : UserManager) (uid : UInt64) (amount : Int64) :
    m.Moves uid (if m.HasAccount uid then Delta.addBalance amount else Delta.zero)
      (m.addBalance uid amount) := by
  split_ifs with hacc
  · exact moves_modifyAccount (UserAccount.adds_addBalance amount) hacc
  · exact moves_of_not_hasAccount _ hacc

/-! ## What the moves add up to

Freezing and releasing stay within an account; a match record takes the price from
the buyer and gives it to the seller, and the shares the other way. -/

theorem neg_add_modEq_zero64 (a : Int64) : (-a).toInt + a.toInt ≡ 0 [ZMOD 2 ^ 64] := by
  have h := (int64_neg_modEq a).add_right a.toInt
  rwa [Int.add_left_neg] at h

theorem neg_add_modEq_zero32 (a : Int32) : (-a).toInt + a.toInt ≡ 0 [ZMOD 2 ^ 32] := by
  have h := (int32_neg_modEq a).add_right a.toInt
  rwa [Int.add_left_neg] at h

theorem Delta.single_neg_add (t : UInt32) (qty : Int32) (t' : UInt32) :
    (single t (-qty) t').toInt + (single t qty t').toInt ≡ 0 [ZMOD 2 ^ 32] := by
  unfold single
  split_ifs
  · exact neg_add_modEq_zero32 qty
  · rfl

theorem Order.freezes_cash (o : Order) :
    o.freezes.available.toInt + o.freezes.frozen.toInt ≡ 0 [ZMOD 2 ^ 64] := by
  unfold freezes
  cases o.side with
  | buy => exact neg_add_modEq_zero64 _
  | sell => rfl

theorem Order.freezes_stock (o : Order) (t : UInt32) :
    (o.freezes.availableStock t).toInt + (o.freezes.frozenStock t).toInt ≡ 0 [ZMOD 2 ^ 32] := by
  unfold freezes
  cases o.side with
  | buy => rfl
  | sell => exact Delta.single_neg_add _ _ _

theorem CancelRecord.releases_cash (rec : CancelRecord) :
    rec.releases.available.toInt + rec.releases.frozen.toInt ≡ 0 [ZMOD 2 ^ 64] := by
  unfold releases
  cases rec.side with
  | buy =>
      rw [Int.add_comm]
      exact neg_add_modEq_zero64 _
  | sell => rfl

theorem CancelRecord.releases_stock (rec : CancelRecord) (t : UInt32) :
    (rec.releases.availableStock t).toInt + (rec.releases.frozenStock t).toInt
      ≡ 0 [ZMOD 2 ^ 32] := by
  unfold releases
  cases rec.side with
  | buy => rfl
  | sell =>
      rw [Int.add_comm]
      exact Delta.single_neg_add _ _ _

theorem MatchRecord.buys_cash (rec : MatchRecord) :
    rec.buys.available.toInt + rec.buys.frozen.toInt ≡ -rec.sellMoney.toInt [ZMOD 2 ^ 64] := by
  have hsum := (int64_neg_modEq (rec.sellMoney + rec.refundMoney)).trans
    (int64_add_modEq rec.sellMoney rec.refundMoney).neg
  have h := hsum.add_left rec.refundMoney.toInt
  rwa [show rec.refundMoney.toInt + -(rec.sellMoney.toInt + rec.refundMoney.toInt)
    = -rec.sellMoney.toInt by omega] at h

theorem MatchRecord.buys_stock (rec : MatchRecord) (t : UInt32) :
    (rec.buys.availableStock t).toInt + (rec.buys.frozenStock t).toInt
      ≡ (Delta.single rec.tickerId rec.qty t).toInt [ZMOD 2 ^ 32] :=
  congrArg (· % 2 ^ 32) (Int.add_zero _)

theorem MatchRecord.sells_cash (rec : MatchRecord) :
    rec.sells.available.toInt + rec.sells.frozen.toInt ≡ rec.sellMoney.toInt [ZMOD 2 ^ 64] :=
  congrArg (· % 2 ^ 64) (Int.add_zero _)

theorem MatchRecord.sells_stock (rec : MatchRecord) (t : UInt32) :
    (rec.sells.availableStock t).toInt + (rec.sells.frozenStock t).toInt
      ≡ -(Delta.single rec.tickerId rec.qty t).toInt [ZMOD 2 ^ 32] := by
  have h := (Delta.single_neg_add rec.tickerId rec.qty t).sub_right
    (Delta.single rec.tickerId rec.qty t).toInt
  rw [Int.add_sub_cancel, Int.zero_sub] at h
  refine Int.ModEq.trans ?_ h
  exact congrArg (· % 2 ^ 32) (Int.zero_add _)

end ExchangeServer
