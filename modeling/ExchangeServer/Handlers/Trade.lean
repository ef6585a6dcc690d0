import ExchangeServer.Exchange.Simulation
import ExchangeServer.Handlers.Basic

/-!
# What a trade request freezes

The cost of an order is a product of integers.  `TradeHandler` computes it in 64 bits,
reads the result as an `int64_t` and compares that with what the user has; the shares of
a sell are a `uint32_t` that is read as an `int`.

`Assets` says what everybody has, in integers, and `FreezesExactly` what a trade request
should do to that.  `freezes_exactly_iff` says when the handler does it: for requests
that are not too large, and for those larger ones that happen to be refused because what
is left of the product is still more than the user has.
-/

namespace ExchangeServer

open Lib

/-! ## Assets in integers -/

/-- Cash and shares of every user, available and frozen. -/
@[ext]
structure Assets where
  available : UInt64 → ℤ
  frozen : UInt64 → ℤ
  availableStock : UInt64 → UInt32 → ℤ
  frozenStock : UInt64 → UInt32 → ℤ

namespace Assets

/-- Cash of a user from available to frozen. -/
def freezeBalance (a : Assets) (u : UInt64) (amount : ℤ) : Assets :=
  { a with
    available := Function.update a.available u (a.available u - amount)
    frozen := Function.update a.frozen u (a.frozen u + amount) }

/-- Shares of a user from available to frozen. -/
def freezeStock (a : Assets) (u : UInt64) (t : UInt32) (qty : ℤ) : Assets :=
  { a with
    availableStock := Function.update a.availableStock u
      (Function.update (a.availableStock u) t (a.availableStock u t - qty))
    frozenStock := Function.update a.frozenStock u
      (Function.update (a.frozenStock u) t (a.frozenStock u t + qty)) }

variable (a : Assets) (u u' : UInt64) (t t' : UInt32) (n : ℤ)

theorem freezeBalance_available :
    (a.freezeBalance u n).available u' = if u' = u then a.available u - n else a.available u' :=
  Function.update_apply ..

theorem freezeBalance_frozen :
    (a.freezeBalance u n).frozen u' = if u' = u then a.frozen u + n else a.frozen u' :=
  Function.update_apply ..

theorem freezeStock_availableStock :
    (a.freezeStock u t n).availableStock u' t' =
      if u' = u ∧ t' = t then a.availableStock u t - n else a.availableStock u' t' := by
  unfold freezeStock
  dsimp only
  by_cases hu : u' = u
  · rw [hu, Function.update_self, Function.update_apply]
    simp only [true_and]
  · rw [Function.update_of_ne hu, if_neg fun h => hu h.1]

theorem freezeStock_frozenStock :
    (a.freezeStock u t n).frozenStock u' t' =
      if u' = u ∧ t' = t then a.frozenStock u t + n else a.frozenStock u' t' := by
  unfold freezeStock
  dsimp only
  by_cases hu : u' = u
  · rw [hu, Function.update_self, Function.update_apply]
    simp only [true_and]
  · rw [Function.update_of_ne hu, if_neg fun h => hu h.1]

end Assets

/-- What the cache says that everybody has. -/
def UserManager.assets (m : UserManager) : Assets where
  available u := (m.availableBalance u).toInt
  frozen u := (m.frozenBalance u).toInt
  availableStock u t := (m.availableStock u t).toInt
  frozenStock u t := (m.frozenStock u t).toInt

namespace TradeRequest

/-- What the order can spend: its cost, or its shares. -/
def demand (req : TradeRequest) : ℕ :=
  match req.orderSide with
  | .buy => req.price.toNat * req.amount.toNat
  | .sell => req.amount.toNat

/-- What a user has for it. -/
def supply (req : TradeRequest) (a : Assets) (u : UInt64) : ℤ :=
  match req.orderSide with
  | .buy => a.available u
  | .sell => a.availableStock u req.tickerId

/-- The assets when that is frozen. -/
def take (req : TradeRequest) (a : Assets) (u : UInt64) : Assets :=
  match req.orderSide with
  | .buy => a.freezeBalance u req.demand
  | .sell => a.freezeStock u req.tickerId req.demand

/-- The numbers that the handler works with are those that are meant, or what is left of
a product that is too large is still refused. -/
def Fits (req : TradeRequest) (a : Assets) (u : UInt64) : Prop :=
  match req.orderSide with
  | .buy =>
      if req.demand < 2 ^ 63 then req.demand ≤ a.available u → a.frozen u + req.demand < 2 ^ 63
      else a.available u < (req.demand % 2 ^ 64 : ℕ) ∧ req.demand % 2 ^ 64 < 2 ^ 63
  | .sell =>
      req.demand < 2 ^ 31 ∧
        (req.demand ≤ a.availableStock u req.tickerId →
          a.frozenStock u req.tickerId + req.demand < 2 ^ 31)

/-- The request on the wire. -/
def bytes (req : TradeRequest) : List Byte :=
  littleEndian 4 req.tickerId.toNat ++ littleEndian 1 req.side.toNat
    ++ littleEndian 8 req.price.toNat ++ littleEndian 4 req.amount.toNat

/-- Every request can be sent. -/
theorem ofBytes_bytes (req : TradeRequest) (rest : List Byte) :
    ofBytes (req.bytes ++ rest) = req := by
  have hticker : readInt (req.bytes ++ rest) 0 4
      = ofLittleEndian (littleEndian 4 req.tickerId.toNat) := by
    simp only [bytes, List.append_assoc]
    exact readInt_append (rfl : ([] : List Byte).length = 0) (length_littleEndian ..) _
  have hside : readInt (req.bytes ++ rest) 4 1
      = ofLittleEndian (littleEndian 1 req.side.toNat) := by
    simp only [bytes, List.append_assoc]
    exact readInt_append (length_littleEndian ..) (length_littleEndian ..) _
  have hprice : readInt (req.bytes ++ rest) 5 8
      = ofLittleEndian (littleEndian 8 req.price.toNat) := by
    have hlength : (littleEndian 4 req.tickerId.toNat
        ++ littleEndian 1 req.side.toNat).length = 5 := by simp
    rw [← readInt_append hlength (length_littleEndian ..)
      (littleEndian 4 req.amount.toNat ++ rest)]
    simp only [bytes, List.append_assoc]
  have hamount : readInt (req.bytes ++ rest) 13 4
      = ofLittleEndian (littleEndian 4 req.amount.toNat) := by
    have hlength : (littleEndian 4 req.tickerId.toNat ++ littleEndian 1 req.side.toNat
        ++ littleEndian 8 req.price.toNat).length = 13 := by simp
    rw [← readInt_append hlength (length_littleEndian ..) rest]
    simp only [bytes, List.append_assoc]
  rw [ofBytes, hticker, hside, hprice, hamount, ofLittleEndian_uint32, ofLittleEndian_uint8,
    ofLittleEndian_uint64, ofLittleEndian_uint32]

end TradeRequest

/-! ## Checks with a fixed width -/

/-- Freezing an amount of cash that the check has let pass is exact. -/
theorem int64_freeze_iff {cost available : Int64} (frozen : Int64) {demand : ℕ}
    (hcost : cost.toInt ≡ demand [ZMOD 2 ^ 64]) (hpos : 0 ≤ available.toInt) :
    ((cost ≤ available ↔ demand ≤ available.toInt) ∧
      (cost ≤ available → (available + -cost).toInt = available.toInt - demand ∧
        (frozen + cost).toInt = frozen.toInt + demand)) ↔
    if demand < 2 ^ 63 then demand ≤ available.toInt → frozen.toInt + demand < 2 ^ 63
    else available.toInt < (demand % 2 ^ 64 : ℕ) ∧ demand % 2 ^ 64 < 2 ^ 63 := by
  have hdown := (int64_add_modEq available (-cost)).trans ((int64_neg_modEq cost).add_left _)
  have hup := int64_add_modEq frozen cost
  have hcostLow := cost.le_toInt
  have hcostHigh := cost.toInt_lt
  have havailable := available.toInt_lt
  have hfrozenLow := frozen.le_toInt
  have hfrozenHigh := frozen.toInt_lt
  have hdownLow := (available + -cost).le_toInt
  have hdownHigh := (available + -cost).toInt_lt
  have hupLow := (frozen + cost).le_toInt
  have hupHigh := (frozen + cost).toInt_lt
  rw [Int64.le_iff_toInt_le]
  unfold Int.ModEq at hcost hdown hup
  -- A demand that fits is the narrowed cost itself; of one that does not, only what is
  -- left after the wrap meets the check.
  split_ifs with hsmall
  · have hexact : cost.toInt = demand := by omega
    constructor
    · rintro ⟨-, h⟩ hle
      have := (h (by omega)).2
      omega
    · intro h
      refine ⟨by rw [hexact], fun hle => ?_⟩
      have := h (by omega)
      constructor <;> omega
  · constructor
    · rintro ⟨h, -⟩
      have hrefused : ¬ cost.toInt ≤ available.toInt := by omega
      omega
    · rintro ⟨hmore, hrange⟩
      have hexact : cost.toInt = (demand % 2 ^ 64 : ℕ) := by omega
      exact ⟨by omega, by omega⟩

/-- Freezing a number of shares that the check has let pass is exact. -/
theorem int32_freeze_iff {qty available : Int32} (frozen : Int32) {demand : ℕ}
    (hdemand : demand < 2 ^ 32) (hqty : qty.toInt ≡ demand [ZMOD 2 ^ 32])
    (hpos : 0 ≤ available.toInt) :
    ((qty ≤ available ↔ demand ≤ available.toInt) ∧
      (qty ≤ available → (available + -qty).toInt = available.toInt - demand ∧
        (frozen + qty).toInt = frozen.toInt + demand)) ↔
    demand < 2 ^ 31 ∧ (demand ≤ available.toInt → frozen.toInt + demand < 2 ^ 31) := by
  have hdown := (int32_add_modEq available (-qty)).trans ((int32_neg_modEq qty).add_left _)
  have hup := int32_add_modEq frozen qty
  have hqtyLow := qty.le_toInt
  have hqtyHigh := qty.toInt_lt
  have havailable := available.toInt_lt
  have hfrozenLow := frozen.le_toInt
  have hfrozenHigh := frozen.toInt_lt
  have hdownLow := (available + -qty).le_toInt
  have hdownHigh := (available + -qty).toInt_lt
  have hupLow := (frozen + qty).le_toInt
  have hupHigh := (frozen + qty).toInt_lt
  rw [Int32.le_iff_toInt_le]
  unfold Int.ModEq at hqty hdown hup
  constructor
  · rintro ⟨hcheck, hmove⟩
    -- A negative number of shares would pass the check.
    have hsmall : demand < 2 ^ 31 := by omega
    refine ⟨hsmall, fun hle => ?_⟩
    have := (hmove (by omega)).2
    omega
  · rintro ⟨hsmall, hroom⟩
    have hexact : qty.toInt = demand := by omega
    refine ⟨by rw [hexact], fun hle => ?_⟩
    have := hroom (by omega)
    constructor <;> omega

/-! ## What a freeze does to the assets -/

namespace UserManager

namespace Moves

variable {m m' : UserManager} {uid : UInt64} {δ : Delta} (h : m.Moves uid δ m')
include h

theorem assets_available (u : UInt64) :
    m'.assets.available u =
      if u = uid then (m.availableBalance uid + δ.available).toInt else m.assets.available u := by
  show (m'.availableBalance u).toInt = _
  rw [h.available]
  split_ifs with hu
  · rw [hu]
  · rw [Int64.add_zero]
    rfl

theorem assets_frozen (u : UInt64) :
    m'.assets.frozen u =
      if u = uid then (m.frozenBalance uid + δ.frozen).toInt else m.assets.frozen u := by
  show (m'.frozenBalance u).toInt = _
  rw [h.frozen]
  split_ifs with hu
  · rw [hu]
  · rw [Int64.add_zero]
    rfl

theorem assets_availableStock (u : UInt64) (t : UInt32) :
    m'.assets.availableStock u t =
      if u = uid then (m.availableStock uid t + δ.availableStock t).toInt
      else m.assets.availableStock u t := by
  show (m'.availableStock u t).toInt = _
  rw [h.availableStock]
  split_ifs with hu
  · rw [hu]
  · rw [Int32.add_zero]
    rfl

theorem assets_frozenStock (u : UInt64) (t : UInt32) :
    m'.assets.frozenStock u t =
      if u = uid then (m.frozenStock uid t + δ.frozenStock t).toInt
      else m.assets.frozenStock u t := by
  show (m'.frozenStock u t).toInt = _
  rw [h.frozenStock]
  split_ifs with hu
  · rw [hu]
  · rw [Int32.add_zero]
    rfl

/-- Where nothing is added to the cash, it stays. -/
theorem assets_cash (havailable : δ.available = 0) (hfrozen : δ.frozen = 0) :
    m'.assets.available = m.assets.available ∧ m'.assets.frozen = m.assets.frozen := by
  constructor
  · funext u
    rw [h.assets_available, havailable, Int64.add_zero]
    split_ifs with hu
    · rw [hu]
      rfl
    · rfl
  · funext u
    rw [h.assets_frozen, hfrozen, Int64.add_zero]
    split_ifs with hu
    · rw [hu]
      rfl
    · rfl

/-- Where nothing is added to the shares, they stay. -/
theorem assets_stock (havailable : δ.availableStock = fun _ => 0)
    (hfrozen : δ.frozenStock = fun _ => 0) :
    m'.assets.availableStock = m.assets.availableStock ∧
      m'.assets.frozenStock = m.assets.frozenStock := by
  constructor
  · funext u t
    rw [h.assets_availableStock, havailable, Int32.add_zero]
    split_ifs with hu
    · rw [hu]
      rfl
    · rfl
  · funext u t
    rw [h.assets_frozenStock, hfrozen, Int32.add_zero]
    split_ifs with hu
    · rw [hu]
      rfl
    · rfl

end Moves

variable {m m' : UserManager} {uid : UInt64}

theorem assets_of_moves_zero (h : m.Moves uid Delta.zero m') : m'.assets = m.assets :=
  Assets.ext_iff.mpr ⟨(h.assets_cash rfl rfl).1, (h.assets_cash rfl rfl).2,
    (h.assets_stock rfl rfl).1, (h.assets_stock rfl rfl).2⟩

/-- Cash is frozen exactly when the two sums are exact. -/
theorem assets_freezeBalance_iff {cost : Int64} {amount : ℤ}
    (h : m.Moves uid (Delta.freezeBalance cost) m') :
    m'.assets = m.assets.freezeBalance uid amount ↔
      (m.availableBalance uid + -cost).toInt = (m.availableBalance uid).toInt - amount ∧
        (m.frozenBalance uid + cost).toInt = (m.frozenBalance uid).toInt + amount := by
  have havailable := h.assets_available
  have hfrozen := h.assets_frozen
  obtain ⟨hstock, hstock'⟩ := h.assets_stock rfl rfl
  constructor
  · intro heq
    constructor
    · have hdown := havailable uid
      rw [heq, Assets.freezeBalance_available, if_pos rfl, if_pos rfl] at hdown
      exact hdown.symm
    · have hup := hfrozen uid
      rw [heq, Assets.freezeBalance_frozen, if_pos rfl, if_pos rfl] at hup
      exact hup.symm
  · rintro ⟨hdown, hup⟩
    refine Assets.ext_iff.mpr ⟨?_, ?_, hstock, hstock'⟩
    · funext u
      rw [havailable, Assets.freezeBalance_available]
      split_ifs with hu
      · exact hdown
      · rfl
    · funext u
      rw [hfrozen, Assets.freezeBalance_frozen]
      split_ifs with hu
      · exact hup
      · rfl

/-- Shares are frozen exactly when the two sums are exact. -/
theorem assets_freezeStock_iff {t : UInt32} {qty : Int32} {amount : ℤ}
    (h : m.Moves uid (Delta.freezeStock t qty) m') :
    m'.assets = m.assets.freezeStock uid t amount ↔
      (m.availableStock uid t + -qty).toInt = (m.availableStock uid t).toInt - amount ∧
        (m.frozenStock uid t + qty).toInt = (m.frozenStock uid t).toInt + amount := by
  have havailable := h.assets_availableStock
  have hfrozen := h.assets_frozenStock
  obtain ⟨hcash, hcash'⟩ := h.assets_cash rfl rfl
  simp only [Delta.freezeStock, Delta.single] at havailable hfrozen
  constructor
  · intro heq
    constructor
    · have hdown := havailable uid t
      rw [heq, Assets.freezeStock_availableStock, if_pos ⟨rfl, rfl⟩, if_pos rfl,
        if_pos rfl] at hdown
      exact hdown.symm
    · have hup := hfrozen uid t
      rw [heq, Assets.freezeStock_frozenStock, if_pos ⟨rfl, rfl⟩, if_pos rfl, if_pos rfl] at hup
      exact hup.symm
  · rintro ⟨hdown, hup⟩
    refine Assets.ext_iff.mpr ⟨hcash, hcash', ?_, ?_⟩
    · funext u t'
      rw [havailable, Assets.freezeStock_availableStock]
      by_cases hu : u = uid
      · by_cases ht : t' = t
        · rw [if_pos hu, if_pos ht, if_pos ⟨hu, ht⟩, ht]
          exact hdown
        · rw [if_pos hu, if_neg ht, if_neg fun h => ht h.2, Int32.add_zero, hu]
          rfl
      · rw [if_neg hu, if_neg fun h => hu h.1]
    · funext u t'
      rw [hfrozen, Assets.freezeStock_frozenStock]
      by_cases hu : u = uid
      · by_cases ht : t' = t
        · rw [if_pos hu, if_pos ht, if_pos ⟨hu, ht⟩, ht]
          exact hup
        · rw [if_pos hu, if_neg ht, if_neg fun h => ht h.2, Int32.add_zero, hu]
          rfl
      · rw [if_neg hu, if_neg fun h => hu h.1]

end UserManager

/-! ## The freeze of a request -/

namespace TradeRequest

variable {req : TradeRequest} {users : UserManager} {session : Session}

/-- A refused freeze leaves the assets. -/
theorem assets_of_refused (h : (req.freeze users session).2 = false) :
    (req.freeze users session).1.assets = users.assets := by
  have hmoves := ((req.order session 0 0).freeze_spec users).2
  rw [Exchange.freeze_order, h, if_neg Bool.false_ne_true] at hmoves
  exact UserManager.assets_of_moves_zero hmoves

/-- **A freeze is exact exactly when the request fits.** -/
theorem freeze_iff (hacc : users.HasAccount session.userId)
    (hpos : 0 ≤ req.supply users.assets session.userId) :
    (((req.freeze users session).2 = true ↔ req.demand ≤ req.supply users.assets session.userId) ∧
      ((req.freeze users session).2 = true →
        (req.freeze users session).1.assets = req.take users.assets session.userId)) ↔
    req.Fits users.assets session.userId := by
  obtain ⟨hcovered, hmoves⟩ := (req.order session 0 0).freeze_spec users
  have huser : users.HasAccount (req.order session 0 0).userId := hacc
  rw [Exchange.freeze_order, and_iff_right huser] at hcovered
  rw [Exchange.freeze_order] at hmoves
  have hamount : req.amount.toUInt64.toNat = req.amount.toNat := UInt32.toNat_toUInt64 _
  unfold supply at hpos ⊢
  unfold take Fits
  unfold Order.Covered at hcovered
  unfold Order.freezes at hmoves
  cases hside : req.orderSide with
  | buy =>
      simp only [order, hside] at hcovered hmoves hpos ⊢
      have hcost : (req.price * req.amount.toUInt64).toInt64.toInt ≡ req.demand [ZMOD 2 ^ 64] := by
        refine (toInt64_modEq _).trans ((uint64_mul_modEq _ _).trans ?_)
        rw [hamount, demand, hside, Nat.cast_mul]
      refine Iff.trans ?_ (int64_freeze_iff (users.frozenBalance session.userId) hcost hpos)
      rw [hcovered]
      refine and_congr Iff.rfl (forall_congr' fun hok => ?_)
      rw [if_pos (hcovered.mpr hok)] at hmoves
      exact UserManager.assets_freezeBalance_iff hmoves
  | sell =>
      simp only [order, hside] at hcovered hmoves hpos ⊢
      have hqty : req.amount.toUInt64.toUInt32.toInt32.toInt ≡ req.demand [ZMOD 2 ^ 32] := by
        refine (narrow_modEq _).trans ?_
        rw [hamount, demand, hside]
      have hdemand : req.demand < 2 ^ 32 := by
        rw [demand, hside]
        exact req.amount.toNat_lt
      refine Iff.trans ?_ (int32_freeze_iff
        (users.frozenStock session.userId req.tickerId) hdemand hqty hpos)
      rw [hcovered]
      refine and_congr Iff.rfl (forall_congr' fun hok => ?_)
      rw [if_pos (hcovered.mpr hok)] at hmoves
      exact UserManager.assets_freezeStock_iff hmoves

end TradeRequest

/-! ## The handler -/

section TradeHandler

variable (answers : Answers) (services : Services) (session : Session) (data : List Byte)
  (reqLen : UInt32)

/-- The handler accepts a request exactly when the exact demand is there, and then
freezes exactly that and logs the order; otherwise it changes nothing. -/
structure FreezesExactly : Prop where
  reply : (TradeHandler.handle answers services session data reqLen).reply =
    if (TradeRequest.ofBytes data).demand
        ≤ (TradeRequest.ofBytes data).supply services.users.assets session.userId
    then [1] else [0]
  assets : (TradeHandler.handle answers services session data reqLen).services.users.assets =
    if (TradeRequest.ofBytes data).demand
        ≤ (TradeRequest.ofBytes data).supply services.users.assets session.userId
    then (TradeRequest.ofBytes data).take services.users.assets session.userId
    else services.users.assets
  wal : (TradeHandler.handle answers services session data reqLen).services.wal =
    if (TradeRequest.ofBytes data).demand
        ≤ (TradeRequest.ofBytes data).supply services.users.assets session.userId
    then services.wal.appendOrder answers.thread
      ((TradeRequest.ofBytes data).order session answers.orderId answers.now)
    else services.wal

/-- Then nothing available rises, and nothing frozen falls. -/
theorem FreezesExactly.available_le {answers services session data reqLen}
    (h : FreezesExactly answers services session data reqLen) (u : UInt64) (t : UInt32) :
    let before := services.users.assets
    let after := (TradeHandler.handle answers services session data reqLen).services.users.assets
    after.available u ≤ before.available u ∧ before.frozen u ≤ after.frozen u ∧
      after.availableStock u t ≤ before.availableStock u t ∧
      before.frozenStock u t ≤ after.frozenStock u t := by
  dsimp only
  rw [h.assets]
  split_ifs
  · unfold TradeRequest.take
    cases (TradeRequest.ofBytes data).orderSide with
    | buy =>
        dsimp only
        rw [Assets.freezeBalance_available, Assets.freezeBalance_frozen]
        refine ⟨?_, ?_, le_rfl, le_rfl⟩ <;> split_ifs with hu <;> subst_vars <;> omega
    | sell =>
        dsimp only
        rw [Assets.freezeStock_availableStock, Assets.freezeStock_frozenStock]
        refine ⟨le_rfl, le_rfl, ?_, ?_⟩ <;> split_ifs with hu
        · obtain ⟨rfl, rfl⟩ := hu
          omega
        · exact le_rfl
        · obtain ⟨rfl, rfl⟩ := hu
          omega
        · exact le_rfl
  · exact ⟨le_rfl, le_rfl, le_rfl, le_rfl⟩

variable {session reqLen} in
/-- What a trade request that reaches the freeze comes to. -/
theorem TradeHandler.handle_eq (hlogin : session.isLoggedIn = true)
    (hlong : TradeRequest.size ≤ reqLen) :
    TradeHandler.handle answers services session data reqLen =
      { reply := if ((TradeRequest.ofBytes data).freeze services.users session).2
          then [1] else [0]
        session := session
        services := { services with
          users := ((TradeRequest.ofBytes data).freeze services.users session).1
          wal := if ((TradeRequest.ofBytes data).freeze services.users session).2
            then services.wal.appendOrder answers.thread
              ((TradeRequest.ofBytes data).order session answers.orderId answers.now)
            else services.wal }
        calls := [] } := by
  unfold TradeHandler.handle
  rw [if_pos hlogin, if_neg (UInt32.not_lt.mpr hlong)]
  dsimp only
  split_ifs <;> rfl

end TradeHandler

/-- **A trade request freezes exactly what it can spend when it fits, and only then.** -/
theorem freezes_exactly_iff (answers : Answers) {services : Services} {session : Session}
    {data : List Byte} {reqLen : UInt32} (hlogin : session.isLoggedIn = true)
    (hacc : services.users.HasAccount session.userId) (hlong : TradeRequest.size ≤ reqLen)
    (hpos : 0 ≤ (TradeRequest.ofBytes data).supply services.users.assets session.userId) :
    FreezesExactly answers services session data reqLen ↔
      (TradeRequest.ofBytes data).Fits services.users.assets session.userId := by
  have hhandle := TradeHandler.handle_eq answers services data hlogin hlong
  rw [← TradeRequest.freeze_iff hacc hpos]
  constructor
  · rintro ⟨hreply, hassets, -⟩
    rw [hhandle] at hreply hassets
    dsimp only at hreply hassets
    constructor
    · split_ifs at hreply with hok hcovered hcovered
      · exact iff_of_true hok hcovered
      · exact absurd hreply (by decide)
      · exact absurd hreply (by decide)
      · exact iff_of_false hok hcovered
    · intro hok
      split_ifs at hreply hassets with hcovered
      · exact hassets
      · exact absurd hreply (by decide)
  · rintro ⟨hcovered, htake⟩
    -- The code tests the freeze, the law the exact demand.
    have hif : ∀ {α : Type} (x y : α),
        (if ((TradeRequest.ofBytes data).freeze services.users session).2 then x else y) =
          if (TradeRequest.ofBytes data).demand
            ≤ (TradeRequest.ofBytes data).supply services.users.assets session.userId
          then x else y := fun x y => if_congr hcovered rfl rfl
    refine ⟨?_, ?_, ?_⟩
    · rw [hhandle, ← hif]
    · rw [hhandle, ← hif]
      dsimp only
      split_ifs with hok
      · exact htake hok
      · exact TradeRequest.assets_of_refused (Bool.eq_false_iff.mpr hok)
    · rw [hhandle, ← hif]

/-- A user `7` with 100 in cash. -/
def tradeSample : Services :=
  { Services.new with users := (UserManager.new.createUserAccount 7 "u").addBalance 7 100 }

/-- Five shares at 20 cost all of it. -/
theorem freezes_exactly_iff_sample :
    tradeSample.users.HasAccount 7 ∧
      FreezesExactly Answers.offline tradeSample ⟨"u", 7⟩
        (TradeRequest.bytes ⟨1, 0, 20, 5⟩) TradeRequest.size := by
  refine ⟨by decide, (freezes_exactly_iff Answers.offline (by decide) (by decide)
    (UInt32.le_refl _) ?_).mpr ?_⟩
  · decide
  · rw [← List.append_nil (TradeRequest.bytes _), TradeRequest.ofBytes_bytes]
    exact fun _ => by decide

/-- Two shares at `2 ^ 63` cost nothing, and selling `2 ^ 31` shares that are not there
makes them available. -/
theorem trade_wraps :
    ¬ FreezesExactly Answers.offline tradeSample ⟨"u", 7⟩
        (TradeRequest.bytes ⟨1, 0, 9223372036854775808, 2⟩) TradeRequest.size ∧
      ¬ FreezesExactly Answers.offline tradeSample ⟨"u", 7⟩
        (TradeRequest.bytes ⟨1, 1, 20, 2147483648⟩) TradeRequest.size := by
  constructor
  · intro h
    exact absurd h.reply (by decide)
  · intro h
    exact absurd h.reply (by decide)

end ExchangeServer
