import ExchangeServer.Backing

/-!
# What an account adds up to

The number in an account is what it was at the start and what has been added to it
since: the freeze of every accepted order, both halves of every match record that was
settled, the release of every cancel record and the deposits.  `Gauge.tally` is that
sum, over everything that has happened less what is still to be settled, and
`Step.tally` says that every step changes the account as it changes the sum.

The sum does not know in what order things happened, which is why the order of
settlement makes no difference to the accounts.
-/

namespace ExchangeServer

open Lib

/-- A number of an account, as an integer with a modulus.  `change` is what a move of
some user adds to it. -/
structure Gauge where
  modulus : ℤ
  reading : UserManager → ℤ
  change : UInt64 → Delta → ℤ
  moves : ∀ {m uid δ m'}, UserManager.Moves m uid δ m' →
    reading m' ≡ reading m + change uid δ [ZMOD modulus]
  create : ∀ m uid name, reading (UserManager.createUserAccount m uid name) = reading m
  zero : ∀ uid, change uid Delta.zero = 0

namespace Gauge

variable (g : Gauge)

/-! ## What each thing adds -/

def frozenFor (o : Order) : ℤ := g.change o.userId o.freezes

def boughtBy (rec : MatchRecord) : ℤ := g.change rec.buyerUserId rec.buys

def soldBy (rec : MatchRecord) : ℤ := g.change rec.sellUserId rec.sells

def releasedBy (rec : CancelRecord) : ℤ := g.change rec.userId rec.releases

def paidBy (d : UInt64 × Int64) : ℤ := g.change d.1 (Delta.addBalance d.2)

/-- The sum of what was decided, less what is still to be done. -/
def total (accepted : Multiset Order) (credited : Multiset (UInt64 × Int64))
    (traded unbought unsold : Multiset MatchRecord)
    (cancelled cancels : Multiset CancelRecord) : ℤ :=
  (accepted.map g.frozenFor).sum + (credited.map g.paidBy).sum
    + ((traded.map g.boughtBy).sum - (unbought.map g.boughtBy).sum)
    + ((traded.map g.soldBy).sum - (unsold.map g.soldBy).sum)
    + ((cancelled.map g.releasedBy).sum - (cancels.map g.releasedBy).sum)

/-- What has been added to the account. -/
def tally (c : Clearing) : ℤ :=
  g.total c.accepted c.credited c.traded c.unbought c.unsold c.cancelled c.cancels

/-- What the account reads, without what has been added to it. -/
def base (c : Clearing) : ℤ := g.reading c.users - g.tally c

variable {g} {tickers : TickerManager} {c c' : Clearing} {e : Event}

/-- A move that adds what the sum grows by. -/
theorem base_of_moves {uid : UInt64} {δ : Delta} (hmoves : c.users.Moves uid δ c'.users)
    (htally : g.tally c' = g.tally c + g.change uid δ) :
    g.base c' ≡ g.base c [ZMOD g.modulus] := by
  have hreading := (g.moves hmoves).sub_right (g.tally c')
  unfold base
  rw [htally] at hreading ⊢
  rwa [add_sub_add_right_eq_sub] at hreading

theorem base_of_eq (husers : c'.users = c.users) (htally : g.tally c' = g.tally c) :
    g.base c' ≡ g.base c [ZMOD g.modulus] := by
  unfold base
  rw [husers, htally]

/-! ## Steps -/

/-- Starting on a record changes nothing about what is still to be done. -/
theorem unsettled_start {rec : MatchRecord} {rest : Multiset MatchRecord}
    (idle : c.inHand = none) (h : c.records = rec ::ₘ rest) (job : SettleJob)
    (hjob : job.record = rec) :
    Clearing.unbought { c with records := rest, inHand := some (job, .call .deductBalance) }
        = c.unbought ∧
      Clearing.unsold { c with records := rest, inHand := some (job, .call .deductBalance) }
        = c.unsold := by
  simp only [Clearing.unbought, Clearing.unsold, Clearing.buying, Clearing.selling, idle, h, hjob,
    Multiset.singleton_add, zero_add, and_self]

/-- **A step adds to an account what it adds to the sum**, given that those who are
owed something have an account. -/
theorem base_step (h : Clearing.Step tickers c e c') (howned : c.Owned)
    (hcancels : ∀ rec ∈ c.cancels, c.users.HasAccount rec.userId) :
    g.base c' ≡ g.base c [ZMOD g.modulus] := by
  cases h with
  | create uid username =>
      unfold base
      rw [g.create]
      rfl
  | freeze o hok =>
      have hmoves := (o.freeze_spec c.users).2
      rw [if_pos hok] at hmoves
      refine base_of_moves hmoves ?_
      show g.total (o ::ₘ c.accepted) c.credited c.traded c.unbought c.unsold c.cancelled
        c.cancels = g.tally c + g.frozenFor o
      unfold tally total
      rw [Multiset.map_cons, Multiset.sum_cons]
      omega
  | refuse o hno =>
      have hmoves := (o.freeze_spec c.users).2
      rw [hno] at hmoves
      refine base_of_moves hmoves ?_
      rw [if_neg Bool.false_ne_true, g.zero, add_zero]
      rfl
  | drop o rest unlisted ho => exact base_of_eq rfl rfl
  | market orders records cancels parties listed trades =>
      refine base_of_eq rfl ?_
      -- A new record is traded and, so far, neither bought nor sold.
      have hbuy : c.buying + (records + c.records) = records + c.unbought :=
        add_left_comm c.buying records c.records
      have hsell : c.selling + (records + c.records) = records + c.unsold :=
        add_left_comm c.selling records c.records
      show g.total c.accepted c.credited (records + c.traded) (c.buying + (records + c.records))
        (c.selling + (records + c.records)) (cancels + c.cancelled) (cancels + c.cancels)
        = g.tally c
      rw [hbuy, hsell]
      unfold tally total
      simp only [Multiset.map_add, Multiset.sum_add]
      omega
  | start rec rest idle hrec =>
      obtain ⟨hbuy, hsell⟩ := unsettled_start idle hrec (SettleJob.start c.users tickers rec) rfl
      refine base_of_eq rfl ?_
      unfold tally
      rw [hbuy, hsell]
  | call job k fault hhand =>
      refine base_of_eq rfl ?_
      unfold tally Clearing.unbought Clearing.unsold
      rw [Clearing.buying_call hhand, Clearing.selling_call hhand]
  | commitBuy job hhand =>
      refine base_of_moves (job.moves_commitBuy (howned.inHand hhand).1) ?_
      have hbuy : c.unbought = job.record ::ₘ c.records := by
        simp only [Clearing.unbought, Clearing.buying, hhand, Multiset.singleton_add]
      have hsell : c.unsold = job.record ::ₘ c.records := by
        simp only [Clearing.unsold, Clearing.selling, hhand, Multiset.singleton_add]
      show g.total c.accepted c.credited c.traded (0 + c.records) ({job.record} + c.records)
        c.cancelled c.cancels = g.tally c + g.boughtBy job.record
      unfold tally total
      rw [hbuy, hsell, zero_add, Multiset.singleton_add]
      simp only [Multiset.map_cons, Multiset.sum_cons]
      omega
  | commitSell job hhand =>
      refine base_of_moves (job.moves_commitSell (howned.inHand hhand).2) ?_
      have hbuy : c.unbought = c.records := by
        simp only [Clearing.unbought, Clearing.buying, hhand, zero_add]
      have hsell : c.unsold = job.record ::ₘ c.records := by
        simp only [Clearing.unsold, Clearing.selling, hhand, Multiset.singleton_add]
      show g.total c.accepted c.credited c.traded (0 + c.records) (0 + c.records)
        c.cancelled c.cancels = g.tally c + g.soldBy job.record
      unfold tally total
      rw [hbuy, hsell, zero_add]
      simp only [Multiset.map_cons, Multiset.sum_cons]
      omega
  | release rec rest idle hrec =>
      refine base_of_moves (rec.moves_release (hcancels rec (by simp [hrec]))) ?_
      show g.total c.accepted c.credited c.traded c.unbought c.unsold c.cancelled rest
        = g.tally c + g.releasedBy rec
      unfold tally total
      rw [hrec, Multiset.map_cons, Multiset.sum_cons]
      omega
  | deposit session amount fault pos => exact base_of_eq rfl rfl
  | credit uid amount rest hdep =>
      refine base_of_moves (c.users.moves_addBalance uid amount) ?_
      have hpaid : g.paidBy (uid, amount) = g.change uid (Delta.addBalance amount) := rfl
      show g.total c.accepted (if c.users.HasAccount uid then (uid, amount) ::ₘ c.credited
        else c.credited) c.traded c.unbought c.unsold c.cancelled c.cancels = _
      unfold tally total
      by_cases hacc : c.users.HasAccount uid
      · rw [if_pos hacc, if_pos hacc, Multiset.map_cons, Multiset.sum_cons, hpaid]
        omega
      · rw [if_neg hacc, if_neg hacc, g.zero]
        omega

/-- Once everything is settled, the sum is over what has happened. -/
theorem tally_of_settled (hrecords : c.records = 0) (hhand : c.inHand = none)
    (hcancels : c.cancels = 0) :
    g.tally c = (c.accepted.map g.frozenFor).sum + (c.credited.map g.paidBy).sum
      + (c.traded.map g.boughtBy).sum + (c.traded.map g.soldBy).sum
      + (c.cancelled.map g.releasedBy).sum := by
  have hbuy : c.unbought = 0 := by
    simp only [Clearing.unbought, Clearing.buying, hhand, hrecords, add_zero]
  have hsell : c.unsold = 0 := by
    simp only [Clearing.unsold, Clearing.selling, hhand, hrecords, add_zero]
  unfold tally total
  rw [hbuy, hsell, hcancels]
  simp only [Multiset.map_zero, Multiset.sum_zero, sub_zero]

end Gauge

/-! ## The four numbers -/

/-- `available_balance` of a user. -/
def availableCash (u : UInt64) : Gauge where
  modulus := 2 ^ 64
  reading m := (m.availableBalance u).toInt
  change uid δ := if u = uid then δ.available.toInt else 0
  moves {m uid δ m'} h := by
    rw [h.available u]
    split_ifs
    · exact int64_add_modEq _ _
    · rw [Int64.add_zero, Int.add_zero]
  create m uid name := congrArg Int64.toInt ((m.moves_createUserAccount uid name).1 u)
  zero uid := by simp [Delta.zero]

/-- `available_stock` of a user in a ticker. -/
def availableShares (u : UInt64) (t : UInt32) : Gauge where
  modulus := 2 ^ 32
  reading m := (m.availableStock u t).toInt
  change uid δ := if u = uid then (δ.availableStock t).toInt else 0
  moves {m uid δ m'} h := by
    rw [h.availableStock u t]
    split_ifs
    · exact int32_add_modEq _ _
    · rw [Int32.add_zero, Int.add_zero]
  create m uid name := congrArg Int32.toInt ((m.moves_createUserAccount uid name).2.2.1 u t)
  zero uid := by simp [Delta.zero]

/-- A meter of a frozen number, as a gauge. -/
def Meter.gauge (M : Meter) : Gauge where
  modulus := M.modulus
  reading := M.reading
  change := M.change
  moves := M.moves
  create := M.create
  zero := M.zero

end ExchangeServer
