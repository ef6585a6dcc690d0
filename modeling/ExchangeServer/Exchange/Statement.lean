import ExchangeServer.Exchange.Receipts
import ExchangeServer.Exchange.Scheduling
import ExchangeServer.Solvency.Basic

/-!
# Statements of account

What a user finds in its account, told from what the user itself has done.

`account_statement` says that cash and shares, available and frozen together, are what
they were at the start, what the user paid in, and what the match records that were
settled in its name took and gave, at the prices of the trades: freezing, cancelling and
refunding leave no trace in the sum.  `bystander_untouched` says that a user who has had
no order accepted has nothing taken, given or frozen, whatever others do.

Both hold for every run, with any order ids.
-/

namespace ExchangeServer

open Lib PriceTime

/-! ## The lines of a statement -/

/-- The cash of a user, available and frozen. -/
def UserManager.cashOf (m : UserManager) (u : UInt64) : ℤ :=
  (m.availableBalance u).toInt + (m.frozenBalance u).toInt

/-- The shares of a user in a ticker, available and frozen. -/
def UserManager.sharesOf (m : UserManager) (u : UInt64) (t : UInt32) : ℤ :=
  (m.availableStock u t).toInt + (m.frozenStock u t).toInt

/-- What a user pays for what it buys, at the prices of the trades. -/
def cashPaid (u : UInt64) (records : Multiset MatchRecord) : ℤ :=
  (records.map fun rec =>
    if u = rec.buyerUserId then ((rec.matchPrice.toNat * rec.matchQuantity.toNat : ℕ) : ℤ)
    else 0).sum

/-- What a user is paid for what it sells. -/
def cashEarned (u : UInt64) (records : Multiset MatchRecord) : ℤ :=
  (records.map fun rec =>
    if u = rec.sellUserId then ((rec.matchPrice.toNat * rec.matchQuantity.toNat : ℕ) : ℤ)
    else 0).sum

/-- What a user buys of a ticker. -/
def sharesBought (u : UInt64) (t : UInt32) (records : Multiset MatchRecord) : ℤ :=
  (records.map fun rec =>
    if u = rec.buyerUserId ∧ t = rec.tickerId then (rec.matchQuantity.toNat : ℤ) else 0).sum

/-- What a user sells of a ticker. -/
def sharesSold (u : UInt64) (t : UInt32) (records : Multiset MatchRecord) : ℤ :=
  (records.map fun rec =>
    if u = rec.sellUserId ∧ t = rec.tickerId then (rec.matchQuantity.toNat : ℤ) else 0).sum

/-! ## Two gauges -/

/-- The cash of a user, available and frozen. -/
def wholeCash (u : UInt64) : Gauge where
  modulus := 2 ^ 64
  reading m := m.cashOf u
  change uid δ := if u = uid then δ.available.toInt + δ.frozen.toInt else 0
  moves {m uid δ m'} h := by
    unfold UserManager.cashOf
    rw [h.available u, h.frozen u]
    split_ifs
    · rw [add_add_add_comm]
      exact (int64_add_modEq _ _).add (int64_add_modEq _ _)
    · rw [Int64.add_zero, Int64.add_zero, Int.add_zero]
  create m uid name := by
    obtain ⟨havailable, hfrozen, -⟩ := m.moves_createUserAccount uid name
    unfold UserManager.cashOf
    rw [havailable, hfrozen]
  zero uid := by simp [Delta.zero]

/-- The shares of a user in a ticker, available and frozen. -/
def wholeShares (u : UInt64) (t : UInt32) : Gauge where
  modulus := 2 ^ 32
  reading m := m.sharesOf u t
  change uid δ :=
    if u = uid then (δ.availableStock t).toInt + (δ.frozenStock t).toInt else 0
  moves {m uid δ m'} h := by
    unfold UserManager.sharesOf
    rw [h.availableStock u t, h.frozenStock u t]
    split_ifs
    · rw [add_add_add_comm]
      exact (int32_add_modEq _ _).add (int32_add_modEq _ _)
    · rw [Int32.add_zero, Int32.add_zero, Int.add_zero]
  create m uid name := by
    obtain ⟨-, -, havailable, hfrozen, -⟩ := m.moves_createUserAccount uid name
    unfold UserManager.sharesOf
    rw [havailable, hfrozen]
  zero uid := by simp [Delta.zero]

/-- Sums whose terms agree up to a modulus agree up to it. -/
theorem sum_map_modEq {α : Type*} {n : ℤ} {f g : α → ℤ} (h : ∀ a, f a ≡ g a [ZMOD n])
    (m : Multiset α) : (m.map f).sum ≡ (m.map g).sum [ZMOD n] := by
  induction m using Multiset.induction_on with
  | empty => rfl
  | cons a m ih =>
      rw [Multiset.map_cons, Multiset.map_cons, Multiset.sum_cons, Multiset.sum_cons]
      exact (h a).add ih

/-- Terms that vanish up to a modulus have a sum that does. -/
theorem sum_map_modEq_zero {α : Type*} {n : ℤ} {f : α → ℤ} (h : ∀ a, f a ≡ 0 [ZMOD n])
    (m : Multiset α) : (m.map f).sum ≡ 0 [ZMOD n] := by
  have hsum : (m.map f).sum ≡ (m.map fun _ => (0 : ℤ)).sum [ZMOD n] := sum_map_modEq h m
  rwa [Multiset.sum_map_zero] at hsum

theorem ite_modEq {n a b : ℤ} (p : Prop) [Decidable p] (h : a ≡ b [ZMOD n]) :
    (if p then a else 0) ≡ (if p then b else 0) [ZMOD n] := by
  split_ifs
  · exact h
  · rfl

section Terms

variable (u : UInt64) (t : UInt32)

theorem sellMoney_modEq (rec : MatchRecord) :
    rec.sellMoney.toInt ≡ (rec.matchPrice.toNat * rec.matchQuantity.toNat : ℕ) [ZMOD 2 ^ 64] :=
  toInt64_product rec.matchPrice rec.matchQuantity

theorem wholeCash_bought (records : Multiset MatchRecord) :
    (records.map (wholeCash u).boughtBy).sum ≡ -cashPaid u records [ZMOD 2 ^ 64] := by
  unfold cashPaid
  rw [← Multiset.sum_map_neg]
  refine sum_map_modEq (fun rec => ?_) records
  show (if u = rec.buyerUserId then rec.buys.available.toInt + rec.buys.frozen.toInt else 0)
    ≡ _ [ZMOD 2 ^ 64]
  split_ifs
  · exact rec.buys_cash.trans (sellMoney_modEq rec).neg
  · rfl

theorem wholeCash_sold (records : Multiset MatchRecord) :
    (records.map (wholeCash u).soldBy).sum ≡ cashEarned u records [ZMOD 2 ^ 64] :=
  sum_map_modEq (fun rec => ite_modEq _ (rec.sells_cash.trans (sellMoney_modEq rec))) records

theorem single_modEq (rec : MatchRecord) : (Delta.single rec.tickerId rec.qty t).toInt
    ≡ (if t = rec.tickerId then (rec.matchQuantity.toNat : ℤ) else 0) [ZMOD 2 ^ 32] := by
  unfold Delta.single
  split_ifs
  · exact narrow_modEq rec.matchQuantity
  · rfl

theorem wholeShares_bought (records : Multiset MatchRecord) :
    (records.map (wholeShares u t).boughtBy).sum ≡ sharesBought u t records [ZMOD 2 ^ 32] := by
  refine sum_map_modEq (fun rec => ?_) records
  rw [ite_and]
  exact ite_modEq _ ((rec.buys_stock t).trans (single_modEq t rec))

theorem wholeShares_sold (records : Multiset MatchRecord) :
    (records.map (wholeShares u t).soldBy).sum ≡ -sharesSold u t records [ZMOD 2 ^ 32] := by
  unfold sharesSold
  rw [← Multiset.sum_map_neg]
  refine sum_map_modEq (fun rec => ?_) records
  show (if u = rec.sellUserId then (rec.sells.availableStock t).toInt
    + (rec.sells.frozenStock t).toInt else 0) ≡ _ [ZMOD 2 ^ 32]
  rw [ite_and]
  split_ifs with hu ht
  · have hterm := (rec.sells_stock t).trans (single_modEq t rec).neg
    rwa [if_pos ht] at hterm
  · have hterm := (rec.sells_stock t).trans (single_modEq t rec).neg
    rwa [if_neg ht] at hterm
  · rfl

theorem wholeCash_paid (credited : Multiset (UInt64 × Int64)) :
    (credited.map (wholeCash u).paidBy).sum = Clearing.credits u credited := by
  unfold Clearing.credits
  refine congrArg Multiset.sum (Multiset.map_congr rfl fun d _ => ?_)
  show (if u = d.1 then d.2.toInt + 0 else 0) = _
  simp only [Int.add_zero, eq_comm]

theorem wholeShares_paid (credited : Multiset (UInt64 × Int64)) :
    (credited.map (wholeShares u t).paidBy).sum = 0 := by
  refine Multiset.sum_eq_zero fun x hx => ?_
  obtain ⟨d, -, rfl⟩ := Multiset.mem_map.mp hx
  show (if u = d.1 then (0 : ℤ) else 0) = 0
  rw [ite_self]

end Terms

namespace Exchange

variable {users : UserManager} {tickers : TickerManager} {db : Database}
  {walFile : Option (List WALRecord)} {actions : List Action} {s s' : Exchange} {a : Action}
  {n : Receipts}

/-! ## What an account reads -/

/-- **A number of an account is what it was and what was added to it.** -/
theorem runs_reading (hrun : runs step (start users tickers db walFile) actions = some s)
    (g : Gauge) : g.reading s.users ≡ g.reading users + g.tally s.clearing [ZMOD g.modulus] := by
  have hfresh := start_fresh users tickers db walFile
  have hzero : g.tally (start users tickers db walFile).clearing = 0 := by
    rw [Gauge.tally_of_settled hfresh.records hfresh.inHand hfresh.cancels, hfresh.accepted,
      hfresh.credited, hfresh.traded, hfresh.cancelled]
    rfl
  have hbase := ((runs_settling hrun).base g).add_right (g.tally s.clearing)
  unfold Gauge.base at hbase
  rw [hzero, sub_zero, sub_add_cancel] at hbase
  exact hbase

/-- The sum, over what has been applied. -/
theorem Receipted.tally (h : Receipted s n) (g : Gauge) :
    g.tally s.clearing = (s.clearing.accepted.map g.frozenFor).sum
      + (s.clearing.credited.map g.paidBy).sum + (n.bought.map g.boughtBy).sum
      + (n.sold.map g.soldBy).sum + (n.released.map g.releasedBy).sum := by
  have hbought := congrArg (fun m => (Multiset.map g.boughtBy m).sum) h.bought
  have hsold := congrArg (fun m => (Multiset.map g.soldBy m).sum) h.sold
  have hreleased := congrArg (fun m => (Multiset.map g.releasedBy m).sum) h.released
  simp only [Multiset.map_add, Multiset.sum_add] at hbought hsold hreleased
  unfold Gauge.tally Gauge.total
  omega

end Exchange

open Exchange

/-- **A statement of account.**  In every run of the server, with any order ids, the cash
of a user is what it was at the start and what was paid in, more by what its settled
sales earned and less by what its settled purchases cost at the prices of the trades; and
its shares of a ticker are what they were, more by what it bought and less by what it
sold, up to wrap-around. -/
theorem account_statement (users : UserManager) (tickers : TickerManager) (db : Database)
    (walFile : Option (List WALRecord)) (actions : List Action) (s : Exchange)
    (hrun : runs Exchange.step (Exchange.start users tickers db walFile) actions = some s)
    (u : UInt64) :
    let n := (Exchange.start users tickers db walFile).receipts actions
    (s.users.cashOf u ≡ users.cashOf u + Clearing.credits u s.history.credited
        + cashEarned u n.sold - cashPaid u n.bought [ZMOD 2 ^ 64]) ∧
      ∀ t, s.users.sharesOf u t
        ≡ users.sharesOf u t + sharesBought u t n.bought - sharesSold u t n.sold
          [ZMOD 2 ^ 32] := by
  intro n
  have hreceipted := runs_receipted hrun
  constructor
  · have hreading := runs_reading hrun (wholeCash u)
    rw [hreceipted.tally, wholeCash_paid] at hreading
    have hfrozen : (s.clearing.accepted.map (wholeCash u).frozenFor).sum ≡ 0 [ZMOD 2 ^ 64] := by
      refine sum_map_modEq_zero (fun o => ?_) _
      exact (ite_modEq _ o.freezes_cash).trans (congrArg (· % 2 ^ 64) (ite_self 0))
    have hreleased : (n.released.map (wholeCash u).releasedBy).sum ≡ 0 [ZMOD 2 ^ 64] := by
      refine sum_map_modEq_zero (fun rec => ?_) _
      exact (ite_modEq _ rec.releases_cash).trans (congrArg (· % 2 ^ 64) (ite_self 0))
    have hterms := (((hfrozen.add_right (Clearing.credits u s.history.credited)).add
      (wholeCash_bought u n.bought)).add (wholeCash_sold u n.sold)).add hreleased
    refine (hreading.trans (hterms.add_left (users.cashOf u))).trans ?_
    exact congrArg (· % 2 ^ 64) (by omega)
  · intro t
    have hreading := runs_reading hrun (wholeShares u t)
    rw [hreceipted.tally, wholeShares_paid] at hreading
    have hfrozen : (s.clearing.accepted.map (wholeShares u t).frozenFor).sum
        ≡ 0 [ZMOD 2 ^ 32] := by
      refine sum_map_modEq_zero (fun o => ?_) _
      exact (ite_modEq _ (o.freezes_stock t)).trans (congrArg (· % 2 ^ 32) (ite_self 0))
    have hreleased : (n.released.map (wholeShares u t).releasedBy).sum ≡ 0 [ZMOD 2 ^ 32] := by
      refine sum_map_modEq_zero (fun rec => ?_) _
      exact (ite_modEq _ (rec.releases_stock t)).trans (congrArg (· % 2 ^ 32) (ite_self 0))
    have hterms := (((hfrozen.add_right 0).add (wholeShares_bought u t n.bought)).add
      (wholeShares_sold u t n.sold)).add hreleased
    refine (hreading.trans (hterms.add_left (users.sharesOf u t))).trans ?_
    exact congrArg (· % 2 ^ 32) (by omega)

/-- Of a run in which alice buys three shares of bob and he cancels the rest. -/
theorem account_statement_oneBatch :
    let n := (Exchange.start tradeUsers sampleTickers sampleDb none).receipts oneBatch
    (oneBatchEnd.users.cashOf 2 ≡ tradeUsers.cashOf 2
        + Clearing.credits 2 oneBatchEnd.history.credited + cashEarned 2 n.sold
        - cashPaid 2 n.bought [ZMOD 2 ^ 64]) ∧ oneBatchEnd.users.cashOf 2 = 300 :=
  ⟨(account_statement tradeUsers sampleTickers sampleDb none oneBatch oneBatchEnd
    (runs_eq_runsTo _ (by decide)) 2).1, by decide⟩

/-! ## Bystanders -/

namespace Exchange

variable {users : UserManager} {tickers : TickerManager} {db : Database}
  {walFile : Option (List WALRecord)} {actions : List Action} {s s' : Exchange} {a : Action}

/-- Records are about users who have had an order accepted. -/
structure Involved (s : Exchange) : Prop where
  traded : ∀ rec ∈ s.clearing.traded, rec.Between s.clearing.Trader
  cancelled : ∀ rec ∈ s.clearing.cancelled, s.clearing.Trader rec.userId

/-- No action forgets an accepted order. -/
theorem accepted_le_of_clears (hclears : Clears s a s') :
    s.clearing.accepted ≤ s'.clearing.accepted := by
  rcases hclears.clearing with hsame | ⟨e, -, hstep⟩
  · rw [hsame]
  · exact hstep.accepted_le

/-- The records that a worker adds are between traders, like those there were. -/
theorem Involved.traded_step (h : s.Involved) (hclears : Clears s a s') :
    ∀ rec ∈ s'.clearing.traded, rec.Between s.clearing.Trader := by
  rcases hclears.clearing with hsame | ⟨e, -, hstep⟩
  · rw [hsame]
    exact h.traded
  · have htraded := h.traded
    generalize s.clearing = c at *
    generalize s'.clearing = c' at *
    cases hstep with
    | market orders records cancels parties listed trades =>
        intro rec hrec
        rcases Multiset.mem_add.mp hrec with hnew | hold
        · exact parties rec hnew
        · exact htraded rec hold
    | _ => exact htraded

theorem Involved.step (h : s.Involved) (hclears : Clears s a s')
    (hcancelled : ∀ rec ∈ s'.clearing.cancelled, s.clearing.Trader rec.userId) :
    s'.Involved := by
  have hle := accepted_le_of_clears hclears
  refine ⟨fun rec hrec => ?_, fun rec hrec => (hcancelled rec hrec).mono hle⟩
  obtain ⟨hbuyer, hseller⟩ := h.traded_step hclears rec hrec
  exact ⟨hbuyer.mono hle, hseller.mono hle⟩

/-- **Records are about traders**, in every run. -/
theorem runs_involved (hrun : runs step (start users tickers db walFile) actions = some s) :
    s.Involved := by
  have hfresh := start_fresh users tickers db walFile
  refine runs_reachable (I := fun _ t => t.Involved) actions ?_ ?_ hrun
  · refine ⟨fun rec hrec => ?_, fun rec hrec => ?_⟩
    · rw [hfresh.traded] at hrec
      exact absurd hrec (Multiset.notMem_zero rec)
    · rw [hfresh.cancelled] at hrec
      exact absurd hrec (Multiset.notMem_zero rec)
  · intro as t a t' hreach h ha
    have hclears := reached_clears hreach ha
    refine h.step hclears ?_
    by_cases hprocess : ∃ u clock now, a = .workerProcess u clock now
    · obtain ⟨u, clock, now, rfl⟩ := hprocess
      obtain ⟨-, hworkers, -⟩ := runs_clear_any hreach
      obtain ⟨-, hlines⟩ := runs_staffed hreach
      cases step_spec ha with
      | workerProcess _ _ _ p out hp hout =>
          obtain ⟨ev, rest, -, heq⟩ := OrderBookProcessor.processNext_eq_some hout
          have hcancel : (p.processEvent clock now ev).2 = out.2 := by
            rw [heq]
            cases ev <;> rfl
          have hindexed : p.book.Indexed := by
            rw [((hlines u p hp).follows (fun _ => 0) 0).book]
            exact Replica.replay_indexed _ _ _ _
          intro rec hrec
          have hmem : rec ∈ t.history.cancelled ++ out.2.toList := hrec
          rcases List.mem_append.mp hmem with hold | hnew
          · exact h.cancelled rec hold
          · refine OrderBookProcessor.cancel_owner (hworkers.worker u p hp).owned hindexed clock
              now ev rec ?_
            exact hcancel.trans (Option.mem_def.mp (Option.mem_toList.mp hnew))
    · obtain ⟨-, hsame, -⟩ := clears_of_not_process hclears
        fun u clock now heq => hprocess ⟨u, clock, now, heq⟩
      rw [hsame]
      exact h.cancelled

/-- **What is added to a number of a user who is no trader** is what was paid in. -/
theorem Involved.tally (h : s.Involved) {n : Receipts} (hn : Receipted s n) {g : Gauge}
    {u : UInt64} (hg : ∀ uid δ, u ≠ uid → g.change uid δ = 0)
    (hu : ∀ o ∈ s.accepted, o.userId ≠ u) :
    g.tally s.clearing = (s.clearing.credited.map g.paidBy).sum := by
  have hnot : ¬ s.clearing.Trader u := fun ⟨o, ho, heq⟩ => hu o ho heq
  have hchange : ∀ {uid}, s.clearing.Trader uid → ∀ δ, g.change uid δ = 0 := by
    intro uid huid δ
    apply hg
    rintro rfl
    exact hnot huid
  have hzero : ∀ {α : Type} {m : Multiset α} {f : α → ℤ}, (∀ x ∈ m, f x = 0) →
      (m.map f).sum = 0 := by
    intro α m f hf
    apply Multiset.sum_eq_zero
    intro x hx
    obtain ⟨b, hb, rfl⟩ := Multiset.mem_map.mp hx
    exact hf b hb
  have hfrozen : (s.clearing.accepted.map g.frozenFor).sum = 0 :=
    hzero fun o ho => hchange ⟨o, ho, rfl⟩ _
  have hbought : (n.bought.map g.boughtBy).sum = 0 := by
    refine hzero fun rec hrec => hchange (h.traded rec ?_).1 _
    rw [hn.bought]
    exact Multiset.mem_add.mpr (Or.inl hrec)
  have hsold : (n.sold.map g.soldBy).sum = 0 := by
    refine hzero fun rec hrec => hchange (h.traded rec ?_).2 _
    rw [hn.sold]
    exact Multiset.mem_add.mpr (Or.inl hrec)
  have hreleased : (n.released.map g.releasedBy).sum = 0 := by
    refine hzero fun rec hrec => hchange (h.cancelled rec ?_) _
    rw [hn.released]
    exact Multiset.mem_add.mpr (Or.inl hrec)
  rw [hn.tally, hfrozen, hbought, hsold, hreleased]
  omega

end Exchange

/-- **A bystander is left alone.**  In every run of the server, with any order ids, a user
who has had no order accepted has the cash it had and what was paid in, up to wrap-around,
nothing frozen that was not frozen before, and the shares it had. -/
theorem bystander_untouched (users : UserManager) (tickers : TickerManager) (db : Database)
    (walFile : Option (List WALRecord)) (actions : List Action) (s : Exchange)
    (hrun : runs Exchange.step (Exchange.start users tickers db walFile) actions = some s)
    (u : UInt64) (hu : ∀ o ∈ s.accepted, o.userId ≠ u) :
    ((s.users.availableBalance u).toInt ≡ (users.availableBalance u).toInt
        + Clearing.credits u s.history.credited [ZMOD 2 ^ 64]) ∧
      s.users.frozenBalance u = users.frozenBalance u ∧
      ∀ t, s.users.availableStock u t = users.availableStock u t ∧
        s.users.frozenStock u t = users.frozenStock u t := by
  have hinvolved := runs_involved hrun
  have hreceipted := runs_receipted hrun
  have hreading : ∀ g : Gauge, (∀ uid δ, u ≠ uid → g.change uid δ = 0) →
      g.reading s.users ≡ g.reading users + (s.clearing.credited.map g.paidBy).sum
        [ZMOD g.modulus] := by
    intro g hg
    rw [← hinvolved.tally hreceipted hg hu]
    exact runs_reading hrun g
  -- A number that deposits do not change.
  have hsame : ∀ g : Gauge, (∀ uid δ, u ≠ uid → g.change uid δ = 0) →
      (∀ d, g.paidBy d = 0) → g.reading s.users ≡ g.reading users [ZMOD g.modulus] := by
    intro g hg hpaid
    have hall := hreading g hg
    have hsum : (s.clearing.credited.map g.paidBy).sum = 0 := by
      apply Multiset.sum_eq_zero
      intro x hx
      obtain ⟨d, -, rfl⟩ := Multiset.mem_map.mp hx
      exact hpaid d
    rwa [hsum, add_zero] at hall
  refine ⟨?_, ?_, fun t => ⟨?_, ?_⟩⟩
  · have hcash := hreading (availableCash u) fun uid δ hne => if_neg hne
    have hcredits : (s.clearing.credited.map (availableCash u).paidBy).sum
        = Clearing.credits u s.history.credited := by
      unfold Clearing.credits
      refine congrArg Multiset.sum (Multiset.map_congr rfl fun d _ => ?_)
      show (if u = d.1 then d.2.toInt else 0) = _
      simp only [eq_comm]
    rwa [hcredits] at hcash
  · refine int64_eq_of_modEq (hsame (frozenCash u).gauge (fun uid δ hne => if_neg hne) fun d => ?_)
    exact ite_self 0
  · refine int32_eq_of_modEq (hsame (availableShares u t) (fun uid δ hne => if_neg hne) fun d => ?_)
    exact ite_self 0
  · refine int32_eq_of_modEq (hsame (frozenShares u t).gauge (fun uid δ hne => if_neg hne)
      fun d => ?_)
    exact ite_self 0

/-- Carol registers, and alice and bob trade. -/
def carolEnd : Exchange :=
  runsTo Exchange.step (Exchange.start tradeUsers sampleTickers sampleDb none)
    (.createUserAccount 3 "carol" :: oneBatch)

theorem bystander_untouched_carol :
    carolEnd.users.HasAccount 3 ∧ (∀ o ∈ carolEnd.accepted, o.userId ≠ 3) ∧
      carolEnd.users.frozenBalance 3 = tradeUsers.frozenBalance 3 := by
  have hnone : ∀ o ∈ carolEnd.accepted, o.userId ≠ 3 := by decide
  exact ⟨by unfold UserManager.HasAccount; decide, hnone,
    (bystander_untouched tradeUsers sampleTickers sampleDb none _ carolEnd
      (runs_eq_runsTo _ (by decide)) 3 hnone).2.1⟩

end ExchangeServer
