import ExchangeServer.OrderBook.Ladder

/-!
# The level maps implement price-time priority

The flat book of `ExchangeServer.PriceTime` and the level maps of
`OrderBook.hpp` are two representations of the same resting orders.  `Represents`
relates one side: the levels are the flat list sorted into its prices, each level
in arrival order, no level empty, best price first.  Under it the head of the
first level is the order `best` picks (`best_of_represents`), and one trade with
that head keeps the relation (`Represents.takeFrom`), so the two loops stay in
step (`fillLevels_simulates`).

`Simulates` adds the other side, the pointers and the per-user index.  It is kept
by `processOrder` and `cancelOrder`, and runs of the two books from empty report
the same trades and the same cancelled orders at every step.
-/

namespace ExchangeServer

open Lib PriceTime OrderBook

/-! ## Sides -/

/-- The order in which the levels of a side are met. -/
def before : OrderSide → UInt64 → UInt64 → Prop
  | .buy => bidBefore
  | .sell => askBefore

/-- The test that ends the walk of a taker of this side. -/
def stopsAt : OrderSide → UInt64 → UInt64 → Bool
  | .buy => fun askPrice limit => askPrice > limit
  | .sell => fun bidsPrice limit => bidsPrice < limit

/-- The resting orders of one side. -/
def onSide (side : OrderSide) (resting : List Order) : List Order :=
  resting.filter (fun o => o.side = side)

theorem mem_onSide {side : OrderSide} {resting : List Order} {o : Order} :
    o ∈ onSide side resting ↔ o ∈ resting ∧ o.side = side := by
  simp [onSide]

/-! ## Levels as a sorted flat list -/

/-- The orders at one price, in arrival order. -/
def atPrice (p : UInt64) (orders : List Order) : List Order :=
  orders.filter (fun o => o.price = p)

theorem mem_atPrice {p : UInt64} {orders : List Order} {o : Order} :
    o ∈ atPrice p orders ↔ o ∈ orders ∧ o.price = p := by
  simp [atPrice]

/-- `ladder` is `orders` sorted into price levels. -/
structure Represents (lt : UInt64 → UInt64 → Prop) (ladder : Ladder) (orders : List Order) :
    Prop where
  /-- Levels are met in order and no price has two. -/
  sorted : (ladder.map Prod.fst).Pairwise lt
  /-- The levels are the non-empty ones, each in arrival order. -/
  mem_iff : ∀ p l, (p, l) ∈ ladder ↔ l ≠ [] ∧ l = atPrice p orders

namespace Represents

variable {lt : UInt64 → UInt64 → Prop} {ladder : Ladder} {orders : List Order}

theorem nil (lt : UInt64 → UInt64 → Prop) : Represents lt [] [] :=
  ⟨by simp, by simp [atPrice]⟩

/-- Every order sits in the level of its price. -/
theorem level_mem (h : Represents lt ladder orders) {o : Order} (ho : o ∈ orders) :
    (o.price, atPrice o.price orders) ∈ ladder :=
  (h.mem_iff _ _).mpr ⟨List.ne_nil_of_mem (mem_atPrice.mpr ⟨ho, rfl⟩), rfl⟩

/-- Dropping the first level leaves the other prices. -/
theorem tail [IsStrictTotalOrder UInt64 lt] {p : UInt64} {l : List Order}
    (h : Represents lt ((p, l) :: ladder) orders) :
    Represents lt ladder (orders.filter (fun o => o.price ≠ p)) := by
  obtain ⟨hhead, htail⟩ := List.pairwise_cons.mp h.sorted
  have hne : ∀ p' l', (p', l') ∈ ladder → p' ≠ p := by
    rintro p' l' hmem rfl
    exact irrefl_of lt p' (hhead p' (List.mem_map_of_mem hmem))
  have hat : ∀ p', p' ≠ p → atPrice p' (orders.filter (fun o => o.price ≠ p))
      = atPrice p' orders := by
    intro p' hp'
    unfold atPrice
    rw [List.filter_filter]
    refine List.filter_congr fun o _ => ?_
    by_cases ho : o.price = p' <;> simp [ho, hp']
  refine ⟨htail, fun p' l' => ⟨fun hmem => ?_, ?_⟩⟩
  · rw [hat p' (hne p' l' hmem)]
    exact (h.mem_iff p' l').mp (List.mem_cons_of_mem _ hmem)
  · rintro ⟨hnil, hl'⟩
    have hp' : p' ≠ p := by
      rintro rfl
      refine hnil (hl'.trans ?_)
      simp [atPrice, List.filter_filter]
    rw [hat p' hp'] at hl'
    rcases List.mem_cons.mp ((h.mem_iff p' l').mpr ⟨hnil, hl'⟩) with heq | hmem
    · exact absurd (congrArg Prod.fst heq) hp'
    · exact hmem

/-- The levels hold the orders of the flat list, each once. -/
theorem perm [IsStrictTotalOrder UInt64 lt] (h : Represents lt ladder orders) :
    (ladder.flatMap Prod.snd).Perm orders := by
  induction ladder generalizing orders with
  | nil =>
      cases orders with
      | nil => exact List.Perm.refl _
      | cons o os => exact absurd (h.level_mem List.mem_cons_self) (List.not_mem_nil)
  | cons e ladder ih =>
      obtain ⟨p, l⟩ := e
      have hl := ((h.mem_iff p l).mp List.mem_cons_self).2
      have hsplit := List.filter_append_perm (fun o : Order => o.price = p) orders
      rw [List.flatMap_cons]
      refine (((ih h.tail).append_left l)).trans ?_
      rw [hl]
      simpa [atPrice] using hsplit

/-- Levels with one of them replaced, in a book where only that price changed. -/
theorem replace_head [IsStrictTotalOrder UInt64 lt] {p : UInt64} {l l' : List Order}
    {orders' : List Order} (h : Represents lt ((p, l) :: ladder) orders)
    (hhere : l' = atPrice p orders')
    (helse : ∀ p', p' ≠ p → atPrice p' orders' = atPrice p' orders) :
    Represents lt (if l'.isEmpty then ladder else (p, l') :: ladder) orders' := by
  obtain ⟨hhead, htail⟩ := List.pairwise_cons.mp h.sorted
  have hne : ∀ p' k, (p', k) ∈ ladder → p' ≠ p := by
    rintro p' k hmem rfl
    exact irrefl_of lt p' (hhead p' (List.mem_map_of_mem hmem))
  have hrest : ∀ p' k, p' ≠ p →
      ((p', k) ∈ ladder ↔ k ≠ [] ∧ k = atPrice p' orders') := by
    intro p' k hp'
    rw [helse p' hp', ← h.mem_iff p' k, List.mem_cons]
    exact ⟨Or.inr, fun hor => hor.resolve_left fun heq => hp' (congrArg Prod.fst heq)⟩
  by_cases hempty : l' = []
  · simp only [hempty, List.isEmpty_nil, if_true]
    refine ⟨htail, fun p' k => ?_⟩
    by_cases hp' : p' = p
    · subst hp'
      refine ⟨fun hmem => absurd rfl (hne p' k hmem), ?_⟩
      rintro ⟨hnil, hk⟩
      exact absurd (hk.trans (hhere.symm.trans hempty)) hnil
    · exact hrest p' k hp'
  · rw [if_neg (by simpa using hempty)]
    refine ⟨List.pairwise_cons.mpr ⟨hhead, htail⟩, fun p' k => ?_⟩
    by_cases hp' : p' = p
    · subst hp'
      rw [List.mem_cons]
      constructor
      · rintro (heq | hmem)
        · obtain rfl := congrArg Prod.snd heq
          exact ⟨hempty, hhere⟩
        · exact absurd rfl (hne p' k hmem)
      · rintro ⟨-, hk⟩
        exact Or.inl (by rw [hk, hhere])
    · rw [← hrest p' k hp', List.mem_cons]
      exact ⟨fun hor => hor.resolve_left fun heq => hp' (congrArg Prod.fst heq), Or.inr⟩

end Represents

/-! ## One trade with the best order -/

section TakeFrom

variable {resting : List Order} {maker : Order} (q : UInt64) {P : Order → Bool}

/-- Taking from a maker that a filter keeps is taking from it after the filter. -/
theorem filter_takeFrom_of_pos (hids : DistinctIds resting) (hmem : maker ∈ resting)
    (hP : P maker = true) (hless : P (maker.less q) = true) :
    (takeFrom resting maker q).filter P = takeFrom (resting.filter P) maker q := by
  obtain ⟨pre, post, rfl⟩ := List.append_of_mem hmem
  have hfilter : (pre ++ maker :: post).filter P
      = pre.filter P ++ maker :: post.filter P := by
    rw [List.filter_append, List.filter_cons_of_pos hP]
  have hids' : DistinctIds (pre.filter P ++ maker :: post.filter P) := by
    rw [← hfilter]
    exact hids.sublist (List.filter_sublist.map _)
  rw [hfilter, takeFrom_split hids, takeFrom_split hids', List.filter_append]
  split_ifs with hdone
  · rfl
  · rw [List.filter_cons_of_pos hless]

/-- Taking from a maker that a filter drops is not seen after the filter. -/
theorem filter_takeFrom_of_neg (hids : DistinctIds resting) (hmem : maker ∈ resting)
    (hP : P maker = false) (hless : P (maker.less q) = false) :
    (takeFrom resting maker q).filter P = resting.filter P := by
  obtain ⟨pre, post, rfl⟩ := List.append_of_mem hmem
  rw [takeFrom_split hids, List.filter_append, List.filter_append,
    List.filter_cons_of_neg (by simp [hP])]
  split_ifs with hdone
  · rfl
  · rw [List.filter_cons_of_neg (by simp [hless])]

end TakeFrom

/-- In a list filtered down to `a :: as`, nothing that passes the filter comes
before `a`. -/
theorem idxOf_le_of_filter_eq_cons {α : Type*} [DecidableEq α] {P : α → Bool} {a : α}
    {as l : List α} (h : l.filter P = a :: as) {b : α} (hb : b ∈ l) (hP : P b = true) :
    l.idxOf a ≤ l.idxOf b := by
  induction l with
  | nil => cases hb
  | cons c l ih =>
      by_cases hc : P c = true
      · rw [List.filter_cons_of_pos hc] at h
        obtain ⟨rfl, -⟩ := List.cons.inj h
        simp
      · rw [List.filter_cons_of_neg hc] at h
        have hca : c ≠ a := by
          rintro rfl
          have hmem : c ∈ l.filter P := h ▸ List.mem_cons_self
          exact hc (List.of_mem_filter hmem)
        have hcb : c ≠ b := fun heq => hc (heq ▸ hP)
        have hbl : b ∈ l := (List.mem_cons.mp hb).resolve_left fun heq => hcb heq.symm
        rw [List.idxOf_cons_ne _ hca, List.idxOf_cons_ne _ hcb]
        exact Nat.succ_le_succ (ih h hbl)

theorem crosses_iff (taker o : Order) :
    Crosses taker o ↔ o.side = taker.side.opposite ∧
      stopsAt taker.side o.price taker.price = false := by
  unfold Crosses stopsAt
  cases taker.side <;> simp

/-- Levels behind the first are no better than it. -/
theorem Represents.first_le {side : OrderSide} {p : UInt64} {l : List Order} {rest : Ladder}
    {orders : List Order} (h : Represents (before side) ((p, l) :: rest) orders) {o : Order}
    (ho : o ∈ orders) : o.price = p ∨ before side p o.price := by
  rcases List.mem_cons.mp (h.level_mem ho) with heq | hmem
  · exact Or.inl (congrArg Prod.fst heq)
  · exact Or.inr ((List.pairwise_cons.mp h.sorted).1 _ (List.mem_map_of_mem hmem))

/-- A taker that stops at a level stops at every later one. -/
theorem stopsAt_of_before {side : OrderSide} {p p' limit : UInt64}
    (hlt : before side.opposite p p') (hstop : stopsAt side p limit = true) :
    stopsAt side p' limit = true := by
  cases side <;>
    simp only [before, OrderSide.opposite, stopsAt, decide_eq_true_eq] at *
  · exact UInt64.lt_trans hstop hlt
  · exact UInt64.lt_trans hlt hstop

/-- No level, no trade. -/
theorem best_of_nil {taker : Order} {resting : List Order}
    (h : Represents (before taker.side.opposite) [] (onSide taker.side.opposite resting)) :
    best taker resting = none := by
  cases hb : best taker resting with
  | none => rfl
  | some maker =>
      obtain ⟨hmem, hcross⟩ := mem_of_best hb
      have hside := mem_onSide.mpr ⟨hmem, hcross.1⟩
      exact absurd (h.level_mem hside) List.not_mem_nil

/-- **The best order heads the first level**, unless that level is beyond the
taker's limit. -/
theorem best_of_represents {taker maker : Order} {resting : List Order} {p : UInt64}
    {ms : List Order} {rest : Ladder}
    (h : Represents (before taker.side.opposite) ((p, maker :: ms) :: rest)
      (onSide taker.side.opposite resting)) :
    best taker resting = if stopsAt taker.side p taker.price then none else some maker := by
  have hlevel := ((h.mem_iff p _).mp List.mem_cons_self).2
  have hmaker : maker ∈ onSide taker.side.opposite resting ∧ maker.price = p :=
    mem_atPrice.mp (hlevel ▸ List.mem_cons_self)
  obtain ⟨hmaker, hp⟩ := hmaker
  obtain ⟨hmem, hside⟩ := mem_onSide.mp hmaker
  split_ifs with hstop
  · cases hb : best taker resting with
    | none => rfl
    | some o =>
        obtain ⟨ho, hcross⟩ := mem_of_best hb
        obtain ⟨hos, hprice⟩ := (crosses_iff taker o).mp hcross
        have hstops : stopsAt taker.side o.price taker.price = true := by
          rcases h.first_le (mem_onSide.mpr ⟨ho, hos⟩) with heq | hlt
          · rw [heq]; exact hstop
          · exact stopsAt_of_before hlt hstop
        rw [hprice] at hstops
        cases hstops
  · -- `maker` crosses, no crossing order is at a better price, and among those at
    -- the same price it is the first: they are its level.
    have hcrossing : ∀ o, o ∈ resting.filter (fun o => Crosses taker o) →
        o.price = p ∨ before taker.side.opposite p o.price := by
      intro o ho
      obtain ⟨ho, hcross⟩ := List.mem_filter.mp ho
      exact h.first_le (mem_onSide.mpr ⟨ho, (of_decide_eq_true hcross).1⟩)
    have hcross : Crosses taker maker := by
      rw [crosses_iff, hp]
      exact ⟨hside, by simpa using hstop⟩
    have hin : maker ∈ resting.filter (fun o => Crosses taker o) := by simp [hmem, hcross]
    have hfirst : (resting.filter (fun o => Crosses taker o)).filter (fun o => o.price = p)
        = maker :: ms := by
      rw [hlevel, atPrice, onSide, List.filter_filter, List.filter_filter]
      refine List.filter_congr fun o _ => ?_
      by_cases hop : o.price = p
      · have hstop' : stopsAt taker.side p taker.price = false := by simpa using hstop
        simp [hop, crosses_iff, hstop']
      · simp [hop]
    have htie : ∀ o, o ∈ resting.filter (fun o => Crosses taker o) → o.price = p →
        (resting.filter (fun o => Crosses taker o)).idxOf maker
          ≤ (resting.filter (fun o => Crosses taker o)).idxOf o := by
      intro o ho hop
      exact idxOf_le_of_filter_eq_cons hfirst ho (by simpa using hop)
    unfold best
    cases hts : taker.side with
    | buy =>
        simp only [hts, before, OrderSide.opposite_buy] at hcrossing
        refine List.argmin_eq_some_iff.mpr ⟨hin, fun o ho => ?_, fun o ho hle => htie o ho ?_⟩
        · rcases hcrossing o ho with heq | hlt
          · rw [hp, heq]
          · rw [hp]
            exact Nat.le_of_lt (UInt64.lt_iff_toNat_lt.mp hlt)
        · rcases hcrossing o ho with heq | hlt
          · exact heq
          · rw [hp] at hle
            exact absurd (UInt64.lt_iff_toNat_lt.mp hlt) (Nat.not_lt.mpr hle)
    | sell =>
        simp only [hts, before, OrderSide.opposite_sell] at hcrossing
        refine List.argmax_eq_some_iff.mpr ⟨hin, fun o ho => ?_, fun o ho hle => htie o ho ?_⟩
        · rcases hcrossing o ho with heq | hlt
          · rw [hp, heq]
          · rw [hp]
            exact Nat.le_of_lt (UInt64.lt_iff_toNat_lt.mp hlt)
        · rcases hcrossing o ho with heq | hlt
          · exact heq
          · rw [hp] at hle
            exact absurd (UInt64.lt_iff_toNat_lt.mp hlt) (Nat.not_lt.mpr hle)

/-! ## The loops in step -/

section Loops

variable (stops : UInt64 → UInt64 → Bool)

theorem fillLevel_of_done {taker : Order} (h : taker.quantity = 0) (makers : List Order) :
    fillLevel taker makers = ⟨[], taker, makers⟩ := by
  cases makers <;> simp [fillLevel, h]

theorem fillLevels_of_done {taker : Order} (h : taker.quantity = 0) (ladder : Ladder) :
    fillLevels stops taker ladder = ⟨[], taker, ladder⟩ := by
  cases ladder <;> simp [fillLevels, h]

/-- A trade that exhausts the head of a level. -/
theorem fillLevel_of_maker_done {taker maker : Order} {ms : List Order}
    (hq : taker.quantity ≠ 0)
    (hdone : (maker.less (min taker.quantity maker.quantity)).quantity = 0) :
    let q := min taker.quantity maker.quantity
    fillLevel taker (maker :: ms) =
      { fillLevel (taker.less q) ms with
        fills := ⟨maker, taker, q⟩ :: (fillLevel (taker.less q) ms).fills } := by
  simp only [fillLevel, if_neg hq, if_pos hdone]

/-- A trade that the head of a level survives is the last one. -/
theorem fillLevel_of_maker_left {taker maker : Order} {ms : List Order}
    (hq : taker.quantity ≠ 0)
    (hleft : (maker.less (min taker.quantity maker.quantity)).quantity ≠ 0) :
    let q := min taker.quantity maker.quantity
    fillLevel taker (maker :: ms) = ⟨[⟨maker, taker, q⟩], taker.less q, maker.less q :: ms⟩ := by
  have hdone := fillLevel_of_done (less_min_eq_zero hleft) ms
  simp only [fillLevel, if_neg hq, if_neg hleft, hdone]

theorem fillLevels_cons {taker : Order} {p : UInt64} {level : List Order} {rest : Ladder}
    (hq : taker.quantity ≠ 0) (hstop : stops p taker.price = false) :
    let here := fillLevel taker level
    let later := fillLevels stops here.taker rest
    fillLevels stops taker ((p, level) :: rest) =
      ⟨here.fills ++ later.fills, later.taker,
        if here.resting.isEmpty then later.ladder else (p, here.resting) :: later.ladder⟩ := by
  simp [fillLevels, hq, hstop]

/-- **The two nested loops, one trade at a time**: a trade with the head of the
first level, then the loops again on what it leaves. -/
theorem fillLevels_trade {taker : Order} (maker : Order) {p : UInt64} (ms : List Order)
    (rest : Ladder) (hq : taker.quantity ≠ 0) (hstop : stops p taker.price = false) :
    let q := min taker.quantity maker.quantity
    let level := if (maker.less q).quantity = 0 then ms else maker.less q :: ms
    let later := fillLevels stops (taker.less q)
      (if level.isEmpty then rest else (p, level) :: rest)
    fillLevels stops taker ((p, maker :: ms) :: rest)
      = { later with fills := ⟨maker, taker, q⟩ :: later.fills } := by
  dsimp only
  rw [fillLevels_cons stops hq hstop]
  by_cases hdone : (maker.less (min taker.quantity maker.quantity)).quantity = 0
  · rw [fillLevel_of_maker_done hq hdone, if_pos hdone]
    have hstop' : stops p (taker.less (min taker.quantity maker.quantity)).price = false := hstop
    generalize taker.less (min taker.quantity maker.quantity) = taker' at hstop' ⊢
    cases ms with
    | nil => simp [fillLevel]
    | cons m ms =>
        by_cases hq' : taker'.quantity = 0
        · simp [fillLevel_of_done hq', fillLevels_of_done stops hq']
        · simp [fillLevels_cons stops hq' hstop']
  · -- The maker outlasts the taker, so nothing more happens on either side.
    have hq' := less_min_eq_zero hdone
    rw [fillLevel_of_maker_left hq hdone, if_neg hdone, fillLevels_of_done stops hq',
      fillLevels_of_done stops hq']
    simp

end Loops

/-- One trade keeps the levels and the flat book related. -/
theorem Represents.takeFrom {side : OrderSide} {p : UInt64} {maker : Order} {ms : List Order}
    {rest : Ladder} {resting : List Order} (q : UInt64) (hids : DistinctIds resting)
    (h : Represents (before side) ((p, maker :: ms) :: rest) (onSide side resting)) :
    let level := if (maker.less q).quantity = 0 then ms else maker.less q :: ms
    Represents (before side) (if level.isEmpty then rest else (p, level) :: rest)
      (onSide side (takeFrom resting maker q)) := by
  intro level
  have hlevel := ((h.mem_iff p _).mp List.mem_cons_self).2
  obtain ⟨hmaker, hp⟩ := mem_atPrice.mp (hlevel ▸ List.mem_cons_self : maker ∈ _)
  obtain ⟨hmem, hside⟩ := mem_onSide.mp hmaker
  have hidsSide : DistinctIds (onSide side resting) :=
    hids.sublist (List.filter_sublist.map _)
  have hon : onSide side (PriceTime.takeFrom resting maker q)
      = PriceTime.takeFrom (onSide side resting) maker q :=
    filter_takeFrom_of_pos q hids hmem (decide_eq_true hside) (decide_eq_true hside)
  have hinst : IsStrictTotalOrder UInt64 (before side) := by
    cases side <;> (unfold before; infer_instance)
  rw [hon]
  refine h.replace_head ?_ fun p' hp' => ?_
  · have hat : atPrice p (PriceTime.takeFrom (onSide side resting) maker q)
        = PriceTime.takeFrom (atPrice p (onSide side resting)) maker q :=
      filter_takeFrom_of_pos q hidsSide hmaker (decide_eq_true hp) (decide_eq_true hp)
    have hidsLevel : DistinctIds ([] ++ maker :: ms) := by
      rw [List.nil_append, hlevel]
      exact hidsSide.sublist (List.filter_sublist.map _)
    rw [hat, ← hlevel]
    exact (takeFrom_split hidsLevel q).symm
  · have hne : maker.price ≠ p' := fun heq => hp' (heq.symm.trans hp)
    exact filter_takeFrom_of_neg q hidsSide hmaker (decide_eq_false hne) (decide_eq_false hne)

/-- **The level walk and the flat book fill an order alike**: same trades, same
remainder, and the books stay related. -/
theorem fillLevels_simulates (taker : Order) (resting : List Order) (ladder : Ladder)
    (hids : DistinctIds resting)
    (h : Represents (before taker.side.opposite) ladder (onSide taker.side.opposite resting)) :
    let val := fillLevels (stopsAt taker.side) taker ladder
    let out := fillAll taker resting
    val.fills = out.fills ∧ val.taker = out.taker ∧
      Represents (before taker.side.opposite) val.ladder
        (onSide taker.side.opposite out.resting) ∧
      onSide taker.side out.resting = onSide taker.side resting := by
  fun_induction fillAll taker resting generalizing ladder with
  | case1 taker resting hq =>
      rw [fillLevels_of_done _ hq]
      exact ⟨rfl, rfl, h, rfl⟩
  | case2 taker resting hq hbest =>
      have hval : fillLevels (stopsAt taker.side) taker ladder = ⟨[], taker, ladder⟩ := by
        cases ladder with
        | nil => rfl
        | cons e rest =>
            obtain ⟨p, level⟩ := e
            cases level with
            | nil => exact absurd rfl ((h.mem_iff p []).mp List.mem_cons_self).1
            | cons maker ms =>
                rw [best_of_represents h] at hbest
                split_ifs at hbest with hstop
                rw [fillLevels, if_neg hq, if_pos hstop]
      rw [hval]
      exact ⟨rfl, rfl, h, rfl⟩
  | case3 taker resting hq maker hbest q later ih =>
      cases ladder with
      | nil =>
          rw [best_of_nil h] at hbest
          cases hbest
      | cons e rest =>
          obtain ⟨p, level⟩ := e
          cases level with
          | nil => exact absurd rfl ((h.mem_iff p []).mp List.mem_cons_self).1
          | cons m ms =>
              have hbest' := hbest
              rw [best_of_represents h] at hbest'
              split_ifs at hbest' with hstop
              obtain rfl := Option.some.inj hbest'
              obtain ⟨hmem, hcross⟩ := mem_of_best hbest
              obtain ⟨hfills, htaker, hrep, hown⟩ := ih _
                (hids.sublist (takeFrom_ids resting m q)) (h.takeFrom q hids)
              have hside : m.side ≠ taker.side := by
                rw [hcross.1]
                exact OrderSide.opposite_ne _
              rw [fillLevels_trade (stopsAt taker.side) m ms rest hq (by simpa using hstop)]
              refine ⟨congrArg _ hfills, htaker, hrep, hown.trans ?_⟩
              exact filter_takeFrom_of_neg q hids hmem (decide_eq_false hside)
                (decide_eq_false hside)

end ExchangeServer
