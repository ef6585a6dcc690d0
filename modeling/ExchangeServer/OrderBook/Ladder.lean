import ExchangeServer.OrderBook.Basic
import ExchangeServer.PriceTime

/-!
# The match loops without pointers

`fillLevel` and `fillLevels` are the two loops of `OrderBook.hpp` on the orders
themselves.  `matchLevel_walk` and `matchLevels_walk` say that the loops over
pointers compute them: what the levels hold afterwards, what the taker has left
and which trades are reported agree, and `Walk` collects what else the pointer
loops do — which objects they leave alone and which index entries they drop.

The pointers of a book are pairwise distinct and the incoming order is not among
them.  Without that a write through one pointer could change an order the loop
has not reached yet, and no value-level loop would be computed.
-/

namespace ExchangeServer

open Lib PriceTime

/-- Price levels with the orders themselves, best level first. -/
abbrev Ladder := List (UInt64 × List Order)

/-- The inner loop on orders. -/
def fillLevel (taker : Order) : List Order → Outcome
  | [] => ⟨[], taker, []⟩
  | maker :: rest =>
      if taker.quantity = 0 then ⟨[], taker, maker :: rest⟩
      else
        let q := min taker.quantity maker.quantity
        let later := fillLevel (taker.less q) rest
        { fills := ⟨maker, taker, q⟩ :: later.fills
          taker := later.taker
          resting := if (maker.less q).quantity = 0 then later.resting
            else maker.less q :: later.resting }

/-- What walking the levels comes to. -/
structure LadderOutcome where
  fills : List Fill
  taker : Order
  ladder : Ladder

/-- The outer loop on orders. -/
def fillLevels (stops : UInt64 → UInt64 → Bool) (taker : Order) : Ladder → LadderOutcome
  | [] => ⟨[], taker, []⟩
  | (levelPrice, level) :: rest =>
      if taker.quantity = 0 then ⟨[], taker, (levelPrice, level) :: rest⟩
      else if stops levelPrice taker.price then ⟨[], taker, (levelPrice, level) :: rest⟩
      else
        let here := fillLevel taker level
        let later := fillLevels stops here.taker rest
        { fills := here.fills ++ later.fills
          taker := later.taker
          ladder := if here.resting.isEmpty then later.ladder
            else (levelPrice, here.resting) :: later.ladder }

/-! ## What a walk over pointers does -/

/-- The effect of a walk over `ptrs` that keeps `kept` of them: the trades it
reports, the objects it leaves alone, the index entries it drops. -/
structure Walk (record : Order → Order → UInt64 → UInt64 → MatchRecord) (taker : Ptr)
    (ptrs kept : List Ptr) (fills : List Fill) (st st' : MatchState) : Prop where
  next : st'.heap.next = st.heap.next
  sublist : kept.Sublist ptrs
  frame : ∀ p, p ≠ taker → p ∉ ptrs → st'.heap.get p = st.heap.get p
  core : ∀ p, (st'.heap.get p).core = (st.heap.get p).core
  results : ∃ pushed, st'.results = st.results ++ pushed ∧
    pushed.map MatchRecord.untimed =
      fills.map (fun f => (record f.maker f.taker f.maker.price f.quantity).untimed)
  index : ∀ u x q, NestedMap.find? st'.userActiveOrders u x = some q ↔
    NestedMap.find? st.userActiveOrders u x = some q ∧
      ∀ p ∈ ptrs, p ∉ kept → ¬ ((st.heap.get p).userId = u ∧ (st.heap.get p).orderId = x)

namespace Walk

variable {record : Order → Order → UInt64 → UInt64 → MatchRecord} {taker : Ptr}

/-- A walk that stops at once. -/
theorem refl (ptrs : List Ptr) (st : MatchState) : Walk record taker ptrs ptrs [] st st where
  next := rfl
  sublist := List.Sublist.refl _
  frame _ _ _ := rfl
  core _ := rfl
  results := ⟨[], by simp, rfl⟩
  index u x q := by
    refine ⟨fun h => ⟨h, fun p hp hnot => absurd hp hnot⟩, fun h => h.1⟩

/-- Two walks over disjoint stretches make one. -/
theorem append {ptrs₁ ptrs₂ kept₁ kept₂ : List Ptr} {fills₁ fills₂ : List Fill}
    {st₁ st₂ st₃ : MatchState} (h₁ : Walk record taker ptrs₁ kept₁ fills₁ st₁ st₂)
    (h₂ : Walk record taker ptrs₂ kept₂ fills₂ st₂ st₃)
    (hdisj : ∀ p ∈ ptrs₁, p ∉ ptrs₂) :
    Walk record taker (ptrs₁ ++ ptrs₂) (kept₁ ++ kept₂) (fills₁ ++ fills₂) st₁ st₃ where
  next := h₂.next.trans h₁.next
  sublist := h₁.sublist.append h₂.sublist
  frame p hp hnot := by
    simp only [List.mem_append, not_or] at hnot
    rw [h₂.frame p hp hnot.2, h₁.frame p hp hnot.1]
  core p := (h₂.core p).trans (h₁.core p)
  results := by
    obtain ⟨pushed₁, hres₁, hfills₁⟩ := h₁.results
    obtain ⟨pushed₂, hres₂, hfills₂⟩ := h₂.results
    exact ⟨pushed₁ ++ pushed₂, by rw [hres₂, hres₁, List.append_assoc],
      by rw [List.map_append, List.map_append, hfills₁, hfills₂]⟩
  index u x q := by
    have hsame : ∀ p, ((st₂.heap.get p).userId = u ∧ (st₂.heap.get p).orderId = x) ↔
        ((st₁.heap.get p).userId = u ∧ (st₁.heap.get p).orderId = x) := by
      intro p
      rw [Order.userId_of_core (h₁.core p), Order.orderId_of_core (h₁.core p)]
    rw [h₂.index, h₁.index, and_assoc]
    refine and_congr_right fun _ => ⟨?_, ?_⟩
    · rintro ⟨hleft, hright⟩ p hp hnot
      simp only [List.mem_append, not_or] at hp hnot
      rcases hp with hp | hp
      · exact hleft p hp hnot.1
      · exact fun h => hright p hp hnot.2 ((hsame p).mpr h)
    · intro h
      refine ⟨fun p hp hnot => h p (List.mem_append_left _ hp) ?_, fun p hp hnot hux => ?_⟩
      · simp only [List.mem_append, not_or]
        exact ⟨hnot, fun hk => hdisj p hp (h₂.sublist.subset hk)⟩
      · refine h p (List.mem_append_right _ hp) ?_ ((hsame p).mp hux)
        simp only [List.mem_append, not_or]
        exact ⟨fun hk => hdisj p (h₁.sublist.subset hk) hp, hnot⟩

end Walk

section Loops

variable (record : Order → Order → UInt64 → UInt64 → MatchRecord) (clock : ℕ → UInt64)
  {taker maker : Ptr} {levelPrice : UInt64} (q : UInt64) (st : MatchState)

/-! ## One trade -/

theorem get_trade_taker (hne : maker ≠ taker) :
    (st.trade record clock taker maker levelPrice q).heap.get taker
      = (st.heap.get taker).less q := by
  simp only [MatchState.trade]
  rw [Heap.get_modify_of_ne _ _ hne.symm, Heap.get_modify_self]

theorem get_trade_maker (hne : maker ≠ taker) :
    (st.trade record clock taker maker levelPrice q).heap.get maker
      = (st.heap.get maker).less q := by
  simp only [MatchState.trade]
  rw [Heap.get_modify_self, Heap.get_modify_of_ne _ _ hne]

theorem get_trade_of_ne {p : Ptr} (htaker : p ≠ taker) (hmaker : p ≠ maker) :
    (st.trade record clock taker maker levelPrice q).heap.get p = st.heap.get p := by
  simp only [MatchState.trade]
  rw [Heap.get_modify_of_ne _ _ hmaker, Heap.get_modify_of_ne _ _ htaker]

/-- One trade with a maker that has quantity left and stays in its level. -/
theorem walk_trade (hne : maker ≠ taker) (hprice : (st.heap.get maker).price = levelPrice) :
    Walk record taker [maker] [maker] [⟨st.heap.get maker, st.heap.get taker, q⟩] st
      (st.trade record clock taker maker levelPrice q) where
  next := rfl
  sublist := List.Sublist.refl _
  frame p hp hnot := get_trade_of_ne record clock q st hp (by simpa using hnot)
  core p := by
    by_cases hpm : p = maker
    · subst hpm
      rw [get_trade_maker record clock q st hne, Order.core_less]
    · by_cases hpt : p = taker
      · subst hpt
        rw [get_trade_taker record clock q st hne, Order.core_less]
      · rw [get_trade_of_ne record clock q st hpt hpm]
  results := ⟨_, rfl, by simp [MatchRecord.untimed, hprice]⟩
  index u x q := by simp [MatchState.trade]

/-- One trade with a maker that it exhausts: the maker leaves the index too. -/
theorem walk_trade_unindex (hne : maker ≠ taker)
    (hprice : (st.heap.get maker).price = levelPrice) :
    Walk record taker [maker] [] [⟨st.heap.get maker, st.heap.get taker, q⟩] st
      ((st.trade record clock taker maker levelPrice q).unindex maker) where
  next := rfl
  sublist := List.nil_sublist _
  frame := (walk_trade record clock q st hne hprice).frame
  core := (walk_trade record clock q st hne hprice).core
  results := (walk_trade record clock q st hne hprice).results
  index u x q' := by
    have hcore := (walk_trade record clock q st hne hprice).core maker
    simp only [MatchState.unindex, NestedMap.find?_erase, Order.userId_of_core hcore,
      Order.orderId_of_core hcore, List.mem_singleton, List.not_mem_nil, not_false_eq_true,
      forall_const, forall_eq]
    by_cases hux : (st.heap.get maker).userId = u ∧ (st.heap.get maker).orderId = x
    · simp [hux]
    · have hxu : ¬ (u = (st.heap.get maker).userId ∧ x = (st.heap.get maker).orderId) :=
        fun h => hux ⟨h.1.symm, h.2.symm⟩
      simp [hux, hxu, MatchState.trade]

/-! ## The loops -/

/-- **The inner loop over pointers computes `fillLevel`.** -/
theorem matchLevel_walk (levelPrice : UInt64) (ptrs : List Ptr) (st : MatchState)
    (hnodup : ptrs.Nodup) (hnot : taker ∉ ptrs)
    (hprice : ∀ p ∈ ptrs, (st.heap.get p).price = levelPrice) :
    let out := matchLevel record clock taker levelPrice ptrs st
    let val := fillLevel (st.heap.get taker) (ptrs.map st.heap.get)
    Walk record taker ptrs out.1 val.fills st out.2 ∧
      out.1.map out.2.heap.get = val.resting ∧ out.2.heap.get taker = val.taker := by
  induction ptrs generalizing st with
  | nil => exact ⟨Walk.refl [] st, rfl, rfl⟩
  | cons maker rest ih =>
      obtain ⟨hmaker, hrest⟩ := List.nodup_cons.mp hnodup
      have hne : maker ≠ taker := fun h => hnot (h ▸ List.mem_cons_self)
      have hnotRest : taker ∉ rest := fun h => hnot (List.mem_cons_of_mem _ h)
      have hpm := hprice maker List.mem_cons_self
      by_cases hzero : (st.heap.get taker).quantity = 0
      · simp only [List.map_cons, matchLevel, fillLevel, if_pos hzero]
        exact ⟨Walk.refl _ st, trivial, trivial⟩
      let q := min (st.heap.get taker).quantity (st.heap.get maker).quantity
      -- The rest of the level is untouched by the first trade, whether or not
      -- the maker is dropped from the index afterwards.
      have later : ∀ st' : MatchState,
          st'.heap = (st.trade record clock taker maker levelPrice q).heap →
          let out := matchLevel record clock taker levelPrice rest st'
          let val := fillLevel ((st.heap.get taker).less q) (rest.map st.heap.get)
          Walk record taker rest out.1 val.fills st' out.2 ∧
            out.1.map out.2.heap.get = val.resting ∧ out.2.heap.get taker = val.taker := by
        intro st' hheap
        have hsame : ∀ p ∈ rest, st'.heap.get p = st.heap.get p := by
          intro p hp
          rw [hheap]
          exact get_trade_of_ne record clock q st (fun h => hnotRest (h ▸ hp))
            (fun h => hmaker (h ▸ hp))
        have htaker : st'.heap.get taker = (st.heap.get taker).less q := by
          rw [hheap, get_trade_taker record clock q st hne]
        have hih := ih st' hrest hnotRest fun p hp => by
          rw [hsame p hp]
          exact hprice p (List.mem_cons_of_mem _ hp)
        rwa [htaker, List.map_congr_left hsame] at hih
      have hquantity : ((st.trade record clock taker maker levelPrice q).heap.get maker).quantity
          = ((st.heap.get maker).less q).quantity := by
        rw [get_trade_maker record clock q st hne]
      have hdisj : ∀ p ∈ [maker], p ∉ rest := by simpa using hmaker
      by_cases hdone : ((st.heap.get maker).less q).quantity = 0
      · obtain ⟨hwalk, hkept, htaker⟩ :=
          later ((st.trade record clock taker maker levelPrice q).unindex maker) rfl
        simp only [List.map_cons, matchLevel, fillLevel, if_neg hzero]
        rw [if_pos (hquantity.trans hdone), if_pos hdone]
        exact ⟨(walk_trade_unindex record clock q st hne hpm).append hwalk hdisj, hkept,
          htaker⟩
      · obtain ⟨hwalk, hkept, htaker⟩ :=
          later (st.trade record clock taker maker levelPrice q) rfl
        simp only [List.map_cons, matchLevel, fillLevel, if_neg hzero]
        rw [if_neg (fun h => hdone (hquantity ▸ h)), if_neg hdone]
        refine ⟨(walk_trade record clock q st hne hpm).append hwalk hdisj, ?_, htaker⟩
        rw [List.map_cons, hkept, hwalk.frame maker hne hmaker,
          get_trade_maker record clock q st hne]

/-- A level that is kept shows the orders it kept, whatever later levels do. -/
theorem derefLevels_cons_kept (heap : Heap Order) (levelPrice : UInt64) (level : OrderList)
    (rest : List (UInt64 × OrderList)) :
    OrderBook.derefLevels heap (if level.isEmpty then rest else (levelPrice, level) :: rest)
      = if (level.map heap.get).isEmpty then OrderBook.derefLevels heap rest
        else (levelPrice, level.map heap.get) :: OrderBook.derefLevels heap rest := by
  cases level <;> simp [OrderBook.derefLevels]

theorem flatMap_cons_kept (levelPrice : UInt64) (level : OrderList)
    (rest : List (UInt64 × OrderList)) :
    (if level.isEmpty then rest else (levelPrice, level) :: rest).flatMap Prod.snd
      = level ++ rest.flatMap Prod.snd := by
  cases level <;> simp

/-- **The outer loop over pointers computes `fillLevels`.** -/
theorem matchLevels_walk (stops : UInt64 → UInt64 → Bool)
    (levels : List (UInt64 × OrderList)) (st : MatchState)
    (hnodup : (levels.flatMap Prod.snd).Nodup) (hnot : taker ∉ levels.flatMap Prod.snd)
    (hprice : ∀ e ∈ levels, ∀ p ∈ e.2, (st.heap.get p).price = e.1) :
    let out := matchLevels record clock stops taker levels st
    let val := fillLevels stops (st.heap.get taker) (OrderBook.derefLevels st.heap levels)
    Walk record taker (levels.flatMap Prod.snd) (out.1.flatMap Prod.snd) val.fills st out.2 ∧
      OrderBook.derefLevels out.2.heap out.1 = val.ladder ∧
      out.2.heap.get taker = val.taker := by
  induction levels generalizing st with
  | nil => exact ⟨Walk.refl [] st, rfl, rfl⟩
  | cons e rest ih =>
      obtain ⟨levelPrice, level⟩ := e
      rw [List.flatMap_cons] at hnodup hnot
      obtain ⟨hlevel, hrest, hdisj⟩ := List.nodup_append'.mp hnodup
      have hnotLevel : taker ∉ level := fun h => hnot (List.mem_append_left _ h)
      have hnotRest : taker ∉ rest.flatMap Prod.snd := fun h => hnot (List.mem_append_right _ h)
      have hderef : OrderBook.derefLevels st.heap ((levelPrice, level) :: rest)
          = (levelPrice, level.map st.heap.get) :: OrderBook.derefLevels st.heap rest := rfl
      rw [hderef]
      by_cases hzero : (st.heap.get taker).quantity = 0
      · simp only [matchLevels, fillLevels, if_pos hzero]
        exact ⟨Walk.refl _ st, hderef, trivial⟩
      by_cases hstop : stops levelPrice (st.heap.get taker).price
      · simp only [matchLevels, fillLevels, if_neg hzero, if_pos hstop]
        exact ⟨Walk.refl _ st, hderef, trivial⟩
      obtain ⟨hhere, hkept, htaker⟩ := matchLevel_walk record clock levelPrice level st hlevel
        hnotLevel (hprice _ List.mem_cons_self)
      -- The levels still to come are as they were before this one was walked.
      have hsame : ∀ p ∈ rest.flatMap Prod.snd,
          (matchLevel record clock taker levelPrice level st).2.heap.get p = st.heap.get p := by
        intro p hp
        exact hhere.frame p (fun h => hnotRest (h ▸ hp)) (fun h => hdisj h hp)
      have hderefRest : OrderBook.derefLevels
            (matchLevel record clock taker levelPrice level st).2.heap rest
          = OrderBook.derefLevels st.heap rest := by
        refine List.map_congr_left fun e he => ?_
        refine congrArg (Prod.mk e.1) (List.map_congr_left fun p hp => ?_)
        exact hsame p (List.mem_flatMap.mpr ⟨e, he, hp⟩)
      obtain ⟨hlater, hladder, htaker'⟩ := ih
        (matchLevel record clock taker levelPrice level st).2 hrest hnotRest fun e he p hp => by
          rw [hsame p (List.mem_flatMap.mpr ⟨e, he, hp⟩)]
          exact hprice e (List.mem_cons_of_mem _ he) p hp
      rw [hderefRest, htaker] at hlater hladder htaker'
      have hkeptLater : (matchLevel record clock taker levelPrice level st).1.map
            (matchLevels record clock stops taker rest
              (matchLevel record clock taker levelPrice level st).2).2.heap.get
          = (fillLevel (st.heap.get taker) (level.map st.heap.get)).resting := by
        rw [← hkept]
        refine List.map_congr_left fun p hp => ?_
        have hpl := hhere.sublist.subset hp
        exact hlater.frame p (fun h => hnotLevel (h ▸ hpl)) (fun h => hdisj hpl h)
      have hwalk := hhere.append hlater fun p hp => hdisj hp
      simp only [matchLevels, fillLevels, if_neg hzero, if_neg hstop]
      refine ⟨?_, ?_, htaker'⟩
      · rw [List.flatMap_cons, flatMap_cons_kept]
        exact hwalk
      · rw [derefLevels_cons_kept, hkeptLater, hladder]

end Loops

end ExchangeServer
