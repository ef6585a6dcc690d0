import ExchangeServer.OrderBook.Simulation

/-!
# The order book refines the flat book

`SideSim` relates a book, seen from one side, to a flat list of resting orders:
each side's levels represent its orders, the index names exactly the resting
ones, and the flat list is sound.  Both match functions are one argument about
"own" and "opposite" levels, so the relation is stated that way round and read
for either side (`SideSim.swap`).

`Simulates.processOrder` and `Simulates.cancelOrder` are the two step lemmas;
`bookRun_simulates` carries them through every run from an empty book.
-/

namespace ExchangeServer

open Lib PriceTime OrderBook

/-! ## Writing a level -/

theorem map_fst_derefLevels (heap : Heap Order) (levels : List (UInt64 × OrderList)) :
    (derefLevels heap levels).map Prod.fst = levels.map Prod.fst := by
  simp [derefLevels, Function.comp_def]

theorem flatMap_derefLevels (heap : Heap Order) (levels : List (UInt64 × OrderList)) :
    (derefLevels heap levels).flatMap Prod.snd
      = (levels.flatMap Prod.snd).map heap.get := by
  simp [derefLevels, List.flatMap_map, List.map_flatMap]

theorem mem_derefLevels {heap : Heap Order} {levels : List (UInt64 × OrderList)} {p : UInt64}
    {l : List Order} :
    (p, l) ∈ derefLevels heap levels ↔ ∃ ptrs, (p, ptrs) ∈ levels ∧ ptrs.map heap.get = l := by
  simp [derefLevels]

/-- Levels show the same orders through two heaps that agree on their pointers. -/
theorem derefLevels_congr {heap heap' : Heap Order} {levels : List (UInt64 × OrderList)}
    (h : ∀ p ∈ levels.flatMap Prod.snd, heap'.get p = heap.get p) :
    derefLevels heap' levels = derefLevels heap levels := by
  refine List.map_congr_left fun e he => congrArg (Prod.mk e.1) ?_
  exact List.map_congr_left fun p hp => h p (List.mem_flatMap.mpr ⟨e, he, hp⟩)

section Upsert

variable {lt : UInt64 → UInt64 → Prop} [DecidableRel lt] [IsStrictTotalOrder UInt64 lt]
  {levels : OrderedMap UInt64 OrderList lt} {heap : Heap Order} {orders orders' : List Order}
  {price : UInt64} {f : Option OrderList → OrderList}

/-- The entries after a level is rewritten and erased again if that emptied it. -/
theorem mem_eraseIfEmpty_upsert (levels : OrderedMap UInt64 OrderList lt) (price : UInt64)
    (f : Option OrderList → OrderList) :
    ∃ old : Option OrderList, (∀ l, (price, l) ∈ levels.entries ↔ old = some l) ∧
      ∀ e, e ∈ (eraseIfEmpty (levels.upsert price f) price).entries ↔
        (e ∈ levels.entries ∧ e.1 ≠ price) ∨ (e = (price, f old) ∧ f old ≠ []) := by
  obtain ⟨old, hold, hmem⟩ := levels.mem_entries_upsert price f
  refine ⟨old, hold, fun e => ?_⟩
  have hempty : (price, []) ∈ (levels.upsert price f).entries ↔ f old = [] := by
    rw [hmem]
    constructor
    · rintro (⟨-, hne⟩ | heq)
      · exact absurd rfl hne
      · exact (congrArg Prod.snd heq).symm
    · intro heq
      exact Or.inr (by rw [heq])
  unfold eraseIfEmpty
  by_cases hf : f old = []
  · rw [if_pos (hempty.mpr hf), OrderedMap.mem_entries_erase, hmem]
    constructor
    · rintro ⟨h | rfl, hne⟩
      · exact Or.inl h
      · exact absurd rfl hne
    · rintro (h | ⟨-, hne⟩)
      · exact ⟨Or.inl h, h.2⟩
      · exact absurd hf hne
  · rw [if_neg (fun h => hf (hempty.mp h)), hmem]
    simp [hf]

/-- A level that was just pushed to is not empty. -/
theorem eraseIfEmpty_upsert_pushBack (levels : OrderedMap UInt64 OrderList lt) (price : UInt64)
    (ptr : Ptr) :
    eraseIfEmpty (levels.upsert price (pushBack ptr)) price
      = levels.upsert price (pushBack ptr) := by
  obtain ⟨old, -, hmem⟩ := levels.mem_entries_upsert price (pushBack ptr)
  refine if_neg fun h => ?_
  rcases (hmem _).mp h with ⟨-, hne⟩ | heq
  · exact hne rfl
  · simp [pushBack] at heq

/-- **Rewriting one level** represents a list of orders that differs at that
price alone. -/
theorem Represents.upsert (h : Represents lt (derefLevels heap levels.entries) orders)
    (hhere : ∀ level : Option OrderList,
      (level.getD []).map heap.get = atPrice price orders →
        (f level).map heap.get = atPrice price orders')
    (helse : ∀ p, p ≠ price → atPrice p orders' = atPrice p orders) :
    Represents lt (derefLevels heap (eraseIfEmpty (levels.upsert price f) price).entries)
      orders' := by
  obtain ⟨old, hold, hmem⟩ := mem_eraseIfEmpty_upsert levels price f
  have hlevel : (old.getD []).map heap.get = atPrice price orders := by
    cases old with
    | none =>
        by_contra hne
        obtain ⟨l, hl, -⟩ := mem_derefLevels.mp
          ((h.mem_iff price _).mpr ⟨fun hnil => hne (by rw [hnil]; rfl), rfl⟩)
        cases (hold l).mp hl
    | some l =>
        exact ((h.mem_iff price _).mp (mem_derefLevels.mpr ⟨l, (hold l).mpr rfl, rfl⟩)).2
  have hnew := hhere old hlevel
  refine ⟨by rw [map_fst_derefLevels]; exact OrderedMap.sorted _, fun p l => ?_⟩
  rw [mem_derefLevels]
  by_cases hp : p = price
  · subst hp
    constructor
    · rintro ⟨ptrs, hptrs, rfl⟩
      rcases (hmem _).mp hptrs with ⟨-, hne⟩ | ⟨heq, hne⟩
      · exact absurd rfl hne
      · obtain rfl := congrArg Prod.snd heq
        exact ⟨by simpa using hne, hnew⟩
    · rintro ⟨hnil, rfl⟩
      refine ⟨f old, (hmem _).mpr (Or.inr ⟨rfl, fun hempty => hnil ?_⟩), hnew⟩
      rw [← hnew, hempty]
      rfl
  · rw [helse p hp, ← h.mem_iff, mem_derefLevels]
    constructor
    · rintro ⟨ptrs, hptrs, hl⟩
      rcases (hmem _).mp hptrs with ⟨hin, -⟩ | ⟨heq, -⟩
      · exact ⟨ptrs, hin, hl⟩
      · exact absurd (congrArg Prod.fst heq) hp
    · rintro ⟨ptrs, hptrs, hl⟩
      exact ⟨ptrs, (hmem _).mpr (Or.inl ⟨hptrs, hp⟩), hl⟩

/-- The pointers after one level is rewritten. -/
theorem mem_flatMap_upsert (price : UInt64) (f : Option OrderList → OrderList)
    (hprice : ∀ e ∈ levels.entries, ∀ p ∈ e.2, (heap.get p).price = e.1)
    (p : Ptr) :
    ∃ level : Option OrderList,
      (∀ q, q ∈ level.getD [] ↔ q ∈ levels.entries.flatMap Prod.snd ∧
        (heap.get q).price = price) ∧
      (p ∈ (eraseIfEmpty (levels.upsert price f) price).entries.flatMap Prod.snd ↔
        (p ∈ levels.entries.flatMap Prod.snd ∧ (heap.get p).price ≠ price) ∨ p ∈ f level) := by
  obtain ⟨old, hold, hmem⟩ := mem_eraseIfEmpty_upsert levels price f
  refine ⟨old, fun q => ?_, ?_⟩
  · rw [List.mem_flatMap]
    constructor
    · intro hq
      cases old with
      | none => cases hq
      | some l =>
          have hl := (hold l).mpr rfl
          exact ⟨⟨_, hl, hq⟩, hprice _ hl q hq⟩
    · rintro ⟨⟨e, he, hq⟩, hqp⟩
      have hkey : e.1 = price := (hprice e he q hq).symm.trans hqp
      have := (hold e.2).mp (hkey ▸ he)
      rw [this]
      exact hq
  · simp only [List.mem_flatMap]
    constructor
    · rintro ⟨e, he, hp⟩
      rcases (hmem e).mp he with ⟨hin, hne⟩ | ⟨rfl, -⟩
      · exact Or.inl ⟨⟨e, hin, hp⟩, by rw [hprice e hin p hp]; exact hne⟩
      · exact Or.inr hp
    · rintro (⟨⟨e, he, hp⟩, hne⟩ | hp)
      · refine ⟨e, (hmem e).mpr (Or.inl ⟨he, ?_⟩), hp⟩
        rw [← hprice e he p hp]
        exact hne
      · exact ⟨_, (hmem _).mpr (Or.inr ⟨rfl, List.ne_nil_of_mem hp⟩), hp⟩

end Upsert

/-! ## The simulation relation -/

/-- A book seen from `side` — its own levels, the opposite ones, the index — and
the flat list of the same resting orders. -/
structure SideSim (side : OrderSide) (heap : Heap Order) (own opp : List (UInt64 × OrderList))
    (index : NestedMap UInt64 UInt64 Ptr) (resting : List Order) : Prop where
  ownSide : Represents (before side) (derefLevels heap own) (onSide side resting)
  oppSide : Represents (before side.opposite) (derefLevels heap opp)
    (onSide side.opposite resting)
  /-- Every resting pointer points to an object. -/
  allocated : ∀ p ∈ own.flatMap Prod.snd ++ opp.flatMap Prod.snd, p < heap.next
  /-- The index names the resting orders, by owner and id, and nothing else. -/
  indexed : ∀ u x p, NestedMap.find? index u x = some p ↔
    p ∈ own.flatMap Prod.snd ++ opp.flatMap Prod.snd ∧
      (heap.get p).userId = u ∧ (heap.get p).orderId = x
  sound : Sound resting

instance (side : OrderSide) : IsStrictTotalOrder UInt64 (before side) := by
  cases side <;> (unfold before; infer_instance)

namespace SideSim

variable {side : OrderSide} {heap : Heap Order} {own opp : List (UInt64 × OrderList)}
  {index : NestedMap UInt64 UInt64 Ptr} {resting : List Order}

theorem swap (h : SideSim side heap own opp index resting) :
    SideSim side.opposite heap opp own index resting where
  ownSide := h.oppSide
  oppSide := by
    have := h.ownSide
    cases side <;> exact this
  allocated p hp := h.allocated p (by simpa [or_comm] using hp)
  indexed u x p := by
    rw [h.indexed]
    simp [or_comm]
  sound := h.sound

/-- The pointers of a level point to orders of its price. -/
theorem price {lt : UInt64 → UInt64 → Prop} {levels : List (UInt64 × OrderList)}
    {orders : List Order} (h : Represents lt (derefLevels heap levels) orders) :
    ∀ e ∈ levels, ∀ p ∈ e.2, (heap.get p).price = e.1 := by
  intro e he p hp
  have hlevel := ((h.mem_iff e.1 _).mp (mem_derefLevels.mpr ⟨e.2, he, rfl⟩)).2
  exact (mem_atPrice.mp (hlevel ▸ List.mem_map_of_mem hp)).2

/-- The pointers point to the resting orders, one each. -/
theorem perm (h : SideSim side heap own opp index resting) :
    ((own.flatMap Prod.snd ++ opp.flatMap Prod.snd).map heap.get).Perm resting := by
  have hown := h.ownSide.perm
  have hopp := h.oppSide.perm
  rw [flatMap_derefLevels] at hown hopp
  have hsplit : (onSide side resting ++ onSide side.opposite resting).Perm resting := by
    have := List.filter_append_perm (fun o : Order => o.side = side) resting
    refine List.Perm.trans ?_ this
    refine List.Perm.append_left _ (List.Perm.of_eq (List.filter_congr fun o _ => ?_))
    cases o.side <;> cases side <;> rfl
  rw [List.map_append]
  exact (hown.append hopp).trans hsplit

theorem ids_nodup (h : SideSim side heap own opp index resting) :
    ((own.flatMap Prod.snd ++ opp.flatMap Prod.snd).map
      (fun p => (heap.get p).orderId)).Nodup := by
  have hperm := h.perm.map Order.orderId
  rw [List.map_map] at hperm
  exact hperm.nodup_iff.mpr h.sound.distinct

theorem nodup (h : SideSim side heap own opp index resting) :
    (own.flatMap Prod.snd ++ opp.flatMap Prod.snd).Nodup :=
  List.Nodup.of_map _ h.ids_nodup

/-- Resting pointers are told apart by the ids they lead to. -/
theorem eq_of_orderId (h : SideSim side heap own opp index resting) {p q : Ptr}
    (hp : p ∈ own.flatMap Prod.snd ++ opp.flatMap Prod.snd)
    (hq : q ∈ own.flatMap Prod.snd ++ opp.flatMap Prod.snd)
    (hid : (heap.get p).orderId = (heap.get q).orderId) : p = q :=
  List.inj_on_of_nodup_map h.ids_nodup hp hq hid

theorem get_mem (h : SideSim side heap own opp index resting) {p : Ptr}
    (hp : p ∈ own.flatMap Prod.snd ++ opp.flatMap Prod.snd) : heap.get p ∈ resting :=
  h.perm.mem_iff.mp (List.mem_map_of_mem hp)

/-- The objects the pointers lead to decide everything about the heap. -/
theorem congr_heap (h : SideSim side heap own opp index resting) {heap' : Heap Order}
    (hget : ∀ p ∈ own.flatMap Prod.snd ++ opp.flatMap Prod.snd, heap'.get p = heap.get p)
    (hnext : heap.next ≤ heap'.next) : SideSim side heap' own opp index resting where
  ownSide := by
    rw [derefLevels_congr fun p hp => hget p (List.mem_append_left _ hp)]
    exact h.ownSide
  oppSide := by
    rw [derefLevels_congr fun p hp => hget p (List.mem_append_right _ hp)]
    exact h.oppSide
  allocated p hp := lt_of_lt_of_le (h.allocated p hp) hnext
  indexed u x p := by
    rw [h.indexed]
    refine and_congr_right fun hp => ?_
    rw [hget p hp]
  sound := h.sound

/-- A newly allocated order changes nothing that rests. -/
theorem alloc (h : SideSim side heap own opp index resting) (o : Order) :
    SideSim side (heap.alloc o) own opp index resting :=
  h.congr_heap (fun p hp => Heap.get_alloc_of_lt heap o (h.allocated p hp))
    (Nat.le_succ _)

/-- **The match loop refines filling**: walking the opposite levels leaves a book
that simulates what `fillAll` leaves. -/
theorem walk (h : SideSim side heap own opp index resting)
    (record : Order → Order → UInt64 → UInt64 → MatchRecord) (clock : ℕ → UInt64)
    (ptr : Ptr) (results : List MatchRecord) (hside : (heap.get ptr).side = side)
    (hnew : ptr ∉ own.flatMap Prod.snd ++ opp.flatMap Prod.snd) :
    let walk := matchLevels record clock (stopsAt side) ptr opp ⟨heap, index, results⟩
    let out := fillAll (heap.get ptr) resting
    SideSim side walk.2.heap own walk.1 walk.2.userActiveOrders out.resting ∧
      walk.2.heap.get ptr = out.taker ∧ walk.2.heap.next = heap.next ∧
      ∃ pushed, walk.2.results = results ++ pushed ∧ pushed.map MatchRecord.untimed =
        out.fills.map
          (fun f => (record f.maker f.taker f.maker.price f.quantity).untimed) := by
  subst hside
  obtain ⟨hnodupOwn, hnodupOpp, hdisj⟩ := List.nodup_append'.mp h.nodup
  rw [List.mem_append, not_or] at hnew
  obtain ⟨hwalk, hladder, htaker⟩ := matchLevels_walk record clock (stopsAt (heap.get ptr).side)
    opp ⟨heap, index, results⟩ hnodupOpp hnew.2 (price h.oppSide)
  obtain ⟨hfills, hrest, hrep, hown⟩ :=
    fillLevels_simulates (heap.get ptr) resting _ h.sound.distinct h.oppSide
  intro walk out
  -- The loop writes to the makers and to the taker, and neither is on the own side.
  have hgetOwn : ∀ p ∈ own.flatMap Prod.snd, walk.2.heap.get p = heap.get p := by
    intro p hp
    exact hwalk.frame p (fun heq => hnew.1 (heq ▸ hp)) (fun hopp => hdisj hp hopp)
  have hkept : ∀ p, p ∈ own.flatMap Prod.snd ++ walk.1.flatMap Prod.snd →
      p ∈ own.flatMap Prod.snd ++ opp.flatMap Prod.snd :=
    fun p hp => ((List.Sublist.refl _).append hwalk.sublist).subset hp
  have hfillsEq : (fillLevels (stopsAt (heap.get ptr).side) (heap.get ptr)
      (derefLevels heap opp)).fills = out.fills := hfills
  refine ⟨⟨?_, ?_, ?_, ?_, h.sound.fillAll _⟩, htaker.trans hrest, hwalk.next, ?_⟩
  · rw [derefLevels_congr hgetOwn, hown]
    exact h.ownSide
  · rw [hladder]
    exact hrep
  · intro p hp
    rw [hwalk.next]
    exact h.allocated p (hkept p hp)
  · intro u x p
    rw [hwalk.index, Order.userId_of_core (hwalk.core p), Order.orderId_of_core (hwalk.core p),
      h.indexed]
    constructor
    · rintro ⟨⟨hp, hu, hx⟩, hdropped⟩
      refine ⟨?_, hu, hx⟩
      rw [List.mem_append] at hp ⊢
      refine hp.imp id fun hopp => ?_
      by_contra hgone
      exact hdropped p hopp hgone ⟨hu, hx⟩
    · -- An order that is kept is none of those that were filled: ids are distinct.
      rintro ⟨hp, hu, hx⟩
      refine ⟨⟨hkept p hp, hu, hx⟩, ?_⟩
      rintro p' hp' hgone ⟨-, hx'⟩
      have heq := h.eq_of_orderId (List.mem_append_right _ hp') (hkept p hp) (hx'.trans hx.symm)
      subst heq
      rcases List.mem_append.mp hp with hown' | hopp'
      · exact hdisj hown' hp'
      · exact hgone hopp'
  · rw [← hfillsEq]
    exact hwalk.results

section Levels

variable {lt : UInt64 → UInt64 → Prop} [DecidableRel lt] [IsStrictTotalOrder UInt64 lt]
  (levels : OrderedMap UInt64 OrderList lt)

/-- **Resting what is left**: the order joins the back of its level and the
index, and the back of the flat list. -/
theorem rest (hlt : before side = lt) (h : SideSim side heap levels.entries opp index resting)
    {ptr : Ptr} {o : Order} (ho : heap.get ptr = o) (hptr : ptr < heap.next)
    (hside : o.side = side) (hsound : Sound (resting ++ [o])) :
    SideSim side heap (levels.upsert o.price (pushBack ptr)).entries opp
      (NestedMap.set index o.userId o.orderId ptr) (resting ++ [o]) := by
  subst hlt
  have hmem : ∀ p, p ∈ (levels.upsert o.price (pushBack ptr)).entries.flatMap Prod.snd ↔
      p ∈ levels.entries.flatMap Prod.snd ∨ p = ptr := by
    intro p
    obtain ⟨level, hlevel, hp⟩ :=
      mem_flatMap_upsert o.price (pushBack ptr) (price h.ownSide) p
    rw [eraseIfEmpty_upsert_pushBack] at hp
    rw [hp, pushBack, List.mem_append, hlevel, List.mem_singleton]
    by_cases hprice : (heap.get p).price = o.price <;> simp [hprice]
  have hfresh : ∀ p ∈ levels.entries.flatMap Prod.snd ++ opp.flatMap Prod.snd,
      (heap.get p).orderId ≠ o.orderId := by
    intro p hp heq
    have hids := hsound.distinct
    unfold DistinctIds at hids
    rw [List.map_append] at hids
    refine (List.nodup_append'.mp hids).2.2 (List.mem_map_of_mem (h.get_mem hp)) ?_
    simp [heq]
  have hown : onSide side (resting ++ [o]) = onSide side resting ++ [o] := by
    simp [onSide, hside]
  have hopp : onSide side.opposite (resting ++ [o]) = onSide side.opposite resting := by
    simp [onSide, hside, (OrderSide.opposite_ne side).symm]
  refine ⟨?_, ?_, ?_, ?_, hsound⟩
  · rw [hown, ← eraseIfEmpty_upsert_pushBack]
    refine h.ownSide.upsert (fun level hlevel => ?_) (fun p hp => ?_)
    · rw [pushBack, List.map_append, hlevel]
      simp [atPrice, ho]
    · simp [atPrice, Ne.symm hp]
  · rw [hopp]
    exact h.oppSide
  · intro p hp
    rw [List.mem_append, hmem] at hp
    rcases hp with (hp | rfl) | hp
    · exact h.allocated p (List.mem_append_left _ hp)
    · exact hptr
    · exact h.allocated p (List.mem_append_right _ hp)
  · intro u x p
    rw [NestedMap.find?_set, List.mem_append, hmem]
    split_ifs with hkey
    · obtain ⟨rfl, rfl⟩ := hkey
      constructor
      · rintro heq
        obtain rfl := Option.some.inj heq
        exact ⟨Or.inl (Or.inr rfl), by rw [ho], by rw [ho]⟩
      · rintro ⟨(hp | rfl) | hp, -, hx⟩
        · exact absurd hx (hfresh p (List.mem_append_left _ hp))
        · rfl
        · exact absurd hx (hfresh p (List.mem_append_right _ hp))
    · rw [h.indexed, List.mem_append]
      constructor
      · rintro ⟨hp, hkey'⟩
        exact ⟨hp.imp Or.inl id, hkey'⟩
      · rintro ⟨(hp | rfl) | hp, hkey'⟩
        · exact ⟨Or.inl hp, hkey'⟩
        · rw [ho] at hkey'
          exact absurd ⟨hkey'.1.symm, hkey'.2.symm⟩ hkey
        · exact ⟨Or.inr hp, hkey'⟩

/-- **Processing an order refines `submit`**, seen from the order's side. -/
theorem process (hlt : before side = lt)
    (h : SideSim side heap levels.entries opp index resting)
    (record : Order → Order → UInt64 → UInt64 → MatchRecord) (clock : ℕ → UInt64) {o : Order}
    (results : List MatchRecord) (hside : o.side = side)
    (hid : o.orderId ∉ resting.map Order.orderId) :
    let walk := matchLevels record clock (stopsAt side) heap.next opp
      ⟨heap.alloc o, index, results⟩
    let order := walk.2.heap.get heap.next
    SideSim side walk.2.heap
        (if order.quantity > 0 then levels.upsert order.price (pushBack heap.next)
          else levels).entries walk.1
        (if order.quantity > 0 then
            NestedMap.set walk.2.userActiveOrders order.userId order.orderId heap.next
          else walk.2.userActiveOrders) (submit resting o).2 ∧
      ∃ pushed, walk.2.results = results ++ pushed ∧ pushed.map MatchRecord.untimed =
        (submit resting o).1.map
          (fun f => (record f.maker f.taker f.maker.price f.quantity).untimed) := by
  have hnew : heap.next ∉ levels.entries.flatMap Prod.snd ++ opp.flatMap Prod.snd :=
    fun hp => Nat.lt_irrefl _ (h.allocated _ hp)
  obtain ⟨hsim, htaker, hnext, hresults⟩ := (h.alloc o).walk record clock heap.next
    results (by rw [Heap.get_alloc_self, hside]) hnew
  rw [Heap.get_alloc_self] at hsim htaker hresults
  have hsound := h.sound.submit hid
  intro walk order
  have horder : order = (fillAll o resting).taker := htaker
  rw [submit_snd, ← horder] at hsound
  rw [submit_fst, submit_snd, ← horder]
  refine ⟨?_, hresults⟩
  split_ifs with hpos
  · rw [if_pos hpos] at hsound
    refine hsim.rest levels hlt rfl ?_ ?_ hsound
    · rw [hnext]
      exact Nat.lt_succ_self _
    · rw [horder, Order.side_of_core (core_fillAll_taker o resting), hside]
  · exact hsim

/-- **Taking a cancelled order off its level** and off the index refines `cancel`. -/
theorem remove (hlt : before side = lt)
    (h : SideSim side heap levels.entries opp index resting) {orderId : UInt32} {u : UInt64}
    {ptr : Ptr} {o : Order} (ho : heap.get ptr = o)
    (hfind : NestedMap.find? index u orderId.toUInt64 = some ptr) (hside : o.side = side) :
    SideSim side heap
      (eraseIfEmpty (levels.upsert o.price (removeOrder heap orderId)) o.price).entries opp
      (NestedMap.erase index u orderId.toUInt64) (cancel resting orderId.toUInt64 u).2 := by
  subst hlt
  obtain ⟨hptr, hu, hx⟩ := (h.indexed _ _ _).mp hfind
  rw [ho] at hu hx
  have hmemo : o ∈ resting := ho ▸ h.get_mem hptr
  have hunique : ∀ o' ∈ resting, o'.orderId = orderId.toUInt64 → o' = o := fun o' ho' hid =>
    h.sound.distinct.eq_of_mem ho' hmemo (hid.trans hx.symm)
  -- Lists that do not have the order lose nothing.
  have hcancel : ∀ P : Order → Bool, (P o = false) →
      ((cancel resting orderId.toUInt64 u).2).filter P = resting.filter P := by
    intro P hP
    simp only [cancel, List.filter_filter]
    refine List.filter_congr fun o' ho' => ?_
    by_cases hid : o'.orderId = orderId.toUInt64
    · rw [hunique o' ho' hid, hP]
      rfl
    · simp [hid]
  have hmem : ∀ p, p ∈ (eraseIfEmpty (levels.upsert o.price (removeOrder heap orderId))
      o.price).entries.flatMap Prod.snd ↔
        p ∈ levels.entries.flatMap Prod.snd ∧ (heap.get p).orderId ≠ orderId.toUInt64 := by
    intro p
    obtain ⟨level, hlevel, hp⟩ := mem_flatMap_upsert o.price
      (removeOrder heap orderId) (price h.ownSide) p
    rw [hp, removeOrder, List.mem_filter, hlevel]
    by_cases hprice : (heap.get p).price = o.price
    · simp [hprice]
    · -- An order with this id would be at the price of the level.
      refine ⟨?_, fun hp => Or.inl ⟨hp.1, hprice⟩⟩
      rintro (⟨hp, -⟩ | ⟨⟨-, hp⟩, -⟩)
      · refine ⟨hp, fun hid => hprice ?_⟩
        rw [hunique _ (h.get_mem (List.mem_append_left _ hp)) hid]
      · exact absurd hp hprice
  refine ⟨?_, ?_, ?_, ?_, h.sound.cancel _ _⟩
  · refine h.ownSide.upsert (fun level hlevel => ?_) (fun p hp => ?_)
    · have hmap : (removeOrder heap orderId level).map heap.get
          = ((level.getD []).map heap.get).filter (fun o => o.orderId ≠ orderId.toUInt64) := by
        rw [removeOrder, List.filter_map]
        rfl
      rw [hmap, hlevel]
      simp only [atPrice, onSide, cancel, List.filter_filter]
      refine List.filter_congr fun o' ho' => ?_
      by_cases hid : o'.orderId = orderId.toUInt64
      · rw [hunique o' ho' hid]
        simp [hx, hu]
      · simp [hid]
    · simp only [atPrice, onSide, List.filter_filter]
      refine hcancel _ ?_
      simp [Ne.symm hp]
  · rw [onSide, hcancel]
    · exact h.oppSide
    · simp [hside, (OrderSide.opposite_ne side).symm]
  · intro p hp
    rw [List.mem_append, hmem] at hp
    exact h.allocated p (List.mem_append.mpr (hp.imp And.left id))
  · intro u' x' p
    rw [NestedMap.find?_erase, List.mem_append, hmem]
    split_ifs with hkey
    · obtain ⟨rfl, rfl⟩ := hkey
      refine ⟨fun hnone => (by cases hnone), ?_⟩
      rintro ⟨⟨-, hne⟩ | hp, -, hid⟩
      · exact absurd hid hne
      · -- Only the cancelled order has this id, and it is on the other side.
        have heq := h.eq_of_orderId (List.mem_append_right _ hp) hptr (by rw [hid, ho, hx])
        subst heq
        obtain ⟨-, hopp⟩ := mem_onSide.mp
          ((h.oppSide.perm.mem_iff).mp (by
            rw [flatMap_derefLevels]
            exact List.mem_map_of_mem hp))
        rw [ho, hside] at hopp
        exact absurd hopp.symm (OrderSide.opposite_ne side)
    · rw [h.indexed, List.mem_append]
      constructor
      · rintro ⟨hp, hu', hx'⟩
        refine ⟨hp.imp (fun hp => ⟨hp, fun hid => hkey ?_⟩) id, hu', hx'⟩
        have heq := hunique _ (h.get_mem (List.mem_append_left _ hp)) hid
        rw [heq] at hu' hx'
        exact ⟨hu'.symm.trans hu, hx'.symm.trans hx⟩
      · rintro ⟨hp, hkey'⟩
        exact ⟨hp.imp And.left id, hkey'⟩

end Levels

end SideSim

/-! ## The two operations -/

/-- A book and the flat list of the orders that rest in it. -/
def Simulates (book : OrderBook) (resting : List Order) : Prop :=
  SideSim .buy book.heap book.bids.entries book.asks.entries book.userActiveOrders resting

namespace Simulates

variable {book : OrderBook} {resting : List Order}

theorem new (tickerId : UInt32) : Simulates (OrderBook.new tickerId) [] where
  ownSide := Represents.nil _
  oppSide := Represents.nil _
  allocated p hp := by cases hp
  indexed u x p := by simp [OrderBook.new]
  sound := Sound.nil

/-- The same book seen from the asks. -/
theorem swap (h : Simulates book resting) :
    SideSim .sell book.heap book.asks.entries book.bids.entries book.userActiveOrders resting :=
  SideSim.swap h

theorem tickerId_processOrder (clock : ℕ → UInt64) (book : OrderBook) (o : Order)
    (results : List MatchRecord) :
    (book.processOrder clock o results).1.tickerId = book.tickerId := by
  unfold OrderBook.processOrder
  cases o.side <;> dsimp only [] <;> split_ifs <;> rfl

theorem tickerId_cancelOrder (book : OrderBook) (orderId : UInt32) (userId : UInt64) :
    (book.cancelOrder orderId userId).1.tickerId = book.tickerId := by
  unfold OrderBook.cancelOrder
  split
  · rfl
  · split
    · rfl
    · dsimp only []
      split <;> rfl

/-- The record a match function pushes is the record of the trade. -/
theorem map_record {o : Order} (t : UInt32)
    (record : Order → Order → UInt64 → UInt64 → MatchRecord)
    (hrecord : ∀ f : Fill, f.taker.side = o.side →
      (record f.maker f.taker f.maker.price f.quantity).untimed = f.record t) :
    (submit resting o).1.map
        (fun f => (record f.maker f.taker f.maker.price f.quantity).untimed)
      = (submit resting o).1.map (Fill.record t) := by
  refine List.map_congr_left fun f hf => hrecord f ?_
  rw [submit_fst] at hf
  exact Order.side_of_core (fillAll_valid o resting f hf).taker_core

/-- **`processOrder` refines `submit`**: the book it leaves holds the orders the
flat book holds, and it appends the records of the same trades. -/
theorem processOrder (h : Simulates book resting) (clock : ℕ → UInt64) {o : Order}
    (results : List MatchRecord) (hid : o.orderId ∉ resting.map Order.orderId) :
    let out := book.processOrder clock o results
    Simulates out.1 (submit resting o).2 ∧
      ∃ pushed, out.2 = results ++ pushed ∧
        pushed.map MatchRecord.untimed =
          (submit resting o).1.map (Fill.record book.tickerId) := by
  cases hside : o.side with
  | buy =>
      obtain ⟨hsim, hresults⟩ :=
        SideSim.process book.bids rfl h (buyRecord book.tickerId) clock results hside hid
      rw [map_record book.tickerId _ fun f hf => by
        simp [buyRecord, Fill.record, Fill.buy, Fill.sell, MatchRecord.untimed, hf, hside]]
        at hresults
      have hstops : (fun askPrice limit : UInt64 => decide (askPrice > limit))
          = stopsAt .buy := rfl
      simp only [OrderBook.processOrder, hside, OrderBook.matchBuyOrder, hstops]
      split_ifs with hpos
      · rw [if_pos hpos, if_pos hpos] at hsim
        exact ⟨hsim, hresults⟩
      · rw [if_neg hpos, if_neg hpos] at hsim
        exact ⟨hsim, hresults⟩
  | sell =>
      obtain ⟨hsim, hresults⟩ :=
        SideSim.process book.asks rfl h.swap (sellRecord book.tickerId) clock results hside hid
      rw [map_record book.tickerId _ fun f hf => by
        simp [sellRecord, Fill.record, Fill.buy, Fill.sell, MatchRecord.untimed, hf, hside]]
        at hresults
      have hstops : (fun bidsPrice limit : UInt64 => decide (bidsPrice < limit))
          = stopsAt .sell := rfl
      simp only [OrderBook.processOrder, hside, OrderBook.matchSellOrder, hstops]
      split_ifs with hpos
      · rw [if_pos hpos, if_pos hpos] at hsim
        exact ⟨hsim.swap, hresults⟩
      · rw [if_neg hpos, if_neg hpos] at hsim
        exact ⟨hsim.swap, hresults⟩

/-- The index finds the order `cancel` deletes. -/
theorem cancel_fst (h : Simulates book resting) (x u : UInt64) :
    (cancel resting x u).1 = (NestedMap.find? book.userActiveOrders u x).map book.heap.get := by
  cases hfind : NestedMap.find? book.userActiveOrders u x with
  | some ptr =>
      obtain ⟨hptr, hu, hx⟩ := (h.indexed _ _ _).mp hfind
      subst hu hx
      exact cancel_eq_some h.sound.distinct (h.get_mem hptr)
  | none =>
      cases hc : (cancel resting x u).1 with
      | none => rfl
      | some o =>
          obtain ⟨ho, hx, hu⟩ := mem_of_cancel hc
          obtain ⟨p, hp, rfl⟩ := List.mem_map.mp (h.perm.mem_iff.mpr ho)
          rw [(h.indexed u x p).mpr ⟨hp, hu, hx⟩] at hfind
          cases hfind

/-- **`cancelOrder` refines `cancel`**, with the id it received widened back to
64 bits; when it finds nothing it leaves the book alone. -/
theorem cancelOrder (h : Simulates book resting) (orderId : UInt32) (u : UInt64) :
    let out := book.cancelOrder orderId u
    out.2 = (cancel resting orderId.toUInt64 u).1 ∧
      Simulates out.1 (cancel resting orderId.toUInt64 u).2 ∧
      (out.2 = none → out.1 = book) := by
  have hfst := h.cancel_fst orderId.toUInt64 u
  cases hfind : NestedMap.find? book.userActiveOrders u orderId.toUInt64 with
  | none =>
      have hout : book.cancelOrder orderId u = (book, none) := by
        unfold OrderBook.cancelOrder
        unfold NestedMap.find? NestedMap.row at hfind
        cases hrow : book.userActiveOrders.lookup u with
        | none => rfl
        | some orders =>
            rw [hrow, Option.getD_some] at hfind
            simp only [hfind]
      rw [hfind] at hfst
      simp only [hout]
      refine ⟨hfst.symm, ?_, fun _ => trivial⟩
      rw [cancel_snd_of_none hfst]
      exact h
  | some ptr =>
      rw [hfind] at hfst
      rw [hfst]
      unfold OrderBook.cancelOrder
      have hrow : ∃ orders, book.userActiveOrders.lookup u = some orders ∧
          orders.lookup orderId.toUInt64 = some ptr ∧
          AList.insert u (orders.erase orderId.toUInt64) book.userActiveOrders
            = NestedMap.erase book.userActiveOrders u orderId.toUInt64 := by
        unfold NestedMap.find? NestedMap.row at hfind
        cases hrow : book.userActiveOrders.lookup u with
        | none => simp [hrow] at hfind
        | some orders =>
            rw [hrow, Option.getD_some] at hfind
            refine ⟨orders, rfl, hfind, ?_⟩
            simp [NestedMap.erase, NestedMap.row, hrow]
      obtain ⟨orders, hrow, hlookup, herase⟩ := hrow
      simp only [hrow, hlookup]
      cases hside : (book.heap.get ptr).side with
      | buy =>
          have hsim := SideSim.remove book.bids rfl h rfl hfind hside
          rw [← herase] at hsim
          exact ⟨rfl, hsim, fun hnone => (by cases hnone)⟩
      | sell =>
          have hsim := (SideSim.remove book.asks rfl h.swap rfl hfind hside).swap
          rw [← herase] at hsim
          exact ⟨rfl, hsim, fun hnone => (by cases hnone)⟩

end Simulates

end ExchangeServer
