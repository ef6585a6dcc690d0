import Mathlib.Algebra.BigOperators.Group.List.Basic
import Mathlib.Data.List.AList
import Mathlib.Order.Defs.Unbundled
import Mathlib.Order.Lattice
import Mathlib.Tactic.Abel

/-!
# Containers

The containers the exchange is built from, over arbitrary keys and elements.

* `OrderedMap K V lt` — a finite map listed in strictly increasing key order for
  `lt`: the iteration order of `std::map<K, V, Compare>`.  The ordering is a
  field of the structure, so every map that can be built iterates in key order
  and holds each key at most once.
* `UnorderedMap K V` — Mathlib's `AList` for `std::unordered_map<K, V>`, with
  `modify` and sums over all entries.  Its iteration order stands for the
  unspecified one, so results about it are stated up to permutation.
* `NestedMap K L V` — an `unordered_map` of `unordered_map`s.
* `PriorityQueue α` — the elements of a `std::priority_queue`.  Which of several
  elements of the same rank is at the top is not promised, so `IsTop` is a relation.
* `Heap α` — the objects behind a family of `shared_ptr`s.  Two containers that
  hold the same pointer see each other's writes; this is the whole reason the
  pointers are not modelled away.
-/

namespace ExchangeServer.Lib

universe u v w

/-! ## Ordered maps -/

/-- A map listed in strictly increasing key order. -/
structure OrderedMap (K : Type u) (V : Type v) (lt : K → K → Prop) where
  /-- The entries, in iteration order. -/
  entries : List (K × V)
  /-- Iteration meets the keys in strictly increasing order. -/
  sorted : (entries.map Prod.fst).Pairwise lt

namespace OrderedMap

variable {K : Type u} {V : Type v} {lt : K → K → Prop}

/-- The map without entries. -/
def empty : OrderedMap K V lt := ⟨[], by simp⟩

instance : EmptyCollection (OrderedMap K V lt) := ⟨empty⟩

@[simp] theorem entries_empty : (∅ : OrderedMap K V lt).entries = [] := rfl

/-- Replace the entries by a list whose keys are a sublist of the present ones,
which is what a loop that erases and rewrites while it iterates leaves behind. -/
def shrink (m : OrderedMap K V lt) (entries : List (K × V))
    (keys : (entries.map Prod.fst).Sublist (m.entries.map Prod.fst)) :
    OrderedMap K V lt :=
  ⟨entries, m.sorted.sublist keys⟩

@[simp] theorem entries_shrink (m : OrderedMap K V lt) (entries : List (K × V))
    (keys : (entries.map Prod.fst).Sublist (m.entries.map Prod.fst)) :
    (m.shrink entries keys).entries = entries := rfl

/-- Remove the entry of `k`, if there is one. -/
def erase [DecidableEq K] (m : OrderedMap K V lt) (k : K) : OrderedMap K V lt :=
  m.shrink (m.entries.filter (fun e => e.1 ≠ k)) (List.filter_sublist.map _)

@[simp] theorem mem_entries_erase [DecidableEq K] {m : OrderedMap K V lt} {k : K}
    {e : K × V} : e ∈ (m.erase k).entries ↔ e ∈ m.entries ∧ e.1 ≠ k := by
  simp [erase]

/-- Rewrite the element of `k` in an entry list, creating it in its place when
there is none.  `f` receives the element as it was. -/
def upsertEntries [DecidableEq K] (lt : K → K → Prop) [DecidableRel lt] (k : K)
    (f : Option V → V) : List (K × V) → List (K × V)
  | [] => [(k, f none)]
  | (k', v) :: rest =>
      if k = k' then (k, f (some v)) :: rest
      else if lt k k' then (k, f none) :: (k', v) :: rest
      else (k', v) :: upsertEntries lt k f rest

section StrictOrder

variable [DecidableEq K] [DecidableRel lt]

theorem mem_keys_upsertEntries (k : K) (f : Option V → V) (l : List (K × V)) {x : K}
    (h : x ∈ (upsertEntries lt k f l).map Prod.fst) :
    x = k ∨ x ∈ l.map Prod.fst := by
  induction l with
  | nil => simpa [upsertEntries] using h
  | cons e l ih =>
      obtain ⟨k', v⟩ := e
      simp only [upsertEntries] at h
      split_ifs at h with heq hlt
      · subst heq
        exact Or.inr (by simpa using h)
      · simpa using h
      · rcases List.mem_cons.mp h with rfl | htail
        · simp
        · rcases ih htail with rfl | hmem
          · exact Or.inl rfl
          · exact Or.inr (List.mem_cons_of_mem _ hmem)

variable [IsStrictTotalOrder K lt]

theorem upsertEntries_sorted (k : K) (f : Option V → V) (l : List (K × V))
    (h : (l.map Prod.fst).Pairwise lt) :
    ((upsertEntries lt k f l).map Prod.fst).Pairwise lt := by
  induction l with
  | nil => simp [upsertEntries]
  | cons e l ih =>
      obtain ⟨k', v⟩ := e
      obtain ⟨hhead, htail⟩ := List.pairwise_cons.mp h
      simp only [upsertEntries]
      split_ifs with heq hlt
      · subst heq
        exact h
      · refine List.pairwise_cons.mpr ⟨fun x hx => ?_, h⟩
        rcases List.mem_cons.mp hx with rfl | hx
        · exact hlt
        · exact trans_of lt hlt (hhead x hx)
      · refine List.pairwise_cons.mpr ⟨fun x hx => ?_, ih htail⟩
        rcases mem_keys_upsertEntries k f l hx with rfl | hx
        · rcases trichotomous_of lt x k' with h | h | h
          · exact absurd h hlt
          · exact absurd h heq
          · exact h
        · exact hhead x hx

/-- `operator[]` at `k` followed by rewriting the element: `f none` is what the
freshly created default becomes. -/
def upsert (m : OrderedMap K V lt) (k : K) (f : Option V → V) :
    OrderedMap K V lt :=
  ⟨upsertEntries lt k f m.entries, upsertEntries_sorted k f _ m.sorted⟩

omit [DecidableEq K] [DecidableRel lt] in
theorem keys_nodup (m : OrderedMap K V lt) : (m.entries.map Prod.fst).Nodup := by
  refine m.sorted.imp fun {a b} hlt heq => ?_
  subst heq
  exact irrefl_of lt a hlt

omit [DecidableEq K] [DecidableRel lt] [IsStrictTotalOrder K lt] in
/-- The entries of a list with distinct keys are told apart by their keys. -/
theorem mem_unique {l : List (K × V)} (hl : (l.map Prod.fst).Nodup) {k : K} {v w : V}
    (hv : (k, v) ∈ l) (hw : (k, w) ∈ l) : v = w :=
  congrArg Prod.snd (List.inj_on_of_nodup_map hl hv hw rfl)

/-- **What `operator[]` does to the entries**: `f` is applied to the element of
`k`, if there was one, and every other entry stays. -/
theorem mem_entries_upsert (m : OrderedMap K V lt) (k : K) (f : Option V → V) :
    ∃ old : Option V, (∀ v, (k, v) ∈ m.entries ↔ old = some v) ∧
      ∀ e, e ∈ (m.upsert k f).entries ↔ (e ∈ m.entries ∧ e.1 ≠ k) ∨ e = (k, f old) := by
  have hnodup := m.keys_nodup
  obtain ⟨l, hl⟩ := m
  simp only [upsert] at *
  induction l with
  | nil => exact ⟨none, by simp, by simp [upsertEntries]⟩
  | cons e l ih =>
      obtain ⟨k', v⟩ := e
      obtain ⟨hhead, htail⟩ := List.pairwise_cons.mp hl
      obtain ⟨hfresh, hnodup'⟩ := List.nodup_cons.mp hnodup
      have hother : ∀ e ∈ l, e.1 ≠ k' := by
        rintro e he rfl
        exact hfresh (List.mem_map.mpr ⟨e, he, rfl⟩)
      simp only [upsertEntries]
      split_ifs with heq hlt
      · subst heq
        refine ⟨some v, fun w => ?_, fun e => ?_⟩
        · refine ⟨fun hw => ?_, fun hw => ?_⟩
          · exact congrArg some (mem_unique hnodup List.mem_cons_self hw)
          · exact Option.some.inj hw ▸ List.mem_cons_self
        · rw [List.mem_cons, List.mem_cons]
          constructor
          · rintro (rfl | he)
            · exact Or.inr rfl
            · exact Or.inl ⟨Or.inr he, hother e he⟩
          · rintro (⟨rfl | he, hne⟩ | rfl)
            · exact absurd rfl hne
            · exact Or.inr he
            · exact Or.inl rfl
      · have hnot : ∀ e ∈ (k', v) :: l, e.1 ≠ k := by
          intro e he heq'
          rcases List.mem_cons.mp he with rfl | he
          · exact heq heq'.symm
          · refine irrefl_of lt k (trans_of lt hlt ?_)
            exact heq' ▸ hhead e.1 (List.mem_map_of_mem he)
        refine ⟨none, fun w => ⟨fun hw => absurd rfl (hnot _ hw), fun hw => by cases hw⟩,
          fun e => ?_⟩
        rw [List.mem_cons]
        constructor
        · rintro (rfl | he)
          · exact Or.inr rfl
          · exact Or.inl ⟨he, hnot e he⟩
        · rintro (⟨he, -⟩ | rfl)
          · exact Or.inr he
          · exact Or.inl rfl
      · obtain ⟨old, hold, hmem⟩ := ih htail hnodup'
        refine ⟨old, fun w => ?_, fun e => ?_⟩
        · rw [List.mem_cons, ← hold w]
          exact ⟨fun h => h.resolve_left fun h' => heq (congrArg Prod.fst h'), Or.inr⟩
        · rw [List.mem_cons, hmem e, List.mem_cons]
          constructor
          · rintro (rfl | ⟨he, hne⟩ | rfl)
            · exact Or.inl ⟨Or.inl rfl, Ne.symm heq⟩
            · exact Or.inl ⟨Or.inr he, hne⟩
            · exact Or.inr rfl
          · rintro (⟨rfl | he, hne⟩ | rfl)
            · exact Or.inl rfl
            · exact Or.inr (Or.inl ⟨he, hne⟩)
            · exact Or.inr (Or.inr rfl)

end StrictOrder

end OrderedMap

/-! ## Unordered maps -/

/-- A hash map. -/
abbrev UnorderedMap (K : Type u) (V : Type v) :=
  AList fun _ : K => V

namespace UnorderedMap

variable {K : Type u} {V : Type v} [DecidableEq K]

/-- Rewrite the element of `k`, if there is one. -/
def modify (m : UnorderedMap K V) (k : K) (f : V → V) : UnorderedMap K V :=
  match m.lookup k with
  | none => m
  | some v => AList.insert k (f v) m

theorem lookup_insert_eq (m : UnorderedMap K V) (k k' : K) (v : V) :
    (AList.insert k v m).lookup k' = if k' = k then some v else m.lookup k' := by
  split_ifs with h
  · subst h
    exact AList.lookup_insert m
  · exact AList.lookup_insert_ne h

/-- What holds of the new element and of all others holds of every element. -/
theorem forall_lookup_insert {m : UnorderedMap K V} {k : K} {v : V} {P : K → V → Prop}
    (hnew : P k v) (hold : ∀ k' w, k' ≠ k → m.lookup k' = some w → P k' w) :
    ∀ k' w, (AList.insert k v m).lookup k' = some w → P k' w := by
  intro k' w hw
  rw [lookup_insert_eq] at hw
  split_ifs at hw with h
  · obtain rfl := Option.some.inj hw
    rw [h]
    exact hnew
  · exact hold k' w h hw

/-- Rewrite every element. -/
def mapValues {W : Type v} (m : UnorderedMap K V) (g : V → W) : UnorderedMap K W :=
  ⟨m.entries.map (Sigma.map id fun _ => g), m.nodupKeys.map₂ fun _ => g⟩

theorem lookup_mapValues {W : Type v} (m : UnorderedMap K V) (g : V → W) (k : K) :
    (m.mapValues g).lookup k = (m.lookup k).map g :=
  List.dlookup_map₂ k

theorem lookup_modify (m : UnorderedMap K V) (k k' : K) (f : V → V) :
    (modify m k f).lookup k' = if k' = k then (m.lookup k).map f else m.lookup k' := by
  unfold modify
  cases hk : m.lookup k with
  | none =>
      split_ifs with h
      · rw [h, hk]
        rfl
      · rfl
  | some v => exact lookup_insert_eq m k k' (f v)

theorem mem_entries_iff (m : UnorderedMap K V) (k : K) (v : V) :
    (⟨k, v⟩ : Sigma fun _ : K => V) ∈ m.entries ↔ m.lookup k = some v :=
  AList.mem_lookup_iff.symm

/-- An entry and the rest of the map. -/
theorem entries_perm_of_lookup {m : UnorderedMap K V} {k : K} {v : V}
    (h : m.lookup k = some v) :
    m.entries.Perm (⟨k, v⟩ :: (m.erase k).entries) := by
  have hmem : k ∈ m.entries.keys := AList.lookup_isSome.mp (by rw [h]; rfl)
  obtain ⟨w, l₁, l₂, hnot, hsplit, herase⟩ := List.exists_of_kerase hmem
  have hw : m.lookup k = some w := by
    rw [← mem_entries_iff, hsplit]
    simp
  obtain rfl : w = v := Option.some.inj (hw.symm.trans h)
  have hentries : (m.erase k).entries = l₁ ++ l₂ := herase
  rw [hentries, hsplit]
  exact List.perm_middle

section Collect

variable {α : Type w} (f : V → List α)

/-- The lists `f` gives for all elements, one after the other. -/
def collect (m : UnorderedMap K V) : List α :=
  m.entries.flatMap fun e => f e.2

omit [DecidableEq K] in
@[simp] theorem collect_empty : collect f (∅ : UnorderedMap K V) = [] := rfl

theorem mem_collect {m : UnorderedMap K V} {a : α} :
    a ∈ collect f m ↔ ∃ k v, m.lookup k = some v ∧ a ∈ f v := by
  unfold collect
  rw [List.mem_flatMap]
  constructor
  · rintro ⟨e, he, ha⟩
    exact ⟨e.1, e.2, (mem_entries_iff m e.1 e.2).mp he, ha⟩
  · rintro ⟨k, v, h, ha⟩
    exact ⟨⟨k, v⟩, (mem_entries_iff m k v).mpr h, ha⟩

/-- The list of one element and those of the rest. -/
theorem collect_perm_of_lookup {m : UnorderedMap K V} {k : K} {v : V}
    (h : m.lookup k = some v) : (collect f m).Perm (f v ++ collect f (m.erase k)) := by
  have hperm := (entries_perm_of_lookup h).flatMap_right fun e => f e.2
  rw [List.flatMap_cons] at hperm
  exact hperm

theorem collect_insert (m : UnorderedMap K V) (k : K) (v : V) :
    collect f (AList.insert k v m) = f v ++ collect f (m.erase k) := by
  simp only [collect, AList.entries_insert, List.flatMap_cons]
  rfl

end Collect

section Total

variable {M : Type w} [AddCommMonoid M] (f : K → V → M)

/-- The sum of `f` over all entries. -/
def total (m : UnorderedMap K V) : M :=
  (m.entries.map fun e => f e.1 e.2).sum

omit [DecidableEq K] in
@[simp] theorem total_empty : total f (∅ : UnorderedMap K V) = 0 := rfl

theorem total_of_lookup {m : UnorderedMap K V} {k : K} {v : V} (h : m.lookup k = some v) :
    total f m = f k v + total f (m.erase k) := by
  unfold total
  rw [((entries_perm_of_lookup h).map _).sum_eq, List.map_cons, List.sum_cons]

theorem total_insert (m : UnorderedMap K V) (k : K) (v : V) :
    total f (AList.insert k v m) = f k v + total f (m.erase k) := by
  simp only [total, AList.entries_insert, List.map_cons, List.sum_cons]
  rfl

theorem total_insert_of_none {m : UnorderedMap K V} {k : K} (h : m.lookup k = none) (v : V) :
    total f (AList.insert k v m) = f k v + total f m := by
  have hnot : k ∉ m := AList.lookup_eq_none.mp h
  simp only [total, AList.entries_insert_of_notMem hnot, List.map_cons, List.sum_cons]

/-- Rewriting one element moves the total by what it moves that element. -/
theorem total_modify {m : UnorderedMap K V} {k : K} {v : V} (h : m.lookup k = some v)
    (g : V → V) : total f (modify m k g) + f k v = total f m + f k (g v) := by
  have hmodify : modify m k g = AList.insert k (g v) m := by
    unfold modify
    rw [h]
  rw [hmodify, total_insert, total_of_lookup f h]
  abel

end Total

end UnorderedMap

/-! ## Nested maps -/

/-- A hash map of hash maps. -/
abbrev NestedMap (K : Type u) (L : Type v) (V : Type w) :=
  UnorderedMap K (UnorderedMap L V)

namespace NestedMap

variable {K : Type u} {L : Type v} {V : Type w} [DecidableEq K] [DecidableEq L]

/-- The inner map of `k`; `operator[]` default-constructs it when it is absent. -/
def row (m : NestedMap K L V) (k : K) : AList fun _ : L => V :=
  (m.lookup k).getD ∅

/-- The element under `k`, `l`. -/
def find? (m : NestedMap K L V) (k : K) (l : L) : Option V :=
  (row m k).lookup l

/-- `m[k].erase(l)`. -/
def erase (m : NestedMap K L V) (k : K) (l : L) : NestedMap K L V :=
  AList.insert k ((row m k).erase l) m

/-- `m[k][l] = x`. -/
def set (m : NestedMap K L V) (k : K) (l : L) (x : V) : NestedMap K L V :=
  AList.insert k ((row m k).insert l x) m

omit [DecidableEq L] in
theorem row_insert (m : NestedMap K L V) (k k' : K) (r : AList fun _ : L => V) :
    row (AList.insert k r m) k' = if k' = k then r else row m k' := by
  unfold row
  split_ifs with h
  · subst h
    rw [AList.lookup_insert, Option.getD_some]
  · rw [AList.lookup_insert_ne h]

@[simp] theorem find?_empty (k : K) (l : L) :
    find? (∅ : NestedMap K L V) k l = none := by
  simp [find?, row]

theorem find?_erase (m : NestedMap K L V) (k k' : K) (l l' : L) :
    find? (erase m k l) k' l' =
      if k' = k ∧ l' = l then none else find? m k' l' := by
  unfold find? erase
  rw [row_insert]
  by_cases hk : k' = k
  · subst hk
    by_cases hl : l' = l
    · subst hl
      simp
    · simp [hl, AList.lookup_erase_ne hl]
  · simp [hk]

theorem find?_set (m : NestedMap K L V) (k k' : K) (l l' : L) (x : V) :
    find? (set m k l x) k' l' =
      if k' = k ∧ l' = l then some x else find? m k' l' := by
  unfold find? set
  rw [row_insert]
  by_cases hk : k' = k
  · subst hk
    by_cases hl : l' = l
    · subst hl
      simp
    · simp [hl, AList.lookup_insert_ne hl]
  · simp [hk]

end NestedMap

/-! ## Priority queues -/

/-- A priority queue, as the elements that are in it. -/
abbrev PriorityQueue (α : Type u) := List α

namespace PriorityQueue

variable {α : Type u} {β : Type v} [LinearOrder β] (rank : α → β)

/-- `top()` may show `x`: nothing in the queue comes before it. -/
def IsTop (q : PriorityQueue α) (x : α) : Prop :=
  x ∈ q ∧ ∀ y ∈ q, rank x ≤ rank y

instance [DecidableEq α] (q : PriorityQueue α) (x : α) : Decidable (IsTop rank q x) :=
  inferInstanceAs (Decidable (x ∈ q ∧ ∀ y ∈ q, rank x ≤ rank y))

/-- A queue with an element in it has a top. -/
theorem exists_isTop {q : PriorityQueue α} (h : q ≠ []) : ∃ x, IsTop rank q x := by
  induction q with
  | nil => exact absurd rfl h
  | cons y q ih =>
      by_cases hq : q = []
      · subst hq
        refine ⟨y, List.mem_cons_self, fun z hz => ?_⟩
        rw [List.mem_singleton.mp hz]
      · obtain ⟨x, hx, hle⟩ := ih hq
        rcases le_total (rank x) (rank y) with hxy | hyx
        · exact ⟨x, List.mem_cons_of_mem y hx, List.forall_mem_cons.mpr ⟨hxy, hle⟩⟩
        · refine ⟨y, List.mem_cons_self, List.forall_mem_cons.mpr ⟨le_rfl, ?_⟩⟩
          intro z hz
          exact hyx.trans (hle z hz)

variable [DecidableEq α]

/-- `push`. -/
def push (q : PriorityQueue α) (x : α) : PriorityQueue α :=
  x :: q

/-- `pop` while `x` is at the top. -/
def pop (q : PriorityQueue α) (x : α) : PriorityQueue α :=
  q.erase x

omit [DecidableEq α] in
@[simp] theorem mem_push {q : PriorityQueue α} {x y : α} : y ∈ push q x ↔ y = x ∨ y ∈ q :=
  List.mem_cons

theorem mem_of_mem_pop {q : PriorityQueue α} {x y : α} (h : y ∈ pop q x) : y ∈ q :=
  List.mem_of_mem_erase h

/-- Only the top itself leaves. -/
theorem mem_pop_of_ne {q : PriorityQueue α} {x y : α} (hne : y ≠ x) : y ∈ pop q x ↔ y ∈ q :=
  List.mem_erase_of_ne hne

theorem length_pop {q : PriorityQueue α} {x : α} (h : x ∈ q) :
    (pop q x).length + 1 = q.length := by
  have hlength := List.length_erase_of_mem h
  have hpos := List.length_pos_of_mem h
  unfold pop
  omega

end PriorityQueue

/-! ## Loops that assign -/

section Assign

variable {S : Type u} {R : Type v} {K : Type w} {V : Type*} [DecidableEq K]

/-- The body of a loop over rows that assigns to a table: row `r` sets the entry
`key r`, if it has one, to `val r`, in every state that meets `P`. -/
structure Assigns (P : S → Prop) (load : S → R → S) (get : S → K → V) (key : R → Option K)
    (val : R → V) : Prop where
  keep : ∀ s r, P s → P (load s r)
  get_load : ∀ s r k, P s → get (load s r) k = if key r = some k then val r else get s k

namespace Assigns

variable {P : S → Prop} {load : S → R → S} {get : S → K → V} {key : R → Option K} {val : R → V}
  {s : S} {rows : List R} {k : K}

/-- **An entry at the end of the loop**: `v`, if a row sets it or it was `v` before, and
no row sets it to anything else. -/
theorem get_foldl (h : Assigns P load get key val) (hs : P s) {v : V}
    (hval : ∀ r ∈ rows, key r = some k → val r = v)
    (hset : (∃ r ∈ rows, key r = some k) ∨ get s k = v) : get (rows.foldl load s) k = v := by
  induction rows generalizing s with
  | nil => exact hset.resolve_left fun ⟨r, hr, _⟩ => by cases hr
  | cons r rows ih =>
      refine ih (h.keep s r hs) (fun r' hr' => hval r' (List.mem_cons_of_mem _ hr')) ?_
      rw [h.get_load s r k hs]
      split_ifs with hkey
      · exact Or.inr (hval r List.mem_cons_self hkey)
      · refine hset.imp_left ?_
        rintro ⟨r', hr', hkey'⟩
        rcases List.mem_cons.mp hr' with rfl | hrest
        · exact absurd hkey' hkey
        · exact ⟨r', hrest, hkey'⟩

end Assigns

end Assign

/-! ## Shared objects -/

/-- The address of a shared object. -/
abbrev Ptr := ℕ

/-- The objects behind shared pointers.  Addresses from `next` on are unused. -/
structure Heap (α : Type u) where
  /-- The object at an address. -/
  get : Ptr → α
  /-- The next address to hand out. -/
  next : Ptr

namespace Heap

variable {α : Type u}

/-- No object allocated yet. -/
def empty [Inhabited α] : Heap α := ⟨fun _ => default, 0⟩

/-- `make_shared`: the object lives at `h.next` afterwards. -/
def alloc (h : Heap α) (x : α) : Heap α :=
  ⟨Function.update h.get h.next x, h.next + 1⟩

/-- Write through a pointer. -/
def modify (h : Heap α) (p : Ptr) (f : α → α) : Heap α :=
  ⟨Function.update h.get p (f (h.get p)), h.next⟩

@[simp] theorem next_alloc (h : Heap α) (x : α) : (h.alloc x).next = h.next + 1 := rfl

@[simp] theorem get_alloc_self (h : Heap α) (x : α) : (h.alloc x).get h.next = x := by
  simp [alloc]

theorem get_alloc_of_lt (h : Heap α) (x : α) {p : Ptr} (hp : p < h.next) :
    (h.alloc x).get p = h.get p := by
  simp [alloc, Nat.ne_of_lt hp]

@[simp] theorem next_modify (h : Heap α) (p : Ptr) (f : α → α) :
    (h.modify p f).next = h.next := rfl

@[simp] theorem get_modify_self (h : Heap α) (p : Ptr) (f : α → α) :
    (h.modify p f).get p = f (h.get p) := by
  simp [modify]

theorem get_modify_of_ne (h : Heap α) {p q : Ptr} (f : α → α) (hne : q ≠ p) :
    (h.modify p f).get q = h.get q := by
  simp [modify, hne]

end Heap

end ExchangeServer.Lib
