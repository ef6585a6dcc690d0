import Mathlib.Data.List.Dedup
import Mathlib.Data.List.DropRight
import Mathlib.Data.List.Sort
import ExchangeServer.Lib.Containers

/-!
# Sorted sets

The sorted sets of Redis, over members of any linear order: each member has one score,
adding a member again only changes its score, and the set is listed by score.

`zrevrange_foldl` says what is listed after members have been added one after the other
with growing scores: each member once, in the place of its last addition.
-/

namespace ExchangeServer.Lib

/-- The score of every member. -/
abbrev SortedSet (α : Type*) := UnorderedMap α ℕ

namespace SortedSet

variable {α : Type*} [LinearOrder α]

/-- `ZADD`. -/
def zadd (z : SortedSet α) (score : ℕ) (member : α) : SortedSet α :=
  AList.insert member score z

/-- The order of `ZREVRANGE`: by descending score, and members of one score in
descending order. -/
def Before (a b : α × ℕ) : Prop :=
  b.2 < a.2 ∨ (b.2 = a.2 ∧ b.1 ≤ a.1)

instance : DecidableRel (Before (α := α)) := fun a b => by
  unfold Before
  infer_instance

instance : Std.Total (Before (α := α)) where
  total a b := by
    unfold Before
    rcases lt_trichotomy a.2 b.2 with h | h | h
    · exact Or.inr (Or.inl h)
    · rcases le_total a.1 b.1 with hle | hle
      · exact Or.inr (Or.inr ⟨h, hle⟩)
      · exact Or.inl (Or.inr ⟨h.symm, hle⟩)
    · exact Or.inl (Or.inl h)

instance : IsTrans (α × ℕ) Before where
  trans a b c hab hbc := by
    unfold Before at *
    rcases hab with hab | ⟨hab, hle⟩ <;> rcases hbc with hbc | ⟨hbc, hle'⟩
    · exact Or.inl (hbc.trans hab)
    · exact Or.inl (hbc ▸ hab)
    · exact Or.inl (hab ▸ hbc)
    · exact Or.inr ⟨hbc.trans hab, hle'.trans hle⟩

theorem Before.antisymm {a b : α × ℕ} (hab : Before a b) (hba : Before b a) : a = b := by
  unfold Before at *
  rcases hab with hab | ⟨hab, hle⟩ <;> rcases hba with hba | ⟨hba, hle'⟩
  · exact absurd hba hab.asymm
  · exact absurd hba.symm hab.ne
  · exact absurd hab.symm hba.ne
  · exact Prod.ext (le_antisymm hle' hle) hba

/-- The members with their scores, in the order of `ZREVRANGE`. -/
def listing (z : SortedSet α) : List (α × ℕ) :=
  (z.entries.map fun e => (e.1, e.2)).insertionSort Before

/-- `ZREVRANGE`, for indices that are not negative. -/
def zrevrange (z : SortedSet α) (start stop : ℕ) : List α :=
  ((z.listing.map Prod.fst).drop start).take (stop + 1 - start)

/-! ## Additions -/

/-- Members added one after the other. -/
def zaddAll (z : SortedSet α) (adds : List (α × ℕ)) : SortedSet α :=
  adds.foldl (fun z e => z.zadd e.2 e.1) z

/-- The additions that no later one of the same member has replaced. -/
def current (adds : List (α × ℕ)) : List (α × ℕ) :=
  adds.foldl (fun kept e => kept.filter (fun k => k.1 ≠ e.1) ++ [e]) []

theorem current_snoc (adds : List (α × ℕ)) (e : α × ℕ) :
    current (adds ++ [e]) = (current adds).filter (fun k => k.1 ≠ e.1) ++ [e] := by
  simp [current]

theorem current_subset (adds : List (α × ℕ)) : current adds ⊆ adds := by
  induction adds using List.reverseRecOn with
  | nil => exact List.Subset.refl _
  | append_singleton adds e ih =>
      rw [current_snoc]
      exact List.append_subset.mpr
        ⟨fun k hk => List.mem_append_left _ (ih (List.mem_of_mem_filter hk)),
          List.subset_append_right _ _⟩

theorem mem_current_iff (adds : List (α × ℕ)) (e : α × ℕ) :
    e ∈ current adds ↔ (zaddAll ∅ adds).lookup e.1 = some e.2 := by
  induction adds using List.reverseRecOn with
  | nil => simp [current, zaddAll]
  | append_singleton adds e' ih =>
      have hlookup : (zaddAll ∅ (adds ++ [e'])).lookup e.1
          = if e.1 = e'.1 then some e'.2 else (zaddAll ∅ adds).lookup e.1 := by
        unfold zaddAll
        rw [List.foldl_append]
        exact UnorderedMap.lookup_insert_eq ..
      rw [current_snoc, hlookup, List.mem_append, List.mem_filter, List.mem_singleton, ih]
      obtain ⟨m, s⟩ := e
      obtain ⟨m', s'⟩ := e'
      by_cases hm : m = m'
      · simp [hm, eq_comm]
      · simp [hm]

section Growing

variable {adds : List (α × ℕ)} (hscores : adds.Pairwise fun e e' => e.2 < e'.2)
include hscores

theorem current_sorted : (current adds).Pairwise fun e e' => e.2 < e'.2 := by
  induction adds using List.reverseRecOn with
  | nil => exact List.Pairwise.nil
  | append_singleton adds e ih =>
      obtain ⟨hadds, -, hlast⟩ := List.pairwise_append.mp hscores
      rw [current_snoc]
      refine List.pairwise_append.mpr ⟨(ih hadds).sublist List.filter_sublist, by simp, ?_⟩
      intro k hk e' he'
      exact hlast k (current_subset adds (List.mem_of_mem_filter hk)) e' he'

/-- **The listing after additions with growing scores.** -/
theorem listing_zaddAll : (zaddAll ∅ adds).listing = (current adds).reverse := by
  have hsorted := current_sorted hscores
  have hreverse : (current adds).reverse.Pairwise Before :=
    List.pairwise_reverse.mpr (hsorted.imp fun h => Or.inl h)
  have hnodup : (current adds).Nodup := by
    refine hsorted.imp fun hlt => ?_
    rintro rfl
    exact lt_irrefl _ hlt
  have hentries : ((zaddAll ∅ adds).entries.map fun e => (e.1, e.2)).Nodup := by
    refine List.Nodup.map (fun e e' h => ?_) ((zaddAll ∅ adds).nodupKeys.nodup)
    obtain ⟨h₁, h₂⟩ := Prod.mk.inj h
    exact Sigma.ext h₁ (heq_of_eq h₂)
  have hperm : ((zaddAll ∅ adds).entries.map fun e => (e.1, e.2)).Perm (current adds) := by
    refine (List.perm_ext_iff_of_nodup hentries hnodup).mpr fun e => ?_
    rw [mem_current_iff, ← UnorderedMap.mem_entries_iff, List.mem_map]
    constructor
    · rintro ⟨e', he', rfl⟩
      exact he'
    · intro he
      exact ⟨_, he, rfl⟩
  refine List.Perm.eq_of_pairwise (fun a b _ _ hab hba => hab.antisymm hba)
    (List.pairwise_insertionSort Before _) hreverse ?_
  exact (List.perm_insertionSort Before _).trans (hperm.trans (List.reverse_perm _).symm)

end Growing

theorem dedup_snoc (l : List α) (a : α) :
    (l ++ [a]).dedup = l.dedup.filter (fun b => b ≠ a) ++ [a] := by
  induction l with
  | nil => simp
  | cons b l ih =>
      rw [List.cons_append]
      by_cases hb : b ∈ l
      · rw [List.dedup_cons_of_mem (List.mem_append_left _ hb), List.dedup_cons_of_mem hb, ih]
      · by_cases hba : b = a
        · subst hba
          rw [List.dedup_cons_of_mem (by simp), List.dedup_cons_of_notMem hb, ih]
          simp
        · rw [List.dedup_cons_of_notMem (by simp [hb, hba]), List.dedup_cons_of_notMem hb, ih]
          simp [hba]

/-- The last elements of a list stay the last ones when repetitions are left out, if they
are different. -/
theorem rtake_dedup {α : Type*} [DecidableEq α] {l : List α} {k : ℕ} (h : (l.rtake k).Nodup) :
    l.dedup.rtake k = l.rtake k := by
  rcases Nat.lt_or_ge l.length k with hk | hk
  · have hall : l.rtake k = l := by
      rw [List.rtake, Nat.sub_eq_zero_of_le hk.le, List.drop_zero]
    rw [hall] at h
    rw [h.dedup]
  · have hsplit : l.take (l.length - k) ++ l.rtake k = l := List.take_append_drop _ _
    have hsuffix : l.rtake k <:+ l.dedup := by
      have hdedup := List.dedup_append (l.take (l.length - k)) (l.rtake k)
      rw [hsplit, h.dedup] at hdedup
      rw [hdedup]
      exact List.suffix_union_right _ _
    obtain ⟨front, hfront⟩ := hsuffix
    have hlength : (l.rtake k).length = k := by
      rw [List.rtake, List.length_drop]
      omega
    have hdrop : (front ++ l.rtake k).length - k = front.length := by
      rw [List.length_append, hlength, Nat.add_sub_cancel]
    rw [← hfront, List.rtake, hdrop, List.drop_left]

theorem map_fst_current (adds : List (α × ℕ)) :
    (current adds).map Prod.fst = (adds.map Prod.fst).dedup := by
  induction adds using List.reverseRecOn with
  | nil => rfl
  | append_singleton adds e ih =>
      rw [current_snoc, List.map_append, List.map_append, List.map_singleton, dedup_snoc, ← ih,
        List.filter_map]
      rfl

/-- **`ZREVRANGE` after additions with growing scores**: every member once, in the place
of its last addition, newest first. -/
theorem zrevrange_zaddAll {adds : List (α × ℕ)}
    (hscores : adds.Pairwise fun e e' => e.2 < e'.2) (stop : ℕ) :
    (zaddAll ∅ adds).zrevrange 0 stop = (adds.map Prod.fst).dedup.reverse.take (stop + 1) := by
  rw [zrevrange, listing_zaddAll hscores, List.map_reverse, map_fst_current, List.drop_zero]
  rfl

end SortedSet

end ExchangeServer.Lib
