import Mathlib.Data.List.GetD
import Mathlib.Order.Filter.AtTopBot.Basic
import Mathlib.Order.WellFounded
import ExchangeServer.Lib.Runs
import ExchangeServer.Lib.Totals

/-!
# Threads that work off what they are given

A system of threads takes work from the outside and hands it on until it is done.  A
`Workload` says so: a rank that every useful action of a thread lowers and only the
outside can raise, and for every thread when it is busy.  Three things follow.

* `work_le` — over a run, the useful actions are no more than the rank at the start and
  what was brought in.
* `drains` — whatever is left can be worked off: no state is a deadlock.
* `eventually_idle` — it is worked off in every unending run that is fair to busy threads,
  once nothing more is brought in.

Threads that find nothing to do may poll as often as they like.  What is asked of them is
to be honest (`Honest`): not to come back empty-handed from something that was there to be
taken.
-/

namespace ExchangeServer.Lib

open Filter

variable {S A T : Type*}

/-- A system of threads that work off what the outside brings in. -/
structure Workload (step : S → A → Option S) (T : Type*) where
  /-- What is known of every state. -/
  Inv : S → Prop
  Honest : S → A → Prop
  inv_step : ∀ {s a s'}, Inv s → Honest s a → step s a = some s' → Inv s'
  /-- The thread that takes an action, `none` if it comes from outside. -/
  thread : A → Option T
  Busy : T → S → Prop
  /-- The action gets something done. -/
  useful : S → A → Bool
  rank : S → ℕ
  /-- The work an action brings in. -/
  brings : A → ℕ
  brings_thread : ∀ {a t}, thread a = some t → brings a = 0
  rank_step : ∀ {s a s'}, Inv s → Honest s a → step s a = some s' →
    rank s' + (useful s a).toNat ≤ rank s + brings a
  useful_of_busy : ∀ {s a s' t}, thread a = some t → Busy t s → Honest s a →
    step s a = some s' → useful s a = true
  /-- Others leave a thread what it has to do. -/
  busy_step : ∀ {s a s' t}, Busy t s → thread a ≠ some t → step s a = some s' → Busy t s'
  able : ∀ {s t}, Inv s → Busy t s →
    ∃ a, thread a = some t ∧ Honest s a ∧ (step s a).isSome = true

/-- An unending run. -/
structure InfiniteRun (step : S → A → Option S) where
  state : ℕ → S
  action : ℕ → A
  moves : ∀ n, step (state n) (action n) = some (state (n + 1))

namespace Workload

variable {step : S → A → Option S} (w : Workload step T) {s s' : S} {as : List A}

/-- How many actions of a run get something done. -/
def worked (s : S) (as : List A) : ℕ :=
  follow (fun s a n => n + (w.useful s a).toNat) step s 0 as

/-- What a run brings in. -/
def brought (as : List A) : ℕ :=
  total w.brings as

/-! ## Finite runs -/

/-- **Nothing but what is brought in is worked off.** -/
theorem work_le (hinv : w.Inv s) (hhonest : Along step w.Honest s as)
    (hrun : runs step s as = some s') :
    w.worked s as + w.rank s' ≤ w.rank s + w.brought as := by
  suffices h : ∀ n, follow (fun s a n => n + (w.useful s a).toNat) step s n as + w.rank s'
      ≤ n + w.rank s + w.brought as by
    have hzero := h 0
    rw [Nat.zero_add] at hzero
    exact hzero
  induction as generalizing s with
  | nil =>
      obtain rfl := Option.some.inj hrun
      exact fun n => Nat.le_refl _
  | cons a as ih =>
      intro n
      obtain ⟨t, ht, hrest⟩ := runs_cons hrun
      have hfirst := w.rank_step hinv hhonest.1 ht
      have hlater := ih (w.inv_step hinv hhonest.1 ht) (hhonest.2 t ht) hrest
        (n + (w.useful s a).toNat)
      have hnotes : follow (fun s a n => n + (w.useful s a).toNat) step s n (a :: as)
          = follow (fun s a n => n + (w.useful s a).toNat) step t
              (n + (w.useful s a).toNat) as := by
        simp only [follow, ht]
      have hbrought : w.brought (a :: as) = w.brings a + w.brought as := total_cons ..
      rw [hnotes, hbrought]
      omega

theorem inv_runs (hinv : w.Inv s) (hhonest : Along step w.Honest s as)
    (hrun : runs step s as = some s') : w.Inv s' :=
  runs_induction_along (fun _ _ _ h => w.inv_step h) as hinv hhonest hrun

/-- A busy thread's action lowers the rank. -/
theorem rank_lt {a : A} {t : T} (hinv : w.Inv s) (hhonest : w.Honest s a)
    (hthread : w.thread a = some t) (hbusy : w.Busy t s) (hstep : step s a = some s') :
    w.rank s' < w.rank s := by
  have hrank := w.rank_step hinv hhonest hstep
  rw [w.useful_of_busy hthread hbusy hhonest hstep, w.brings_thread hthread] at hrank
  exact hrank

/-- **Whatever is left can be worked off** by the threads themselves. -/
theorem drains (hinv : w.Inv s) : ∃ as s', runs step s as = some s' ∧ as.length ≤ w.rank s ∧
    (∀ a ∈ as, (w.thread a).isSome) ∧ Along step w.Honest s as ∧ ∀ t, ¬ w.Busy t s' := by
  induction hn : w.rank s using Nat.strong_induction_on generalizing s with
  | _ n ih =>
      by_cases hidle : ∀ t, ¬ w.Busy t s
      · exact ⟨[], s, rfl, Nat.zero_le _, by simp, trivial, hidle⟩
      obtain ⟨t, hbusy⟩ := not_forall_not.mp hidle
      obtain ⟨a, hthread, hhonest, hable⟩ := w.able hinv hbusy
      obtain ⟨s₁, hstep⟩ := Option.isSome_iff_exists.mp hable
      have hlt := w.rank_lt hinv hhonest hthread hbusy hstep
      obtain ⟨as, s', hrun, hlength, hthreads, halong, hdone⟩ :=
        ih _ (hn ▸ hlt) (w.inv_step hinv hhonest hstep) rfl
      refine ⟨a :: as, s', ?_, ?_, ?_, ⟨hhonest, ?_⟩, hdone⟩
      · rw [runs, hstep]
        exact hrun
      · rw [List.length_cons]
        omega
      · intro b hb
        rcases List.mem_cons.mp hb with rfl | hb
        · rw [hthread]
          rfl
        · exact hthreads b hb
      · intro s₂ hs₂
        obtain rfl := Option.some.inj (hstep.symm.trans hs₂)
        exact halong

/-! ## Unending runs -/

section Infinite

variable {w} (r : InfiniteRun step)

theorem inv_infinite (hinv : w.Inv (r.state 0)) (hhonest : ∀ n, w.Honest (r.state n) (r.action n))
    (n : ℕ) : w.Inv (r.state n) := by
  induction n with
  | zero => exact hinv
  | succ n ih => exact w.inv_step ih (hhonest n) (r.moves n)

/-- Once nothing is brought in, only so much gets done. -/
theorem eventually_useless (hinv : w.Inv (r.state 0))
    (hhonest : ∀ n, w.Honest (r.state n) (r.action n))
    (hquiet : ∀ᶠ n in atTop, (w.thread (r.action n)).isSome) :
    ∀ᶠ n in atTop, (w.thread (r.action n)).isSome ∧
      w.useful (r.state n) (r.action n) = false := by
  obtain ⟨N, hN⟩ := eventually_atTop.mp hquiet
  have hstep : ∀ n, N ≤ n →
      w.rank (r.state (n + 1)) + (w.useful (r.state n) (r.action n)).toNat
        ≤ w.rank (r.state n) := by
    intro n hn
    obtain ⟨t, ht⟩ := Option.isSome_iff_exists.mp (hN n hn)
    have hrank := w.rank_step (inv_infinite r hinv hhonest n) (hhonest n) (r.moves n)
    rwa [w.brings_thread ht, Nat.add_zero] at hrank
  -- the lowest rank that is ever reached
  obtain ⟨v, ⟨M, hM, rfl⟩, hmin⟩ := wellFounded_lt.has_min
    {v | ∃ n, N ≤ n ∧ w.rank (r.state n) = v} ⟨_, N, Nat.le_refl N, rfl⟩
  have hlow : ∀ n, M ≤ n → w.rank (r.state n) ≤ w.rank (r.state M) := by
    intro n hn
    induction n, hn using Nat.le_induction with
    | base => exact Nat.le_refl _
    | succ n hn ih => exact (Nat.le_of_add_right_le (hstep n (hM.trans hn))).trans ih
  refine eventually_atTop.mpr ⟨M, fun n hn => ⟨hN n (hM.trans hn), ?_⟩⟩
  by_contra huseful
  rw [Bool.not_eq_false] at huseful
  have hdrop := hstep n (hM.trans hn)
  rw [huseful, Bool.toNat_true] at hdrop
  have hle := hlow n hn
  have hnext : ¬ w.rank (r.state (n + 1)) < w.rank (r.state M) :=
    hmin _ ⟨n + 1, by omega, rfl⟩
  omega

/-- **Everything gets done.**  In a run in which no busy thread is left waiting for ever,
nobody is busy in the end, once nothing more is brought in. -/
theorem eventually_idle (hinv : w.Inv (r.state 0))
    (hhonest : ∀ n, w.Honest (r.state n) (r.action n))
    (hquiet : ∀ᶠ n in atTop, (w.thread (r.action n)).isSome)
    (hfair : ∀ t, (∀ᶠ n in atTop, w.Busy t (r.state n)) →
      ∃ᶠ n in atTop, w.thread (r.action n) = some t) :
    ∀ᶠ n in atTop, ∀ t, ¬ w.Busy t (r.state n) := by
  obtain ⟨N, hN⟩ := eventually_atTop.mp (eventually_useless r hinv hhonest hquiet)
  refine eventually_atTop.mpr ⟨N, fun n hn t hbusy => ?_⟩
  -- an action of a busy thread would be useful
  have hothers : ∀ m, N ≤ m → w.Busy t (r.state m) → w.thread (r.action m) ≠ some t := by
    intro m hm hbusy ht
    have huseful := w.useful_of_busy ht hbusy (hhonest m) (r.moves m)
    rw [(hN m hm).2] at huseful
    cases huseful
  have hstays : ∀ m, n ≤ m → w.Busy t (r.state m) := by
    intro m hm
    induction m, hm using Nat.le_induction with
    | base => exact hbusy
    | succ m hm ih => exact w.busy_step ih (hothers m (hn.trans hm) ih) (r.moves m)
  obtain ⟨m, hm, ht⟩ := (frequently_atTop.mp (hfair t (eventually_atTop.mpr ⟨n, hstays⟩))) n
  exact hothers m (hn.trans hm) (hstays m hm) ht

end Infinite

end Workload

/-! ## Runs that come to rest -/

section Ending

variable {step : S → A → Option S} {s s' : S} {as : List A} {a : A}

/-- In the middle of a run that meets a condition. -/
theorem Along.of_append {P : S → A → Prop} {pre post : List A} {t : S}
    (h : Along step P s (pre ++ a :: post)) (hrun : runs step s pre = some t) : P t a := by
  induction pre generalizing s with
  | nil =>
      obtain rfl := Option.some.inj hrun
      exact h.1
  | cons b pre ih =>
      obtain ⟨u, hu, hrest⟩ := runs_cons hrun
      exact ih (h.2 u hu) hrest

/-- The states before and after the `n`-th action. -/
theorem runs_take (hrun : runs step s as = some s') {n : ℕ} (hn : n < as.length) :
    ∃ t u, runs step s (as.take n) = some t ∧ step t as[n] = some u ∧
      runs step s (as.take (n + 1)) = some u := by
  have hsplit : as.take n ++ as[n] :: as.drop (n + 1) = as := by
    rw [List.getElem_cons_drop, List.take_append_drop]
  rw [← hsplit, runs_append] at hrun
  obtain ⟨t, ht, hrest⟩ := Option.bind_eq_some_iff.mp hrun
  obtain ⟨u, hu, -⟩ := runs_cons hrest
  refine ⟨t, u, ht, hu, ?_⟩
  rw [List.take_succ_eq_append_getElem hn, runs_append, ht, Option.bind_some, runs, hu]
  rfl

namespace InfiniteRun

/-- A run that ends with the same idle action again and again. -/
def ending (hrun : runs step s as = some s') (hidle : step s' a = some s') :
    InfiniteRun step where
  state n := (runs step s (as.take n)).getD s'
  action n := as.getD n a
  moves n := by
    by_cases hn : n < as.length
    · obtain ⟨t, u, ht, hu, hnext⟩ := runs_take hrun hn
      rw [ht, hnext, List.getD_eq_getElem _ _ hn]
      exact hu
    · rw [List.take_of_length_le (by omega), List.take_of_length_le (by omega), hrun,
        List.getD_eq_default _ _ (by omega)]
      exact hidle

variable (hrun : runs step s as = some s') (hidle : step s' a = some s')

theorem ending_state_zero : (ending hrun hidle).state 0 = s := rfl

theorem ending_action {n : ℕ} (hn : as.length ≤ n) : (ending hrun hidle).action n = a :=
  List.getD_eq_default _ _ hn

theorem ending_state {n : ℕ} (hn : as.length ≤ n) : (ending hrun hidle).state n = s' := by
  show (runs step s (as.take n)).getD s' = s'
  rw [List.take_of_length_le hn, hrun]
  rfl

/-- What holds along the run and of the idle action holds throughout. -/
theorem ending_along {P : S → A → Prop} (halong : Along step P s as) (hlast : P s' a) (n : ℕ) :
    P ((ending hrun hidle).state n) ((ending hrun hidle).action n) := by
  by_cases hn : n < as.length
  · obtain ⟨t, u, ht, -, -⟩ := runs_take hrun hn
    have hstate : (ending hrun hidle).state n = t := congrArg (Option.getD · s') ht
    have haction : (ending hrun hidle).action n = as[n] := List.getD_eq_getElem _ _ hn
    have hmiddle : Along step P s (as.take n ++ as[n] :: as.drop (n + 1)) := by
      rwa [List.getElem_cons_drop, List.take_append_drop]
    rw [hstate, haction]
    exact hmiddle.of_append ht
  · rw [ending_state hrun hidle (Nat.le_of_not_lt hn),
      ending_action hrun hidle (Nat.le_of_not_lt hn)]
    exact hlast

end InfiniteRun

end Ending

end ExchangeServer.Lib
