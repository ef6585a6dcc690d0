import Mathlib.Data.List.Basic
import Mathlib.Data.List.Induction

/-!
# Runs of a partial step function

A component that takes actions one after the other is a step function
`S → A → Option S`: an action that is not enabled in a state has no successor.
`runs` performs a list of actions, and `runs_induction` is the rule by which an
invariant of single steps becomes one of all runs.  `Along` says that every action
of a run meets a condition on the state it is taken in, and
`runs_induction_along` is the rule for such runs.

An observer of a run keeps notes that the component itself does not have.  `follow`
is what it has written down at the end, and `follow_induction` relates the notes to
the state.
-/

namespace ExchangeServer.Lib

variable {S A : Type*} (step : S → A → Option S)

/-- Perform the actions in order; `none` as soon as one is not enabled. -/
def runs : S → List A → Option S
  | s, [] => some s
  | s, a :: as => (step s a).bind (runs · as)

/-- Where the actions lead, for a run that is known to exist. -/
def runsTo (s : S) (as : List A) : S :=
  (runs step s as).getD s

theorem runs_eq_runsTo {s : S} {as : List A} (h : (runs step s as).isSome = true) :
    runs step s as = some (runsTo step s as) := by
  obtain ⟨s', hs'⟩ := Option.isSome_iff_exists.mp h
  rw [runsTo, hs', Option.getD_some]

variable {step}

/-- A run splits at its first action. -/
theorem runs_cons {s s' : S} {a : A} {as : List A} (h : runs step s (a :: as) = some s') :
    ∃ t, step s a = some t ∧ runs step t as = some s' :=
  Option.bind_eq_some_iff.mp h

/-- **The invariant rule.**  What holds at the start and is kept by every enabled
action holds after every run. -/
theorem runs_induction {P : S → Prop} (hstep : ∀ s a s', P s → step s a = some s' → P s')
    {s s' : S} (as : List A) (hstart : P s) (h : runs step s as = some s') : P s' := by
  induction as generalizing s with
  | nil => exact Option.some.inj h ▸ hstart
  | cons a as ih =>
      obtain ⟨t, ht, hrest⟩ := runs_cons h
      exact ih (hstep s a t hstart ht) hrest

/-- Every action of the run meets `P` in the state it is taken in. -/
def Along (step : S → A → Option S) (P : S → A → Prop) : S → List A → Prop
  | _, [] => True
  | s, a :: as => P s a ∧ ∀ s', step s a = some s' → Along step P s' as

instance Along.decidable {P : S → A → Prop} [∀ s a, Decidable (P s a)] :
    (s : S) → (as : List A) → Decidable (Along step P s as)
  | _, [] => isTrue trivial
  | s, a :: as =>
      match h : step s a with
      | none => decidable_of_iff (P s a) ⟨fun hP => ⟨hP, fun s' hs => by simp [h] at hs⟩, And.left⟩
      | some s' =>
          haveI : Decidable (Along step P s' as) := Along.decidable s' as
          decidable_of_iff (P s a ∧ Along step P s' as)
            ⟨fun hP => ⟨hP.1, fun s'' hs => by
              obtain rfl := Option.some.inj (h.symm.trans hs)
              exact hP.2⟩, fun hP => ⟨hP.1, hP.2 s' h⟩⟩

theorem along_of_forall {P : S → A → Prop} (h : ∀ s a, P s a) (s : S) (as : List A) :
    Along step P s as := by
  induction as generalizing s with
  | nil => trivial
  | cons a as ih => exact ⟨h s a, fun s' _ => ih s'⟩

/-- Every action meets the condition, whatever the state. -/
theorem along_of_forall_mem {P : A → Prop} {as : List A} (h : ∀ a ∈ as, P a) (s : S) :
    Along step (fun _ a => P a) s as := by
  induction as generalizing s with
  | nil => trivial
  | cons a as ih =>
      obtain ⟨hfirst, hlater⟩ := List.forall_mem_cons.mp h
      exact ⟨hfirst, fun s' _ => ih hlater s'⟩

theorem Along.cons {P : S → A → Prop} {s t : S} {a : A} {as : List A} (hP : P s a)
    (hstep : step s a = some t) (h : Along step P t as) : Along step P s (a :: as) := by
  refine ⟨hP, fun s' hs => ?_⟩
  obtain rfl := Option.some.inj (hstep.symm.trans hs)
  exact h

theorem Along.mono {P Q : S → A → Prop} {s : S} {as : List A} (h : Along step P s as)
    (hPQ : ∀ s a, P s a → Q s a) : Along step Q s as := by
  induction as generalizing s with
  | nil => trivial
  | cons a as ih => exact ⟨hPQ s a h.1, fun s' hs => ih (h.2 s' hs)⟩

theorem Along.and {P Q : S → A → Prop} {s : S} {as : List A} (hP : Along step P s as)
    (hQ : Along step Q s as) : Along step (fun s a => P s a ∧ Q s a) s as := by
  induction as generalizing s with
  | nil => trivial
  | cons a as ih => exact ⟨⟨hP.1, hQ.1⟩, fun s' hs => ih (hP.2 s' hs) (hQ.2 s' hs)⟩

/-- The invariant rule for runs whose actions meet a condition. -/
theorem runs_induction_along {P : S → A → Prop} {I : S → Prop}
    (hstep : ∀ s a s', I s → P s a → step s a = some s' → I s') {s s' : S} (as : List A)
    (hstart : I s) (hP : Along step P s as) (h : runs step s as = some s') : I s' := by
  induction as generalizing s with
  | nil => exact Option.some.inj h ▸ hstart
  | cons a as ih =>
      obtain ⟨t, ht, hrest⟩ := runs_cons h
      exact ih (hstep s a t hstart hP.1 ht) (hP.2 t ht) hrest

theorem runs_append (s : S) (as bs : List A) :
    runs step s (as ++ bs) = (runs step s as).bind (runs step · bs) := by
  induction as generalizing s with
  | nil => rfl
  | cons a as ih =>
      rw [List.cons_append, runs, runs, Option.bind_assoc]
      exact congrArg (Option.bind (step s a)) (funext fun t => ih t)

/-- A run splits at its last action. -/
theorem runs_snoc {s s' : S} {a : A} {as : List A}
    (h : runs step s (as ++ [a]) = some s') :
    ∃ t, runs step s as = some t ∧ step t a = some s' := by
  rw [runs_append] at h
  obtain ⟨t, ht, hlast⟩ := Option.bind_eq_some_iff.mp h
  obtain ⟨t', ht', hnil⟩ := runs_cons hlast
  exact ⟨t, ht, ht'.trans hnil⟩

/-! ## Observers -/

variable {N : Type*} (note : S → A → N → N)

/-- The notes at the end of a run.  `note` sees an action and the state it is taken
in. -/
def follow (step : S → A → Option S) : S → N → List A → N
  | _, n, [] => n
  | s, n, a :: as =>
      match step s a with
      | none => n
      | some s' => follow step s' (note s a n) as

variable {note}

/-- **The invariant rule with notes**, for runs whose actions meet a condition. -/
theorem follow_induction_along {P : S → A → Prop} {I : S → N → Prop}
    (hstep : ∀ s n a s', I s n → P s a → step s a = some s' → I s' (note s a n))
    {s s' : S} {n : N} (as : List A) (hstart : I s n) (hP : Along step P s as)
    (h : runs step s as = some s') : I s' (follow note step s n as) := by
  induction as generalizing s n with
  | nil => exact Option.some.inj h ▸ hstart
  | cons a as ih =>
      obtain ⟨t, ht, hrest⟩ := runs_cons h
      have hnotes : follow note step s n (a :: as) = follow note step t (note s a n) as := by
        simp only [follow, ht]
      rw [hnotes]
      exact ih (hstep s n a t hstart hP.1 ht) (hP.2 t ht) hrest

/-- **The invariant rule with notes.** -/
theorem follow_induction {I : S → N → Prop}
    (hstep : ∀ s n a s', I s n → step s a = some s' → I s' (note s a n))
    {s s' : S} {n : N} (as : List A) (hstart : I s n) (h : runs step s as = some s') :
    I s' (follow note step s n as) :=
  follow_induction_along (P := fun _ _ => True) (fun s n a s' hI _ => hstep s n a s' hI) as
    hstart (along_of_forall (fun _ _ => trivial) s as) h

theorem follow_snoc {s t s' : S} {n : N} {a : A} {as : List A}
    (hrun : runs step s as = some t) (hlast : step t a = some s') :
    follow note step s n (as ++ [a]) = note t a (follow note step s n as) := by
  induction as generalizing s n with
  | nil =>
      obtain rfl := Option.some.inj hrun
      simp only [List.nil_append, follow, hlast]
  | cons b as ih =>
      obtain ⟨u, hu, hrest⟩ := runs_cons hrun
      simp only [List.cons_append, follow, hu]
      exact ih hrest

/-- **The invariant rule for a fixed start.**  The invariant may speak of the actions
taken so far, and what is known of every run may be used in the step. -/
theorem runs_reachable {I : List A → S → Prop} {s₀ s : S} (as : List A) (hstart : I [] s₀)
    (hstep : ∀ as s a s', runs step s₀ as = some s → I as s → step s a = some s' →
      I (as ++ [a]) s')
    (h : runs step s₀ as = some s) : I as s := by
  induction as using List.reverseRecOn generalizing s with
  | nil => exact Option.some.inj h ▸ hstart
  | append_singleton as a ih =>
      obtain ⟨t, hrun, hlast⟩ := runs_snoc h
      exact hstep as t a s hrun (ih hrun) hlast

theorem Along.snoc {P : S → A → Prop} {s t : S} {a : A} {as : List A} (h : Along step P s as)
    (hrun : runs step s as = some t) (hP : P t a) : Along step P s (as ++ [a]) := by
  induction as generalizing s with
  | nil =>
      obtain rfl := Option.some.inj hrun
      exact ⟨hP, fun _ _ => trivial⟩
  | cons b as ih =>
      obtain ⟨u, hu, hrest⟩ := runs_cons hrun
      exact Along.cons h.1 hu (ih (h.2 u hu) hrest)

/-- The invariant rule for a fixed start and runs whose actions meet a condition: what is
known of every such run may be used in the step. -/
theorem runs_reachable_along {P : S → A → Prop} {I : S → Prop} {s₀ s : S} (as : List A)
    (hstart : I s₀)
    (hstep : ∀ as s a s', Along step P s₀ as → runs step s₀ as = some s → I s → P s a →
      step s a = some s' → I s')
    (hP : Along step P s₀ as) (h : runs step s₀ as = some s) : I s := by
  refine (runs_induction_along (P := P)
    (I := fun s => ∃ as, Along step P s₀ as ∧ runs step s₀ as = some s ∧ I s) ?_ as
    ⟨[], trivial, rfl, hstart⟩ hP h).elim fun _ h => h.2.2
  rintro s a s' ⟨before, halong, hrun, hI⟩ hPa hlast
  refine ⟨before ++ [a], halong.snoc hrun hPa, ?_, hstep before s a s' halong hrun hI hPa hlast⟩
  rw [runs_append, hrun, Option.bind_some, runs, hlast, Option.bind_some, runs]

end ExchangeServer.Lib
