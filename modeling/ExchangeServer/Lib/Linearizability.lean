import Mathlib.Logic.Function.Basic
import Mathlib.Data.List.Basic
import ExchangeServer.Lib.Runs

/-!
# Linearizability

Threads call an object and get answers; what an observer sees is the `CallEvent`s, in
the order in which they happen.  `spec s c s' r` is what the object promises of one
call on its own: in state `s` the call `c` may be answered with `r` and leave `s'`.

A history is linearizable when every call can be given one instant between its
begin and its end at which it takes effect as `spec` says (`Possible`).  Where
several choices of instants explain what has been seen so far, all of them are
possible; a proof may have to carry more than one, because which of them is right
can depend on what happens later.
-/

namespace ExchangeServer.Lib

variable {T C R S : Type*}

/-- What is seen of an object. -/
inductive CallEvent (T C R : Type*) where
  | call (t : T) (c : C)
  | ret (t : T) (r : R)

/-- Where a thread stands: its call has not yet taken effect while it is `pending`. -/
inductive CallStatus (C R : Type*) where
  | idle
  | pending (c : C)
  | done (r : R)

/-! ## One order for all calls -/

/-- The calls are made one after the other, by the threads that are named. -/
inductive Sequential (spec : S → C → S → R → Prop) (s₀ : S) : List (T × C × R) → S → Prop
  | nil : Sequential spec s₀ [] s₀
  | snoc {ops s s'} {t : T} {c : C} {r : R} : Sequential spec s₀ ops s → spec s c s' r →
      Sequential spec s₀ (ops ++ [(t, c, r)]) s'

variable [DecidableEq T]

/-- The thread of an event. -/
def CallEvent.thread : CallEvent T C R → T
  | .call t _ => t
  | .ret t _ => t

/-- The events of one thread. -/
def ofThread (t : T) (h : List (CallEvent T C R)) : List (CallEvent T C R) :=
  h.filter fun e => e.thread = t

/-- What is seen of thread `t` when it makes its calls of `ops` one after the other. -/
def eventsOf (t : T) : List (T × C × R) → List (CallEvent T C R)
  | [] => []
  | (u, c, r) :: ops =>
      if u = t then .call t c :: .ret t r :: eventsOf t ops else eventsOf t ops

namespace CallStatus

/-- The call that has begun without taking effect. -/
def opened (t : T) : CallStatus C R → List (CallEvent T C R)
  | .pending c => [.call t c]
  | _ => []

/-- The answer of the call that has taken effect without having ended. -/
def owed (t : T) : CallStatus C R → List (CallEvent T C R)
  | .done r => [.ret t r]
  | _ => []

end CallStatus

/-- Every thread makes its calls of `ops` in their order: its events are their begins
and ends, up to the call that it is in. -/
def Agrees (h : List (CallEvent T C R)) (ops : List (T × C × R)) (σ : T → CallStatus C R) : Prop :=
  ∀ t, ofThread t h ++ (σ t).owed t = eventsOf t ops ++ (σ t).opened t

/-- **Linearizability.**  The calls of the history take effect one after the other, as
`spec` says, and leave `s`.  At every earlier point of the history a first part of them
had taken effect, with every call that had ended and none that had not begun. -/
def Linearizable (spec : S → C → S → R → Prop) (s₀ : S) (h : List (CallEvent T C R)) (s : S) :
    Prop :=
  ∃ ops, Sequential spec s₀ ops s ∧
    ∀ h', h' <+: h → ∃ ops' σ, ops' <+: ops ∧ Agrees h' ops' σ

/-! ## Possibilities -/

section Possible

variable (spec : S → C → S → R → Prop) (s₀ : S)

/-- After the history `h` the object may be in state `s` with its threads where `σ`
says.  Calls take effect at the `commit`s. -/
inductive Possible : List (CallEvent T C R) → S → (T → CallStatus C R) → Prop
  | start : Possible [] s₀ fun _ => .idle
  | call {h s σ} (t : T) (c : C) : Possible h s σ → σ t = .idle →
      Possible (h ++ [.call t c]) s (Function.update σ t (.pending c))
  | commit {h s σ s'} (t : T) {c : C} {r : R} : Possible h s σ → σ t = .pending c →
      spec s c s' r → Possible h s' (Function.update σ t (.done r))
  | ret {h s σ} (t : T) {r : R} : Possible h s σ → σ t = .done r →
      Possible (h ++ [.ret t r]) s (Function.update σ t .idle)

end Possible

theorem eventsOf_snoc (t : T) (ops : List (T × C × R)) (op : T × C × R) :
    eventsOf t (ops ++ [op])
      = eventsOf t ops ++ if op.1 = t then [.call t op.2.1, .ret t op.2.2] else [] := by
  induction ops with
  | nil => rfl
  | cons first ops ih =>
      obtain ⟨u, c, r⟩ := first
      rw [List.cons_append, eventsOf, eventsOf, ih]
      split_ifs <;> rfl

theorem ofThread_snoc (t : T) (h : List (CallEvent T C R)) (e : CallEvent T C R) :
    ofThread t (h ++ [e]) = ofThread t h ++ if e.thread = t then [e] else [] := by
  unfold ofThread
  rw [List.filter_append]
  split_ifs with ht <;> simp [ht]

namespace Agrees

variable {h : List (CallEvent T C R)} {ops : List (T × C × R)} {σ : T → CallStatus C R}

theorem call (hagree : Agrees h ops σ) {t : T} (hidle : σ t = .idle) (c : C) :
    Agrees (h ++ [.call t c]) ops (Function.update σ t (.pending c)) := by
  intro u
  rw [ofThread_snoc]
  have hu := hagree u
  by_cases htu : u = t
  · subst htu
    rw [hidle] at hu
    simpa [CallStatus.owed, CallStatus.opened, CallEvent.thread] using hu
  · simpa [Function.update_of_ne htu, CallEvent.thread, Ne.symm htu] using hu

theorem commit (hagree : Agrees h ops σ) {t : T} {c : C} (hpending : σ t = .pending c) (r : R) :
    Agrees h (ops ++ [(t, c, r)]) (Function.update σ t (.done r)) := by
  intro u
  rw [eventsOf_snoc]
  have hu := hagree u
  by_cases htu : u = t
  · subst htu
    rw [hpending] at hu
    simp only [CallStatus.owed, CallStatus.opened, List.append_nil] at hu
    simp [CallStatus.owed, CallStatus.opened, hu]
  · simpa [Function.update_of_ne htu, Ne.symm htu] using hu

theorem ret (hagree : Agrees h ops σ) {t : T} {r : R} (hdone : σ t = .done r) :
    Agrees (h ++ [.ret t r]) ops (Function.update σ t .idle) := by
  intro u
  rw [ofThread_snoc]
  have hu := hagree u
  by_cases htu : u = t
  · subst htu
    rw [hdone] at hu
    simpa [CallStatus.owed, CallStatus.opened, CallEvent.thread] using hu
  · simpa [Function.update_of_ne htu, CallEvent.thread, Ne.symm htu] using hu

end Agrees

/-- A history that agrees with `ops`, one event after one that was explained. -/
theorem explained_snoc {h : List (CallEvent T C R)} {ops : List (T × C × R)}
    (hold : ∀ h', h' <+: h → ∃ ops' σ, ops' <+: ops ∧ Agrees h' ops' σ) {e : CallEvent T C R}
    {σ : T → CallStatus C R} (hnew : Agrees (h ++ [e]) ops σ) :
    ∀ h', h' <+: h ++ [e] → ∃ ops' σ, ops' <+: ops ∧ Agrees h' ops' σ := by
  intro h' hprefix
  rcases List.prefix_concat_iff.mp hprefix with rfl | hshort
  · exact ⟨ops, σ, List.prefix_rfl, hnew⟩
  · exact hold h' hshort

/-- **What is possible is linearizable.** -/
theorem Possible.isLinearizable {spec : S → C → S → R → Prop} {s₀ s : S}
    {h : List (CallEvent T C R)} {σ : T → CallStatus C R} (hpossible : Possible spec s₀ h s σ) :
    Linearizable spec s₀ h s := by
  suffices hmain : ∃ ops, Sequential spec s₀ ops s ∧ Agrees h ops σ ∧
      ∀ h', h' <+: h → ∃ ops' σ, ops' <+: ops ∧ Agrees h' ops' σ by
    obtain ⟨ops, hseq, -, hall⟩ := hmain
    exact ⟨ops, hseq, hall⟩
  induction hpossible with
  | start =>
      have hagree : Agrees (T := T) (C := C) (R := R) [] [] fun _ => .idle := fun _ => rfl
      refine ⟨[], .nil, hagree, fun h' hprefix => ?_⟩
      obtain rfl := List.prefix_nil.mp hprefix
      exact ⟨[], _, List.prefix_rfl, hagree⟩
  | call t c _ hidle ih =>
      obtain ⟨ops, hseq, hagree, hall⟩ := ih
      have hagree' := hagree.call hidle c
      exact ⟨ops, hseq, hagree', explained_snoc hall hagree'⟩
  | @commit _ _ _ _ t c r _ hpending hspec ih =>
      obtain ⟨ops, hseq, hagree, hall⟩ := ih
      refine ⟨ops ++ [(t, c, r)], hseq.snoc hspec, hagree.commit hpending r, fun h' hprefix => ?_⟩
      obtain ⟨ops', σ', hops, hagree'⟩ := hall h' hprefix
      exact ⟨ops', σ', hops.trans (List.prefix_append _ _), hagree'⟩
  | ret t _ hdone ih =>
      obtain ⟨ops, hseq, hagree, hall⟩ := ih
      have hagree' := hagree.ret hdone
      exact ⟨ops, hseq, hagree', explained_snoc hall hagree'⟩

/-! ## Answers that may have been given early

A call that changes nothing may be given an instant that lies in the past.  Where only
later steps tell whether it took effect at its begin, both are carried along.
-/

section Undecided

variable (σ : T → CallStatus C R) (early : T → Option R) (choice : T → Bool)

/-- The threads, where those of `choice` that may have got their answer early have got
it. -/
def settled (t : T) : CallStatus C R :=
  if choice t then (early t).elim (σ t) .done else σ t

theorem settled_update {choice choice' : T → Bool} {t : T}
    (h : ∀ u, u ≠ t → choice' u = choice u) (x : CallStatus C R) :
    settled (Function.update σ t x) (Function.update early t none) choice
      = Function.update (settled σ early choice') t x := by
  funext u
  unfold settled
  rcases eq_or_ne u t with rfl | hne
  · simp
  · simp [Function.update_of_ne hne, h u hne]

/-- Whichever of the threads have got their answer early, it explains what has been
seen. -/
def Undecided (spec : S → C → S → R → Prop) (s₀ : S) (h : List (CallEvent T C R)) (s : S) :
    Prop :=
  ∀ choice, Possible spec s₀ h s (settled σ early choice)

end Undecided

namespace Undecided

variable {spec : S → C → S → R → Prop} {s₀ s : S} {h : List (CallEvent T C R)}
  {σ : T → CallStatus C R} {early : T → Option R}

theorem start : Undecided (T := T) (fun _ => .idle) (fun _ => none) spec s₀ [] s₀ := by
  intro choice
  have hidle : settled (T := T) (C := C) (R := R) (fun _ => .idle) (fun _ => none) choice
      = fun _ => .idle := funext fun u => ite_self _
  rw [hidle]
  exact .start

variable (hu : Undecided σ early spec s₀ h s) {t : T} {c : C} {r : R}
include hu

/-- Nobody has got an answer early. -/
theorem possible : Possible spec s₀ h s σ := by
  have hnone : settled σ early (fun _ => false) = σ := rfl
  exact hnone ▸ hu fun _ => false

theorem call (hidle : σ t = .idle) (c : C) :
    Undecided (Function.update σ t (.pending c)) (Function.update early t none) spec s₀
      (h ++ [.call t c]) s := by
  intro choice
  have hother : ∀ u, u ≠ t → Function.update choice t false u = choice u :=
    fun u hne => Function.update_of_ne hne _ _
  rw [settled_update σ early hother]
  refine .call t c (hu _) ?_
  simp [settled, hidle]

/-- A call that would change nothing may take effect at once. -/
theorem callEarly (hidle : σ t = .idle) (hspec : spec s c s r) :
    Undecided (Function.update σ t (.pending c)) (Function.update early t (some r)) spec s₀
      (h ++ [.call t c]) s := by
  intro choice
  have hcall := hu.call hidle c
  by_cases hchoice : choice t = true
  · have hearly : settled (Function.update σ t (.pending c)) (Function.update early t (some r))
        choice = Function.update (settled (Function.update σ t (.pending c))
          (Function.update early t none) choice) t (.done r) := by
      funext u
      unfold settled
      rcases eq_or_ne u t with rfl | hne
      · simp [hchoice]
      · simp [Function.update_of_ne hne]
    rw [hearly]
    refine .commit t (hcall choice) ?_ hspec
    simp [settled]
  · have hlate : settled (Function.update σ t (.pending c)) (Function.update early t (some r))
        choice = settled (Function.update σ t (.pending c)) (Function.update early t none)
          choice := by
      funext u
      unfold settled
      rcases eq_or_ne u t with rfl | hne
      · simp [hchoice]
      · simp [Function.update_of_ne hne]
    rw [hlate]
    exact hcall choice

/-- The call takes effect now. -/
theorem commit {s' : S} (hpending : σ t = .pending c) (hspec : spec s c s' r) :
    Undecided (Function.update σ t (.done r)) (Function.update early t none) spec s₀ h s' := by
  intro choice
  have hother : ∀ u, u ≠ t → Function.update choice t false u = choice u :=
    fun u hne => Function.update_of_ne hne _ _
  rw [settled_update σ early hother]
  refine .commit t (hu _) ?_ hspec
  simp only [settled, Function.update_self, Bool.false_eq_true, if_false]
  exact hpending

/-- The call turns out to have taken effect at its begin. -/
theorem settle (hearly : early t = some r) :
    Undecided (Function.update σ t (.done r)) (Function.update early t none) spec s₀ h s := by
  intro choice
  have hsettled : settled (Function.update σ t (.done r)) (Function.update early t none) choice
      = settled σ early (Function.update choice t true) := by
    funext u
    unfold settled
    rcases eq_or_ne u t with rfl | hne
    · simp [hearly]
    · simp [Function.update_of_ne hne]
  rw [hsettled]
  exact hu _

theorem ret (hdone : σ t = .done r) :
    Undecided (Function.update σ t .idle) (Function.update early t none) spec s₀
      (h ++ [.ret t r]) s := by
  intro choice
  have hother : ∀ u, u ≠ t → Function.update choice t false u = choice u :=
    fun u hne => Function.update_of_ne hne _ _
  rw [settled_update σ early hother]
  refine .ret t (hu _) ?_
  simp only [settled, Function.update_self, Bool.false_eq_true, if_false]
  exact hdone

end Undecided

end ExchangeServer.Lib
