import Mathlib.Algebra.Order.Group.Multiset
import Mathlib.Tactic.Abel
import ExchangeServer.Lib.Runs
import ExchangeServer.Lib.Totals

/-!
# The connection pools

`DBPool` and `RedisPool` are one design: a queue of connections under a mutex, a
condition variable on which `getConnection` waits while the queue is empty, and a
deleter that puts the connection back and notifies one waiter.  `K` is the type of the
connections.

`step` interleaves the threads that use a pool, lock by lock; the condition variable
wakes whom it likes, and may wake a thread that nobody notified.

`connectionPool_exclusive`: connections are neither lost nor shared.
`connectionPool_awake`: no notification is lost, so a thread sleeps for ever only while
all connections stay in use.
-/

namespace ExchangeServer

open Lib

namespace ConnectionPool

variable {K : Type*}

/-- Where a thread is. -/
inductive Pc (K : Type*) where
  /-- It has no connection and wants none. -/
  | away
  /-- At the `unique_lock` of `getConnection`. -/
  | locking
  /-- Before the predicate of `cv_.wait`, with the mutex. -/
  | testing
  /-- In `cv_.wait`, without the mutex. -/
  | asleep
  /-- In `cv_.wait`, woken: it has to take the mutex again. -/
  | woken
  /-- It has popped `conn` and still has the mutex. -/
  | leaving (conn : K)
  | owning (conn : K)
  /-- At the `lock_guard` of the deleter. -/
  | returning (conn : K)
  /-- Before the `push` of the deleter, with the mutex. -/
  | pushing (conn : K)
  /-- Before `cv_.notify_one()`, with the mutex. -/
  | notifying
  /-- At the end of the deleter, with the mutex. -/
  | unlocking
deriving DecidableEq, Repr

/-- The thread has the mutex. -/
def Pc.locks : Pc K → Bool
  | .testing | .leaving _ | .pushing _ | .notifying | .unlocking => true
  | .away | .locking | .asleep | .woken | .owning _ | .returning _ => false

/-- The thread is in `cv_.wait` and has not been woken. -/
def Pc.sleeps : Pc K → Bool
  | .asleep => true
  | .away | .locking | .testing | .woken | .leaving _ | .owning _ | .returning _ | .pushing _
  | .notifying | .unlocking => false

/-- The connection that a thread has. -/
def Pc.held : Pc K → Multiset K
  | .leaving conn | .owning conn | .returning conn | .pushing conn => {conn}
  | .away | .locking | .testing | .asleep | .woken | .notifying | .unlocking => 0

end ConnectionPool

/-- A pool and the threads that use it. -/
structure ConnectionPool (K : Type*) where
  /-- `connQueue_`, the front first. -/
  connQueue : List K
  /-- Who has `mtx_`. -/
  mtx : Option ℕ
  threads : List (ConnectionPool.Pc K)

namespace ConnectionPool

variable {K : Type*}

/-- A pool after `init`, with `n` threads that have not used it yet. -/
def start (conns : List K) (n : ℕ) : ConnectionPool K :=
  ⟨conns, none, List.replicate n .away⟩

/-- What can happen. -/
inductive Action where
  /-- Thread `i` calls `getConnection`. -/
  | getConnection (i : ℕ)
  /-- The `unique_ptr` of thread `i` goes out of scope. -/
  | release (i : ℕ)
  /-- The next step of thread `i` in the pool. -/
  | step (i : ℕ)
  /-- `cv_.notify_one()` of thread `i` wakes thread `j`. -/
  | notify (i j : ℕ)
  /-- Thread `j` wakes without having been notified. -/
  | wakeup (j : ℕ)
deriving DecidableEq, Repr

/-- The pool with thread `i` at `pc`. -/
def setPc (p : ConnectionPool K) (i : ℕ) (pc : Pc K) : ConnectionPool K :=
  { p with threads := p.threads.set i pc }

/-- A step of thread `i` in the pool; `none` while it waits.  Where `notify_one` finds
nobody to wake it does nothing. -/
def threadStep (p : ConnectionPool K) (i : ℕ) : Option (ConnectionPool K) :=
  match p.threads[i]? with
  | some .locking | some .woken =>
      if p.mtx = none then some { p.setPc i .testing with mtx := some i } else none
  | some .testing =>
      match p.connQueue with
      | [] => some { p.setPc i .asleep with mtx := none }
      | conn :: conns => some { p.setPc i (.leaving conn) with connQueue := conns }
  | some (.leaving conn) => some { p.setPc i (.owning conn) with mtx := none }
  | some (.returning conn) =>
      if p.mtx = none then some { p.setPc i (.pushing conn) with mtx := some i } else none
  | some (.pushing conn) =>
      some { p.setPc i .notifying with connQueue := p.connQueue ++ [conn] }
  | some .notifying =>
      if p.threads.any Pc.sleeps then none else some (p.setPc i .unlocking)
  | some .unlocking => some { p.setPc i .away with mtx := none }
  | some .away | some .asleep | some (.owning _) | none => none

/-- **One action of any thread.** -/
def step (p : ConnectionPool K) : Action → Option (ConnectionPool K)
  | .getConnection i =>
      match p.threads[i]? with
      | some .away => some (p.setPc i .locking)
      | _ => none
  | .release i =>
      match p.threads[i]? with
      | some (.owning conn) => some (p.setPc i (.returning conn))
      | _ => none
  | .step i => p.threadStep i
  | .notify i j =>
      match p.threads[i]?, p.threads[j]? with
      | some .notifying, some .asleep => some ((p.setPc i .unlocking).setPc j .woken)
      | _, _ => none
  | .wakeup j =>
      match p.threads[j]? with
      | some .asleep => some (p.setPc j .woken)
      | _ => none

/-- What a step does, with what it needs. -/
inductive Move (p : ConnectionPool K) : Action → ConnectionPool K → Prop where
  | getConnection (i : ℕ) (hpc : p.threads[i]? = some .away) :
      Move p (.getConnection i) (p.setPc i .locking)
  | release (i : ℕ) (conn : K) (hpc : p.threads[i]? = some (.owning conn)) :
      Move p (.release i) (p.setPc i (.returning conn))
  | lock (i : ℕ) (pc : Pc K) (hpc : p.threads[i]? = some pc) (hfree : p.mtx = none)
      (hwaits : pc = .locking ∨ pc = .woken) :
      Move p (.step i) { p.setPc i .testing with mtx := some i }
  | sleep (i : ℕ) (hpc : p.threads[i]? = some .testing) (hempty : p.connQueue = []) :
      Move p (.step i) { p.setPc i .asleep with mtx := none }
  | pop (i : ℕ) (conn : K) (conns : List K) (hpc : p.threads[i]? = some .testing)
      (hqueue : p.connQueue = conn :: conns) :
      Move p (.step i) { p.setPc i (.leaving conn) with connQueue := conns }
  | leave (i : ℕ) (conn : K) (hpc : p.threads[i]? = some (.leaving conn)) :
      Move p (.step i) { p.setPc i (.owning conn) with mtx := none }
  | lockReturn (i : ℕ) (conn : K) (hpc : p.threads[i]? = some (.returning conn))
      (hfree : p.mtx = none) :
      Move p (.step i) { p.setPc i (.pushing conn) with mtx := some i }
  | push (i : ℕ) (conn : K) (hpc : p.threads[i]? = some (.pushing conn)) :
      Move p (.step i) { p.setPc i .notifying with connQueue := p.connQueue ++ [conn] }
  | notifyNobody (i : ℕ) (hpc : p.threads[i]? = some .notifying)
      (hnobody : ∀ pc ∈ p.threads, pc.sleeps = false) :
      Move p (.step i) (p.setPc i .unlocking)
  | unlock (i : ℕ) (hpc : p.threads[i]? = some .unlocking) :
      Move p (.step i) { p.setPc i .away with mtx := none }
  | notify (i j : ℕ) (hpc : p.threads[i]? = some .notifying)
      (hasleep : p.threads[j]? = some .asleep) :
      Move p (.notify i j) ((p.setPc i .unlocking).setPc j .woken)
  | wakeup (j : ℕ) (hasleep : p.threads[j]? = some .asleep) :
      Move p (.wakeup j) (p.setPc j .woken)

theorem threadStep_spec {p p' : ConnectionPool K} {i : ℕ} (h : p.threadStep i = some p') :
    Move p (.step i) p' := by
  unfold threadStep at h
  split at h
  case h_1 hpc =>
      split_ifs at h with hfree
      obtain rfl := Option.some.inj h
      exact .lock i _ hpc hfree (.inl rfl)
  case h_2 hpc =>
      split_ifs at h with hfree
      obtain rfl := Option.some.inj h
      exact .lock i _ hpc hfree (.inr rfl)
  case h_3 hpc =>
      split at h
      case h_1 hempty =>
          obtain rfl := Option.some.inj h
          exact .sleep i hpc hempty
      case h_2 conn conns hqueue =>
          obtain rfl := Option.some.inj h
          exact .pop i conn conns hpc hqueue
  case h_4 conn hpc =>
      obtain rfl := Option.some.inj h
      exact .leave i conn hpc
  case h_5 conn hpc =>
      split_ifs at h with hfree
      obtain rfl := Option.some.inj h
      exact .lockReturn i conn hpc hfree
  case h_6 conn hpc =>
      obtain rfl := Option.some.inj h
      exact .push i conn hpc
  case h_7 hpc =>
      split_ifs at h with hany
      obtain rfl := Option.some.inj h
      refine .notifyNobody i hpc fun pc hmem => ?_
      exact Bool.eq_false_iff.mpr fun hsleeps => hany (List.any_eq_true.mpr ⟨pc, hmem, hsleeps⟩)
  case h_8 hpc =>
      obtain rfl := Option.some.inj h
      exact .unlock i hpc
  all_goals cases h

/-- **Every step is one of the moves.** -/
theorem step_spec {p p' : ConnectionPool K} {a : Action} (h : p.step a = some p') :
    Move p a p' := by
  cases a with
  | getConnection i =>
      simp only [step] at h
      split at h
      case h_1 hpc =>
          obtain rfl := Option.some.inj h
          exact .getConnection i hpc
      case h_2 => cases h
  | release i =>
      simp only [step] at h
      split at h
      case h_1 conn hpc =>
          obtain rfl := Option.some.inj h
          exact .release i conn hpc
      case h_2 => cases h
  | step i => exact threadStep_spec h
  | notify i j =>
      simp only [step] at h
      split at h
      case h_1 hpc hasleep =>
          obtain rfl := Option.some.inj h
          exact .notify i j hpc hasleep
      case h_2 => cases h
  | wakeup j =>
      simp only [step] at h
      split at h
      case h_1 hasleep =>
          obtain rfl := Option.some.inj h
          exact .wakeup j hasleep
      case h_2 => cases h

/-! ## Who has the mutex -/

/-- The mutex is with the thread that is inside. -/
def Owns (mtx : Option ℕ) (threads : List (Pc K)) : Prop :=
  ∀ i, mtx = some i ↔ ∃ pc, threads[i]? = some pc ∧ pc.locks = true

/-- Thread `i` goes from `pc` to `pc'`, and takes or gives back the mutex as it goes. -/
theorem Owns.set {mtx : Option ℕ} {threads : List (Pc K)} (h : Owns mtx threads) {i : ℕ}
    {pc : Pc K} (pc' : Pc K) (hpc : threads[i]? = some pc)
    (hfree : pc'.locks = true → pc.locks = false → mtx = none) :
    Owns (if pc'.locks then some i else if pc.locks then none else mtx) (threads.set i pc') := by
  have hi : i < threads.length := (List.getElem?_eq_some_iff.mp hpc).1
  have howner : pc.locks = true → mtx = some i := fun hlocks => (h i).mpr ⟨pc, hpc, hlocks⟩
  intro k
  rcases eq_or_ne i k with rfl | hne
  · have hself : (∃ q, (threads.set i pc')[i]? = some q ∧ q.locks = true) ↔ pc'.locks = true := by
      rw [List.getElem?_set_self hi]
      simp
    rw [hself]
    cases hlocks' : pc'.locks with
    | true => simp
    | false =>
        cases hlocks : pc.locks with
        | true => simp
        | false =>
            have hnot : mtx ≠ some i := by
              intro hmtx
              obtain ⟨q, hq, hqlocks⟩ := (h i).mp hmtx
              obtain rfl := Option.some.inj (hpc.symm.trans hq)
              rw [hlocks] at hqlocks
              cases hqlocks
            simpa using hnot
  · rw [List.getElem?_set_ne hne, ← h k]
    cases hlocks' : pc'.locks with
    | true =>
        cases hlocks : pc.locks with
        | true => simp [howner hlocks]
        | false => simp [hfree hlocks' hlocks, hne]
    | false =>
        cases hlocks : pc.locks with
        | true => simp [howner hlocks, hne]
        | false => simp

/-! ## The accounts of a pool -/

/-- The thread will look at the queue, or wake somebody who will. -/
def Pc.alert : Pc K → ℕ
  | .testing | .woken | .notifying => 1
  | .away | .locking | .asleep | .leaving _ | .owning _ | .returning _ | .pushing _
  | .unlocking => 0

/-- **The accounts of a pool** that was given the connections `conns`. -/
structure Accounts (conns : List K) (p : ConnectionPool K) : Prop where
  owner : Owns p.mtx p.threads
  /-- Every connection is in the queue or with one thread. -/
  conns : (p.connQueue : Multiset K) + total Pc.held p.threads = conns
  /-- While somebody sleeps, there is a thread awake for every connection in the queue. -/
  awake : .asleep ∈ p.threads → p.connQueue.length ≤ total Pc.alert p.threads

theorem accounts_start (conns : List K) (n : ℕ) : (start conns n).Accounts conns where
  owner i := by
    constructor
    · intro h
      cases h
    · rintro ⟨pc, hpc, hlocks⟩
      rw [List.eq_of_mem_replicate (List.mem_of_getElem? hpc)] at hlocks
      cases hlocks
  conns := by
    have hheld : total Pc.held (start conns n).threads = 0 :=
      total_eq_zero fun pc hpc => by rw [List.eq_of_mem_replicate hpc]; rfl
    rw [hheld, add_zero]
    rfl
  awake h := by cases List.eq_of_mem_replicate h

namespace Accounts

variable {conns : List K} {p p' : ConnectionPool K}

/-- Thread `i` goes from `pc` to `pc'`, perhaps with a connection from the queue or to
it. -/
theorem move (h : p.Accounts conns) {i : ℕ} {pc : Pc K} (pc' : Pc K) (queue : List K)
    (hpc : p.threads[i]? = some pc) (hfree : pc'.locks = true → pc.locks = false → p.mtx = none)
    (hconns : (queue : Multiset K) + pc'.held = p.connQueue + pc.held)
    (hsleep : pc' = .asleep → queue = [])
    (halert : .asleep ∈ p.threads → queue ≠ [] →
      queue.length + pc.alert ≤ p.connQueue.length + pc'.alert) :
    (⟨queue, if pc'.locks then some i else if pc.locks then none else p.mtx,
      p.threads.set i pc'⟩ : ConnectionPool K).Accounts conns where
  owner := h.owner.set pc' hpc hfree
  conns := by
    have hheld := total_set Pc.held hpc pc'
    refine add_right_cancel (b := pc.held) ?_
    calc (queue : Multiset K) + total Pc.held (p.threads.set i pc') + pc.held
        = queue + pc'.held + total Pc.held p.threads := by
          rw [add_assoc, hheld]
          abel
      _ = p.connQueue + total Pc.held p.threads + pc.held := by
          rw [hconns]
          abel
      _ = conns + pc.held := by rw [h.conns]
  awake hmem := by
    have halerts := total_set Pc.alert hpc pc'
    by_cases hempty : queue = []
    · rw [hempty]
      exact Nat.zero_le _
    · rcases List.mem_or_eq_of_mem_set hmem with hmem | heq
      · have hold := h.awake hmem
        have hless := halert hmem hempty
        dsimp only at *
        omega
      · exact absurd (hsleep heq.symm) hempty

/-- The thread that has the mutex goes from `pc` to `pc'` and keeps it. -/
theorem moveInside (h : p.Accounts conns) {i : ℕ} {pc : Pc K} (pc' : Pc K) (queue : List K)
    (hpc : p.threads[i]? = some pc) (hlocks : pc.locks = true) (hlocks' : pc'.locks = true)
    (hconns : (queue : Multiset K) + pc'.held = p.connQueue + pc.held)
    (halert : .asleep ∈ p.threads → queue ≠ [] →
      queue.length + pc.alert ≤ p.connQueue.length + pc'.alert) :
    (⟨queue, p.mtx, p.threads.set i pc'⟩ : ConnectionPool K).Accounts conns := by
  have hmtx : p.mtx = some i := (h.owner i).mpr ⟨pc, hpc, hlocks⟩
  have hfree : pc'.locks = true → pc.locks = false → p.mtx = none := by
    intro _ hno
    rw [hlocks] at hno
    cases hno
  have hsleep : pc' = .asleep → queue = [] := by
    rintro rfl
    cases hlocks'
  have hmove := h.move pc' queue hpc hfree hconns hsleep halert
  rw [if_pos hlocks', ← hmtx] at hmove
  exact hmove

/-- **Every step keeps the accounts.** -/
theorem step (h : p.Accounts conns) {a : Action} (hstep : p.step a = some p') :
    p'.Accounts conns := by
  cases step_spec hstep with
  | getConnection i hpc =>
      exact h.move .locking p.connQueue hpc nofun rfl nofun fun _ _ => le_rfl
  | release i conn hpc =>
      exact h.move (.returning conn) p.connQueue hpc nofun rfl nofun fun _ _ => le_rfl
  | lock i pc hpc hfree hwaits =>
      rcases hwaits with rfl | rfl
      · exact h.move .testing p.connQueue hpc (fun _ _ => hfree) rfl nofun
          fun _ _ => Nat.le_succ _
      · exact h.move .testing p.connQueue hpc (fun _ _ => hfree) rfl nofun fun _ _ => le_rfl
  | sleep i hpc hempty =>
      exact h.move .asleep p.connQueue hpc nofun rfl (fun _ => hempty)
        fun _ hne => absurd hempty hne
  | pop i conn rest hpc hqueue =>
      refine h.moveInside (.leaving conn) rest hpc rfl rfl ?_ fun _ _ => ?_
      · rw [hqueue]
        exact Multiset.coe_add rest [conn] |>.trans (Multiset.coe_eq_coe.mpr (by simp))
      · rw [hqueue]
        exact le_rfl
  | leave i conn hpc =>
      exact h.move (.owning conn) p.connQueue hpc nofun rfl nofun fun _ _ => le_rfl
  | lockReturn i conn hpc hfree =>
      exact h.move (.pushing conn) p.connQueue hpc (fun _ _ => hfree) rfl nofun
        fun _ _ => le_rfl
  | push i conn hpc =>
      refine h.moveInside .notifying (p.connQueue ++ [conn]) hpc rfl rfl ?_ fun _ _ => ?_
      · exact (add_zero _).trans (Multiset.coe_add p.connQueue [conn]).symm
      · rw [List.length_append]
        exact le_rfl
  | notifyNobody i hpc hnobody =>
      refine h.moveInside .unlocking p.connQueue hpc rfl rfl rfl fun hasleep _ => ?_
      cases hnobody _ hasleep
  | unlock i hpc => exact h.move .away p.connQueue hpc nofun rfl nofun fun _ _ => le_rfl
  | notify i j hpc hasleep =>
      have hne : i ≠ j := by
        rintro rfl
        cases hpc.symm.trans hasleep
      have hasleep' : (p.threads.set i .unlocking)[j]? = some .asleep := by
        rw [List.getElem?_set_ne hne, hasleep]
      have hheld := total_set Pc.held hpc .unlocking
      have hheld' := total_set Pc.held hasleep' .woken
      have halert := total_set Pc.alert hpc .unlocking
      have halert' := total_set Pc.alert hasleep' .woken
      have hmtx : p.mtx = some i := (h.owner i).mpr ⟨_, hpc, rfl⟩
      refine ⟨?_, ?_, fun _ => ?_⟩
      · have howner := (h.owner.set .unlocking hpc nofun).set .woken hasleep' nofun
        show Owns p.mtx _
        rw [hmtx]
        exact howner
      · have hsame : total Pc.held ((p.threads.set i .unlocking).set j .woken)
            = total Pc.held p.threads := by
          simp only [Pc.held, add_zero] at hheld hheld'
          exact hheld'.trans hheld
        exact (congrArg ((p.connQueue : Multiset K) + ·) hsame).trans h.conns
      · have hsame : total Pc.alert ((p.threads.set i .unlocking).set j .woken)
            = total Pc.alert p.threads := by
          simp only [Pc.alert] at halert halert'
          omega
        exact (h.awake (List.mem_of_getElem? hasleep)).trans hsame.ge
  | wakeup j hasleep =>
      exact h.move .woken p.connQueue hasleep nofun rfl nofun fun _ _ => Nat.le_succ _

end Accounts

theorem accounts_of_runs {conns : List K} {n : ℕ} {actions : List Action} {p : ConnectionPool K}
    (hrun : runs ConnectionPool.step (start conns n) actions = some p) : p.Accounts conns :=
  runs_induction (fun _ _ _ h hstep => h.step hstep) actions (accounts_start conns n) hrun

theorem length_of_runs {conns : List K} {n : ℕ} {actions : List Action} {p : ConnectionPool K}
    (hrun : runs ConnectionPool.step (start conns n) actions = some p) : p.threads.length = n := by
  refine runs_induction (P := fun p : ConnectionPool K => p.threads.length = n)
    (fun p a p' h hstep => ?_) actions List.length_replicate hrun
  cases step_spec hstep <;> simpa [setPc] using h

/-! ## Sharing -/

theorem mem_held {threads : List (Pc K)} {conn : K} (h : conn ∈ total Pc.held threads) :
    ∃ pc ∈ threads, conn ∈ pc.held := by
  induction threads with
  | nil => cases h
  | cons pc threads ih =>
      rw [total_cons, Multiset.mem_add] at h
      rcases h with h | h
      · exact ⟨pc, List.mem_cons_self, h⟩
      · obtain ⟨pc', hmem, hconn⟩ := ih h
        exact ⟨pc', List.mem_cons_of_mem pc hmem, hconn⟩

theorem held_le {threads : List (Pc K)} {pc : Pc K} (h : pc ∈ threads) :
    pc.held ≤ total Pc.held threads := by
  induction threads with
  | nil => cases h
  | cons first threads ih =>
      rw [total_cons]
      rcases List.mem_cons.mp h with rfl | hmem
      · exact Multiset.le_add_right _ _
      · exact (ih hmem).trans (Multiset.le_add_left _ _)

/-- What two threads and the queue have is not the same connection. -/
theorem Accounts.disjoint {conns : List K} {p : ConnectionPool K} (h : p.Accounts conns)
    (hconns : conns.Nodup) {i : ℕ} {pc : Pc K} (hpc : p.threads[i]? = some pc) {conn : K}
    (hheld : conn ∈ pc.held) :
    conn ∉ p.connQueue ∧ ∀ j pc', p.threads[j]? = some pc' → conn ∈ pc'.held → i = j := by
  have hnodup : ((p.connQueue : Multiset K) + total Pc.held p.threads).Nodup := by
    rw [h.conns]
    exact Multiset.coe_nodup.mpr hconns
  obtain ⟨-, hthreads, hdisjoint⟩ := Multiset.nodup_add.mp hnodup
  refine ⟨fun hqueue => ?_, fun j pc' hpc' hheld' => ?_⟩
  · have hmem := Multiset.mem_of_le (held_le (List.mem_of_getElem? hpc)) hheld
    exact Multiset.disjoint_left.mp hdisjoint (Multiset.mem_coe.mpr hqueue) hmem
  · by_contra hne
    have hsplit := total_set Pc.held hpc .away
    rw [Pc.held, add_zero] at hsplit
    rw [← hsplit] at hthreads
    obtain ⟨-, -, hdisjoint'⟩ := Multiset.nodup_add.mp hthreads
    have hother : pc' ∈ p.threads.set i .away := by
      refine List.mem_of_getElem? (i := j) ?_
      rw [List.getElem?_set_ne hne, hpc']
    exact Multiset.disjoint_left.mp hdisjoint' (Multiset.mem_of_le (held_le hother) hheld') hheld

/-! ## Waking -/

/-- The steps a thread still takes before it has a connection, sleeps or has left the
pool; a notifier pays for the thread that it wakes. -/
def Pc.rank : Pc K → ℕ
  | .away | .asleep | .owning _ => 0
  | .leaving _ | .unlocking => 1
  | .testing => 2
  | .locking | .woken => 3
  | .notifying => 5
  | .pushing _ => 6
  | .returning _ => 7

/-- The action is a step inside the pool, which no thread can put off. -/
def Action.isMove : Action → Bool
  | .step _ | .notify _ _ => true
  | .getConnection _ | .release _ | .wakeup _ => false

/-- The steps inside the pool that an action from outside may lead to. -/
def Action.allowance : Action → ℕ
  | .step _ | .notify _ _ => 0
  | .getConnection _ | .wakeup _ => 3
  | .release _ => 7

/-- Nothing moves inside the pool. -/
def Stuck (p : ConnectionPool K) : Prop :=
  ∀ a : Action, a.isMove = true → p.step a = none

theorem rank_step {p p' : ConnectionPool K} {a : Action} (hstep : p.step a = some p') :
    total Pc.rank p'.threads + (if a.isMove then 1 else 0)
      ≤ total Pc.rank p.threads + a.allowance := by
  have hmove : ∀ {i : ℕ} {pc : Pc K} (pc' : Pc K), p.threads[i]? = some pc →
      total Pc.rank (p.threads.set i pc') + pc.rank = total Pc.rank p.threads + pc'.rank :=
    fun pc' hpc => total_set _ hpc pc'
  have hless : ∀ {i : ℕ} {pc : Pc K} (pc' : Pc K), p.threads[i]? = some pc →
      pc'.rank + 1 ≤ pc.rank →
      total Pc.rank (p.threads.set i pc') + 1 ≤ total Pc.rank p.threads := by
    intro i pc pc' hpc hlt
    have h := hmove pc' hpc
    omega
  cases step_spec hstep with
  | getConnection i hpc => exact (hmove .locking hpc).le
  | release i conn hpc => exact (hmove (.returning conn) hpc).le
  | lock i pc hpc hfree hwaits =>
      rcases hwaits with rfl | rfl
      · exact hless .testing hpc le_rfl
      · exact hless .testing hpc le_rfl
  | sleep i hpc hempty => exact hless .asleep hpc (Nat.le_succ 1)
  | pop i conn rest hpc hqueue => exact hless (.leaving conn) hpc le_rfl
  | leave i conn hpc => exact hless (.owning conn) hpc le_rfl
  | lockReturn i conn hpc hfree => exact hless (.pushing conn) hpc le_rfl
  | push i conn hpc => exact hless .notifying hpc le_rfl
  | notifyNobody i hpc hnobody => exact hless .unlocking hpc (by simp [Pc.rank])
  | unlock i hpc => exact hless .away hpc le_rfl
  | notify i j hpc hasleep =>
      have hne : i ≠ j := by
        rintro rfl
        cases hpc.symm.trans hasleep
      have hasleep' : (p.threads.set i .unlocking)[j]? = some .asleep := by
        rw [List.getElem?_set_ne hne, hasleep]
      have hnotifier := hmove .unlocking hpc
      have hwoken := total_set Pc.rank hasleep' .woken
      simp only [Pc.rank] at hnotifier hwoken
      show total Pc.rank ((p.threads.set i .unlocking).set j .woken) + 1
        ≤ total Pc.rank p.threads + 0
      omega
  | wakeup j hasleep => exact (hmove .woken hasleep).le

theorem rank_of_runs {conns : List K} {n : ℕ} {actions : List Action} {p : ConnectionPool K}
    (hrun : runs ConnectionPool.step (start conns n) actions = some p) :
    total Pc.rank p.threads + actions.countP Action.isMove
      ≤ (actions.map Action.allowance).sum := by
  refine runs_reachable (I := fun (actions : List Action) (p : ConnectionPool K) =>
    total Pc.rank p.threads + actions.countP Action.isMove ≤ (actions.map Action.allowance).sum)
    actions ?_ (fun actions p a p' _ h hstep => ?_) hrun
  · have hidle : total Pc.rank (start conns n).threads = 0 :=
      total_eq_zero fun pc hpc => by rw [List.eq_of_mem_replicate hpc]; rfl
    rw [hidle]
    exact le_rfl
  · have hless := rank_step hstep
    rw [List.countP_append, List.map_append, List.sum_append, List.countP_singleton,
      List.map_singleton, List.sum_singleton]
    omega

/-- Whoever has the mutex can move. -/
theorem Accounts.free_of_stuck {conns : List K} {p : ConnectionPool K} (h : p.Accounts conns)
    (hstuck : p.Stuck) : p.mtx = none := by
  by_contra hsome
  obtain ⟨i, hi⟩ := Option.ne_none_iff_exists'.mp hsome
  obtain ⟨pc, hpc, hlocks⟩ := (h.owner i).mp hi
  have hmove := hstuck (.step i) rfl
  simp only [ConnectionPool.step, threadStep, hpc] at hmove
  cases pc with
  | testing => cases hqueue : p.connQueue <;> simp [hqueue] at hmove
  | leaving conn => cases hmove
  | pushing conn => cases hmove
  | unlocking => cases hmove
  | notifying =>
      -- one of those who sleep could be woken
      by_cases hany : p.threads.any Pc.sleeps = true
      · obtain ⟨pc, hmem, hsleeps⟩ := List.any_eq_true.mp hany
        obtain ⟨j, hj⟩ := List.mem_iff_getElem?.mp hmem
        have hnotify := hstuck (.notify i j) rfl
        cases pc with
        | asleep => simp only [ConnectionPool.step, hpc, hj, reduceCtorEq] at hnotify
        | _ => cases hsleeps
      · simp [hany] at hmove
  | _ => cases hlocks

/-- **Where nothing moves**, everybody is away, asleep or using a connection. -/
theorem Accounts.of_stuck {conns : List K} {p : ConnectionPool K} (h : p.Accounts conns)
    (hstuck : p.Stuck) {pc : Pc K} (hmem : pc ∈ p.threads) :
    pc = .away ∨ pc = .asleep ∨ ∃ conn, pc = .owning conn := by
  have hfree := h.free_of_stuck hstuck
  obtain ⟨i, hpc⟩ := List.mem_iff_getElem?.mp hmem
  have hlocks : pc.locks = false := by
    refine Bool.eq_false_iff.mpr fun hlocks => ?_
    have howner := (h.owner i).mpr ⟨pc, hpc, hlocks⟩
    rw [hfree] at howner
    cases howner
  have hmove := hstuck (.step i) rfl
  simp only [ConnectionPool.step, threadStep, hpc, hfree, if_true] at hmove
  cases pc with
  | away => exact .inl rfl
  | asleep => exact .inr (.inl rfl)
  | owning conn => exact .inr (.inr ⟨conn, rfl⟩)
  | locking => cases hmove
  | woken => cases hmove
  | returning conn => cases hmove
  | _ => cases hlocks

/-- The connections that are not in the queue are with as many threads. -/
theorem card_held (threads : List (Pc K)) :
    (total Pc.held threads).card ≤ threads.countP fun pc => ¬pc.sleeps = true := by
  induction threads with
  | nil => exact le_rfl
  | cons pc threads ih =>
      rw [total_cons, Multiset.card_add, List.countP_cons]
      have hpc : pc.held.card ≤ if decide (¬pc.sleeps = true) = true then 1 else 0 := by
        cases pc <;> simp [Pc.held, Pc.sleeps]
      omega

end ConnectionPool

/-- **Connections are neither lost nor shared.**  After any run every connection of the
pool is in its queue or with exactly one thread, once each. -/
theorem connectionPool_exclusive {K : Type*} (conns : List K) (hconns : conns.Nodup) (n : ℕ)
    (actions : List ConnectionPool.Action) (p : ConnectionPool K)
    (hrun : runs ConnectionPool.step (.start conns n) actions = some p) :
    (p.connQueue : Multiset K) + total ConnectionPool.Pc.held p.threads = conns ∧
      ∀ (i : ℕ) (pc : ConnectionPool.Pc K) (conn : K),
        p.threads[i]? = some pc → conn ∈ pc.held → conn ∉ p.connQueue ∧
          ∀ (j : ℕ) (pc' : ConnectionPool.Pc K), p.threads[j]? = some pc' → conn ∈ pc'.held →
            i = j :=
  have haccounts := ConnectionPool.accounts_of_runs hrun
  ⟨haccounts.conns, fun _ _ _ hpc hheld => haccounts.disjoint hconns hpc hheld⟩

/-- A pool that has come to rest. -/
theorem connectionPool_rest {K : Type*} {conns : List K} {n : ℕ}
    {actions : List ConnectionPool.Action} {p : ConnectionPool K}
    (hrun : runs ConnectionPool.step (.start conns n) actions = some p) (hstuck : p.Stuck) :
    (∀ pc ∈ p.threads, pc = .away ∨ pc = .asleep ∨ ∃ conn, pc = .owning conn) ∧
      (.asleep ∈ p.threads → p.connQueue = [] ∧ conns.length < n) := by
  have haccounts := ConnectionPool.accounts_of_runs hrun
  refine ⟨fun pc hmem => haccounts.of_stuck hstuck hmem, fun hasleep => ?_⟩
  have hempty : p.connQueue = [] := by
    have halert : total ConnectionPool.Pc.alert p.threads = 0 := by
      refine total_eq_zero fun pc hmem => ?_
      rcases haccounts.of_stuck hstuck hmem with rfl | rfl | ⟨conn, rfl⟩ <;> rfl
    have hawake := haccounts.awake hasleep
    rw [halert] at hawake
    exact List.eq_nil_of_length_eq_zero (Nat.le_zero.mp hawake)
  refine ⟨hempty, ?_⟩
  have hheld : (total ConnectionPool.Pc.held p.threads).card = conns.length := by
    have hconns := haccounts.conns
    rw [hempty, Multiset.coe_nil, zero_add] at hconns
    rw [hconns]
    rfl
  have hothers := ConnectionPool.card_held p.threads
  have hsleeps : 0 < p.threads.countP ConnectionPool.Pc.sleeps :=
    List.countP_pos_iff.mpr ⟨_, hasleep, rfl⟩
  have hsplit := List.length_eq_countP_add_countP ConnectionPool.Pc.sleeps (l := p.threads)
  rw [ConnectionPool.length_of_runs hrun] at hsplit
  omega

/-- Two threads share one connection: the second sleeps until the first gives it back. -/
def oneConnection : List ConnectionPool.Action :=
  [.getConnection 0, .step 0, .step 0, .step 0, .getConnection 1, .step 1, .step 1,
    .release 0, .step 0, .step 0, .notify 0 1, .step 0, .step 1, .step 1, .step 1]

theorem connectionPool_exclusive_oneConnection :
    ∃ p : ConnectionPool ℕ,
      runs ConnectionPool.step (.start [7] 2) oneConnection = some p ∧
      p.threads = [.away, .owning 7] ∧
      (p.connQueue : Multiset ℕ) + total ConnectionPool.Pc.held p.threads = [7] := by
  refine ⟨_, runs_eq_runsTo ConnectionPool.step (by decide), by decide, ?_⟩
  exact (connectionPool_exclusive [7] (by decide) 2 oneConnection _
    (runs_eq_runsTo ConnectionPool.step (by decide))).1

namespace DBPool

/-- `DBPool::init`: every handle is tried (`mysql_real_connect`), and those that connect
are kept. -/
def init {K : Type*} (attempts : List (K × Bool)) : List K :=
  attempts.filterMap fun attempt => if attempt.2 then some attempt.1 else none

/-- The database is there. -/
theorem length_init {K : Type*} {attempts : List (K × Bool)}
    (h : ∀ attempt ∈ attempts, attempt.2 = true) : (init attempts).length = attempts.length := by
  refine List.filterMap_length_eq_length.mpr ?_
  intro attempt hmem
  rw [if_pos (h attempt hmem)]
  rfl

end DBPool

namespace RedisPool

/-- How a try to connect goes: what `redisConnect` returns with its `err`, and the reply
to `AUTH`, `none` for a null one and otherwise whether it is an error. -/
structure Attempt (K : Type*) where
  conn : Option K
  err : Bool
  auth : Option Bool

/-- The connection that a try leads to. -/
def connect {K : Type*} (password : String) (attempt : Attempt K) : Option K :=
  match attempt.conn with
  | none => none
  | some conn =>
      if attempt.err then none
      else if password ≠ "" then
        match attempt.auth with
        | some false => some conn
        | _ => none
      else some conn

/-- `RedisPool::init`. -/
def init {K : Type*} (password : String) (attempts : List (Attempt K)) : List K :=
  attempts.filterMap (connect password)

/-- Redis is there and asks for no password. -/
theorem length_init {K : Type*} {attempts : List (Attempt K)}
    (h : ∀ attempt ∈ attempts, attempt.conn.isSome = true ∧ attempt.err = false) :
    (init "" attempts).length = attempts.length := by
  refine List.filterMap_length_eq_length.mpr ?_
  intro attempt hmem
  obtain ⟨hconn, herr⟩ := h attempt hmem
  obtain ⟨conn, hconn⟩ := Option.isSome_iff_exists.mp hconn
  simp [connect, hconn, herr]

end RedisPool

section Serves

variable {K : Type*} {n : ℕ} {actions : List ConnectionPool.Action} {p : ConnectionPool K}

/-- With a connection for every thread, no thread waits for ever. -/
theorem connectionPool_serves {conns : List K} (hn : n ≤ conns.length)
    (hrun : runs ConnectionPool.step (.start conns n) actions = some p) (hstuck : p.Stuck) :
    ∀ pc ∈ p.threads, pc = .away ∨ ∃ conn, pc = .owning conn := by
  obtain ⟨hrest, hasleep⟩ := connectionPool_rest hrun hstuck
  intro pc hmem
  rcases hrest pc hmem with haway | rfl | howning
  · exact .inl haway
  · have hfew := (hasleep hmem).2
    omega
  · exact .inr howning

/-- `main` makes 49 connections to the database, which is more than it has threads: when
all of them can be made, every `getConnection` returns. -/
theorem dbPool_serves {attempts : List (K × Bool)} (hall : ∀ attempt ∈ attempts, attempt.2 = true)
    (hn : n ≤ attempts.length)
    (hrun : runs ConnectionPool.step (.start (DBPool.init attempts) n) actions = some p)
    (hstuck : p.Stuck) : ∀ pc ∈ p.threads, pc = .away ∨ ∃ conn, pc = .owning conn :=
  connectionPool_serves (hn.trans (DBPool.length_init hall).ge) hrun hstuck

theorem redisPool_serves {attempts : List (RedisPool.Attempt K)}
    (hall : ∀ attempt ∈ attempts, attempt.conn.isSome = true ∧ attempt.err = false)
    (hn : n ≤ attempts.length)
    (hrun : runs ConnectionPool.step (.start (RedisPool.init "" attempts) n) actions = some p)
    (hstuck : p.Stuck) : ∀ pc ∈ p.threads, pc = .away ∨ ∃ conn, pc = .owning conn :=
  connectionPool_serves (hn.trans (RedisPool.length_init hall).ge) hrun hstuck

end Serves

end ExchangeServer
