import Mathlib.Algebra.Order.Group.Multiset
import Mathlib.Data.List.ReduceOption
import Mathlib.Tactic.Abel
import ExchangeServer.Lib.Runs
import ExchangeServer.Lib.Totals

/-!
# The thread pool

`ThreadPool.hpp`: workers that take tasks from a shared queue until the destructor
has told each of them to stop, by one empty function per worker behind the last task
and a flag.  Tasks are of any type.

`step` interleaves the workers with the thread that owns the pool: it enqueues the
tasks and later runs `~ThreadPool`, so the queue has one producer and is first in,
first out.  A worker that finds the queue empty waits; a `join` waits for its worker.

`Accounts` is the invariant: the sentinels stand behind the tasks, each that was sent
is in the queue or with a worker, and every task is queued, held or done.
`threadPool_finishes` is what it comes to, and `threadPool_stops` says that the
destructor cannot get stuck and comes to an end.
-/

namespace ExchangeServer

open Lib

namespace ThreadPool

variable {τ : Type*}

/-- Where a worker is in its loop. -/
inductive WorkerPc (τ : Type*) where
  /-- `wait_dequeue`. -/
  | waiting
  /-- Before its tests; `none` is the empty function. -/
  | testing (task : Option τ)
  /-- In `task()`. -/
  | running (task : τ)
  | returned
deriving DecidableEq, Repr

/-- Where the thread that owns the pool is. -/
inductive OwnerPc where
  /-- Before `~ThreadPool`. -/
  | serving
  /-- The loop that enqueues `nullptr`, at the index `i`. -/
  | sending (i : ℕ)
  | joining (i : ℕ)
  | destroyed
deriving DecidableEq, Repr

end ThreadPool

/-- `ThreadPool`, with the positions of its threads.  `enqueued` and `executed` are no
part of the program: they record the tasks that were handed in and those that
returned. -/
structure ThreadPool (τ : Type*) where
  /-- `tasks_`, the oldest first. -/
  tasks : List (Option τ)
  /-- `running_`. -/
  running : Bool
  /-- `workers_`. -/
  workers : List (ThreadPool.WorkerPc τ)
  owner : ThreadPool.OwnerPc
  enqueued : List τ
  executed : List τ

namespace ThreadPool

variable {τ : Type*}

/-- `ThreadPool(numThreads)`. -/
def start (numThreads : ℕ) : ThreadPool τ where
  tasks := []
  running := true
  workers := List.replicate numThreads .waiting
  owner := .serving
  enqueued := []
  executed := []

/-- What can happen. -/
inductive Action (τ : Type*) where
  /-- `enqueue`. -/
  | enqueue (task : τ)
  /-- `~ThreadPool` is entered and clears `running_`. -/
  | destroy
  /-- The next step of `~ThreadPool`. -/
  | owner
  | worker (w : ℕ)
deriving DecidableEq, Repr

/-- The tests of a worker that has taken `task`. -/
def afterTests (running : Bool) (task : Option τ) : WorkerPc τ :=
  if !running && task.isNone then .returned
  else
    match task with
    | some task => .running task
    | none => .waiting

/-- `~ThreadPool` after its first line. -/
def ownerStep (p : ThreadPool τ) : Option (ThreadPool τ) :=
  match p.owner with
  | .serving => none
  | .sending i =>
      if i < p.workers.length then
        some { p with tasks := p.tasks ++ [none], owner := .sending (i + 1) }
      else some { p with owner := .joining 0 }
  | .joining i =>
      match p.workers[i]? with
      | none => some { p with owner := .destroyed }
      | some .returned => some { p with owner := .joining (i + 1) }
      | some _ => none
  | .destroyed => none

/-- The body of the loop of worker `w`. -/
def workerStep (p : ThreadPool τ) (w : ℕ) : Option (ThreadPool τ) :=
  match p.workers[w]? with
  | some .waiting =>
      match p.tasks with
      | [] => none
      | task :: tasks =>
          some { p with tasks := tasks, workers := p.workers.set w (.testing task) }
  | some (.testing task) =>
      some { p with workers := p.workers.set w (afterTests p.running task) }
  | some (.running task) =>
      some
        { p with
          workers := p.workers.set w .waiting
          executed := p.executed ++ [task] }
  | some .returned => none
  | none => none

/-- **One action of any thread.** -/
def step (p : ThreadPool τ) : Action τ → Option (ThreadPool τ)
  | .enqueue task =>
      if p.owner = .serving then
        some { p with tasks := p.tasks ++ [some task], enqueued := p.enqueued ++ [task] }
      else none
  | .destroy =>
      if p.owner = .serving then some { p with running := false, owner := .sending 0 }
      else none
  | .owner => p.ownerStep
  | .worker w => p.workerStep w

/-- What a step does, with what it needs. -/
inductive Move (p : ThreadPool τ) : Action τ → ThreadPool τ → Prop where
  | enqueue (task : τ) (howner : p.owner = .serving) :
      Move p (.enqueue task)
        { p with tasks := p.tasks ++ [some task], enqueued := p.enqueued ++ [task] }
  | destroy (howner : p.owner = .serving) :
      Move p .destroy { p with running := false, owner := .sending 0 }
  | send (i : ℕ) (howner : p.owner = .sending i) (hmore : i < p.workers.length) :
      Move p .owner { p with tasks := p.tasks ++ [none], owner := .sending (i + 1) }
  | sent (i : ℕ) (howner : p.owner = .sending i) (hdone : p.workers.length ≤ i) :
      Move p .owner { p with owner := .joining 0 }
  | join (i : ℕ) (howner : p.owner = .joining i) (hreturned : p.workers[i]? = some .returned) :
      Move p .owner { p with owner := .joining (i + 1) }
  | joined (i : ℕ) (howner : p.owner = .joining i) (hdone : p.workers.length ≤ i) :
      Move p .owner { p with owner := .destroyed }
  | dequeue (w : ℕ) (task : Option τ) (tasks : List (Option τ))
      (hpc : p.workers[w]? = some .waiting) (hqueue : p.tasks = task :: tasks) :
      Move p (.worker w)
        { p with tasks := tasks, workers := p.workers.set w (.testing task) }
  | test (w : ℕ) (task : Option τ) (hpc : p.workers[w]? = some (.testing task)) :
      Move p (.worker w)
        { p with workers := p.workers.set w (afterTests p.running task) }
  | finish (w : ℕ) (task : τ) (hpc : p.workers[w]? = some (.running task)) :
      Move p (.worker w)
        { p with workers := p.workers.set w .waiting, executed := p.executed ++ [task] }

theorem ownerStep_spec {p p' : ThreadPool τ} (h : p.ownerStep = some p') : Move p .owner p' := by
  unfold ownerStep at h
  split at h
  case h_1 => cases h
  case h_2 i howner =>
      split_ifs at h with hmore
      · obtain rfl := Option.some.inj h
        exact .send i howner hmore
      · obtain rfl := Option.some.inj h
        exact .sent i howner (Nat.le_of_not_lt hmore)
  case h_3 i howner =>
      split at h
      case h_1 hnone =>
          obtain rfl := Option.some.inj h
          exact .joined i howner (List.getElem?_eq_none_iff.mp hnone)
      case h_2 hreturned =>
          obtain rfl := Option.some.inj h
          exact .join i howner hreturned
      case h_3 => cases h
  case h_4 => cases h

theorem workerStep_spec {p p' : ThreadPool τ} {w : ℕ} (h : p.workerStep w = some p') :
    Move p (.worker w) p' := by
  unfold workerStep at h
  split at h
  case h_1 hpc =>
      split at h
      case h_1 => cases h
      case h_2 task tasks hqueue =>
          obtain rfl := Option.some.inj h
          exact .dequeue w task tasks hpc hqueue
  case h_2 task hpc =>
      obtain rfl := Option.some.inj h
      exact .test w task hpc
  case h_3 task hpc =>
      obtain rfl := Option.some.inj h
      exact .finish w task hpc
  case h_4 => cases h
  case h_5 => cases h

/-- **Every step is one of the moves.** -/
theorem step_spec {p p' : ThreadPool τ} {a : Action τ} (h : p.step a = some p') :
    Move p a p' := by
  cases a with
  | enqueue task =>
      simp only [step] at h
      split_ifs at h with howner
      obtain rfl := Option.some.inj h
      exact .enqueue task howner
  | destroy =>
      simp only [step] at h
      split_ifs at h with howner
      obtain rfl := Option.some.inj h
      exact .destroy howner
  | owner => exact ownerStep_spec h
  | worker w => exact workerStep_spec h

/-! ## Sentinels and tasks -/

/-- The worker has taken a sentinel. -/
def WorkerPc.tookSentinel : WorkerPc τ → Bool
  | .testing none | .returned => true
  | .waiting | .testing (some _) | .running _ => false

/-- The task a worker has taken and not finished. -/
def WorkerPc.held : WorkerPc τ → Multiset τ
  | .testing (some task) | .running task => {task}
  | .waiting | .testing none | .returned => 0

/-- The tasks in the queue. -/
def pending (p : ThreadPool τ) : List τ :=
  p.tasks.reduceOption

/-- The sentinels in the queue. -/
def sentinels (p : ThreadPool τ) : ℕ :=
  p.tasks.countP Option.isNone

/-- The sentinels that have been enqueued. -/
def sent (p : ThreadPool τ) : ℕ :=
  match p.owner with
  | .serving => 0
  | .sending i => i
  | .joining _ | .destroyed => p.workers.length

/-- The workers that have taken a sentinel. -/
def taken (p : ThreadPool τ) : ℕ :=
  total (fun pc => if pc.tookSentinel then 1 else 0) p.workers

/-- **The accounts of the pool.** -/
structure Accounts (p : ThreadPool τ) : Prop where
  /-- Only sentinels stand behind a sentinel. -/
  behind : p.tasks.Pairwise fun front back => front = none → back = none
  sent : p.sent = p.sentinels + p.taken
  sent_le : p.sent ≤ p.workers.length
  /-- A sentinel is taken after all tasks. -/
  drained : 0 < p.taken → p.pending = []
  running : p.running = true ↔ p.owner = .serving
  work : (p.enqueued : Multiset τ) = p.executed + total WorkerPc.held p.workers + p.pending

theorem accounts_start (n : ℕ) : (start n : ThreadPool τ).Accounts := by
  have htaken : (start n : ThreadPool τ).taken = 0 :=
    total_eq_zero fun pc hpc => by rw [List.eq_of_mem_replicate hpc]; rfl
  have hheld : total WorkerPc.held (start n : ThreadPool τ).workers = 0 :=
    total_eq_zero fun pc hpc => by rw [List.eq_of_mem_replicate hpc]; rfl
  refine ⟨List.Pairwise.nil, ?_, Nat.zero_le _, fun _ => rfl, ⟨fun _ => rfl, fun _ => rfl⟩, ?_⟩
  · rw [htaken]
    rfl
  · rw [hheld]
    rfl

namespace Accounts

variable {p p' : ThreadPool τ}

/-- A sentinel that was taken had been sent, so the owner is in `~ThreadPool`. -/
theorem not_serving_of_taken (h : p.Accounts) (htaken : 0 < p.taken) : p.owner ≠ .serving := by
  intro howner
  have hsent : p.sent = 0 := by rw [ThreadPool.sent, howner]
  have hcount := h.sent
  omega

/-- Before `~ThreadPool` there are no sentinels. -/
theorem sentinels_of_serving (h : p.Accounts) (howner : p.owner = .serving) :
    p.sentinels = 0 ∧ p.taken = 0 := by
  have hsent : p.sent = 0 := by rw [ThreadPool.sent, howner]
  have hcount := h.sent
  omega

theorem taken_pos {pc : WorkerPc τ} (hpc : pc ∈ p.workers) (htook : pc.tookSentinel = true) :
    0 < p.taken := by
  have hle := le_total (fun pc : WorkerPc τ => if pc.tookSentinel then 1 else 0) hpc
  rw [if_pos htook] at hle
  exact hle

/-- The owner changes nothing but its own position. -/
theorem moveOwner (h : p.Accounts) {owner : OwnerPc} (hserving : p.owner ≠ .serving)
    (hserving' : owner ≠ .serving)
    (hsent : ({ p with owner := owner } : ThreadPool τ).sent = p.sent) :
    ({ p with owner := owner } : ThreadPool τ).Accounts where
  behind := h.behind
  sent := hsent.trans h.sent
  sent_le := hsent.trans_le h.sent_le
  drained := h.drained
  running := ⟨fun hrun => absurd (h.running.mp hrun) hserving, fun how => absurd how hserving'⟩
  work := h.work

/-- Worker `w` goes from `pc` to `pc'`, perhaps with something from the front of the
queue or to the end of the record; what it does to the totals is its own affair. -/
theorem moveWorker (h : p.Accounts) {w : ℕ} {pc pc' : WorkerPc τ} {tasks : List (Option τ)}
    (executed : List τ) (hpc : p.workers[w]? = some pc)
    (hbehind : tasks.Pairwise fun front back => front = none → back = none)
    (hsentinels : tasks.countP Option.isNone + (if pc'.tookSentinel then 1 else 0)
      = p.sentinels + if pc.tookSentinel then 1 else 0)
    (hdrained : pc'.tookSentinel = true ∨ 0 < p.taken → tasks.reduceOption = [])
    (hwork : (executed : Multiset τ) + pc'.held + tasks.reduceOption
      = p.executed + pc.held + p.pending) :
    ({ p with
      tasks := tasks
      workers := p.workers.set w pc'
      executed := executed } : ThreadPool τ).Accounts := by
  have htaken := total_set (fun pc : WorkerPc τ => if pc.tookSentinel then 1 else 0) hpc pc'
  have hheld := total_set WorkerPc.held hpc pc'
  have hlength : (p.workers.set w pc').length = p.workers.length := List.length_set
  have hsent : ({ p with
      tasks := tasks
      workers := p.workers.set w pc'
      executed := executed } : ThreadPool τ).sent = p.sent := by
    simp only [ThreadPool.sent, hlength]
  refine ⟨hbehind, ?_, ?_, ?_, h.running, ?_⟩
  · have hcount := h.sent
    show _ = tasks.countP Option.isNone + total _ (p.workers.set w pc')
    rw [hsent]
    unfold taken at hcount
    omega
  · show _ ≤ (p.workers.set w pc').length
    rw [hsent, hlength]
    exact h.sent_le
  · intro hpos
    have hpos' : 0 < total (fun pc : WorkerPc τ => if pc.tookSentinel then 1 else 0)
      (p.workers.set w pc') := hpos
    refine hdrained ?_
    by_cases htook : pc'.tookSentinel = true
    · exact .inl htook
    · rw [if_neg htook] at htaken
      exact .inr (by unfold taken; omega)
  · show (p.enqueued : Multiset τ)
      = executed + total WorkerPc.held (p.workers.set w pc') + tasks.reduceOption
    -- Both sides with what the worker held before.
    apply add_right_cancel (b := pc.held)
    calc (p.enqueued : Multiset τ) + pc.held
        = total WorkerPc.held p.workers + (p.executed + pc.held + p.pending) := by
          rw [h.work]
          abel
      _ = executed + (total WorkerPc.held p.workers + pc'.held) + tasks.reduceOption := by
          rw [← hwork]
          abel
      _ = executed + total WorkerPc.held (p.workers.set w pc') + tasks.reduceOption
            + pc.held := by
          rw [← hheld]
          abel

theorem step {a : Action τ} (h : p.Accounts) (hstep : p.step a = some p') : p'.Accounts := by
  cases step_spec hstep with
  | enqueue task howner =>
      obtain ⟨hsentinels, htaken⟩ := h.sentinels_of_serving howner
      have hpending : (p.tasks ++ [some task]).reduceOption = p.pending ++ [task] := by
        rw [List.reduceOption_append]
        rfl
      refine ⟨List.pairwise_append.mpr ⟨h.behind, List.pairwise_singleton .., ?_⟩, ?_,
        h.sent_le, fun hpos => absurd htaken (Nat.ne_of_gt hpos), h.running, ?_⟩
      · intro front hfront back _ hnone
        have hsome := List.countP_eq_zero.mp hsentinels front hfront
        rw [hnone] at hsome
        exact absurd rfl hsome
      · show p.sent = (p.tasks ++ [some task]).countP Option.isNone + p.taken
        rw [List.countP_append]
        exact h.sent
      · show ((p.enqueued ++ [task] : List τ) : Multiset τ)
          = p.executed + total WorkerPc.held p.workers + (p.tasks ++ [some task]).reduceOption
        rw [hpending, ← Multiset.coe_add, ← Multiset.coe_add, h.work, add_assoc]
  | destroy howner =>
      obtain ⟨hsentinels, htaken⟩ := h.sentinels_of_serving howner
      refine ⟨h.behind, ?_, Nat.zero_le _, h.drained, ⟨nofun, nofun⟩, h.work⟩
      show 0 = p.sentinels + p.taken
      rw [hsentinels, htaken]
  | send i howner hmore =>
      have hsent : p.sent = i := by rw [ThreadPool.sent, howner]
      have hpending : (p.tasks ++ [none]).reduceOption = p.pending := by
        rw [List.reduceOption_append]
        exact List.append_nil _
      refine ⟨List.pairwise_append.mpr ⟨h.behind, List.pairwise_singleton .., ?_⟩, ?_,
        hmore, fun hpos => hpending.trans (h.drained hpos), ?_, ?_⟩
      · intro front _ back hback _
        exact List.mem_singleton.mp hback
      · show i + 1 = (p.tasks ++ [none]).countP Option.isNone + p.taken
        have hcount := h.sent
        have hone : ([none] : List (Option τ)).countP Option.isNone = 1 := rfl
        rw [List.countP_append, hone]
        unfold sentinels at hcount
        omega
      · have hrunning := h.running
        rw [howner] at hrunning
        exact ⟨fun hrun => (nomatch hrunning.mp hrun), nofun⟩
      · show (p.enqueued : Multiset τ)
          = p.executed + total WorkerPc.held p.workers + (p.tasks ++ [none]).reduceOption
        rw [hpending]
        exact h.work
  | sent i howner hdone =>
      have hsent : p.sent = i := by rw [ThreadPool.sent, howner]
      refine h.moveOwner (by rw [howner]; exact nofun) nofun ?_
      exact hsent.symm ▸ Nat.le_antisymm hdone (hsent ▸ h.sent_le)
  | join i howner hreturned =>
      refine h.moveOwner (by rw [howner]; exact nofun) nofun ?_
      simp only [ThreadPool.sent, howner]
  | joined i howner hdone =>
      refine h.moveOwner (by rw [howner]; exact nofun) nofun ?_
      simp only [ThreadPool.sent, howner]
  | dequeue w task tasks hpc hqueue =>
      have hbehind := h.behind
      rw [hqueue] at hbehind
      obtain ⟨hfront, hrest⟩ := List.pairwise_cons.mp hbehind
      cases task with
      | none =>
          have hnil : tasks.reduceOption = [] :=
            List.filterMap_eq_nil_iff.mpr fun task htask => hfront task htask rfl
          have hpending : p.pending = [] := by
            rw [pending, hqueue, List.reduceOption_cons_of_none, hnil]
          refine h.moveWorker p.executed hpc hrest ?_ (fun _ => hnil) ?_
          · show tasks.countP Option.isNone + 1 = p.sentinels + 0
            rw [sentinels, hqueue, List.countP_cons]
            rfl
          · rw [hnil, hpending]
            rfl
      | some task =>
          have hpending : p.pending = task :: tasks.reduceOption := by
            rw [pending, hqueue, List.reduceOption_cons_of_some]
          refine h.moveWorker p.executed hpc hrest ?_ ?_ ?_
          · show tasks.countP Option.isNone + 0 = p.sentinels + 0
            rw [sentinels, hqueue, List.countP_cons]
            rfl
          · rintro (htook | hpos)
            · cases htook
            · rw [h.drained hpos] at hpending
              cases hpending
          · rw [hpending, ← Multiset.cons_coe, ← Multiset.singleton_add]
            show (p.executed : Multiset τ) + {task} + tasks.reduceOption
              = p.executed + 0 + ({task} + tasks.reduceOption)
            abel
  | test w task hpc =>
      cases task with
      | none =>
          have hpos : 0 < p.taken := taken_pos (List.mem_of_getElem? hpc) rfl
          have hrunning : p.running = false :=
            Bool.eq_false_iff.mpr fun hrun => h.not_serving_of_taken hpos (h.running.mp hrun)
          have hafter : afterTests p.running (none : Option τ) = .returned := by
            rw [hrunning]
            rfl
          rw [hafter]
          exact h.moveWorker p.executed hpc h.behind rfl
            (fun _ => h.drained hpos) rfl
      | some task =>
          have hafter : afterTests p.running (some task) = .running task := by
            rw [afterTests, Option.isNone_some, Bool.and_false]
            rfl
          rw [hafter]
          refine h.moveWorker p.executed hpc h.behind rfl ?_ rfl
          rintro (htook | hpos)
          · cases htook
          · exact h.drained hpos
  | finish w task hpc =>
      refine h.moveWorker _ hpc h.behind rfl ?_ ?_
      · rintro (htook | hpos)
        · cases htook
        · exact h.drained hpos
      · rw [← Multiset.coe_add, Multiset.coe_singleton]
        exact congrArg (· + (p.pending : Multiset τ)) (add_zero _)

/-- The workers that have not taken a sentinel, counted. -/
theorem taken_add (p : ThreadPool τ) :
    p.taken + p.workers.countP (fun pc => !pc.tookSentinel) = p.workers.length := by
  rw [taken, total_boole, List.length_eq_countP_add_countP WorkerPc.tookSentinel]
  simp only [Bool.not_eq_true, Bool.decide_eq_false]

end Accounts

theorem accounts_of_runs {n : ℕ} {actions : List (Action τ)} {p : ThreadPool τ}
    (hrun : runs step (start n) actions = some p) : p.Accounts :=
  runs_induction (P := Accounts) (fun _ _ _ h hstep => h.step hstep) actions
    (accounts_start n) hrun

theorem length_workers_of_runs {n : ℕ} {actions : List (Action τ)} {p : ThreadPool τ}
    (hrun : runs step (start n) actions = some p) : p.workers.length = n := by
  refine runs_induction (P := fun p => p.workers.length = n) ?_ actions
    List.length_replicate hrun
  intro p a p' h hstep
  cases step_spec hstep with
  | enqueue | destroy | send | sent | join | joined => exact h
  | dequeue | test | finish => exact List.length_set.trans h

/-! ## Joining -/

/-- The workers that have been joined. -/
def joinedWorkers (p : ThreadPool τ) : ℕ :=
  match p.owner with
  | .serving | .sending _ => 0
  | .joining i => i
  | .destroyed => p.workers.length

/-- A worker that was joined has returned. -/
def Joined (p : ThreadPool τ) : Prop :=
  ∀ i < p.joinedWorkers, p.workers[i]? = some .returned

theorem Joined.moveWorker {p p' : ThreadPool τ} {w : ℕ} {pc pc' : WorkerPc τ} (h : p.Joined)
    (hpc : p.workers[w]? = some pc) (hmoves : pc ≠ .returned)
    (hworkers : p'.workers = p.workers.set w pc') (howner : p'.owner = p.owner) : p'.Joined := by
  have hjoined : p'.joinedWorkers = p.joinedWorkers := by
    have hlength : p'.workers.length = p.workers.length := hworkers ▸ List.length_set
    rw [joinedWorkers, joinedWorkers, howner, hlength]
  intro i hi
  rw [hjoined] at hi
  have hne : w ≠ i := by
    rintro rfl
    rw [h w hi] at hpc
    exact hmoves (Option.some.inj hpc).symm
  rw [hworkers, List.getElem?_set_ne hne]
  exact h i hi

theorem Joined.step {p p' : ThreadPool τ} {a : Action τ} (h : p.Joined)
    (hstep : p.step a = some p') : p'.Joined := by
  cases step_spec hstep with
  | enqueue => exact h
  | destroy howner => exact fun i hi => absurd hi (Nat.not_lt_zero i)
  | send i howner hmore => exact fun i hi => absurd hi (Nat.not_lt_zero i)
  | sent i howner hdone => exact fun i hi => absurd hi (Nat.not_lt_zero i)
  | join i howner hreturned =>
      intro k hk
      have hi : p.joinedWorkers = i := by rw [joinedWorkers, howner]
      rcases Nat.lt_succ_iff_lt_or_eq.mp hk with hlt | rfl
      · exact h k (hi ▸ hlt)
      · exact hreturned
  | joined i howner hdone =>
      intro k hk
      have hi : p.joinedWorkers = i := by rw [joinedWorkers, howner]
      exact h k (hi ▸ Nat.lt_of_lt_of_le hk hdone)
  | dequeue w task tasks hpc hqueue => exact h.moveWorker hpc nofun rfl rfl
  | test w task hpc => exact h.moveWorker hpc nofun rfl rfl
  | finish w task hpc => exact h.moveWorker hpc nofun rfl rfl

theorem joined_of_runs {n : ℕ} {actions : List (Action τ)} {p : ThreadPool τ}
    (hrun : runs step (start n) actions = some p) : p.Joined := by
  refine runs_induction (P := Joined) (fun _ _ _ h hstep => h.step hstep) actions ?_ hrun
  exact fun i hi => absurd hi (Nat.not_lt_zero i)

/-- The destructor has waited for all workers. -/
theorem Joined.returned {p : ThreadPool τ} (h : p.Joined) (howner : p.owner = .destroyed) :
    ∀ pc ∈ p.workers, pc = .returned := by
  intro pc hpc
  obtain ⟨i, hi⟩ := List.mem_iff_getElem?.mp hpc
  have hlt : i < p.workers.length := (List.getElem?_eq_some_iff.mp hi).1
  have hjoined : p.joinedWorkers = p.workers.length := by rw [joinedWorkers, howner]
  exact Option.some.inj (hi.symm.trans (h i (hjoined ▸ hlt)))

end ThreadPool

/-! ## The pool finishes its work -/

/-- **The pool finishes all work before it is destroyed**, for any number of workers,
any tasks and any interleaving.  A worker returns only after `~ThreadPool` was entered
and all tasks were dequeued; once all sentinels are enqueued, as many are left as there
are workers that have not taken one, so no worker waits on an empty queue; and when all
workers have returned, which the destructor waits for, every task was executed once. -/
theorem threadPool_finishes {τ : Type*} (n : ℕ) (hn : 1 ≤ n)
    (actions : List (ThreadPool.Action τ)) (p : ThreadPool τ)
    (hrun : runs ThreadPool.step (ThreadPool.start n) actions = some p) :
    (ThreadPool.WorkerPc.returned ∈ p.workers →
      p.owner ≠ .serving ∧ ∀ task, some task ∉ p.tasks) ∧
    (p.sent = n →
      p.sentinels = p.workers.countP (fun pc => !pc.tookSentinel) ∧
        (ThreadPool.WorkerPc.waiting ∈ p.workers → p.tasks ≠ [])) ∧
    ((∀ pc ∈ p.workers, pc = .returned) → p.executed.Perm p.enqueued) ∧
    (p.owner = .destroyed → ∀ pc ∈ p.workers, pc = .returned) := by
  have haccounts := ThreadPool.accounts_of_runs hrun
  have hlength := ThreadPool.length_workers_of_runs hrun
  have hdrained : ThreadPool.WorkerPc.returned ∈ p.workers → p.pending = [] := fun hpc =>
    haccounts.drained (ThreadPool.Accounts.taken_pos hpc rfl)
  refine ⟨fun hpc => ⟨?_, fun task htask => ?_⟩, fun hsent => ?_, fun hall => ?_,
    (ThreadPool.joined_of_runs hrun).returned⟩
  · exact haccounts.not_serving_of_taken (ThreadPool.Accounts.taken_pos hpc rfl)
  · have hmem : task ∈ p.pending := List.reduceOption_mem_iff.mpr htask
    rw [hdrained hpc] at hmem
    cases hmem
  · have hcount := haccounts.sent
    have htaken := ThreadPool.Accounts.taken_add p
    have hleft : p.sentinels = p.workers.countP fun pc => !pc.tookSentinel := by omega
    refine ⟨hleft, fun hwaiting hempty => ?_⟩
    have hpos : 0 < p.workers.countP fun pc => !pc.tookSentinel :=
      List.countP_pos_iff.mpr ⟨.waiting, hwaiting, rfl⟩
    rw [← hleft, ThreadPool.sentinels, hempty] at hpos
    exact absurd hpos (Nat.lt_irrefl 0)
  · have hfirst : p.workers[0]? = some .returned := by
      rw [List.getElem?_eq_getElem (by omega)]
      exact congrArg some (hall _ (List.getElem_mem _))
    have hheld : total ThreadPool.WorkerPc.held p.workers = 0 :=
      total_eq_zero fun pc hpc => by rw [hall pc hpc]; rfl
    have hwork := haccounts.work
    rw [hheld, hdrained (List.mem_of_getElem? hfirst), add_zero, Multiset.coe_nil,
      add_zero] at hwork
    exact (Multiset.coe_eq_coe.mp hwork).symm

/-- Two workers and two tasks: one is still being executed when the other worker is
told to stop. -/
theorem threadPool_finishes_sample :
    ∃ p, runs ThreadPool.step (ThreadPool.start 2)
        [.enqueue 7, .enqueue 8, .worker 0, .worker 1, .worker 1, .worker 1, .worker 0,
          .destroy, .owner, .worker 1, .owner, .worker 1, .worker 0, .worker 0, .worker 0,
          .owner, .owner, .owner, .owner] = some p ∧
      p.owner = .destroyed ∧ p.executed = [8, 7] ∧ p.executed.Perm p.enqueued := by
  refine ⟨_, runs_eq_runsTo ThreadPool.step (by decide), by decide, by decide, ?_⟩
  exact (threadPool_finishes 2 (by decide) _ _
    (runs_eq_runsTo ThreadPool.step (by decide))).2.2.1 (by decide)

namespace ThreadPool

/-! ## The destructor comes to an end -/

/-- The steps the owner still has in `~ThreadPool`, and the two that a worker takes for
each sentinel that is yet to be enqueued. -/
def OwnerPc.remaining (n : ℕ) : OwnerPc → ℕ
  | .serving => 4 * n + 3
  | .sending i => 3 * (n - i) + n + 2
  | .joining i => n - i + 1
  | .destroyed => 0

/-- The steps a worker still takes for an element of the queue. -/
def queuedSteps : Option τ → ℕ
  | some _ => 3
  | none => 2

/-- The steps a worker still takes for what it holds. -/
def WorkerPc.remaining : WorkerPc τ → ℕ
  | .testing (some _) => 2
  | .testing none | .running _ => 1
  | .waiting | .returned => 0

/-- A bound on the steps that are left. -/
def remaining (p : ThreadPool τ) : ℕ :=
  p.owner.remaining p.workers.length + total queuedSteps p.tasks
    + total WorkerPc.remaining p.workers

theorem remaining_afterTests (running : Bool) (task : Option τ) :
    (afterTests running task).remaining < (WorkerPc.testing task).remaining := by
  cases task with
  | none => cases running <;> exact Nat.one_pos
  | some task => cases running <;> exact Nat.lt_succ_self 1

/-- Every step but `enqueue` leaves less to do, and `enqueue` adds the steps for its
task. -/
theorem remaining_step {p p' : ThreadPool τ} {a : Action τ} (hstep : p.step a = some p') :
    1 + p'.remaining + 4 * p.enqueued.length ≤ p.remaining + 4 * p'.enqueued.length := by
  have hworker : ∀ {w : ℕ} {pc : WorkerPc τ} (pc' : WorkerPc τ), p.workers[w]? = some pc →
      total WorkerPc.remaining (p.workers.set w pc') + pc.remaining
        = total WorkerPc.remaining p.workers + pc'.remaining := fun pc' hpc => total_set _ hpc pc'
  cases step_spec hstep with
  | enqueue task howner =>
      simp only [remaining, total_append, total_cons, total_nil, queuedSteps,
        List.length_append, List.length_singleton]
      omega
  | destroy howner =>
      simp only [remaining, howner, OwnerPc.remaining]
      omega
  | send i howner hmore =>
      simp only [remaining, howner, OwnerPc.remaining, total_append, total_cons, total_nil,
        queuedSteps]
      omega
  | sent i howner hdone =>
      simp only [remaining, howner, OwnerPc.remaining]
      omega
  | join i howner hreturned =>
      have hi : i < p.workers.length := (List.getElem?_eq_some_iff.mp hreturned).1
      simp only [remaining, howner, OwnerPc.remaining]
      omega
  | joined i howner hdone =>
      simp only [remaining, howner, OwnerPc.remaining]
      omega
  | dequeue w task tasks hpc hqueue =>
      have hmove := hworker (.testing task) hpc
      simp only [remaining, hqueue, total_cons, List.length_set]
      cases task with
      | none =>
          simp only [queuedSteps, WorkerPc.remaining] at hmove ⊢
          omega
      | some task =>
          simp only [queuedSteps, WorkerPc.remaining] at hmove ⊢
          omega
  | test w task hpc =>
      have hmove := hworker (afterTests p.running task) hpc
      have hless := remaining_afterTests p.running task
      simp only [remaining, List.length_set]
      omega
  | finish w task hpc =>
      have hmove := hworker .waiting hpc
      simp only [remaining, WorkerPc.remaining, List.length_set] at hmove ⊢
      omega

theorem remaining_of_runs {n : ℕ} {actions : List (Action τ)} {p : ThreadPool τ}
    (hrun : runs step (start n) actions = some p) :
    actions.length + p.remaining ≤ 4 * n + 3 + 4 * p.enqueued.length := by
  refine runs_reachable (I := fun actions p =>
    actions.length + p.remaining ≤ 4 * n + 3 + 4 * p.enqueued.length) actions ?_ ?_ hrun
  · have hidle : total WorkerPc.remaining (start n : ThreadPool τ).workers = 0 :=
      total_eq_zero fun pc hpc => by rw [List.eq_of_mem_replicate hpc]; rfl
    have howner : (start n : ThreadPool τ).owner.remaining (start n : ThreadPool τ).workers.length
        = 4 * n + 3 := congrArg (4 * · + 3) List.length_replicate
    rw [remaining, hidle, howner]
    show 0 + (4 * n + 3 + 0 + 0) ≤ 4 * n + 3 + 4 * 0
    omega
  · intro actions p a p' _ h hstep
    have hless := remaining_step hstep
    rw [List.length_append, List.length_singleton]
    omega

/-- **No deadlock**: the owner waits only for a worker that can move. -/
theorem Accounts.exists_step {p : ThreadPool τ} (h : p.Accounts) (hserving : p.owner ≠ .serving)
    (hdestroyed : p.owner ≠ .destroyed) : ∃ a, (p.step a).isSome = true := by
  cases howner : p.owner with
  | serving => exact absurd howner hserving
  | destroyed => exact absurd howner hdestroyed
  | sending i =>
      by_cases hmore : i < p.workers.length
      · refine ⟨.owner, ?_⟩
        simp only [ThreadPool.step, ownerStep, howner, if_pos hmore, Option.isSome_some]
      · refine ⟨.owner, ?_⟩
        simp only [ThreadPool.step, ownerStep, howner, if_neg hmore, Option.isSome_some]
  | joining i =>
      cases hpc : p.workers[i]? with
      | none =>
          refine ⟨.owner, ?_⟩
          simp only [ThreadPool.step, ownerStep, howner, hpc, Option.isSome_some]
      | some pc =>
          cases pc with
          | returned =>
              refine ⟨.owner, ?_⟩
              simp only [ThreadPool.step, ownerStep, howner, hpc, Option.isSome_some]
          | testing task =>
              refine ⟨.worker i, ?_⟩
              simp only [ThreadPool.step, workerStep, hpc, Option.isSome_some]
          | running task =>
              refine ⟨.worker i, ?_⟩
              simp only [ThreadPool.step, workerStep, hpc, Option.isSome_some]
          | waiting =>
              -- A sentinel is left for the worker that is waited for.
              have hsent : p.sent = p.workers.length := by rw [ThreadPool.sent, howner]
              have hleft : 0 < p.workers.countP fun pc => !pc.tookSentinel :=
                List.countP_pos_iff.mpr ⟨.waiting, List.mem_of_getElem? hpc, rfl⟩
              have hcount := h.sent
              have htaken := taken_add p
              cases htasks : p.tasks with
              | nil =>
                  have hnone : p.sentinels = 0 := by rw [sentinels, htasks]; rfl
                  omega
              | cons task tasks =>
                  refine ⟨.worker i, ?_⟩
                  simp only [ThreadPool.step, workerStep, hpc, htasks, Option.isSome_some]

end ThreadPool

/-- **The destructor returns.**  A run has at most `4 * n + 3` steps and four for each
task that was enqueued, and once `~ThreadPool` is entered some thread can move until
the pool is destroyed. -/
theorem threadPool_stops {τ : Type*} (n : ℕ) (actions : List (ThreadPool.Action τ))
    (p : ThreadPool τ) (hrun : runs ThreadPool.step (ThreadPool.start n) actions = some p) :
    actions.length ≤ 4 * n + 3 + 4 * p.enqueued.length ∧
      (p.owner ≠ .serving → p.owner ≠ .destroyed → ∃ a, (p.step a).isSome = true) :=
  ⟨Nat.le_of_add_right_le (ThreadPool.remaining_of_runs hrun),
    (ThreadPool.accounts_of_runs hrun).exists_step⟩

end ExchangeServer
