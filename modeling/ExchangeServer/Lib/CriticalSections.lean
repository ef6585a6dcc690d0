import Mathlib.Algebra.BigOperators.Group.Finset.Piecewise
import Mathlib.Data.Finset.Basic
import ExchangeServer.Lib.Linearizability

/-!
# Threads that work in critical sections

The memory is a family of cells, each with a mutex of its own that can be taken
shared or exclusively.  A method is a `Prog`: one critical section after the other,
each under the mutex of its cell, which it releases before the next one begins.
Inside a section a thread makes one access at a time, and the accesses of all
threads interleave (`Threads.step`).

`Sections` runs the same methods with every section as one step.
`Threads.reduction`: whatever the threads do access by access, an observer also sees
when every section is one step.
-/

namespace ExchangeServer.Lib

/-! ## Sections and methods -/

/-- What is done under a shared lock: look at the cell, several times if need be. -/
inductive Reader (V X : Type*) where
  | done (x : X)
  | look (next : V → Reader V X)

/-- What is done under an exclusive lock: one statement after the other.  `next` sees
the cell as it was before the statement. -/
inductive Body (V X : Type*) where
  | done (x : X)
  | act (f : V → V) (next : V → Body V X)

/-- The result of a section that nobody interferes with. -/
def Reader.run {V X : Type*} : Reader V X → V → X
  | .done x, _ => x
  | .look next, v => (next v).run v

/-- The cell after a section that nobody interferes with, and its result. -/
def Body.run {V X : Type*} : Body V X → V → V × X
  | .done x, v => (v, x)
  | .act f next, v => (next v).run (f v)

variable {L T C R : Type*} {V : L → Type*}

/-- A method: sections under the locks of cells, and the answer in the end. -/
inductive Prog (V : L → Type*) (R : Type*) where
  | ret (r : R)
  | shared {X : Type} (l : L) (b : Reader (V l) X) (k : X → Prog V R)
  | exclusive {X : Type} (l : L) (b : Body (V l) X) (k : X → Prog V R)

/-- A thread: it has no call to answer, is between two sections, or is in one. -/
inductive Thread (V : L → Type*) (R : Type*) where
  | idle
  | ready (p : Prog V R)
  | reading {X : Type} (l : L) (b : Reader (V l) X) (k : X → Prog V R)
  | inside {X : Type} (l : L) (b : Body (V l) X) (k : X → Prog V R)

namespace Thread

/-- The cell that the thread has locked exclusively. -/
def writes : Thread V R → Option L
  | .inside l _ _ => some l
  | _ => none

/-- What the thread is about to answer. -/
def answer : Thread V R → Option R
  | .ready (.ret r) => some r
  | _ => none

/-- The cell that the thread has locked shared. -/
def reads : Thread V R → Option L
  | .reading l _ _ => some l
  | _ => none

end Thread

/-- `std::shared_mutex`: who holds it. -/
structure SharedMutex (T : Type*) where
  writer : Option T
  readers : Finset T

/-- The memory, the locks and the threads. -/
structure Threads (V : L → Type*) (T R : Type*) where
  mem : (l : L) → V l
  lock : L → SharedMutex T
  thread : T → Thread V R

/-- What happens next: a thread begins a call, or does its next step. -/
inductive Turn (T C : Type*) where
  | call (t : T) (c : C)
  | step (t : T)

namespace Threads

variable [DecidableEq L] [DecidableEq T]

/-- Nobody is doing anything. -/
def start (mem : (l : L) → V l) : Threads V T R :=
  ⟨mem, fun _ => ⟨none, ∅⟩, fun _ => .idle⟩

/-- A step of one thread; `none` while it has nothing to do or waits for a lock. -/
def advance (s : Threads V T R) (t : T) : Option (Threads V T R) :=
  match s.thread t with
  | .idle => none
  | .ready (.ret _) => some { s with thread := Function.update s.thread t .idle }
  | .ready (.shared l b k) =>
      if (s.lock l).writer = none then
        some { s with
          lock := Function.update s.lock l
            { s.lock l with readers := insert t (s.lock l).readers }
          thread := Function.update s.thread t (.reading l b k) }
      else none
  | .ready (.exclusive l b k) =>
      if (s.lock l).writer = none ∧ (s.lock l).readers = ∅ then
        some { s with
          lock := Function.update s.lock l { s.lock l with writer := some t }
          thread := Function.update s.thread t (.inside l b k) }
      else none
  | .reading l (.done x) k =>
      some { s with
        lock := Function.update s.lock l
          { s.lock l with readers := (s.lock l).readers.erase t }
        thread := Function.update s.thread t (.ready (k x)) }
  | .reading l (.look next) k =>
      some { s with thread := Function.update s.thread t (.reading l (next (s.mem l)) k) }
  | .inside l (.done x) k =>
      some { s with
        lock := Function.update s.lock l { s.lock l with writer := none }
        thread := Function.update s.thread t (.ready (k x)) }
  | .inside l (.act f next) k =>
      some { s with
        mem := Function.update s.mem l (f (s.mem l))
        thread := Function.update s.thread t (.inside l (next (s.mem l)) k) }

/-- The threads, where the call `c` runs the method `method c`. -/
def step (method : C → Prog V R) (s : Threads V T R) : Turn T C → Option (Threads V T R)
  | .call t c =>
      match s.thread t with
      | .idle => some { s with thread := Function.update s.thread t (.ready (method c)) }
      | _ => none
  | .step t => s.advance t

/-- What is seen of a turn. -/
def seen (s : Threads V T R) : Turn T C → List (CallEvent T C R)
  | .call t c => [.call t c]
  | .step t => ((s.thread t).answer.map (CallEvent.ret t)).toList

/-- What is seen of a run. -/
def history (method : C → Prog V R) (s : Threads V T R) (turns : List (Turn T C)) :
    List (CallEvent T C R) :=
  follow (fun s a h => h ++ s.seen a) (step method) s [] turns

/-! ## Who holds the locks -/

/-- The locks know who is in a section, and nobody reads while somebody writes. -/
structure Held (s : Threads V T R) : Prop where
  writer : ∀ l t, (s.lock l).writer = some t ↔ (s.thread t).writes = some l
  readers : ∀ l t, t ∈ (s.lock l).readers ↔ (s.thread t).reads = some l
  exclusive : ∀ l, (s.lock l).writer ≠ none → (s.lock l).readers = ∅

namespace Held

omit [DecidableEq L] [DecidableEq T] in
theorem start (mem : (l : L) → V l) : (start mem : Threads V T R).Held where
  writer _ _ := by simp [Threads.start, Thread.writes]
  readers _ _ := by simp [Threads.start, Thread.reads]
  exclusive _ h := absurd rfl h

variable {s : Threads V T R} (h : s.Held)
include h

omit [DecidableEq L] in
/-- A step that neither takes nor releases a lock. -/
theorem move {t : T} {th : Thread V R} (hwrites : th.writes = (s.thread t).writes)
    (hreads : th.reads = (s.thread t).reads) (mem : (l : L) → V l) :
    Held { s with mem := mem, thread := Function.update s.thread t th } where
  writer l u := by
    rcases eq_or_ne u t with rfl | hne
    · simp only [Function.update_self, hwrites, h.writer]
    · simp only [Function.update_of_ne hne, h.writer]
  readers l u := by
    rcases eq_or_ne u t with rfl | hne
    · simp only [Function.update_self, hreads, h.readers]
    · simp only [Function.update_of_ne hne, h.readers]
  exclusive := h.exclusive

/-- A step that gives lock `l` the holders `m`, where the other threads hold it as
before. -/
theorem relock {t : T} {th : Thread V R} {l : L} {m : SharedMutex T}
    (hwrites : ∀ u, m.writer = some u ↔
      if u = t then th.writes = some l else (s.thread u).writes = some l)
    (hreads : ∀ u, u ∈ m.readers ↔
      if u = t then th.reads = some l else (s.thread u).reads = some l)
    (hexclusive : m.writer ≠ none → m.readers = ∅)
    (hother : ∀ l', l' ≠ l → (th.writes = some l' ↔ (s.thread t).writes = some l') ∧
      (th.reads = some l' ↔ (s.thread t).reads = some l')) :
    Held { s with
      lock := Function.update s.lock l m, thread := Function.update s.thread t th } where
  writer l' u := by
    rcases eq_or_ne l' l with rfl | hl
    · simp only [Function.update_self, hwrites, Function.update_apply]
      split_ifs <;> rfl
    · simp only [Function.update_of_ne hl, h.writer, Function.update_apply]
      split_ifs with hu
      · rw [hu, (hother l' hl).1]
      · rfl
  readers l' u := by
    rcases eq_or_ne l' l with rfl | hl
    · simp only [Function.update_self, hreads, Function.update_apply]
      split_ifs <;> rfl
    · simp only [Function.update_of_ne hl, h.readers, Function.update_apply]
      split_ifs with hu
      · rw [hu, (hother l' hl).2]
      · rfl
  exclusive l' := by
    rcases eq_or_ne l' l with rfl | hl
    · simpa only [Function.update_self] using hexclusive
    · simpa only [Function.update_of_ne hl] using h.exclusive l'

omit [DecidableEq L] [DecidableEq T] in
/-- Nobody writes what somebody reads. -/
theorem writer_of_reads {l : L} {t : T} (hreads : (s.thread t).reads = some l) :
    (s.lock l).writer = none := by
  by_contra hwriter
  have hmem := (h.readers l t).mpr hreads
  rw [h.exclusive l hwriter] at hmem
  exact absurd hmem (Finset.notMem_empty t)

omit [DecidableEq L] [DecidableEq T] in
/-- There is one writer at a time. -/
theorem writes_unique {l : L} {t u : T} (ht : (s.thread t).writes = some l)
    (hu : (s.thread u).writes = some l) : t = u :=
  Option.some.inj (((h.writer l t).mpr ht).symm.trans ((h.writer l u).mpr hu))

end Held

/-! ## Turns one by one -/

/-- The steps of thread `t`, one by one. -/
inductive Advances (s : Threads V T R) (t : T) : Threads V T R → Prop
  | ret {r : R} : s.thread t = .ready (.ret r) →
      Advances s t { s with thread := Function.update s.thread t .idle }
  | lockShared {X : Type} {l : L} {b : Reader (V l) X} {k : X → Prog V R} :
      s.thread t = .ready (.shared l b k) → (s.lock l).writer = none →
      Advances s t { s with
        lock := Function.update s.lock l
          { s.lock l with readers := insert t (s.lock l).readers }
        thread := Function.update s.thread t (.reading l b k) }
  | lock {X : Type} {l : L} {b : Body (V l) X} {k : X → Prog V R} :
      s.thread t = .ready (.exclusive l b k) →
      (s.lock l).writer = none → (s.lock l).readers = ∅ →
      Advances s t { s with
        lock := Function.update s.lock l { s.lock l with writer := some t }
        thread := Function.update s.thread t (.inside l b k) }
  | unlockShared {X : Type} {l : L} {x : X} {k : X → Prog V R} :
      s.thread t = .reading l (.done x) k →
      Advances s t { s with
        lock := Function.update s.lock l
          { s.lock l with readers := (s.lock l).readers.erase t }
        thread := Function.update s.thread t (.ready (k x)) }
  | look {X : Type} {l : L} {next : V l → Reader (V l) X} {k : X → Prog V R} :
      s.thread t = .reading l (.look next) k →
      Advances s t
        { s with thread := Function.update s.thread t (.reading l (next (s.mem l)) k) }
  | unlock {X : Type} {l : L} {x : X} {k : X → Prog V R} :
      s.thread t = .inside l (.done x) k →
      Advances s t { s with
        lock := Function.update s.lock l { s.lock l with writer := none }
        thread := Function.update s.thread t (.ready (k x)) }
  | act {X : Type} {l : L} {f : V l → V l} {next : V l → Body (V l) X} {k : X → Prog V R} :
      s.thread t = .inside l (.act f next) k →
      Advances s t { s with
        mem := Function.update s.mem l (f (s.mem l))
        thread := Function.update s.thread t (.inside l (next (s.mem l)) k) }

theorem advance_cases {s s' : Threads V T R} {t : T} (h : s.advance t = some s') :
    s.Advances t s' := by
  unfold advance at h
  split at h
  case h_1 => cases h
  case h_2 r hth =>
      cases h
      exact .ret hth
  case h_3 l b k hth =>
      split_ifs at h with hfree
      cases h
      exact .lockShared hth hfree
  case h_4 l b k hth =>
      split_ifs at h with hfree
      cases h
      exact .lock hth hfree.1 hfree.2
  case h_5 l x k hth =>
      cases h
      exact .unlockShared hth
  case h_6 l next k hth =>
      cases h
      exact .look hth
  case h_7 l x k hth =>
      cases h
      exact .unlock hth
  case h_8 l f next k hth =>
      cases h
      exact .act hth

theorem step_call {method : C → Prog V R} {s s' : Threads V T R} {t : T} {c : C}
    (h : s.step method (.call t c) = some s') : s.thread t = .idle ∧
      s' = { s with thread := Function.update s.thread t (.ready (method c)) } := by
  unfold step at h
  dsimp only at h
  split at h
  case h_1 hidle => exact ⟨hidle, (Option.some.inj h).symm⟩
  case h_2 => cases h

namespace Held

variable {s : Threads V T R} (h : s.Held)
include h

theorem advances {t : T} {s' : Threads V T R} (hadv : s.Advances t s') : s'.Held := by
  cases hadv with
  | ret hth => exact h.move (by rw [hth]; rfl) (by rw [hth]; rfl) _
  | look hth => exact h.move (by rw [hth]; rfl) (by rw [hth]; rfl) _
  | act hth => exact h.move (by rw [hth]; rfl) (by rw [hth]; rfl) _
  | @lockShared _ l b k hth hfree =>
      refine h.relock (fun u => ?_) (fun u => ?_) (fun hw => absurd hfree hw) fun l' hl => ?_
      · rw [hfree, ← h.writer, hfree]
        simp [Thread.writes]
      · rw [Finset.mem_insert, h.readers]
        split_ifs with hu <;> simp [hu, Thread.reads]
      · simp [hth, Thread.writes, Thread.reads, hl.symm]
  | @lock _ l b k hth hfree hnone =>
      refine h.relock (fun u => ?_) (fun u => ?_) (fun _ => hnone) fun l' hl => ?_
      · rw [← h.writer, hfree]
        split_ifs with hu
        · simp [hu, Thread.writes]
        · simp [Ne.symm hu]
      · rw [hnone, ← h.readers, hnone]
        simp [Thread.reads]
      · simp [hth, Thread.writes, Thread.reads, hl.symm]
  | @unlockShared _ l x k hth =>
      have hreads : (s.thread t).reads = some l := by
        rw [hth]
        rfl
      have hfree := h.writer_of_reads hreads
      refine h.relock (fun u => ?_) (fun u => ?_) (fun hw => absurd hfree hw) fun l' hl => ?_
      · rw [hfree, ← h.writer, hfree]
        simp [Thread.writes]
      · rw [Finset.mem_erase, h.readers]
        split_ifs with hu <;> simp [hu, Thread.reads]
      · simp [hth, Thread.writes, Thread.reads, hl.symm]
  | @unlock _ l x k hth =>
      have hwrites : (s.thread t).writes = some l := by
        rw [hth]
        rfl
      have hwriter := (h.writer l t).mpr hwrites
      have hnone := h.exclusive l (by rw [hwriter]; exact Option.some_ne_none t)
      refine h.relock (fun u => ?_) (fun u => ?_) (fun _ => hnone) fun l' hl => ?_
      · rw [← h.writer, hwriter]
        split_ifs with hu
        · simp [Thread.writes]
        · simp [Ne.symm hu]
      · rw [hnone, ← h.readers, hnone]
        simp [Thread.reads]
      · simp [hth, Thread.writes, Thread.reads, hl.symm]

end Held

end Threads

/-! ## One step for every section -/

variable [DecidableEq L] [DecidableEq T]

/-- A whole section: the memory after it and what is left of the method. -/
def Prog.next : Prog V R → ((l : L) → V l) → Option (((l : L) → V l) × Prog V R)
  | .ret _, _ => none
  | .shared l b k, m => some (m, k (b.run (m l)))
  | .exclusive l b k, m => some (Function.update m l (b.run (m l)).1, k (b.run (m l)).2)

/-- The same methods with every section as one step: what has been seen, the memory,
and what the threads have left to do. -/
inductive Sections (method : C → Prog V R) (mem₀ : (l : L) → V l) :
    List (CallEvent T C R) → ((l : L) → V l) → (T → Option (Prog V R)) → Prop
  | start : Sections method mem₀ [] mem₀ fun _ => none
  | call {h m p} (t : T) (c : C) : Sections method mem₀ h m p → p t = none →
      Sections method mem₀ (h ++ [.call t c]) m (Function.update p t (some (method c)))
  | sect {h m p m'} (t : T) {q q' : Prog V R} : Sections method mem₀ h m p → p t = some q →
      q.next m = some (m', q') → Sections method mem₀ h m' (Function.update p t (some q'))
  | ret {h m p} (t : T) {r : R} : Sections method mem₀ h m p → p t = some (.ret r) →
      Sections method mem₀ (h ++ [.ret t r]) m (Function.update p t none)

/-- A thread in the middle of a section has still to make the whole section, and will
then be where what is left of the section leads. -/
def Thread.At (mem m : (l : L) → V l) : Thread V R → Option (Prog V R) → Prop
  | .idle, p => p = none
  | .ready q, p => p = some q
  | .reading l b k, p => ∃ b₀, p = some (.shared l b₀ k) ∧ b.run (mem l) = b₀.run (mem l)
  | .inside l b k, p => ∃ b₀, p = some (.exclusive l b₀ k) ∧ b.run (mem l) = b₀.run (m l)

omit [DecidableEq L] in
/-- The others may change what the thread has not locked. -/
theorem Thread.At.frame {mem m mem' m' : (l : L) → V l} {th : Thread V R}
    {p : Option (Prog V R)} (h : th.At mem m p) (hreads : ∀ l, th.reads = some l → mem' l = mem l)
    (hwrites : ∀ l, th.writes = some l → mem' l = mem l ∧ m' l = m l) : th.At mem' m' p := by
  cases th with
  | idle => exact h
  | ready q => exact h
  | reading l b k =>
      obtain ⟨b₀, hp, hrun⟩ := h
      refine ⟨b₀, hp, ?_⟩
      rw [hreads l rfl, hrun]
  | inside l b k =>
      obtain ⟨b₀, hp, hrun⟩ := h
      refine ⟨b₀, hp, ?_⟩
      rw [(hwrites l rfl).1, (hwrites l rfl).2, hrun]

namespace Threads

/-- Sections in the middle have not happened yet; the rest of the memory is the same. -/
structure Simulates (s : Threads V T R) (m : (l : L) → V l) (p : T → Option (Prog V R)) :
    Prop where
  mem : ∀ l, (s.lock l).writer = none → s.mem l = m l
  thread : ∀ t, (s.thread t).At s.mem m (p t)

omit [DecidableEq L] in
/-- A turn of thread `t`, when the others find their cells as they left them. -/
theorem Simulates.turn {s s' : Threads V T R} {m m' : (l : L) → V l}
    {p p' : T → Option (Prog V R)} (h : s.Simulates m p) {t : T} {th : Thread V R}
    (hthread : s'.thread = Function.update s.thread t th) (hp : ∀ u, u ≠ t → p' u = p u)
    (hmem : ∀ l, (s'.lock l).writer = none → s'.mem l = m' l) (hat : th.At s'.mem m' (p' t))
    (hreads : ∀ u l, u ≠ t → (s.thread u).reads = some l → s'.mem l = s.mem l)
    (hwrites : ∀ u l, u ≠ t → (s.thread u).writes = some l →
      s'.mem l = s.mem l ∧ m' l = m l) : s'.Simulates m' p' where
  mem := hmem
  thread u := by
    rw [hthread]
    rcases eq_or_ne u t with rfl | hne
    · simpa only [Function.update_self] using hat
    · simp only [Function.update_of_ne hne]
      rw [hp u hne]
      exact (h.thread u).frame (fun l => hreads u l hne) fun l => hwrites u l hne

variable {method : C → Prog V R} {mem₀ : (l : L) → V l}

omit [DecidableEq L] [DecidableEq T] in
/-- Nothing is seen of a thread that does not answer. -/
theorem seen_step {s : Threads V T R} {t : T} (hth : (s.thread t).answer = none) :
    (s.seen (.step t) : List (CallEvent T C R)) = [] := by
  rw [seen, hth]
  rfl

/-- **One step.**  Releasing a lock is where its section happens: no lock holder is
disturbed in its section, and with a shared lock held nobody writes. -/
theorem advances_sections {s s' : Threads V T R} {t : T} {h : List (CallEvent T C R)}
    {m : (l : L) → V l} {p : T → Option (Prog V R)} (hheld : s.Held) (hsim : s.Simulates m p)
    (hsec : Sections method mem₀ h m p) (hadv : s.Advances t s') :
    ∃ m' p', Sections method mem₀ (h ++ s.seen (.step t)) m' p' ∧ s'.Simulates m' p' := by
  have hat := hsim.thread t
  have hsame : ∀ u, u ≠ t → p u = p u := fun _ _ => rfl
  cases hadv with
  | @ret r hth =>
      rw [hth] at hat
      have hseen : (s.seen (.step t) : List (CallEvent T C R)) = [.ret t r] := by
        rw [seen, hth]
        rfl
      rw [hseen]
      refine ⟨m, _, hsec.ret t hat, hsim.turn rfl (fun u hu => Function.update_of_ne hu _ _)
        hsim.mem ?_ (fun _ _ _ _ => rfl) fun _ _ _ _ => ⟨rfl, rfl⟩⟩
      rw [Function.update_self]
      rfl
  | @lockShared _ l b k hth hfree =>
      rw [hth] at hat
      rw [seen_step (by rw [hth]; rfl), List.append_nil]
      refine ⟨m, p, hsec, hsim.turn rfl hsame (fun l' hl' => hsim.mem l' ?_)
        ⟨b, hat, rfl⟩ (fun _ _ _ _ => rfl) fun _ _ _ _ => ⟨rfl, rfl⟩⟩
      rcases eq_or_ne l' l with rfl | hl
      · exact hfree
      · simpa only [Function.update_of_ne hl] using hl'
  | @lock _ l b k hth hfree hnone =>
      rw [hth] at hat
      rw [seen_step (by rw [hth]; rfl), List.append_nil]
      refine ⟨m, p, hsec, hsim.turn rfl hsame (fun l' hl' => hsim.mem l' ?_)
        ⟨b, hat, ?_⟩ (fun _ _ _ _ => rfl) fun _ _ _ _ => ⟨rfl, rfl⟩⟩
      · rcases eq_or_ne l' l with rfl | hl
        · exact hfree
        · simpa only [Function.update_of_ne hl] using hl'
      · rw [hsim.mem l hfree]
  | @unlockShared _ l x k hth =>
      have hreads : (s.thread t).reads = some l := by
        rw [hth]
        rfl
      have hfree := hheld.writer_of_reads hreads
      rw [hth] at hat
      rw [seen_step (by rw [hth]; rfl), List.append_nil]
      obtain ⟨b₀, hp, hrun⟩ := hat
      have hresult : b₀.run (m l) = x := by
        rw [← hsim.mem l hfree, ← hrun]
        rfl
      refine ⟨m, _, hsec.sect t hp rfl, hsim.turn rfl (fun u hu => Function.update_of_ne hu _ _)
        (fun l' hl' => hsim.mem l' ?_) ?_ (fun _ _ _ _ => rfl) fun _ _ _ _ => ⟨rfl, rfl⟩⟩
      · rcases eq_or_ne l' l with rfl | hl
        · exact hfree
        · simpa only [Function.update_of_ne hl] using hl'
      · rw [Function.update_self, hresult]
        rfl
  | @look _ l next k hth =>
      rw [hth] at hat
      rw [seen_step (by rw [hth]; rfl), List.append_nil]
      obtain ⟨b₀, hp, hrun⟩ := hat
      exact ⟨m, p, hsec, hsim.turn rfl hsame hsim.mem ⟨b₀, hp, hrun⟩ (fun _ _ _ _ => rfl)
        fun _ _ _ _ => ⟨rfl, rfl⟩⟩
  | @unlock _ l x k hth =>
      have hwrites : (s.thread t).writes = some l := by
        rw [hth]
        rfl
      rw [hth] at hat
      rw [seen_step (by rw [hth]; rfl), List.append_nil]
      obtain ⟨b₀, hp, hrun⟩ := hat
      have hresult : b₀.run (m l) = (s.mem l, x) := hrun.symm
      refine ⟨_, _, hsec.sect t hp rfl, hsim.turn rfl (fun u hu => Function.update_of_ne hu _ _)
        (fun l' hl' => ?_) ?_ (fun _ _ _ _ => rfl) fun u l' hu hw => ⟨rfl, ?_⟩⟩
      · rcases eq_or_ne l' l with rfl | hl
        · rw [Function.update_self, hresult]
        · rw [Function.update_of_ne hl]
          exact hsim.mem l' (by simpa only [Function.update_of_ne hl] using hl')
      · rw [Function.update_self, hresult]
        rfl
      · refine Function.update_of_ne ?_ _ _
        rintro rfl
        exact hu (hheld.writes_unique hw hwrites)
  | @act _ l f next k hth =>
      have hwrites : (s.thread t).writes = some l := by
        rw [hth]
        rfl
      have hwriter := (hheld.writer l t).mpr hwrites
      rw [hth] at hat
      rw [seen_step (by rw [hth]; rfl), List.append_nil]
      obtain ⟨b₀, hp, hrun⟩ := hat
      refine ⟨m, p, hsec, hsim.turn rfl hsame (fun l' hl' => ?_) ⟨b₀, hp, ?_⟩
        (fun u l' hu hr => ?_) fun u l' hu hw => ⟨?_, rfl⟩⟩
      · have hl : l' ≠ l := by
          rintro rfl
          exact absurd (hwriter.symm.trans hl') (Option.some_ne_none t)
        exact (Function.update_of_ne hl _ _).trans (hsim.mem l' hl')
      · dsimp only
        rw [← hrun, Function.update_self]
        rfl
      · refine Function.update_of_ne ?_ _ _
        rintro rfl
        exact absurd (hwriter.symm.trans (hheld.writer_of_reads hr)) (Option.some_ne_none t)
      · refine Function.update_of_ne ?_ _ _
        rintro rfl
        exact hu (hheld.writes_unique hw hwrites)

/-- **Reduction.**  What is seen of a run, access by access, is also seen when every
section is one step; and the cells that nobody is writing to are then the same. -/
theorem reduction {s : Threads V T R} (turns : List (Turn T C))
    (hrun : runs (step method) (start mem₀) turns = some s) :
    s.Held ∧ ∃ m p, Sections method mem₀ (history method (start mem₀) turns) m p ∧
      s.Simulates m p := by
  refine follow_induction (I := fun s h => s.Held ∧ ∃ m p,
    Sections method mem₀ h m p ∧ s.Simulates m p) (fun s h a s' hI hstep => ?_) turns
    ⟨Held.start mem₀, mem₀, fun _ => none, .start, fun _ _ => rfl, fun _ => rfl⟩ hrun
  obtain ⟨hheld, m, p, hsec, hsim⟩ := hI
  cases a with
  | step t =>
      have hadv := advance_cases hstep
      exact ⟨hheld.advances hadv, advances_sections hheld hsim hsec hadv⟩
  | call t c =>
      obtain ⟨hidle, rfl⟩ := step_call hstep
      have hat := hsim.thread t
      rw [hidle] at hat
      refine ⟨hheld.move (by rw [hidle]; rfl) (by rw [hidle]; rfl) _, m, _, hsec.call t c hat,
        hsim.turn rfl (fun u hu => Function.update_of_ne hu _ _) hsim.mem ?_
        (fun _ _ _ _ => rfl) fun _ _ _ _ => ⟨rfl, rfl⟩⟩
      rw [Function.update_self]
      rfl

end Threads

/-! ## Progress -/

/-- At most `n` looks. -/
def Reader.Within {V X : Type*} : Reader V X → ℕ → Prop
  | .done _, _ => True
  | .look _, 0 => False
  | .look next, n + 1 => ∀ v, (next v).Within n

/-- At most `n` statements. -/
def Body.Within {V X : Type*} : Body V X → ℕ → Prop
  | .done _, _ => True
  | .act _ _, 0 => False
  | .act _ next, n + 1 => ∀ v, (next v).Within n

/-- At most `n` steps to the end of the answer; a lock is taken and released in two. -/
def Prog.Within : Prog V R → ℕ → Prop
  | .ret _, n => 1 ≤ n
  | .shared _ b k, n => ∃ i j, b.Within i ∧ (∀ x, (k x).Within j) ∧ i + 2 + j ≤ n
  | .exclusive _ b k, n => ∃ i j, b.Within i ∧ (∀ x, (k x).Within j) ∧ i + 2 + j ≤ n

/-- At most `n` steps to the end of the call the thread is in. -/
def Thread.Within : Thread V R → ℕ → Prop
  | .idle, _ => True
  | .ready p, n => p.Within n
  | .reading _ b k, n => ∃ i j, b.Within i ∧ (∀ x, (k x).Within j) ∧ i + 1 + j ≤ n
  | .inside _ b k, n => ∃ i j, b.Within i ∧ (∀ x, (k x).Within j) ∧ i + 1 + j ≤ n

/-- The turn begins a call. -/
def Turn.isCall : Turn T C → Bool
  | .call _ _ => true
  | .step _ => false

/-- The turn is a step of a call. -/
def Turn.isStep : Turn T C → Bool
  | .call _ _ => false
  | .step _ => true

namespace Threads

/-- Every step brings its thread nearer to its answer, and moves no other thread. -/
theorem Advances.within {s s' : Threads V T R} {t : T} (h : s.Advances t s') {n : ℕ}
    (hn : (s.thread t).Within n) : ∃ th n', s'.thread = Function.update s.thread t th ∧
      n' < n ∧ th.Within n' := by
  cases h with
  | ret hth =>
      rw [hth] at hn
      exact ⟨_, 0, rfl, hn, trivial⟩
  | lockShared hth _ =>
      rw [hth] at hn
      obtain ⟨i, j, hb, hk, hle⟩ := hn
      exact ⟨_, i + 1 + j, rfl, by omega, i, j, hb, hk, le_rfl⟩
  | lock hth _ _ =>
      rw [hth] at hn
      obtain ⟨i, j, hb, hk, hle⟩ := hn
      exact ⟨_, i + 1 + j, rfl, by omega, i, j, hb, hk, le_rfl⟩
  | @unlockShared _ _ x _ hth =>
      rw [hth] at hn
      obtain ⟨i, j, -, hk, hle⟩ := hn
      exact ⟨_, j, rfl, by omega, hk x⟩
  | @unlock _ _ x _ hth =>
      rw [hth] at hn
      obtain ⟨i, j, -, hk, hle⟩ := hn
      exact ⟨_, j, rfl, by omega, hk x⟩
  | @look _ l _ _ hth =>
      rw [hth] at hn
      obtain ⟨i, j, hb, hk, hle⟩ := hn
      cases i with
      | zero => exact hb.elim
      | succ i => exact ⟨_, i + 1 + j, rfl, by omega, i, j, hb (s.mem l), hk, le_rfl⟩
  | @act _ l _ _ _ hth =>
      rw [hth] at hn
      obtain ⟨i, j, hb, hk, hle⟩ := hn
      cases i with
      | zero => exact hb.elim
      | succ i => exact ⟨_, i + 1 + j, rfl, by omega, i, j, hb (s.mem l), hk, le_rfl⟩

variable {method : C → Prog V R} {mem₀ : (l : L) → V l}

section Paid

variable [Fintype T]

/-- The steps that have been taken and those that are left are paid for by the calls. -/
def Paid (B : ℕ) (turns : List (Turn T C)) (s : Threads V T R) : Prop :=
  ∃ left : T → ℕ, (∀ t, (s.thread t).Within (left t)) ∧
    turns.countP Turn.isStep + ∑ t, left t ≤ B * turns.countP Turn.isCall

omit [DecidableEq L] in
/-- What is left changes for the one thread that moves. -/
theorem Paid.move {B : ℕ} {turns : List (Turn T C)} {s s' : Threads V T R} {a : Turn T C}
    {left : T → ℕ} (hleft : ∀ t, (s.thread t).Within (left t)) {t : T} {th : Thread V R} {n : ℕ}
    (hthread : s'.thread = Function.update s.thread t th) (hn : th.Within n)
    (hle : (turns ++ [a]).countP Turn.isStep + (∑ u, left u + n)
      ≤ B * (turns ++ [a]).countP Turn.isCall + left t) : Paid B (turns ++ [a]) s' := by
  refine ⟨Function.update left t n, fun u => ?_, ?_⟩
  · rw [hthread]
    rcases eq_or_ne u t with rfl | hne
    · simpa only [Function.update_self] using hn
    · simpa only [Function.update_of_ne hne] using hleft u
  · have hsplit := Finset.add_sum_erase Finset.univ left (Finset.mem_univ t)
    rw [Finset.sum_update_of_mem (Finset.mem_univ t), Finset.sdiff_singleton_eq_erase]
    omega

/-- **However the threads are scheduled, a call costs at most `B` steps.** -/
theorem steps_le {B : ℕ} (hmethod : ∀ c, (method c).Within B) {s : Threads V T R}
    (turns : List (Turn T C)) (hrun : runs (step method) (start mem₀) turns = some s) :
    turns.countP Turn.isStep ≤ B * turns.countP Turn.isCall := by
  have hstart : Paid (C := C) B [] (start mem₀ : Threads V T R) :=
    ⟨fun _ => 0, fun _ => trivial, by simp⟩
  have hpaid : Paid B turns s := by
    refine runs_reachable turns hstart (fun turns s a s' _ hI hstep => ?_) hrun
    obtain ⟨left, hleft, hle⟩ := hI
    cases a with
    | call t c =>
        obtain ⟨-, rfl⟩ := step_call hstep
        refine Paid.move hleft rfl (hmethod c) ?_
        simp only [List.countP_append, List.countP_singleton, Turn.isStep, Turn.isCall]
        simp only [Bool.false_eq_true, if_false, if_true, Nat.mul_add]
        omega
    | step t =>
        obtain ⟨th, n, hthread, hlt, hn⟩ := (advance_cases hstep).within (hleft t)
        refine Paid.move hleft hthread hn ?_
        simp only [List.countP_append, List.countP_singleton, Turn.isStep, Turn.isCall]
        simp only [Bool.false_eq_true, if_false, if_true, Nat.add_zero]
        omega
  obtain ⟨left, -, hle⟩ := hpaid
  omega

end Paid

/-- A thread that is in a section need not wait. -/
theorem advance_of_holds {s : Threads V T R} {t : T} {l : L}
    (h : (s.thread t).writes = some l ∨ (s.thread t).reads = some l) : s.advance t ≠ none := by
  unfold advance
  rcases hth : s.thread t with _ | _ | ⟨_, _ | _, _⟩ | ⟨_, _ | _, _⟩
  · rw [hth] at h
    rcases h with h | h <;> cases h
  · rw [hth] at h
    rcases h with h | h <;> cases h
  all_goals exact Option.some_ne_none _

/-- **No deadlock.**  A thread holds one lock at a time, so whoever keeps another one
waiting can move. -/
theorem progress {s : Threads V T R} (hheld : s.Held) (hstuck : ∀ t, s.advance t = none) (t : T) :
    s.thread t = .idle := by
  have hwriter : ∀ l, (s.lock l).writer = none := by
    intro l
    by_contra hsome
    obtain ⟨u, hu⟩ := Option.ne_none_iff_exists'.mp hsome
    exact advance_of_holds (.inl ((hheld.writer l u).mp hu)) (hstuck u)
  have hreaders : ∀ l, (s.lock l).readers = ∅ := by
    intro l
    refine Finset.eq_empty_of_forall_notMem fun u hu => ?_
    exact advance_of_holds (.inr ((hheld.readers l u).mp hu)) (hstuck u)
  -- all locks are free
  have hmove := hstuck t
  unfold advance at hmove
  rcases hth : s.thread t with _ | p | ⟨l, b, k⟩ | ⟨l, b, k⟩
  · rfl
  · rw [hth] at hmove
    cases p with
    | ret r => cases hmove
    | shared l b k =>
        dsimp only at hmove
        rw [if_pos (hwriter l)] at hmove
        cases hmove
    | exclusive l b k =>
        dsimp only at hmove
        rw [if_pos ⟨hwriter l, hreaders l⟩] at hmove
        cases hmove
  · exact absurd (hstuck t) (advance_of_holds (l := l) (.inr (by rw [hth]; rfl)))
  · exact absurd (hstuck t) (advance_of_holds (l := l) (.inl (by rw [hth]; rfl)))

end Threads

end ExchangeServer.Lib
