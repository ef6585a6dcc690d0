import ExchangeServer.Lib.Containers
import ExchangeServer.Lib.Runs

/-!
# The timer manager

`TimerManager.hpp`.  `addTimer` pushes a node on a heap and sets an entry of a
table; `cancelTimer` erases the entry and leaves the node, and a re-armed timer
leaves its old node.  `handleTimeouts` recognises the nodes that are left over by
comparing their time with the entry, and `operator[]` creates that entry when there
is none.

The purpose of all this is a table of deadlines, `deadlines`.
`handleTimeouts_fires_deadlines` says that the manager is that table: what is left
over never fires, and the entries made by the comparison are no deadlines.
-/

namespace ExchangeServer

open Lib

/-- `int fd`. -/
abbrev Fd := Int32

/-- `TimePoint`: nanoseconds since the epoch of the clock, which it never shows a
time before.  The default time point is the epoch. -/
abbrev TimePoint := ℕ

/-- `std::chrono::seconds`. -/
def seconds (n : ℕ) : ℕ :=
  n * 10 ^ 9

theorem seconds_pos {n : ℕ} (h : 0 < n) : 0 < seconds n :=
  Nat.mul_pos h (by decide)

/-- `TimerNode`. -/
structure TimerNode where
  fd : Fd
  expire : TimePoint
deriving DecidableEq, Repr

/-- `TimerManager`, without its mutex. -/
structure TimerManager where
  minHeap : PriorityQueue TimerNode
  secretTable : UnorderedMap Fd TimePoint

namespace TimerManager

/-- The manager as it is constructed. -/
def new : TimerManager :=
  ⟨[], ∅⟩

/-- What `addTimer` does while it holds the mutex. -/
def arm (m : TimerManager) (fd : Fd) (expire : TimePoint) : TimerManager :=
  ⟨m.minHeap.push ⟨fd, expire⟩, m.secretTable.insert fd expire⟩

/-- `addTimer`, from its reading of the clock. -/
def addTimer (m : TimerManager) (now : TimePoint) (fd : Fd) (timeoutSec : ℕ) : TimerManager :=
  m.arm fd (now + seconds timeoutSec)

/-- `cancelTimer`. -/
def cancelTimer (m : TimerManager) (fd : Fd) : TimerManager :=
  { m with secretTable := m.secretTable.erase fd }

/-- The value of `secretTable_[fd]`. -/
def entry (m : TimerManager) (fd : Fd) : TimePoint :=
  (m.secretTable.lookup fd).getD 0

/-- `secretTable_[fd]` leaves an entry behind. -/
def touch (m : TimerManager) (fd : Fd) : TimerManager :=
  { m with secretTable := m.secretTable.insert fd (m.entry fd) }

/-- `top()` may be this node. -/
def IsTop (m : TimerManager) (top : TimerNode) : Prop :=
  m.minHeap.IsTop TimerNode.expire top

instance (m : TimerManager) (top : TimerNode) : Decidable (m.IsTop top) :=
  inferInstanceAs (Decidable (m.minHeap.IsTop TimerNode.expire top))

/-- `pop()`. -/
def pop (m : TimerManager) (top : TimerNode) : TimerManager :=
  { m with minHeap := m.minHeap.pop top }

/-- What follows the callback. -/
def finish (m : TimerManager) (top : TimerNode) : TimerManager :=
  (m.pop top).cancelTimer top.fd

/-- `handleTimeouts`, from its reading of the clock, with a callback that leaves the
manager alone: the descriptors the callback is given, in order.  `tops` is what
`top()` shows, turn by turn. -/
def handleTimeouts (now : TimePoint) :
    List TimerNode → TimerManager → Option (List Fd × TimerManager)
  | [], m => if m.minHeap = [] then some ([], m) else none
  | top :: tops, m =>
      if m.IsTop top then
        if now < top.expire then if tops = [] then some ([], m) else none
        else if top.expire ≠ m.entry top.fd then
          handleTimeouts now tops ((m.touch top.fd).pop top)
        else
          (handleTimeouts now tops ((m.touch top.fd).finish top)).map fun out =>
            (top.fd :: out.1, out.2)
      else none

theorem lookup_arm (m : TimerManager) (fd fd' : Fd) (expire : TimePoint) :
    (m.arm fd expire).secretTable.lookup fd'
      = if fd' = fd then some expire else m.secretTable.lookup fd' :=
  UnorderedMap.lookup_insert_eq m.secretTable fd fd' expire

theorem lookup_cancelTimer (m : TimerManager) (fd fd' : Fd) :
    (m.cancelTimer fd).secretTable.lookup fd'
      = if fd' = fd then none else m.secretTable.lookup fd' := by
  unfold cancelTimer
  split_ifs with h
  · rw [h]
    exact AList.lookup_erase fd m.secretTable
  · exact AList.lookup_erase_ne h

theorem lookup_touch (m : TimerManager) (fd fd' : Fd) :
    (m.touch fd).secretTable.lookup fd'
      = if fd' = fd then some (m.entry fd) else m.secretTable.lookup fd' :=
  UnorderedMap.lookup_insert_eq m.secretTable fd fd' (m.entry fd)

end TimerManager

/-! ## The table of deadlines -/

/-- A call of a method.  The time is the reading of the clock that it makes. -/
inductive TimerCall where
  | addTimer (now : TimePoint) (fd : Fd) (timeoutSec : ℕ)
  | cancelTimer (fd : Fd)
  | handleTimeouts (now : TimePoint) (tops : List TimerNode)
deriving DecidableEq, Repr

namespace TimerCall

/-- The timeout of the call, if it sets one, is positive. -/
def Positive : TimerCall → Prop
  | addTimer _ _ timeoutSec => 0 < timeoutSec
  | _ => True

instance : (call : TimerCall) → Decidable call.Positive
  | addTimer _ _ timeoutSec => inferInstanceAs (Decidable (0 < timeoutSec))
  | cancelTimer _ => isTrue trivial
  | handleTimeouts _ _ => isTrue trivial

end TimerCall

/-- One call. -/
def TimerManager.step (m : TimerManager) : TimerCall → Option TimerManager
  | .addTimer now fd timeoutSec => some (m.addTimer now fd timeoutSec)
  | .cancelTimer fd => some (m.cancelTimer fd)
  | .handleTimeouts now tops => (TimerManager.handleTimeouts now tops m).map Prod.snd

/-- What the manager is for: the deadline of every descriptor that has one. -/
abbrev DeadlineTable := Fd → Option TimePoint

namespace DeadlineTable

/-- A descriptor gets a deadline, or loses the one it has. -/
def set (T : DeadlineTable) (fd : Fd) (deadline : Option TimePoint) : DeadlineTable :=
  Function.update T fd deadline

@[simp] theorem set_self (T : DeadlineTable) (fd : Fd) (deadline : Option TimePoint) :
    T.set fd deadline fd = deadline := by
  unfold set
  rw [Function.update_self]

theorem set_of_ne {fd fd' : Fd} (hne : fd' ≠ fd) (T : DeadlineTable)
    (deadline : Option TimePoint) : T.set fd deadline fd' = T fd' := by
  unfold set
  rw [Function.update_of_ne hne]

/-- The deadlines that are left after a pass. -/
def fire (T : DeadlineTable) (now : TimePoint) : DeadlineTable :=
  fun fd => (T fd).filter fun d => now < d

/-- One call. -/
def step (T : DeadlineTable) : TimerCall → DeadlineTable
  | .addTimer now fd timeoutSec => T.set fd (some (now + seconds timeoutSec))
  | .cancelTimer fd => T.set fd none
  | .handleTimeouts now _ => T.fire now

/-- A pass at `now` gives its callback every descriptor that is due, once, in the
order of the deadlines, and no other. -/
structure Fires (T : DeadlineTable) (now : TimePoint) (fired : List Fd) : Prop where
  once : fired.Nodup
  due : ∀ fd, fd ∈ fired ↔ ∃ d, T fd = some d ∧ d ≤ now
  ordered : fired.Pairwise fun a b => ∀ d e, T a = some d → T b = some e → d ≤ e

theorem fire_eq_some {T : DeadlineTable} {now : TimePoint} {fd : Fd} {d : TimePoint} :
    T.fire now fd = some d ↔ T fd = some d ∧ now < d := by
  unfold fire
  rw [Option.filter_eq_some_iff, decide_eq_true_iff]

/-- When nothing is due, a pass changes nothing. -/
theorem fire_of_none_due {T : DeadlineTable} {now : TimePoint}
    (h : ∀ fd d, T fd = some d → now < d) : T.fire now = T := by
  funext fd
  cases hfd : T fd with
  | none =>
      unfold fire
      rw [hfd]
      rfl
  | some d => exact fire_eq_some.mpr ⟨hfd, h fd d hfd⟩

/-- A pass may begin with any deadline that is due. -/
theorem fire_update {T : DeadlineTable} {now : TimePoint} {fd : Fd} {d : TimePoint}
    (h : T fd = some d) (hdue : d ≤ now) : (T.set fd none).fire now = T.fire now := by
  funext fd'
  unfold fire
  by_cases heq : fd' = fd
  · subst heq
    rw [set_self, h]
    show none = Option.filter (fun d => decide (now < d)) (some d)
    rw [Option.filter_some, if_neg (by simpa using hdue)]
  · rw [set_of_ne heq]

end DeadlineTable

/-- The deadlines that are set after some calls. -/
def deadlines (calls : List TimerCall) : DeadlineTable :=
  calls.foldl DeadlineTable.step fun _ => none

/-! ## The manager is the table -/

/-- How the manager keeps the deadlines: each is in the table and on the heap.  An
entry that is no deadline is one that `operator[]` made, and no node can match it,
because a node is never as early as the epoch. -/
structure TimerManager.Keeps (m : TimerManager) (T : DeadlineTable) : Prop where
  nodes : ∀ n ∈ m.minHeap, 0 < n.expire
  armed : ∀ fd d, T fd = some d → m.secretTable.lookup fd = some d ∧ ⟨fd, d⟩ ∈ m.minHeap
  entries : ∀ fd d, m.secretTable.lookup fd = some d → d = 0 ∨ T fd = some d

namespace TimerManager.Keeps

open DeadlineTable

variable {m m' : TimerManager} {T : DeadlineTable} {top : TimerNode} {now : TimePoint}

theorem new : TimerManager.new.Keeps fun _ => none where
  nodes _ hn := by cases hn
  armed _ _ h := by cases h
  entries _ _ h := by cases h

theorem arm (h : m.Keeps T) (fd : Fd) {expire : TimePoint} (hpos : 0 < expire) :
    (m.arm fd expire).Keeps (T.set fd (some expire)) := by
  refine ⟨?_, ?_, ?_⟩
  · intro n hn
    rcases PriorityQueue.mem_push.mp hn with rfl | hn
    · exact hpos
    · exact h.nodes n hn
  · intro fd' d hd
    rw [lookup_arm]
    by_cases heq : fd' = fd
    · subst heq
      rw [set_self] at hd
      obtain rfl := Option.some.inj hd
      exact ⟨if_pos rfl, PriorityQueue.mem_push.mpr (Or.inl rfl)⟩
    · rw [set_of_ne heq] at hd
      obtain ⟨hlookup, hnode⟩ := h.armed fd' d hd
      rw [if_neg heq]
      exact ⟨hlookup, PriorityQueue.mem_push.mpr (Or.inr hnode)⟩
  · intro fd' d hd
    rw [lookup_arm] at hd
    by_cases heq : fd' = fd
    · rw [if_pos heq] at hd
      rw [heq, set_self]
      exact Or.inr hd
    · rw [if_neg heq] at hd
      rw [set_of_ne heq]
      exact h.entries fd' d hd

theorem cancelTimer (h : m.Keeps T) (fd : Fd) :
    (m.cancelTimer fd).Keeps (T.set fd none) := by
  refine ⟨h.nodes, ?_, ?_⟩
  · intro fd' d hd
    by_cases heq : fd' = fd
    · rw [heq, set_self] at hd
      cases hd
    · rw [set_of_ne heq] at hd
      rw [lookup_cancelTimer, if_neg heq]
      exact h.armed fd' d hd
  · intro fd' d hd
    rw [lookup_cancelTimer] at hd
    by_cases heq : fd' = fd
    · rw [if_pos heq] at hd
      cases hd
    · rw [if_neg heq] at hd
      rw [set_of_ne heq]
      exact h.entries fd' d hd

theorem touch (h : m.Keeps T) (fd : Fd) : (m.touch fd).Keeps T := by
  refine ⟨h.nodes, ?_, ?_⟩
  · intro fd' d hd
    obtain ⟨hlookup, hnode⟩ := h.armed fd' d hd
    refine ⟨?_, hnode⟩
    rw [lookup_touch]
    split_ifs with heq
    · subst heq
      rw [entry, hlookup, Option.getD_some]
    · exact hlookup
  · intro fd' d hd
    rw [lookup_touch] at hd
    by_cases heq : fd' = fd
    · subst heq
      rw [if_pos rfl, entry] at hd
      cases hlookup : m.secretTable.lookup fd' with
      | none =>
          rw [hlookup] at hd
          exact Or.inl (Option.some.inj hd).symm
      | some e =>
          rw [hlookup] at hd
          exact h.entries fd' d (hlookup.trans hd)
    · rw [if_neg heq] at hd
      exact h.entries fd' d hd

/-- Taking a node off the heap costs no deadline but its own. -/
theorem pop (h : m.Keeps T) (hnot : T top.fd ≠ some top.expire) : (m.pop top).Keeps T := by
  refine ⟨fun n hn => h.nodes n (PriorityQueue.mem_of_mem_pop hn), ?_, h.entries⟩
  intro fd d hd
  obtain ⟨hlookup, hnode⟩ := h.armed fd d hd
  have hne : (⟨fd, d⟩ : TimerNode) ≠ top := by
    rintro rfl
    exact hnot hd
  exact ⟨hlookup, (PriorityQueue.mem_pop_of_ne hne).mpr hnode⟩

/-- **The comparison is right**: a node matches the entry if and only if it is the
deadline of its descriptor. -/
theorem entry_eq_iff (h : m.Keeps T) (hn : top ∈ m.minHeap) :
    top.expire = m.entry top.fd ↔ T top.fd = some top.expire := by
  constructor
  · intro heq
    unfold entry at heq
    cases hlookup : m.secretTable.lookup top.fd with
    | none =>
        -- `operator[]` gives the epoch, and no node is as early.
        rw [hlookup] at heq
        exact absurd heq (Nat.ne_of_gt (h.nodes top hn))
    | some d =>
        rw [hlookup] at heq
        obtain rfl : top.expire = d := heq
        exact (h.entries _ _ hlookup).resolve_left (Nat.ne_of_gt (h.nodes top hn))
  · intro hT
    rw [entry, (h.armed _ _ hT).1, Option.getD_some]

/-- A turn that fires takes the deadline out of the table. -/
theorem finish (h : m.Keeps T) (top : TimerNode) :
    (m.finish top).Keeps (T.set top.fd none) := by
  -- The entry may as well be erased first: then the node is no deadline any more.
  have hcancel := h.cancelTimer top.fd
  have hnot : T.set top.fd none top.fd ≠ some top.expire := by
    rw [set_self]
    intro hnone
    cases hnone
  show ((m.cancelTimer top.fd).pop top).Keeps _
  exact hcancel.pop hnot

/-- When the top is later than `now`, so is every deadline. -/
theorem none_due (h : m.Keeps T) (htop : m.IsTop top) (hlate : now < top.expire) :
    ∀ fd d, T fd = some d → now < d := by
  intro fd d hd
  exact lt_of_lt_of_le hlate (htop.2 _ (h.armed fd d hd).2)

/-- Nothing fires when nothing is due. -/
theorem fires_nil (hlate : ∀ fd d, T fd = some d → now < d) : T.Fires now [] := by
  refine ⟨List.nodup_nil, fun fd => ?_, List.Pairwise.nil⟩
  constructor
  · intro hmem
    cases hmem
  · rintro ⟨d, hd, hle⟩
    exact absurd hle (Nat.not_le_of_lt (hlate fd d hd))

/-- What fires first has the earliest deadline, and the rest of the pass is one over
the table without it. -/
theorem fires_cons {fd : Fd} {d : TimePoint} {fired : List Fd} (hd : T fd = some d)
    (hdue : d ≤ now) (hfirst : ∀ fd' e, T fd' = some e → d ≤ e)
    (hrest : (T.set fd none).Fires now fired) : T.Fires now (fd :: fired) := by
  have hfresh : fd ∉ fired := by
    intro hmem
    obtain ⟨e, he, -⟩ := (hrest.due fd).mp hmem
    rw [set_self] at he
    cases he
  have hother : ∀ fd' ∈ fired, T.set fd none fd' = T fd' := by
    intro fd' hmem
    refine set_of_ne ?_ T none
    rintro rfl
    exact hfresh hmem
  refine ⟨List.nodup_cons.mpr ⟨hfresh, hrest.once⟩, fun fd' => ?_, ?_⟩
  · rw [List.mem_cons]
    by_cases heq : fd' = fd
    · subst heq
      exact ⟨fun _ => ⟨d, hd, hdue⟩, fun _ => Or.inl rfl⟩
    · rw [hrest.due fd', set_of_ne heq]
      exact ⟨fun h => h.resolve_left heq, Or.inr⟩
  · refine List.pairwise_cons.mpr ⟨fun fd' _ e e' he he' => ?_, ?_⟩
    · obtain rfl := Option.some.inj (hd.symm.trans he)
      exact hfirst fd' e' he'
    · refine hrest.ordered.imp_of_mem fun {a b} ha hb hab e e' he he' => ?_
      exact hab e e' ((hother a ha).trans he) ((hother b hb).trans he')

/-- **A pass fires what is due and keeps the rest.** -/
theorem handleTimeouts (h : m.Keeps T) {tops : List TimerNode} {fired : List Fd}
    (hpass : TimerManager.handleTimeouts now tops m = some (fired, m')) :
    T.Fires now fired ∧ m'.Keeps (T.fire now) := by
  induction tops generalizing m T fired with
  | nil =>
      simp only [TimerManager.handleTimeouts] at hpass
      split_ifs at hpass with hempty
      obtain ⟨rfl, rfl⟩ := Prod.mk.inj (Option.some.inj hpass)
      have hlate : ∀ fd d, T fd = some d → now < d := by
        intro fd d hd
        have hnode := (h.armed fd d hd).2
        rw [hempty] at hnode
        cases hnode
      exact ⟨fires_nil hlate, (fire_of_none_due hlate).symm ▸ h⟩
  | cons top tops ih =>
      simp only [TimerManager.handleTimeouts] at hpass
      split_ifs at hpass with htop hlater hend hstale
      · -- `break`
        obtain ⟨rfl, rfl⟩ := Prod.mk.inj (Option.some.inj hpass)
        have hlate := h.none_due htop hlater
        exact ⟨fires_nil hlate, (fire_of_none_due hlate).symm ▸ h⟩
      · -- A node that is left over.
        have hnot : T top.fd ≠ some top.expire := fun hT =>
          hstale ((h.entry_eq_iff htop.1).mpr hT)
        exact ih ((h.touch top.fd).pop hnot) hpass
      · -- A node that fires.
        obtain ⟨out, hrest, heq⟩ := Option.map_eq_some_iff.mp hpass
        obtain ⟨rfl, rfl⟩ := Prod.mk.inj heq
        have hT := (h.entry_eq_iff htop.1).mp (not_not.mp hstale)
        have hdue : top.expire ≤ now := Nat.le_of_not_lt hlater
        have hfirst : ∀ fd d, T fd = some d → top.expire ≤ d := fun fd d hd =>
          htop.2 _ (h.armed fd d hd).2
        obtain ⟨hfires, hkeeps⟩ := ih ((h.touch top.fd).finish top) hrest
        rw [fire_update hT hdue] at hkeeps
        exact ⟨fires_cons hT hdue hfirst hfires, hkeeps⟩

/-- One call does to the manager what it does to the table. -/
theorem step (h : m.Keeps T) {call : TimerCall} (hpos : call.Positive)
    (hstep : m.step call = some m') : m'.Keeps (T.step call) := by
  cases call with
  | addTimer now fd timeoutSec =>
      obtain rfl := Option.some.inj hstep
      exact h.arm fd (Nat.add_pos_right now (seconds_pos hpos))
  | cancelTimer fd =>
      obtain rfl := Option.some.inj hstep
      exact h.cancelTimer fd
  | handleTimeouts now tops =>
      obtain ⟨out, hpass, rfl⟩ := Option.map_eq_some_iff.mp hstep
      exact (h.handleTimeouts hpass).2

end TimerManager.Keeps

namespace TimerManager

/-- A pass comes to its end: every turn takes a node off the heap. -/
theorem exists_handleTimeouts (m : TimerManager) (now : TimePoint) :
    ∃ tops out, handleTimeouts now tops m = some out := by
  induction hsize : m.minHeap.length generalizing m with
  | zero =>
      refine ⟨[], ([], m), ?_⟩
      rw [handleTimeouts, if_pos (List.length_eq_zero_iff.mp hsize)]
  | succ n ih =>
      have hne : m.minHeap ≠ [] := by
        intro hempty
        rw [hempty] at hsize
        cases hsize
      obtain ⟨top, htop⟩ := PriorityQueue.exists_isTop TimerNode.expire hne
      have htop' : m.IsTop top := htop
      have hlength := PriorityQueue.length_pop htop.1
      have hshorter : (m.minHeap.pop top).length = n := by omega
      by_cases hlater : now < top.expire
      · refine ⟨[top], ([], m), ?_⟩
        rw [handleTimeouts, if_pos htop', if_pos hlater, if_pos rfl]
      · by_cases hstale : top.expire ≠ m.entry top.fd
        · obtain ⟨tops, out, hrest⟩ := ih ((m.touch top.fd).pop top) hshorter
          refine ⟨top :: tops, out, ?_⟩
          rw [handleTimeouts, if_pos htop', if_neg hlater, if_pos hstale]
          exact hrest
        · obtain ⟨tops, out, hrest⟩ := ih ((m.touch top.fd).finish top) hshorter
          refine ⟨top :: tops, (top.fd :: out.1, out.2), ?_⟩
          rw [handleTimeouts, if_pos htop', if_neg hlater, if_neg hstale, hrest]
          rfl

/-- After any calls the manager keeps the deadlines. -/
theorem keeps_deadlines {calls : List TimerCall} (hpos : ∀ call ∈ calls, call.Positive)
    {m : TimerManager} (hrun : runs step new calls = some m) : m.Keeps (deadlines calls) := by
  induction calls using List.reverseRecOn generalizing m with
  | nil =>
      obtain rfl := Option.some.inj hrun
      exact Keeps.new
  | append_singleton calls call ih =>
      obtain ⟨m₀, hbefore, hlast⟩ := runs_snoc hrun
      have hkeeps := ih (fun c hc => hpos c (List.mem_append_left _ hc)) hbefore
      rw [deadlines, List.foldl_append]
      exact hkeeps.step (hpos call (List.mem_append_right _ List.mem_cons_self)) hlast

/-- **The manager is the table of deadlines.**  After any calls, a pass comes to an
end whatever `top()` shows of equal nodes, and its callback is given every descriptor
whose deadline is due, once, in the order of the deadlines, and no other.  The clock
need not even be monotonic. -/
theorem handleTimeouts_fires_deadlines (calls : List TimerCall)
    (hpos : ∀ call ∈ calls, call.Positive) {m : TimerManager}
    (hrun : runs step new calls = some m) (now : TimePoint) :
    (∃ tops out, handleTimeouts now tops m = some out) ∧
      ∀ tops fired m', handleTimeouts now tops m = some (fired, m') →
        (deadlines calls).Fires now fired :=
  ⟨m.exists_handleTimeouts now, fun _ _ _ hpass =>
    ((keeps_deadlines hpos hrun).handleTimeouts hpass).1⟩

/-- A timer that is armed twice for the same time, one that is cancelled and armed
again, and one that stays cancelled. -/
def sampleCalls : List TimerCall :=
  [.addTimer 0 5 60, .addTimer 0 5 60, .addTimer 0 6 60, .cancelTimer 6, .addTimer 0 6 30,
    .addTimer 0 7 10, .cancelTimer 7]

theorem handleTimeouts_fires_deadlines_sample :
    ∃ m, runs step new sampleCalls = some m ∧
      (deadlines sampleCalls).Fires (seconds 60) [6, 5] := by
  have hpos : ∀ call ∈ sampleCalls, call.Positive := by decide
  have hrun : runs step new sampleCalls = some (runsTo step new sampleCalls) :=
    runs_eq_runsTo step (by decide)
  refine ⟨_, hrun, ?_⟩
  obtain ⟨-, hfires⟩ := handleTimeouts_fires_deadlines sampleCalls hpos hrun (seconds 60)
  have hpass : (handleTimeouts (seconds 60) [⟨7, seconds 10⟩, ⟨6, seconds 30⟩, ⟨5, seconds 60⟩,
      ⟨5, seconds 60⟩, ⟨6, seconds 60⟩] (runsTo step new sampleCalls)).map Prod.fst
      = some [6, 5] := by decide
  obtain ⟨out, hout, hfired⟩ := Option.map_eq_some_iff.mp hpass
  obtain ⟨fired, m'⟩ := out
  obtain rfl : fired = [6, 5] := hfired
  exact hfires _ _ m' hout

end TimerManager

end ExchangeServer
