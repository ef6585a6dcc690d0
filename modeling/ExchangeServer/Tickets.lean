import ExchangeServer.Pipeline

/-!
# The order of events in the pipeline

To say which of two requests comes first, every event gets a ticket when it is
appended to the log queue, and the tickets follow the events through the pipeline.
Events may be equal; tickets are not.  `Tickets.Labels` says that the tickets are where
the events are.

The log queue is first in, first out for the events of one thread only, and that is
what decides: `Tickets.Ordered.precedes` says that of two tickets of one ticker the one
that was issued first is processed first if they come from the same thread, or if the
first had left the queue when the second was put into it.
-/

namespace ExchangeServer

open Lib

/-- An event, with the number it got when it was appended. -/
structure Ticket where
  number : ℕ
  ev : EngineEvent
  /-- How many tickets had been issued when the handling of the request started. -/
  since : ℕ
  /-- The tickets that were in the log queue when this one was put into it. -/
  ahead : List ℕ
deriving DecidableEq, Repr

/-- Where the tickets are. -/
structure Tickets where
  /-- How many tickets had been issued when the current request of a thread was
  taken up. -/
  began : ThreadId → ℕ
  issued : ProducerQueue ThreadId Ticket
  queue : ProducerQueue ThreadId Ticket
  /-- Taken from the queue by the log thread, oldest first. -/
  taken : ProducerQueue ThreadId Ticket
  batch : List Ticket
  /-- Forwarded for a ticker and still to be processed. -/
  line : UInt32 → List Ticket
  /-- Processed by the book of a ticker. -/
  done : UInt32 → List Ticket

namespace Tickets

def new : Tickets := ⟨fun _ => 0, [], [], [], [], fun _ => [], fun _ => []⟩

/-- A handler thread takes up a request. -/
def start (n : Tickets) (thread : ThreadId) : Tickets :=
  { n with began := Function.update n.began thread n.issued.length }

/-- The ticket of the next event that `thread` appends. -/
def issue (n : Tickets) (thread : ThreadId) (ev : EngineEvent) : Ticket where
  number := n.issued.length
  ev := ev
  since := n.began thread
  ahead := n.queue.elems.map Ticket.number

/-- The tickets move with the events. -/
def move (n : Tickets) : Signal → Tickets
  | .append thread ev =>
      { n with
        issued := n.issued.enqueue thread [n.issue thread ev]
        queue := n.queue.enqueue thread [n.issue thread ev] }
  | .dequeue picks =>
      match ProducerQueue.dequeueBulk picks n.queue with
      | none => n
      | some out =>
          { n with queue := out.2, taken := n.taken ++ picks.zip out.1, batch := out.1 }
  | .forward ev =>
      { n with
        batch := n.batch.tail
        line := Function.update n.line ev.tickerId
          (n.line ev.tickerId ++ n.batch.head?.toList) }
  | .process t _ _ _ =>
      { n with
        line := Function.update n.line t (n.line t).tail
        done := Function.update n.done t (n.done t ++ (n.line t).head?.toList) }
  | _ => n

/-! ## Tickets and events -/

/-- The tickets are where the events are. -/
structure Labels (tr : Trace) (x : Pipeline) (n : Tickets) : Prop where
  issued : n.issued.elems.map Ticket.ev = tr.appended
  queue : n.queue.mapElems Ticket.ev = x.wal.queue
  batch : n.batch.map Ticket.ev = x.wal.buffer
  line : ∀ t p, x.engine.orderBooks.lookup t = some p →
    (n.line t).map (fun k => k.ev.delivered) = p.buffer ++ p.queue
  done : ∀ t, (n.done t).map (fun k => k.ev.delivered) = tr.processed t

variable {tr : Trace} {x x' : Pipeline} {n : Tickets} {σ : Signal}

/-- Taking up a request moves no event. -/
theorem Labels.start (h : Labels tr x n) (thread : ThreadId) : Labels tr x (n.start thread) :=
  ⟨h.issued, h.queue, h.batch, h.line, h.done⟩

theorem Labels.issued_snoc (h : Labels tr x n) (hσ : σ.appended? = none) :
    n.issued.elems.map Ticket.ev = Trace.appended (tr ++ [σ]) := by
  rw [Trace.appended_snoc, hσ, h.issued]
  exact (List.append_nil _).symm

theorem Labels.done_snoc (h : Labels tr x n) {t : UInt32} (hσ : σ.processed t = []) :
    (n.done t).map (fun k => k.ev.delivered) = Trace.processed (tr ++ [σ]) t := by
  rw [Trace.processed_snoc, hσ, h.done, List.append_nil]

/-- **The tickets move with the events.** -/
theorem Labels.step (h : Labels tr x n) (hstep : x.Step σ x') :
    Labels (tr ++ [σ]) x' (n.move σ) := by
  cases hstep with
  | append thread ev =>
      refine ⟨?_, ?_, h.batch, h.line, fun t => h.done_snoc rfl⟩
      · show (n.issued.enqueue thread [n.issue thread ev]).elems.map Ticket.ev = _
        rw [ProducerQueue.elems_enqueue, List.map_append, h.issued, Trace.appended_snoc]
        rfl
      · show ProducerQueue.mapElems Ticket.ev (n.queue.enqueue thread [n.issue thread ev]) = _
        rw [ProducerQueue.mapElems_enqueue, h.queue]
        rfl
  | dequeue picks batch queue idle hbulk =>
      rw [← h.queue, ProducerQueue.dequeueBulk_mapElems] at hbulk
      obtain ⟨out, hout, heq⟩ := Option.map_eq_some_iff.mp hbulk
      obtain ⟨rfl, rfl⟩ := Prod.mk.inj heq
      simp only [move, hout]
      exact ⟨h.issued_snoc rfl, rfl, rfl, h.line, fun t => h.done_snoc rfl⟩
  | write now count unwritten hle =>
      exact ⟨h.issued_snoc rfl, h.queue, h.batch, h.line, fun t => h.done_snoc rfl⟩
  | forward ev rest written hbuffer =>
      -- The ticket of the event is the first of the batch, and goes to its ticker.
      have hbatch : n.batch.map Ticket.ev = ev :: rest := h.batch.trans hbuffer
      obtain ⟨k, ks, hks, hev, hrest⟩ := List.map_eq_cons_iff.mp hbatch
      refine ⟨h.issued_snoc rfl, h.queue, ?_, fun t p hp => ?_, fun t => h.done_snoc rfl⟩
      · show n.batch.tail.map Ticket.ev = rest
        rw [hks]
        exact hrest
      · change (WALManager.forward x.engine ev).1.orderBooks.lookup t = some p at hp
        rw [WALManager.forward_lookup] at hp
        obtain ⟨p₀, hp₀, rfl⟩ := Option.map_eq_some_iff.mp hp
        have hline := h.line t p₀ hp₀
        show ((Function.update n.line ev.tickerId
          (n.line ev.tickerId ++ n.batch.head?.toList)) t).map _ = _
        rw [hks]
        by_cases ht : ev.tickerId = t
        · subst ht
          rw [Function.update_self, List.map_append, hline, if_pos rfl]
          show _ ++ [k.ev.delivered] = p₀.buffer ++ (p₀.queue ++ [ev.delivered])
          rw [hev, List.append_assoc]
        · rw [Function.update_of_ne (Ne.symm ht), if_neg ht]
          exact hline
  | take t₀ count p₀ worker idle pushed =>
      have hline := h.line t₀ p₀ worker
      rw [idle, List.nil_append] at hline
      refine ⟨h.issued_snoc rfl, h.queue, h.batch, ?_, fun t => h.done_snoc rfl⟩
      refine UnorderedMap.forall_lookup_insert ?_ fun t p _ hp => h.line t p hp
      show _ = p₀.queue.take count ++ p₀.queue.drop count
      rw [List.take_append_drop]
      exact hline
  | process t₀ p₀ ev rest clock now out worker hbuffer hout =>
      -- The line of the ticker begins with the batch, so its head is this event's.
      have hline := h.line t₀ p₀ worker
      rw [hbuffer, List.cons_append] at hline
      obtain ⟨k, ks, hks, hev, hrest⟩ := List.map_eq_cons_iff.mp hline
      have hqueues : out.1.buffer = rest ∧ out.1.queue = p₀.queue := by
        rw [← hout]
        cases ev <;> exact ⟨rfl, rfl⟩
      refine ⟨h.issued_snoc rfl, h.queue, h.batch, ?_, fun t => ?_⟩
      · refine UnorderedMap.forall_lookup_insert ?_ fun t p ht hp => ?_
        · show ((Function.update n.line t₀ (n.line t₀).tail) t₀).map _ = _
          rw [Function.update_self, hks, hqueues.1, hqueues.2]
          exact hrest
        · show ((Function.update n.line t₀ (n.line t₀).tail) t).map _ = _
          rw [Function.update_of_ne ht]
          exact h.line t p hp
      · rw [Trace.processed_snoc]
        show ((Function.update n.done t₀ (n.done t₀ ++ (n.line t₀).head?.toList)) t).map _
          = _ ++ if t₀ = t then [ev] else []
        by_cases ht : t₀ = t
        · subst ht
          rw [Function.update_self, List.map_append, h.done, if_pos rfl, hks]
          exact congrArg (tr.processed t₀ ++ [·]) hev
        · rw [Function.update_of_ne (Ne.symm ht), if_neg ht, List.append_nil]
          exact h.done t
  | push t₀ p₀ worker hbuffer =>
      refine ⟨h.issued_snoc rfl, h.queue, h.batch, ?_, fun t => h.done_snoc rfl⟩
      exact UnorderedMap.forall_lookup_insert (h.line t₀ p₀ worker) fun t p _ hp => h.line t p hp

/-! ## Which ticket comes first -/

/-- What the log keeps of the order in which tickets are issued. -/
structure Ordered (n : Tickets) : Prop where
  numbers : n.issued.elems.map Ticket.number = List.range n.issued.length
  began : ∀ thread, n.began thread ≤ n.issued.length
  since : ∀ k ∈ n.issued.elems, k.since ≤ k.number
  split : n.issued.elems.Perm (n.taken.elems ++ n.queue.elems)
  fifo : ∀ thread, n.issued.ofProducer thread
    = n.taken.ofProducer thread ++ n.queue.ofProducer thread
  /-- A ticket that was not in the queue when a later one was put into it has been
  taken, and the later one is taken after it. -/
  ahead : ∀ k ∈ n.issued.elems, ∀ l ∈ n.issued.elems, k.number < l.number →
    k.number ∉ l.ahead →
      k ∈ n.taken.elems ∧ (l ∈ n.taken.elems → Precedes n.taken.elems k l)
  order : ∀ t, n.done t ++ n.line t ++ n.batch.filter (fun k => k.ev.tickerId = t)
    = n.taken.elems.filter (fun k => k.ev.tickerId = t)

theorem Ordered.new : Ordered Tickets.new where
  numbers := rfl
  began := fun _ => le_rfl
  since := fun _ hk => by cases hk
  split := List.Perm.refl _
  fifo := fun _ => rfl
  ahead := fun _ hk => by cases hk
  order := fun _ => rfl

theorem Ordered.start (h : Ordered n) (thread : ThreadId) : Ordered (n.start thread) := by
  refine ⟨h.numbers, fun thread' => ?_, h.since, h.split, h.fifo, h.ahead, h.order⟩
  show Function.update n.began thread n.issued.length thread' ≤ n.issued.length
  by_cases ht : thread' = thread
  · subst ht
    rw [Function.update_self]
  · rw [Function.update_of_ne ht]
    exact h.began thread'

namespace Ordered

variable {k l : Ticket}

theorem number_lt (h : Ordered n) (hk : k ∈ n.issued.elems) : k.number < n.issued.length := by
  have hmem : k.number ∈ n.issued.elems.map Ticket.number := List.mem_map_of_mem hk
  rw [h.numbers] at hmem
  exact List.mem_range.mp hmem

/-- Tickets are numbered in the order in which they are issued. -/
theorem sorted (h : Ordered n) : n.issued.elems.Pairwise fun k l => k.number < l.number := by
  have hsorted : (n.issued.elems.map Ticket.number).Pairwise (· < ·) := by
    rw [h.numbers]
    exact List.pairwise_lt_range
  exact List.pairwise_map.mp hsorted

theorem nodup (h : Ordered n) : n.issued.elems.Nodup :=
  h.sorted.imp fun hlt heq => absurd (congrArg Ticket.number heq) (Nat.ne_of_lt hlt)

theorem mem_issued_of_taken (h : Ordered n) (hk : k ∈ n.taken.elems) : k ∈ n.issued.elems :=
  h.split.mem_iff.mpr (List.mem_append_left _ hk)

theorem nodup_taken (h : Ordered n) : n.taken.elems.Nodup :=
  (List.nodup_append.mp (h.split.nodup h.nodup)).1

theorem append (h : Ordered n) (thread : ThreadId) (ev : EngineEvent) :
    Ordered (n.move (.append thread ev)) := by
  have helems : (n.issued.enqueue thread [n.issue thread ev]).elems
      = n.issued.elems ++ [n.issue thread ev] := ProducerQueue.elems_enqueue ..
  have hlength : (n.issued.enqueue thread [n.issue thread ev]).length = n.issued.length + 1 := by
    simp [ProducerQueue.enqueue]
  refine ⟨?_, fun thread' => ?_, fun k hk => ?_, ?_, fun thread' => ?_, ?_, h.order⟩
  · show (n.issued.enqueue thread [n.issue thread ev]).elems.map Ticket.number
      = List.range (n.issued.enqueue thread [n.issue thread ev]).length
    rw [helems, hlength, List.map_append, h.numbers, List.range_succ]
    rfl
  · show n.began thread' ≤ (n.issued.enqueue thread [n.issue thread ev]).length
    rw [hlength]
    exact Nat.le_succ_of_le (h.began thread')
  · change k ∈ (n.issued.enqueue thread [n.issue thread ev]).elems at hk
    rw [helems] at hk
    rcases List.mem_append.mp hk with hold | hnew
    · exact h.since k hold
    · obtain rfl := List.mem_singleton.mp hnew
      exact h.began thread
  · show ((n.issued.enqueue thread [n.issue thread ev]).elems).Perm
      (n.taken.elems ++ (n.queue.enqueue thread [n.issue thread ev]).elems)
    rw [helems, ProducerQueue.elems_enqueue, ← List.append_assoc]
    exact h.split.append_right _
  · show ProducerQueue.ofProducer thread' (n.issued ++ _)
      = n.taken.ofProducer thread' ++ ProducerQueue.ofProducer thread' (n.queue ++ _)
    rw [ProducerQueue.ofProducer_append, ProducerQueue.ofProducer_append, h.fifo,
      List.append_assoc]
  · intro k hk l hl hlt hahead
    change k ∈ (n.issued.enqueue thread [n.issue thread ev]).elems at hk
    change l ∈ (n.issued.enqueue thread [n.issue thread ev]).elems at hl
    rw [helems] at hk hl
    rcases List.mem_append.mp hl with hlold | hlnew
    · have hkold : k ∈ n.issued.elems := by
        rcases List.mem_append.mp hk with hkold | hknew
        · exact hkold
        · obtain rfl := List.mem_singleton.mp hknew
          exact absurd (h.number_lt hlold) (Nat.not_lt.mpr hlt.le)
      exact h.ahead k hkold l hlold hlt hahead
    · obtain rfl := List.mem_singleton.mp hlnew
      have hkold : k ∈ n.issued.elems := by
        rcases List.mem_append.mp hk with hkold | hknew
        · exact hkold
        · exact absurd hlt (by rw [List.mem_singleton.mp hknew]; exact lt_irrefl _)
      -- The new ticket lists all that is in the queue.
      have hleft : k ∉ n.queue.elems := fun hmem => hahead (List.mem_map_of_mem hmem)
      have htaken : k ∈ n.taken.elems :=
        (List.mem_append.mp (h.split.mem_iff.mp hkold)).resolve_right hleft
      refine ⟨htaken, fun hnew => ?_⟩
      exact absurd (h.number_lt (h.mem_issued_of_taken hnew)) (lt_irrefl _)

theorem dequeue (h : Ordered n) (picks : List ThreadId) (idle : n.batch = []) :
    Ordered (n.move (.dequeue picks)) := by
  cases hbulk : ProducerQueue.dequeueBulk picks n.queue with
  | none =>
      simp only [move, hbulk]
      exact h
  | some out =>
      simp only [move, hbulk]
      obtain ⟨hlength, hfifo⟩ := ProducerQueue.dequeueBulk_fifo hbulk
      have hout : ProducerQueue.elems (picks.zip out.1) = out.1 :=
        List.map_snd_zip (Nat.le_of_eq hlength.symm)
      have helems : ProducerQueue.elems (n.taken ++ picks.zip out.1) = n.taken.elems ++ out.1 := by
        rw [ProducerQueue.elems, List.map_append]
        exact congrArg (n.taken.elems ++ ·) hout
      refine ⟨h.numbers, h.began, h.since, ?_, fun thread => ?_, ?_, fun t => ?_⟩
      · rw [helems, List.append_assoc]
        exact h.split.trans ((ProducerQueue.dequeueBulk_perm hbulk).append_left _)
      · rw [h.fifo, hfifo, ProducerQueue.ofProducer_append, List.append_assoc]
      · intro k hk l hl hlt hahead
        obtain ⟨htaken, hlater⟩ := h.ahead k hk l hl hlt hahead
        rw [helems]
        refine ⟨List.mem_append_left _ htaken, fun hl' => ?_⟩
        rcases List.mem_append.mp hl' with hold | hnew
        · exact (hlater hold).append_right _
        · exact Precedes.across htaken hnew
      · have horder := h.order t
        rw [idle, List.filter_nil, List.append_nil] at horder
        rw [helems, List.filter_append, horder]

theorem forward (h : Ordered n) {ev : EngineEvent} {rest : List Ticket}
    (hbatch : n.batch = k :: rest) (hev : k.ev = ev) : Ordered (n.move (.forward ev)) := by
  refine ⟨h.numbers, h.began, h.since, h.split, h.fifo, h.ahead, fun t => ?_⟩
  refine Eq.trans ?_ (h.order t)
  show n.done t ++ (Function.update n.line ev.tickerId
    (n.line ev.tickerId ++ n.batch.head?.toList)) t ++ n.batch.tail.filter _ = _
  rw [hbatch]
  by_cases ht : ev.tickerId = t
  · subst ht
    rw [Function.update_self, List.filter_cons_of_pos (by simp [hev])]
    simp
  · rw [Function.update_of_ne (Ne.symm ht), List.filter_cons_of_neg (by simp [hev, ht])]
    rfl

theorem process (h : Ordered n) (t₀ : UInt32) (ev : EngineEvent) (traded : List MatchRecord)
    (cancelled : List CancelRecord) : Ordered (n.move (.process t₀ ev traded cancelled)) := by
  refine ⟨h.numbers, h.began, h.since, h.split, h.fifo, h.ahead, fun t => ?_⟩
  refine Eq.trans ?_ (h.order t)
  show (Function.update n.done t₀ (n.done t₀ ++ (n.line t₀).head?.toList)) t
    ++ (Function.update n.line t₀ (n.line t₀).tail) t ++ n.batch.filter _ = _
  by_cases ht : t = t₀
  · subst ht
    rw [Function.update_self, Function.update_self]
    cases n.line t <;> simp
  · rw [Function.update_of_ne ht, Function.update_of_ne ht]

/-- **A step keeps the order of the tickets.** -/
theorem step (h : Ordered n) (hlabels : Labels tr x n) (hstep : x.Step σ x') :
    Ordered (n.move σ) := by
  cases hstep with
  | append thread ev => exact h.append thread ev
  | dequeue picks batch queue idle hbulk =>
      exact h.dequeue picks (List.map_eq_nil_iff.mp (hlabels.batch.trans idle))
  | forward ev rest written hbuffer =>
      obtain ⟨k, ks, hks, hev, -⟩ := List.map_eq_cons_iff.mp (hlabels.batch.trans hbuffer)
      exact h.forward hks hev
  | process t p ev rest clock now out worker hbuffer hout => exact h.process t ev _ _
  | write now count unwritten hle => exact h
  | take t count p worker idle pushed => exact h
  | push t p worker hbuffer => exact h

/-- Tickets of one thread are taken in the order in which they were issued. -/
theorem precedes_of_thread (h : Ordered n) {thread : ThreadId}
    (hk : k ∈ n.issued.ofProducer thread) (hl : l ∈ n.issued.ofProducer thread)
    (hlt : k.number < l.number) (htaken : l ∈ n.taken.elems) : Precedes n.taken.elems k l := by
  have hsorted := h.sorted.sublist (ProducerQueue.ofProducer_sublist thread n.issued)
  have hissued : Precedes (n.issued.ofProducer thread) k l :=
    Precedes.of_pairwise hsorted hk hl hlt.asymm fun heq => absurd hlt (heq ▸ lt_irrefl _)
  rw [h.fifo] at hissued
  have hleft : l ∉ n.queue.ofProducer thread := fun hmem =>
    (List.nodup_append.mp (h.split.nodup h.nodup)).2.2 l htaken l
      ((ProducerQueue.ofProducer_sublist thread n.queue).subset hmem) rfl
  exact (hissued.of_append hleft).sublist (ProducerQueue.ofProducer_sublist thread n.taken)

/-- **Which of two tickets of a ticker is processed first**: the one that was issued
first, if they come from one thread or if the first had left the queue when the second
was put into it. -/
theorem precedes (h : Ordered n) {threadK threadL : ThreadId} (hk : (threadK, k) ∈ n.issued)
    (hl : (threadL, l) ∈ n.issued) (hlt : k.number < l.since)
    (hticker : k.ev.tickerId = l.ev.tickerId) (hahead : k.number ∈ l.ahead → threadK = threadL)
    {t : UInt32} (hdone : l ∈ n.done t) : Precedes (n.done t) k l := by
  have hk' : k ∈ n.issued.elems := List.mem_map_of_mem hk
  have hl' : l ∈ n.issued.elems := List.mem_map_of_mem hl
  have hnumber : k.number < l.number := hlt.trans_le (h.since l hl')
  have horder := h.order t
  rw [List.append_assoc] at horder
  obtain ⟨htaken, ht⟩ := List.mem_filter.mp (horder ▸ List.mem_append_left _ hdone)
  have hlog : Precedes n.taken.elems k l := by
    by_cases hqueued : k.number ∈ l.ahead
    · obtain rfl := hahead hqueued
      exact h.precedes_of_thread (ProducerQueue.mem_ofProducer.mpr hk)
        (ProducerQueue.mem_ofProducer.mpr hl) hnumber htaken
    · exact (h.ahead k hk' l hl' hnumber hqueued).2 htaken
  have hbook : Precedes (n.taken.elems.filter fun k => k.ev.tickerId = t) k l :=
    hlog.filter (by rw [hticker]; exact ht) ht
  have hnodup := h.nodup_taken.filter fun k => decide (k.ev.tickerId = t)
  rw [← horder] at hbook hnodup
  exact hbook.of_append fun hrest => (List.nodup_append.mp hnodup).2.2 l hdone l hrest rfl

end Ordered

end Tickets

end ExchangeServer
