import Mathlib.Algebra.BigOperators.Group.Finset.Piecewise
import ExchangeServer.Exchange.Flow
import ExchangeServer.Exchange.Laws
import ExchangeServer.Tally

/-!
# Scheduling makes no difference

Two runs of the server in which every worker processes the same events may differ in
the batches, in how the workers take turns and in the order in which settlement takes
match records and cancel records.  `scheduling_irrelevant` says that the books and the
accounts are the same in the end.

The books are the same because a worker makes of its events what a replica makes of
them.  The accounts are the same because what is in them is a sum (`Gauge.tally`), and
the terms of the sum are the same: the orders accepted are those the workers processed
and those that no book took, and the records are those that the workers made.
-/

namespace ExchangeServer

open Lib PriceTime

/-- The books of a replica point to order objects. -/
theorem Replica.replay_indexed (clock : ℕ → UInt64) (now : UInt64) (t : UInt32)
    (events : List EngineEvent) : (replay clock now t events).processor.book.Indexed := by
  induction events using List.reverseRecOn with
  | nil => exact OrderBook.Indexed.new t
  | append_singleton events ev ih =>
      rw [replay_append]
      cases ev with
      | newOrder o => exact ih.processOrder clock o _
      | cancelOrder t' x u => exact ih.cancelOrder _ _

/-- A cancel record names the owner of an order that the book was given. -/
theorem OrderBookProcessor.cancel_owner {P : UInt64 → Prop} {p : OrderBookProcessor}
    (howned : p.book.OwnedBy P) (hindexed : p.book.Indexed) (clock : ℕ → UInt64) (now : UInt64)
    (ev : EngineEvent) : ∀ rec ∈ (p.processEvent clock now ev).2, P rec.userId := by
  intro rec hrec
  cases ev with
  | newOrder o => cases hrec
  | cancelOrder t x u =>
      obtain ⟨o, ho, rfl⟩ := Option.map_eq_some_iff.mp hrec
      exact howned.returned hindexed ho

namespace Exchange

variable {users : UserManager} {tickers : TickerManager} {db : Database}
  {walFile : Option (List WALRecord)} {actions : List Action} {s s' : Exchange} {a : Action}

/-! ## Records -/

/-- What a worker's step comes to, for the records. -/
structure Recorded (s : Exchange) (t : UInt32) (s' : Exchange) (σ : Option Signal) : Prop where
  worker : (s.engine.orderBooks.lookup t).isSome
  signal : ∃ ev traded cancelled, σ = some (.process t ev traded cancelled) ∧
    s'.history.traded = s.history.traded ++ traded ∧
    s'.history.cancelled = s.history.cancelled ++ cancelled
  cancels : ∀ rec ∈ s'.waitingCancels, rec ∈ s.waitingCancels ∨
    ∃ p ev clock now, s.engine.orderBooks.lookup t = some p ∧
      rec ∈ (p.processEvent clock now ev).2
  users : s'.users = s.users

theorem recorded_workerProcess {t : UInt32} {clock : ℕ → UInt64} {now : UInt64}
    (hstep : s.step (.workerProcess t clock now) = some s') :
    Recorded s t s' (s.signal (.workerProcess t clock now)) := by
  cases step_spec hstep with
  | workerProcess _ _ _ p out hp hout =>
      obtain ⟨ev, rest, hbuffer, heq⟩ := OrderBookProcessor.processNext_eq_some hout
      refine ⟨by rw [hp]; rfl, ⟨ev, out.1.results.drop p.results.length, out.2.toList, ?_, rfl,
        rfl⟩, fun rec hrec => ?_, rfl⟩
      · simp only [signal, pipelineAction, Pipeline.signal, pipeline, Option.bind_some, hp, hbuffer,
          List.head?_cons, hout, Option.map_some]
      · have hcancel : (p.processEvent clock now ev).2 = out.2 := by
          rw [heq]
          cases ev <;> rfl
        simp only [waitingCancels, pushCancelRecord_elim, ProducerQueue.elems_enqueue,
          List.mem_append, Option.mem_toList] at hrec
        rcases hrec with (hrec | hrec) | hrec
        · exact Or.inl (List.mem_append_left _ hrec)
        · exact Or.inr ⟨p, ev, clock, now, hp, hcancel.trans (Option.mem_def.mp hrec)⟩
        · exact Or.inl (List.mem_append_right _ hrec)

/-- Only the workers make records. -/
theorem signal_of_not_process {σ : Signal} (hσ : s.signal a = some σ)
    (ha : ∀ t clock now, a ≠ .workerProcess t clock now) (t : UInt32) :
    σ.traded t = [] ∧ σ.cancelled t = [] := by
  obtain ⟨b, hb, hσ⟩ := Option.bind_eq_some_iff.mp hσ
  cases b with
  | workerProcess t' clock now =>
      cases a with
      | workerProcess t'' clock' now' => exact absurd rfl (ha t'' clock' now')
      | cancel thread session req =>
          simp only [pipelineAction] at hb
          split_ifs at hb
          cases hb
      | appendOrder thread =>
          obtain ⟨out, -, heq⟩ := Option.map_eq_some_iff.mp hb
          cases heq
      | _ => cases hb
  | logForward =>
      obtain ⟨ev, -, rfl⟩ := Option.map_eq_some_iff.mp hσ
      exact ⟨rfl, rfl⟩
  | _ =>
      obtain rfl := Option.some.inj hσ
      exact ⟨rfl, rfl⟩

/-- Every other action makes no records. -/
theorem clears_of_not_process (hclears : Clears s a s')
    (ha : ∀ t clock now, a ≠ .workerProcess t clock now) :
    s'.clearing.traded = s.clearing.traded ∧ s'.clearing.cancelled = s.clearing.cancelled ∧
      s'.clearing.cancels ≤ s.clearing.cancels := by
  rcases hclears.clearing with hsame | ⟨e, hraises, hstep⟩
  · rw [hsame]
    exact ⟨rfl, rfl, le_refl _⟩
  · have hnot : e ≠ .market := by
      rintro rfl
      cases hraises
      exact ha _ _ _ rfl
    generalize s.clearing = c at *
    generalize s'.clearing = c' at *
    cases hstep with
    | market orders records cancels parties listed trades => exact absurd rfl hnot
    | release rec rest idle hrec =>
        refine ⟨rfl, rfl, ?_⟩
        rw [hrec]
        exact Multiset.le_cons_self _ _
    | _ => exact ⟨rfl, rfl, le_refl _⟩

/-- No action removes an account. -/
theorem hasAccount_of_clears (hclears : Clears s a s') {u : UInt64}
    (hu : s.users.HasAccount u) : s'.users.HasAccount u := by
  rcases hclears.clearing with hsame | ⟨e, -, hstep⟩
  · have husers : s'.users = s.users := congrArg Clearing.users hsame
    rw [husers]
    exact hu
  · exact hstep.hasAccount hu

/-! ## Whole runs -/

/-- Whoever is owed something has an account, the records made are those of the
workers, and every account has been changed by what it adds up to. -/
structure Settling (ids : List UInt32) (s₀ s : Exchange) (tr : Trace) : Prop where
  owners : ∀ rec ∈ s.clearing.cancels, s.users.HasAccount rec.userId
  traded : s.clearing.traded = ∑ t ∈ ids.toFinset, (tr.traded t : Multiset MatchRecord)
  cancelled : s.clearing.cancelled = ∑ t ∈ ids.toFinset, (tr.cancelled t : Multiset CancelRecord)
  base : ∀ g : Gauge, g.base s.clearing ≡ g.base s₀.clearing [ZMOD g.modulus]

/-- The records of one more signal. -/
theorem sum_snoc {α : Type*} {ids : List UInt32} {before after : UInt32 → List α} {t : UInt32}
    {new : List α} (ht : t ∈ ids)
    (hafter : ∀ t', after t' = before t' ++ if t = t' then new else []) :
    ∑ t' ∈ ids.toFinset, (after t' : Multiset α)
      = (∑ t' ∈ ids.toFinset, (before t' : Multiset α)) + new := by
  have hterm : ∀ t' ∈ ids.toFinset, (after t' : Multiset α)
      = (before t' : Multiset α) + if t = t' then (new : Multiset α) else 0 := by
    intro t' _
    rw [hafter, ← Multiset.coe_add]
    split_ifs <;> rfl
  rw [Finset.sum_congr rfl hterm, Finset.sum_add_distrib, Finset.sum_ite_eq,
    if_pos (List.mem_toFinset.mpr ht)]

section Settling

variable {ids : List UInt32} {s₀ : Exchange} {tr : Trace}

/-- A worker makes records. -/
theorem Settling.process (h : Settling ids s₀ s tr) {t : UInt32} {σ : Option Signal}
    (hrecorded : Recorded s t s' σ) (ht : t ∈ ids)
    (howners : ∀ p ev clock now, s.engine.orderBooks.lookup t = some p →
      ∀ rec ∈ (p.processEvent clock now ev).2, s.users.HasAccount rec.userId)
    (hbase : ∀ g : Gauge, g.base s'.clearing ≡ g.base s₀.clearing [ZMOD g.modulus]) :
    Settling ids s₀ s' (tr ++ σ.toList) := by
  obtain ⟨-, ⟨ev, traded, cancelled, rfl, htraded, hcancelled⟩, hcancels, husers⟩ := hrecorded
  rw [Option.toList_some]
  refine ⟨fun rec hrec => ?_, ?_, ?_, hbase⟩
  · rw [husers]
    rcases hcancels rec hrec with hrec | ⟨p, ev, clock, now, hp, hrec⟩
    · exact h.owners rec hrec
    · exact howners p ev clock now hp rec hrec
  · have hnew : s'.clearing.traded = s.clearing.traded + (traded : Multiset MatchRecord) :=
      (congrArg _ htraded).trans (Multiset.coe_add _ _).symm
    rw [hnew, h.traded]
    exact (sum_snoc ht fun t' => Trace.traded_snoc ..).symm
  · have hnew : s'.clearing.cancelled = s.clearing.cancelled + (cancelled : Multiset CancelRecord) :=
      (congrArg _ hcancelled).trans (Multiset.coe_add _ _).symm
    rw [hnew, h.cancelled]
    exact (sum_snoc ht fun t' => Trace.cancelled_snoc ..).symm

/-- Any other action makes none. -/
theorem Settling.quiet (h : Settling ids s₀ s tr) (hclears : Clears s a s')
    (ha : ∀ t clock now, a ≠ .workerProcess t clock now)
    (hbase : ∀ g : Gauge, g.base s'.clearing ≡ g.base s₀.clearing [ZMOD g.modulus]) :
    Settling ids s₀ s' (tr ++ (s.signal a).toList) := by
  obtain ⟨htraded, hcancelled, hcancels⟩ := clears_of_not_process hclears ha
  have htrace : ∀ t, Trace.traded (tr ++ (s.signal a).toList) t = Trace.traded tr t ∧
      Trace.cancelled (tr ++ (s.signal a).toList) t = Trace.cancelled tr t := by
    intro t
    cases hσ : s.signal a with
    | none => simp
    | some σ =>
        obtain ⟨hquiet, hquiet'⟩ := signal_of_not_process hσ ha t
        rw [Option.toList_some, Trace.traded_snoc, Trace.cancelled_snoc, hquiet, hquiet',
          List.append_nil, List.append_nil]
        exact ⟨rfl, rfl⟩
  refine ⟨fun rec hrec => ?_, ?_, ?_, hbase⟩
  · exact hasAccount_of_clears hclears (h.owners rec (Multiset.mem_of_le hcancels hrec))
  · rw [htraded, h.traded]
    exact Finset.sum_congr rfl fun t _ => congrArg _ (htrace t).1.symm
  · rw [hcancelled, h.cancelled]
    exact Finset.sum_congr rfl fun t _ => congrArg _ (htrace t).2.symm

end Settling

theorem runs_settling (hrun : runs step (start users tickers db walFile) actions = some s) :
    Settling tickers.getAllTickerIds (start users tickers db walFile) s
      ((start users tickers db walFile).trace actions) := by
  have hfresh := start_fresh users tickers db walFile
  refine trace_reachable (I := Settling tickers.getAllTickerIds (start users tickers db walFile))
    ⟨fun rec hrec => ?_, ?_, ?_, fun g => rfl⟩ (fun as t a t' hreach h ha => ?_) hrun
  · rw [hfresh.cancels] at hrec
    cases hrec
  · simp [Trace.traded, hfresh.traded]
  · simp [Trace.cancelled, hfresh.cancelled]
  · obtain ⟨-, hworkers, hreaches⟩ := runs_clear_any hreach
    obtain ⟨hlisted, hlines⟩ := runs_staffed hreach
    have howned := (hreaches.conserves hfresh.owned).1
    have hclears := reached_clears hreach ha
    have hbase : ∀ g : Gauge, g.base t'.clearing ≡ g.base (start users tickers db walFile).clearing
        [ZMOD g.modulus] := by
      intro g
      rcases hclears.clearing with hsame | ⟨e, -, hstep⟩
      · rw [hsame]
        exact h.base g
      · exact (Gauge.base_step hstep howned h.owners).trans (h.base g)
    by_cases hprocess : ∃ u clock now, a = .workerProcess u clock now
    · obtain ⟨u, clock, now, rfl⟩ := hprocess
      have hrecorded := recorded_workerProcess ha
      refine h.process hrecorded ((hlisted u).mp hrecorded.worker) ?_ hbase
      intro p ev clock now hp rec hrec
      have hindexed : p.book.Indexed := by
        rw [((hlines u p hp).follows (fun _ => 0) 0).book]
        exact Replica.replay_indexed _ _ _ _
      exact howned.traders _ (OrderBookProcessor.cancel_owner (hworkers.worker u p hp).owned
        hindexed clock now ev rec hrec)
    · exact h.quiet hclears (fun u clock now heq => hprocess ⟨u, clock, now, heq⟩) hbase

/-! ## Orders -/

/-- What an action adds to the orders acknowledged and to those dropped. -/
structure Acknowledges (s s' : Exchange) (σ : Option Signal) : Prop where
  acknowledged : s'.history.acknowledged
    = s.history.acknowledged ++ ((σ.bind Signal.appended?).bind EngineEvent.order?).toList
  dropped : s'.history.dropped = s.history.dropped ++ ((σ.bind Signal.forwarded?).bind fun ev =>
    if (s.engine.orderBooks.lookup ev.tickerId).isSome then none else ev.order?).toList

/-- An action that appends no order and forwards nothing. -/
theorem Acknowledges.of_quiet {σ : Option Signal}
    (happended : (σ.bind Signal.appended?).bind EngineEvent.order? = none)
    (hforwarded : σ.bind Signal.forwarded? = none)
    (hacknowledged : s'.history.acknowledged = s.history.acknowledged)
    (hdropped : s'.history.dropped = s.history.dropped) : Acknowledges s s' σ := by
  refine ⟨?_, ?_⟩
  · rw [hacknowledged, happended, Option.toList_none, List.append_nil]
  · rw [hdropped, hforwarded]
    exact (List.append_nil _).symm

theorem step_acknowledges (hstep : s.step a = some s') : Acknowledges s s' (s.signal a) := by
  cases step_spec hstep with
  | appendOrder thread o trading hout =>
      have hσ : s.signal (.appendOrder thread) = some (.append thread (.newOrder o)) := by
        simp only [signal, pipelineAction, hout, Option.map_some, Option.bind_some, Pipeline.signal]
      rw [hσ]
      exact ⟨rfl, (List.append_nil _).symm⟩
  | cancel thread session req =>
      have hσ : s.signal (.cancel thread session req) = if session.isLoggedIn then
          some (.append thread (.cancelOrder req.tickerId req.orderId session.userId))
          else none := by
        simp only [signal, pipelineAction]
        split_ifs <;> rfl
      rw [hσ]
      split_ifs <;> exact .of_quiet rfl rfl rfl rfl
  | logForward ev rest hwritten hbuffer =>
      have hσ : s.signal .logForward = some (.forward ev) := by
        simp only [signal, pipelineAction, pipeline, Option.bind_some, Pipeline.signal, hbuffer,
          List.head?_cons, Option.map_some]
      rw [hσ]
      refine ⟨(List.append_nil _).symm, ?_⟩
      have hreturned := WALManager.forward_returned s.engine ev
      show (if (WALManager.forward s.engine ev).2 = true then s.history.dropped
        else s.history.dropped ++ ev.order?.toList) = s.history.dropped ++
          (if (s.engine.orderBooks.lookup ev.tickerId).isSome then none else ev.order?).toList
      by_cases hbook : (s.engine.orderBooks.lookup ev.tickerId).isSome
      · rw [if_pos (hreturned.mpr (Or.inr hbook)), if_pos hbook]
        exact (List.append_nil _).symm
      · rw [if_neg hbook]
        cases horder : ev.order? with
        | none =>
            rw [if_pos (hreturned.mpr (Or.inl horder))]
            exact (List.append_nil _).symm
        | some o =>
            refine if_neg fun hreturn => ?_
            rcases hreturned.mp hreturn with hnone | hsome
            · cases horder.symm.trans hnone
            · exact hbook hsome
  | workerProcess t clock now p out hp hout =>
      obtain ⟨-, ⟨ev, traded, cancelled, hσ, -, -⟩, -, -⟩ := recorded_workerProcess hstep
      rw [hσ]
      exact .of_quiet rfl rfl rfl rfl
  -- What every other action appends or forwards is nothing, by computation.
  | _ => exact .of_quiet rfl rfl rfl rfl

/-- The orders among some events. -/
def ordersOf (events : List EngineEvent) : Multiset Order :=
  (events.filterMap EngineEvent.order? : List Order)

theorem ordersOf_append (events events' : List EngineEvent) :
    ordersOf (events ++ events') = ordersOf events + ordersOf events' := by
  rw [ordersOf, List.filterMap_append, ← Multiset.coe_add]
  rfl

theorem ordersOf_singleton (ev : EngineEvent) : ordersOf [ev] = (ev.order?.toList : List Order) := by
  cases ev <;> rfl

/-- The orders acknowledged are those appended, and the orders forwarded are those
dropped and those given to the workers. -/
structure Routing (ids : List UInt32) (s : Exchange) (tr : Trace) : Prop where
  acknowledged : (s.history.acknowledged : Multiset Order) = ordersOf tr.appended
  appended : tr.appended.Perm (tr.forwarded ++ (s.wal.buffer ++ s.wal.queue.elems))
  forwarded : ordersOf tr.forwarded
    = s.history.dropped + ∑ t ∈ ids.toFinset, ordersOf (routed t tr.forwarded)

/-- An event that is forwarded is dropped, or goes to the worker of its ticker. -/
theorem ordersOf_routed (ids : List UInt32) (ev : EngineEvent) :
    ∑ t ∈ ids.toFinset, ordersOf (routed t [ev])
      = if ev.tickerId ∈ ids then ordersOf [ev] else 0 := by
  have hterm : ∀ t ∈ ids.toFinset, ordersOf (routed t [ev])
      = if ev.tickerId = t then ordersOf [ev] else 0 := by
    intro t _
    rw [routed_singleton]
    split_ifs
    · rw [ordersOf_singleton, ordersOf_singleton, EngineEvent.order?_delivered]
    · rfl
  rw [Finset.sum_congr rfl hterm, Finset.sum_ite_eq]
  simp only [List.mem_toFinset]

theorem runs_routing (hrun : runs step (start users tickers db walFile) actions = some s) :
    Routing tickers.getAllTickerIds s ((start users tickers db walFile).trace actions) := by
  refine trace_reachable (I := Routing tickers.getAllTickerIds)
    ⟨rfl, List.Perm.refl _, ?_⟩ (fun as t a t' hreach h ha => ?_) hrun
  · simp [Trace.forwarded, ordersOf, start]
  · have hlisted : ∀ u, (t.engine.orderBooks.lookup u).isSome
        ↔ u ∈ tickers.getAllTickerIds := (runs_staffed hreach).1
    obtain ⟨hacknowledged, hdropped⟩ := step_acknowledges ha
    rcases step_signal ha with ⟨hσ, hsame⟩ | ⟨σ, hσ, hmove⟩
    · have hwal : t'.wal = t.wal := congrArg Pipeline.wal hsame
      simp only [hσ, Option.bind_none, Option.toList_none, List.append_nil] at *
      exact ⟨by rw [hacknowledged]; exact h.acknowledged, by rw [hwal]; exact h.appended,
        by rw [hdropped]; exact h.forwarded⟩
    · simp only [hσ, Option.bind_some, Option.toList_some] at *
      refine ⟨?_, hmove.appended h.appended, ?_⟩
      · rw [hacknowledged, Trace.appended_snoc, ordersOf_append, ← h.acknowledged,
          ← Multiset.coe_add]
        cases σ.appended? with
        | none => rfl
        | some ev => exact congrArg _ (ordersOf_singleton ev).symm
      · rw [hdropped, Trace.forwarded_snoc, ordersOf_append, h.forwarded]
        cases hev : σ.forwarded? with
        | none => simp [ordersOf]
        | some ev =>
            have hrouted := ordersOf_routed tickers.getAllTickerIds ev
            simp only [Option.toList_some, Option.bind_some, routed_append, ordersOf_append,
              Finset.sum_add_distrib, hrouted, ← Multiset.coe_add]
            by_cases hbook : ev.tickerId ∈ tickers.getAllTickerIds
            · rw [if_pos hbook, if_pos ((hlisted _).mpr hbook)]
              simp only [Option.toList_none, Multiset.coe_nil, add_zero, add_assoc]
            · rw [if_neg hbook, if_neg fun hsome => hbook ((hlisted _).mp hsome),
                ordersOf_singleton, add_zero]
              exact add_right_comm _ _ _

/-! ## Idle servers -/

/-- Every queue and every batch is empty, no record is in hand, and no handler is
between a freeze and the log. -/
structure Idle (s : Exchange) : Prop where
  trading : s.trading = []
  drained : s.Drained
  results : ∀ t p, s.engine.orderBooks.lookup t = some p → p.results = []
  records : s.settlement.queue = [] ∧ s.settlement.buffer = []
  cancels : s.settlement.cancelQueue = [] ∧ s.settlement.cancelBuffer = []
  current : s.settlement.current = none

namespace Idle

variable (h : s.Idle)
include h

theorem waitingRecords : s.clearing.records = 0 := by
  have hresults : s.engine.results = [] := by
    refine List.eq_nil_iff_forall_not_mem.mpr fun rec hrec => ?_
    obtain ⟨t, p, hp, hrec⟩ := (UnorderedMap.mem_collect _).mp hrec
    rw [h.results t p hp] at hrec
    cases hrec
  show (s.waitingRecords : Multiset MatchRecord) = 0
  unfold Exchange.waitingRecords
  rw [hresults, h.records.1, h.records.2]
  rfl

theorem waitingCancels : s.clearing.cancels = 0 := by
  show (s.waitingCancels : Multiset CancelRecord) = 0
  unfold Exchange.waitingCancels
  rw [h.cancels.1, h.cancels.2]
  rfl

/-- What was accepted is what no book took and what the workers processed. -/
theorem accepted (hrun : runs step (start users tickers db walFile) actions = some s) :
    s.clearing.accepted = s.history.dropped + ∑ t ∈ tickers.getAllTickerIds.toFinset,
      ordersOf (((start users tickers db walFile).trace actions).processed t) := by
  obtain ⟨hacknowledged, happended, hforwarded⟩ := runs_routing hrun
  obtain ⟨hlisted, hlines⟩ := runs_staffed hrun
  have hall : ordersOf ((start users tickers db walFile).trace actions).appended
      = ordersOf ((start users tickers db walFile).trace actions).forwarded := by
    rw [h.drained.1, h.drained.2.1, List.append_nil, List.append_nil] at happended
    exact Multiset.coe_eq_coe.mpr (happended.filterMap _)
  have haccepted : s.clearing.accepted = (s.history.acknowledged : Multiset Order) := by
    show (s.accepted : Multiset Order) = _
    unfold Exchange.accepted
    rw [h.trading, ProducerQueue.elems_nil, List.append_nil]
  rw [haccepted, hacknowledged, hall, hforwarded]
  refine congrArg _ (Finset.sum_congr rfl fun t ht => ?_)
  obtain ⟨p, hp⟩ := Option.isSome_iff_exists.mp ((hlisted t).mpr (List.mem_toFinset.mp ht))
  obtain ⟨hbuffer, hqueue⟩ := h.drained.2.2 t p hp
  rw [(hlines t p hp).events, hbuffer, hqueue, List.append_nil, List.append_nil]

end Idle

/-- What a server has added up to when it is idle, as terms that do not know their
order or their timestamps. -/
structure SameTerms (s₁ s₂ : Exchange) : Prop where
  accepted : s₁.clearing.accepted = s₂.clearing.accepted
  credited : s₁.clearing.credited = s₂.clearing.credited
  traded : s₁.clearing.traded.map MatchRecord.untimed
    = s₂.clearing.traded.map MatchRecord.untimed
  cancelled : s₁.clearing.cancelled.map CancelRecord.untimed
    = s₂.clearing.cancelled.map CancelRecord.untimed

/-- Timestamps add nothing to an account. -/
theorem SameTerms.tally {s₁ s₂ : Exchange} (h : SameTerms s₁ s₂) (hidle₁ : s₁.Idle)
    (hidle₂ : s₂.Idle) (g : Gauge) : g.tally s₁.clearing = g.tally s₂.clearing := by
  have hrecords : ∀ f : MatchRecord → ℤ, (∀ rec, f rec.untimed = f rec) →
      s₁.clearing.traded.map f = s₂.clearing.traded.map f := by
    intro f hf
    have hmap := congrArg (Multiset.map f) h.traded
    simpa only [Multiset.map_map, Function.comp_def, hf] using hmap
  have hcancels : s₁.clearing.cancelled.map g.releasedBy
      = s₂.clearing.cancelled.map g.releasedBy := by
    have huntimed : ∀ rec : CancelRecord, g.releasedBy rec.untimed = g.releasedBy rec :=
      fun _ => rfl
    have hmap := congrArg (Multiset.map g.releasedBy) h.cancelled
    simpa only [Multiset.map_map, Function.comp_def, huntimed] using hmap
  rw [Gauge.tally_of_settled hidle₁.waitingRecords hidle₁.current hidle₁.waitingCancels,
    Gauge.tally_of_settled hidle₂.waitingRecords hidle₂.current hidle₂.waitingCancels,
    h.accepted, h.credited, hrecords g.boughtBy fun _ => rfl, hrecords g.soldBy fun _ => rfl,
    hcancels]

end Exchange

open Exchange

section TwoRuns

variable {users : UserManager} {tickers : TickerManager} {db₁ db₂ : Database}
  {walFile₁ walFile₂ : Option (List WALRecord)} {actions₁ actions₂ : List Action}
  {s₁ s₂ : Exchange}
  (hrun₁ : runs Exchange.step (Exchange.start users tickers db₁ walFile₁) actions₁ = some s₁)
  (hrun₂ : runs Exchange.step (Exchange.start users tickers db₂ walFile₂) actions₂ = some s₂)
  (hsame : ∀ t ∈ tickers.getAllTickerIds,
    ((Exchange.start users tickers db₁ walFile₁).trace actions₁).processed t
      = ((Exchange.start users tickers db₂ walFile₂).trace actions₂).processed t)
include hrun₁ hrun₂ hsame

/-- Workers that processed the same events have the same book and have made the same
records. -/
theorem same_books {t : UInt32} (ht : t ∈ tickers.getAllTickerIds) :
    (s₁.engine.orderBooks.lookup t).map OrderBookProcessor.book
        = (s₂.engine.orderBooks.lookup t).map OrderBookProcessor.book ∧
      (((Exchange.start users tickers db₁ walFile₁).trace actions₁).traded t).map
          MatchRecord.untimed
        = (((Exchange.start users tickers db₂ walFile₂).trace actions₂).traded t).map
          MatchRecord.untimed ∧
      (((Exchange.start users tickers db₁ walFile₁).trace actions₁).cancelled t).map
          CancelRecord.untimed
        = (((Exchange.start users tickers db₂ walFile₂).trace actions₂).cancelled t).map
          CancelRecord.untimed := by
  obtain ⟨hlisted₁, hlines₁⟩ := Exchange.runs_staffed hrun₁
  obtain ⟨hlisted₂, hlines₂⟩ := Exchange.runs_staffed hrun₂
  obtain ⟨p₁, hp₁⟩ := Option.isSome_iff_exists.mp ((hlisted₁ t).mpr ht)
  obtain ⟨p₂, hp₂⟩ := Option.isSome_iff_exists.mp ((hlisted₂ t).mpr ht)
  have hfollows₁ := (hlines₁ t p₁ hp₁).follows (fun _ => 0) 0
  have hfollows₂ := (hlines₂ t p₂ hp₂).follows (fun _ => 0) 0
  rw [hsame t ht] at hfollows₁
  have hbooks : p₁.book = p₂.book := hfollows₁.book.trans hfollows₂.book.symm
  change s₁.engine.orderBooks.lookup t = some p₁ at hp₁
  change s₂.engine.orderBooks.lookup t = some p₂ at hp₂
  refine ⟨?_, hfollows₁.traded.trans hfollows₂.traded.symm,
    hfollows₁.cancelled.trans hfollows₂.cancelled.symm⟩
  rw [hp₁, hp₂, Option.map_some, Option.map_some, hbooks]

theorem sameTerms (hdropped : s₁.history.dropped.Perm s₂.history.dropped)
    (hcredited : s₁.history.credited.Perm s₂.history.credited) (hidle₁ : s₁.Idle)
    (hidle₂ : s₂.Idle) : SameTerms s₁ s₂ := by
  have hmap : ∀ {α β : Type} (f : α → β) (ids : Finset UInt32) (m : UInt32 → List α),
      Multiset.map f (∑ t ∈ ids, (m t : Multiset α)) = ∑ t ∈ ids, ((m t).map f : Multiset β) := by
    intro α β f ids m
    exact map_sum (Multiset.mapAddMonoidHom f) (fun t => (m t : Multiset α)) ids
  have hsettling₁ := runs_settling hrun₁
  have hsettling₂ := runs_settling hrun₂
  refine ⟨?_, Multiset.coe_eq_coe.mpr hcredited, ?_, ?_⟩
  · rw [hidle₁.accepted hrun₁, hidle₂.accepted hrun₂, Multiset.coe_eq_coe.mpr hdropped]
    refine congrArg _ (Finset.sum_congr rfl fun t ht => ?_)
    rw [hsame t (List.mem_toFinset.mp ht)]
  · rw [hsettling₁.traded, hsettling₂.traded, hmap, hmap]
    refine Finset.sum_congr rfl fun t ht => congrArg _ ?_
    exact (same_books hrun₁ hrun₂ hsame (List.mem_toFinset.mp ht)).2.1
  · rw [hsettling₁.cancelled, hsettling₂.cancelled, hmap, hmap]
    refine Finset.sum_congr rfl fun t ht => congrArg _ ?_
    exact (same_books hrun₁ hrun₂ hsame (List.mem_toFinset.mp ht)).2.2

omit hsame in
/-- A number of an account is the same up to its modulus. -/
theorem same_reading (hterms : SameTerms s₁ s₂) (hidle₁ : s₁.Idle) (hidle₂ : s₂.Idle)
    (g : Gauge) : g.reading s₁.users ≡ g.reading s₂.users [ZMOD g.modulus] := by
  have hstart : ∀ db walFile, g.base (Exchange.start users tickers db walFile).clearing
      = g.reading users := by
    intro db walFile
    have hfresh := start_fresh users tickers db walFile
    have hzero : g.tally (Exchange.start users tickers db walFile).clearing = 0 := by
      rw [Gauge.tally_of_settled hfresh.records hfresh.inHand hfresh.cancels, hfresh.accepted,
        hfresh.credited, hfresh.traded, hfresh.cancelled]
      rfl
    unfold Gauge.base
    rw [hzero, sub_zero]
    rfl
  have hbase₁ := (runs_settling hrun₁).base g
  have hbase₂ := (runs_settling hrun₂).base g
  rw [hstart] at hbase₁ hbase₂
  have hboth := (hbase₁.trans hbase₂.symm).add_right (g.tally s₂.clearing)
  unfold Gauge.base at hboth
  rw [hterms.tally hidle₁ hidle₂ g, sub_add_cancel, sub_add_cancel] at hboth
  exact hboth

end TwoRuns

/-- **Scheduling makes no difference.**  Take two runs of the server from the same
accounts and with the same listed tickers, in which every worker processes the same
events, the same orders find no book and the same deposits are credited, and which
otherwise differ in anything: in the batches, in how the threads take turns, in the
order in which settlement takes its records, in the clock and in what the database
does.  When both are idle, every book is the same, and so are the four numbers of
every account. -/
theorem scheduling_irrelevant (users : UserManager) (tickers : TickerManager)
    (db₁ db₂ : Database) (walFile₁ walFile₂ : Option (List WALRecord))
    (actions₁ actions₂ : List Action) (s₁ s₂ : Exchange)
    (hrun₁ : runs Exchange.step (Exchange.start users tickers db₁ walFile₁) actions₁ = some s₁)
    (hrun₂ : runs Exchange.step (Exchange.start users tickers db₂ walFile₂) actions₂ = some s₂)
    (hsame : ∀ t ∈ tickers.getAllTickerIds,
      ((Exchange.start users tickers db₁ walFile₁).trace actions₁).processed t
        = ((Exchange.start users tickers db₂ walFile₂).trace actions₂).processed t)
    (hdropped : s₁.history.dropped.Perm s₂.history.dropped)
    (hcredited : s₁.history.credited.Perm s₂.history.credited)
    (hidle₁ : s₁.Idle) (hidle₂ : s₂.Idle) :
    (∀ t, (s₁.engine.orderBooks.lookup t).map OrderBookProcessor.book
      = (s₂.engine.orderBooks.lookup t).map OrderBookProcessor.book) ∧
    ∀ u, s₁.users.availableBalance u = s₂.users.availableBalance u ∧
      s₁.users.frozenBalance u = s₂.users.frozenBalance u ∧
      ∀ t, s₁.users.availableStock u t = s₂.users.availableStock u t ∧
        s₁.users.frozenStock u t = s₂.users.frozenStock u t := by
  have hterms := sameTerms hrun₁ hrun₂ hsame hdropped hcredited hidle₁ hidle₂
  have hreading := same_reading hrun₁ hrun₂ hterms hidle₁ hidle₂
  refine ⟨fun t => ?_, fun u => ⟨?_, ?_, fun t => ⟨?_, ?_⟩⟩⟩
  · by_cases ht : t ∈ tickers.getAllTickerIds
    · exact (same_books hrun₁ hrun₂ hsame ht).1
    · -- A ticker that is not listed has no book in either run.
      have hnone : ∀ {s : Exchange} {db walFile actions},
          runs Exchange.step (Exchange.start users tickers db walFile) actions = some s →
          s.engine.orderBooks.lookup t = none := by
        intro s db walFile actions hrun
        refine Option.not_isSome_iff_eq_none.mp fun hsome => ht ?_
        exact ((Exchange.runs_staffed hrun).1 t).mp hsome
      rw [hnone hrun₁, hnone hrun₂]
  · exact int64_eq_of_modEq (hreading (availableCash u))
  · exact int64_eq_of_modEq (hreading (frozenCash u).gauge)
  · exact int32_eq_of_modEq (hreading (availableShares u t))
  · exact int32_eq_of_modEq (hreading (frozenShares u t).gauge)

/-- Bob offers five shares, alice buys three of them and bob cancels the rest. -/
def requests : List Action :=
  [.trade 0 ⟨"bob", 2⟩ ⟨1, 1, 100, 5⟩ 11 0, .appendOrder 0,
    .trade 1 ⟨"alice", 1⟩ ⟨1, 0, 101, 3⟩ 12 0, .appendOrder 1, .cancel 1 ⟨"bob", 2⟩ ⟨1, 11⟩,
    .logDequeue [0, 1, 1], .logWrite (fun _ => 0) 3, .logForward, .logForward, .logForward]

/-- One batch, and the trade is settled before the cancellation. -/
def oneBatch : List Action :=
  requests ++ [.workerDequeue 1 3, .workerProcess 1 (fun _ => 0) 0,
    .workerProcess 1 (fun _ => 0) 0, .workerProcess 1 (fun _ => 0) 0, .workerPush 1,
    .settleDequeue [1], .settleStart, .settleCall none, .settleCall none, .settleCall none,
    .settleCall none, .commitBuy, .commitSell, .cancelDequeue [1], .cancelRelease]

/-- Three batches, and the cancellation overtakes the trade. -/
def threeBatches : List Action :=
  requests ++ [.workerDequeue 1 1, .workerProcess 1 (fun _ => 7) 7, .workerDequeue 1 1,
    .workerProcess 1 (fun _ => 7) 7, .workerPush 1, .workerDequeue 1 1,
    .workerProcess 1 (fun _ => 7) 7, .settleDequeue [], .cancelDequeue [1], .cancelRelease,
    .settleDequeue [1], .settleStart, .settleCall none, .settleCall none, .settleCall none,
    .settleCall none, .commitBuy, .commitSell]

def oneBatchEnd : Exchange :=
  runsTo Exchange.step (Exchange.start tradeUsers sampleTickers sampleDb none) oneBatch

def threeBatchesEnd : Exchange :=
  runsTo Exchange.step (Exchange.start tradeUsers sampleTickers sampleDb none) threeBatches

theorem idle_of_entries {s : Exchange} (htrading : s.trading = [])
    (hlog : s.wal.buffer = [] ∧ s.wal.queue.elems = [])
    (hworkers : ∀ e ∈ s.engine.orderBooks.entries,
      e.2.buffer = [] ∧ e.2.queue = [] ∧ e.2.results = [])
    (hrecords : s.settlement.queue = [] ∧ s.settlement.buffer = [])
    (hcancels : s.settlement.cancelQueue = [] ∧ s.settlement.cancelBuffer = [])
    (hcurrent : s.settlement.current = none) : s.Idle := by
  have hworker : ∀ t p, s.engine.orderBooks.lookup t = some p →
      p.buffer = [] ∧ p.queue = [] ∧ p.results = [] := fun t p hp =>
    hworkers ⟨t, p⟩ ((UnorderedMap.mem_entries_iff _ t p).mpr hp)
  exact ⟨htrading, ⟨hlog.1, hlog.2, fun t p hp => ⟨(hworker t p hp).1, (hworker t p hp).2.1⟩⟩,
    fun t p hp => (hworker t p hp).2.2, hrecords, hcancels, hcurrent⟩

theorem scheduling_irrelevant_sample :
    oneBatchEnd.Idle ∧ threeBatchesEnd.Idle ∧
      oneBatchEnd.users.availableBalance 1 = threeBatchesEnd.users.availableBalance 1 := by
  have hidle₁ : oneBatchEnd.Idle := idle_of_entries (by decide) (by decide) (by decide)
    (by decide) (by decide) (by decide)
  have hidle₂ : threeBatchesEnd.Idle := idle_of_entries (by decide) (by decide) (by decide)
    (by decide) (by decide) (by decide)
  have hsame : ∀ t ∈ sampleTickers.getAllTickerIds,
      ((Exchange.start tradeUsers sampleTickers sampleDb none).trace oneBatch).processed t
        = ((Exchange.start tradeUsers sampleTickers sampleDb none).trace threeBatches).processed t :=
    List.forall_mem_singleton.mpr (by decide)
  have hresult := scheduling_irrelevant tradeUsers sampleTickers sampleDb sampleDb none none
    oneBatch threeBatches oneBatchEnd threeBatchesEnd (runs_eq_runsTo _ (by decide))
    (runs_eq_runsTo _ (by decide)) hsame (by decide) (by decide) hidle₁ hidle₂
  exact ⟨hidle₁, hidle₂, (hresult.2 1).1⟩

end ExchangeServer
