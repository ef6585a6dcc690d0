import ExchangeServer.Exchange.Flow
import ExchangeServer.Exchange.Laws
import ExchangeServer.Tickets

/-!
# Time priority

An order that was acknowledged before another request was taken up should reach the
book first.  The observer of a run gives tickets to the events as the handlers append
them, and `acknowledged_first_processed_first` says when the order of the tickets is
kept: when the later request is put into the log queue, the earlier one has left the
queue or was put into it by the same pool thread.

The pool gives the requests of one session to any of its threads, so the condition may
fail for two requests of one session (`session_requests_inverted`).
-/

namespace ExchangeServer

open Lib

/-- The thread that takes up a request for the book with this action. -/
def Action.handler? : Action → Option ThreadId
  | .trade thread _ _ _ _ => some thread
  | .cancel thread _ _ => some thread
  | _ => none

namespace Exchange

/-- What the observer notes of an action: a request that is taken up, and the way of
the tickets through the pipeline. -/
def noteTickets (s : Exchange) (a : Action) (n : Tickets) : Tickets :=
  let n := a.handler?.elim n n.start
  (s.signal a).elim n n.move

/-- The tickets at the end of a run. -/
def tickets (s : Exchange) (actions : List Action) : Tickets :=
  follow noteTickets step s Tickets.new actions

variable {users : UserManager} {tickers : TickerManager} {db : Database}
  {walFile : Option (List WALRecord)} {actions : List Action} {s s' : Exchange} {a : Action}

/-- The tickets are where the events are, in the order of the log. -/
structure Ticketed (tr : Trace) (s : Exchange) (n : Tickets) : Prop where
  labels : Tickets.Labels tr s.pipeline n
  ordered : n.Ordered

theorem Ticketed.start (users : UserManager) (tickers : TickerManager) (db : Database)
    (walFile : Option (List WALRecord)) :
    Ticketed [] (Exchange.start users tickers db walFile) Tickets.new := by
  refine ⟨⟨rfl, rfl, rfl, fun t p hp => ?_, fun t => rfl⟩, Tickets.Ordered.new⟩
  change (Exchange.start users tickers db walFile).engine.orderBooks.lookup t = some p at hp
  rw [lookup_start] at hp
  split_ifs at hp
  obtain rfl := Option.some.inj hp
  rfl

theorem Ticketed.step {tr : Trace} {n : Tickets} (h : Ticketed tr s n)
    (hstep : s.step a = some s') :
    Ticketed (tr ++ (s.signal a).toList) s' (s.noteTickets a n) := by
  have hstart : Ticketed tr s (a.handler?.elim n n.start) := by
    cases a.handler? with
    | none => exact h
    | some thread => exact ⟨h.labels.start thread, h.ordered.start thread⟩
  unfold noteTickets
  rcases step_signal hstep with ⟨hσ, hsame⟩ | ⟨σ, hσ, hmove⟩
  · rw [hσ]
    refine ⟨?_, hstart.ordered⟩
    rw [hsame, Option.toList_none, List.append_nil]
    exact hstart.labels
  · rw [hσ]
    exact ⟨hstart.labels.step hmove, hstart.ordered.step hstart.labels hmove⟩

theorem runs_ticketed (hrun : runs step (start users tickers db walFile) actions = some s) :
    Ticketed ((start users tickers db walFile).trace actions) s
      ((start users tickers db walFile).tickets actions) := by
  refine runs_reachable (I := fun as t => Ticketed ((start users tickers db walFile).trace as) t
    ((start users tickers db walFile).tickets as)) actions (Ticketed.start ..) ?_ hrun
  intro as t a t' hreach h ha
  have hnotes : (start users tickers db walFile).tickets (as ++ [a])
      = t.noteTickets a ((start users tickers db walFile).tickets as) := follow_snoc hreach ha
  rw [hnotes, trace_snoc hreach ha]
  exact h.step ha

end Exchange

/-- **When acknowledged order is time order.**  The tickets number the events that the
handlers have appended, and `done` are the tickets of the events that a book has
processed.  If `k` was issued before the handling of `l` started, and `l` was put into
the log queue by the thread of `k` or after `k` had left it, then the book processes
`k` before `l`. -/
theorem acknowledged_first_processed_first (users : UserManager) (tickers : TickerManager)
    (db : Database) (walFile : Option (List WALRecord)) (actions : List Action) (s : Exchange)
    (hrun : runs Exchange.step (Exchange.start users tickers db walFile) actions = some s) :
    (((Exchange.start users tickers db walFile).tickets actions).issued.elems.map Ticket.ev
      = ((Exchange.start users tickers db walFile).trace actions).appended) ∧
    (∀ t, (((Exchange.start users tickers db walFile).tickets actions).done t).map
        (fun k => k.ev.delivered)
      = ((Exchange.start users tickers db walFile).trace actions).processed t) ∧
    ∀ threadK threadL k l,
      (threadK, k) ∈ ((Exchange.start users tickers db walFile).tickets actions).issued →
      (threadL, l) ∈ ((Exchange.start users tickers db walFile).tickets actions).issued →
      k.number < l.since → k.ev.tickerId = l.ev.tickerId →
      (k.number ∈ l.ahead → threadK = threadL) →
      l ∈ ((Exchange.start users tickers db walFile).tickets actions).done l.ev.tickerId →
      Precedes (((Exchange.start users tickers db walFile).tickets actions).done l.ev.tickerId)
        k l := by
  have hticketed := Exchange.runs_ticketed hrun
  refine ⟨hticketed.labels.issued, hticketed.labels.done, ?_⟩
  intro threadK threadL k l hk hl hsince hticker hahead hdone
  exact hticketed.ordered.precedes hk hl hsince hticker hahead hdone

/-- Alice sends two orders on one session, the first is handled by thread `first` and
the second by thread `second`; the log thread takes both at once. -/
def sessionRequests (first second : ThreadId) (picks : List ThreadId) : List Action :=
  [.trade first ⟨"alice", 1⟩ ⟨1, 0, 10, 1⟩ 11 0, .appendOrder first,
    .trade second ⟨"alice", 1⟩ ⟨1, 0, 10, 2⟩ 12 0, .appendOrder second,
    .logDequeue picks, .logWrite (fun _ => 0) 2, .logForward, .logForward,
    .workerDequeue 1 2, .workerProcess 1 (fun _ => 0) 0, .workerProcess 1 (fun _ => 0) 0]

def sessionTickets (first second : ThreadId) (picks : List ThreadId) : Tickets :=
  (Exchange.start tradeUsers sampleTickers sampleDb none).tickets
    (sessionRequests first second picks)

/-- Her two orders, with the tickets they get. -/
def firstTicket : Ticket := ⟨0, .newOrder ⟨11, 1, 1, .buy, 10, 1, 0⟩, 0, []⟩

def secondTicket : Ticket := ⟨1, .newOrder ⟨12, 1, 1, .buy, 10, 2, 0⟩, 1, [0]⟩

/-- One thread handles both, and they are processed in order. -/
theorem acknowledged_first_processed_first_sample :
    Precedes ((sessionTickets 0 0 [0, 0]).done 1) firstTicket secondTicket := by
  have hresult := acknowledged_first_processed_first tradeUsers sampleTickers sampleDb none
    (sessionRequests 0 0 [0, 0]) _ (runs_eq_runsTo Exchange.step (by decide))
  exact hresult.2.2 0 0 firstTicket secondTicket (by decide) (by decide) (by decide) rfl
    (fun _ => rfl) (by decide)

/-- Two threads handle them, and the second order is processed first although the first
had been acknowledged before the second was taken up. -/
theorem session_requests_inverted :
    (runs Exchange.step (Exchange.start tradeUsers sampleTickers sampleDb none)
      (sessionRequests 0 1 [1, 0])).isSome ∧
    (sessionTickets 0 1 [1, 0]).issued = [(0, firstTicket), (1, secondTicket)] ∧
    firstTicket.number < secondTicket.since ∧
    firstTicket.ev.tickerId = secondTicket.ev.tickerId ∧
    (sessionTickets 0 1 [1, 0]).done 1 = [secondTicket, firstTicket] ∧
    ¬ Precedes ((sessionTickets 0 1 [1, 0]).done 1) firstTicket secondTicket := by
  have hdone : (sessionTickets 0 1 [1, 0]).done 1 = [secondTicket, firstTicket] := by decide
  refine ⟨by decide, by decide, by decide, by decide, hdone, ?_⟩
  rw [hdone, Precedes]
  decide

end ExchangeServer
