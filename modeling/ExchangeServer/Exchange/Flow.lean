import ExchangeServer.Exchange.Basic
import ExchangeServer.Pipeline

/-!
# The pipeline of the server

The log thread and the workers of the server are a `Pipeline`, and the handlers are
who appends to it.  `step_pipeline` says that an action of the server leaves the
pipeline alone or is an action of the pipeline, so what is known of the pipeline holds
in the server.
-/

namespace ExchangeServer

open Lib

namespace Exchange

/-- The log and the engine of the server. -/
def pipeline (s : Exchange) : Pipeline := ⟨s.wal, s.engine⟩

/-- What an action is for the pipeline, if anything. -/
def pipelineAction (s : Exchange) : Action → Option PipelineAction
  | .appendOrder thread =>
      (ProducerQueue.dequeue thread s.trading).map fun out => .append thread (.newOrder out.1)
  | .cancel thread session req =>
      if session.isLoggedIn then
        some (.append thread (.cancelOrder req.tickerId req.orderId session.userId))
      else none
  | .logDequeue picks => some (.logDequeue picks)
  | .logWrite now count => some (.logWrite now count)
  | .logForward => some .logForward
  | .workerDequeue t count => some (.workerDequeue t count)
  | .workerProcess t clock now => some (.workerProcess t clock now)
  | .workerPush t => some (.workerPush t)
  | _ => none

variable {s s' : Exchange} {a : Action}

/-- **An action of the server is none of the pipeline's, or one.** -/
theorem step_pipeline (hstep : s.step a = some s') :
    (s.pipelineAction a = none ∧ s'.pipeline = s.pipeline) ∨
      ∃ b, s.pipelineAction a = some b ∧ s.pipeline.step b = some s'.pipeline := by
  cases step_spec hstep with
  | appendOrder thread o trading hout =>
      refine Or.inr ⟨.append thread (.newOrder o), ?_, rfl⟩
      rw [pipelineAction, hout]
      rfl
  | cancel thread session req =>
      unfold CancelRequest.handle
      split_ifs with hlogin
      · exact Or.inr ⟨_, if_pos hlogin, rfl⟩
      · exact Or.inl ⟨if_neg hlogin, rfl⟩
  | logDequeue picks wal hwal =>
      exact Or.inr ⟨_, rfl, Option.map_eq_some_iff.mpr ⟨wal, hwal, rfl⟩⟩
  | logWrite now count wal hwal =>
      exact Or.inr ⟨_, rfl, Option.map_eq_some_iff.mpr ⟨wal, hwal, rfl⟩⟩
  | logForward ev rest hwritten hbuffer =>
      refine Or.inr ⟨.logForward, rfl, ?_⟩
      show Pipeline.logForward _ = _
      simp only [Pipeline.logForward, pipeline, hwritten, hbuffer]
  | workerDequeue t count p p' hp hp' =>
      refine Or.inr ⟨_, rfl, ?_⟩
      exact Option.bind_eq_some_iff.mpr ⟨p, hp, Option.map_eq_some_iff.mpr ⟨p', hp', rfl⟩⟩
  | workerProcess t clock now p out hp hout =>
      refine Or.inr ⟨_, rfl, ?_⟩
      exact Option.bind_eq_some_iff.mpr ⟨p, hp, Option.map_eq_some_iff.mpr
        ⟨out.1, Option.map_eq_some_iff.mpr ⟨out, hout, rfl⟩, rfl⟩⟩
  | workerPush t p out hp hout =>
      refine Or.inr ⟨_, rfl, ?_⟩
      exact Option.bind_eq_some_iff.mpr ⟨p, hp, Option.map_eq_some_iff.mpr
        ⟨out.1, Option.map_eq_some_iff.mpr ⟨out, hout, rfl⟩, rfl⟩⟩
  -- The account, deposit and settlement actions touch neither the log nor the engine.
  | _ => exact Or.inl ⟨rfl, rfl⟩

/-- What an action does in the pipeline. -/
def signal (s : Exchange) (a : Action) : Option Signal :=
  (s.pipelineAction a).bind s.pipeline.signal

/-- What an action does in the pipeline is nothing, or what its signal says. -/
theorem step_signal (hstep : s.step a = some s') :
    (s.signal a = none ∧ s'.pipeline = s.pipeline) ∨
      ∃ σ, s.signal a = some σ ∧ s.pipeline.Step σ s'.pipeline := by
  unfold signal
  rcases step_pipeline hstep with ⟨hb, hsame⟩ | ⟨b, hb, hmove⟩
  · rw [hb]
    exact Or.inl ⟨rfl, hsame⟩
  · obtain ⟨σ, hσ, hmove⟩ := Pipeline.step_spec hmove
    rw [hb]
    exact Or.inr ⟨σ, hσ, hmove⟩

/-- The trace of a run. -/
def trace (s : Exchange) (actions : List Action) : Trace :=
  follow (fun s a tr => tr ++ (s.signal a).toList) step s [] actions

variable {users : UserManager} {tickers : TickerManager} {db : Database}
  {walFile : Option (List WALRecord)} {actions : List Action}

/-- **What every step of the pipeline keeps holds in every run of the server.** -/
theorem trace_induction {I : Trace → Pipeline → Prop}
    (hstep : ∀ tr x σ x', I tr x → Pipeline.Step x σ x' → I (tr ++ [σ]) x')
    (hstart : I [] s.pipeline) (hrun : runs step s actions = some s') :
    I (s.trace actions) s'.pipeline := by
  unfold trace
  refine follow_induction (I := fun s tr => I tr s.pipeline) ?_ actions hstart hrun
  intro s tr a s' hI ha
  rcases step_signal ha with ⟨hσ, hsame⟩ | ⟨σ, hσ, hmove⟩
  · rw [hσ, hsame, Option.toList_none, List.append_nil]
    exact hI
  · rw [hσ]
    exact hstep tr _ σ _ hI hmove

theorem trace_snoc (hrun : runs step s actions = some s') {t : Exchange}
    (hlast : s'.step a = some t) :
    s.trace (actions ++ [a]) = s.trace actions ++ (s'.signal a).toList :=
  follow_snoc hrun hlast

/-- **An invariant of the server and its trace**, from what one action does to them in a
state that is reached. -/
theorem trace_reachable {I : Exchange → Trace → Prop} (hstart : I s [])
    (hstep : ∀ as t a t', runs step s as = some t → I t (s.trace as) → t.step a = some t' →
      I t' (s.trace as ++ (t.signal a).toList))
    (hrun : runs step s actions = some s') : I s' (s.trace actions) := by
  refine runs_reachable (I := fun as t => I t (s.trace as)) actions hstart ?_ hrun
  intro as t a t' hreach hI ha
  rw [trace_snoc hreach ha]
  exact hstep as t a t' hreach hI ha

/-- In every run, every listed ticker has a worker and every worker is in line. -/
theorem runs_staffed (hrun : runs step (start users tickers db walFile) actions = some s) :
    Pipeline.Staffed tickers.getAllTickerIds ((start users tickers db walFile).trace actions)
      s.pipeline :=
  trace_induction (I := fun tr x => Pipeline.Staffed tickers.getAllTickerIds tr x)
    (fun _ _ _ _ h hstep => h.step hstep) (Pipeline.Staffed.start _ walFile) hrun

/-- In every run, the events appended are those forwarded and those still in the log. -/
theorem runs_appended (hrun : runs step (start users tickers db walFile) actions = some s) :
    ((start users tickers db walFile).trace actions).appended.Perm
      (((start users tickers db walFile).trace actions).forwarded
        ++ (s.wal.buffer ++ s.wal.queue.elems)) :=
  trace_induction
    (I := fun tr x => tr.appended.Perm (tr.forwarded ++ (x.wal.buffer ++ x.wal.queue.elems)))
    (fun _ _ _ _ h hstep => hstep.appended h) (List.Perm.refl _) hrun

end Exchange

end ExchangeServer
