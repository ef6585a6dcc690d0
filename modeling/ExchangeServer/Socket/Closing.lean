import ExchangeServer.Handlers.Basic
import ExchangeServer.Socket.Basic

/-!
# What is lost when a connection closes

A call reads everything before it dispatches anything.  When the end of the stream comes
in the same call as the last bytes, the branch for it removes the session and returns,
and what the call has read is never looked at.

`Socket.dispatched_at_close_iff` says that this is the only way to lose a request.
-/

namespace ExchangeServer

open Lib

namespace Socket

section Closing

variable {σ : Type*} {dispatch : Dispatch σ} {state₀ : σ} {s s' : Socket σ} {as : List Syscall}
  {r : RecvResult}

/-- Every complete packet that was received has been dispatched, once and in order. -/
def AllDispatched (s : Socket σ) : Prop :=
  s.dispatched = (packets.parse s.received).1

/-- What has been read and not been used up: the buffer of the session, and what the
current call has read. -/
def pending (s : Socket σ) : List Byte :=
  match s.phase with
  | .reading localData => s.buffer ++ localData
  | _ => s.buffer

theorem pending_of_reading {localData : List Byte} (hphase : s.phase = .reading localData) :
    s.pending = s.buffer ++ localData := by
  rw [pending, hphase]

/-- **A close loses nothing exactly when no complete packet is pending.** -/
theorem dispatched_at_close_iff (hrun : runs (step dispatch) (new state₀) as = some s)
    (hr : r = .closed ∨ r = .failed) (hstep : s.step dispatch (.recv r) = some s') :
    s'.phase = .removed ∧ (s'.AllDispatched ↔ packets.next s.pending = none) := by
  have hparsed := (framed_of_runs hrun).parsed
  cases step_spec dispatch hstep with
  | read | interrupted | idle | serve => rcases hr with hr | hr <;> cases hr
  | @remove localData _ hphase =>
      rw [hphase] at hparsed
      obtain ⟨earlier, hreceived, hparse⟩ := hparsed
      refine ⟨rfl, ?_⟩
      -- What is lost is what the format finds behind the requests dispatched so far.
      show s.dispatched = (packets.parse s.received).1 ↔ _
      rw [hreceived, packets.parse_append, hparse, pending_of_reading hphase,
        ← packets.parse_fst_eq_nil_iff]
      exact List.self_eq_append_right

/-- Nothing is lost when the close comes in a call of its own. -/
theorem pending_of_idle (hrun : runs (step dispatch) (new state₀) as = some s)
    (hphase : s.phase = .reading []) : packets.next s.pending = none := by
  have hparsed := (framed_of_runs hrun).parsed
  rw [hphase] at hparsed
  obtain ⟨earlier, -, hparse⟩ := hparsed
  have hrest := packets.next_parse earlier
  rw [hparse] at hrest
  rw [pending_of_reading hphase, List.append_nil]
  exact hrest

end Closing

/-! ### A client that logs out -/

/-- The handlers, for a client that only sends `LOGOUT_REQ`. -/
def logouts : Dispatch (Services × Session) := fun state _ =>
  let out := ExitHandler.handle state.1 state.2
  ((out.services, out.session), .ok out.reply)

/-- What they see on a new connection. -/
def stranger : Services × Session :=
  (Services.new, ⟨"", 0⟩)

/-- The request. -/
def logoutReq : List Byte :=
  packet MsgType.logout.code []

/-- The reply: the client was not logged in. -/
def logoutResp : List Byte :=
  packet (MsgType.logout.code + 1) [0]

theorem advance_logoutReq :
    advance logouts logoutReq 0 stranger
        = ⟨stranger, 6, [Request.ofBody MsgType.logout.code []], some logoutResp⟩ ∧
      advance logouts logoutReq 6 stranger = ⟨stranger, 6, [], none⟩ := by
  have hfirst : packets.next (logoutReq.drop 0)
      = some (Request.ofBody MsgType.logout.code [], 6) := by decide
  have hlast : packets.next (logoutReq.drop 6) = none := by decide
  exact ⟨advance_of_reply logouts stranger hfirst (by decide),
    advance_of_none logouts stranger hlast⟩

/-- A request that is served before the next call. -/
theorem logout_served :
    runs (step logouts) (new stranger)
        [.recv (.bytes logoutReq), .recv .wouldBlock, .send (.count 7)]
      = some ⟨[], stranger, .reading [], logoutReq, [Request.ofBody MsgType.logout.code []],
          [(logoutResp, 7)]⟩ := by
  obtain ⟨hfirst, hlast⟩ := advance_logoutReq
  have hread : step logouts (new stranger) (.recv (.bytes logoutReq))
      = some ⟨[], stranger, .reading logoutReq, logoutReq, [], []⟩ := rfl
  have hserve : step logouts ⟨[], stranger, .reading logoutReq, logoutReq, [], []⟩
      (.recv .wouldBlock)
      = some ⟨logoutReq, stranger, .sending 6 logoutResp 0, logoutReq,
          [Request.ofBody MsgType.logout.code []], []⟩ :=
    congrArg some (resume_of_reply hfirst)
  have hsend : step logouts ⟨logoutReq, stranger, .sending 6 logoutResp 0, logoutReq,
        [Request.ofBody MsgType.logout.code []], []⟩ (.send (.count 7))
      = some ⟨[], stranger, .reading [], logoutReq, [Request.ofBody MsgType.logout.code []],
          [(logoutResp, 7)]⟩ :=
    congrArg some ((leave_of_end hlast).trans rfl)
  rw [runs, hread, Option.bind_some, runs, hserve, Option.bind_some, runs, hsend]
  rfl

/-- When the client closes after that, nothing is lost. -/
theorem dispatched_at_close_sample :
    AllDispatched (⟨[], stranger, .removed, logoutReq, [Request.ofBody MsgType.logout.code []],
      [(logoutResp, 7)]⟩ : Socket (Services × Session)) :=
  (dispatched_at_close_iff logout_served (Or.inl rfl) rfl).2.mpr packets_next_nil

/-- When it closes before the server has read, the same bytes are lost. -/
theorem logout_lost :
    runs (step logouts) (new stranger) [.recv (.bytes logoutReq), .recv .closed]
        = some ⟨[], stranger, .removed, logoutReq, [], []⟩ ∧
      ¬ AllDispatched (⟨[], stranger, .removed, logoutReq, [], []⟩ :
        Socket (Services × Session)) := by
  refine ⟨rfl, fun h => ?_⟩
  have hnone := packets.parse_fst_eq_nil_iff.mp (Eq.symm h)
  exact absurd hnone (by decide)

end Socket

end ExchangeServer
