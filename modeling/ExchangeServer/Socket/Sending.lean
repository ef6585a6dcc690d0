import ExchangeServer.Socket.Closing

/-!
# What the client finds in the stream

The client reads a header and then as many bytes as it says, so it needs every byte of
every packet.  The loop of `send` ends when the packet is sent, and also when `send`
returns `0` or fails with anything but `EAGAIN`; either way `MyEchoBusiness` goes on with
the next request, on the same connection.

`Socket.in_sync_iff` says that the stream stays a beginning of the packets exactly when
nothing is sent any more once `send` has failed.
-/

namespace ExchangeServer

open Lib

namespace Syscall

/-- `send` has given up a packet. -/
def givesUp : Syscall → Bool
  | send .zero | send .failed => true
  | _ => false

/-- `send` has taken bytes. -/
def puts : Syscall → Bool
  | send (.count _) => true
  | _ => false

end Syscall

/-- Once `send` has given up a packet, it takes no bytes any more. -/
def NothingAfterFailure (as : List Syscall) : Prop :=
  as.Pairwise fun a b => a.givesUp = true → b.puts = false

instance (as : List Syscall) : Decidable (NothingAfterFailure as) := by
  unfold NothingAfterFailure
  infer_instance

namespace Socket

section Sending

variable {σ : Type*} (dispatch : Dispatch σ) (state₀ : σ)

/-- The bytes on the connection are the beginning of the packets of the replies, in the
order of the requests, and nothing has been sent of a packet behind one that is not
complete. -/
structure InSync (s : Socket σ) : Prop where
  isPrefix : s.output <+: ((replies dispatch state₀ s.dispatched).map replyPacket).flatten
  whole : Whole s.log

/-- What a run has sent, in terms of what `send` has answered. -/
structure Sent (as : List Syscall) (s : Socket σ) : Prop where
  complete : (∀ e ∈ s.attempts, e.2 = e.1.length) ↔ ∀ a ∈ as, a.givesUp = false
  whole : Whole s.log ↔ NothingAfterFailure as

variable {dispatch state₀} {s s' : Socket σ} {as : List Syscall} {a : Syscall}

/-- Nothing is sent of the packet that the loop comes to next. -/
theorem whole_resume (processedLen : ℕ) :
    Whole (s.resume dispatch processedLen).log ↔ Whole s.attempts := by
  unfold resume log
  dsimp only
  cases (advance dispatch s.buffer processedLen s.state).packet with
  | none => rw [List.append_nil]
  | some packet =>
      rw [whole_snoc]
      exact and_iff_left fun h => absurd h (Nat.lt_irrefl 0)

theorem nothingAfterFailure_snoc :
    NothingAfterFailure (as ++ [a]) ↔
      NothingAfterFailure as ∧ (a.puts = true → ∀ b ∈ as, b.givesUp = false) := by
  unfold NothingAfterFailure
  rw [List.pairwise_append]
  simp only [List.pairwise_singleton, List.mem_singleton, forall_eq, true_and]
  refine and_congr_right fun _ => ⟨fun h ha b hb => ?_, fun h b hb hgives => ?_⟩
  · by_contra hgives
    exact absurd ((h b hb (Bool.of_not_eq_false hgives)).symm.trans ha) Bool.false_ne_true
  · by_contra hputs
    exact absurd ((h (Bool.of_not_eq_false hputs) b hb).symm.trans hgives) Bool.false_ne_true

theorem forall_snoc :
    (∀ b ∈ as ++ [a], b.givesUp = false) ↔ (∀ b ∈ as, b.givesUp = false) ∧ a.givesUp = false := by
  simp only [List.mem_append, List.mem_singleton, or_imp, forall_and, forall_eq]

/-- A system call that sends nothing and gives nothing up. -/
theorem Sent.quiet (h : Sent as s) (hattempts : s'.attempts = s.attempts)
    (hwhole : Whole s'.log ↔ Whole s.log) (hgives : a.givesUp = false)
    (hputs : a.puts = false) : Sent (as ++ [a]) s' where
  complete := by
    rw [hattempts, forall_snoc, and_iff_left hgives]
    exact h.complete
  whole := by
    rw [hwhole, nothingAfterFailure_snoc, hputs, and_iff_left fun h => absurd h Bool.false_ne_true]
    exact h.whole

/-- Bytes of the current packet keep the stream whole if every packet before it is
complete. -/
theorem Sent.whole_put (h : Sent as s) {processedLen totalSent n m : ℕ} {packet : List Byte}
    (hphase : s.phase = .sending processedLen packet totalSent) (hm : 0 < m) :
    Whole (s.attempts ++ [(packet, m)]) ↔ NothingAfterFailure (as ++ [.send (.count n)]) := by
  have hwhole := h.whole
  rw [log_of_sending hphase, whole_snoc] at hwhole
  rw [whole_snoc, nothingAfterFailure_snoc]
  constructor
  · rintro ⟨hbefore, hcomplete⟩
    exact ⟨hwhole.mp ⟨hbefore, fun _ => hcomplete hm⟩, fun _ => h.complete.mp (hcomplete hm)⟩
  · rintro ⟨hpairwise, hnone⟩
    exact ⟨(hwhole.mpr hpairwise).1,
      fun _ => h.complete.mpr (hnone rfl)⟩

/-- **One step.** -/
theorem Sent.step (h : Sent as s) (hframed : Framed dispatch state₀ s)
    (hstep : s.step dispatch a = some s') : Sent (as ++ [a]) s' := by
  cases step_spec dispatch hstep with
  | @read localData bs hphase hpos =>
      refine h.quiet rfl ?_ rfl rfl
      rw [log_of_reading hphase, log_of_reading rfl]
  | interrupted | idle => exact h.quiet rfl Iff.rfl rfl rfl
  | again => exact h.quiet rfl Iff.rfl rfl rfl
  | @serve localData hphase =>
      refine h.quiet rfl ?_ rfl rfl
      rw [log_of_reading hphase, whole_resume]
  | @remove localData r hphase hr =>
      refine h.quiet rfl ?_ rfl rfl
      rw [log_of_reading hphase]
      exact iff_of_eq (congrArg Whole (List.append_nil _))
  | @part processedLen totalSent n packet hphase hpos hlt =>
      constructor
      · exact h.complete.trans (forall_snoc.trans (and_iff_left rfl)).symm
      · exact h.whole_put hphase (by omega)
  | @whole processedLen totalSent n packet hphase hpos heq =>
      constructor
      · -- The packet that is now whole gives no new condition.
        show (∀ e ∈ s.attempts ++ [(packet, packet.length)], e.2 = e.1.length) ↔ _
        refine Iff.trans ?_ (h.complete.trans (forall_snoc.trans (and_iff_left rfl)).symm)
        simp only [List.mem_append, List.mem_singleton, or_imp, forall_and, forall_eq, and_true]
      · rw [leave, whole_resume]
        exact h.whole_put hphase (by omega)
  | @giveUp processedLen totalSent packet r hphase hr =>
      have hparsed := hframed.parsed
      have hwhole := h.whole
      rw [hphase] at hparsed
      rw [log_of_sending hphase] at hwhole
      have hr' : (Syscall.send r).givesUp = true ∧ (Syscall.send r).puts = false := by
        rcases hr with rfl | rfl <;> exact ⟨rfl, rfl⟩
      constructor
      · -- The packet that was given up is not complete.
        show (∀ e ∈ s.attempts ++ [(packet, totalSent)], e.2 = e.1.length) ↔ _
        refine iff_of_false (fun hall => ?_) fun hnone => ?_
        · have hcomplete := hall (packet, totalSent) (by simp)
          exact absurd hcomplete (Nat.ne_of_lt hparsed.1)
        · exact absurd ((hnone _ (by simp)).symm.trans hr'.1) Bool.false_ne_true
      · rw [leave, whole_resume, nothingAfterFailure_snoc, hr'.2,
          and_iff_left fun h => absurd h Bool.false_ne_true]
        exact hwhole

/-- **The stream stays in step with the replies exactly when nothing is sent after a
packet that was given up.** -/
theorem in_sync_iff (hrun : runs (step dispatch) (new state₀) as = some s) :
    InSync dispatch state₀ s ↔ NothingAfterFailure as := by
  have hnew : Sent [] (new state₀) :=
    ⟨iff_of_true (fun _ h => by cases h) (fun _ h => by cases h), iff_of_true .nil .nil⟩
  have hsent : Sent as s :=
    runs_reachable as hnew (fun as s a s' hrun h hstep => h.step (framed_of_runs hrun) hstep) hrun
  rw [← hsent.whole]
  constructor
  · exact InSync.whole
  · intro hwhole
    refine ⟨?_, hwhole⟩
    rw [← (framed_of_runs hrun).replied]
    exact written_isPrefix hwhole

end Sending

/-! ### Two requests at once -/

/-- The reply to a request that is served before the next one arrives. -/
theorem in_sync_sample :
    InSync logouts stranger (⟨[], stranger, .reading [], logoutReq,
      [Request.ofBody MsgType.logout.code []], [(logoutResp, 7)]⟩ : Socket (Services × Session)) :=
  (in_sync_iff logout_served).mpr (by decide)

/-- Two requests arrive together; `send` is interrupted after three bytes of the first
reply, and then takes all of the second. -/
def interruptedSend : List Syscall :=
  [.recv (.bytes (logoutReq ++ logoutReq)), .recv .wouldBlock, .send (.count 3), .send .failed,
    .send (.count 7)]

theorem advance_two :
    advance logouts (logoutReq ++ logoutReq) 0 stranger
        = ⟨stranger, 6, [Request.ofBody MsgType.logout.code []], some logoutResp⟩ ∧
      advance logouts (logoutReq ++ logoutReq) 6 stranger
        = ⟨stranger, 12, [Request.ofBody MsgType.logout.code []], some logoutResp⟩ ∧
      advance logouts (logoutReq ++ logoutReq) 12 stranger = ⟨stranger, 12, [], none⟩ := by
  have hfirst : packets.next ((logoutReq ++ logoutReq).drop 0)
      = some (Request.ofBody MsgType.logout.code [], 6) := by decide
  have hsecond : packets.next ((logoutReq ++ logoutReq).drop 6)
      = some (Request.ofBody MsgType.logout.code [], 6) := by decide
  have hlast : packets.next ((logoutReq ++ logoutReq).drop 12) = none := by decide
  exact ⟨advance_of_reply logouts stranger hfirst (by decide),
    advance_of_reply logouts stranger hsecond (by decide),
    advance_of_none logouts stranger hlast⟩

/-- The client takes the beginning of the second reply for the rest of the first. -/
theorem out_of_sync :
    ∃ s, runs (step logouts) (new stranger) interruptedSend = some s ∧
      s.output = logoutResp.take 3 ++ logoutResp ∧ ¬ InSync logouts stranger s := by
  obtain ⟨hfirst, hsecond, hlast⟩ := advance_two
  let two := logoutReq ++ logoutReq
  let req := Request.ofBody MsgType.logout.code []
  have hread : step logouts (new stranger) (.recv (.bytes two))
      = some ⟨[], stranger, .reading two, two, [], []⟩ := rfl
  have hserve : step logouts ⟨[], stranger, .reading two, two, [], []⟩ (.recv .wouldBlock)
      = some ⟨two, stranger, .sending 6 logoutResp 0, two, [req], []⟩ :=
    congrArg some (resume_of_reply hfirst)
  have hpart : step logouts ⟨two, stranger, .sending 6 logoutResp 0, two, [req], []⟩
      (.send (.count 3))
      = some ⟨two, stranger, .sending 6 logoutResp 3, two, [req], []⟩ := rfl
  have hfailed : step logouts ⟨two, stranger, .sending 6 logoutResp 3, two, [req], []⟩
      (.send .failed)
      = some ⟨two, stranger, .sending 12 logoutResp 0, two, [req, req], [(logoutResp, 3)]⟩ :=
    congrArg some ((leave_of_reply hsecond).trans rfl)
  have hsend : step logouts
      ⟨two, stranger, .sending 12 logoutResp 0, two, [req, req], [(logoutResp, 3)]⟩
      (.send (.count 7))
      = some ⟨[], stranger, .reading [], two, [req, req], [(logoutResp, 3), (logoutResp, 7)]⟩ :=
    congrArg some ((leave_of_end hlast).trans rfl)
  refine ⟨⟨[], stranger, .reading [], two, [req, req], [(logoutResp, 3), (logoutResp, 7)]⟩,
    ?_, by decide, fun h => absurd h.isPrefix (by decide)⟩
  rw [interruptedSend, runs, hread, Option.bind_some, runs, hserve, Option.bind_some, runs, hpart,
    Option.bind_some, runs, hfailed, Option.bind_some, runs, hsend]
  rfl

end Socket

end ExchangeServer
