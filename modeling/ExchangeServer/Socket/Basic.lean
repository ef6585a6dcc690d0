import ExchangeServer.EchoBusiness
import ExchangeServer.Lib.Runs

/-!
# A connection, one system call after the other

`MyEchoBusiness` with everything `recv` and `send` can answer.  A call reads until
`recv` has nothing more, and only then appends what it has read to the buffer of the
session and takes packets out of it; the packet of a reply is sent before the next
request is looked at.  When `recv` reports the end of the stream or an error, the session
is removed on the spot.

`step` is what the code does with the answer of one system call, up to the next one.  Its
state also records what has happened on the connection: what was received, which requests
were dispatched, and how much of each packet was sent.  `framed_of_runs` says what that
comes to, and `eq_serve_of_runs` that between two calls it is what `serve` gives.
-/

namespace ExchangeServer

open Lib

/-! ## System calls -/

/-- What `recv` returns: bytes, `EAGAIN`, `EINTR`, `0` or any other error. -/
inductive RecvResult where
  | bytes (bs : List Byte)
  | wouldBlock
  | interrupted
  | closed
  | failed
deriving DecidableEq, Repr

/-- What `send` returns: how many bytes it took, `EAGAIN`, `0` or any other error. -/
inductive SendResult where
  | count (n : ℕ)
  | wouldBlock
  | zero
  | failed
deriving DecidableEq, Repr

/-- A system call on the connection. -/
inductive Syscall where
  | recv (r : RecvResult)
  | send (r : SendResult)
deriving DecidableEq, Repr

/-- `sizeof(buff)`. -/
def recvSize : ℕ := 4096

/-! ## The connection -/

/-- Where `MyEchoBusiness` waits for a system call. -/
inductive Phase where
  /-- For `recv`, with what this call has read so far. -/
  | reading (localData : List Byte)
  /-- For `send`, with `processed_len` and `total_sent`. -/
  | sending (processedLen : ℕ) (packet : List Byte) (totalSent : ℕ)
  /-- For nothing: the session is removed. -/
  | removed
deriving DecidableEq, Repr

/-- A connection.  `received`, `dispatched` and `attempts` record what has happened: what
`recv` returned, the requests that were dispatched, and the packets whose loop of `send`
is over, each with its `total_sent`. -/
structure Socket (σ : Type*) where
  buffer : List Byte
  state : σ
  phase : Phase
  received : List Byte
  dispatched : List Request
  attempts : List (List Byte × ℕ)

/-- How far the framing loop gets without a system call: to the next reply, or to the
end. -/
structure Advanced (σ : Type*) where
  state : σ
  processedLen : ℕ
  dispatched : List Request
  packet : Option (List Byte)

section Server

variable {σ : Type*} (dispatch : Dispatch σ)

/-- The framing loop, from `processed_len` to the next reply that is not empty. -/
def advance (buffer : List Byte) (processedLen : ℕ) (state : σ) : Advanced σ :=
  if buffer.length - processedLen < PacketHeader.size then ⟨state, processedLen, [], none⟩
  else
    let header := PacketHeader.ofBytes (buffer.drop processedLen)
    if buffer.length - processedLen < PacketHeader.size + header.length.toNat then
      ⟨state, processedLen, [], none⟩
    else
      let req : Request :=
        ⟨header.type,
          (buffer.drop (processedLen + PacketHeader.size)).take header.length.toNat,
          header.length⟩
      let out := dispatch state req
      let processedLen := processedLen + (PacketHeader.size + header.length.toNat)
      if replyOf out.2 = [] then
        let later := advance buffer processedLen out.1
        { later with dispatched := req :: later.dispatched }
      else ⟨out.1, processedLen, [req], some (packet (header.type + 1) (replyOf out.2))⟩
termination_by buffer.length - processedLen
decreasing_by
  unfold PacketHeader.size at *
  omega

namespace Socket

/-- A new connection. -/
def new (state : σ) : Socket σ :=
  ⟨[], state, .reading [], [], [], []⟩

/-- Go on with the framing loop, up to the next system call.  When the loop ends, what it
has used up is erased from the buffer. -/
def resume (s : Socket σ) (processedLen : ℕ) : Socket σ :=
  let out := advance dispatch s.buffer processedLen s.state
  { s with
    buffer := match out.packet with
      | some _ => s.buffer
      | none => s.buffer.drop out.processedLen
    state := out.state
    phase := match out.packet with
      | some packet => .sending out.processedLen packet 0
      | none => .reading []
    dispatched := s.dispatched ++ out.dispatched }

/-- The loop of `send` is over. -/
def leave (s : Socket σ) (processedLen : ℕ) (packet : List Byte) (totalSent : ℕ) : Socket σ :=
  { s with attempts := s.attempts ++ [(packet, totalSent)] }.resume dispatch processedLen

/-- What `MyEchoBusiness` does when a system call returns. -/
def step (s : Socket σ) : Syscall → Option (Socket σ)
  | .recv r =>
      match s.phase with
      | .reading localData =>
          match r with
          | .bytes bs =>
              if 0 < bs.length ∧ bs.length ≤ recvSize then
                some { s with
                  phase := .reading (localData ++ bs)
                  received := s.received ++ bs }
              else none
          | .interrupted => some s
          | .wouldBlock =>
              if localData = [] then some s
              else some ({ s with buffer := s.buffer ++ localData }.resume dispatch 0)
          | .closed | .failed => some { s with phase := .removed }
      | _ => none
  | .send r =>
      match s.phase with
      | .sending processedLen packet totalSent =>
          match r with
          | .count n =>
              if 0 < n ∧ n ≤ packet.length - totalSent then
                if totalSent + n < packet.length then
                  some { s with phase := .sending processedLen packet (totalSent + n) }
                else some (s.leave dispatch processedLen packet (totalSent + n))
              else none
          | .wouldBlock => some s
          | .zero | .failed => some (s.leave dispatch processedLen packet totalSent)
      | _ => none

/-- Every packet that was begun, with how much of it was sent. -/
def log (s : Socket σ) : List (List Byte × ℕ) :=
  s.attempts ++
    match s.phase with
    | .sending _ packet totalSent => [(packet, totalSent)]
    | _ => []

/-- The bytes that have been put on the connection. -/
def output (s : Socket σ) : List Byte :=
  written s.log

section Resume

variable {dispatch} {s : Socket σ} {processedLen processedLen' : ℕ} {state : σ}
  {reqs : List Request}

theorem resume_of_reply {packet : List Byte} (h : advance dispatch s.buffer processedLen s.state
      = ⟨state, processedLen', reqs, some packet⟩) :
    s.resume dispatch processedLen
      = { s with
          state := state
          phase := .sending processedLen' packet 0
          dispatched := s.dispatched ++ reqs } := by
  rw [resume, h]

theorem resume_of_end (h : advance dispatch s.buffer processedLen s.state
      = ⟨state, processedLen', reqs, none⟩) :
    s.resume dispatch processedLen
      = { s with
          buffer := s.buffer.drop processedLen'
          state := state
          phase := .reading []
          dispatched := s.dispatched ++ reqs } := by
  rw [resume, h]

theorem leave_of_reply {packet packet' : List Byte} {totalSent : ℕ}
    (h : advance dispatch s.buffer processedLen s.state
      = ⟨state, processedLen', reqs, some packet'⟩) :
    s.leave dispatch processedLen packet totalSent
      = { s with
          state := state
          phase := .sending processedLen' packet' 0
          dispatched := s.dispatched ++ reqs
          attempts := s.attempts ++ [(packet, totalSent)] } := by
  rw [leave, resume_of_reply]
  exact h

theorem leave_of_end {packet : List Byte} {totalSent : ℕ}
    (h : advance dispatch s.buffer processedLen s.state
      = ⟨state, processedLen', reqs, none⟩) :
    s.leave dispatch processedLen packet totalSent
      = { s with
          buffer := s.buffer.drop processedLen'
          state := state
          phase := .reading []
          dispatched := s.dispatched ++ reqs
          attempts := s.attempts ++ [(packet, totalSent)] } := by
  rw [leave, resume_of_end]
  exact h

end Resume

/-! ### One step -/

/-- The ways through a step. -/
inductive Step (s : Socket σ) : Syscall → Socket σ → Prop where
  | read {localData bs : List Byte} (hphase : s.phase = .reading localData)
      (hpos : 0 < bs.length) :
      Step s (.recv (.bytes bs))
        { s with phase := .reading (localData ++ bs), received := s.received ++ bs }
  | interrupted {localData : List Byte} (hphase : s.phase = .reading localData) :
      Step s (.recv .interrupted) s
  | idle (hphase : s.phase = .reading []) : Step s (.recv .wouldBlock) s
  | serve {localData : List Byte} (hphase : s.phase = .reading localData) :
      Step s (.recv .wouldBlock) ({ s with buffer := s.buffer ++ localData }.resume dispatch 0)
  | remove {localData : List Byte} {r : RecvResult} (hphase : s.phase = .reading localData)
      (hr : r = .closed ∨ r = .failed) : Step s (.recv r) { s with phase := .removed }
  | part {processedLen totalSent n : ℕ} {packet : List Byte}
      (hphase : s.phase = .sending processedLen packet totalSent) (hpos : 0 < n)
      (hlt : totalSent + n < packet.length) :
      Step s (.send (.count n)) { s with phase := .sending processedLen packet (totalSent + n) }
  | whole {processedLen totalSent n : ℕ} {packet : List Byte}
      (hphase : s.phase = .sending processedLen packet totalSent) (hpos : 0 < n)
      (heq : totalSent + n = packet.length) :
      Step s (.send (.count n)) (s.leave dispatch processedLen packet packet.length)
  | again {processedLen totalSent : ℕ} {packet : List Byte}
      (hphase : s.phase = .sending processedLen packet totalSent) : Step s (.send .wouldBlock) s
  | giveUp {processedLen totalSent : ℕ} {packet : List Byte} {r : SendResult}
      (hphase : s.phase = .sending processedLen packet totalSent)
      (hr : r = .zero ∨ r = .failed) :
      Step s (.send r) (s.leave dispatch processedLen packet totalSent)

theorem step_spec {s s' : Socket σ} {a : Syscall} (h : s.step dispatch a = some s') :
    Step dispatch s a s' := by
  cases a with
  | recv r =>
      simp only [step] at h
      cases hphase : s.phase with
      | sending | removed =>
          rw [hphase] at h
          cases h
      | reading localData =>
          rw [hphase] at h
          cases r with
          | bytes bs =>
              dsimp only at h
              split_ifs at h with hsize
              obtain rfl := Option.some.inj h
              exact .read hphase hsize.1
          | interrupted =>
              obtain rfl := Option.some.inj h
              exact .interrupted hphase
          | wouldBlock =>
              dsimp only at h
              split_ifs at h with hempty
              · obtain rfl := Option.some.inj h
                rw [hempty] at hphase
                exact .idle hphase
              · obtain rfl := Option.some.inj h
                exact .serve hphase
          | closed =>
              obtain rfl := Option.some.inj h
              exact .remove hphase (Or.inl rfl)
          | failed =>
              obtain rfl := Option.some.inj h
              exact .remove hphase (Or.inr rfl)
  | send r =>
      simp only [step] at h
      cases hphase : s.phase with
      | reading | removed =>
          rw [hphase] at h
          cases h
      | sending processedLen packet totalSent =>
          rw [hphase] at h
          cases r with
          | count n =>
              dsimp only at h
              split_ifs at h with hsize hlt
              · obtain rfl := Option.some.inj h
                exact .part hphase hsize.1 hlt
              · have heq : totalSent + n = packet.length := by omega
                obtain rfl := Option.some.inj h
                rw [heq]
                exact .whole hphase hsize.1 heq
          | wouldBlock =>
              obtain rfl := Option.some.inj h
              exact .again hphase
          | zero =>
              obtain rfl := Option.some.inj h
              exact .giveUp hphase (Or.inl rfl)
          | failed =>
              obtain rfl := Option.some.inj h
              exact .giveUp hphase (Or.inr rfl)

end Socket

/-! ## The framing loop in pieces -/

section Equations

variable {buffer : List Byte} {processedLen : ℕ} (state : σ)

theorem advance_of_none (h : packets.next (buffer.drop processedLen) = none) :
    advance dispatch buffer processedLen state = ⟨state, processedLen, [], none⟩ := by
  rw [advance]
  by_cases hshort : buffer.length - processedLen < PacketHeader.size
  · rw [if_pos hshort]
  · rw [if_neg hshort]
    refine if_pos ?_
    by_contra hpart
    rw [next_drop_of_full hshort hpart] at h
    cases h

theorem advance_of_reply {req : Request} {n : ℕ}
    (h : packets.next (buffer.drop processedLen) = some (req, n))
    (hreply : replyOf (dispatch state req).2 ≠ []) :
    advance dispatch buffer processedLen state
      = ⟨(dispatch state req).1, processedLen + n, [req],
          some (packet (req.type + 1) (replyOf (dispatch state req).2))⟩ := by
  rw [advance]
  split_ifs with hshort
  · rw [next_drop_of_short hshort] at h
    cases h
  · dsimp only
    split_ifs with hpart hempty
    · rw [next_drop_of_part hpart] at h
      cases h
    · rw [next_drop_of_full hshort hpart] at h
      obtain ⟨rfl, rfl⟩ := Prod.mk.inj (Option.some.inj h)
      exact absurd hempty hreply
    · rw [next_drop_of_full hshort hpart] at h
      obtain ⟨rfl, rfl⟩ := Prod.mk.inj (Option.some.inj h)
      rfl

end Equations

/-- **A piece of the loop** takes packets off as the format does, and stops at a reply or
at the incomplete rest. -/
theorem advance_spec (buffer : List Byte) (processedLen : ℕ) (state : σ)
    (hle : processedLen ≤ buffer.length) :
    let out := advance dispatch buffer processedLen state
    packets.parse (buffer.drop processedLen)
        = (out.dispatched ++ (packets.parse (buffer.drop out.processedLen)).1,
          (packets.parse (buffer.drop out.processedLen)).2) ∧
      out.processedLen ≤ buffer.length ∧
      (out.packet = none → packets.next (buffer.drop out.processedLen) = none) := by
  fun_induction advance dispatch buffer processedLen state with
  | case1 processedLen state hshort => exact ⟨rfl, hle, fun _ => next_drop_of_short hshort⟩
  | case2 processedLen state hshort header hpart =>
      exact ⟨rfl, hle, fun _ => next_drop_of_part hpart⟩
  | case3 processedLen state hshort header hpart req out processedLen' hempty later ih =>
      obtain ⟨hparse, hle', hlast⟩ := ih (by omega)
      refine ⟨?_, hle', hlast⟩
      rw [packets.parse_of_some (next_drop_of_full hshort hpart), List.drop_drop]
      rw [hparse]
      rfl
  | case4 processedLen state hshort header hpart req out processedLen' hreply =>
      refine ⟨?_, ?_, fun hnone => by cases hnone⟩
      · rw [packets.parse_of_some (next_drop_of_full hshort hpart), List.drop_drop]
        rfl
      · show processedLen + (PacketHeader.size + header.length.toNat) ≤ _
        omega

/-- The packet of a piece is that of its last request, the only one with a reply. -/
theorem advance_replies (buffer : List Byte) (processedLen : ℕ) (state : σ) :
    let out := advance dispatch buffer processedLen state
    (replies dispatch state out.dispatched).map replyPacket = out.packet.toList ∧
      out.state = stateAfter dispatch state out.dispatched ∧
      ∀ packet, out.packet = some packet → 0 < packet.length := by
  fun_induction advance dispatch buffer processedLen state with
  | case1 | case2 => exact ⟨rfl, rfl, fun _ h => by cases h⟩
  | case3 processedLen state hshort header hpart req out processedLen' hempty later ih =>
      obtain ⟨hreplies, hstate, hpos⟩ := ih
      refine ⟨?_, hstate, hpos⟩
      rw [replies, if_pos hempty]
      exact hreplies
  | case4 processedLen state hshort header hpart req out processedLen' hreply =>
      refine ⟨?_, rfl, ?_⟩
      · rw [replies, if_neg hreply]
        rfl
      · intro p hp
        obtain rfl := Option.some.inj hp
        rw [length_packet, PacketHeader.size]
        omega

/-! ## Every run -/

namespace Socket

/-- What has been dispatched is what the format finds in what has been read, up to what
the phase says is still to come; and a packet has been begun for every reply. -/
structure Framed (state₀ : σ) (s : Socket σ) : Prop where
  parsed : match s.phase with
    | .reading localData => ∃ earlier, s.received = earlier ++ localData ∧
        packets.parse earlier = (s.dispatched, s.buffer)
    | .sending processedLen packet totalSent => totalSent < packet.length ∧
        processedLen ≤ s.buffer.length ∧
        packets.parse s.received = (s.dispatched ++ (packets.parse (s.buffer.drop processedLen)).1,
          (packets.parse (s.buffer.drop processedLen)).2)
    | .removed => True
  replied : s.log.map Prod.fst = (replies dispatch state₀ s.dispatched).map replyPacket
  state : s.state = stateAfter dispatch state₀ s.dispatched

theorem framed_new (state₀ : σ) : Framed dispatch state₀ (new state₀) where
  parsed := ⟨[], rfl, packets.parse_of_none packets_next_nil⟩
  replied := rfl
  state := rfl

section Steps

variable {dispatch} {state₀ : σ} {s s' : Socket σ}

/-- Going on keeps what is known in the middle of the loop. -/
theorem framed_resume {processedLen : ℕ} (hle : processedLen ≤ s.buffer.length)
    (hparsed : packets.parse s.received
      = (s.dispatched ++ (packets.parse (s.buffer.drop processedLen)).1,
        (packets.parse (s.buffer.drop processedLen)).2))
    (hreplied : s.attempts.map Prod.fst = (replies dispatch state₀ s.dispatched).map replyPacket)
    (hstate : s.state = stateAfter dispatch state₀ s.dispatched) :
    Framed dispatch state₀ (s.resume dispatch processedLen) := by
  obtain ⟨hparse, hle', hlast⟩ := advance_spec dispatch s.buffer processedLen s.state hle
  obtain ⟨hreplies, hstate', hpos⟩ := advance_replies dispatch s.buffer processedLen s.state
  have hdispatched : s.dispatched ++ (advance dispatch s.buffer processedLen s.state).dispatched
        ++ (packets.parse (s.buffer.drop
          (advance dispatch s.buffer processedLen s.state).processedLen)).1
      = s.dispatched ++ (packets.parse (s.buffer.drop processedLen)).1 := by
    rw [hparse, List.append_assoc]
  have hall : (replies dispatch state₀ (s.dispatched
        ++ (advance dispatch s.buffer processedLen s.state).dispatched)).map replyPacket
      = s.attempts.map Prod.fst
        ++ (advance dispatch s.buffer processedLen s.state).packet.toList := by
    rw [replies_append, List.map_append, ← hstate, hreplies, hreplied]
  refine ⟨?_, ?_, ?_⟩
  · -- At the end of the loop nothing complete is left behind `processed_len`.
    unfold resume
    dsimp only
    cases hpacket : (advance dispatch s.buffer processedLen s.state).packet with
    | none =>
        refine ⟨s.received, (List.append_nil _).symm, ?_⟩
        rw [hparsed, ← hdispatched, hparse, packets.parse_of_none (hlast hpacket),
          List.append_nil]
    | some packet =>
        refine ⟨hpos packet hpacket, hle', ?_⟩
        rw [hparsed, ← hdispatched, hparse]
  · refine Eq.trans ?_ hall.symm
    unfold resume log
    dsimp only
    cases hpacket : (advance dispatch s.buffer processedLen s.state).packet with
    | none => rw [List.append_nil, Option.toList_none, List.append_nil]
    | some packet => rw [List.map_append]; rfl
  · show (advance dispatch s.buffer processedLen s.state).state = _
    refine hstate'.trans (Eq.trans ?_ (stateAfter_append dispatch state₀ _ _).symm)
    exact congrArg (stateAfter dispatch · _) hstate

theorem log_of_sending {processedLen totalSent : ℕ} {packet : List Byte}
    (hphase : s.phase = .sending processedLen packet totalSent) :
    s.log = s.attempts ++ [(packet, totalSent)] := by
  rw [log, hphase]

theorem log_of_reading {localData : List Byte} (hphase : s.phase = .reading localData) :
    s.log = s.attempts := by
  rw [log, hphase, List.append_nil]

/-- The end of a loop of `send`, complete or not. -/
theorem framed_leave (h : Framed dispatch state₀ s) {processedLen totalSent : ℕ}
    {packet : List Byte} (hphase : s.phase = .sending processedLen packet totalSent) (n : ℕ) :
    Framed dispatch state₀ (s.leave dispatch processedLen packet n) := by
  have hparsed := h.parsed
  have hreplied := h.replied
  rw [log_of_sending hphase, List.map_append] at hreplied
  rw [hphase] at hparsed
  refine framed_resume hparsed.2.1 hparsed.2.2 ?_ h.state
  rw [List.map_append]
  exact hreplied

/-- **One step.** -/
theorem Framed.step (h : Framed dispatch state₀ s) {a : Syscall}
    (hstep : s.step dispatch a = some s') : Framed dispatch state₀ s' := by
  cases step_spec dispatch hstep with
  | @read localData bs hphase hpos =>
      have hparsed := h.parsed
      have hreplied := h.replied
      rw [hphase] at hparsed
      rw [log_of_reading hphase] at hreplied
      obtain ⟨earlier, hreceived, hparse⟩ := hparsed
      refine ⟨⟨earlier, ?_, hparse⟩,
        (congrArg (List.map Prod.fst) (List.append_nil _)).trans hreplied, h.state⟩
      rw [hreceived, List.append_assoc]
  | interrupted | idle | again => exact h
  | @serve localData hphase =>
      have hparsed := h.parsed
      have hreplied := h.replied
      rw [hphase] at hparsed
      rw [log_of_reading hphase] at hreplied
      obtain ⟨earlier, hreceived, hparse⟩ := hparsed
      -- The buffer is the rest of what came before, and the new bytes go behind it.
      refine framed_resume (Nat.zero_le _) ?_ hreplied h.state
      rw [hreceived, packets.parse_append, hparse]
      rfl
  | @remove localData r hphase hr =>
      have hreplied := h.replied
      rw [log_of_reading hphase] at hreplied
      exact ⟨trivial, (congrArg (List.map Prod.fst) (List.append_nil _)).trans hreplied, h.state⟩
  | @part processedLen totalSent n packet hphase hpos hlt =>
      have hparsed := h.parsed
      have hreplied := h.replied
      rw [hphase] at hparsed
      rw [log_of_sending hphase, List.map_append] at hreplied
      refine ⟨⟨hlt, hparsed.2⟩, ?_, h.state⟩
      show (s.attempts ++ [(packet, totalSent + n)]).map Prod.fst = _
      rw [List.map_append]
      exact hreplied
  | @whole processedLen totalSent n packet hphase hpos heq => exact framed_leave h hphase _
  | @giveUp processedLen totalSent packet r hphase hr => exact framed_leave h hphase _

/-- **Every run of a connection.** -/
theorem framed_of_runs {as : List Syscall}
    (hrun : runs (step dispatch) (new state₀) as = some s) : Framed dispatch state₀ s :=
  runs_induction (fun _ _ _ h hstep => h.step hstep) as (framed_new dispatch state₀) hrun

/-- **Between two calls the connection is as `serve` leaves it**, for any way to cut what
was received into calls and chunks. -/
theorem eq_serve_of_runs {as : List Syscall}
    (hrun : runs (step dispatch) (new state₀) as = some s) (hphase : s.phase = .reading [])
    {calls : List (List (List Byte))} (hcalls : calls.flatten.flatten = s.received) :
    serve dispatch ⟨[], state₀⟩ calls
      = (⟨s.buffer, s.state⟩, s.dispatched, s.attempts.map Prod.fst) := by
  have hframed := framed_of_runs hrun
  have hparsed := hframed.parsed
  have hreplied := hframed.replied
  rw [hphase] at hparsed
  rw [log_of_reading hphase] at hreplied
  obtain ⟨earlier, hreceived, hparse⟩ := hparsed
  rw [List.append_nil] at hreceived
  obtain ⟨hdispatched, hbuffer⟩ := serve_spec dispatch ⟨[], state₀⟩ calls packets_next_nil
  obtain ⟨hsent, hstate⟩ := serve_sent dispatch ⟨[], state₀⟩ calls
  rw [List.nil_append, hcalls, hreceived, hparse] at hdispatched hbuffer
  rw [hdispatched] at hsent hstate
  have hconn : (serve dispatch ⟨[], state₀⟩ calls).1 = ⟨s.buffer, s.state⟩ := by
    rw [hframed.state]
    exact congrArg₂ Connection.mk hbuffer hstate
  exact Prod.ext hconn (Prod.ext hdispatched (hsent.trans hreplied.symm))

end Steps

end Socket

end Server

end ExchangeServer
