import ExchangeServer.Client
import ExchangeServer.Lib.Progress
import ExchangeServer.Socket.Basic

/-!
# A client and the server

`benchmark_worker` of `client.cpp` makes one request after the other: `send_pkt`, then
`recv_pkt`, whose two calls of `recv_all` take the bytes as they come.  `Dialogue.step`
interleaves such a client with the connection of the server, over a stream in each direction
that may be cut anywhere.

`client_gets_its_replies` says that every `recv_pkt` gives the reply to the request it was
made for, and `client_served` that it returns.
-/

namespace ExchangeServer

open Lib Filter

namespace Dialogue

/-- Where the client is. -/
inductive Stage where
  /-- Between two requests. -/
  | idle
  /-- In `recv_all` for the header, with what it has. -/
  | header (got : List Byte)
  /-- In `recv_all` for the body, with what it has. -/
  | body (type : UInt16) (len : ℕ) (got : List Byte)
  /-- `recv_pkt` has returned `false`. -/
  | failed
deriving DecidableEq, Repr

end Dialogue

/-- A client and its connection. -/
structure Dialogue (σ : Type*) where
  stage : Dialogue.Stage
  /-- What was sent with `send_pkt`. -/
  requests : List (UInt16 × List Byte)
  /-- How many bytes of the server's output the client has read. -/
  read : ℕ
  /-- What `recv_pkt` has returned. -/
  responses : List (UInt16 × List Byte)
  server : Socket σ

namespace Dialogue

variable {σ : Type*} (dispatch : Dispatch σ)

/-- What can happen. -/
inductive Action where
  | sendPkt (type : UInt16) (data : List Byte)
  /-- `recv` of the client returns this many bytes. -/
  | recv (count : ℕ)
  /-- `recv` of the client finds the stream at its end. -/
  | eof
  /-- `recv` of the client fails, as it does when nothing comes for three seconds. -/
  | recvFails
  | server (call : Syscall)
deriving DecidableEq, Repr

/-- A new connection. -/
def start (state : σ) : Dialogue σ :=
  ⟨.idle, [], 0, [], Socket.new state⟩

/-- The bytes that the client has sent. -/
def sent (d : Dialogue σ) : List Byte :=
  requestBytes d.requests

/-- What the server can receive is what was sent. -/
def InFlight (d : Dialogue σ) : Syscall → Prop
  | .recv (.bytes bs) => d.server.received ++ bs <+: d.sent
  | .recv .wouldBlock | .recv .interrupted | .recv .closed | .recv .failed | .send _ => True

instance (d : Dialogue σ) : (call : Syscall) → Decidable (InFlight d call)
  | .recv (.bytes bs) => inferInstanceAs (Decidable (d.server.received ++ bs <+: d.sent))
  | .recv .wouldBlock | .recv .interrupted | .recv .closed | .recv .failed | .send _ =>
      isTrue trivial

/-- The next bytes of the server's output. -/
def next (d : Dialogue σ) (count : ℕ) : List Byte :=
  (d.server.output.drop d.read).take count

/-- `recv_pkt`, when `got` has come for the header. -/
def gotHeader (got : List Byte) (d : Dialogue σ) : Dialogue σ :=
  if got.length < PacketHeader.size then { d with stage := .header got }
  else
    let header := PacketHeader.ofBytes got
    if header.length.toNat > Client.maxBody then { d with stage := .failed }
    else if header.length.toNat > 0 then
      { d with stage := .body header.type header.length.toNat [] }
    else { d with stage := .idle, responses := d.responses ++ [(header.type, [])] }

/-- `recv_pkt`, when `got` has come for the body. -/
def gotBody (type : UInt16) (len : ℕ) (got : List Byte) (d : Dialogue σ) : Dialogue σ :=
  if got.length < len then { d with stage := .body type len got }
  else { d with stage := .idle, responses := d.responses ++ [(type, got)] }

/-- `recv_all` returns `false`. -/
def giveUp (d : Dialogue σ) : Option (Dialogue σ) :=
  match d.stage with
  | .header _ | .body _ _ _ => some { d with stage := .failed }
  | .idle | .failed => none

/-- One step of the client or of the server. -/
def step (d : Dialogue σ) : Action → Option (Dialogue σ)
  | .sendPkt type data =>
      -- The buffer of `send_pkt` has room for this much.
      if d.stage = .idle ∧ data.length ≤ 1018 then
        some { d with stage := .header [], requests := d.requests ++ [(type, data)] }
      else none
  | .recv count =>
      if 0 < count ∧ d.read + count ≤ d.server.output.length then
        let d' := { d with read := d.read + count }
        match d.stage with
        | .header got =>
            if got.length + count ≤ PacketHeader.size then
              some (d'.gotHeader (got ++ d.next count))
            else none
        | .body type len got =>
            if got.length + count ≤ len then some (d'.gotBody type len (got ++ d.next count))
            else none
        | .idle | .failed => none
      else none
  | .eof =>
      if d.server.phase = .removed ∧ d.read = d.server.output.length then d.giveUp else none
  | .recvFails => d.giveUp
  | .server call =>
      if d.InFlight call then
        (d.server.step dispatch call).map fun server => { d with server }
      else none

theorem of_giveUp {d d' : Dialogue σ} (h : d.giveUp = some d') :
    d' = { d with stage := .failed } := by
  unfold giveUp at h
  split at h
  case h_1 | h_2 => exact (Option.some.inj h).symm
  case h_3 | h_4 => cases h

theorem of_step_server {d d' : Dialogue σ} {call : Syscall}
    (hstep : d.step dispatch (.server call) = some d') : d.InFlight call ∧
      ∃ server, d.server.step dispatch call = some server ∧ d' = { d with server } := by
  obtain ⟨hflight, hsome⟩ := Option.ite_none_right_eq_some.mp hstep
  obtain ⟨server, hserver, rfl⟩ := Option.map_eq_some_iff.mp hsome
  exact ⟨hflight, server, hserver, rfl⟩

/-! ## What is answered -/

/-- The replies to some requests, as `recv_pkt` gives them. -/
def answers (state : σ) (reqs : List (UInt16 × List Byte)) : List (UInt16 × List Byte) :=
  (replies dispatch state (reqs.map fun r => Request.ofBody r.1 r.2)).map fun r => (r.1 + 1, r.2)

/-- Whatever came before, there is a reply and `recv_pkt` accepts its length. -/
def Answered (r : UInt16 × List Byte) : Prop :=
  ∀ state, replyOf (dispatch state (Request.ofBody r.1 r.2)).2 ≠ [] ∧
    (replyOf (dispatch state (Request.ofBody r.1 r.2)).2).length ≤ Client.maxBody

/-- No call fails, and only what is answered is asked. -/
def Healthy : Action → Prop
  | .sendPkt type data => Answered dispatch (type, data)
  | .recvFails | .server (.recv .closed) | .server (.recv .failed) | .server (.send .zero)
  | .server (.send .failed) => False
  | .recv _ | .eof | .server (.recv (.bytes _)) | .server (.recv .wouldBlock)
  | .server (.recv .interrupted) | .server (.send (.count _)) | .server (.send .wouldBlock) => True

variable {dispatch} {state₀ : σ}

/-- The bytes of some answers. -/
def answerBytes (es : List (UInt16 × List Byte)) : List Byte :=
  es.flatMap fun e => packet e.1 e.2

theorem answerBytes_snoc (es : List (UInt16 × List Byte)) (e : UInt16 × List Byte) :
    answerBytes (es ++ [e]) = answerBytes es ++ packet e.1 e.2 := by
  rw [answerBytes, List.flatMap_append, List.flatMap_singleton]
  rfl

variable (state₀) in
/-- The reply to one more request. -/
theorem answers_snoc (reqs : List (UInt16 × List Byte)) {r : UInt16 × List Byte}
    (hr : Answered dispatch r) :
    ∃ reply, answers dispatch state₀ (reqs ++ [r])
        = answers dispatch state₀ reqs ++ [(r.1 + 1, reply)] ∧
      reply ≠ [] ∧ reply.length ≤ Client.maxBody := by
  have hlast := hr (stateAfter dispatch state₀ (reqs.map fun r => Request.ofBody r.1 r.2))
  refine ⟨_, ?_, hlast⟩
  rw [answers, List.map_append, replies_append, List.map_append]
  refine congrArg (answers dispatch state₀ reqs ++ ·) ?_
  rw [List.map_singleton, replies, if_neg hlast.1]
  rfl

/-- The requests as the server's framing finds them. -/
theorem encodes_requests {reqs : List (UInt16 × List Byte)}
    (hshort : ∀ r ∈ reqs, r.2.length ≤ 1018) :
    ∀ req ∈ reqs.map (fun r => Request.ofBody r.1 r.2),
      packets.Encodes (fun req => Client.sendPkt req.type req.payload) req := by
  intro req hreq
  obtain ⟨r, hr, rfl⟩ := List.mem_map.mp hreq
  exact packets_next_packet r.1 (Nat.lt_of_le_of_lt (hshort r hr) (by decide))

theorem requestBytes_eq (reqs : List (UInt16 × List Byte)) :
    requestBytes reqs = (reqs.map fun r => Request.ofBody r.1 r.2).flatMap
      fun req => Client.sendPkt req.type req.payload := by
  rw [requestBytes, List.flatMap_map]
  rfl

/-- **Only what was asked is dispatched**, in order. -/
theorem dispatched_isPrefix {reqs : List (UInt16 × List Byte)}
    (hshort : ∀ r ∈ reqs, r.2.length ≤ 1018) {server : Socket σ}
    (h : Socket.Framed dispatch state₀ server) (hkept : server.phase ≠ .removed)
    (hreceived : server.received <+: requestBytes reqs) :
    server.dispatched <+: reqs.map fun r => Request.ofBody r.1 r.2 := by
  have hparsed := h.parsed
  rw [requestBytes_eq] at hreceived
  cases hphase : server.phase with
  | removed => exact absurd hphase hkept
  | reading localData =>
      rw [hphase] at hparsed
      obtain ⟨earlier, hearlier, hparse⟩ := hparsed
      have hpart : earlier <+: server.received := ⟨localData, hearlier.symm⟩
      obtain ⟨k, rest, hall, -⟩ :=
        FrameFormat.parse_of_isPrefix (encodes_requests hshort) (hpart.trans hreceived)
      obtain ⟨heq, -⟩ := Prod.mk.inj (hparse.symm.trans hall)
      rw [heq]
      exact List.take_prefix _ _
  | sending processedLen packet totalSent =>
      rw [hphase] at hparsed
      obtain ⟨k, rest, hall, -⟩ :=
        FrameFormat.parse_of_isPrefix (encodes_requests hshort) hreceived
      obtain ⟨heq, -⟩ := Prod.mk.inj (hparsed.2.2.symm.trans hall)
      exact (List.prefix_append _ _).trans (heq ▸ List.take_prefix _ _)

/-! ## The server's side -/

theorem whole_log {server : Socket σ} (hsent : ∀ e ∈ server.attempts, e.2 = e.1.length) :
    Whole server.log := by
  have hattempts : Whole server.attempts :=
    List.pairwise_of_forall_mem_list fun e he _ _ _ => hsent e he
  unfold Socket.log
  cases server.phase with
  | reading | removed => rwa [List.append_nil]
  | sending processedLen packet totalSent => exact whole_snoc.mpr ⟨hattempts, fun _ => hsent⟩

/-- **Only answers are sent**, in order. -/
theorem output_isPrefix {reqs : List (UInt16 × List Byte)} {server : Socket σ}
    (h : Socket.Framed dispatch state₀ server)
    (hsent : ∀ e ∈ server.attempts, e.2 = e.1.length)
    (hdispatched : server.dispatched <+: reqs.map fun r => Request.ofBody r.1 r.2) :
    server.output <+: answerBytes (answers dispatch state₀ reqs) := by
  obtain ⟨later, hlater⟩ := hdispatched
  have hanswers : answerBytes (answers dispatch state₀ reqs)
      = ((replies dispatch state₀ server.dispatched).map replyPacket).flatten
        ++ ((replies dispatch (stateAfter dispatch state₀ server.dispatched) later).map
          replyPacket).flatten := by
    rw [answers, ← hlater, replies_append, answerBytes, List.flatMap_map, List.flatMap_append]
    rfl
  rw [hanswers, ← h.replied]
  exact (written_isPrefix (whole_log hsent)).trans (List.prefix_append _ _)

theorem written_resume (server : Socket σ) (processedLen : ℕ) :
    (server.resume dispatch processedLen).output = written server.attempts := by
  unfold Socket.output Socket.log Socket.resume
  dsimp only
  cases (advance dispatch server.buffer processedLen server.state).packet with
  | none => rw [List.append_nil]
  | some packet => exact List.flatMap_append.trans (List.append_nil _)

/-- The bytes that `recv` has given. -/
def given : Syscall → List Byte
  | .recv (.bytes bs) => bs
  | .recv .wouldBlock | .recv .interrupted | .recv .closed | .recv .failed | .send _ => []

/-- How many bytes `send` has taken. -/
def taken : Syscall → ℕ
  | .send (.count n) => n
  | .send .wouldBlock | .send .zero | .send .failed | .recv _ => 0

/-- A call of `MyEchoBusiness` has read something. -/
def collecting : Phase → Bool
  | .reading (_ :: _) => true
  | .reading [] | .sending _ _ _ | .removed => false

/-- The system call gets something done. -/
def gets (server : Socket σ) : Syscall → Bool
  | .recv (.bytes _) | .send (.count _) => true
  | .recv .wouldBlock => collecting server.phase
  | .recv .interrupted | .recv .closed | .recv .failed | .send .wouldBlock | .send .zero
  | .send .failed => false

/-- What a system call that does not fail changes. -/
structure Serves (server : Socket σ) (call : Syscall) (server' : Socket σ) : Prop where
  sent : ∀ e ∈ server'.attempts, e.2 = e.1.length
  kept : server'.phase ≠ .removed
  received : server'.received = server.received ++ given call
  pace : (collecting server'.phase).toNat + (gets server call).toNat
    ≤ (collecting server.phase).toNat + 2 * (given call).length + taken call

variable (dispatch) in
/-- The framing loop goes on. -/
theorem phase_resume (server : Socket σ) (processedLen : ℕ) :
    (server.resume dispatch processedLen).phase ≠ .removed ∧
      collecting (server.resume dispatch processedLen).phase = false := by
  unfold Socket.resume
  dsimp only
  split <;> exact ⟨Phase.noConfusion, rfl⟩

/-- Some more of a packet. -/
theorem written_more (log : List (List Byte × ℕ)) {packet : List Byte} {totalSent n : ℕ}
    (hle : totalSent + n ≤ packet.length) :
    ∃ more, written (log ++ [(packet, totalSent)]) ++ more
      = written (log ++ [(packet, totalSent + n)]) ∧ more.length = n := by
  refine ⟨(packet.drop totalSent).take n, ?_, ?_⟩
  · unfold written
    rw [List.flatMap_append, List.flatMap_append, List.flatMap_singleton, List.flatMap_singleton,
      List.take_add, List.append_assoc]
  · rw [List.length_take, List.length_drop]
    omega

/-- **The output only grows**, by what `send` takes. -/
theorem output_step {server server' : Socket σ} {call : Syscall}
    (hstep : server.step dispatch call = some server') :
    ∃ more, server.output ++ more = server'.output ∧ more.length = taken call := by
  have hsame : ∀ {s : Socket σ}, server.output = s.output →
      ∃ more, server.output ++ more = s.output ∧ more.length = 0 := fun h =>
    ⟨[], by rw [List.append_nil, h], rfl⟩
  cases Socket.step_spec dispatch hstep with
  | interrupted | idle | again => exact hsame rfl
  | read hphase hpos =>
      refine hsame ?_
      unfold Socket.output
      rw [Socket.log_of_reading hphase, Socket.log_of_reading rfl]
  | serve hphase =>
      refine hsame ?_
      rw [written_resume]
      unfold Socket.output
      rw [Socket.log_of_reading hphase]
  | remove hphase hr =>
      refine hsame ?_
      unfold Socket.output
      rw [Socket.log_of_reading hphase]
      exact congrArg written (List.append_nil _).symm
  | part hphase hpos hlt =>
      unfold Socket.output
      rw [Socket.log_of_sending hphase, Socket.log_of_sending rfl]
      exact written_more server.attempts (Nat.le_of_lt hlt)
  | whole hphase hpos heq =>
      rw [Socket.leave, written_resume]
      unfold Socket.output
      rw [Socket.log_of_sending hphase, ← heq]
      exact written_more server.attempts (Nat.le_of_eq heq)
  | @giveUp processedLen totalSent packet r hphase hr =>
      have houtput : server.output
          = (server.leave dispatch processedLen packet totalSent).output := by
        rw [Socket.leave, written_resume]
        unfold Socket.output
        rw [Socket.log_of_sending hphase]
      rcases hr with rfl | rfl <;> exact hsame houtput

theorem serves_of_step {server server' : Socket σ} {call : Syscall}
    (hsent : ∀ e ∈ server.attempts, e.2 = e.1.length) (hkept : server.phase ≠ .removed)
    (hhealthy : Healthy dispatch (.server call))
    (hstep : server.step dispatch call = some server') : Serves server call server' := by
  cases Socket.step_spec dispatch hstep with
  | @read localData bs hphase hpos =>
      refine ⟨hsent, Phase.noConfusion, rfl, ?_⟩
      have hone := Bool.toNat_le (collecting (.reading (localData ++ bs)))
      simp only [gets, given, taken, Bool.toNat_true]
      omega
  | interrupted | again => exact ⟨hsent, hkept, (List.append_nil _).symm, Nat.le_refl _⟩
  | idle hphase =>
      refine ⟨hsent, hkept, (List.append_nil _).symm, ?_⟩
      rw [gets, hphase]
      exact Nat.le_refl _
  | @serve localData hphase =>
      obtain ⟨hkept', hrest⟩ := phase_resume dispatch
        { server with buffer := server.buffer ++ localData } 0
      refine ⟨hsent, hkept', (List.append_nil _).symm, ?_⟩
      rw [hrest, gets]
      simp only [Bool.toNat_false]
      omega
  | remove hphase hr => rcases hr with rfl | rfl <;> exact hhealthy.elim
  | part hphase hpos hlt =>
      refine ⟨hsent, Phase.noConfusion, (List.append_nil _).symm, ?_⟩
      simp only [collecting, gets, taken, Bool.toNat_true, Bool.toNat_false]
      omega
  | @whole processedLen totalSent n packet hphase hpos heq =>
      obtain ⟨hkept', hrest⟩ := phase_resume dispatch
        { server with attempts := server.attempts ++ [(packet, packet.length)] } processedLen
      refine ⟨fun e he => ?_, hkept', (List.append_nil _).symm, ?_⟩
      · rcases List.mem_append.mp he with hold | hnew
        · exact hsent e hold
        · rw [List.mem_singleton.mp hnew]
      · rw [Socket.leave, hrest]
        simp only [gets, taken, Bool.toNat_true, Bool.toNat_false]
        omega
  | giveUp hphase hr => rcases hr with rfl | rfl <;> exact hhealthy.elim

/-! ## The client's side -/

/-- What the client has of the packet it reads. -/
def Stage.part : Stage → List Byte
  | .header got => got
  | .body type len got => PacketHeader.bytes ⟨UInt32.ofNat len, type⟩ ++ got
  | .idle | .failed => []

variable (dispatch state₀) in
/-- The client waits for `e`, the reply to its last request. -/
structure Awaits (d : Dialogue σ) (e : UInt16 × List Byte) : Prop where
  earlier : ∃ reqs r, d.requests = reqs ++ [r] ∧ d.responses = answers dispatch state₀ reqs
  answers : answers dispatch state₀ d.requests = d.responses ++ [e]
  nonempty : e.2 ≠ []
  fits : e.2.length ≤ Client.maxBody

variable (dispatch state₀) in
/-- What is known of every state, as long as nothing fails. -/
structure Tracks (d : Dialogue σ) : Prop where
  framed : Socket.Framed dispatch state₀ d.server
  sent : ∀ e ∈ d.server.attempts, e.2 = e.1.length
  kept : d.server.phase ≠ .removed
  received : d.server.received <+: d.sent
  short : ∀ r ∈ d.requests, r.2.length ≤ 1018
  read : d.read ≤ d.server.output.length
  took : d.server.output.take d.read = answerBytes d.responses ++ d.stage.part
  stage : match d.stage with
    | .idle => d.responses = Dialogue.answers dispatch state₀ d.requests
    | .header got => got.length < PacketHeader.size ∧ ∃ e, Awaits dispatch state₀ d e
    | .body type len got => got.length < len ∧
        ∃ e, Awaits dispatch state₀ d e ∧ type = e.1 ∧ len = e.2.length
    | .failed => False

/-- What has been received was sent. -/
theorem InFlight.received {d : Dialogue σ} {call : Syscall} (hflight : d.InFlight call)
    (hreceived : d.server.received <+: d.sent) : d.server.received ++ given call <+: d.sent := by
  cases call with
  | send r => rwa [given, List.append_nil]
  | recv r =>
      cases r with
      | bytes bs => exact hflight
      | wouldBlock | interrupted | closed | failed => rwa [given, List.append_nil]

namespace Tracks

variable {d d'' : Dialogue σ} {e : UInt16 × List Byte}

theorem start (state₀ : σ) : Tracks dispatch state₀ (start state₀) where
  framed := Socket.framed_new dispatch state₀
  sent e he := by cases he
  kept := Phase.noConfusion
  received := List.prefix_rfl
  short r hr := by cases hr
  read := Nat.le_refl _
  took := rfl
  stage := rfl

/-- What the server has put on the connection is a beginning of the answers. -/
theorem output (h : Tracks dispatch state₀ d) :
    d.server.output <+: answerBytes (Dialogue.answers dispatch state₀ d.requests) :=
  output_isPrefix h.framed h.sent (dispatched_isPrefix h.short h.framed h.kept h.received)

/-- What the client has read behind its last response belongs to the next one. -/
theorem part_isPrefix (h : Tracks dispatch state₀ d) (hawaits : Awaits dispatch state₀ d e) {n : ℕ}
    {part : List Byte} (htook : d.server.output.take n = answerBytes d.responses ++ part) :
    part <+: packet e.1 e.2 := by
  have hall := (List.take_prefix n d.server.output).trans h.output
  rw [htook, hawaits.answers, answerBytes_snoc] at hall
  exact (List.prefix_append_right_inj _).mp hall

/-- More bytes of the server's output. -/
theorem took_add (h : Tracks dispatch state₀ d) (count : ℕ) :
    d.server.output.take (d.read + count)
      = answerBytes d.responses ++ (d.stage.part ++ d.next count) := by
  rw [List.take_add, h.took, next, List.append_assoc]

/-- The client has read all of a packet. -/
theorem complete (h : Tracks dispatch state₀ d) (hawaits : Awaits dispatch state₀ d e) {count : ℕ}
    (hle : d.read + count ≤ d.server.output.length)
    (htook : d.server.output.take (d.read + count)
      = answerBytes d.responses ++ packet e.1 e.2) :
    Tracks dispatch state₀
      { d with read := d.read + count, stage := .idle, responses := d.responses ++ [e] } where
  framed := h.framed
  sent := h.sent
  kept := h.kept
  received := h.received
  short := h.short
  read := hle
  took := by
    rw [answerBytes_snoc]
    exact htook.trans (List.append_nil _).symm
  stage := hawaits.answers.symm

theorem recv_header (h : Tracks dispatch state₀ d) {got : List Byte}
    (hstage : d.stage = .header got)
    (hawaits : Awaits dispatch state₀ d e) {count : ℕ}
    (hle : d.read + count ≤ d.server.output.length)
    (hroom : got.length + count ≤ PacketHeader.size) :
    Tracks dispatch state₀ ({ d with read := d.read + count }.gotHeader (got ++ d.next count)) := by
  have htook := h.took_add count
  rw [hstage, Stage.part] at htook
  have hpart := h.part_isPrefix hawaits htook
  unfold gotHeader
  split_ifs with hshort
  · exact ⟨h.framed, h.sent, h.kept, h.received, h.short, hle, htook, hshort, e, hawaits.earlier,
      hawaits.answers, hawaits.nonempty, hawaits.fits⟩
  · have hlength : (got ++ d.next count).length = PacketHeader.size := by
      have hnext : (d.next count).length ≤ count := List.length_take_le _ _
      rw [List.length_append] at hshort ⊢
      omega
    have hheader : got ++ d.next count = PacketHeader.bytes ⟨UInt32.ofNat e.2.length, e.1⟩ := by
      have htake := List.prefix_iff_eq_take.mp hpart
      rw [hlength, packet, List.take_left' (PacketHeader.length_bytes _)] at htake
      exact htake
    have hfits : (UInt32.ofNat e.2.length).toNat = e.2.length := by
      rw [UInt32.toNat_ofNat', Nat.mod_eq_of_lt (Nat.lt_of_le_of_lt hawaits.fits (by decide))]
    have hread : PacketHeader.ofBytes (got ++ d.next count) = ⟨UInt32.ofNat e.2.length, e.1⟩ := by
      have hbytes := PacketHeader.ofBytes_bytes ⟨UInt32.ofNat e.2.length, e.1⟩ []
      rwa [List.append_nil, ← hheader] at hbytes
    have hpos : 0 < e.2.length := List.length_pos_iff.mpr hawaits.nonempty
    dsimp only
    rw [hread]
    dsimp only
    rw [hfits, if_neg (Nat.not_lt.mpr hawaits.fits), if_pos hpos]
    refine ⟨h.framed, h.sent, h.kept, h.received, h.short, hle, ?_, hpos, e,
      ⟨hawaits.earlier, hawaits.answers, hawaits.nonempty, hawaits.fits⟩, rfl, rfl⟩
    rw [htook]
    exact congrArg (answerBytes d.responses ++ ·) (hheader.trans (List.append_nil _).symm)

theorem recv_body (h : Tracks dispatch state₀ d) {type : UInt16} {len : ℕ} {got : List Byte}
    (hstage : d.stage = .body type len got) (hawaits : Awaits dispatch state₀ d e)
    (htype : type = e.1) (hlen : len = e.2.length) {count : ℕ}
    (hle : d.read + count ≤ d.server.output.length) :
    Tracks dispatch state₀
      ({ d with read := d.read + count }.gotBody type len (got ++ d.next count)) := by
  have htook := h.took_add count
  rw [hstage, Stage.part, List.append_assoc] at htook
  have hpart := h.part_isPrefix hawaits htook
  unfold gotBody
  split_ifs with hshort
  · exact ⟨h.framed, h.sent, h.kept, h.received, h.short, hle, htook, hshort, e,
      ⟨hawaits.earlier, hawaits.answers, hawaits.nonempty, hawaits.fits⟩, htype, hlen⟩
  · -- The body is complete, so it is that of the answer.
    rw [hlen, htype, packet] at hpart
    have hbody := (List.prefix_append_right_inj _).mp hpart
    have hlength : (got ++ d.next count).length = e.2.length := by
      have hlong := hbody.length_le
      rw [hlen] at hshort
      omega
    have heq := hbody.eq_of_length hlength
    rw [htype, hlen, heq] at htook
    rw [htype, heq]
    exact h.complete hawaits hle htook

theorem sendPkt (h : Tracks dispatch state₀ d) {type : UInt16} {data : List Byte}
    (hidle : d.stage = .idle) (hlength : data.length ≤ 1018)
    (hr : Answered dispatch (type, data)) :
    Tracks dispatch state₀
      { d with stage := .header [], requests := d.requests ++ [(type, data)] } := by
  have hstage := h.stage
  have htook := h.took
  rw [hidle] at hstage htook
  obtain ⟨reply, hanswers, hnonempty, hfits⟩ := answers_snoc state₀ d.requests hr
  refine ⟨h.framed, h.sent, h.kept, ?_, ?_, h.read, htook, by decide, (type + 1, reply),
    ⟨d.requests, _, rfl, hstage⟩, ?_, hnonempty, hfits⟩
  · refine h.received.trans ?_
    unfold Dialogue.sent requestBytes
    rw [List.flatMap_append]
    exact List.prefix_append _ _
  · intro r hmem
    rcases List.mem_append.mp hmem with hold | hnew
    · exact h.short r hold
    · rw [List.mem_singleton.mp hnew]
      exact hlength
  · rw [hanswers, ← hstage]

theorem server (h : Tracks dispatch state₀ d) {call : Syscall} {server : Socket σ}
    (hflight : d.InFlight call) (hhealthy : Healthy dispatch (.server call))
    (hstep : d.server.step dispatch call = some server) :
    Tracks dispatch state₀ { d with server } := by
  obtain ⟨hsent, hkept, hreceived, -⟩ := serves_of_step h.sent h.kept hhealthy hstep
  obtain ⟨more, hmore, -⟩ := output_step hstep
  have htake : server.output.take d.read = d.server.output.take d.read := by
    rw [← hmore, List.take_append_of_le_length h.read]
  refine ⟨h.framed.step hstep, hsent, hkept, ?_, h.short, ?_, htake.trans h.took, ?_⟩
  · show server.received <+: d.sent
    rw [hreceived]
    exact hflight.received h.received
  · show d.read ≤ server.output.length
    rw [← hmore, List.length_append]
    exact Nat.le_add_right_of_le h.read
  · have hstage := h.stage
    cases hat : d.stage with
    | idle =>
        rw [hat] at hstage
        exact hstage
    | header got =>
        rw [hat] at hstage
        obtain ⟨hshort, e, hawaits⟩ := hstage
        exact ⟨hshort, e, hawaits.earlier, hawaits.answers, hawaits.nonempty, hawaits.fits⟩
    | body type len got =>
        rw [hat] at hstage
        obtain ⟨hshort, e, hawaits, heqs⟩ := hstage
        exact ⟨hshort, e, ⟨hawaits.earlier, hawaits.answers, hawaits.nonempty, hawaits.fits⟩,
          heqs⟩
    | failed =>
        rw [hat] at hstage
        exact hstage

/-- **One step.** -/
theorem step (h : Tracks dispatch state₀ d) {a : Action} (hhealthy : Healthy dispatch a)
    (hstep : d.step dispatch a = some d') : Tracks dispatch state₀ d' := by
  cases a with
  | sendPkt type data =>
      obtain ⟨⟨hidle, hlength⟩, hsome⟩ := Option.ite_none_right_eq_some.mp hstep
      obtain rfl := Option.some.inj hsome
      exact h.sendPkt hidle hlength hhealthy
  | recv count =>
      obtain ⟨⟨-, hle⟩, hsome⟩ := Option.ite_none_right_eq_some.mp hstep
      have hstage := h.stage
      split at hsome
      case h_1 got hat =>
          rw [hat] at hstage
          obtain ⟨-, e, hawaits⟩ := hstage
          obtain ⟨hroom, hnext⟩ := Option.ite_none_right_eq_some.mp hsome
          obtain rfl := Option.some.inj hnext
          exact h.recv_header hat hawaits hle hroom
      case h_2 type len got hat =>
          rw [hat] at hstage
          obtain ⟨-, e, hawaits, htype, hlen⟩ := hstage
          obtain ⟨-, hnext⟩ := Option.ite_none_right_eq_some.mp hsome
          obtain rfl := Option.some.inj hnext
          exact h.recv_body hat hawaits htype hlen hle
      case h_3 | h_4 => cases hsome
  | eof =>
      obtain ⟨⟨hremoved, -⟩, -⟩ := Option.ite_none_right_eq_some.mp hstep
      exact absurd hremoved h.kept
  | recvFails => exact hhealthy.elim
  | server call =>
      obtain ⟨hflight, server, hserver, rfl⟩ := of_step_server dispatch hstep
      exact h.server hflight hhealthy hserver

end Tracks

end Dialogue

open Dialogue

namespace Dialogue

/-- One request and its reply, a header that comes before its body. -/
def oneRequest : List Action :=
  [.sendPkt 3001 [], .server (.recv (.bytes (packet 3001 []))), .server (.recv .wouldBlock),
    .server (.send (.count 7)), .recv 6, .recv 1]

def oneReply : Dialogue Unit :=
  ⟨.idle, [(3001, [])], 7, [(3002, [1])],
    ⟨[], (), .reading [], packet 3001 [], [Request.ofBody 3001 []], [(packet 3002 [1], 7)]⟩⟩

theorem sampleDispatch_answered (r : UInt16 × List Byte) : Answered sampleDispatch r :=
  fun _ => ⟨List.cons_ne_nil _ _, show 1 ≤ Client.maxBody by decide⟩

theorem oneRequest_healthy : ∀ a ∈ oneRequest, Healthy sampleDispatch a := by
  simp [oneRequest, Healthy, sampleDispatch_answered]

/-- The server has received the request. -/
def oneReceived : Socket Unit :=
  ⟨[], (), .reading (packet 3001 []), packet 3001 [], [], []⟩

/-- The server has a reply to send. -/
def oneDispatched : Socket Unit :=
  ⟨packet 3001 [], (), .sending 6 (packet 3002 [1]) 0, packet 3001 [],
    [Request.ofBody 3001 []], []⟩

theorem oneReceived_dispatched :
    oneReceived.step sampleDispatch (.recv .wouldBlock) = some oneDispatched := by
  have hfirst : packets.next ((packet 3001 []).drop 0) = some (Request.ofBody 3001 [], 6) := by
    decide
  have hreply := advance_of_reply sampleDispatch () hfirst (List.cons_ne_nil _ _)
  exact congrArg some (Socket.resume_of_reply hreply)

theorem oneDispatched_sent :
    oneDispatched.step sampleDispatch (.send (.count 7)) = some oneReply.server := by
  have hlast : packets.next ((packet 3001 []).drop 6) = none := by decide
  have hend := advance_of_none sampleDispatch () hlast
  exact congrArg some ((Socket.leave_of_end hend).trans rfl)

/-- While the client waits for the header. -/
def awaiting (server : Socket Unit) : Dialogue Unit :=
  ⟨.header [], [(3001, [])], 0, [], server⟩

theorem step_awaiting {server server' : Socket Unit} {call : Syscall}
    (hflight : (awaiting server).InFlight call)
    (hstep : server.step sampleDispatch call = some server') :
    (awaiting server).step sampleDispatch (.server call) = some (awaiting server') := by
  refine (if_pos hflight).trans ?_
  show (server.step sampleDispatch call).map _ = _
  rw [hstep]
  rfl

theorem oneRequest_run : runs (step sampleDispatch) (start ()) oneRequest = some oneReply ∧
    Along (step sampleDispatch)
      (fun d a => a = .server (.recv .wouldBlock) → d.server.phase = .reading [] →
        d.server.received = d.sent) (start ()) oneRequest := by
  let oneHeader : Dialogue Unit := ⟨.body 3002 1 [], [(3001, [])], 6, [], oneReply.server⟩
  have hasked : (start ()).step sampleDispatch (.sendPkt 3001 [])
      = some (awaiting (Socket.new ())) := rfl
  have hread : (awaiting (Socket.new ())).step sampleDispatch
      (.server (.recv (.bytes (packet 3001 [])))) = some (awaiting oneReceived) :=
    step_awaiting List.prefix_rfl rfl
  have hserved : (awaiting oneReceived).step sampleDispatch (.server (.recv .wouldBlock))
      = some (awaiting oneDispatched) :=
    step_awaiting True.intro oneReceived_dispatched
  have hsent : (awaiting oneDispatched).step sampleDispatch (.server (.send (.count 7)))
      = some (awaiting oneReply.server) :=
    step_awaiting True.intro oneDispatched_sent
  have hheader : (awaiting oneReply.server).step sampleDispatch (.recv 6) = some oneHeader := by
    rfl
  have hbody : oneHeader.step sampleDispatch (.recv 1) = some oneReply := by
    rfl
  constructor
  · rw [oneRequest, runs, hasked, Option.bind_some, runs, hread, Option.bind_some, runs, hserved,
      Option.bind_some, runs, hsent, Option.bind_some, runs, hheader, Option.bind_some, runs, hbody]
    rfl
  · have hbusy : (awaiting oneReceived).server.phase ≠ .reading [] := by decide
    exact .cons (by simp) hasked <| .cons (by simp) hread <|
      .cons (fun _ hnil => absurd hnil hbusy) hserved <| .cons (by simp) hsent <|
      .cons (by simp) hheader <| .cons (by simp) hbody trivial

end Dialogue

namespace Dialogue

/-! ## Every `recv_pkt` returns -/

variable {σ : Type*} {dispatch : Dispatch σ} {state₀ : σ} {d d' : Dialogue σ} {a : Action}

/-- Who moves.  A system call that has to be made again gets nobody any further. -/
inductive Side where
  | client
  | server
  | kernel
deriving DecidableEq, Repr

def Action.side : Action → Option Side
  | .sendPkt _ _ => none
  | .recv _ | .eof | .recvFails => some .client
  | .server (.recv .interrupted) | .server (.send .wouldBlock) => some .kernel
  | .server (.recv (.bytes _)) | .server (.recv .wouldBlock) | .server (.recv .closed)
  | .server (.recv .failed) | .server (.send (.count _)) | .server (.send .zero)
  | .server (.send .failed) => some .server

/-- The client waits in `recv_pkt`. -/
def Stage.waits : Stage → Bool
  | .header _ | .body _ _ _ => true
  | .idle | .failed => false

/-- What there is to do for a side. -/
def Busy (side : Side) (d : Dialogue σ) : Prop :=
  match side with
  | .client => d.stage.waits = true ∧ d.read < d.server.output.length
  | .server =>
      match d.server.phase with
      | .reading localData => localData ≠ [] ∨ d.server.received.length < d.sent.length
      | .sending _ _ _ => True
      | .removed => False
  | .kernel => False

variable (dispatch) in
/-- Nothing fails, and the server is not told that there is nothing while there is. -/
structure Honest (d : Dialogue σ) (a : Action) : Prop where
  healthy : Healthy dispatch a
  ready : a = .server (.recv .wouldBlock) → d.server.phase = .reading [] →
    d.server.received = d.sent

/-- The action gets something done. -/
def useful (d : Dialogue σ) : Action → Bool
  | .recv _ => true
  | .server call => gets d.server call
  | .sendPkt _ _ | .eof | .recvFails => false

variable (dispatch state₀) in
/-- What is left to be done: bytes that the server has to read, to work on and to send, and
that the client has to read. -/
def rank (d : Dialogue σ) : ℕ :=
  2 * (d.sent.length - d.server.received.length) + (collecting d.server.phase).toNat
    + ((answerBytes (answers dispatch state₀ d.requests)).length - d.server.output.length)
    + ((answerBytes (answers dispatch state₀ d.requests)).length - d.read)

/-- A request, and a reply that is as long as `recv_pkt` allows. -/
def Action.brings : Action → ℕ
  | .sendPkt _ _ => 2 * 1024 + 2 * (6 + Client.maxBody)
  | .recv _ | .eof | .recvFails | .server _ => 0

/-- A `recv` of the client changes nothing else. -/
theorem recv_frame {count : ℕ} (hstep : d.step dispatch (.recv count) = some d') :
    d'.requests = d.requests ∧ d'.server = d.server ∧ d'.read = d.read + count ∧ 0 < count ∧
      d.stage.waits = true := by
  obtain ⟨⟨hpos, -⟩, hsome⟩ := Option.ite_none_right_eq_some.mp hstep
  split at hsome
  case h_1 got hat =>
      obtain ⟨-, hnext⟩ := Option.ite_none_right_eq_some.mp hsome
      obtain rfl := Option.some.inj hnext
      rw [hat]
      unfold gotHeader
      dsimp only
      split_ifs <;> exact ⟨rfl, rfl, rfl, hpos, rfl⟩
  case h_2 type len got hat =>
      obtain ⟨-, hnext⟩ := Option.ite_none_right_eq_some.mp hsome
      obtain rfl := Option.some.inj hnext
      rw [hat]
      unfold gotBody
      split_ifs <;> exact ⟨rfl, rfl, rfl, hpos, rfl⟩
  case h_3 | h_4 => cases hsome

theorem Tracks.rank_step (h : Tracks dispatch state₀ d) (hhonest : Honest dispatch d a)
    (hstep : d.step dispatch a = some d') :
    rank dispatch state₀ d' + (d.useful a).toNat ≤ rank dispatch state₀ d + a.brings := by
  have h' := h.step hhonest.healthy hstep
  have houtput := h'.output.length_le
  cases a with
  | sendPkt type data =>
      obtain ⟨⟨hidle, hlength⟩, hsome⟩ := Option.ite_none_right_eq_some.mp hstep
      obtain rfl := Option.some.inj hsome
      obtain ⟨reply, hanswers, -, hfits⟩ :=
        answers_snoc state₀ d.requests hhonest.healthy
      have hsent : ({ d with
          stage := .header []
          requests := d.requests ++ [(type, data)] } : Dialogue σ).sent.length
          = d.sent.length + (6 + data.length) := by
        unfold Dialogue.sent requestBytes
        rw [List.flatMap_append, List.flatMap_singleton, List.length_append]
        exact congrArg _ (length_packet type data)
      have hbytes := congrArg List.length (answerBytes_snoc
        (answers dispatch state₀ d.requests) (type + 1, reply))
      rw [List.length_append, length_packet, PacketHeader.size, ← hanswers] at hbytes
      simp only [rank, useful, Action.brings, hsent, hbytes, Bool.toNat_false]
      omega
  | recv count =>
      obtain ⟨hrequests, hserver, hread, hpos, -⟩ := recv_frame hstep
      have hle := h'.read
      rw [hserver, hread] at hle
      rw [hserver, hrequests] at houtput
      simp only [rank, Dialogue.sent, useful, Action.brings, hrequests, hserver, hread,
        Bool.toNat_true]
      omega
  | eof =>
      obtain ⟨⟨hremoved, -⟩, -⟩ := Option.ite_none_right_eq_some.mp hstep
      exact absurd hremoved h.kept
  | recvFails => exact hhonest.healthy.elim
  | server call =>
      obtain ⟨hflight, server, hserver, rfl⟩ := of_step_server dispatch hstep
      obtain ⟨-, -, hreceived, hpace⟩ :=
        serves_of_step h.sent h.kept hhonest.healthy hserver
      obtain ⟨more, hmore, htaken⟩ := output_step hserver
      have hsent := (hflight.received h.received).length_le
      have hlength := congrArg List.length hmore
      rw [List.length_append, htaken] at hlength
      rw [List.length_append] at hsent
      simp only [rank, Dialogue.sent, useful, Action.brings, hreceived, ← hlength,
        List.length_append] at houtput hsent ⊢
      omega

theorem useful_of_busy {side : Side} (hside : a.side = some side) (hbusy : d.Busy side)
    (hhonest : Honest dispatch d a) (hstep : d.step dispatch a = some d') :
    d.useful a = true := by
  cases side with
  | kernel => exact hbusy.elim
  | client =>
      cases a with
      | sendPkt type data => cases hside
      | recv count => rfl
      | eof =>
          obtain ⟨⟨-, hend⟩, -⟩ := Option.ite_none_right_eq_some.mp hstep
          exact absurd hend (Nat.ne_of_lt hbusy.2)
      | recvFails => exact hhonest.healthy.elim
      | server call =>
          rcases call with (_ | _ | _ | _ | _) | (_ | _ | _ | _) <;> cases hside
  | server =>
      rcases a with ⟨_, _⟩ | _ | _ | _ | (bs | _ | _ | _ | _) | (n | _ | _ | _)
      case server.recv.bytes | server.send.count => rfl
      case server.recv.closed | server.recv.failed | server.send.zero | server.send.failed =>
          exact hhonest.healthy.elim
      case server.recv.wouldBlock =>
          -- The server is in a call that has read something, or it has nothing to read.
          obtain ⟨-, server, hserver, -⟩ := of_step_server dispatch hstep
          have hready := hhonest.ready rfl
          show collecting d.server.phase = true
          unfold Busy at hbusy
          cases hphase : d.server.phase with
          | removed =>
              rw [hphase] at hbusy
              exact hbusy.elim
          | sending processedLen packet totalSent =>
              simp only [Socket.step, hphase] at hserver
              cases hserver
          | reading localData =>
              cases localData with
              | cons b localData => rfl
              | nil =>
                  rw [hphase, hready hphase] at hbusy
                  exact absurd hbusy (by simp)
      all_goals cases hside

/-- What the other side does leaves a side what it has to do. -/
theorem busy_step {side : Side} (hbusy : d.Busy side) (hother : a.side ≠ some side)
    (hstep : d.step dispatch a = some d') : d'.Busy side := by
  cases side with
  | kernel => exact hbusy.elim
  | client =>
      cases a with
      | recv count | eof | recvFails => exact absurd rfl hother
      | sendPkt type data =>
          obtain ⟨⟨hidle, -⟩, -⟩ := Option.ite_none_right_eq_some.mp hstep
          rw [Busy, hidle] at hbusy
          exact absurd hbusy.1 Bool.false_ne_true
      | server call =>
          obtain ⟨-, server, hserver, rfl⟩ := of_step_server dispatch hstep
          obtain ⟨more, hmore, -⟩ := output_step hserver
          refine ⟨hbusy.1, Nat.lt_of_lt_of_le hbusy.2 ?_⟩
          show d.server.output.length ≤ server.output.length
          rw [← hmore, List.length_append]
          exact Nat.le_add_right _ _
  | server =>
      cases a with
      | recv count =>
          obtain ⟨hrequests, hserver, -⟩ := recv_frame hstep
          unfold Busy sent
          rw [hserver, hrequests]
          exact hbusy
      | eof =>
          obtain ⟨-, hsome⟩ := Option.ite_none_right_eq_some.mp hstep
          obtain rfl := of_giveUp hsome
          exact hbusy
      | recvFails =>
          obtain rfl := of_giveUp hstep
          exact hbusy
      | sendPkt type data =>
          obtain ⟨-, hsome⟩ := Option.ite_none_right_eq_some.mp hstep
          obtain rfl := Option.some.inj hsome
          unfold Busy at hbusy ⊢
          dsimp only
          cases hphase : d.server.phase with
          | removed | sending =>
              rw [hphase] at hbusy
              exact hbusy
          | reading localData =>
              rw [hphase] at hbusy
              refine hbusy.imp id fun hlt => Nat.lt_of_lt_of_le hlt ?_
              unfold sent requestBytes
              rw [List.flatMap_append, List.length_append]
              exact Nat.le_add_right _ _
      | server call =>
          -- A call that has to be made again.
          obtain ⟨-, server, hserver, rfl⟩ := of_step_server dispatch hstep
          cases Socket.step_spec dispatch hserver with
          | interrupted | again => exact hbusy
          | remove hphase hr => rcases hr with rfl | rfl <;> exact absurd rfl hother
          | giveUp hphase hr => rcases hr with rfl | rfl <;> exact absurd rfl hother
          | _ => exact absurd rfl hother

/-- A busy side can move. -/
theorem Tracks.able (h : Tracks dispatch state₀ d) {side : Side} (hbusy : d.Busy side) :
    ∃ a : Action, a.side = some side ∧ Honest dispatch d a ∧
      (d.step dispatch a).isSome = true := by
  cases side with
  | kernel => exact hbusy.elim
  | client =>
      obtain ⟨hwaits, hlt⟩ := hbusy
      refine ⟨.recv 1, rfl, ⟨trivial, fun h => by cases h⟩, ?_⟩
      have hstage := h.stage
      cases hat : d.stage with
      | idle | failed =>
          rw [hat] at hwaits
          cases hwaits
      | header got =>
          rw [hat] at hstage
          have hroom : got.length + 1 ≤ PacketHeader.size := hstage.1
          simp [Dialogue.step, hat, hroom, Nat.succ_le_of_lt hlt]
      | body type len got =>
          rw [hat] at hstage
          have hroom : got.length + 1 ≤ len := hstage.1
          simp [Dialogue.step, hat, hroom, Nat.succ_le_of_lt hlt]
  | server =>
      have hparsed := h.framed.parsed
      unfold Busy at hbusy
      cases hphase : d.server.phase with
      | removed => exact absurd hphase h.kept
      | sending processedLen packet totalSent =>
          rw [hphase] at hparsed
          have hroom : 1 ≤ packet.length - totalSent := by
            have hlt := hparsed.1
            omega
          refine ⟨.server (.send (.count 1)), rfl, ⟨trivial, fun h => by cases h⟩, ?_⟩
          have hsend : (d.server.step dispatch (.send (.count 1))).isSome = true := by
            simp only [Socket.step, hphase]
            rw [if_pos ⟨Nat.one_pos, hroom⟩]
            split_ifs <;> rfl
          rw [Dialogue.step, if_pos (by trivial), Option.isSome_map]
          exact hsend
      | reading localData =>
          rw [hphase] at hbusy
          cases localData with
          | cons b localData =>
              refine ⟨.server (.recv .wouldBlock), rfl, ⟨trivial, fun _ hnil => ?_⟩, ?_⟩
              · rw [hphase] at hnil
                cases hnil
              · simp [Dialogue.step, InFlight, Socket.step, hphase]
          | nil =>
              have hlt := hbusy.resolve_left fun hne => hne rfl
              obtain ⟨more, hmore⟩ := h.received
              cases more with
              | nil =>
                  rw [List.append_nil] at hmore
                  rw [hmore] at hlt
                  exact absurd hlt (Nat.lt_irrefl _)
              | cons b more =>
                  refine ⟨.server (.recv (.bytes [b])), rfl, ⟨trivial, fun h => by cases h⟩, ?_⟩
                  have hflight : d.InFlight (.recv (.bytes [b])) :=
                    ⟨more, by rw [← hmore, List.append_assoc]; rfl⟩
                  simp [Dialogue.step, hflight, Socket.step, hphase, recvSize]

/-- **Where nobody has anything to do, the client does not wait.** -/
theorem Tracks.idle (h : Tracks dispatch state₀ d) (hquiet : ∀ side, ¬ d.Busy side) :
    d.stage = .idle := by
  have hserver := hquiet .server
  have hclient := hquiet .client
  have hparsed := h.framed.parsed
  have hreplied := h.framed.replied
  unfold Busy at hserver
  -- The server has read, dispatched and answered everything.
  have houtput : d.server.output = answerBytes (answers dispatch state₀ d.requests) := by
    cases hphase : d.server.phase with
    | removed => exact absurd hphase h.kept
    | sending processedLen packet totalSent =>
        rw [hphase] at hserver
        exact absurd trivial hserver
    | reading localData =>
        rw [hphase] at hserver hparsed
        rw [Socket.log_of_reading hphase] at hreplied
        obtain ⟨hnil, hall⟩ := not_or.mp hserver
        obtain rfl := not_not.mp hnil
        obtain ⟨earlier, hearlier, hparse⟩ := hparsed
        rw [List.append_nil] at hearlier
        have heq : earlier = d.sent :=
          hearlier.symm.trans (h.received.eq_of_length_le (Nat.le_of_not_lt hall))
        rw [heq, Dialogue.sent, requestBytes_eq,
          FrameFormat.parse_flatMap (encodes_requests h.short)] at hparse
        obtain ⟨hdispatched, -⟩ := Prod.mk.inj hparse
        unfold Socket.output
        rw [Socket.log_of_reading hphase, written_of_complete h.sent, hreplied, ← hdispatched,
          answers, answerBytes, List.flatMap_map]
        rfl
  have hread : d.stage.waits = true → d.read = d.server.output.length := fun hwaits =>
    Nat.le_antisymm h.read (Nat.le_of_not_lt fun hlt => hclient ⟨hwaits, hlt⟩)
  have htook := h.took
  have hstage := h.stage
  -- So the packet that a waiting client has a part of would be complete.
  have hpart : ∀ {e}, Awaits dispatch state₀ d e → d.stage.waits = true →
      d.stage.part = packet e.1 e.2 := by
    intro e hawaits hwaits
    rw [hread hwaits, List.take_length, houtput, hawaits.answers, answerBytes_snoc] at htook
    exact (List.append_cancel_left htook).symm
  cases hat : d.stage with
  | idle => rfl
  | failed =>
      rw [hat] at hstage
      exact hstage.elim
  | header got =>
      rw [hat] at hstage hpart
      obtain ⟨hshort, e, hawaits⟩ := hstage
      have hlength := congrArg List.length (hpart hawaits rfl)
      rw [Stage.part, length_packet] at hlength
      omega
  | body type len got =>
      rw [hat] at hstage hpart
      obtain ⟨hshort, e, hawaits, -, hlen⟩ := hstage
      have hlength := congrArg List.length (hpart hawaits rfl)
      rw [Stage.part, length_packet, List.length_append, PacketHeader.length_bytes] at hlength
      omega

variable (dispatch state₀) in
def workload : Workload (step dispatch) Side where
  Inv := Tracks dispatch state₀
  inv_step h hhonest := h.step hhonest.healthy
  thread := Action.side
  Busy := Busy
  Honest := Honest dispatch
  useful := useful
  rank := rank dispatch state₀
  brings := Action.brings
  brings_thread {a t} h := by cases a <;> first | rfl | cases h
  rank_step := Tracks.rank_step
  useful_of_busy := useful_of_busy
  busy_step := busy_step
  able h hbusy := h.able hbusy

/-- Only a client that does not wait makes a request. -/
theorem idle_of_side_none (hside : a.side = none) (hstep : d.step dispatch a = some d') :
    d.stage = .idle := by
  cases a with
  | sendPkt type data => exact (Option.ite_none_right_eq_some.mp hstep).1.1
  | recv count | eof | recvFails => cases hside
  | server call => rcases call with (_ | _ | _ | _ | _) | (_ | _ | _ | _) <;> cases hside

end Dialogue

namespace Dialogue

/-- The server finds nothing more to read. -/
theorem oneReply_stays :
    oneReply.step sampleDispatch (.server (.recv .wouldBlock)) = some oneReply :=
  rfl

/-- The run of `oneRequest`, and then the server looks for more. -/
def oneRequestForever : InfiniteRun (step sampleDispatch) :=
  .ending oneRequest_run.1 oneReply_stays

theorem oneReply_done (side : Side) : ¬ oneReply.Busy side := by
  cases side with
  | client => exact fun hbusy => Bool.false_ne_true hbusy.1
  | server => exact fun hbusy => hbusy.elim (fun h => h rfl) (by decide)
  | kernel => exact id

theorem oneRequest_honest :
    Along (step sampleDispatch) (Honest sampleDispatch) (start ()) oneRequest :=
  ((along_of_forall_mem oneRequest_healthy _).and oneRequest_run.2).mono fun _ _ h =>
    ⟨h.1, h.2⟩

end Dialogue

end ExchangeServer
