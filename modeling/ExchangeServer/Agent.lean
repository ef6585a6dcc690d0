import ExchangeServer.Socket.Basic

/-!
# The trading agent and the server

`ExchangeClient` in `client/agent`, which the agent uses instead of the client's packet
functions.  It sends a length of four bytes and a JSON text, and waits for an answer before
it sends anything else; the server takes six bytes for a header.

`Agent.step` interleaves the agent with the connection of the server, over a stream in each
direction.  `agent_never_answered` says what comes of it: two bytes are missing for ever.
-/

namespace ExchangeServer

open Lib

namespace Agent

/-- What `receive_response` returns: `None`, or the text that was received. -/
abbrev Response := Option (List Byte)

/-- Where the agent is. -/
inductive Stage where
  /-- Between two calls. -/
  | idle
  /-- In the first `recv` of `receive_response`. -/
  | header
  /-- In its loop, with `msg_len` and what has been collected. -/
  | body (msgLen : ℕ) (bodyData : List Byte)
deriving DecidableEq, Repr

/-- The text of a request behind its length, as `send_request` sends it;
`struct.pack('!I', ..)` raises an error when the length does not fit. -/
def frame (jsonData : List Byte) : Option (List Byte) :=
  if jsonData.length < 2 ^ 32 then some (bigEndian 4 jsonData.length ++ jsonData) else none

end Agent

/-- The agent and its connection, with what the agent has read of the server's output. -/
structure AgentLink (σ : Type*) where
  stage : Agent.Stage
  /-- The bytes that the agent has sent. -/
  sent : List Byte
  /-- The requests that the agent has sent. -/
  requests : ℕ
  /-- How many bytes of the server's output the agent has read. -/
  read : ℕ
  responses : List Agent.Response
  server : Socket σ

namespace Agent

variable {σ : Type*} (dispatch : Dispatch σ)

/-- What can happen. -/
inductive Action where
  | sendRequest (jsonData : List Byte)
  /-- `recv` of the agent returns this many bytes. -/
  | recv (count : ℕ)
  /-- `recv` of the agent finds the stream at its end. -/
  | eof
  | server (call : Syscall)
deriving DecidableEq, Repr

/-- A new connection. -/
def start (state : σ) : AgentLink σ :=
  ⟨.idle, [], 0, 0, [], Socket.new state⟩

/-- What the server can receive is what was sent. -/
def InFlight (s : AgentLink σ) : Syscall → Prop
  | .recv (.bytes bs) => s.server.received ++ bs <+: s.sent
  | _ => True

instance (s : AgentLink σ) (call : Syscall) : Decidable (InFlight s call) :=
  match call with
  | .recv (.bytes bs) => inferInstanceAs (Decidable (s.server.received ++ bs <+: s.sent))
  | .recv .wouldBlock => instDecidableTrue
  | .recv .interrupted => instDecidableTrue
  | .recv .closed => instDecidableTrue
  | .recv .failed => instDecidableTrue
  | .send _ => instDecidableTrue

/-- The agent has `count` bytes to read. -/
def Arrived (s : AgentLink σ) (count : ℕ) : Prop :=
  0 < count ∧ s.read + count ≤ s.server.output.length

instance (s : AgentLink σ) (count : ℕ) : Decidable (Arrived s count) := by
  unfold Arrived
  infer_instance

/-- The next bytes of the server's output. -/
def next (s : AgentLink σ) (count : ℕ) : List Byte :=
  (s.server.output.drop s.read).take count

/-- The loop of `receive_response`, when something has been collected. -/
def collect (msgLen : ℕ) (bodyData : List Byte) (s : AgentLink σ) : AgentLink σ :=
  if bodyData.length < msgLen then { s with stage := .body msgLen bodyData }
  else { s with stage := .idle, responses := s.responses ++ [some bodyData] }

/-- One step of the agent or of the server. -/
def step (s : AgentLink σ) : Action → Option (AgentLink σ)
  | .sendRequest jsonData =>
      match s.stage with
      | .idle =>
          (frame jsonData).map fun bytes =>
            { s with stage := .header, sent := s.sent ++ bytes, requests := s.requests + 1 }
      | _ => none
  | .recv count =>
      if Arrived s count then
        let bytes := next s count
        let s' := { s with read := s.read + count }
        match s.stage with
        | .idle => none
        | .header =>
            if count = 4 then some (collect (ofBigEndian bytes) [] s')
            -- `struct.unpack` raises an error.
            else if count < 4 then some { s' with stage := .idle }
            else none
        | .body msgLen bodyData =>
            if count ≤ msgLen - bodyData.length then some (collect msgLen (bodyData ++ bytes) s')
            else none
      else none
  | .eof =>
      if s.server.phase = .removed ∧ s.read = s.server.output.length then
        match s.stage with
        | .idle => none
        | .header => some { s with stage := .idle, responses := s.responses ++ [none] }
        | .body _ bodyData =>
            some { s with stage := .idle, responses := s.responses ++ [some bodyData] }
      else none
  | .server call =>
      if InFlight s call then
        (s.server.step dispatch call).map fun server => { s with server }
      else none

/-! ## Two bytes are missing -/

/-- **No part of a request of the agent is a packet**: the server counts six bytes for the
header, and the agent sent four. -/
theorem next_of_isPrefix_frame {jsonData bytes part : List Byte}
    (hframe : frame jsonData = some bytes) (hpart : part <+: bytes) :
    packets.next part = none := by
  unfold frame at hframe
  split_ifs at hframe with hfits
  obtain rfl := Option.some.inj hframe
  have hle := hpart.length_le
  rw [List.length_append, length_bigEndian] at hle
  refine if_pos ?_
  by_cases hshort : part.length < PacketHeader.size
  · exact Or.inl hshort
  · refine Or.inr ?_
    unfold PacketHeader.size at hshort ⊢
    have hfour : part.take 4 = bigEndian 4 jsonData.length := by
      obtain ⟨rest, hrest⟩ := hpart
      have htake := congrArg (List.take 4) hrest
      rwa [List.take_append_of_le_length (by omega),
        List.take_left' (length_bigEndian _ _)] at htake
    have hfits' : jsonData.length < 256 ^ 4 := hfits
    have hlength : (PacketHeader.ofBytes part).length.toNat = jsonData.length := by
      show (UInt32.ofNat (ofBigEndian (part.take 4))).toNat = _
      rw [hfour, ofBigEndian_bigEndian, Nat.mod_eq_of_lt hfits', UInt32.toNat_ofNat',
        Nat.mod_eq_of_lt hfits]
    rw [hlength]
    omega

/-- A connection on which no packet is complete has dispatched nothing and sends nothing. -/
theorem quiet_of_framed {state₀ : σ} {server : Socket σ}
    (h : Socket.Framed dispatch state₀ server) (hkept : server.phase ≠ .removed)
    (hnone : ∀ part, part <+: server.received → packets.next part = none) :
    (server.dispatched = [] ∧ server.attempts = []) ∧
      ∀ processedLen packet totalSent, server.phase ≠ .sending processedLen packet totalSent := by
  have hparsed := h.parsed
  have hreplied := h.replied
  cases hphase : server.phase with
  | removed => exact absurd hphase hkept
  | reading localData =>
      rw [hphase] at hparsed
      obtain ⟨earlier, hreceived, hparse⟩ := hparsed
      have hpart : earlier <+: server.received := ⟨localData, hreceived.symm⟩
      rw [packets.parse_of_none (hnone earlier hpart)] at hparse
      have hdispatched : server.dispatched = [] := (congrArg Prod.fst hparse).symm
      rw [hdispatched, Socket.log_of_reading hphase] at hreplied
      exact ⟨⟨hdispatched, List.map_eq_nil_iff.mp hreplied⟩, fun _ _ _ => Phase.noConfusion⟩
  | sending processedLen packet totalSent =>
      rw [hphase] at hparsed
      obtain ⟨-, -, hparse⟩ := hparsed
      rw [packets.parse_of_none (hnone _ List.prefix_rfl)] at hparse
      have hdispatched : server.dispatched = [] :=
        (List.append_eq_nil_iff.mp (congrArg Prod.fst hparse).symm).1
      rw [hdispatched, Socket.log_of_sending hphase, List.map_append] at hreplied
      exact absurd (List.append_eq_nil_iff.mp hreplied).2 (List.cons_ne_nil _ _)

/-- What is known of every state: the server has dispatched nothing, and while it keeps the
connection, what it has received is part of the only request there is. -/
structure Stuck (state₀ : σ) (s : AgentLink σ) : Prop where
  framed : Socket.Framed dispatch state₀ s.server
  quiet : s.server.dispatched = [] ∧ s.server.attempts = []
  phase : ∀ processedLen packet totalSent,
    s.server.phase ≠ .sending processedLen packet totalSent
  responses : ∀ r ∈ s.responses, r = none
  stage : ∀ msgLen bodyData, s.stage ≠ .body msgLen bodyData
  first : s.server.phase ≠ .removed →
    (s.stage = .idle ∧ s.sent = [] ∧ s.requests = 0) ∨
      (s.stage = .header ∧ s.requests = 1 ∧ ∃ jsonData, frame jsonData = some s.sent)
  received : s.server.phase ≠ .removed → s.server.received <+: s.sent
  waiting : s.server.phase ≠ .removed → s.responses = []

variable {dispatch} {state₀ : σ} {s s' : AgentLink σ}

/-- Nothing was put on the connection. -/
theorem Stuck.output_eq (h : Stuck dispatch state₀ s) : s.server.output = [] := by
  have hlog : s.server.log = [] := by
    unfold Socket.log
    rw [h.quiet.2]
    cases hphase : s.server.phase with
    | sending processedLen packet totalSent => exact absurd hphase (h.phase _ _ _)
    | reading | removed => rfl
  unfold Socket.output
  rw [hlog]
  rfl

/-- No part of what was sent is a packet. -/
theorem Stuck.next_of_isPrefix (h : Stuck dispatch state₀ s) (hkept : s.server.phase ≠ .removed)
    {part : List Byte} (hpart : part <+: s.sent) : packets.next part = none := by
  rcases h.first hkept with ⟨-, hsent, -⟩ | ⟨-, -, jsonData, hframe⟩
  · rw [hsent, List.prefix_nil] at hpart
    rw [hpart]
    exact packets_next_nil
  · exact next_of_isPrefix_frame hframe hpart

/-- **The server waits for the rest**, whatever it does next. -/
theorem Stuck.server_step (h : Stuck dispatch state₀ s) {call : Syscall} {server : Socket σ}
    (hflight : InFlight s call) (hstep : s.server.step dispatch call = some server) :
    Stuck dispatch state₀ { s with server } := by
  have hframed := h.framed.step hstep
  cases Socket.step_spec dispatch hstep with
  | @read localData bs hphase hpos =>
      have hkept : s.server.phase ≠ .removed := by
        rw [hphase]
        exact Phase.noConfusion
      exact ⟨hframed, h.quiet, fun _ _ _ => Phase.noConfusion, h.responses, h.stage,
        fun _ => h.first hkept, fun _ => hflight, fun _ => h.waiting hkept⟩
  | interrupted | idle =>
      exact ⟨hframed, h.quiet, h.phase, h.responses, h.stage, h.first, h.received, h.waiting⟩
  | @serve localData hphase =>
      have hkept : s.server.phase ≠ .removed := by
        rw [hphase]
        exact Phase.noConfusion
      have hkept' : ({ s.server with buffer := s.server.buffer ++ localData }.resume
          dispatch 0).phase ≠ .removed := by
        unfold Socket.resume
        dsimp only
        split <;> exact Phase.noConfusion
      obtain ⟨hquiet, hphase'⟩ := quiet_of_framed dispatch hframed hkept' fun part hpart =>
        h.next_of_isPrefix hkept (hpart.trans (h.received hkept))
      exact ⟨hframed, hquiet, hphase', h.responses, h.stage, fun _ => h.first hkept,
        fun _ => h.received hkept, fun _ => h.waiting hkept⟩
  | @remove localData r hphase hr =>
      exact ⟨hframed, h.quiet, fun _ _ _ => Phase.noConfusion, h.responses, h.stage,
        fun hkept => absurd rfl hkept, fun hkept => absurd rfl hkept,
        fun hkept => absurd rfl hkept⟩
  | part hphase => exact absurd hphase (h.phase _ _ _)
  | whole hphase => exact absurd hphase (h.phase _ _ _)
  | again hphase => exact absurd hphase (h.phase _ _ _)
  | giveUp hphase => exact absurd hphase (h.phase _ _ _)

/-- **One step** of either. -/
theorem Stuck.step (h : Stuck dispatch state₀ s) {a : Action}
    (hstep : Agent.step dispatch s a = some s') : Stuck dispatch state₀ s' := by
  cases a with
  | server call =>
      simp only [Agent.step] at hstep
      split_ifs at hstep with hflight
      obtain ⟨server, hserver, rfl⟩ := Option.map_eq_some_iff.mp hstep
      exact h.server_step hflight hserver
  | sendRequest jsonData =>
      simp only [Agent.step] at hstep
      split at hstep
      case h_2 => cases hstep
      case h_1 hidle =>
        obtain ⟨bytes, hframe, rfl⟩ := Option.map_eq_some_iff.mp hstep
        refine ⟨h.framed, h.quiet, h.phase, h.responses, fun _ _ => Stage.noConfusion,
          fun hkept => ?_, fun hkept => ?_, h.waiting⟩
        · rcases h.first hkept with ⟨-, hsent, hrequests⟩ | ⟨hheader, -⟩
          · refine Or.inr ⟨rfl, congrArg (· + 1) hrequests, jsonData, ?_⟩
            rw [hsent]
            exact hframe
          · rw [hidle] at hheader
            cases hheader
        · exact (h.received hkept).trans (List.prefix_append _ _)
  | recv count =>
      -- There is nothing to read.
      simp only [Agent.step] at hstep
      have hnothing : ¬ Arrived s count := by
        unfold Arrived
        rw [h.output_eq, List.length_nil]
        omega
      rw [if_neg hnothing] at hstep
      cases hstep
  | eof =>
      simp only [Agent.step] at hstep
      split_ifs at hstep with hend
      have hgone : ∀ {p : Prop}, s.server.phase ≠ .removed → p := fun hkept =>
        absurd hend.1 hkept
      split at hstep
      case h_1 => cases hstep
      case h_2 hheader =>
        obtain rfl := Option.some.inj hstep
        refine ⟨h.framed, h.quiet, h.phase, fun r hr => ?_, fun _ _ => Stage.noConfusion,
          fun hkept => hgone hkept, fun hkept => hgone hkept, fun hkept => hgone hkept⟩
        rcases List.mem_append.mp hr with hold | hnew
        · exact h.responses r hold
        · exact List.mem_singleton.mp hnew
      case h_3 msgLen bodyData hbody => exact absurd hbody (h.stage _ _)

theorem Stuck.start (state₀ : σ) : Stuck dispatch state₀ (Agent.start state₀) where
  framed := Socket.framed_new dispatch state₀
  quiet := ⟨rfl, rfl⟩
  phase _ _ _ := Phase.noConfusion
  responses r hr := by cases hr
  stage _ _ := Stage.noConfusion
  first _ := Or.inl ⟨rfl, rfl, rfl⟩
  received _ := List.prefix_rfl
  waiting _ := rfl

end Agent

open Agent

/-- **The server never answers the agent.**  Whatever requests the agent makes, and however
the streams are cut and the threads take turns: the server dispatches nothing and puts
nothing on the connection, the agent sends one request and waits, and all that
`receive_response` ever returns is `None`, when the server has closed the connection. -/
theorem agent_never_answered {σ : Type} (dispatch : Dispatch σ) (state : σ)
    (actions : List Action) (s : AgentLink σ)
    (hrun : runs (Agent.step dispatch) (Agent.start state) actions = some s) :
    s.server.dispatched = [] ∧ s.server.output = [] ∧ (∀ r ∈ s.responses, r = none) ∧
      (s.server.phase ≠ .removed → s.requests ≤ 1 ∧ s.responses = []) := by
  have hstuck : Stuck dispatch state s :=
    runs_induction (fun _ _ _ h hstep => h.step hstep) actions (Stuck.start state) hrun
  refine ⟨hstuck.quiet.1, hstuck.output_eq, hstuck.responses, fun hkept => ?_⟩
  refine ⟨?_, hstuck.waiting hkept⟩
  rcases hstuck.first hkept with ⟨-, -, hrequests⟩ | ⟨-, hrequests, -⟩
  · omega
  · omega

/-- A handler that replies with a byte to everything. -/
def replyToAll : Dispatch Unit := fun _ _ => ((), .ok [1])

/-- An empty object is sent and arrives in two parts. -/
def objectActions : List Action :=
  [.sendRequest [123, 125], .server (.recv (.bytes [0, 0, 0])),
    .server (.recv (.bytes [2, 123, 125]))]

def objectEnd : AgentLink Unit :=
  runsTo (Agent.step replyToAll) (Agent.start ()) objectActions

theorem agent_never_answered_object :
    objectEnd.requests = 1 ∧ objectEnd.server.received = objectEnd.sent ∧
      objectEnd.server.output = [] := by
  have hend := agent_never_answered replyToAll () objectActions objectEnd
    (runs_eq_runsTo _ (by decide))
  exact ⟨by decide, by decide, hend.2.1⟩

end ExchangeServer
