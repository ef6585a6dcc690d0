import ExchangeServer.Protocol

/-!
# Requests on a connection

`MyEchoBusiness` in `main.cpp`, which is called when a connection has data: it reads
what has arrived, appends it to the buffer of the session, dispatches the packets
that are complete and keeps the rest for the next call.  The handlers are a
parameter: whatever they reply, or throw, is of no importance to the framing.

`framing_of_segments` says that it is of no importance either how TCP cut the
stream and how the pieces fell into calls.
-/

namespace ExchangeServer

open Lib

/-- What a handler does with a request: a reply, which may be empty, or an
exception.  `σ` is all it reads and writes. -/
abbrev Dispatch (σ : Type*) := σ → Request → σ × Except String (List Byte)

/-- A connection: the bytes that were not dispatched yet, and what the handlers
see. -/
structure Connection (σ : Type*) where
  buffer : List Byte
  state : σ

/-- What was done with some bytes: how many of them were used up, the requests that
were dispatched and the packets that were sent. -/
structure Served (σ : Type*) where
  state : σ
  processedLen : ℕ
  dispatched : List Request
  sent : List (List Byte)

section Server

variable {σ : Type*} (dispatch : Dispatch σ)

/-- The reply, which stays empty when the handler throws. -/
def replyOf : Except String (List Byte) → List Byte
  | .ok reply => reply
  | .error _ => []

/-- The packet of a reply, unless it is empty. -/
def respond (type : UInt16) (reply : List Byte) : List (List Byte) :=
  if reply = [] then [] else [packet (type + 1) reply]

/-- The framing loop, from `processed_len` on.  The subtractions are of `size_t`, and
`processed_len` never exceeds the size of the buffer. -/
def frameLoop (buffer : List Byte) (processedLen : ℕ) (state : σ) : Served σ :=
  if buffer.length - processedLen < PacketHeader.size then ⟨state, processedLen, [], []⟩
  else
    let header := PacketHeader.ofBytes (buffer.drop processedLen)
    if buffer.length - processedLen < PacketHeader.size + header.length.toNat then
      ⟨state, processedLen, [], []⟩
    else
      let req : Request :=
        ⟨header.type,
          (buffer.drop (processedLen + PacketHeader.size)).take header.length.toNat,
          header.length⟩
      let out := dispatch state req
      let later := frameLoop buffer
        (processedLen + (PacketHeader.size + header.length.toNat)) out.1
      { state := later.state
        processedLen := later.processedLen
        dispatched := req :: later.dispatched
        sent := respond header.type (replyOf out.2) ++ later.sent }
termination_by buffer.length - processedLen
decreasing_by
  unfold PacketHeader.size at *
  omega

/-- `MyEchoBusiness`: the connection after a call that received `chunks`, the requests
it dispatched and the packets it sent. -/
def myEchoBusiness (conn : Connection σ) (chunks : List (List Byte)) :
    Connection σ × List Request × List (List Byte) :=
  let localData := chunks.flatten
  if localData = [] then (conn, [], [])
  else
    let buffer := conn.buffer ++ localData
    let out := frameLoop dispatch buffer 0 conn.state
    (⟨buffer.drop out.processedLen, out.state⟩, out.dispatched, out.sent)

/-- One call after the other. -/
def serve : Connection σ → List (List (List Byte)) →
    Connection σ × List Request × List (List Byte)
  | conn, [] => (conn, [], [])
  | conn, chunks :: calls =>
      let out := myEchoBusiness dispatch conn chunks
      let later := serve out.1 calls
      (later.1, out.2.1 ++ later.2.1, out.2.2 ++ later.2.2)

/-! ## The loop parses -/

theorem packets_next_nil : packets.next [] = none := rfl

section Checks

variable {buffer : List Byte} {processedLen : ℕ}

/-- Too short for a header. -/
theorem next_drop_of_short (hshort : buffer.length - processedLen < PacketHeader.size) :
    packets.next (buffer.drop processedLen) = none := by
  refine if_pos (Or.inl ?_)
  rw [List.length_drop]
  exact hshort

/-- Too short for the body. -/
theorem next_drop_of_part (hpart : buffer.length - processedLen
      < PacketHeader.size + (PacketHeader.ofBytes (buffer.drop processedLen)).length.toNat) :
    packets.next (buffer.drop processedLen) = none := by
  refine if_pos (Or.inr ?_)
  rw [List.length_drop]
  exact hpart

/-- A packet that has arrived. -/
theorem next_drop_of_full (hshort : ¬ buffer.length - processedLen < PacketHeader.size)
    (hpart : ¬ buffer.length - processedLen
      < PacketHeader.size + (PacketHeader.ofBytes (buffer.drop processedLen)).length.toNat) :
    packets.next (buffer.drop processedLen)
      = some (⟨(PacketHeader.ofBytes (buffer.drop processedLen)).type,
          (buffer.drop (processedLen + PacketHeader.size)).take
            (PacketHeader.ofBytes (buffer.drop processedLen)).length.toNat,
          (PacketHeader.ofBytes (buffer.drop processedLen)).length⟩,
        PacketHeader.size + (PacketHeader.ofBytes (buffer.drop processedLen)).length.toNat) := by
  refine (if_neg ?_).trans ?_
  · rw [List.length_drop]
    exact not_or.mpr ⟨hshort, hpart⟩
  · rw [List.drop_drop]

end Checks

/-- **The loop dispatches what the format finds**, and stops at the incomplete
rest. -/
theorem frameLoop_spec (buffer : List Byte) (processedLen : ℕ) (state : σ)
    (hle : processedLen ≤ buffer.length) :
    let out := frameLoop dispatch buffer processedLen state
    out.dispatched = (packets.parse (buffer.drop processedLen)).1 ∧
      buffer.drop out.processedLen = (packets.parse (buffer.drop processedLen)).2 := by
  fun_induction frameLoop dispatch buffer processedLen state with
  | case1 processedLen state hshort =>
      rw [packets.parse_of_none (next_drop_of_short hshort)]
      exact ⟨rfl, rfl⟩
  | case2 processedLen state hshort header hpart =>
      rw [packets.parse_of_none (next_drop_of_part hpart)]
      exact ⟨rfl, rfl⟩
  | case3 processedLen state hshort header hpart req out later ih =>
      obtain ⟨hdispatched, hrest⟩ := ih (by omega)
      rw [← List.drop_drop] at hdispatched hrest
      rw [packets.parse_of_some (next_drop_of_full hshort hpart)]
      exact ⟨congrArg (req :: ·) hdispatched, hrest⟩

/-- **A call parses what it was left with and what it received.** -/
theorem myEchoBusiness_spec (conn : Connection σ) (chunks : List (List Byte))
    (hrest : packets.next conn.buffer = none) :
    let out := myEchoBusiness dispatch conn chunks
    out.2.1 = (packets.parse (conn.buffer ++ chunks.flatten)).1 ∧
      out.1.buffer = (packets.parse (conn.buffer ++ chunks.flatten)).2 := by
  unfold myEchoBusiness
  dsimp only
  split_ifs with hempty
  · rw [hempty, List.append_nil, packets.parse_of_none hrest]
    exact ⟨rfl, rfl⟩
  · exact frameLoop_spec dispatch (conn.buffer ++ chunks.flatten) 0 conn.state (Nat.zero_le _)

/-- **So do all calls together.** -/
theorem serve_spec (conn : Connection σ) (calls : List (List (List Byte)))
    (hrest : packets.next conn.buffer = none) :
    let out := serve dispatch conn calls
    out.2.1 = (packets.parse (conn.buffer ++ calls.flatten.flatten)).1 ∧
      out.1.buffer = (packets.parse (conn.buffer ++ calls.flatten.flatten)).2 := by
  induction calls generalizing conn with
  | nil =>
      have hparse : packets.parse (conn.buffer ++ []) = ([], conn.buffer) := by
        rw [List.append_nil]
        exact packets.parse_of_none hrest
      exact ⟨(congrArg Prod.fst hparse).symm, (congrArg Prod.snd hparse).symm⟩
  | cons chunks calls ih =>
      obtain ⟨hdispatched, hbuffer⟩ := myEchoBusiness_spec dispatch conn chunks hrest
      have hrest' : packets.next (myEchoBusiness dispatch conn chunks).1.buffer = none := by
        rw [hbuffer]
        exact packets.next_parse _
      obtain ⟨hlater, hkept⟩ := ih (myEchoBusiness dispatch conn chunks).1 hrest'
      have hcut := packets.parse_append (conn.buffer ++ chunks.flatten) calls.flatten.flatten
      rw [List.flatten_cons, List.flatten_append, ← List.append_assoc, hcut, ← hbuffer,
        ← hdispatched]
      exact ⟨congrArg _ hlater, hkept⟩

/-- Every payload that the format finds is as long as its header says. -/
theorem payload_length_of_mem_parse {bs : List Byte} {req : Request}
    (h : req ∈ (packets.parse bs).1) : req.payload.length = req.length.toNat := by
  induction bs using packets.parse_induction with
  | hnone bs hnone =>
      rw [packets.parse_of_none hnone] at h
      cases h
  | hsome bs req' n hsome ih =>
      rw [packets.parse_of_some hsome] at h
      rcases List.mem_cons.mp h with rfl | h
      · obtain ⟨-, hn, hle, hreq⟩ := nextPacket_eq_some hsome
        have hlength : req.length = (PacketHeader.ofBytes bs).length :=
          congrArg Request.length hreq
        have hpayload : req.payload
            = (bs.drop PacketHeader.size).take (PacketHeader.ofBytes bs).length.toNat :=
          congrArg Request.payload hreq
        rw [hpayload, List.length_take, List.length_drop, hlength]
        rw [hlength] at hn
        omega
      · exact ih h

/-! ## Replies -/

/-- The replies to some requests that are not empty, each with the type of its
request. -/
def replies : σ → List Request → List (UInt16 × List Byte)
  | _, [] => []
  | state, req :: reqs =>
      let out := dispatch state req
      (if replyOf out.2 = [] then [] else [(req.type, replyOf out.2)]) ++ replies out.1 reqs

/-- What the handlers see after some requests. -/
def stateAfter (state : σ) (reqs : List Request) : σ :=
  reqs.foldl (fun state req => (dispatch state req).1) state

theorem stateAfter_append (state : σ) (reqs reqs' : List Request) :
    stateAfter dispatch state (reqs ++ reqs')
      = stateAfter dispatch (stateAfter dispatch state reqs) reqs' :=
  List.foldl_append

theorem replies_append (state : σ) (reqs reqs' : List Request) :
    replies dispatch state (reqs ++ reqs')
      = replies dispatch state reqs ++ replies dispatch (stateAfter dispatch state reqs) reqs' := by
  induction reqs generalizing state with
  | nil => rfl
  | cons req reqs ih =>
      simp only [List.cons_append, replies, ih, List.append_assoc]
      rfl

/-- The packet of a reply. -/
def replyPacket (reply : UInt16 × List Byte) : List Byte :=
  packet (reply.1 + 1) reply.2

theorem respond_eq (req : Request) (reply : List Byte) :
    respond req.type reply
      = (if reply = [] then [] else [(req.type, reply)]).map replyPacket := by
  unfold respond
  split_ifs <;> rfl

/-- The loop sends the packets of the replies. -/
theorem frameLoop_sent (buffer : List Byte) (processedLen : ℕ) (state : σ) :
    let out := frameLoop dispatch buffer processedLen state
    out.sent = (replies dispatch state out.dispatched).map replyPacket ∧
      out.state = stateAfter dispatch state out.dispatched := by
  fun_induction frameLoop dispatch buffer processedLen state with
  | case1 processedLen state hshort => exact ⟨rfl, rfl⟩
  | case2 processedLen state hshort header hpart => exact ⟨rfl, rfl⟩
  | case3 processedLen state hshort header hpart req out later ih =>
      obtain ⟨hsent, hstate⟩ := ih
      refine ⟨?_, hstate⟩
      rw [replies, List.map_append, ← respond_eq]
      exact congrArg _ hsent

/-- **What is sent on a connection is the packets of the replies**, in order. -/
theorem serve_sent (conn : Connection σ) (calls : List (List (List Byte))) :
    let out := serve dispatch conn calls
    out.2.2 = (replies dispatch conn.state out.2.1).map replyPacket ∧
      out.1.state = stateAfter dispatch conn.state out.2.1 := by
  induction calls generalizing conn with
  | nil => exact ⟨rfl, rfl⟩
  | cons chunks calls ih =>
      have hcall : (myEchoBusiness dispatch conn chunks).2.2
            = (replies dispatch conn.state (myEchoBusiness dispatch conn chunks).2.1).map
              replyPacket ∧
          (myEchoBusiness dispatch conn chunks).1.state
            = stateAfter dispatch conn.state (myEchoBusiness dispatch conn chunks).2.1 := by
        unfold myEchoBusiness
        dsimp only
        split_ifs
        · exact ⟨rfl, rfl⟩
        · exact frameLoop_sent dispatch _ 0 conn.state
      obtain ⟨hsent, hstate⟩ := hcall
      obtain ⟨hlater, hlast⟩ := ih (myEchoBusiness dispatch conn chunks).1
      simp only [serve]
      refine ⟨?_, ?_⟩
      · rw [replies_append, List.map_append, ← hstate, ← hsent, hlater]
      · rw [hlast, hstate, stateAfter_append]

end Server

end ExchangeServer
