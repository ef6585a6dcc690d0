import ExchangeServer.EchoBusiness
import ExchangeServer.QueryReplies

/-!
# The client and the server

The packet functions of `client.cpp`, against the server's framing.  The client does
not share code with the server: it has its own copy of the structures, and its own
idea of what lengths are legal.

* `framing_of_segments` — what the server makes of a stream of requests depends on
  its bytes alone.
* `replies_decoded_iff` — the client reads back the replies of the server, for every
  segmentation, exactly when none of them is longer than 1 MiB.
-/

namespace ExchangeServer

open Lib

namespace Client

/-- `send_pkt`: what it sends.  Its buffer has room for 1018 bytes of payload. -/
def sendPkt (type : UInt16) (data : List Byte) : List Byte :=
  packet type data

end Client

/-! ## Requests -/

/-- The bytes of some requests as the client sends them. -/
def requestBytes (reqs : List (UInt16 × List Byte)) : List Byte :=
  reqs.flatMap fun r => Client.sendPkt r.1 r.2

/-- **Request framing is independent of TCP segmentation.**  For any bytes, cut into
chunks and calls in any way, and any handlers: what is dispatched and what is kept
depend on the bytes alone, and every payload has the length its header announces.
If the bytes are a part of a stream of encoded requests, the requests that have
arrived completely have been dispatched, in order, and the beginning of the next one
is kept. -/
theorem framing_of_segments {σ : Type} (dispatch : Dispatch σ) (state : σ)
    (calls : List (List (List Byte))) :
    (∀ (σ' : Type) (dispatch' : Dispatch σ') (state' : σ') (calls' : List (List (List Byte))),
      calls'.flatten.flatten = calls.flatten.flatten →
        (serve dispatch' ⟨[], state'⟩ calls').2.1 = (serve dispatch ⟨[], state⟩ calls).2.1 ∧
        (serve dispatch' ⟨[], state'⟩ calls').1.buffer
          = (serve dispatch ⟨[], state⟩ calls).1.buffer) ∧
    (∀ req ∈ (serve dispatch ⟨[], state⟩ calls).2.1, req.payload.length = req.length.toNat) ∧
    (∀ reqs : List (UInt16 × List Byte), (∀ r ∈ reqs, r.2.length ≤ 1018) →
      calls.flatten.flatten <+: requestBytes reqs →
      ∃ k, (serve dispatch ⟨[], state⟩ calls).2.1
          = (reqs.take k).map (fun r => Request.ofBody r.1 r.2) ∧
        calls.flatten.flatten
          = requestBytes (reqs.take k) ++ (serve dispatch ⟨[], state⟩ calls).1.buffer ∧
        ∀ r, reqs[k]? = some r →
          (serve dispatch ⟨[], state⟩ calls).1.buffer <+: Client.sendPkt r.1 r.2 ∧
          (serve dispatch ⟨[], state⟩ calls).1.buffer.length
            < (Client.sendPkt r.1 r.2).length) := by
  obtain ⟨hdispatched, hbuffer⟩ := serve_spec dispatch ⟨[], state⟩ calls packets_next_nil
  refine ⟨?_, ?_, ?_⟩
  · intro σ' dispatch' state' calls' hbytes
    obtain ⟨hdispatched', hbuffer'⟩ :=
      serve_spec dispatch' ⟨[], state'⟩ calls' packets_next_nil
    rw [hdispatched, hbuffer, hdispatched', hbuffer']
    show (packets.parse calls'.flatten.flatten).1 = (packets.parse calls.flatten.flatten).1 ∧
      (packets.parse calls'.flatten.flatten).2 = (packets.parse calls.flatten.flatten).2
    rw [hbytes]
    exact ⟨rfl, rfl⟩
  · intro req hreq
    rw [hdispatched] at hreq
    exact payload_length_of_mem_parse hreq
  · intro reqs hshort hpart
    -- The requests as the frames that the format finds.
    have hencodes : ∀ req ∈ reqs.map (fun r => Request.ofBody r.1 r.2),
        packets.Encodes (fun req => Client.sendPkt req.type req.payload) req := by
      intro req hreq
      obtain ⟨r, hr, rfl⟩ := List.mem_map.mp hreq
      have hlen : r.2.length < 2 ^ 32 := Nat.lt_of_le_of_lt (hshort r hr) (by decide)
      exact packets_next_packet r.1 hlen
    have hpart' : calls.flatten.flatten <+: (reqs.map fun r => Request.ofBody r.1 r.2).flatMap
        fun req => Client.sendPkt req.type req.payload := by
      rw [List.flatMap_map]
      exact hpart
    obtain ⟨k, rest, hparse, hbytes, hnext⟩ := FrameFormat.parse_of_isPrefix hencodes hpart'
    have hrest : (serve dispatch ⟨[], state⟩ calls).1.buffer = rest :=
      hbuffer.trans (congrArg Prod.snd hparse)
    refine ⟨k, ?_, ?_, ?_⟩
    · rw [hdispatched]
      refine (congrArg Prod.fst hparse).trans ?_
      rw [List.map_take]
    · rw [hrest]
      refine hbytes.trans ?_
      rw [← List.map_take, List.flatMap_map]
      rfl
    · intro r hr
      rw [hrest]
      refine hnext (Request.ofBody r.1 r.2) ?_
      rw [List.getElem?_map, hr]
      rfl

/-- Two requests, the second of which has not arrived completely, in three chunks and
two calls. -/
theorem framing_of_segments_sample :
    ∃ k, (serve (fun (_ : Unit) _ => ((), .error "")) ⟨[], ()⟩
        [[[0, 0], [0, 1, 0x0f, 0xa3, 7, 0]], [[0, 0]]]).2.1
      = ([(4003, [7]), (4011, [])].take k).map fun r => Request.ofBody r.1 r.2 := by
  obtain ⟨k, hk, -⟩ := (framing_of_segments (fun (_ : Unit) _ => ((), .error "")) ()
    [[[0, 0], [0, 1, 0x0f, 0xa3, 7, 0]], [[0, 0]]]).2.2 [(4003, [7]), (4011, [])]
    (by decide) (by decide)
  exact ⟨k, hk⟩

/-! ## Replies -/

namespace Client

/-- A stream of bytes, cut into the segments that `recv` hands out. -/
abbrev Segments := List (List Byte)

/-- `recv` of at most `n` bytes: from the first segment that is not empty.  A stream
that has ended gives nothing. -/
def recv (n : ℕ) : Segments → Option (List Byte × Segments)
  | [] => none
  | [] :: segs => recv n segs
  | seg :: segs => some (seg.take n, seg.drop n :: segs)

/-- `recv_all`: as many `recv` as it takes. -/
def recvAll (n : ℕ) (segs : Segments) : Option (List Byte × Segments) :=
  if n = 0 then some ([], segs)
  else
    match recv n segs with
    | none => none
    | some (chunk, segs') =>
        if chunk.length = 0 then none
        else (recvAll (n - chunk.length) segs').map fun out => (chunk ++ out.1, out.2)
termination_by n

/-- The longest body `recv_pkt` accepts, `1024 * 1024`. -/
def maxBody : ℕ := 1048576

/-- `recv_pkt`: the type and the body of the next packet. -/
def recvPkt (segs : Segments) : Option ((UInt16 × List Byte) × Segments) :=
  (recvAll PacketHeader.size segs).bind fun out =>
    let header := PacketHeader.ofBytes out.1
    if header.length.toNat > maxBody then none
    else if header.length.toNat > 0 then
      (recvAll header.length.toNat out.2).map fun body => ((header.type, body.1), body.2)
    else some ((header.type, []), out.2)

/-- `n` packets. -/
def recvPkts : ℕ → Segments → Option (List (UInt16 × List Byte) × Segments)
  | 0, segs => some ([], segs)
  | n + 1, segs =>
      (recvPkt segs).bind fun out =>
        (recvPkts n out.2).map fun later => (out.1 :: later.1, later.2)

/-- A `recv` hands out some of the bytes, if there are any. -/
theorem recv_spec {n : ℕ} (hn : 0 < n) {segs : Segments} (h : 0 < segs.flatten.length) :
    ∃ chunk segs', recv n segs = some (chunk, segs') ∧ 0 < chunk.length ∧ chunk.length ≤ n ∧
      segs.flatten = chunk ++ segs'.flatten := by
  induction segs with
  | nil => cases h
  | cons seg segs ih =>
      cases seg with
      | nil => exact ih h
      | cons b seg =>
          refine ⟨(b :: seg).take n, (b :: seg).drop n :: segs, rfl, ?_, ?_, ?_⟩
          · rw [List.length_take, List.length_cons]
            omega
          · exact List.length_take_le _ _
          · rw [List.flatten_cons, List.flatten_cons, ← List.append_assoc, List.take_append_drop]

theorem length_recv {n : ℕ} {segs segs' : Segments} {chunk : List Byte}
    (h : recv n segs = some (chunk, segs')) : chunk.length ≤ n := by
  induction segs with
  | nil => cases h
  | cons seg segs ih =>
      cases seg with
      | nil => exact ih h
      | cons b seg =>
          rw [← (Prod.mk.inj (Option.some.inj h)).1]
          exact List.length_take_le _ _

/-- **`recv_all` does not see the segments.** -/
theorem recvAll_spec (n : ℕ) (segs : Segments) (h : n ≤ segs.flatten.length) :
    ∃ segs', recvAll n segs = some (segs.flatten.take n, segs') ∧
      segs'.flatten = segs.flatten.drop n := by
  induction n using Nat.strongRecOn generalizing segs with
  | ind n ih =>
      rw [recvAll]
      by_cases hn : n = 0
      · subst hn
        exact ⟨segs, rfl, rfl⟩
      · have hsome : 0 < segs.flatten.length := by omega
        obtain ⟨chunk, rest, hrecv, hpos, hle, hbytes⟩ :=
          recv_spec (Nat.pos_of_ne_zero hn) hsome
        have hlength : segs.flatten.length = chunk.length + rest.flatten.length := by
          rw [hbytes, List.length_append]
        obtain ⟨segs', hlater, hkept⟩ := ih (n - chunk.length) (by omega) rest (by omega)
        refine ⟨segs', ?_, ?_⟩
        · rw [if_neg hn, hrecv]
          dsimp only
          rw [if_neg (Nat.ne_of_gt hpos), hlater, hbytes, List.take_append,
            List.take_of_length_le hle]
          rfl
        · rw [hkept, hbytes, List.drop_append, List.drop_of_length_le hle, List.nil_append]

/-- What `recv_all` hands out has the length that was asked for. -/
theorem length_recvAll {n : ℕ} {segs segs' : Segments} {bs : List Byte}
    (h : recvAll n segs = some (bs, segs')) : bs.length = n := by
  induction n using Nat.strongRecOn generalizing segs segs' bs with
  | ind n ih =>
      rw [recvAll] at h
      split_ifs at h with hn
      · rw [hn, ← (Prod.mk.inj (Option.some.inj h)).1]
        rfl
      split at h
      case h_1 => cases h
      case h_2 chunk rest hrecv =>
        split_ifs at h with hempty
        obtain ⟨⟨later, segs''⟩, hout, heq⟩ := Option.map_eq_some_iff.mp h
        have hlater := ih (n - chunk.length) (by omega) hout
        have hle : chunk.length ≤ n := length_recv hrecv
        rw [← (Prod.mk.inj heq).1, List.length_append, hlater]
        omega

/-- A packet with a body that is not too long is read back. -/
theorem recvPkt_packet {segs : Segments} {type : UInt16} {body rest : List Byte}
    (hbytes : segs.flatten = packet type body ++ rest) (hle : body.length ≤ maxBody) :
    ∃ segs', recvPkt segs = some ((type, body), segs') ∧ segs'.flatten = rest := by
  have hfits : (UInt32.ofNat body.length).toNat = body.length := by
    rw [UInt32.toNat_ofNat', Nat.mod_eq_of_lt (Nat.lt_of_le_of_lt hle (by decide))]
  have hstream : segs.flatten
      = PacketHeader.bytes ⟨UInt32.ofNat body.length, type⟩ ++ (body ++ rest) := by
    rw [hbytes, packet, List.append_assoc]
  obtain ⟨segs₁, hheader, hafter⟩ := recvAll_spec PacketHeader.size segs (by
    rw [hstream, List.length_append, PacketHeader.length_bytes]
    omega)
  rw [hstream, List.take_left' (PacketHeader.length_bytes _)] at hheader
  rw [hstream, List.drop_left' (PacketHeader.length_bytes _)] at hafter
  have hread : PacketHeader.ofBytes (PacketHeader.bytes ⟨UInt32.ofNat body.length, type⟩)
      = ⟨UInt32.ofNat body.length, type⟩ := by
    have h := PacketHeader.ofBytes_bytes ⟨UInt32.ofNat body.length, type⟩ []
    rwa [List.append_nil] at h
  unfold recvPkt
  rw [hheader, Option.bind_some]
  dsimp only
  rw [hread]
  dsimp only
  rw [hfits, if_neg (Nat.not_lt.mpr hle)]
  split_ifs with hpos
  · obtain ⟨segs', hbody, hrest⟩ := recvAll_spec body.length segs₁ (by
      rw [hafter, List.length_append]
      omega)
    rw [hafter, List.take_left] at hbody
    rw [hafter, List.drop_left] at hrest
    refine ⟨segs', ?_, hrest⟩
    rw [hbody]
    rfl
  · have hempty : body = [] := List.eq_nil_of_length_eq_zero (by omega)
    subst hempty
    exact ⟨segs₁, rfl, hafter⟩

/-- No body that is read is too long. -/
theorem length_body_recvPkt {segs segs' : Segments} {type : UInt16} {body : List Byte}
    (h : recvPkt segs = some ((type, body), segs')) : body.length ≤ maxBody := by
  unfold recvPkt at h
  obtain ⟨out, -, h⟩ := Option.bind_eq_some_iff.mp h
  dsimp only at h
  split_ifs at h with hlong hpos
  · obtain ⟨got, hgot, heq⟩ := Option.map_eq_some_iff.mp h
    have hlength := length_recvAll hgot
    rw [← (Prod.mk.inj (Prod.mk.inj heq).1).2, hlength]
    exact Nat.le_of_not_lt hlong
  · rw [← (Prod.mk.inj (Prod.mk.inj (Option.some.inj h)).1).2]
    exact Nat.zero_le _

/-- **Packets are read back exactly when no body is too long.** -/
theorem recvPkts_iff (packs : List (UInt16 × List Byte)) (segs : Segments)
    (hbytes : segs.flatten = packs.flatMap fun r => packet r.1 r.2) :
    (∃ segs', recvPkts packs.length segs = some (packs, segs') ∧ segs'.flatten = []) ↔
      ∀ r ∈ packs, r.2.length ≤ maxBody := by
  induction packs generalizing segs with
  | nil =>
      refine ⟨fun _ r hr => ?_, fun _ => ⟨segs, rfl, hbytes⟩⟩
      cases hr
  | cons r packs ih =>
      rw [List.flatMap_cons] at hbytes
      constructor
      · rintro ⟨segs', hrecv, hend⟩
        obtain ⟨⟨got, segs₁⟩, hfirst, hlater⟩ := Option.bind_eq_some_iff.mp hrecv
        obtain ⟨⟨later, segs₂⟩, hrest, heq⟩ := Option.map_eq_some_iff.mp hlater
        obtain ⟨hcons, rfl⟩ := Prod.mk.inj heq
        obtain ⟨rfl, rfl⟩ := List.cons.inj hcons
        have hle : got.2.length ≤ maxBody := length_body_recvPkt hfirst
        obtain ⟨segs₁', hfirst', hbytes'⟩ := recvPkt_packet hbytes hle
        obtain ⟨-, rfl⟩ := Prod.mk.inj (Option.some.inj (hfirst.symm.trans hfirst'))
        exact List.forall_mem_cons.mpr ⟨hle, (ih segs₁ hbytes').mp ⟨_, hrest, hend⟩⟩
      · intro hle
        obtain ⟨hfirst, hothers⟩ := List.forall_mem_cons.mp hle
        obtain ⟨segs₁, hrecv, hbytes'⟩ := recvPkt_packet hbytes hfirst
        obtain ⟨segs', hlater, hend⟩ := (ih segs₁ hbytes').mpr hothers
        refine ⟨segs', ?_, hend⟩
        show (recvPkt segs).bind _ = _
        rw [hrecv, Option.bind_some, hlater]
        rfl

end Client

/-- **The client decodes the replies of the server exactly when none is longer than
1 MiB**, for every segmentation of the stream of packets that a connection sends.
The longest lists that fit are 36157 orders, 131071 holdings and 52428 stocks; a
trend always does. -/
theorem replies_decoded_iff {σ : Type} (dispatch : Dispatch σ) (conn : Connection σ)
    (calls : List (List (List Byte))) (segs : Client.Segments)
    (hsegs : segs.flatten = (serve dispatch conn calls).2.2.flatten) :
    ((∃ segs', Client.recvPkts
        (replies dispatch conn.state (serve dispatch conn calls).2.1).length segs
        = some ((replies dispatch conn.state (serve dispatch conn calls).2.1).map
          fun r => (r.1 + 1, r.2), segs') ∧ segs'.flatten = []) ↔
      ∀ r ∈ replies dispatch conn.state (serve dispatch conn calls).2.1,
        r.2.length ≤ 1048576) ∧
    (∀ activeOrders, (ordersReply activeOrders).length ≤ 1048576 ↔
      activeOrders.length ≤ 36157) ∧
    (∀ holdings : List (UInt32 × Int32), (holdingsReply holdings).length ≤ 1048576 ↔
      (holdings.filter fun holding => 0 < holding.2).length ≤ 131071) ∧
    (∀ stocks, (stocksReply stocks).length ≤ 1048576 ↔ stocks.length ≤ 52428) ∧
    ∀ prices, prices.length ≤ 10 → (trendReply prices).length ≤ 1048576 := by
  refine ⟨?_, fun activeOrders => ?_, fun holdings => ?_, fun stocks => ?_, fun prices hten => ?_⟩
  · have hsent := (serve_sent dispatch conn calls).1
    have hbytes : segs.flatten
        = ((replies dispatch conn.state (serve dispatch conn calls).2.1).map
          fun r => (r.1 + 1, r.2)).flatMap fun r => packet r.1 r.2 := by
      rw [hsegs, hsent, List.flatMap_map]
      rfl
    have hiff := Client.recvPkts_iff _ segs hbytes
    rw [List.length_map] at hiff
    rw [hiff, List.forall_mem_map]
    rfl
  · rw [length_ordersReply]
    omega
  · rw [length_holdingsReply]
    omega
  · rw [length_stocksReply]
    omega
  · rw [length_trendReply]
    omega

/-- A connection on which one request was dispatched. -/
theorem serve_one {σ : Type} (dispatch : Dispatch σ) (state : σ) (type : UInt16) :
    (serve dispatch ⟨[], state⟩ [[Client.sendPkt type []]]).2.1 = [Request.ofBody type []] := by
  have hempty : ([] : List Byte).length < 2 ^ 32 := by decide
  have hnext := packets_next_packet type hempty
  rw [(serve_spec dispatch ⟨[], state⟩ _ packets_next_nil).1]
  show (packets.parse (packet type [] ++ [])).1 = _
  rw [List.append_nil, packets.parse_of_some hnext, List.drop_length,
    packets.parse_of_none packets_next_nil]

/-- A handler that replies with a byte. -/
def sampleDispatch : Dispatch Unit := fun _ _ => ((), .ok [1])

theorem replies_decoded_iff_sample :
    ∃ segs', Client.recvPkts 1 [packet 3002 [1]] = some ([(3002, [1])], segs') ∧
      segs'.flatten = [] := by
  have hdispatched := serve_one sampleDispatch () 3001
  have hsent := (serve_sent sampleDispatch ⟨[], ()⟩ [[Client.sendPkt 3001 []]]).1
  rw [hdispatched] at hsent
  have hdecoded := (replies_decoded_iff sampleDispatch ⟨[], ()⟩ [[Client.sendPkt 3001 []]]
    [packet 3002 [1]] (by rw [hsent]; rfl)).1
  rw [hdispatched] at hdecoded
  exact hdecoded.mpr (by decide)

/-- A user with one active order more than a reply has room for. -/
def manyOrders : List Order :=
  List.replicate 36158 ⟨1, 7, 10, .buy, 100, 5, 0⟩

def manyOrdersDispatch : Dispatch Unit := fun _ _ => ((), .ok (ordersReply manyOrders))

/-- The server sends the reply with these orders, and the client refuses it. -/
theorem ordersReply_not_decoded :
    (serve manyOrdersDispatch ⟨[], ()⟩ [[Client.sendPkt 4005 []]]).2.2
        = [packet 4006 (ordersReply manyOrders)] ∧
      ¬ ∃ segs', Client.recvPkts 1 [packet 4006 (ordersReply manyOrders)]
        = some ([(4006, ordersReply manyOrders)], segs') ∧ segs'.flatten = [] := by
  have hlong : Client.maxBody < (ordersReply manyOrders).length := by
    rw [length_ordersReply, manyOrders, List.length_replicate]
    decide
  constructor
  · rw [(serve_sent manyOrdersDispatch ⟨[], ()⟩ [[Client.sendPkt 4005 []]]).1, serve_one]
    rfl
  · intro hdecoded
    have hbytes : ([packet 4006 (ordersReply manyOrders)] : Client.Segments).flatten
        = [((4006 : UInt16), ordersReply manyOrders)].flatMap fun r => packet r.1 r.2 := by
      rw [List.flatten_cons, List.flatMap_cons]
      rfl
    have hle := (Client.recvPkts_iff _ _ hbytes).mp hdecoded _ List.mem_cons_self
    exact absurd hle (Nat.not_le.mpr hlong)

end ExchangeServer
