import ExchangeServer.Lib.Bytes
import ExchangeServer.Lib.Framing

/-!
# The wire format

`Protocol.hpp`: every packet is a header and a body.  The two fields of the header
are in network order; the packed structures of a body are in the order of the
machine, which is little-endian.

`packets` is the format in the sense of `Lib.FrameFormat`.
-/

namespace ExchangeServer

open Lib

/-! ## Packets -/

/-- `PacketHeader`. -/
structure PacketHeader where
  /-- The length of the body. -/
  length : UInt32
  type : UInt16
deriving DecidableEq, Repr

namespace PacketHeader

/-- `sizeof(PacketHeader)`. -/
def size : ℕ := 6

/-- The header on the wire. -/
def bytes (header : PacketHeader) : List Byte :=
  bigEndian 4 header.length.toNat ++ bigEndian 2 header.type.toNat

/-- The header that `bs` starts with. -/
def ofBytes (bs : List Byte) : PacketHeader where
  length := UInt32.ofNat (ofBigEndian (bs.take 4))
  type := UInt16.ofNat (ofBigEndian ((bs.drop 4).take 2))

@[simp] theorem length_bytes (header : PacketHeader) : header.bytes.length = size := by
  simp [bytes, size]

/-- **A header survives the wire.** -/
theorem ofBytes_bytes (header : PacketHeader) (rest : List Byte) :
    ofBytes (header.bytes ++ rest) = header := by
  have hlength : (header.bytes ++ rest).take 4 = bigEndian 4 header.length.toNat := by
    rw [bytes, List.append_assoc]
    exact List.take_left' (length_bigEndian _ _)
  have htype : ((header.bytes ++ rest).drop 4).take 2 = bigEndian 2 header.type.toNat := by
    rw [bytes, List.append_assoc, List.drop_left' (length_bigEndian _ _)]
    exact List.take_left' (length_bigEndian _ _)
  unfold ofBytes
  rw [hlength, htype, ofBigEndian_uint32, ofBigEndian_uint16]

/-- More bytes do not change the header. -/
theorem ofBytes_append {bs : List Byte} (h : size ≤ bs.length) (more : List Byte) :
    ofBytes (bs ++ more) = ofBytes bs := by
  unfold size at h
  unfold ofBytes
  rw [List.take_append_of_le_length (by omega), List.drop_append_of_le_length (by omega),
    List.take_append_of_le_length (by rw [List.length_drop]; omega)]

end PacketHeader

/-- What is passed to a handler: the type, the body and its length. -/
structure Request where
  type : UInt16
  payload : List Byte
  length : UInt32
deriving DecidableEq, Repr

/-- The packet at the head of a stream, and its size, if all of it is there. -/
def nextPacket (bs : List Byte) : Option (Request × ℕ) :=
  let header := PacketHeader.ofBytes bs
  if bs.length < PacketHeader.size ∨ bs.length < PacketHeader.size + header.length.toNat then none
  else
    some (⟨header.type, (bs.drop PacketHeader.size).take header.length.toNat, header.length⟩,
      PacketHeader.size + header.length.toNat)

theorem nextPacket_eq_some {bs : List Byte} {req : Request} {n : ℕ}
    (h : nextPacket bs = some (req, n)) :
    PacketHeader.size ≤ bs.length ∧ n = PacketHeader.size + req.length.toNat ∧
      n ≤ bs.length ∧ req = ⟨(PacketHeader.ofBytes bs).type,
        (bs.drop PacketHeader.size).take (PacketHeader.ofBytes bs).length.toNat,
        (PacketHeader.ofBytes bs).length⟩ := by
  unfold nextPacket at h
  dsimp only at h
  split_ifs at h with hshort
  obtain ⟨rfl, rfl⟩ := Prod.mk.inj (Option.some.inj h)
  rw [not_or] at hshort
  exact ⟨Nat.le_of_not_lt hshort.1, rfl, Nat.le_of_not_lt hshort.2, rfl⟩

/-- The packets of the protocol. -/
def packets : FrameFormat Byte Request where
  next := nextPacket
  size_pos h := by
    obtain ⟨-, rfl, -⟩ := nextPacket_eq_some h
    unfold PacketHeader.size
    omega
  size_le h := (nextPacket_eq_some h).2.2.1
  stable {bs req n} h more := by
    obtain ⟨hheader, rfl, hle, rfl⟩ := nextPacket_eq_some h
    unfold nextPacket
    dsimp only at hle ⊢
    rw [PacketHeader.ofBytes_append hheader, List.length_append, if_neg (by omega),
      List.drop_append_of_le_length hheader,
      List.take_append_of_le_length (by rw [List.length_drop]; omega)]

/-- A packet with this type and body. -/
def packet (type : UInt16) (body : List Byte) : List Byte :=
  PacketHeader.bytes ⟨UInt32.ofNat body.length, type⟩ ++ body

theorem length_packet (type : UInt16) (body : List Byte) :
    (packet type body).length = PacketHeader.size + body.length := by
  rw [packet, List.length_append, PacketHeader.length_bytes]

/-- The request that a packet carries. -/
def Request.ofBody (type : UInt16) (body : List Byte) : Request :=
  ⟨type, body, UInt32.ofNat body.length⟩

/-- A body that is not too long for the length field is found again. -/
theorem packets_next_packet (type : UInt16) {body : List Byte} (h : body.length < 2 ^ 32) :
    packets.next (packet type body)
      = some (Request.ofBody type body, (packet type body).length) := by
  have hlength : (UInt32.ofNat body.length).toNat = body.length := by
    rw [UInt32.toNat_ofNat', Nat.mod_eq_of_lt h]
  have hheader : PacketHeader.ofBytes (packet type body) = ⟨UInt32.ofNat body.length, type⟩ :=
    PacketHeader.ofBytes_bytes _ body
  have hbody : (packet type body).drop PacketHeader.size = body :=
    List.drop_left' (PacketHeader.length_bytes _)
  show nextPacket (packet type body) = _
  unfold nextPacket
  dsimp only
  rw [hheader, hlength, hbody, length_packet, if_neg (by omega), List.take_length]
  rfl

end ExchangeServer
