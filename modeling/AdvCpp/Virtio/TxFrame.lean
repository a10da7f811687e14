import AdvCpp.Virtio.Packet

/-!
# Frames to be sent

`build_tx_packet` of `virtio_net_vfio.hpp` and `build_frame` of `raw_eth.py`, which pad a frame to
its minimum size in two ways.  The packet is built before its descriptor is published.

* `buildTxPacket`, `Py.buildFrame` — translated.
* `buildTxPacket_packet` — the bytes of the packet, piece by piece.
* `buildTxPacket_buildFrame` — the packet is the virtio-net header and the frame of the Python
  function, and nothing is written behind it.
-/

namespace AdvCpp.Virtio.TxFrame

open AdvCpp.Lib

/-! ## The source -/

/-- A `std::vector<std::uint8_t>`; its size is a `ptrdiff_t`. -/
structure Payload where
  bytes : List UInt8
  length_lt : bytes.length < 2 ^ 63

def paddedEthernetPayloadSize (payloadSize : Nat) : Nat :=
  let minPayload := kEthernetMinFrameSize - kEthernetHeaderSize
  max payloadSize minPayload

def txPacketSizeForPayload (payloadSize : Nat) : Nat :=
  wrap (kVirtioNetHeaderSize + kEthernetHeaderSize + paddedEthernetPayloadSize payloadSize)

def writeBe16ToBytes (bytes : Nat) (value : UInt16) : Shared String Unit := do
  Shared.store bytes [(value >>> 8).toUInt8]
  Shared.store (bytes + 1) [(value &&& 0xff).toUInt8]

def buildTxPacket (packet : Nat) (dst src : Vector UInt8 6) (ethertype : UInt16) (payload : Payload)
    (totalSize : Nat) : Shared String Unit := do
  Shared.store packet (List.replicate totalSize 0)
  let ethernet := packet + kVirtioNetHeaderSize
  Shared.store ethernet dst.toList
  Shared.store (ethernet + 6) src.toList
  writeBe16ToBytes (ethernet + 12) ethertype
  Shared.store (ethernet + kEthernetHeaderSize) payload.bytes

namespace Py

/-- `ethertype.to_bytes(2, "big")` -/
def toBytes2 (ethertype : UInt16) : List UInt8 := beBytes 2 ethertype.toNat

def buildFrame (dstMac srcMac : Vector UInt8 6) (ethertype : UInt16) (payload : List UInt8) :
    List UInt8 :=
  let frame := dstMac.toList ++ srcMac.toList ++ toBytes2 ethertype ++ payload
  if frame.length < 60 then frame ++ List.replicate (60 - frame.length) 0 else frame

end Py

/-! ## The packet -/

section Packet

variable {dst src : Vector UInt8 6} {ethertype : UInt16} {payload : Payload}

theorem txPacketSize_eq (payload : Payload) :
    txPacketSizeForPayload payload.bytes.length = 26 + max payload.bytes.length 46 := by
  have hlt := payload.length_lt
  show (12 + 14 + max payload.bytes.length (60 - 14)) % 2 ^ 64 = _
  omega

/-- Both ways of padding add as much. -/
theorem buildFrame_eq (dst src : Vector UInt8 6) (ethertype : UInt16) (payload : List UInt8) :
    Py.buildFrame dst src ethertype payload =
      dst.toList ++ src.toList ++ Py.toBytes2 ethertype ++ payload ++
        List.replicate (46 - payload.length) 0 := by
  have hlen : (dst.toList ++ src.toList ++ Py.toBytes2 ethertype ++ payload).length =
      14 + payload.length := by
    simp only [List.length_append, Vector.length_toList, Py.toBytes2, beBytes_length]
  simp only [Py.buildFrame, hlen]
  by_cases hshort : 14 + payload.length < 60
  · have hpad : 60 - (14 + payload.length) = 46 - payload.length := by omega
    rw [if_pos hshort, hpad]
  · have hpad : 46 - payload.length = 0 := by omega
    rw [if_neg hshort, hpad]
    exact (List.append_nil _).symm

/-- The high byte is first. -/
theorem toBytes2_eq (ethertype : UInt16) :
    Py.toBytes2 ethertype = [(ethertype >>> 8).toUInt8, (ethertype &&& 0xff).toUInt8] := by
  have hbytes : Py.toBytes2 ethertype =
      [UInt8.ofNat (ethertype.toNat / 256), UInt8.ofNat ethertype.toNat] := rfl
  have hhigh : (ethertype >>> 8).toUInt8 = UInt8.ofNat (ethertype.toNat / 256) := by
    apply UInt8.toNat_inj.1
    rw [UInt16.toNat_toUInt8, UInt16.toNat_shiftRight, UInt8.toNat_ofNat',
      Nat.shiftRight_eq_div_pow]
    rfl
  have hlow : (ethertype &&& 0xff).toUInt8 = UInt8.ofNat ethertype.toNat := by
    apply UInt8.toNat_inj.1
    rw [UInt16.toNat_toUInt8, UInt16.toNat_and, UInt8.toNat_ofNat']
    exact (congrArg (· % 2 ^ 8) (Nat.and_two_pow_sub_one_eq_mod ethertype.toNat 8)).trans
      (Nat.mod_mod _ _)
  rw [hbytes, hhigh, hlow]

/-- **The bytes of the packet.** -/
theorem buildTxPacket_packet (packet : Nat) (dst src : Vector UInt8 6) (ethertype : UInt16)
    (payload : Payload) (m : Mem) :
    peek (Shared.exec m (buildTxPacket packet dst src ethertype payload
        (txPacketSizeForPayload payload.bytes.length))).2 packet
        (txPacketSizeForPayload payload.bytes.length) =
      List.replicate 12 (0 : UInt8) ++ (dst.toList ++ src.toList ++ Py.toBytes2 ethertype ++
        payload.bytes ++ List.replicate (46 - payload.bytes.length) 0) := by
  have hexec : (Shared.exec m (buildTxPacket packet dst src ethertype payload
        (txPacketSizeForPayload payload.bytes.length))).2 =
      poke (poke (poke (poke (poke (poke m packet
        (List.replicate (txPacketSizeForPayload payload.bytes.length) 0))
        (packet + 12) dst.toList) (packet + 12 + 6) src.toList)
        (packet + 12 + 12) [(ethertype >>> 8).toUInt8])
        (packet + 12 + 12 + 1) [(ethertype &&& 0xff).toUInt8])
        (packet + 12 + 14) payload.bytes := rfl
  have hsize : txPacketSizeForPayload payload.bytes.length =
      12 + (6 + (6 + (1 + (1 + (payload.bytes.length + (46 - payload.bytes.length)))))) := by
    rw [txPacketSize_eq]
    omega
  rw [hexec, toBytes2_eq]
  -- each piece replaces the zeros that are in its place
  have hzero := peek_poke_self m packet
    (List.replicate (txPacketSizeForPayload payload.bytes.length) (0 : UInt8))
  rw [List.length_replicate] at hzero
  generalize txPacketSizeForPayload payload.bytes.length = total at hzero hsize ⊢
  generalize poke m packet (List.replicate total 0) = m₀ at hzero ⊢
  rw [hsize, List.replicate_add, List.replicate_add 6, ← List.append_assoc, ← hsize] at hzero
  have hdst := peek_poke_middle (a := packet + 12) (d := dst.toList) hzero (by simp) (by simp)
  rw [List.replicate_add, ← List.append_assoc] at hdst
  have hsrc := peek_poke_middle (a := packet + 12 + 6) (d := src.toList) hdst (by simp) (by simp)
  rw [List.replicate_add, ← List.append_assoc] at hsrc
  have hhigh := peek_poke_middle (a := packet + 12 + 12) (d := [(ethertype >>> 8).toUInt8]) hsrc (by simp) (by simp)
  rw [List.replicate_add, ← List.append_assoc] at hhigh
  have hlow := peek_poke_middle (a := packet + 12 + 12 + 1) (d := [(ethertype &&& 0xff).toUInt8]) hhigh (by simp) (by simp)
  rw [List.replicate_add, ← List.append_assoc] at hlow
  have hpayload := peek_poke_middle (a := packet + 12 + 14) (d := payload.bytes) hlow (by simp) (by simp)
  rw [hpayload]
  simp

/-- A write of the bytes from `packet` to the end of the packet. -/
def WithinPacket (packet total : Nat) (a : Access) : Prop :=
  ∃ r, a = .write r ∧ r.Inside ⟨packet, total⟩

/-- No piece reaches behind the packet. -/
theorem buildTxPacket_safe (packet : Nat) (dst src : Vector UInt8 6) (ethertype : UInt16)
    (payload : Payload) :
    Shared.Safe (WithinPacket packet (txPacketSizeForPayload payload.bytes.length)) (fun _ => True)
      (buildTxPacket packet dst src ethertype payload
        (txPacketSizeForPayload payload.bytes.length)) := by
  have hsize := txPacketSize_eq payload
  have hwrite : ∀ off (d : List UInt8),
      off + d.length ≤ txPacketSizeForPayload payload.bytes.length →
        Shared.Safe (WithinPacket packet (txPacketSizeForPayload payload.bytes.length))
          (fun _ => True) (Shared.store (packet + off) d : Shared String Unit) := by
    intro off d hle
    refine Shared.safe_store ⟨_, rfl, Nat.le_add_right _ _, ?_⟩
    show packet + off + d.length ≤ packet + txPacketSizeForPayload payload.bytes.length
    omega
  unfold buildTxPacket writeBe16ToBytes
  apply Shared.safe_bind (hwrite 0 _ (by simp))
  intro _ _
  apply Shared.safe_bind (hwrite 12 _ (by rw [Vector.length_toList]; omega))
  intro _ _
  apply Shared.safe_bind (hwrite (12 + 6) _ (by rw [Vector.length_toList]; omega))
  intro _ _
  apply Shared.safe_bind
  · apply Shared.safe_bind (hwrite (12 + 12) _ (by simp only [List.length_singleton]; omega))
    exact fun _ _ => hwrite (12 + 12 + 1) _ (by simp only [List.length_singleton]; omega)
  · exact fun _ _ => hwrite (12 + 14) _ (by omega)

/-- **The packet is the header and the frame of the Python function**, and no write is behind it. -/
theorem buildTxPacket_buildFrame (packet : Nat) (dst src : Vector UInt8 6) (ethertype : UInt16)
    (payload : Payload) (m : Mem) :
    (Shared.exec m (buildTxPacket packet dst src ethertype payload
        (txPacketSizeForPayload payload.bytes.length))).1 = .ok () ∧
      peek (Shared.exec m (buildTxPacket packet dst src ethertype payload
          (txPacketSizeForPayload payload.bytes.length))).2 packet
          (txPacketSizeForPayload payload.bytes.length) =
        List.replicate 12 0 ++ Py.buildFrame dst src ethertype payload.bytes ∧
      ∀ dev : Nat → Mem → Mem, ∀ a ∈ (Shared.run dev m (buildTxPacket packet dst src ethertype
          payload (txPacketSizeForPayload payload.bytes.length))).accesses,
        WithinPacket packet (txPacketSizeForPayload payload.bytes.length) a := by
  refine ⟨rfl, ?_, fun dev => ((buildTxPacket_safe packet dst src ethertype payload).run dev m).1⟩
  rw [buildTxPacket_packet, buildFrame_eq]

end Packet

end AdvCpp.Virtio.TxFrame
