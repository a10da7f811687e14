import AdvCpp.Virtio.TxFrame

/-!
# From the tester to the driver and back

`raw_eth.py` and `virtio_net_vfio.hpp`: the tester builds a frame, the device puts it into an RX
buffer, and the driver builds a reply that the tester has to recognise.

* `isEchoFrame` — how the tester recognises it, in Python.
* `exec_readRxUsedPacket`, `exec_buildTxReplyFromRx` — the driver while nobody else writes.
* `echo_end_to_end` — the tester recognises the reply.
-/

namespace AdvCpp.Virtio

open AdvCpp.Lib
open TxFrame (Py.buildFrame Py.toBytes2)

/-! ## The tester -/

def isEchoFrame (frame : List UInt8) (srcMac dstMac : Vector UInt8 6) (ethertype : UInt16) : Bool :=
  if frame.length < 14 then false
  else
    let rxDst := frame.take 6
    let rxSrc := (frame.drop 6).take 6
    let rxEthertype := beValue ((frame.drop 12).take 2)
    rxDst == srcMac.toList && rxSrc == dstMac.toList && rxEthertype == ethertype.toNat

/-- The padded payload. -/
theorem buildFrame_padded (dstMac srcMac : Vector UInt8 6) (ethertype : UInt16)
    (payload : List UInt8) :
    ∃ padded, 46 ≤ padded.length ∧ Py.buildFrame dstMac srcMac ethertype payload =
      dstMac.toList ++ srcMac.toList ++ (beBytes 2 ethertype.toNat ++ padded) := by
  refine ⟨payload ++ List.replicate (46 - payload.length) 0, ?_, ?_⟩
  · rw [List.length_append, List.length_replicate]
    omega
  · rw [TxFrame.buildFrame_eq, Py.toBytes2]
    simp only [List.append_assoc]

theorem isEchoFrame_swapped (srcMac dstMac : Vector UInt8 6) (ethertype : UInt16)
    (padded : List UInt8) :
    isEchoFrame (srcMac.toList ++ dstMac.toList ++ (beBytes 2 ethertype.toNat ++ padded)) srcMac
      dstMac ethertype = true := by
  have htype : beValue (beBytes 2 ethertype.toNat) = ethertype.toNat :=
    beValue_beBytes_of_lt ethertype.toNat_lt
  have hdst : (srcMac.toList ++ dstMac.toList ++ (beBytes 2 ethertype.toNat ++ padded)).take 6 =
      srcMac.toList := by
    rw [List.append_assoc]
    exact List.take_left' (Vector.length_toList)
  have hsrc : ((srcMac.toList ++ dstMac.toList ++ (beBytes 2 ethertype.toNat ++ padded)).drop
      6).take 6 = dstMac.toList := by
    rw [List.append_assoc, List.drop_left' Vector.length_toList]
    exact List.take_left' Vector.length_toList
  have hrest : ((srcMac.toList ++ dstMac.toList ++ (beBytes 2 ethertype.toNat ++ padded)).drop
      12).take 2 = beBytes 2 ethertype.toNat := by
    rw [List.drop_left' (by simp)]
    exact List.take_left' (beBytes_length 2 _)
  have hlen : ¬ (srcMac.toList ++ dstMac.toList ++ (beBytes 2 ethertype.toNat ++ padded)).length <
      14 := by
    simp only [List.length_append, Vector.length_toList, beBytes_length]
    omega
  unfold isEchoFrame
  rw [if_neg hlen]
  simp only [hdst, hsrc, hrest, htype, beq_self_eq_true, Bool.and_self]

/-! ## The driver, with nobody else writing -/

@[simp] theorem exec_readUsedId (m : Mem) (queueBase : Nat) (v : VringLayout) (slot : Nat) :
    Shared.exec m (readUsedId queueBase v slot) =
      (.ok (leValue (peek m (usedElem queueBase v slot) 4)), m) := rfl

@[simp] theorem exec_readUsedLen (m : Mem) (queueBase : Nat) (v : VringLayout) (slot : Nat) :
    Shared.exec m (readUsedLen queueBase v slot) =
      (.ok (leValue (peek m (usedElem queueBase v slot + 4) 4)), m) := rfl

section Driver

variable {m : Mem}

/-- **What `read_rx_used_packet` accepts.** -/
theorem exec_readRxUsedPacket (dmaBase : Nat) {rxQueueBase : Nat} {layout : DmaLayout}
    {usedSlot rxBuffers rxBufferSize id len : Nat} {matchEthertype : Option Nat}
    (hid : leValue (peek m (usedElem rxQueueBase layout.rxVring usedSlot) 4) = id)
    (hlen : leValue (peek m (usedElem rxQueueBase layout.rxVring usedSlot + 4) 4) = len)
    (hposted : id < rxBuffers) (hfit : rxBuffers * rxBufferSize < 2 ^ 64) (hmin : 26 ≤ len)
    (hmax : len ≤ rxBufferSize) {buffer ethertype : Nat}
    (hbuffer : buffer = dmaBase + layout.rxBuffersOffset + id * rxBufferSize)
    (htype : beValue (peek m (buffer + 12 + 12) 2) = ethertype)
    (hmatch : matchEthertype = none ∨ matchEthertype = some ethertype) :
    Shared.exec m (readRxUsedPacket dmaBase rxQueueBase layout usedSlot rxBuffers rxBufferSize
      matchEthertype) = (.ok (some ⟨usedSlot, id, len, ethertype, buffer⟩), m) := by
  have hany : matchEthertype.any (· ≠ ethertype) = false := by
    rcases hmatch with rfl | rfl
    · rfl
    · simp
  have hshort : ¬ len < kVirtioNetHeaderSize + kEthernetHeaderSize := Nat.not_lt.2 hmin
  subst hbuffer
  unfold readRxUsedPacket
  simp only [Shared.exec_bind, exec_readUsedId, exec_readUsedLen, hid, hlen]
  rw [if_neg (Nat.not_le.2 hposted), if_neg (Nat.not_lt.2 hmax), if_neg hshort,
    wrap_buffer hfit hposted]
  simp only [Shared.exec_bind, Shared.exec_load]
  rw [show kVirtioNetHeaderSize = 12 from rfl, htype, if_neg (by rw [hany]; exact Bool.false_ne_true)]
  rfl

theorem exec_txReplySizeForRx {rxUsedLen : Nat} (h : 26 ≤ rxUsedLen) :
    Shared.exec m (txReplySizeForRx rxUsedLen) = (.ok (12 + max (rxUsedLen - 12) 60), m) :=
  Shared.exec_bind_ok (Shared.exec_ensure h m _) _

/-- **What `build_tx_reply_from_rx` builds**: the addresses are swapped, the rest of the frame is
copied, and everything else is zero. -/
theorem exec_buildTxReplyFromRx (txPacket txBufferSize rxBuffer : Nat)
    {header dst src rest : List UInt8} (mac : Vector UInt8 6)
    (hrx : peek m rxBuffer (header ++ (dst ++ src ++ rest)).length = header ++ (dst ++ src ++ rest))
    (hheader : header.length = 12) (hdst : dst.length = 6) (hsrc : src.length = 6)
    (hrest : 2 ≤ rest.length) (hsize : 12 + max (12 + rest.length) 60 ≤ txBufferSize)
    (hdisjoint : Region.Disjoint ⟨rxBuffer, 24 + rest.length⟩ ⟨txPacket, txBufferSize⟩) :
    ∃ m', Shared.exec m (buildTxReplyFromRx txPacket txBufferSize rxBuffer (24 + rest.length) mac) =
        (.ok (12 + max (12 + rest.length) 60), m') ∧
      peek m' txPacket txBufferSize = List.replicate 12 0 ++ (src ++ mac.toList ++ rest) ++
        List.replicate (txBufferSize - (24 + rest.length)) 0 := by
  have hlen : (header ++ (dst ++ src ++ rest)).length = 12 + (6 + (6 + rest.length)) := by
    simp only [List.length_append, hheader, hdst, hsrc]
    omega
  have hframe : peek m (rxBuffer + 12) (6 + (6 + rest.length)) = dst ++ src ++ rest := by
    apply peek_middle (s := []) (hrx.trans (List.append_nil _).symm)
    · rw [hheader]
    · simp only [List.length_append, hdst, hsrc]
      omega
  have hsource : peek m (rxBuffer + 12 + 6) 6 = src := peek_middle hframe (by rw [hdst]) hsrc.symm
  have hapart : rxBuffer + (24 + rest.length) ≤ txPacket ∨ txPacket + txBufferSize ≤ rxBuffer :=
    hdisjoint
  let m₁ := poke m txPacket (List.replicate txBufferSize 0)
  let m₂ := poke m₁ (txPacket + 12) (dst ++ src ++ rest)
  let m₃ := poke m₂ (txPacket + 12) src
  let m₄ := poke m₃ (txPacket + 12 + 6) mac.toList
  have hread₁ : peek m₁ (rxBuffer + 12) (6 + (6 + rest.length)) = dst ++ src ++ rest := by
    rw [peek_poke_of_disjoint (by simp only [List.length_replicate]; omega), hframe]
  have hread₂ : peek m₂ (rxBuffer + 12 + 6) 6 = src := by
    rw [peek_poke_of_disjoint (by simp only [List.length_append, hdst, hsrc]; omega),
      peek_poke_of_disjoint (by simp only [List.length_replicate]; omega), hsource]
  have htx₁ : peek m₁ txPacket txBufferSize = List.replicate 12 0 ++
      List.replicate (12 + rest.length) 0 ++
        List.replicate (txBufferSize - (24 + rest.length)) 0 := by
    have hself := peek_poke_self m txPacket (List.replicate txBufferSize 0)
    rw [List.length_replicate] at hself
    rw [hself, List.replicate_append_replicate, List.replicate_append_replicate]
    congr 1
    omega
  have htx₂ : peek m₂ txPacket txBufferSize = List.replicate 12 0 ++ (dst ++ src ++ rest) ++
      List.replicate (txBufferSize - (24 + rest.length)) 0 := by
    refine peek_poke_middle htx₁ rfl ?_
    simp only [List.length_append, List.length_replicate, hdst, hsrc]
  have htx₃ : peek m₃ txPacket txBufferSize = List.replicate 12 0 ++ src ++ (src ++ rest ++
      List.replicate (txBufferSize - (24 + rest.length)) 0) := by
    refine peek_poke_middle (x := dst) ?_ rfl (hsrc.trans hdst.symm)
    rw [htx₂]
    simp only [List.append_assoc]
  have htx₄ : peek m₄ txPacket txBufferSize = List.replicate 12 0 ++ src ++ mac.toList ++ (rest ++
      List.replicate (txBufferSize - (24 + rest.length)) 0) := by
    refine peek_poke_middle (x := src) ?_ ?_ (Vector.length_toList.trans hsrc.symm)
    · rw [htx₃]
      simp only [List.append_assoc]
    · simp only [List.length_append, List.length_replicate, hsrc]
  refine ⟨m₄, ?_, ?_⟩
  · have hused : 24 + rest.length - 12 = 6 + (6 + rest.length) := by omega
    have hmin : 26 ≤ 24 + rest.length := by omega
    have hreply := exec_txReplySizeForRx (m := m) hmin
    rw [hused] at hreply
    have hroom : 12 + max (6 + (6 + rest.length)) 60 ≤ txBufferSize := by omega
    refine (Shared.exec_bind_ok hreply _).trans ((Shared.exec_bind_ok (Shared.exec_ensure hroom m _)
      _).trans ?_)
    simp only [kVirtioNetHeaderSize, Shared.exec_bind, Shared.exec_store, Shared.exec_load,
      Shared.exec_pure, hused]
    rw [hread₁, hread₂, show 6 + (6 + rest.length) = 12 + rest.length by omega]
  · rw [htx₄]
    simp only [List.append_assoc]

end Driver

/-! ## Echo -/

section Echo

variable {page rxBufferSize : UInt64} {rxBuffers : UInt16} {l : DmaLayout} {tx : List Region}

/-- The posted buffers and the TX regions do not overlap. -/
theorem Computed.rx_tx_disjoint (h : Computed page rxBuffers rxBufferSize l tx) {id : Nat}
    (hid : id < rxBuffers.toNat) {slot : Region} (hslot : slot ∈ tx) :
    Region.Disjoint ⟨l.rxBuffersOffset + id * rxBufferSize.toNat, rxBufferSize.toNat⟩ slot := by
  obtain ⟨align, _, _, hok⟩ := h.layoutOk
  have hall := hok.allStacked.disjoint
  refine (List.pairwise_append.1 hall).2.2 _ ?_ _ hslot
  exact List.mem_append_right _ (mem_arrayRegions.2 ⟨id, hid, rfl⟩)

/-- **The tester recognises the reply.**  A frame that it built lies, behind any header, in a
posted RX buffer with its length in the used ring: the driver accepts it, its reply does not throw,
is as long as the frame, and is what the tester waits for. -/
theorem echo_end_to_end (h : Computed page rxBuffers rxBufferSize l tx) {slot : Region}
    (hslot : slot ∈ tx) (base : Nat) (m : Mem) (dst src : Vector UInt8 6) (ethertype : UInt16)
    (payload header F : List UInt8) (hF : F = Py.buildFrame dst src ethertype payload)
    (hheader : header.length = 12) (id usedSlot : Nat) (hposted : id < rxBuffers.toNat)
    (hid : leValue (peek m (usedElem (base + l.rxVringOffset) l.rxVring usedSlot) 4) = id)
    (hlen : leValue (peek m (usedElem (base + l.rxVringOffset) l.rxVring usedSlot + 4) 4) =
      12 + F.length)
    (hbuffer : peek m (base + l.rxBuffersOffset + id * rxBufferSize.toNat) (12 + F.length) =
      header ++ F)
    (hrxSize : 12 + F.length ≤ rxBufferSize.toNat) (htxSize : 12 + F.length ≤ slot.size)
    (matchEthertype : Option Nat)
    (hmatch : matchEthertype = none ∨ matchEthertype = some ethertype.toNat) :
    ∃ p m', Shared.exec m (readRxUsedPacket base (base + l.rxVringOffset) l usedSlot
          rxBuffers.toNat rxBufferSize.toNat matchEthertype) = (.ok (some p), m) ∧
      Shared.exec m (buildTxReplyFromRx (base + slot.offset) slot.size p.buffer p.usedLen dst) =
          (.ok (12 + F.length), m') ∧
      ∃ R, peek m' (base + slot.offset) slot.size =
          List.replicate 12 0 ++ R ++ List.replicate (slot.size - (12 + F.length)) 0 ∧
        R.length = F.length ∧ isEchoFrame R src dst ethertype = true ∧ R.drop 14 = F.drop 14 := by
  obtain ⟨align, _, _, hok⟩ := h.layoutOk
  have hfit : rxBuffers.toNat * rxBufferSize.toNat < 2 ^ 64 := by
    rw [← hok.rxBuffersSize]
    exact hok.rxBuffersSize_lt
  obtain ⟨padded, hpadded, hframe⟩ := buildFrame_padded dst src ethertype payload
  rw [← hF] at hframe
  have hFlen : F.length = 14 + padded.length := by
    rw [hframe]
    simp only [List.length_append, Vector.length_toList, beBytes_length]
    omega
  have hrest : (beBytes 2 ethertype.toNat ++ padded).length = 2 + padded.length := by simp
  have htype : beValue (peek m (base + l.rxBuffersOffset + id * rxBufferSize.toNat + 12 + 12) 2) =
      ethertype.toNat := by
    have hbytes : peek m (base + l.rxBuffersOffset + id * rxBufferSize.toNat + 12 + 12) 2 =
        beBytes 2 ethertype.toNat := by
      apply peek_middle (p := header ++ (dst.toList ++ src.toList)) (s := padded)
      · rw [hbuffer, hframe]
        simp only [List.append_assoc]
      · simp only [List.length_append, hheader, Vector.length_toList]
      · rw [beBytes_length]
    rw [hbytes, beValue_beBytes_of_lt ethertype.toNat_lt]
  have haccept := exec_readRxUsedPacket base hid hlen hposted hfit (by omega) hrxSize rfl htype
    hmatch
  have hdisjoint : Region.Disjoint
      ⟨base + l.rxBuffersOffset + id * rxBufferSize.toNat, 24 + (2 + padded.length)⟩
      ⟨base + slot.offset, slot.size⟩ := by
    have hoff := h.rx_tx_disjoint hposted hslot
    unfold Region.Disjoint Region.stop at hoff ⊢
    dsimp only at hoff ⊢
    omega
  have hused : 24 + (2 + padded.length) = 12 + F.length := by omega
  rw [← hrest] at hdisjoint hused
  have hrx : peek m (base + l.rxBuffersOffset + id * rxBufferSize.toNat) (header ++ F).length =
      header ++ F := by
    rw [List.length_append, hheader, hbuffer]
  rw [hframe] at hrx
  obtain ⟨m', hreply, htx⟩ := exec_buildTxReplyFromRx _ _ _ dst hrx hheader Vector.length_toList
    Vector.length_toList (by omega) (by omega) hdisjoint
  rw [hused] at hreply htx
  have hmax : 12 + max (12 + (beBytes 2 ethertype.toNat ++ padded).length) 60 = 12 + F.length := by
    omega
  rw [hmax] at hreply
  refine ⟨_, m', haccept, hreply, _, htx, ?_, isEchoFrame_swapped src dst ethertype padded, ?_⟩
  · rw [hframe]
    simp only [List.length_append, Vector.length_toList]
  · -- behind the addresses, the reply is the frame
    rw [hframe, ← List.append_assoc, ← List.append_assoc, List.drop_left' (by simp),
      List.drop_left' (by simp)]

/-- A frame without payload behind a header of ones, in buffer 0 at 16384. -/
def pingMemory : Mem :=
  poke (poke (fun _ => 0) 4104 [72]) 16384
    (List.replicate 12 1 ++ Py.buildFrame #v[2, 0, 0, 0, 0, 1] #v[2, 0, 0, 0, 0, 2] 0x88b5 [])

theorem echo_end_to_end_ping : ∃ l p m',
    computeDmaLayoutTxBuffers 4096 2 2 4096 1 1 128 128 = .ok l ∧
    Shared.exec pingMemory (readRxUsedPacket 0 (0 + l.rxVringOffset) l 0 1 128 (some 0x88b5)) =
      (.ok (some p), pingMemory) ∧
    Shared.exec pingMemory (buildTxReplyFromRx (0 + l.txBuffersOffset) 128 p.buffer p.usedLen
      #v[2, 0, 0, 0, 0, 1]) = (.ok 72, m') ∧
    isEchoFrame (peek m' (0 + l.txBuffersOffset + 12) 60) #v[2, 0, 0, 0, 0, 2]
      #v[2, 0, 0, 0, 0, 1] 0x88b5 = true := by
  obtain ⟨l, hl, hring, hused, hrx⟩ : ∃ l,
      computeDmaLayoutTxBuffers 4096 2 2 4096 1 1 128 128 = .ok l ∧ l.rxVringOffset = 0 ∧
        l.rxVring.usedOffset = 4096 ∧ l.rxBuffersOffset = 16384 := ⟨_, rfl, rfl, rfl, rfl⟩
  have helem : usedElem (0 + l.rxVringOffset) l.rxVring 0 = 4100 := by
    rw [usedElem, hring, hused]
    rfl
  have hslot : ⟨l.txBuffersOffset, 128⟩ ∈ arrayRegions l.txBuffersOffset 128 1 :=
    mem_arrayRegions.2 ⟨0, by decide, by rw [Nat.zero_mul]; rfl⟩
  obtain ⟨p, m', hread, hbuild, R, htx, hlen, hecho, -⟩ := echo_end_to_end
    (Computed.txBuffers hl) hslot 0 pingMemory #v[2, 0, 0, 0, 0, 1] #v[2, 0, 0, 0, 0, 2] 0x88b5 []
    (List.replicate 12 1) _ rfl (by decide) 0 0 (by decide)
    (by rw [helem]; decide) (by rw [helem]; decide) (by rw [hrx]; decide) (by decide)
    (by decide : 12 + 60 ≤ 128) (some 0x88b5) (Or.inr rfl)
  refine ⟨l, p, m', hl, hread, hbuild, ?_⟩
  rw [show peek m' (0 + l.txBuffersOffset + 12) 60 = R from peek_middle htx rfl hlen.symm]
  exact hecho

end Echo

end AdvCpp.Virtio
