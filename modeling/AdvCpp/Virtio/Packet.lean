import AdvCpp.Lib.Endian
import AdvCpp.Lib.Shared
import AdvCpp.Virtio.Layout

/-!
# Packets behind the used ring

`virtio_net_vfio.hpp` and `26_virtio_net_irq_echo_loop.cpp`: the functions that read what the device
has written.  Addresses are offsets in the DMA buffer; the device may change the memory before
every access.  What is only printed is read, and not kept.

* `readRxUsedPacket`, `waitForMatchingRxPacket`, `dumpRxUsedBuffers`, `buildTxReplyFromRx`,
  `consumeTxCompletions` — translated access by access.
* `hostile_device_contained` — no device drives an access out of its region.
-/

namespace AdvCpp.Virtio

open AdvCpp.Lib

/-! ## The used ring -/

def kVirtioNetHeaderSize : Nat := 12
def kEthernetHeaderSize : Nat := 14
def kEthernetMinFrameSize : Nat := 60

/-- `&vring_used_elems(queue_base, layout)[slot]`. -/
def usedElem (queueBase : Nat) (layout : VringLayout) (slot : Nat) : Nat :=
  queueBase + layout.usedOffset + 2 * 2 + kVringUsedElemSize * slot

def readUsedIdx (queueBase : Nat) (layout : VringLayout) : Shared String Nat := do
  let idx ← Shared.load (queueBase + layout.usedOffset + 2) 2
  return leValue idx

/-- `elems[slot].id` -/
def readUsedId (queueBase : Nat) (layout : VringLayout) (slot : Nat) : Shared String Nat := do
  let id ← Shared.load (usedElem queueBase layout slot) 4
  return leValue id

/-- `elems[slot].len` -/
def readUsedLen (queueBase : Nat) (layout : VringLayout) (slot : Nat) : Shared String Nat := do
  let len ← Shared.load (usedElem queueBase layout slot + 4) 4
  return leValue len

def usedDelta (before after : Nat) : Nat := (after + 2 ^ 16 - before) % 2 ^ 16

/-- `static_cast<std::uint16_t>((idx + i) % layout.queue_size)` -/
def slotOf (layout : VringLayout) (idx i : Nat) : Nat := (idx + i) % layout.queueSize % 2 ^ 16

/-! ## Received packets -/

structure ReceivedPacket where
  usedSlot : Nat
  descId : Nat
  usedLen : Nat
  ethertype : Nat
  buffer : Nat
  deriving DecidableEq

def readRxUsedPacket (dmaBase rxQueueBase : Nat) (layout : DmaLayout) (usedSlot rxBuffers : Nat)
    (rxBufferSize : Nat) (matchEthertype : Option Nat) :
    Shared String (Option ReceivedPacket) := do
  let id ← readUsedId rxQueueBase layout.rxVring usedSlot
  let len ← readUsedLen rxQueueBase layout.rxVring usedSlot
  if rxBuffers ≤ id then return none
  else if rxBufferSize < len then return none
  else if len < kVirtioNetHeaderSize + kEthernetHeaderSize then return none
  else
    let packetBuffer := dmaBase + layout.rxBuffersOffset + wrap (id * rxBufferSize)
    let ethernet := packetBuffer + kVirtioNetHeaderSize
    let bytes ← Shared.load (ethernet + 12) 2
    let ethertype := beValue bytes
    if matchEthertype.any (· ≠ ethertype) then return none
    else return some ⟨usedSlot, id, len, ethertype, packetBuffer⟩

/-- The loop over the entries from `scanIdx` on, with `i` of them done and `n` to go. -/
def scanUsed (dmaBase rxQueueBase : Nat) (layout : DmaLayout) (scanIdx rxBuffers rxBufferSize : Nat)
    (matchEthertype : Option Nat) : Nat → Nat → Shared String (Option ReceivedPacket)
  | _, 0 => return none
  | i, n + 1 => do
    let slot := slotOf layout.rxVring scanIdx i
    let received ← readRxUsedPacket dmaBase rxQueueBase layout slot rxBuffers rxBufferSize
      matchEthertype
    match received with
    | some packet => return some packet
    | none => scanUsed dmaBase rxQueueBase layout scanIdx rxBuffers rxBufferSize matchEthertype (i + 1) n

/-- `wait_for_matching_rx_packet`; `polls` is how often it polls again before the deadline. -/
def waitForMatchingRxPacket (dmaBase rxQueueBase : Nat) (layout : DmaLayout)
    (rxBuffers rxBufferSize : Nat) (matchEthertype : Option Nat) :
    (polls scanIdx : Nat) → Shared String (Option ReceivedPacket)
  | 0, scanIdx => do
    let current ← readUsedIdx rxQueueBase layout.rxVring
    scanUsed dmaBase rxQueueBase layout scanIdx rxBuffers rxBufferSize matchEthertype 0
      (usedDelta scanIdx current)
  | polls + 1, scanIdx => do
    let current ← readUsedIdx rxQueueBase layout.rxVring
    let received ← scanUsed dmaBase rxQueueBase layout scanIdx rxBuffers rxBufferSize matchEthertype
      0 (usedDelta scanIdx current)
    match received with
    | some packet => return some packet
    | none =>
      waitForMatchingRxPacket dmaBase rxQueueBase layout rxBuffers rxBufferSize matchEthertype polls
        current

/-! ## Dumps -/

/-- `print_hex_dump`: every line reads its bytes for the hex part and for the text part. -/
def printHexDump (data size maxBytes : Nat) : Shared String Unit :=
  let count := min size maxBytes
  (List.range ((count + 15) / 16)).forM fun line => do
    let lineSize := min 16 (count - 16 * line)
    let _ ← Shared.load (data + 16 * line) lineSize
    let _ ← Shared.load (data + 16 * line) lineSize

def printEthernetSummary (packet packetSize : Nat) : Shared String Unit :=
  if packetSize < 14 then return ()
  else do
    let _ ← Shared.load (packet + 12) 2
    let _ ← Shared.load packet 6
    let _ ← Shared.load (packet + 6) 6

def printVirtioNetRxBuffer (data usedLen dumpBytes : Nat) : Shared String Unit :=
  if usedLen < kVirtioNetHeaderSize then printHexDump data usedLen dumpBytes
  else do
    let _ ← Shared.load data 1
    let _ ← Shared.load (data + 1) 1
    let _ ← Shared.load (data + 2) 2
    let _ ← Shared.load (data + 4) 2
    let _ ← Shared.load (data + 6) 2
    let _ ← Shared.load (data + 8) 2
    let _ ← Shared.load (data + 10) 2
    printEthernetSummary (data + kVirtioNetHeaderSize) (usedLen - kVirtioNetHeaderSize)
    printHexDump data usedLen dumpBytes

/-- One turn of the loop of `dump_rx_used_buffers`. -/
def dumpRxUsedBuffer (dmaBase rxQueueBase : Nat) (layout : DmaLayout)
    (slot rxBuffers rxBufferSize dumpBytes : Nat) : Shared String Unit := do
  let id ← readUsedId rxQueueBase layout.rxVring slot
  let len ← readUsedLen rxQueueBase layout.rxVring slot
  if rxBuffers ≤ id then return ()
  else if rxBufferSize < len then return ()
  else
    printVirtioNetRxBuffer (dmaBase + layout.rxBuffersOffset + wrap (id * rxBufferSize)) len dumpBytes

def dumpRxUsedBuffers (dmaBase rxQueueBase : Nat) (layout : DmaLayout)
    (oldIdx newIdx rxBuffers rxBufferSize maxEntries dumpBytes : Nat) : Shared String Unit :=
  let count := usedDelta oldIdx newIdx
  let toDump := min (min count rxBuffers) maxEntries
  (List.range toDump).forM fun i =>
    dumpRxUsedBuffer dmaBase rxQueueBase layout (slotOf layout.rxVring oldIdx i) rxBuffers
      rxBufferSize dumpBytes

/-! ## Replies and completions -/

def txReplySizeForRx (rxUsedLen : Nat) : Shared String Nat := do
  Shared.ensure (kVirtioNetHeaderSize + kEthernetHeaderSize ≤ rxUsedLen)
    "received buffer is too short for virtio-net header plus Ethernet"
  let rxFrameSize := rxUsedLen - kVirtioNetHeaderSize
  return kVirtioNetHeaderSize + max rxFrameSize kEthernetMinFrameSize

def buildTxReplyFromRx (txPacket txBufferSize rxBuffer rxUsedLen : Nat)
    (replySrcMac : Vector UInt8 6) : Shared String Nat := do
  let txUsedLen ← txReplySizeForRx rxUsedLen
  Shared.ensure (txUsedLen ≤ txBufferSize) "reply packet does not fit in the allocated TX buffer"
  Shared.store txPacket (List.replicate txBufferSize 0)
  let rxEthernet := rxBuffer + kVirtioNetHeaderSize
  let txEthernet := txPacket + kVirtioNetHeaderSize
  let rxFrameSize := rxUsedLen - kVirtioNetHeaderSize
  let frame ← Shared.load rxEthernet rxFrameSize
  Shared.store txEthernet frame
  let source ← Shared.load (rxEthernet + 6) 6
  Shared.store txEthernet source
  Shared.store (txEthernet + 6) replySrcMac.toList
  return txUsedLen

structure TxSlot where
  inFlight : Bool
  deriving DecidableEq

/-- The loop of `consume_tx_completions`, with `i` entries done and `n` to go. -/
def completeTx (txQueueBase : Nat) (txLayout : VringLayout) (lastTxUsedIdx : Nat) :
    (i n : Nat) → List TxSlot → Nat → Shared String (List TxSlot × Nat)
  | _, 0, txSlots, completedTx => return (txSlots, completedTx)
  | i, n + 1, txSlots, completedTx => do
    let slot := slotOf txLayout lastTxUsedIdx i
    let id ← readUsedId txQueueBase txLayout slot
    let _ ← readUsedLen txQueueBase txLayout slot
    if txSlots.length ≤ id then
      completeTx txQueueBase txLayout lastTxUsedIdx (i + 1) n txSlots completedTx
    else
      Shared.touch id txSlots.length
      completeTx txQueueBase txLayout lastTxUsedIdx (i + 1) n (txSlots.set id ⟨false⟩)
        ((completedTx + 1) % 2 ^ 32)

/-- `consume_tx_completions`: its result, and the counter, slots and statistic after it. -/
def consumeTxCompletions (txQueueBase : Nat) (txLayout : VringLayout) (lastTxUsedIdx : Nat)
    (txSlots : List TxSlot) (completedTx : Nat) :
    Shared String (Bool × Nat × List TxSlot × Nat) := do
  let current ← readUsedIdx txQueueBase txLayout
  let count := usedDelta lastTxUsedIdx current
  if count = 0 then return (false, lastTxUsedIdx, txSlots, completedTx)
  else
    let r ← completeTx txQueueBase txLayout lastTxUsedIdx 0 count txSlots completedTx
    return (true, current, r.1, r.2)

/-! ## Where the accesses are -/

/-- The counter of the used ring, or an entry in a slot below the queue size. -/
def InUsedRing (queueBase : Nat) (v : VringLayout) (r : Region) : Prop :=
  r = ⟨queueBase + v.usedOffset + 2, 2⟩ ∨
    ∃ slot < v.queueSize, r.Inside ⟨usedElem queueBase v slot, kVringUsedElemSize⟩

/-- In the buffer of an id that was posted. -/
def InRxBuffer (base : Nat) (l : DmaLayout) (rxBuffers rxBufferSize : Nat) (r : Region) : Prop :=
  ∃ id < rxBuffers, r.Inside ⟨base + l.rxBuffersOffset + id * rxBufferSize, rxBufferSize⟩

/-- The packet lies in the buffer of an id that was posted, and has both headers. -/
def ReceivedPacket.Fits (base : Nat) (l : DmaLayout) (rxBuffers rxBufferSize : Nat)
    (p : ReceivedPacket) : Prop :=
  p.descId < rxBuffers ∧ p.buffer = base + l.rxBuffersOffset + p.descId * rxBufferSize ∧
    kVirtioNetHeaderSize + kEthernetHeaderSize ≤ p.usedLen ∧ p.usedLen ≤ rxBufferSize

theorem slotOf_lt {v : VringLayout} (h : 0 < v.queueSize) (idx i : Nat) :
    slotOf v idx i < v.queueSize :=
  (Nat.mod_le _ _).trans_lt (Nat.mod_lt _ h)

theorem ReceivedPacket.Fits.inRxBuffer {base : Nat} {l : DmaLayout} {rxBuffers rxBufferSize : Nat}
    {p : ReceivedPacket} (h : p.Fits base l rxBuffers rxBufferSize) (off n : Nat)
    (hn : off + n ≤ p.usedLen) : InRxBuffer base l rxBuffers rxBufferSize ⟨p.buffer + off, n⟩ := by
  obtain ⟨hid, hbuffer, -, hlen⟩ := h
  refine ⟨p.descId, hid, ?_, ?_⟩
  · show base + l.rxBuffersOffset + p.descId * rxBufferSize ≤ p.buffer + off
    omega
  · show p.buffer + off + n ≤ base + l.rxBuffersOffset + p.descId * rxBufferSize + rxBufferSize
    omega

section Safe

variable {ok : Access → Prop}

section UsedRing

variable {queueBase : Nat} {v : VringLayout} (hused : ∀ r, InUsedRing queueBase v r → ok (.read r))
include hused

theorem readUsedIdx_safe : Shared.Safe ok (fun _ => True) (readUsedIdx queueBase v) := by
  unfold readUsedIdx
  exact Shared.safe_bind (Shared.safe_load (hused _ (Or.inl rfl))) fun _ _ => trivial

theorem readUsedId_safe {slot : Nat} (hslot : slot < v.queueSize) :
    Shared.Safe ok (fun _ => True) (readUsedId queueBase v slot) := by
  have hin : InUsedRing queueBase v ⟨usedElem queueBase v slot, 4⟩ :=
    Or.inr ⟨slot, hslot, Nat.le_refl _, Nat.add_le_add_left (by decide : 4 ≤ 8) _⟩
  unfold readUsedId
  exact Shared.safe_bind (Shared.safe_load (hused _ hin)) fun _ _ => trivial

theorem readUsedLen_safe {slot : Nat} (hslot : slot < v.queueSize) :
    Shared.Safe ok (fun _ => True) (readUsedLen queueBase v slot) := by
  have hin : InUsedRing queueBase v ⟨usedElem queueBase v slot + 4, 4⟩ :=
    Or.inr ⟨slot, hslot, Nat.le_add_right _ _, Nat.le_of_eq (Nat.add_assoc _ 4 4)⟩
  unfold readUsedLen
  exact Shared.safe_bind (Shared.safe_load (hused _ hin)) fun _ _ => trivial

/-- **Completions.** -/
theorem completeTx_safe (hpos : 0 < v.queueSize) (hindex : ∀ i n, i < n → ok (.index i n))
    (lastTxUsedIdx : Nat) (n : Nat) : ∀ (i : Nat) (txSlots : List TxSlot) (completedTx : Nat),
    Shared.Safe ok (fun _ => True) (completeTx queueBase v lastTxUsedIdx i n txSlots completedTx) := by
  induction n with
  | zero => exact fun _ _ _ => trivial
  | succ n ih =>
    intro i txSlots completedTx
    have hslot := slotOf_lt hpos lastTxUsedIdx i
    apply Shared.safe_bind (readUsedId_safe hused hslot)
    intro id _
    apply Shared.safe_bind (readUsedLen_safe hused hslot)
    intro _ _
    split
    · exact ih (i + 1) txSlots completedTx
    · rename_i hid
      apply Shared.safe_bind (Shared.safe_touch (hindex _ _ (Nat.not_le.1 hid)))
      exact fun _ _ => ih (i + 1) _ _

theorem consumeTxCompletions_safe (hpos : 0 < v.queueSize)
    (hindex : ∀ i n, i < n → ok (.index i n)) (lastTxUsedIdx : Nat) (txSlots : List TxSlot)
    (completedTx : Nat) : Shared.Safe ok (fun _ => True)
      (consumeTxCompletions queueBase v lastTxUsedIdx txSlots completedTx) := by
  apply Shared.safe_bind (readUsedIdx_safe hused)
  intro current _
  dsimp only
  split
  · trivial
  · apply Shared.safe_bind (completeTx_safe hused hpos hindex lastTxUsedIdx _ 0 txSlots completedTx)
    exact fun _ _ => trivial

end UsedRing

section Rx

variable {base rxQueueBase : Nat} {l : DmaLayout} {rxBuffers rxBufferSize : Nat}
  (hused : ∀ r, InUsedRing rxQueueBase l.rxVring r → ok (.read r))
  (hbuffer : ∀ r, InRxBuffer base l rxBuffers rxBufferSize r → ok (.read r))
  (hfit : rxBuffers * rxBufferSize < 2 ^ 64)

omit hused hbuffer in
/-- The offset of a buffer does not wrap. -/
theorem wrap_buffer (hfit : rxBuffers * rxBufferSize < 2 ^ 64) {id : Nat} (hid : id < rxBuffers) :
    wrap (id * rxBufferSize) = id * rxBufferSize := by
  have hle : id * rxBufferSize ≤ rxBuffers * rxBufferSize := Nat.mul_le_mul_right _ (Nat.le_of_lt hid)
  exact Nat.mod_eq_of_lt (hle.trans_lt hfit)

include hused hbuffer hfit

/-- **One used entry.**  What it accepts lies in the buffer of its id. -/
theorem readRxUsedPacket_safe {usedSlot : Nat} (hslot : usedSlot < l.rxVring.queueSize)
    (matchEthertype : Option Nat) :
    Shared.Safe ok (fun o => ∀ p, o = some p → p.Fits base l rxBuffers rxBufferSize)
      (readRxUsedPacket base rxQueueBase l usedSlot rxBuffers rxBufferSize matchEthertype) := by
  apply Shared.safe_bind (readUsedId_safe hused hslot)
  intro id _
  apply Shared.safe_bind (readUsedLen_safe hused hslot)
  intro len _
  split
  · rintro _ ⟨⟩
  · rename_i hid
    split
    · rintro _ ⟨⟩
    · rename_i hlen
      split
      · rintro _ ⟨⟩
      · rename_i hshort
        have hid := Nat.not_le.1 hid
        have hshort := Nat.not_lt.1 hshort
        have hfits : ∀ e, (⟨usedSlot, id, len, e,
            base + l.rxBuffersOffset + wrap (id * rxBufferSize)⟩ : ReceivedPacket).Fits base l
              rxBuffers rxBufferSize := by
          intro e
          refine ⟨hid, ?_, hshort, Nat.not_lt.1 hlen⟩
          show base + l.rxBuffersOffset + wrap (id * rxBufferSize) = _
          rw [wrap_buffer hfit hid]
        have htype := (hfits 0).inRxBuffer (12 + 12) 2 hshort
        apply Shared.safe_bind (Shared.safe_load (hbuffer _ htype))
        intro bytes _
        dsimp only
        split
        · rintro _ ⟨⟩
        · rintro _ ⟨⟩
          exact hfits _

theorem scanUsed_safe (hpos : 0 < l.rxVring.queueSize) (scanIdx : Nat)
    (matchEthertype : Option Nat) (n : Nat) : ∀ i,
    Shared.Safe ok (fun o => ∀ p, o = some p → p.Fits base l rxBuffers rxBufferSize)
      (scanUsed base rxQueueBase l scanIdx rxBuffers rxBufferSize matchEthertype i n) := by
  induction n with
  | zero => exact fun _ => by rintro _ ⟨⟩
  | succ n ih =>
    intro i
    apply Shared.safe_bind
      (readRxUsedPacket_safe hused hbuffer hfit (slotOf_lt hpos scanIdx i) matchEthertype)
    intro received hreceived
    cases received with
    | none => exact ih (i + 1)
    | some packet => exact hreceived

/-- **Any number of polls.** -/
theorem waitForMatchingRxPacket_safe (hpos : 0 < l.rxVring.queueSize)
    (matchEthertype : Option Nat) (polls : Nat) : ∀ scanIdx,
    Shared.Safe ok (fun o => ∀ p, o = some p → p.Fits base l rxBuffers rxBufferSize)
      (waitForMatchingRxPacket base rxQueueBase l rxBuffers rxBufferSize matchEthertype polls
        scanIdx) := by
  induction polls with
  | zero =>
    intro scanIdx
    apply Shared.safe_bind (readUsedIdx_safe hused)
    exact fun _ _ => scanUsed_safe hused hbuffer hfit hpos scanIdx matchEthertype _ 0
  | succ polls ih =>
    intro scanIdx
    apply Shared.safe_bind (readUsedIdx_safe hused)
    intro current _
    apply Shared.safe_bind (scanUsed_safe hused hbuffer hfit hpos scanIdx matchEthertype _ 0)
    intro received hreceived
    cases received with
    | none => exact ih current
    | some packet => exact hreceived

end Rx

section Dump

variable {data usedLen : Nat}
  (hdata : ∀ off n, off + n ≤ usedLen → ok (.read ⟨data + off, n⟩))
include hdata

theorem printHexDump_safe (maxBytes : Nat) :
    Shared.Safe ok (fun _ => True) (printHexDump data usedLen maxBytes) := by
  apply Shared.safe_forM
  intro line hline
  have hline := List.mem_range.1 hline
  have hin := hdata (16 * line) (min 16 (min usedLen maxBytes - 16 * line)) (by omega)
  apply Shared.safe_bind (Shared.safe_load hin)
  intro _ _
  apply Shared.safe_bind (Shared.safe_load hin)
  exact fun _ _ => trivial

theorem printEthernetSummary_safe {off : Nat} (hoff : off ≤ usedLen) :
    Shared.Safe ok (fun _ => True) (printEthernetSummary (data + off) (usedLen - off)) := by
  unfold printEthernetSummary
  split
  · trivial
  · rename_i hlong
    apply Shared.safe_bind (Shared.safe_load (by
      rw [Nat.add_assoc]
      exact hdata (off + 12) 2 (by omega)))
    intro _ _
    apply Shared.safe_bind (Shared.safe_load (hdata off 6 (by omega)))
    intro _ _
    apply Shared.safe_bind (Shared.safe_load (by
      rw [Nat.add_assoc]
      exact hdata (off + 6) 6 (by omega)))
    exact fun _ _ => trivial

theorem printVirtioNetRxBuffer_safe (dumpBytes : Nat) :
    Shared.Safe ok (fun _ => True) (printVirtioNetRxBuffer data usedLen dumpBytes) := by
  unfold printVirtioNetRxBuffer
  split
  · exact printHexDump_safe hdata dumpBytes
  · rename_i hlong
    unfold kVirtioNetHeaderSize at hlong
    apply Shared.safe_bind (Shared.safe_load (hdata 0 1 (by omega)))
    intro _ _
    apply Shared.safe_bind (Shared.safe_load (hdata 1 1 (by omega)))
    intro _ _
    apply Shared.safe_bind (Shared.safe_load (hdata 2 2 (by omega)))
    intro _ _
    apply Shared.safe_bind (Shared.safe_load (hdata 4 2 (by omega)))
    intro _ _
    apply Shared.safe_bind (Shared.safe_load (hdata 6 2 (by omega)))
    intro _ _
    apply Shared.safe_bind (Shared.safe_load (hdata 8 2 (by omega)))
    intro _ _
    apply Shared.safe_bind (Shared.safe_load (hdata 10 2 (by omega)))
    intro _ _
    apply Shared.safe_bind (printEthernetSummary_safe hdata (Nat.not_lt.1 hlong))
    exact fun _ _ => printHexDump_safe hdata dumpBytes

end Dump

section Buffers

variable {base rxQueueBase : Nat} {l : DmaLayout} {rxBuffers rxBufferSize : Nat}
  (hbuffer : ∀ r, InRxBuffer base l rxBuffers rxBufferSize r → ok (.read r))
include hbuffer

/-- **Dumps.** -/
theorem dumpRxUsedBuffers_safe (hused : ∀ r, InUsedRing rxQueueBase l.rxVring r → ok (.read r))
    (hfit : rxBuffers * rxBufferSize < 2 ^ 64) (hpos : 0 < l.rxVring.queueSize)
    (oldIdx newIdx maxEntries dumpBytes : Nat) :
    Shared.Safe ok (fun _ => True) (dumpRxUsedBuffers base rxQueueBase l oldIdx newIdx rxBuffers
      rxBufferSize maxEntries dumpBytes) := by
  apply Shared.safe_forM
  intro i _
  have hslot := slotOf_lt hpos oldIdx i
  apply Shared.safe_bind (readUsedId_safe hused hslot)
  intro id _
  apply Shared.safe_bind (readUsedLen_safe hused hslot)
  intro len _
  split
  · trivial
  · rename_i hid
    split
    · trivial
    · rename_i hlen
      rw [wrap_buffer hfit (Nat.not_le.1 hid)]
      refine printVirtioNetRxBuffer_safe (fun off n hn => hbuffer _ ?_) dumpBytes
      refine ⟨id, Nat.not_le.1 hid, Nat.le_add_right _ _, ?_⟩
      show base + l.rxBuffersOffset + id * rxBufferSize + off + n ≤
        base + l.rxBuffersOffset + id * rxBufferSize + rxBufferSize
      omega

/-- **Replies** to a packet that was accepted. -/
theorem buildTxReplyFromRx_safe {p : ReceivedPacket} (hp : p.Fits base l rxBuffers rxBufferSize)
    (tx : Region) (hwrite : ∀ r, r.Inside tx → ok (.write r)) (replySrcMac : Vector UInt8 6) :
    Shared.Safe ok (fun _ => True)
      (buildTxReplyFromRx tx.offset tx.size p.buffer p.usedLen replySrcMac) := by
  have hlen : 26 ≤ p.usedLen := hp.2.2.1
  have hframe : InRxBuffer base l rxBuffers rxBufferSize ⟨p.buffer + 12, p.usedLen - 12⟩ :=
    hp.inRxBuffer 12 _ (by omega)
  have hsource : InRxBuffer base l rxBuffers rxBufferSize ⟨p.buffer + 12 + 6, 6⟩ :=
    hp.inRxBuffer (12 + 6) 6 (by omega)
  unfold buildTxReplyFromRx txReplySizeForRx
  apply Shared.safe_bind (P := fun txUsedLen => p.usedLen ≤ txUsedLen)
  · apply Shared.safe_bind Shared.safe_ensure
    intro _ _
    show p.usedLen ≤ 12 + max (p.usedLen - 12) 60
    omega
  · intro txUsedLen hle
    apply Shared.safe_bind Shared.safe_ensure
    intro _ hsize
    have hinside : ∀ off n, off + n ≤ p.usedLen → ok (.write ⟨tx.offset + off, n⟩) := by
      intro off n hn
      refine hwrite _ ⟨Nat.le_add_right _ _, ?_⟩
      show tx.offset + off + n ≤ tx.offset + tx.size
      omega
    apply Shared.safe_bind (Shared.safe_store (hwrite _ (by
      rw [List.length_replicate]
      exact ⟨Nat.le_refl _, Nat.le_refl _⟩)))
    intro _ _
    apply Shared.safe_bind (Shared.safe_load (hbuffer _ hframe))
    intro frame hframeLen
    apply Shared.safe_bind (Shared.safe_store (by
      rw [hframeLen]
      exact hinside 12 _ (by omega)))
    intro _ _
    apply Shared.safe_bind (Shared.safe_load (hbuffer _ hsource))
    intro source hsourceLen
    apply Shared.safe_bind (Shared.safe_store (by
      rw [hsourceLen]
      exact hinside 12 6 (by omega)))
    intro _ _
    apply Shared.safe_bind (Shared.safe_store (by
      rw [Vector.length_toList]
      exact hinside (12 + 6) 6 (by omega)))
    exact fun _ _ => trivial

end Buffers

end Safe

/-! ## Hostile devices -/

section Hostile

variable {page rxBufferSize : UInt64} {rxBuffers : UInt16} {l : DmaLayout} {tx : List Region}

/-- The functions that read the RX ring only read it and the posted buffers. -/
def RxReads (base : Nat) (l : DmaLayout) (rxBuffers rxBufferSize : Nat) : Access → Prop
  | .read r => InUsedRing (base + l.rxVringOffset) l.rxVring r ∨
      InRxBuffer base l rxBuffers rxBufferSize r
  | _ => False

/-- A reply is read from a posted buffer and written to its own TX region. -/
def ReplyAccess (base : Nat) (l : DmaLayout) (rxBuffers rxBufferSize : Nat) (slot : Region) :
    Access → Prop
  | .read r => InRxBuffer base l rxBuffers rxBufferSize r
  | .write r => r.Inside ⟨base + slot.offset, slot.size⟩
  | .index _ _ => False

/-- Completions read the TX ring, and index the slots within their size. -/
def CompletionAccess (base : Nat) (l : DmaLayout) : Access → Prop
  | .read r => InUsedRing (base + l.txVringOffset) l.txVring r
  | .write _ => False
  | .index i size => i < size

def Within (dma : Region) : Access → Prop
  | .read r => r.Inside dma
  | .write r => r.Inside dma
  | .index _ _ => True

/-- A packet that `read_rx_used_packet` or `wait_for_matching_rx_packet` accepted. -/
def Accepted (base : Nat) (l : DmaLayout) (rxBuffers rxBufferSize : Nat) (p : ReceivedPacket) :
    Prop :=
  (∃ dev m usedSlot matchEthertype, usedSlot < l.rxVring.queueSize ∧
    (Shared.run dev m (readRxUsedPacket base (base + l.rxVringOffset) l usedSlot rxBuffers
      rxBufferSize matchEthertype)).result = .ok (some p)) ∨
  ∃ dev m polls scanIdx matchEthertype,
    (Shared.run dev m (waitForMatchingRxPacket base (base + l.rxVringOffset) l rxBuffers
      rxBufferSize matchEthertype polls scanIdx)).result = .ok (some p)

/-- Every access, against one device `dev` and one initial memory `m`. -/
structure Contained (base : Nat) (l : DmaLayout) (rxBuffers rxBufferSize : Nat) (tx : List Region)
    (dev : Nat → Mem → Mem) (m : Mem) : Prop where
  usedSlot : ∀ v ∈ [l.rxVring, l.txVring], ∀ idx i, slotOf v idx i < v.queueSize
  readRx : ∀ usedSlot < l.rxVring.queueSize, ∀ matchEthertype,
    ∀ a ∈ (Shared.run dev m (readRxUsedPacket base (base + l.rxVringOffset) l usedSlot rxBuffers
      rxBufferSize matchEthertype)).accesses, RxReads base l rxBuffers rxBufferSize a
  waitRx : ∀ polls scanIdx matchEthertype,
    ∀ a ∈ (Shared.run dev m (waitForMatchingRxPacket base (base + l.rxVringOffset) l rxBuffers
      rxBufferSize matchEthertype polls scanIdx)).accesses, RxReads base l rxBuffers rxBufferSize a
  dumpRx : ∀ oldIdx newIdx maxEntries dumpBytes,
    ∀ a ∈ (Shared.run dev m (dumpRxUsedBuffers base (base + l.rxVringOffset) l oldIdx newIdx
      rxBuffers rxBufferSize maxEntries dumpBytes)).accesses, RxReads base l rxBuffers rxBufferSize a
  reply : ∀ p, Accepted base l rxBuffers rxBufferSize p → ∀ slot ∈ tx, ∀ replySrcMac,
    ∀ a ∈ (Shared.run dev m (buildTxReplyFromRx (base + slot.offset) slot.size p.buffer p.usedLen
      replySrcMac)).accesses, ReplyAccess base l rxBuffers rxBufferSize slot a
  complete : ∀ lastTxUsedIdx txSlots completedTx,
    ∀ a ∈ (Shared.run dev m (consumeTxCompletions (base + l.txVringOffset) l.txVring lastTxUsedIdx
      txSlots completedTx)).accesses, CompletionAccess base l a
  inDma : ∀ a, RxReads base l rxBuffers rxBufferSize a ∨ CompletionAccess base l a ∨
    (∃ slot ∈ tx, ReplyAccess base l rxBuffers rxBufferSize slot a) → Within ⟨base, l.totalSize⟩ a

theorem VringOk.inUsedRing {queueSize : UInt16} {align : UInt64} {v : VringLayout}
    (h : VringOk queueSize align v) {queueBase : Nat} {r : Region}
    (hr : InUsedRing queueBase v r) : r.Inside ⟨queueBase + v.usedOffset, v.usedSize⟩ := by
  have hsize := h.used.2
  have hpos := h.pos
  rcases hr with rfl | ⟨slot, hslot, hlo, hhi⟩
  · refine ⟨Nat.le_add_right _ 2, ?_⟩
    show queueBase + v.usedOffset + 2 + 2 ≤ queueBase + v.usedOffset + v.usedSize
    omega
  · rw [h.size_eq] at hslot
    have hlo : queueBase + v.usedOffset + 2 * 2 + 8 * slot ≤ r.offset := hlo
    have hhi : r.stop ≤ queueBase + v.usedOffset + 2 * 2 + 8 * slot + 8 := hhi
    refine ⟨?_, ?_⟩
    · show queueBase + v.usedOffset ≤ r.offset
      omega
    · show r.stop ≤ queueBase + v.usedOffset + v.usedSize
      omega

theorem Computed.usedRing (h : Computed page rxBuffers rxBufferSize l tx) {base : Nat} {r : Region}
    (hr : InUsedRing (base + l.rxVringOffset) l.rxVring r ∨
      InUsedRing (base + l.txVringOffset) l.txVring r) : r.Inside ⟨base, l.totalSize⟩ := by
  obtain ⟨align, _, _, hok⟩ := h.layoutOk
  have hin : ∀ (off : Nat) (v : VringLayout), r.Inside ⟨base + off + v.usedOffset, v.usedSize⟩ →
      ⟨off + v.usedOffset, v.usedSize⟩ ∈ l.regions rxBuffers rxBufferSize ++ tx →
      r.Inside ⟨base, l.totalSize⟩ := by
    intro off v ⟨hlo, hhi⟩ hmem
    have hstop : off + v.usedOffset + v.usedSize ≤ l.totalSize := (hok.allStacked.within hmem).2
    have hlo : base + off + v.usedOffset ≤ r.offset := hlo
    have hhi : r.stop ≤ base + off + v.usedOffset + v.usedSize := hhi
    refine ⟨?_, ?_⟩
    · show base ≤ r.offset
      omega
    · show r.stop ≤ base + l.totalSize
      omega
  rcases hr with hr | hr
  · refine hin _ _ (hok.rxVring.inUsedRing hr) ?_
    simp [DmaLayout.regions, VringLayout.rings]
  · refine hin _ _ (hok.txVring.inUsedRing hr) ?_
    simp [DmaLayout.regions, VringLayout.rings]

theorem Computed.rxBuffer (h : Computed page rxBuffers rxBufferSize l tx) {base : Nat} {r : Region}
    (hr : InRxBuffer base l rxBuffers.toNat rxBufferSize.toNat r) :
    r.Inside ⟨base, l.totalSize⟩ := by
  obtain ⟨align, _, _, hok⟩ := h.layoutOk
  obtain ⟨id, hid, hlo, hhi⟩ := hr
  have hmem : ⟨l.rxBuffersOffset + id * rxBufferSize.toNat, rxBufferSize.toNat⟩ ∈
      l.regions rxBuffers rxBufferSize ++ tx :=
    List.mem_append_left _ (List.mem_append_right _ (mem_arrayRegions.2 ⟨id, hid, rfl⟩))
  have hstop : l.rxBuffersOffset + id * rxBufferSize.toNat + rxBufferSize.toNat ≤ l.totalSize :=
    (hok.allStacked.within hmem).2
  have hlo : base + l.rxBuffersOffset + id * rxBufferSize.toNat ≤ r.offset := hlo
  have hhi : r.stop ≤
      base + l.rxBuffersOffset + id * rxBufferSize.toNat + rxBufferSize.toNat := hhi
  refine ⟨?_, ?_⟩
  · show base ≤ r.offset
    omega
  · show r.stop ≤ base + l.totalSize
    omega

theorem Computed.txRegion (h : Computed page rxBuffers rxBufferSize l tx) {base : Nat}
    {slot r : Region} (hslot : slot ∈ tx) (hr : r.Inside ⟨base + slot.offset, slot.size⟩) :
    r.Inside ⟨base, l.totalSize⟩ := by
  obtain ⟨align, _, _, hok⟩ := h.layoutOk
  have hstop : slot.offset + slot.size ≤ l.totalSize :=
    (hok.allStacked.within (List.mem_append_right _ hslot)).2
  have hlo : base + slot.offset ≤ r.offset := hr.1
  have hhi : r.stop ≤ base + slot.offset + slot.size := hr.2
  refine ⟨?_, ?_⟩
  · show base ≤ r.offset
    omega
  · show r.stop ≤ base + l.totalSize
    omega

theorem Computed.accepted (h : Computed page rxBuffers rxBufferSize l tx) {base : Nat}
    {p : ReceivedPacket} (hp : Accepted base l rxBuffers.toNat rxBufferSize.toNat p) :
    p.Fits base l rxBuffers.toNat rxBufferSize.toNat := by
  obtain ⟨align, _, _, hok⟩ := h.layoutOk
  have hfit : rxBuffers.toNat * rxBufferSize.toNat < 2 ^ 64 := by
    rw [← hok.rxBuffersSize]
    exact hok.rxBuffersSize_lt
  have hpos : 0 < l.rxVring.queueSize := by
    rw [hok.rxVring.size_eq]
    exact hok.rxVring.pos
  have hused : ∀ r, InUsedRing (base + l.rxVringOffset) l.rxVring r →
      RxReads base l rxBuffers.toNat rxBufferSize.toNat (.read r) := fun _ => Or.inl
  have hbuffer : ∀ r, InRxBuffer base l rxBuffers.toNat rxBufferSize.toNat r →
      RxReads base l rxBuffers.toNat rxBufferSize.toNat (.read r) := fun _ => Or.inr
  rcases hp with ⟨dev, m, usedSlot, matchEthertype, hslot, hres⟩ |
    ⟨dev, m, polls, scanIdx, matchEthertype, hres⟩
  · have hsafe := readRxUsedPacket_safe hused hbuffer hfit hslot matchEthertype
    exact (hsafe.run dev m).2 _ hres p rfl
  · have hsafe := waitForMatchingRxPacket_safe hused hbuffer hfit hpos matchEthertype polls scanIdx
    exact (hsafe.run dev m).2 _ hres p rfl

/-- **A hostile device cannot drive the driver out of its DMA buffer.**  For every layout that
`compute_dma_layout` returns, and every device, which may rewrite the memory before every access:
the accesses stay inside the regions they address, and all of these are in the buffer. -/
theorem hostile_device_contained (h : Computed page rxBuffers rxBufferSize l tx) (base : Nat)
    (dev : Nat → Mem → Mem) (m : Mem) :
    Contained base l rxBuffers.toNat rxBufferSize.toNat tx dev m := by
  obtain ⟨align, _, _, hok⟩ := h.layoutOk
  have hfit : rxBuffers.toNat * rxBufferSize.toNat < 2 ^ 64 := by
    rw [← hok.rxBuffersSize]
    exact hok.rxBuffersSize_lt
  have hrx : 0 < l.rxVring.queueSize := by
    rw [hok.rxVring.size_eq]
    exact hok.rxVring.pos
  have htx : 0 < l.txVring.queueSize := by
    rw [hok.txVring.size_eq]
    exact hok.txVring.pos
  have hused : ∀ r, InUsedRing (base + l.rxVringOffset) l.rxVring r →
      RxReads base l rxBuffers.toNat rxBufferSize.toNat (.read r) := fun _ => Or.inl
  have hbuffer : ∀ r, InRxBuffer base l rxBuffers.toNat rxBufferSize.toNat r →
      RxReads base l rxBuffers.toNat rxBufferSize.toNat (.read r) := fun _ => Or.inr
  constructor
  case usedSlot =>
    intro v hv idx i
    have hpos : 0 < v.queueSize := by
      rcases List.mem_pair.1 hv with rfl | rfl
      · exact hrx
      · exact htx
    exact slotOf_lt hpos idx i
  case readRx =>
    intro usedSlot hslot matchEthertype
    exact ((readRxUsedPacket_safe hused hbuffer hfit hslot matchEthertype).run dev m).1
  case waitRx =>
    intro polls scanIdx matchEthertype
    exact ((waitForMatchingRxPacket_safe hused hbuffer hfit hrx matchEthertype polls
      scanIdx).run dev m).1
  case dumpRx =>
    intro oldIdx newIdx maxEntries dumpBytes
    exact ((dumpRxUsedBuffers_safe hbuffer hused hfit hrx oldIdx newIdx maxEntries
      dumpBytes).run dev m).1
  case reply =>
    intro p hp slot hslot replySrcMac
    exact ((buildTxReplyFromRx_safe (fun _ hr => hr) (h.accepted hp)
      ⟨base + slot.offset, slot.size⟩ (fun _ hr => hr) replySrcMac).run dev m).1
  case complete =>
    intro lastTxUsedIdx txSlots completedTx
    exact ((consumeTxCompletions_safe (fun _ hr => hr) htx (fun _ _ hi => hi) lastTxUsedIdx txSlots
      completedTx).run dev m).1
  case inDma =>
    intro a ha
    cases a with
    | read r =>
      rcases ha with (hr | hr) | hr | ⟨slot, -, hr⟩
      · exact h.usedRing (Or.inl hr)
      · exact h.rxBuffer hr
      · exact h.usedRing (Or.inr hr)
      · exact h.rxBuffer hr
    | write r =>
      rcases ha with hr | hr | ⟨slot, hslot, hr⟩
      · exact hr.elim
      · exact hr.elim
      · exact h.txRegion hslot hr
    | index i size => trivial

theorem hostile_device_contained_echo : ∃ l,
    Computed 4096 64 2048 l (arrayRegions l.txBuffersOffset 2048 8) ∧
    Contained 0 l 64 2048 (arrayRegions l.txBuffersOffset 2048 8)
      (fun t m a => m a + UInt8.ofNat t) (fun a => UInt8.ofNat a) := by
  obtain ⟨l, hl⟩ : ∃ l, computeDmaLayoutTxBuffers 4096 256 256 4096 64 8 2048 2048 = .ok l :=
    ⟨_, rfl⟩
  have h : Computed 4096 64 2048 l (arrayRegions l.txBuffersOffset 2048 8) :=
    Computed.txBuffers hl
  exact ⟨l, h, hostile_device_contained h 0 _ _⟩

end Hostile

end AdvCpp.Virtio
