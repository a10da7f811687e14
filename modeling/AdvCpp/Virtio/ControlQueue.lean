import AdvCpp.Lib.Endian
import AdvCpp.Lib.Shared
import AdvCpp.Virtio.Layout

/-!
# Commands on the control queue

`virtio_net_vfio.hpp`: the driver writes a command into the DMA buffer, chains descriptors over its
parts and makes the chain available; the device has to find the same command again.

* `computeCtrlqDmaLayout` and the three `publish_*_control_command` — with the exceptions they throw.
* `ctrlqLayout_good_iff` — when the layout is disjoint and in bounds: two additions are unchecked.
* `deviceChain`, `deviceRead` — a reference device: it walks the chain and reads through the IOVA.
* `controlCommand_encodes` — the device reads exactly the command.
-/

namespace AdvCpp.Virtio

open AdvCpp.Lib
open Shared (Assign assign peek_assign)

/-! ## The layout -/

def kVirtioNetCtrlHdrSize : Nat := 2
def kVirtioNetCtrlStateSize : Nat := 1
def kVirtioNetCtrlMacTableCountSize : Nat := 4
def kVirtioNetCtrlMacAddrSize : Nat := 6
def kVirtioNetCtrlAckSize : Nat := 1

structure CtrlqDmaLayout where
  rxVring : VringLayout
  txVring : VringLayout
  ctrlVring : VringLayout
  rxVringOffset : Nat
  txVringOffset : Nat
  ctrlVringOffset : Nat
  rxBuffersOffset : Nat
  rxBuffersSize : Nat
  ctrlCommandOffset : Nat
  ctrlHdrOffset : Nat
  ctrlDataOffset : Nat
  ctrlDataSize : Nat
  ctrlStateOffset : Nat
  ctrlAckOffset : Nat
  totalSize : Nat
  deriving DecidableEq

def computeCtrlqDmaLayout (page : UInt64) (rxQueueSize txQueueSize ctrlQueueSize : UInt16)
    (align : UInt64) (rxBuffers : UInt16) (rxBufferSize ctrlDataSize : UInt64) :
    Except String CtrlqDmaLayout := do
  checkRxBuffers rxBuffers rxQueueSize
  ensure (rxBufferSize ≠ 0) "rx-buffer-size must be greater than 0"
  ensure (3 ≤ ctrlQueueSize.toNat)
    "control queue-size must be at least 3 for this descriptor chain"
  ensure (ctrlDataSize ≠ 0) "control command data size must be greater than 0"
  ensure (ctrlDataSize.toNat ≤ 2 ^ 32 - 1) "control command data is too large"
  let rxVring ← computeVringLayout rxQueueSize align
  let txVring ← computeVringLayout txQueueSize align
  let ctrlVring ← computeVringLayout ctrlQueueSize align
  let txVringOffset ← roundUpToPage page rxVring.totalSize
  let txVringEnd ← checkedAdd txVringOffset txVring.totalSize "TX vring end"
  let ctrlVringOffset ← roundUpToPage page txVringEnd
  let ctrlVringEnd ← checkedAdd ctrlVringOffset ctrlVring.totalSize "control vring end"
  let rxBuffersOffset ← roundUpToPage page ctrlVringEnd
  let rxBuffersSize ← checkedMul rxBuffers.toNat rxBufferSize.toNat "RX buffer area"
  let rxBuffersEnd ← checkedAdd rxBuffersOffset rxBuffersSize "RX buffer area end"
  let ctrlCommandOffset ← roundUpToPage page rxBuffersEnd
  let ctrlHdrOffset := ctrlCommandOffset
  let ctrlDataOffset := wrap (ctrlHdrOffset + kVirtioNetCtrlHdrSize)
  let ctrlAckOffset := wrap (ctrlDataOffset + ctrlDataSize.toNat)
  let ctrlEnd ← checkedAdd ctrlAckOffset kVirtioNetCtrlAckSize "control command area"
  let totalSize ← roundUpToPage page ctrlEnd
  return {
    rxVring := rxVring, txVring := txVring, ctrlVring := ctrlVring
    rxVringOffset := 0, txVringOffset := txVringOffset, ctrlVringOffset := ctrlVringOffset
    rxBuffersOffset := rxBuffersOffset, rxBuffersSize := rxBuffersSize
    ctrlCommandOffset := ctrlCommandOffset, ctrlHdrOffset := ctrlHdrOffset
    ctrlDataOffset := ctrlDataOffset, ctrlDataSize := ctrlDataSize.toNat
    ctrlStateOffset := ctrlDataOffset, ctrlAckOffset := ctrlAckOffset, totalSize := totalSize }

/-- The two additions that `compute_ctrlq_dma_layout` does not check have not wrapped. -/
def CtrlqDmaLayout.NoWrap (l : CtrlqDmaLayout) : Prop :=
  l.ctrlHdrOffset + kVirtioNetCtrlHdrSize + l.ctrlDataSize < 2 ^ 64

/-- **The control vring and the command behind it**, over the integers. -/
structure CtrlqOk (align : UInt64) (ctrlQueueSize : UInt16) (l : CtrlqDmaLayout) : Prop where
  ctrlVring : VringOk ctrlQueueSize align l.ctrlVring
  queueSize : 4 ≤ l.ctrlVring.queueSize
  command : l.ctrlVringOffset + l.ctrlVring.totalSize ≤ l.ctrlHdrOffset
  data : l.ctrlDataOffset = l.ctrlHdrOffset + 2
  ack : l.ctrlAckOffset = l.ctrlDataOffset + l.ctrlDataSize
  total : l.ctrlAckOffset + 1 ≤ l.totalSize

section Layout

variable {page align rxBufferSize ctrlDataSize : UInt64}
  {rxQueueSize txQueueSize ctrlQueueSize rxBuffers : UInt16} {l : CtrlqDmaLayout}

/-- **What `compute_ctrlq_dma_layout` returns**, with the two additions that may wrap. -/
structure CtrlqPlaced (page : UInt64) (rxQueueSize txQueueSize ctrlQueueSize : UInt16)
    (align : UInt64) (rxBuffers : UInt16) (rxBufferSize ctrlDataSize : UInt64)
    (l : CtrlqDmaLayout) : Prop where
  rxVring : computeVringLayout rxQueueSize align = .ok l.rxVring
  txVring : computeVringLayout txQueueSize align = .ok l.txVring
  ctrlVring : computeVringLayout ctrlQueueSize align = .ok l.ctrlVring
  queueSize : 3 ≤ ctrlQueueSize.toNat
  rxVringOffset : l.rxVringOffset = 0
  txVringOffset : roundUpToPage page l.rxVring.totalSize = .ok l.txVringOffset
  ctrlVringOffset : roundUpToPage page (l.txVringOffset + l.txVring.totalSize) = .ok l.ctrlVringOffset
  rxBuffersOffset :
    roundUpToPage page (l.ctrlVringOffset + l.ctrlVring.totalSize) = .ok l.rxBuffersOffset
  hdr : roundUpToPage page (l.rxBuffersOffset + rxBuffers.toNat * rxBufferSize.toNat) =
    .ok l.ctrlHdrOffset
  data : l.ctrlDataOffset = wrap (l.ctrlHdrOffset + kVirtioNetCtrlHdrSize)
  dataSize : l.ctrlDataSize = ctrlDataSize.toNat
  ack : l.ctrlAckOffset = wrap (l.ctrlDataOffset + l.ctrlDataSize)
  total : roundUpToPage page (l.ctrlAckOffset + kVirtioNetCtrlAckSize) = .ok l.totalSize

theorem computeCtrlqDmaLayout_placed
    (h : computeCtrlqDmaLayout page rxQueueSize txQueueSize ctrlQueueSize align rxBuffers
      rxBufferSize ctrlDataSize = .ok l) :
    CtrlqPlaced page rxQueueSize txQueueSize ctrlQueueSize align rxBuffers rxBufferSize ctrlDataSize
      l := by
  obtain ⟨_, -, h⟩ := bind_eq_ok.1 h
  obtain ⟨_, -, h⟩ := bind_eq_ok.1 h
  obtain ⟨_, hthree, h⟩ := bind_eq_ok.1 h
  obtain ⟨_, -, h⟩ := bind_eq_ok.1 h
  obtain ⟨_, -, h⟩ := bind_eq_ok.1 h
  obtain ⟨rxVring, hrx, h⟩ := bind_eq_ok.1 h
  obtain ⟨txVring, htx, h⟩ := bind_eq_ok.1 h
  obtain ⟨ctrlVring, hctrl, h⟩ := bind_eq_ok.1 h
  obtain ⟨txVringOffset, htxOffset, h⟩ := bind_eq_ok.1 h
  obtain ⟨txVringEnd, htxEnd, h⟩ := bind_eq_ok.1 h
  obtain ⟨ctrlVringOffset, hctrlOffset, h⟩ := bind_eq_ok.1 h
  obtain ⟨ctrlVringEnd, hctrlEnd, h⟩ := bind_eq_ok.1 h
  obtain ⟨rxBuffersOffset, hrxOffset, h⟩ := bind_eq_ok.1 h
  obtain ⟨rxBuffersSize, hrxSize, h⟩ := bind_eq_ok.1 h
  obtain ⟨rxBuffersEnd, hrxEnd, h⟩ := bind_eq_ok.1 h
  obtain ⟨ctrlCommandOffset, hcommand, h⟩ := bind_eq_ok.1 h
  obtain ⟨ctrlEnd, hend, h⟩ := bind_eq_ok.1 h
  obtain ⟨totalSize, htotal, h⟩ := bind_eq_ok.1 h
  cases h
  obtain ⟨rfl, -⟩ := checkedAdd_ok htxEnd (computeVringLayout_ok htx).total_lt
  obtain ⟨rfl, -⟩ := checkedAdd_ok hctrlEnd (computeVringLayout_ok hctrl).total_lt
  obtain ⟨rfl, hsize⟩ := checkedMul_ok hrxSize
  obtain ⟨rfl, -⟩ := checkedAdd_ok hrxEnd hsize
  have hone : kVirtioNetCtrlAckSize < 2 ^ 64 := by decide
  obtain ⟨rfl, -⟩ := checkedAdd_ok hend hone
  exact
    { rxVring := hrx, txVring := htx, ctrlVring := hctrl, queueSize := ensure_eq_ok.1 hthree
      rxVringOffset := rfl, txVringOffset := htxOffset, ctrlVringOffset := hctrlOffset
      rxBuffersOffset := hrxOffset, hdr := hcommand, data := rfl, dataSize := rfl, ack := rfl
      total := htotal }

/-- Without a wrap, the data and the ACK are behind the header. -/
theorem CtrlqPlaced.command
    (h : CtrlqPlaced page rxQueueSize txQueueSize ctrlQueueSize align rxBuffers rxBufferSize
      ctrlDataSize l) (hwrap : l.NoWrap) :
    l.ctrlDataOffset = l.ctrlHdrOffset + 2 ∧
      l.ctrlAckOffset = l.ctrlDataOffset + l.ctrlDataSize := by
  have hlt : l.ctrlHdrOffset + 2 + l.ctrlDataSize < 2 ^ 64 := hwrap
  have hdata : l.ctrlDataOffset = l.ctrlHdrOffset + 2 := by
    rw [h.data]
    exact Nat.mod_eq_of_lt (Nat.lt_of_le_of_lt (Nat.le_add_right _ _) hlt)
  refine ⟨hdata, ?_⟩
  rw [h.ack, hdata]
  exact Nat.mod_eq_of_lt hlt

theorem computeCtrlqDmaLayout_ok
    (h : computeCtrlqDmaLayout page rxQueueSize txQueueSize ctrlQueueSize align rxBuffers
      rxBufferSize ctrlDataSize = .ok l) (hwrap : l.NoWrap) : CtrlqOk align ctrlQueueSize l := by
  have hplaced := computeCtrlqDmaLayout_placed h
  have hok := computeVringLayout_ok hplaced.ctrlVring
  obtain ⟨hle, -⟩ := roundUpToPage_ok hplaced.rxBuffersOffset
  obtain ⟨hle', -⟩ := roundUpToPage_ok hplaced.hdr
  obtain ⟨hle'', -⟩ := roundUpToPage_ok hplaced.total
  obtain ⟨hdata, hack⟩ := hplaced.command hwrap
  -- a power of two that is at least three
  have hfour : 4 ≤ ctrlQueueSize.toNat := by
    obtain ⟨k, hk⟩ := hok.power
    have hthree := hplaced.queueSize
    rw [hk] at hthree ⊢
    have hk2 : 2 ≤ k := by
      by_contra hk2
      have hlt : 2 ^ k ≤ 2 ^ 1 := Nat.pow_le_pow_right (by decide) (by omega)
      omega
    exact Nat.pow_le_pow_right (n := 2) (by decide) hk2
  exact
    { ctrlVring := hok
      queueSize := by rw [hok.size_eq]; exact hfour
      command := by omega
      data := hdata
      ack := hack
      total := hle'' }

/-! ### Where the command ends -/

/-- Rounding up, over the integers. -/
def pageUp (page n : Nat) : Nat := (n + page - 1) / page * page

/-- The size of a vring, over the integers. -/
def vringBytes (queueSize : UInt16) (align : UInt64) : Nat :=
  pageUp align.toNat (18 * queueSize.toNat + 6) + (6 + 8 * queueSize.toNat)

/-- Where the control data would end if `std::size_t` were unbounded. -/
def ctrlDataEnd (page : UInt64) (rxQueueSize txQueueSize ctrlQueueSize : UInt16)
    (align : UInt64) (rxBuffers : UInt16) (rxBufferSize ctrlDataSize : UInt64) : Nat :=
  let txVringOffset := pageUp page.toNat (vringBytes rxQueueSize align)
  let ctrlVringOffset := pageUp page.toNat (txVringOffset + vringBytes txQueueSize align)
  let rxBuffersOffset := pageUp page.toNat (ctrlVringOffset + vringBytes ctrlQueueSize align)
  let ctrlCommandOffset :=
    pageUp page.toNat (rxBuffersOffset + rxBuffers.toNat * rxBufferSize.toNat)
  ctrlCommandOffset + kVirtioNetCtrlHdrSize + ctrlDataSize.toNat

/-- The vrings, the RX buffers, the control header, the control data and the ACK byte. -/
def CtrlqDmaLayout.regions (l : CtrlqDmaLayout) (rxBuffers : UInt16) (rxBufferSize : UInt64) :
    List Region :=
  [⟨l.rxVringOffset, l.rxVring.totalSize⟩, ⟨l.txVringOffset, l.txVring.totalSize⟩,
    ⟨l.ctrlVringOffset, l.ctrlVring.totalSize⟩] ++
  arrayRegions l.rxBuffersOffset rxBufferSize.toNat rxBuffers.toNat ++
  [⟨l.ctrlHdrOffset, kVirtioNetCtrlHdrSize⟩, ⟨l.ctrlDataOffset, l.ctrlDataSize⟩,
    ⟨l.ctrlAckOffset, kVirtioNetCtrlAckSize⟩]

structure CtrlqDmaLayout.Good (page : UInt64) (l : CtrlqDmaLayout) (rs : List Region) : Prop where
  disjoint : rs.Pairwise Region.Disjoint
  inside : ∀ r ∈ rs, r.stop ≤ l.totalSize
  total : page.toNat ∣ l.totalSize

/-- The only multiple in range. -/
theorem pageUp_eq {page n r : Nat} (hle : n ≤ r) (hdvd : page ∣ r) (hlt : r < n + page) :
    r = pageUp page n := by
  obtain ⟨k, rfl⟩ := hdvd
  have hpos : 0 < page := by omega
  have hdiv : (n + page - 1) / page = k := by
    rw [Nat.div_eq_iff hpos]
    constructor
    · rw [Nat.mul_comm]
      omega
    · rw [Nat.mul_comm]
      omega
  rw [pageUp, hdiv, Nat.mul_comm]

theorem roundUpToPage_eq {n r : Nat} (h : roundUpToPage page n = .ok r) :
    r = pageUp page.toNat n := by
  obtain ⟨hle, hdvd, hlt, -⟩ := alignUp_ok h page.toNat_lt
  exact pageUp_eq hle hdvd hlt

theorem computeVringLayout_total {queueSize : UInt16} {v : VringLayout}
    (h : computeVringLayout queueSize align = .ok v) : v.totalSize = vringBytes queueSize align := by
  have hok := computeVringLayout_ok h
  obtain ⟨_, -, h⟩ := bind_eq_ok.1 h
  obtain ⟨_, -, h⟩ := bind_eq_ok.1 h
  obtain ⟨usedOffset, hused, h⟩ := bind_eq_ok.1 h
  cases h
  obtain ⟨hle, hdvd, hlt, -⟩ := alignUp_ok hused align.toNat_lt
  have hq := queueSize.toNat_lt
  have havail : wrap (0 + wrap (kVringDescSize * queueSize.toNat)) = 16 * queueSize.toNat ∧
      wrap (2 * ((3 + queueSize.toNat) % 2 ^ 32)) = 2 * (3 + queueSize.toNat) := hok.avail
  have hend : wrap (16 * queueSize.toNat + 2 * (3 + queueSize.toNat)) =
      18 * queueSize.toNat + 6 := by
    unfold wrap
    omega
  rw [← havail.1, ← havail.2] at hend
  rw [hend] at hle hlt
  rw [hok.total, hok.used.2, vringBytes, ← pageUp_eq hle hdvd hlt]

theorem CtrlqPlaced.noWrap_iff
    (h : CtrlqPlaced page rxQueueSize txQueueSize ctrlQueueSize align rxBuffers rxBufferSize
      ctrlDataSize l) :
    l.NoWrap ↔ ctrlDataEnd page rxQueueSize txQueueSize ctrlQueueSize align rxBuffers rxBufferSize
      ctrlDataSize < 2 ^ 64 := by
  unfold CtrlqDmaLayout.NoWrap
  simp only [ctrlDataEnd]
  rw [← computeVringLayout_total h.rxVring, ← computeVringLayout_total h.txVring,
    ← computeVringLayout_total h.ctrlVring, ← roundUpToPage_eq h.txVringOffset,
    ← roundUpToPage_eq h.ctrlVringOffset, ← roundUpToPage_eq h.rxBuffersOffset,
    ← roundUpToPage_eq h.hdr, h.dataSize]

theorem CtrlqPlaced.stacked
    (h : CtrlqPlaced page rxQueueSize txQueueSize ctrlQueueSize align rxBuffers rxBufferSize
      ctrlDataSize l) (hwrap : l.NoWrap) :
    Stacked 0 l.totalSize (l.regions rxBuffers rxBufferSize) := by
  obtain ⟨htx, -⟩ := roundUpToPage_ok h.txVringOffset
  obtain ⟨hctrl, -⟩ := roundUpToPage_ok h.ctrlVringOffset
  obtain ⟨hrx, -⟩ := roundUpToPage_ok h.rxBuffersOffset
  obtain ⟨hhdr, -⟩ := roundUpToPage_ok h.hdr
  obtain ⟨htotal, -⟩ := roundUpToPage_ok h.total
  obtain ⟨hdata, hack⟩ := h.command hwrap
  have hvrings : Stacked 0 l.rxBuffersOffset
      [⟨l.rxVringOffset, l.rxVring.totalSize⟩, ⟨l.txVringOffset, l.txVring.totalSize⟩,
        ⟨l.ctrlVringOffset, l.ctrlVring.totalSize⟩] := by
    simp only [Stacked, Region.stop, h.rxVringOffset]
    omega
  have hcommand : Stacked l.ctrlHdrOffset l.totalSize
      [⟨l.ctrlHdrOffset, kVirtioNetCtrlHdrSize⟩, ⟨l.ctrlDataOffset, l.ctrlDataSize⟩,
        ⟨l.ctrlAckOffset, kVirtioNetCtrlAckSize⟩] := by
    simp only [Stacked, Region.stop, kVirtioNetCtrlHdrSize]
    omega
  exact (hvrings.append (stacked_array _ _ _)).append (hcommand.mono hhdr (Nat.le_refl _))

/-- If an addition wraps, the header or the data ends above `2 ^ 64`. -/
theorem CtrlqPlaced.outside
    (h : CtrlqPlaced page rxQueueSize txQueueSize ctrlQueueSize align rxBuffers rxBufferSize
      ctrlDataSize l) (hwrap : ¬l.NoWrap) :
    ∃ r ∈ l.regions rxBuffers rxBufferSize, l.totalSize < r.stop := by
  obtain ⟨-, -, hlt, -⟩ := roundUpToPage_ok h.total
  have hge : 2 ^ 64 ≤ l.ctrlHdrOffset + kVirtioNetCtrlHdrSize + l.ctrlDataSize := Nat.not_lt.1 hwrap
  by_cases hhdr : l.ctrlHdrOffset + kVirtioNetCtrlHdrSize < 2 ^ 64
  · have hdata : l.ctrlDataOffset = l.ctrlHdrOffset + kVirtioNetCtrlHdrSize := by
      rw [h.data]
      exact Nat.mod_eq_of_lt hhdr
    refine ⟨⟨l.ctrlDataOffset, l.ctrlDataSize⟩, by simp [CtrlqDmaLayout.regions], ?_⟩
    show l.totalSize < l.ctrlDataOffset + l.ctrlDataSize
    omega
  · refine ⟨⟨l.ctrlHdrOffset, kVirtioNetCtrlHdrSize⟩, by simp [CtrlqDmaLayout.regions], ?_⟩
    show l.totalSize < l.ctrlHdrOffset + kVirtioNetCtrlHdrSize
    omega

/-- **When the control-queue layout is disjoint and in bounds**: exactly if the control data would
end below `2 ^ 64` in unbounded arithmetic. -/
theorem ctrlqLayout_good_iff (page : UInt64) (rxQueueSize txQueueSize ctrlQueueSize : UInt16)
    (align : UInt64) (rxBuffers : UInt16) (rxBufferSize ctrlDataSize : UInt64) (l : CtrlqDmaLayout)
    (h : computeCtrlqDmaLayout page rxQueueSize txQueueSize ctrlQueueSize align rxBuffers
      rxBufferSize ctrlDataSize = .ok l) :
    l.Good page (l.regions rxBuffers rxBufferSize) ↔
      ctrlDataEnd page rxQueueSize txQueueSize ctrlQueueSize align rxBuffers rxBufferSize
        ctrlDataSize < 2 ^ 64 := by
  have hplaced := computeCtrlqDmaLayout_placed h
  rw [← hplaced.noWrap_iff]
  constructor
  · intro hgood
    by_contra hwrap
    obtain ⟨r, hr, hout⟩ := hplaced.outside hwrap
    exact absurd (hgood.inside r hr) (Nat.not_le.2 hout)
  · intro hwrap
    have hstacked := hplaced.stacked hwrap
    obtain ⟨-, hdvd, -⟩ := roundUpToPage_ok hplaced.total
    exact ⟨hstacked.disjoint, fun r hr => (hstacked.within hr).2, hdvd⟩

/-- The layout of the MAC-table sample. -/
theorem ctrlqLayout_good_sample : ∃ l,
    computeCtrlqDmaLayout 4096 256 256 64 4096 64 2048 14 = .ok l ∧
    (l.Good 4096 (l.regions 64 2048) ↔ ctrlDataEnd 4096 256 256 64 4096 64 2048 14 < 2 ^ 64) := by
  obtain ⟨l, hl⟩ : ∃ l, computeCtrlqDmaLayout 4096 256 256 64 4096 64 2048 14 = .ok l := ⟨_, rfl⟩
  exact ⟨l, hl, ctrlqLayout_good_iff 4096 256 256 64 4096 64 2048 14 l hl⟩

/-- RX buffers up to the last page: the control data wraps, and the whole buffer is one page. -/
theorem ctrlqLayout_wraps : ∃ l,
    computeCtrlqDmaLayout 4096 1 1 4 4096 1 (UInt64.ofNat (2 ^ 64 - 4096 - 24576)) 4096 = .ok l ∧
    l.ctrlHdrOffset = 2 ^ 64 - 4096 ∧ l.ctrlAckOffset = 2 ∧ l.totalSize = 4096 ∧
    ¬l.Good 4096 (l.regions 1 (UInt64.ofNat (2 ^ 64 - 4096 - 24576))) := by
  refine ⟨_, rfl, rfl, rfl, rfl, fun hgood => ?_⟩
  have hhdr := hgood.inside ⟨2 ^ 64 - 4096, 2⟩ (List.mem_append_right _ List.mem_cons_self)
  exact absurd hhdr (by decide)

end Layout

/-! ## Descriptors -/

/-- The fields have 64, 32, 16 and 16 bits. -/
def VringDesc.Fits (d : VringDesc) : Prop :=
  d.addr < 2 ^ 64 ∧ d.len < 2 ^ 32 ∧ d.flags < 2 ^ 16 ∧ d.next < 2 ^ 16

/-- `&vring_descs(queue_base, layout)[i]` -/
def descAddr (queueBase : Nat) (v : VringLayout) (i : Nat) : Nat :=
  queueBase + v.descOffset + kVringDescSize * i

def availRing (queueBase : Nat) (v : VringLayout) : Nat := queueBase + v.availOffset + 2 * 2

def availIdx (queueBase : Nat) (v : VringLayout) : Nat := queueBase + v.availOffset + 2

/-- `desc[i].addr = …; desc[i].len = …; desc[i].flags = …; desc[i].next = …;` -/
def writeDesc (queueBase : Nat) (v : VringLayout) (i : Nat) (d : VringDesc) : List Assign :=
  [(descAddr queueBase v i, leBytes 8 d.addr), (descAddr queueBase v i + 8, leBytes 4 d.len),
    (descAddr queueBase v i + 12, leBytes 2 d.flags), (descAddr queueBase v i + 14, leBytes 2 d.next)]

/-- The descriptors `i`, `i + 1`, … -/
def writeDescs (queueBase : Nat) (v : VringLayout) : Nat → List VringDesc → List Assign
  | _, [] => []
  | i, d :: ds => writeDesc queueBase v i d ++ writeDescs queueBase v (i + 1) ds

/-- `avail_ring[0] = 0; *vring_avail_idx(…) = 1;` -/
def publishHead (queueBase : Nat) (v : VringLayout) : List Assign :=
  [(availRing queueBase v, leBytes 2 0), (availIdx queueBase v, leBytes 2 1)]

section Descriptors

variable {queueBase : Nat} {v : VringLayout} {m : Mem}

theorem writeDesc_stacked (i : Nat) (d : VringDesc) :
    Stacked (descAddr queueBase v i) (descAddr queueBase v (i + 1))
      ((writeDesc queueBase v i d).map Assign.region) := by
  have hstep : descAddr queueBase v (i + 1) = descAddr queueBase v i + 16 := by
    unfold descAddr kVringDescSize
    omega
  rw [hstep]
  simp only [writeDesc, Assign.region, List.map_cons, List.map_nil, Stacked, Region.stop,
    leBytes_length]
  omega

theorem writeDescs_stacked (ds : List VringDesc) : ∀ i,
    Stacked (descAddr queueBase v i) (descAddr queueBase v (i + ds.length))
      ((writeDescs queueBase v i ds).map Assign.region) := by
  induction ds with
  | nil => exact fun i => Nat.le_refl _
  | cons d ds ih =>
    intro i
    have hrest := ih (i + 1)
    rw [Nat.add_right_comm] at hrest
    rw [writeDescs, List.map_append]
    exact (writeDesc_stacked i d).append hrest

theorem writeDesc_mem {ds : List VringDesc} {d : VringDesc} : ∀ {i j : Nat}, ds[j]? = some d →
    ∀ w ∈ writeDesc queueBase v (i + j) d, w ∈ writeDescs queueBase v i ds := by
  induction ds with
  | nil => rintro i j ⟨⟩
  | cons d' ds ih =>
    intro i j hj w hw
    cases j with
    | zero =>
      cases hj
      exact List.mem_append_left _ hw
    | succ j =>
      rw [← Nat.add_assoc, Nat.add_right_comm] at hw
      exact List.mem_append_right _ (ih hj w hw)

/-! ## A reference device -/

def readDesc (m : Mem) (queueBase : Nat) (v : VringLayout) (i : Nat) : VringDesc where
  addr := leValue (peek m (descAddr queueBase v i) 8)
  len := leValue (peek m (descAddr queueBase v i + 8) 4)
  flags := leValue (peek m (descAddr queueBase v i + 12) 2)
  next := leValue (peek m (descAddr queueBase v i + 14) 2)

def VringDesc.hasNext (d : VringDesc) : Prop := d.flags &&& kVringDescFNext ≠ 0

def VringDesc.deviceWrites (d : VringDesc) : Prop := d.flags &&& kVringDescFWrite ≠ 0

instance (d : VringDesc) : Decidable d.hasNext := by
  unfold VringDesc.hasNext
  exact inferInstance

theorem VringDesc.hasNext_next (a n x : Nat) : VringDesc.hasNext ⟨a, n, kVringDescFNext, x⟩ :=
  (by decide : 1 &&& 1 ≠ 0)

theorem VringDesc.not_deviceWrites_next (a n x : Nat) :
    ¬ VringDesc.deviceWrites ⟨a, n, kVringDescFNext, x⟩ :=
  (by decide : ¬ 1 &&& 2 ≠ 0)

theorem VringDesc.not_hasNext_write (a n x : Nat) :
    ¬ VringDesc.hasNext ⟨a, n, kVringDescFWrite, x⟩ :=
  (by decide : ¬ 2 &&& 1 ≠ 0)

theorem VringDesc.deviceWrites_write (a n x : Nat) :
    VringDesc.deviceWrites ⟨a, n, kVringDescFWrite, x⟩ :=
  (by decide : 2 &&& 2 ≠ 0)

/-- The chain from descriptor `i` on; a device gives up outside the table, and after `fuel`
descriptors. -/
def walk (m : Mem) (queueBase : Nat) (v : VringLayout) : (fuel i : Nat) → Option (List VringDesc)
  | 0, _ => none
  | fuel + 1, i =>
    if v.queueSize ≤ i then none
    else
      let d := readDesc m queueBase v i
      if d.hasNext then (walk m queueBase v fuel d.next).map (d :: ·) else some [d]

/-- The chain in the first slot of the avail ring. -/
def deviceChain (m : Mem) (queueBase : Nat) (v : VringLayout) : Option (List VringDesc) :=
  if leValue (peek m (availIdx queueBase v) 2) = 0 then none
  else walk m queueBase v v.queueSize (leValue (peek m (availRing queueBase v) 2))

/-- What a device finds behind a descriptor; `baseIova` is mapped to `dmaBase`. -/
def deviceRead (m : Mem) (dmaBase baseIova : Nat) (d : VringDesc) : List UInt8 :=
  peek m (dmaBase + (d.addr - baseIova)) d.len

/-- Each descriptor but the last leads to the next one. -/
def Linked : Nat → List VringDesc → Prop
  | _, [] => False
  | _, [d] => ¬ d.hasNext
  | i, d :: ds => d.hasNext ∧ d.next = i + 1 ∧ Linked (i + 1) ds

theorem readDesc_of_peek {i : Nat} {d : VringDesc} (hd : d.Fits)
    (h : ∀ w ∈ writeDesc queueBase v i d, peek m w.1 w.2.length = w.2) :
    readDesc m queueBase v i = d := by
  obtain ⟨haddr, hlen, hflags, hnext⟩ := hd
  simp only [writeDesc, List.forall_mem_cons, leBytes_length] at h
  obtain ⟨h₁, h₂, h₃, h₄, -⟩ := h
  simp only [readDesc, h₁, h₂, h₃, h₄, leValue_leBytes_of_lt (w := 8) haddr,
    leValue_leBytes_of_lt (w := 4) hlen, leValue_leBytes_of_lt (w := 2) hflags,
    leValue_leBytes_of_lt (w := 2) hnext]

/-- **Walking a chain** that is in the table. -/
theorem walk_linked {ds : List VringDesc} : ∀ {fuel i : Nat}, Linked i ds →
    i + ds.length ≤ v.queueSize → ds.length ≤ fuel →
    (∀ j d, ds[j]? = some d → readDesc m queueBase v (i + j) = d) →
    walk m queueBase v fuel i = some ds := by
  induction ds with
  | nil => exact fun hlinked => hlinked.elim
  | cons d ds ih =>
    intro fuel i hlinked hsize hfuel hread
    rw [List.length_cons] at hsize hfuel
    obtain ⟨fuel, rfl⟩ : ∃ f, fuel = f + 1 := ⟨fuel - 1, by omega⟩
    have hfirst : readDesc m queueBase v i = d := hread 0 d rfl
    rw [walk, if_neg (by omega), hfirst]
    cases ds with
    | nil =>
      have hlast : ¬ d.hasNext := hlinked
      exact if_neg hlast
    | cons d' ds =>
      obtain ⟨hnext, hsucc, hrest⟩ := hlinked
      have htail := ih hrest (by omega) (by omega : _ ≤ fuel) fun j e he => by
        rw [Nat.add_assoc, Nat.add_comm 1 j]
        exact hread (j + 1) e he
      dsimp only
      rw [if_pos hnext, hsucc, htail]
      rfl

/-! ## Publishing -/

/-- The assignments of a command: its bytes, its descriptors, and the head of the chain. -/
theorem command_read_back {command : List Assign} {ds : List VringDesc} {l : CtrlqDmaLayout}
    {align : UInt64} {ctrlQueueSize : UInt16} (hok : CtrlqOk align ctrlQueueSize l) {dmaBase hi : Nat}
    (hcommand : Stacked (dmaBase + l.ctrlHdrOffset) hi (command.map Assign.region))
    (hlinked : Linked 0 ds) (hlen : ds.length ≤ 4) (hfits : ∀ d ∈ ds, d.Fits) :
    let m' := assign m (command ++ (writeDescs (dmaBase + l.ctrlVringOffset) l.ctrlVring 0 ds ++
      publishHead (dmaBase + l.ctrlVringOffset) l.ctrlVring))
    deviceChain m' (dmaBase + l.ctrlVringOffset) l.ctrlVring = some ds ∧
      ∀ w ∈ command, peek m' w.1 w.2.length = w.2 := by
  intro m'
  have hring := hok.ctrlVring
  have hsize := hok.queueSize
  have havail := hring.avail
  have hdesc := hring.desc
  have hused := hring.used
  have htotal := hring.total
  have hbehind := hok.command
  have hq := hring.size_eq
  -- in the order of their addresses: the descriptors, the avail ring, the command
  have hhead : Stacked (descAddr (dmaBase + l.ctrlVringOffset) l.ctrlVring (0 + ds.length))
      (dmaBase + l.ctrlHdrOffset) ([(availIdx (dmaBase + l.ctrlVringOffset) l.ctrlVring, leBytes 2 1),
        (availRing (dmaBase + l.ctrlVringOffset) l.ctrlVring, leBytes 2 0)].map Assign.region) := by
    simp only [Assign.region, List.map_cons, List.map_nil, Stacked, Region.stop, leBytes_length,
      descAddr, availIdx, availRing, kVringDescSize]
    omega
  have hall := ((writeDescs_stacked ds 0).append hhead).append hcommand
  have hdisjoint : ((command ++ (writeDescs (dmaBase + l.ctrlVringOffset) l.ctrlVring 0 ds ++
      publishHead (dmaBase + l.ctrlVringOffset) l.ctrlVring)).map Assign.region).Pairwise
        Region.Disjoint := by
    refine (List.Perm.pairwise_iff (fun h => Region.Disjoint.symm h) ?_).1 hall.disjoint
    rw [← List.map_append, ← List.map_append]
    refine List.Perm.map _ (List.perm_append_comm.trans (List.Perm.append_left _ ?_))
    exact List.Perm.append_left _ (List.Perm.swap _ _ _)
  have hback : ∀ w ∈ command ++ (writeDescs (dmaBase + l.ctrlVringOffset) l.ctrlVring 0 ds ++
      publishHead (dmaBase + l.ctrlVringOffset) l.ctrlVring), peek m' w.1 w.2.length = w.2 :=
    fun w hw => peek_assign hdisjoint hw
  refine ⟨?_, fun w hw => hback w (List.mem_append_left _ hw)⟩
  have hpublished : ∀ w ∈ publishHead (dmaBase + l.ctrlVringOffset) l.ctrlVring,
      peek m' w.1 w.2.length = w.2 :=
    fun w hw => hback w (List.mem_append_right _ (List.mem_append_right _ hw))
  have hfirst : peek m' (availRing (dmaBase + l.ctrlVringOffset) l.ctrlVring) 2 = leBytes 2 0 :=
    hpublished _ List.mem_cons_self
  have hidx : peek m' (availIdx (dmaBase + l.ctrlVringOffset) l.ctrlVring) 2 = leBytes 2 1 :=
    hpublished _ (List.mem_cons_of_mem _ List.mem_cons_self)
  have hone : leValue (leBytes 2 1) ≠ 0 := by decide
  have hzero : leValue (leBytes 2 0) = 0 := by decide
  unfold deviceChain
  rw [hidx, if_neg hone, hfirst, hzero]
  refine walk_linked hlinked (by omega) (by omega) fun j d hj => ?_
  refine readDesc_of_peek (hfits d (List.mem_of_getElem? hj)) fun w hw => hback w ?_
  exact List.mem_append_right _ (List.mem_append_left _ (writeDesc_mem hj w hw))

end Descriptors

/-! ## The commands -/

def kVirtioNetCtrlRx : UInt8 := 0
def kVirtioNetCtrlRxPromisc : UInt8 := 0
def kVirtioNetCtrlMac : UInt8 := 1
def kVirtioNetCtrlMacTableSet : UInt8 := 0
def kVirtioNetCtrlMacAddrSet : UInt8 := 1
def kVirtioNetCtrlAckInitial : UInt8 := 0xff

/-- The body that `publish_rx_promisc_control_command` and `publish_mac_addr_control_command`
share: a header, one piece of data and the acknowledgement. -/
def publishControlCommand (ctrlQueueBase dmaBase : Nat) (layout : CtrlqDmaLayout) (baseIova : Nat)
    (class_ command : UInt8) (data : List UInt8) (tooSmall : String) : Shared String Unit := do
  Shared.ensure (data.length ≤ layout.ctrlDataSize) tooSmall
  Shared.stores
    ([(dmaBase + layout.ctrlHdrOffset, [class_]), (dmaBase + layout.ctrlHdrOffset + 1, [command]),
      (dmaBase + layout.ctrlDataOffset, data),
      (dmaBase + layout.ctrlAckOffset, [kVirtioNetCtrlAckInitial])] ++
    (writeDescs ctrlQueueBase layout.ctrlVring 0
      [⟨wrap (baseIova + layout.ctrlHdrOffset), kVirtioNetCtrlHdrSize, kVringDescFNext, 1⟩,
        ⟨wrap (baseIova + layout.ctrlDataOffset), data.length, kVringDescFNext, 2⟩,
        ⟨wrap (baseIova + layout.ctrlAckOffset), kVirtioNetCtrlAckSize, kVringDescFWrite, 0⟩] ++
    publishHead ctrlQueueBase layout.ctrlVring))

def publishRxPromiscControlCommand (ctrlQueueBase dmaBase : Nat) (layout : CtrlqDmaLayout)
    (baseIova : Nat) (promisc : Bool) : Shared String Unit :=
  publishControlCommand ctrlQueueBase dmaBase layout baseIova kVirtioNetCtrlRx
    kVirtioNetCtrlRxPromisc [if promisc then 1 else 0]
    "control command data area is too small for RX_PROMISC state"

def publishMacAddrControlCommand (ctrlQueueBase dmaBase : Nat) (layout : CtrlqDmaLayout)
    (baseIova : Nat) (mac : Vector UInt8 6) : Shared String Unit :=
  publishControlCommand ctrlQueueBase dmaBase layout baseIova kVirtioNetCtrlMac
    kVirtioNetCtrlMacAddrSet mac.toList "control command data area is too small for MAC_ADDR_SET"

def unicastTableSize : Nat := kVirtioNetCtrlMacTableCountSize + 1 * kVirtioNetCtrlMacAddrSize
def multicastTableSize : Nat := kVirtioNetCtrlMacTableCountSize + 0 * kVirtioNetCtrlMacAddrSize

def publishMacTableControlCommand (ctrlQueueBase dmaBase : Nat) (layout : CtrlqDmaLayout)
    (baseIova : Nat) (unicastMac : Vector UInt8 6) : Shared String Unit := do
  Shared.ensure (4 ≤ layout.ctrlVring.queueSize)
    "control queue-size must be at least 4 for MAC_TABLE_SET"
  Shared.ensure (unicastTableSize + multicastTableSize ≤ layout.ctrlDataSize)
    "control command data area is too small for MAC_TABLE_SET"
  Shared.stores
    ([(dmaBase + layout.ctrlHdrOffset, [kVirtioNetCtrlMac]),
      (dmaBase + layout.ctrlHdrOffset + 1, [kVirtioNetCtrlMacTableSet]),
      (dmaBase + layout.ctrlDataOffset, leBytes 4 1),
      (dmaBase + layout.ctrlDataOffset + kVirtioNetCtrlMacTableCountSize, unicastMac.toList),
      (dmaBase + layout.ctrlDataOffset + unicastTableSize, leBytes 4 0),
      (dmaBase + layout.ctrlAckOffset, [kVirtioNetCtrlAckInitial])] ++
    (writeDescs ctrlQueueBase layout.ctrlVring 0
      [⟨wrap (baseIova + layout.ctrlHdrOffset), kVirtioNetCtrlHdrSize, kVringDescFNext, 1⟩,
        ⟨wrap (baseIova + layout.ctrlDataOffset), unicastTableSize, kVringDescFNext, 2⟩,
        ⟨wrap (baseIova + layout.ctrlDataOffset + unicastTableSize), multicastTableSize,
          kVringDescFNext, 3⟩,
        ⟨wrap (baseIova + layout.ctrlAckOffset), kVirtioNetCtrlAckSize, kVringDescFWrite, 0⟩] ++
    publishHead ctrlQueueBase layout.ctrlVring))

inductive ControlCommand where
  | rxPromisc (promisc : Bool)
  | macAddr (mac : Vector UInt8 6)
  | macTable (unicastMac : Vector UInt8 6)

namespace ControlCommand

def publish (ctrlQueueBase dmaBase : Nat) (layout : CtrlqDmaLayout) (baseIova : Nat) :
    ControlCommand → Shared String Unit
  | rxPromisc promisc =>
    publishRxPromiscControlCommand ctrlQueueBase dmaBase layout baseIova promisc
  | macAddr mac => publishMacAddrControlCommand ctrlQueueBase dmaBase layout baseIova mac
  | macTable unicastMac =>
    publishMacTableControlCommand ctrlQueueBase dmaBase layout baseIova unicastMac

/-- What the device has to read: class, command, payload. -/
def bytes : ControlCommand → List UInt8
  | rxPromisc promisc => [kVirtioNetCtrlRx, kVirtioNetCtrlRxPromisc, if promisc then 1 else 0]
  | macAddr mac => [kVirtioNetCtrlMac, kVirtioNetCtrlMacAddrSet] ++ mac.toList
  | macTable unicastMac =>
    [kVirtioNetCtrlMac, kVirtioNetCtrlMacTableSet] ++ leBytes 4 1 ++ unicastMac.toList ++ leBytes 4 0

/-- The payload, without the header. -/
def dataSize (c : ControlCommand) : Nat := c.bytes.length - kVirtioNetCtrlHdrSize

end ControlCommand

def VringDesc.region (d : VringDesc) : Region := ⟨d.addr, d.len⟩

/-- The device finds the command `bytes`, and behind it one byte to acknowledge it in. -/
def Encodes (m : Mem) (dmaBase baseIova : Nat) (l : CtrlqDmaLayout) (bytes : List UInt8) : Prop :=
  ∃ chain ack, deviceChain m (dmaBase + l.ctrlVringOffset) l.ctrlVring = some (chain ++ [ack]) ∧
    (∀ d ∈ chain, ¬ d.deviceWrites) ∧ chain.flatMap (deviceRead m dmaBase baseIova) = bytes ∧
    ack.deviceWrites ∧ ack.len = 1 ∧ deviceRead m dmaBase baseIova ack = [0xff] ∧
    (∀ d ∈ chain, d.region.Disjoint ack.region) ∧
    ∀ d ∈ chain ++ [ack], baseIova ≤ d.addr ∧ d.addr + d.len ≤ baseIova + l.totalSize

section Encoding

variable {align : UInt64} {ctrlQueueSize : UInt16} {l : CtrlqDmaLayout} {dmaBase baseIova : Nat}
  {m : Mem}

theorem deviceRead_iova (off len flags next : Nat) :
    deviceRead m dmaBase baseIova ⟨baseIova + off, len, flags, next⟩ = peek m (dmaBase + off) len := by
  unfold deviceRead
  rw [Nat.add_sub_cancel_left]

/-- **One piece of data.** -/
theorem publishControlCommand_encodes (hok : CtrlqOk align ctrlQueueSize l)
    (hiova : baseIova + l.totalSize ≤ 2 ^ 64) (class_ command : UInt8) {data : List UInt8}
    (hfit : data.length ≤ l.ctrlDataSize) (hlen : data.length < 2 ^ 32) (tooSmall : String) (m : Mem) :
    ∃ m', Shared.exec m (publishControlCommand (dmaBase + l.ctrlVringOffset) dmaBase l baseIova
        class_ command data tooSmall) = (.ok (), m') ∧
      Encodes m' dmaBase baseIova l (class_ :: command :: data) := by
  have hdata := hok.data
  have hack := hok.ack
  have htotal := hok.total
  refine ⟨_, (Shared.exec_bind_ok (Shared.exec_ensure hfit m _) _).trans (Shared.exec_stores _ _), ?_⟩
  have hnowrap : ∀ off, off < l.totalSize → wrap (baseIova + off) = baseIova + off :=
    fun off hoff => Nat.mod_eq_of_lt (by omega)
  rw [hnowrap _ (by omega), hnowrap _ (by omega), hnowrap _ (by omega)]
  have hcommand : Stacked (dmaBase + l.ctrlHdrOffset) (dmaBase + l.totalSize)
      (([(dmaBase + l.ctrlHdrOffset, [class_]), (dmaBase + l.ctrlHdrOffset + 1, [command]),
        (dmaBase + l.ctrlDataOffset, data),
        (dmaBase + l.ctrlAckOffset, [kVirtioNetCtrlAckInitial])] : List Assign).map Assign.region) := by
    simp only [Assign.region, List.map_cons, List.map_nil, Stacked, Region.stop, List.length_cons,
      List.length_nil]
    omega
  have hlinked : Linked 0
      [⟨baseIova + l.ctrlHdrOffset, kVirtioNetCtrlHdrSize, kVringDescFNext, 1⟩,
        ⟨baseIova + l.ctrlDataOffset, data.length, kVringDescFNext, 2⟩,
        ⟨baseIova + l.ctrlAckOffset, kVirtioNetCtrlAckSize, kVringDescFWrite, 0⟩] :=
    ⟨VringDesc.hasNext_next _ _ _, rfl, VringDesc.hasNext_next _ _ _, rfl,
      VringDesc.not_hasNext_write _ _ _⟩
  have hfits : ∀ d ∈ [(⟨baseIova + l.ctrlHdrOffset, kVirtioNetCtrlHdrSize, kVringDescFNext, 1⟩ :
        VringDesc), ⟨baseIova + l.ctrlDataOffset, data.length, kVringDescFNext, 2⟩,
        ⟨baseIova + l.ctrlAckOffset, kVirtioNetCtrlAckSize, kVringDescFWrite, 0⟩], d.Fits := by
    simp only [List.forall_mem_cons, VringDesc.Fits, kVirtioNetCtrlHdrSize, kVirtioNetCtrlAckSize,
      kVringDescFNext, kVringDescFWrite]
    refine ⟨by omega, by omega, by omega, by rintro _ ⟨⟩⟩
  obtain ⟨hchain, hread⟩ := command_read_back (m := m) hok hcommand hlinked (Nat.le_succ 3) hfits
  generalize assign m _ = m' at hchain hread ⊢
  simp only [List.forall_mem_cons, List.length_cons, List.length_nil, Nat.zero_add] at hread
  obtain ⟨hclass, hcmd, hpayload, hackRead, -⟩ := hread
  have hheader : peek m' (dmaBase + l.ctrlHdrOffset) kVirtioNetCtrlHdrSize = [class_, command] := by
    rw [kVirtioNetCtrlHdrSize, peek_add m' _ 1 1, hclass, hcmd]
    rfl
  refine ⟨[⟨_, _, _, _⟩, ⟨_, _, _, _⟩], ⟨_, _, _, _⟩, hchain, ?_, ?_,
    VringDesc.deviceWrites_write _ _ _, rfl, ?_, ?_, ?_⟩
  · simp only [List.forall_mem_cons, VringDesc.not_deviceWrites_next, not_false_eq_true, true_and]
    rintro _ ⟨⟩
  · rw [List.flatMap_cons, List.flatMap_cons, List.flatMap_nil, deviceRead_iova, deviceRead_iova,
      hpayload, hheader, List.append_nil]
    rfl
  · rw [deviceRead_iova]
    exact hackRead
  · simp only [List.forall_mem_cons, VringDesc.region, Region.Disjoint, Region.stop,
      kVirtioNetCtrlHdrSize]
    refine ⟨by omega, by omega, by rintro _ ⟨⟩⟩
  · simp only [List.cons_append, List.nil_append, List.forall_mem_cons, kVirtioNetCtrlHdrSize,
      kVirtioNetCtrlAckSize]
    refine ⟨by omega, by omega, by omega, by rintro _ ⟨⟩⟩

/-- **A table of one unicast and no multicast addresses**, in two pieces. -/
theorem publishMacTable_encodes (hok : CtrlqOk align ctrlQueueSize l)
    (hiova : baseIova + l.totalSize ≤ 2 ^ 64) (mac : Vector UInt8 6)
    (hfit : unicastTableSize + multicastTableSize ≤ l.ctrlDataSize) (m : Mem) :
    ∃ m', Shared.exec m (publishMacTableControlCommand (dmaBase + l.ctrlVringOffset) dmaBase l
        baseIova mac) = (.ok (), m') ∧
      Encodes m' dmaBase baseIova l (ControlCommand.macTable mac).bytes := by
  have hdata := hok.data
  have hack := hok.ack
  have htotal := hok.total
  have hsize : 14 ≤ l.ctrlDataSize := hfit
  refine ⟨_, (Shared.exec_bind_ok (Shared.exec_ensure hok.queueSize m _) _).trans
    ((Shared.exec_bind_ok (Shared.exec_ensure hfit m _) _).trans (Shared.exec_stores _ _)), ?_⟩
  have hnowrap : ∀ off, off < l.totalSize → wrap (baseIova + off) = baseIova + off :=
    fun off hoff => Nat.mod_eq_of_lt (by omega)
  have htable : unicastTableSize = 10 := rfl
  have hempty : multicastTableSize = 4 := rfl
  rw [Nat.add_assoc baseIova, hnowrap _ (by omega), hnowrap _ (by omega), hnowrap _ (by omega),
    hnowrap _ (by omega)]
  have hcommand : Stacked (dmaBase + l.ctrlHdrOffset) (dmaBase + l.totalSize)
      (([(dmaBase + l.ctrlHdrOffset, [kVirtioNetCtrlMac]),
        (dmaBase + l.ctrlHdrOffset + 1, [kVirtioNetCtrlMacTableSet]),
        (dmaBase + l.ctrlDataOffset, leBytes 4 1),
        (dmaBase + l.ctrlDataOffset + kVirtioNetCtrlMacTableCountSize, mac.toList),
        (dmaBase + l.ctrlDataOffset + unicastTableSize, leBytes 4 0),
        (dmaBase + l.ctrlAckOffset, [kVirtioNetCtrlAckInitial])] : List Assign).map
          Assign.region) := by
    simp only [Assign.region, List.map_cons, List.map_nil, Stacked, Region.stop, List.length_cons,
      List.length_nil, leBytes_length, Vector.length_toList, htable, kVirtioNetCtrlMacTableCountSize]
    omega
  have hlinked : Linked 0
      [⟨baseIova + l.ctrlHdrOffset, kVirtioNetCtrlHdrSize, kVringDescFNext, 1⟩,
        ⟨baseIova + l.ctrlDataOffset, unicastTableSize, kVringDescFNext, 2⟩,
        ⟨baseIova + (l.ctrlDataOffset + unicastTableSize), multicastTableSize, kVringDescFNext, 3⟩,
        ⟨baseIova + l.ctrlAckOffset, kVirtioNetCtrlAckSize, kVringDescFWrite, 0⟩] :=
    ⟨VringDesc.hasNext_next _ _ _, rfl, VringDesc.hasNext_next _ _ _, rfl,
      VringDesc.hasNext_next _ _ _, rfl, VringDesc.not_hasNext_write _ _ _⟩
  have hfits : ∀ d ∈ [(⟨baseIova + l.ctrlHdrOffset, kVirtioNetCtrlHdrSize, kVringDescFNext, 1⟩ :
        VringDesc), ⟨baseIova + l.ctrlDataOffset, unicastTableSize, kVringDescFNext, 2⟩,
        ⟨baseIova + (l.ctrlDataOffset + unicastTableSize), multicastTableSize, kVringDescFNext, 3⟩,
        ⟨baseIova + l.ctrlAckOffset, kVirtioNetCtrlAckSize, kVringDescFWrite, 0⟩], d.Fits := by
    simp only [List.forall_mem_cons, VringDesc.Fits, kVirtioNetCtrlHdrSize, kVirtioNetCtrlAckSize,
      kVringDescFNext, kVringDescFWrite, htable, hempty]
    refine ⟨by omega, by omega, by omega, by omega, by rintro _ ⟨⟩⟩
  obtain ⟨hchain, hread⟩ := command_read_back (m := m) hok hcommand hlinked (Nat.le_refl 4) hfits
  generalize assign m _ = m' at hchain hread ⊢
  simp only [List.forall_mem_cons, List.length_cons, List.length_nil, Nat.zero_add, leBytes_length,
    Vector.length_toList] at hread
  obtain ⟨hclass, hcmd, hcount, hmac, hnone, hackRead, -⟩ := hread
  have hheader : peek m' (dmaBase + l.ctrlHdrOffset) kVirtioNetCtrlHdrSize =
      [kVirtioNetCtrlMac, kVirtioNetCtrlMacTableSet] := by
    rw [kVirtioNetCtrlHdrSize, peek_add m' _ 1 1, hclass, hcmd]
    rfl
  have hunicast : peek m' (dmaBase + l.ctrlDataOffset) unicastTableSize =
      leBytes 4 1 ++ mac.toList := by
    rw [htable, peek_add m' _ 4 6, hcount, ← hmac]
    rfl
  have hmulticast : peek m' (dmaBase + (l.ctrlDataOffset + unicastTableSize)) multicastTableSize =
      leBytes 4 0 := by
    rw [← Nat.add_assoc]
    exact hnone
  refine ⟨[⟨_, _, _, _⟩, ⟨_, _, _, _⟩, ⟨_, _, _, _⟩], ⟨_, _, _, _⟩, hchain, ?_, ?_,
    VringDesc.deviceWrites_write _ _ _, rfl, ?_, ?_, ?_⟩
  · simp only [List.forall_mem_cons, VringDesc.not_deviceWrites_next, not_false_eq_true, true_and]
    rintro _ ⟨⟩
  · rw [List.flatMap_cons, List.flatMap_cons, List.flatMap_cons, List.flatMap_nil, deviceRead_iova,
      deviceRead_iova, deviceRead_iova, hheader, hunicast, hmulticast, List.append_nil,
      ControlCommand.bytes]
    simp only [List.append_assoc]
  · rw [deviceRead_iova]
    exact hackRead
  · simp only [List.forall_mem_cons, VringDesc.region, Region.Disjoint, Region.stop,
      kVirtioNetCtrlHdrSize, htable, hempty]
    refine ⟨by omega, by omega, by omega, by rintro _ ⟨⟩⟩
  · simp only [List.cons_append, List.nil_append, List.forall_mem_cons, kVirtioNetCtrlHdrSize,
      kVirtioNetCtrlAckSize, htable, hempty]
    refine ⟨by omega, by omega, by omega, by omega, by rintro _ ⟨⟩⟩

end Encoding

/-- **Control-queue commands encode correctly.**  For every layout without wrap-around, every base
IOVA that leaves room for it, every command, address and memory: where the data area is large
enough, the device walks one chain in the table, reads exactly the command, and finds one byte to
write, apart from what it reads; elsewhere the command throws and leaves the memory as it was. -/
theorem controlCommand_encodes {page align rxBufferSize ctrlDataSize : UInt64}
    {rxQueueSize txQueueSize ctrlQueueSize rxBuffers : UInt16} {l : CtrlqDmaLayout}
    (h : computeCtrlqDmaLayout page rxQueueSize txQueueSize ctrlQueueSize align rxBuffers
      rxBufferSize ctrlDataSize = .ok l) (hwrap : l.NoWrap) (dmaBase baseIova : Nat)
    (hiova : baseIova + l.totalSize ≤ 2 ^ 64) (c : ControlCommand) (m : Mem) :
    (c.dataSize ≤ l.ctrlDataSize → ∃ m',
      Shared.exec m (c.publish (dmaBase + l.ctrlVringOffset) dmaBase l baseIova) = (.ok (), m') ∧
        Encodes m' dmaBase baseIova l c.bytes) ∧
    (¬ c.dataSize ≤ l.ctrlDataSize → ∃ e,
      Shared.exec m (c.publish (dmaBase + l.ctrlVringOffset) dmaBase l baseIova) = (.error e, m)) := by
  have hok := computeCtrlqDmaLayout_ok h hwrap
  cases c with
  | rxPromisc promisc =>
    constructor
    · intro hfit
      exact publishControlCommand_encodes hok hiova _ _ hfit (by decide : 1 < 2 ^ 32) _ m
    · exact fun hsmall => ⟨_, Shared.exec_ensure_bind_error hsmall m _ _⟩
  | macAddr mac =>
    have hlen : mac.toList.length = 6 := Vector.length_toList
    have hsize : (ControlCommand.macAddr mac).dataSize = mac.toList.length := by
      simp only [ControlCommand.dataSize, ControlCommand.bytes, List.length_append,
        List.length_cons, List.length_nil, kVirtioNetCtrlHdrSize]
      omega
    rw [hsize]
    constructor
    · intro hfit
      exact publishControlCommand_encodes hok hiova _ _ hfit (by omega) _ m
    · exact fun hsmall => ⟨_, Shared.exec_ensure_bind_error hsmall m _ _⟩
  | macTable unicastMac =>
    have hsize : (ControlCommand.macTable unicastMac).dataSize =
        unicastTableSize + multicastTableSize := by
      simp only [ControlCommand.dataSize, ControlCommand.bytes, List.length_append,
        List.length_cons, List.length_nil, leBytes_length, Vector.length_toList]
      rfl
    rw [hsize]
    constructor
    · intro hfit
      exact publishMacTable_encodes hok hiova unicastMac hfit m
    · intro hsmall
      exact ⟨_, (Shared.exec_bind_ok (Shared.exec_ensure hok.queueSize m _) _).trans
        (Shared.exec_ensure_bind_error hsmall m _ _)⟩

theorem controlCommand_encodes_macTable : ∃ l m',
    computeCtrlqDmaLayout 4096 256 256 64 4096 64 2048 14 = .ok l ∧
    Shared.exec (fun _ => 0) (publishMacTableControlCommand (0 + l.ctrlVringOffset) 0 l 0x100000000
      #v[2, 0, 0, 0, 0, 1]) = (.ok (), m') ∧
    Encodes m' 0 0x100000000 l [1, 0, 1, 0, 0, 0, 2, 0, 0, 0, 0, 1, 0, 0, 0, 0] := by
  obtain ⟨l, hl, hwrap, hiova, hdata⟩ : ∃ l,
      computeCtrlqDmaLayout 4096 256 256 64 4096 64 2048 14 = .ok l ∧
        l.ctrlHdrOffset + 2 + l.ctrlDataSize < 2 ^ 64 ∧ 0x100000000 + l.totalSize ≤ 2 ^ 64 ∧
          14 ≤ l.ctrlDataSize := ⟨_, rfl, by decide, by decide, by decide⟩
  obtain ⟨m', hexec, hencodes⟩ := (controlCommand_encodes hl hwrap 0 0x100000000 hiova
    (.macTable #v[2, 0, 0, 0, 0, 1]) fun _ => 0).1 hdata
  exact ⟨l, m', hl, hexec, hencodes⟩

end AdvCpp.Virtio
