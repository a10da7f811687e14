import AdvCpp.Lib.Checked
import AdvCpp.Lib.Regions
import Mathlib.Data.Nat.Bitwise

/-!
# The layout of the DMA buffer

`virtio_net_vfio.hpp`: where the rings of the queues, the RX buffers and the TX packet or buffers
lie in the one buffer that the device may access.  Sizes are `std::size_t`: a `Nat` below `2 ^ 64`,
and `wrap` stands wherever the source adds or multiplies without a check.

* `alignUp`, `checkedAdd`, `checkedMul`, `computeVringLayout` — with the exceptions they throw.
* `computeDmaLayoutTxPacket`, `computeDmaLayoutRx`, `computeDmaLayoutTxBuffers` — the overloads of
  `compute_dma_layout`.
* `dmaLayout_sound` — what they return is disjoint, aligned and in bounds.
-/

namespace AdvCpp.Virtio

open AdvCpp.Lib

/-! ## Sizes -/

def SIZE_MAX : Nat := 2 ^ 64 - 1

/-- Arithmetic on `std::size_t`. -/
def wrap (n : Nat) : Nat := n % 2 ^ 64

def isPowerOfTwo (value : Nat) : Prop := value ≠ 0 ∧ value &&& (value - 1) = 0

instance (value : Nat) : Decidable (isPowerOfTwo value) := by
  unfold isPowerOfTwo
  exact inferInstance

def alignUp (value align : Nat) : Except String Nat := do
  ensure (isPowerOfTwo align) "alignment must be a power of two"
  ensure (value ≤ SIZE_MAX - (align - 1)) "size overflow while aligning value"
  return (BitVec.ofNat 64 (value + align - 1) &&& ~~~BitVec.ofNat 64 (align - 1)).toNat

/-- `round_up_to_page`, where `page` is the result of `system_page_size`. -/
def roundUpToPage (page : UInt64) (size : Nat) : Except String Nat := alignUp size page.toNat

def checkedAdd (a b : Nat) (what : String) : Except String Nat := do
  ensure (a ≤ SIZE_MAX - b) (what ++ " size overflow")
  return wrap (a + b)

def checkedMul (a b : Nat) (what : String) : Except String Nat := do
  ensure (a = 0 ∨ b ≤ SIZE_MAX / a) (what ++ " size overflow")
  return wrap (a * b)

/-- Clearing the low bits. -/
theorem toNat_and_not (x k : Nat) (hx : x < 2 ^ 64) :
    (BitVec.ofNat 64 x &&& ~~~BitVec.ofNat 64 (2 ^ k - 1)).toNat = x / 2 ^ k * 2 ^ k := by
  apply Nat.eq_of_testBit_eq
  intro i
  rw [Nat.testBit_mul_two_pow, Nat.testBit_div_two_pow, BitVec.testBit_toNat, BitVec.getLsbD_and,
    BitVec.getLsbD_not, BitVec.getLsbD_ofNat, BitVec.getLsbD_ofNat, Nat.testBit_two_pow_sub_one]
  by_cases hi : i < 64
  · by_cases hk : i < k
    · simp [hi, hk]
    · simp [hi, hk, Nat.not_lt.1 hk]
  · have hbit : x.testBit i = false := by
      apply Nat.testBit_lt_two_pow
      exact Nat.lt_of_lt_of_le hx (Nat.pow_le_pow_right (by decide) (Nat.not_lt.1 hi))
    by_cases hk : k ≤ i
    · simp [hi, hk, hbit]
    · simp [hi, hk]

/-- **What `align_up` returns.** -/
theorem alignUp_ok {value align r : Nat} (h : alignUp value align = .ok r)
    (halign : align < 2 ^ 64) :
    value ≤ r ∧ align ∣ r ∧ r < value + align ∧ r < 2 ^ 64 ∧ align.isPowerOfTwo := by
  unfold alignUp at h
  obtain ⟨_, hpower, h⟩ := bind_eq_ok.1 h
  obtain ⟨_, hroom, h⟩ := bind_eq_ok.1 h
  rw [ensure_eq_ok] at hpower hroom
  have hpower' := Nat.ne_zero_and_sub_one_eq_zero_iff_isPowerOfTwo.1 hpower
  obtain ⟨k, rfl⟩ := hpower'
  have hpos : 0 < 2 ^ k := Nat.two_pow_pos k
  have hlt : value + 2 ^ k - 1 < 2 ^ 64 := by
    unfold SIZE_MAX at hroom
    omega
  have hr := toNat_and_not (value + 2 ^ k - 1) k hlt
  cases h
  have hdiv := Nat.div_add_mod (value + 2 ^ k - 1) (2 ^ k)
  have hmod := Nat.mod_lt (value + 2 ^ k - 1) hpos
  rw [Nat.mul_comm, ← hr] at hdiv
  refine ⟨by omega, ?_, by omega, BitVec.isLt _, ⟨k, rfl⟩⟩
  rw [hr]
  exact Nat.dvd_mul_left _ _

theorem checkedAdd_ok {a b r : Nat} {what : String} (h : checkedAdd a b what = .ok r)
    (hb : b < 2 ^ 64) : r = a + b ∧ a + b < 2 ^ 64 := by
  obtain ⟨_, hroom, h⟩ := bind_eq_ok.1 h
  rw [ensure_eq_ok] at hroom
  cases h
  unfold SIZE_MAX at hroom
  have hlt : a + b < 2 ^ 64 := by omega
  exact ⟨Nat.mod_eq_of_lt hlt, hlt⟩

theorem checkedMul_ok {a b r : Nat} {what : String} (h : checkedMul a b what = .ok r) :
    r = a * b ∧ a * b < 2 ^ 64 := by
  obtain ⟨_, hroom, h⟩ := bind_eq_ok.1 h
  rw [ensure_eq_ok] at hroom
  cases h
  have hlt : a * b < 2 ^ 64 := by
    rcases hroom with rfl | hroom
    · rw [Nat.zero_mul]
      decide
    · have hle : a * b ≤ SIZE_MAX := by
        rw [Nat.mul_comm]
        exact (Nat.mul_le_mul_right a hroom).trans (Nat.div_mul_le_self _ _)
      unfold SIZE_MAX at hle
      omega
  exact ⟨Nat.mod_eq_of_lt hlt, hlt⟩

/-! ## Rings -/

def kVringDescSize : Nat := 16
def kVringUsedElemSize : Nat := 8

def kVringDescFNext : Nat := 1
def kVringDescFWrite : Nat := 2

structure VringDesc where
  addr : Nat
  len : Nat
  flags : Nat
  next : Nat
  deriving DecidableEq

structure VringLayout where
  queueSize : Nat
  align : Nat
  descOffset : Nat
  descSize : Nat
  availOffset : Nat
  availSize : Nat
  usedOffset : Nat
  usedSize : Nat
  totalSize : Nat
  deriving DecidableEq

def VringLayout.zero : VringLayout := ⟨0, 0, 0, 0, 0, 0, 0, 0, 0⟩

def computeVringLayout (queueSize : UInt16) (align : UInt64) : Except String VringLayout := do
  ensure (queueSize ≠ 0) "queue_size must be greater than 0"
  ensure (isPowerOfTwo queueSize.toNat) "this sample expects a power-of-two queue size"
  let descOffset := 0
  let descSize := wrap (kVringDescSize * queueSize.toNat)
  let availOffset := wrap (descOffset + descSize)
  -- `3u + queue_size` is an `unsigned int`
  let availSize := wrap (2 * ((3 + queueSize.toNat) % 2 ^ 32))
  let usedOffset ← alignUp (wrap (availOffset + availSize)) align.toNat
  let usedSize := wrap (2 * 3 + kVringUsedElemSize * queueSize.toNat)
  return {
    queueSize := queueSize.toNat, align := align.toNat
    descOffset := descOffset, descSize := descSize
    availOffset := availOffset, availSize := availSize
    usedOffset := usedOffset, usedSize := usedSize
    totalSize := wrap (usedOffset + usedSize) }

/-- The three parts of a vring that starts at `base`. -/
def VringLayout.rings (l : VringLayout) (base : Nat) : List Region :=
  [⟨base + l.descOffset, l.descSize⟩, ⟨base + l.availOffset, l.availSize⟩,
    ⟨base + l.usedOffset, l.usedSize⟩]

/-- **What `compute_vring_layout` returns**, over the integers. -/
structure VringOk (queueSize : UInt16) (align : UInt64) (l : VringLayout) : Prop where
  size_eq : l.queueSize = queueSize.toNat
  align_eq : l.align = align.toNat
  pos : 0 < queueSize.toNat
  power : queueSize.toNat.isPowerOfTwo
  alignPower : align.toNat.isPowerOfTwo
  desc : l.descOffset = 0 ∧ l.descSize = 16 * queueSize.toNat
  avail : l.availOffset = 16 * queueSize.toNat ∧ l.availSize = 2 * (3 + queueSize.toNat)
  used : l.availOffset + l.availSize ≤ l.usedOffset ∧ l.usedSize = 6 + 8 * queueSize.toNat
  usedAligned : align.toNat ∣ l.usedOffset
  total : l.totalSize = l.usedOffset + l.usedSize
  total_lt : l.totalSize < 2 ^ 64

theorem computeVringLayout_ok {queueSize : UInt16} {align : UInt64} {l : VringLayout}
    (h : computeVringLayout queueSize align = .ok l) : VringOk queueSize align l := by
  obtain ⟨_, hne, h⟩ := bind_eq_ok.1 h
  obtain ⟨_, hpower, h⟩ := bind_eq_ok.1 h
  obtain ⟨usedOffset, hused, h⟩ := bind_eq_ok.1 h
  rw [ensure_eq_ok] at hne hpower
  have hq := queueSize.toNat_lt
  have ha := align.toNat_lt
  have hdesc : wrap (kVringDescSize * queueSize.toNat) = 16 * queueSize.toNat := by
    unfold wrap kVringDescSize
    omega
  have havail : wrap (2 * ((3 + queueSize.toNat) % 2 ^ 32)) = 2 * (3 + queueSize.toNat) := by
    unfold wrap
    omega
  have hend : wrap (wrap (0 + 16 * queueSize.toNat) + 2 * (3 + queueSize.toNat)) =
      18 * queueSize.toNat + 6 := by
    unfold wrap
    omega
  rw [hdesc, havail, hend] at hused
  obtain ⟨hge, hdvd, hlt, -, halign⟩ := alignUp_ok hused ha
  -- an alignment is at most half of the address space
  have hhalf : align.toNat ≤ 2 ^ 63 := by
    obtain ⟨k, hk⟩ := halign
    rw [hk] at ha ⊢
    have hk64 : k < 64 := (Nat.pow_lt_pow_iff_right (by decide)).1 ha
    exact Nat.pow_le_pow_right (by decide) (by omega)
  have husedSize : wrap (2 * 3 + kVringUsedElemSize * queueSize.toNat) =
      6 + 8 * queueSize.toNat := by
    unfold wrap kVringUsedElemSize
    omega
  have htotal : wrap (usedOffset + (6 + 8 * queueSize.toNat)) =
      usedOffset + (6 + 8 * queueSize.toNat) := by
    unfold wrap
    omega
  simp only [hdesc, havail, husedSize, htotal] at h
  cases h
  exact
    { size_eq := rfl
      align_eq := rfl
      pos := Nat.pos_of_ne_zero hpower.1
      power := Nat.ne_zero_and_sub_one_eq_zero_iff_isPowerOfTwo.1 hpower
      alignPower := halign
      desc := ⟨rfl, rfl⟩
      avail := ⟨by show wrap _ = _; unfold wrap; omega, rfl⟩
      used := ⟨by show wrap _ + 2 * (3 + queueSize.toNat) ≤ usedOffset; unfold wrap; omega, rfl⟩
      usedAligned := hdvd
      total := rfl
      total_lt := by show usedOffset + (6 + 8 * queueSize.toNat) < 2 ^ 64; omega }

/-- The parts of a vring lie one behind the other. -/
theorem VringOk.stacked {queueSize : UInt16} {align : UInt64} {l : VringLayout}
    (h : VringOk queueSize align l) (base : Nat) :
    Stacked base (base + l.totalSize) (l.rings base) := by
  have hdesc := h.desc
  have havail := h.avail
  have hused := h.used
  have htotal := h.total
  simp only [VringLayout.rings, Stacked, Region.stop]
  omega

/-! ## Layouts -/

structure DmaLayout where
  rxVring : VringLayout
  txVring : VringLayout
  rxVringOffset : Nat
  txVringOffset : Nat
  rxBuffersOffset : Nat
  rxBuffersSize : Nat
  txPacketOffset : Nat
  txPacketSize : Nat
  txBuffersOffset : Nat
  txBuffersSize : Nat
  txBufferSize : Nat
  totalSize : Nat
  deriving DecidableEq

def DmaLayout.zero : DmaLayout := ⟨.zero, .zero, 0, 0, 0, 0, 0, 0, 0, 0, 0, 0⟩

/-- The checks of the RX buffer count. -/
def checkRxBuffers (rxBuffers rxQueueSize : UInt16) : Except String Unit := do
  ensure (rxBuffers ≠ 0) "rx-buffers must be greater than 0"
  ensure (rxBuffers ≤ rxQueueSize)
    ("rx-buffers must not exceed RX queue_size " ++ toString rxQueueSize.toNat)

/-- What the overloads of `compute_dma_layout` have in common: both vrings and the RX buffers. -/
def placeQueues (page : UInt64) (rxQueueSize txQueueSize : UInt16) (align : UInt64)
    (rxBuffers : UInt16) (rxBufferSize : UInt64) : Except String DmaLayout := do
  let rxVring ← computeVringLayout rxQueueSize align
  let txVring ← computeVringLayout txQueueSize align
  let txVringOffset ← roundUpToPage page rxVring.totalSize
  let txVringEnd ← checkedAdd txVringOffset txVring.totalSize "TX vring end"
  let rxBuffersOffset ← roundUpToPage page txVringEnd
  let rxBuffersSize ← checkedMul rxBuffers.toNat rxBufferSize.toNat "RX buffer area"
  return { DmaLayout.zero with
    rxVring := rxVring, txVring := txVring, rxVringOffset := 0, txVringOffset := txVringOffset
    rxBuffersOffset := rxBuffersOffset, rxBuffersSize := rxBuffersSize }

/-- `compute_dma_layout` with room for one TX packet. -/
def computeDmaLayoutTxPacket (page : UInt64) (rxQueueSize txQueueSize : UInt16) (align : UInt64)
    (rxBuffers : UInt16) (rxBufferSize txPacketSize : UInt64) : Except String DmaLayout := do
  checkRxBuffers rxBuffers rxQueueSize
  ensure (rxBufferSize ≠ 0) "rx-buffer-size must be greater than 0"
  ensure (txPacketSize ≠ 0) "tx packet size must be greater than 0"
  let layout ← placeQueues page rxQueueSize txQueueSize align rxBuffers rxBufferSize
  let rxBuffersEnd ← checkedAdd layout.rxBuffersOffset layout.rxBuffersSize "RX buffer area end"
  let txPacketOffset ← roundUpToPage page rxBuffersEnd
  let txPacketEnd ← checkedAdd txPacketOffset txPacketSize.toNat "DMA mapping"
  let totalSize ← roundUpToPage page txPacketEnd
  return { layout with
    txPacketOffset := txPacketOffset, txPacketSize := txPacketSize.toNat
    txBuffersOffset := txPacketOffset, txBuffersSize := txPacketSize.toNat
    txBufferSize := txPacketSize.toNat, totalSize := totalSize }

/-- `compute_dma_layout` without room for TX. -/
def computeDmaLayoutRx (page : UInt64) (rxQueueSize txQueueSize : UInt16) (align : UInt64)
    (rxBuffers : UInt16) (rxBufferSize : UInt64) : Except String DmaLayout := do
  checkRxBuffers rxBuffers rxQueueSize
  ensure (rxBufferSize ≠ 0) "rx-buffer-size must be greater than 0"
  let layout ← placeQueues page rxQueueSize txQueueSize align rxBuffers rxBufferSize
  let rxBuffersEnd ← checkedAdd layout.rxBuffersOffset layout.rxBuffersSize "DMA mapping"
  let totalSize ← roundUpToPage page rxBuffersEnd
  return { layout with totalSize := totalSize }

/-- `compute_dma_layout` with TX buffers. -/
def computeDmaLayoutTxBuffers (page : UInt64) (rxQueueSize txQueueSize : UInt16) (align : UInt64)
    (rxBuffers txBuffers : UInt16) (rxBufferSize txBufferSize : UInt64) :
    Except String DmaLayout := do
  checkRxBuffers rxBuffers rxQueueSize
  ensure (txBuffers ≠ 0) "tx-buffers must be greater than 0"
  ensure (txBuffers ≤ txQueueSize)
    ("tx-buffers must not exceed TX queue_size " ++ toString txQueueSize.toNat)
  ensure (rxBufferSize ≠ 0) "rx-buffer-size must be greater than 0"
  ensure (txBufferSize ≠ 0) "tx-buffer-size must be greater than 0"
  let layout ← placeQueues page rxQueueSize txQueueSize align rxBuffers rxBufferSize
  let rxBuffersEnd ← checkedAdd layout.rxBuffersOffset layout.rxBuffersSize "RX buffer area end"
  let txBuffersOffset ← roundUpToPage page rxBuffersEnd
  let txBuffersSize ← checkedMul txBuffers.toNat txBufferSize.toNat "TX buffer area"
  let txBuffersEnd ← checkedAdd txBuffersOffset txBuffersSize "DMA mapping"
  let totalSize ← roundUpToPage page txBuffersEnd
  return { layout with
    txBuffersOffset := txBuffersOffset, txBufferSize := txBufferSize.toNat
    txBuffersSize := txBuffersSize, txPacketOffset := txBuffersOffset
    txPacketSize := txBufferSize.toNat, totalSize := totalSize }

/-! ## Disjoint, aligned and in bounds -/

/-- The rings of both queues and the RX buffers. -/
def DmaLayout.regions (l : DmaLayout) (rxBuffers : UInt16) (rxBufferSize : UInt64) : List Region :=
  l.rxVring.rings l.rxVringOffset ++ l.txVring.rings l.txVringOffset ++
    arrayRegions l.rxBuffersOffset rxBufferSize.toNat rxBuffers.toNat

section Layouts

variable {page align rxBufferSize txBufferSize txPacketSize : UInt64}
  {rxQueueSize txQueueSize rxBuffers txBuffers : UInt16} {l : DmaLayout} {rs : List Region}

/-- The alignment of the parts of a vring that starts at `base`. -/
def VringLayout.Aligned (v : VringLayout) (base : Nat) (align : UInt64) : Prop :=
  16 ∣ base + v.descOffset ∧ 2 ∣ base + v.availOffset ∧ align.toNat ∣ v.usedOffset

/-- A layout is good for the regions `rs` of the buffer. -/
structure DmaLayout.Good (page align : UInt64) (l : DmaLayout) (rs : List Region) : Prop where
  disjoint : rs.Pairwise Region.Disjoint
  inside : ∀ r ∈ rs, r.stop ≤ l.totalSize
  rx : l.rxVring.Aligned l.rxVringOffset align
  tx : l.txVring.Aligned l.txVringOffset align
  total : 0 < l.totalSize ∧ page.toNat ∣ l.totalSize ∧ l.totalSize < 2 ^ 64

theorem VringOk.aligned {queueSize : UInt16} {v : VringLayout} {base : Nat}
    (h : VringOk queueSize align v) (hbase : 16 ∣ base) : v.Aligned base align := by
  have hdesc := h.desc
  have havail := h.avail
  refine ⟨?_, ?_, h.usedAligned⟩
  · rw [hdesc.1]
    exact hbase
  · rw [havail.1]
    omega

/-- **The vrings and the RX buffers**, over the integers. -/
structure QueuesOk (page align : UInt64) (rxQueueSize txQueueSize rxBuffers : UInt16)
    (rxBufferSize : UInt64) (l : DmaLayout) : Prop where
  rxVring : VringOk rxQueueSize align l.rxVring
  txVring : VringOk txQueueSize align l.txVring
  rxVringOffset : l.rxVringOffset = 0
  txVringOffset : l.rxVring.totalSize ≤ l.txVringOffset ∧ page.toNat ∣ l.txVringOffset
  rxBuffersOffset : l.txVringOffset + l.txVring.totalSize ≤ l.rxBuffersOffset ∧
    page.toNat ∣ l.rxBuffersOffset
  rxBuffersSize : l.rxBuffersSize = rxBuffers.toNat * rxBufferSize.toNat
  rxBuffersSize_lt : l.rxBuffersSize < 2 ^ 64
  pagePower : page.toNat.isPowerOfTwo

theorem roundUpToPage_ok {size r : Nat} (h : roundUpToPage page size = .ok r) :
    size ≤ r ∧ page.toNat ∣ r ∧ r < 2 ^ 64 ∧ page.toNat.isPowerOfTwo := by
  obtain ⟨hle, hdvd, -, hlt, hpower⟩ := alignUp_ok h page.toNat_lt
  exact ⟨hle, hdvd, hlt, hpower⟩

theorem placeQueues_ok
    (h : placeQueues page rxQueueSize txQueueSize align rxBuffers rxBufferSize = .ok l) :
    QueuesOk page align rxQueueSize txQueueSize rxBuffers rxBufferSize l := by
  obtain ⟨rxVring, hrx, h⟩ := bind_eq_ok.1 h
  obtain ⟨txVring, htx, h⟩ := bind_eq_ok.1 h
  obtain ⟨txVringOffset, htxOffset, h⟩ := bind_eq_ok.1 h
  obtain ⟨txVringEnd, htxEnd, h⟩ := bind_eq_ok.1 h
  obtain ⟨rxBuffersOffset, hrxOffset, h⟩ := bind_eq_ok.1 h
  obtain ⟨rxBuffersSize, hrxSize, h⟩ := bind_eq_ok.1 h
  cases h
  have hrxOk := computeVringLayout_ok hrx
  have htxOk := computeVringLayout_ok htx
  obtain ⟨hle, hdvd, -, hpower⟩ := roundUpToPage_ok htxOffset
  obtain ⟨rfl, -⟩ := checkedAdd_ok htxEnd htxOk.total_lt
  obtain ⟨hle', hdvd', -, -⟩ := roundUpToPage_ok hrxOffset
  obtain ⟨rfl, hlt⟩ := checkedMul_ok hrxSize
  exact ⟨hrxOk, htxOk, rfl, ⟨hle, hdvd⟩, ⟨hle', hdvd'⟩, rfl, hlt, hpower⟩

theorem QueuesOk.stacked
    (h : QueuesOk page align rxQueueSize txQueueSize rxBuffers rxBufferSize l) :
    Stacked 0 (l.rxBuffersOffset + l.rxBuffersSize) (l.regions rxBuffers rxBufferSize) := by
  have hoffset := h.txVringOffset
  have hrx : Stacked 0 l.txVringOffset (l.rxVring.rings 0) :=
    (h.rxVring.stacked 0).mono (Nat.le_refl 0) (by omega)
  have htx := (h.txVring.stacked l.txVringOffset).mono (Nat.le_refl _) h.rxBuffersOffset.1
  unfold DmaLayout.regions
  rw [h.rxVringOffset, h.rxBuffersSize]
  exact (hrx.append htx).append (stacked_array _ _ _)

/-- **What an overload of `compute_dma_layout` returns**: the TX regions are behind the RX buffers,
and the end is rounded up to a page. -/
structure LayoutOk (page align : UInt64) (rxQueueSize txQueueSize rxBuffers : UInt16)
    (rxBufferSize : UInt64) (l : DmaLayout) (rs : List Region) : Prop extends
    QueuesOk page align rxQueueSize txQueueSize rxBuffers rxBufferSize l where
  behind : ∃ size, Stacked (l.rxBuffersOffset + l.rxBuffersSize) size rs ∧
    roundUpToPage page size = .ok l.totalSize

/-- All regions, one behind the other. -/
theorem LayoutOk.allStacked
    (h : LayoutOk page align rxQueueSize txQueueSize rxBuffers rxBufferSize l rs) :
    Stacked 0 l.totalSize (l.regions rxBuffers rxBufferSize ++ rs) := by
  obtain ⟨size, hs, htotal⟩ := h.behind
  obtain ⟨hle, -⟩ := roundUpToPage_ok htotal
  exact (h.stacked.append hs).mono (Nat.le_refl 0) hle

theorem LayoutOk.good (h : LayoutOk page align rxQueueSize txQueueSize rxBuffers rxBufferSize l rs)
    (hpage : 4096 ≤ page.toNat) : l.Good page align (l.regions rxBuffers rxBufferSize ++ rs) := by
  have hall := h.allStacked
  obtain ⟨size, hs, htotal⟩ := h.behind
  obtain ⟨hle, hdvd, hlt, -⟩ := roundUpToPage_ok htotal
  have hpage16 : 16 ∣ page.toNat := by
    obtain ⟨k, hk⟩ := h.pagePower
    have hk4 : 4 ≤ k := by
      by_contra hk4
      have hlt : 2 ^ k < 2 ^ 4 := Nat.pow_lt_pow_right (by decide) (by omega)
      omega
    rw [hk]
    exact Nat.pow_dvd_pow 2 hk4
  have hpos : 0 < l.totalSize := by
    have hused := h.rxVring.used
    have htotal := h.rxVring.total
    have htxOffset := h.txVringOffset
    have hrxOffset := h.rxBuffersOffset
    have hend := hs.le
    omega
  refine ⟨hall.disjoint, fun r hr => (hall.within hr).2, ?_, ?_, hpos, hdvd, hlt⟩
  · rw [h.rxVringOffset]
    exact h.rxVring.aligned (Nat.dvd_zero 16)
  · exact h.txVring.aligned (hpage16.trans h.txVringOffset.2)

theorem computeDmaLayoutTxPacket_ok
    (h : computeDmaLayoutTxPacket page rxQueueSize txQueueSize align rxBuffers rxBufferSize
      txPacketSize = .ok l) :
    LayoutOk page align rxQueueSize txQueueSize rxBuffers rxBufferSize l
      [⟨l.txPacketOffset, txPacketSize.toNat⟩] := by
  obtain ⟨_, -, h⟩ := bind_eq_ok.1 h
  obtain ⟨_, -, h⟩ := bind_eq_ok.1 h
  obtain ⟨_, -, h⟩ := bind_eq_ok.1 h
  obtain ⟨layout, hqueues, h⟩ := bind_eq_ok.1 h
  obtain ⟨rxBuffersEnd, hend, h⟩ := bind_eq_ok.1 h
  obtain ⟨txPacketOffset, hoffset, h⟩ := bind_eq_ok.1 h
  obtain ⟨txPacketEnd, hpacket, h⟩ := bind_eq_ok.1 h
  obtain ⟨totalSize, htotal, h⟩ := bind_eq_ok.1 h
  cases h
  have hok := placeQueues_ok hqueues
  obtain ⟨rfl, -⟩ := checkedAdd_ok hend hok.rxBuffersSize_lt
  obtain ⟨rfl, -⟩ := checkedAdd_ok hpacket txPacketSize.toNat_lt
  obtain ⟨hle, -⟩ := roundUpToPage_ok hoffset
  exact { hok with behind := ⟨_, ⟨hle, Nat.le_refl _⟩, htotal⟩ }

theorem computeDmaLayoutRx_ok
    (h : computeDmaLayoutRx page rxQueueSize txQueueSize align rxBuffers rxBufferSize = .ok l) :
    LayoutOk page align rxQueueSize txQueueSize rxBuffers rxBufferSize l [] := by
  obtain ⟨_, -, h⟩ := bind_eq_ok.1 h
  obtain ⟨_, -, h⟩ := bind_eq_ok.1 h
  obtain ⟨layout, hqueues, h⟩ := bind_eq_ok.1 h
  obtain ⟨rxBuffersEnd, hend, h⟩ := bind_eq_ok.1 h
  obtain ⟨totalSize, htotal, h⟩ := bind_eq_ok.1 h
  cases h
  have hok := placeQueues_ok hqueues
  obtain ⟨rfl, -⟩ := checkedAdd_ok hend hok.rxBuffersSize_lt
  exact { hok with behind := ⟨_, Nat.le_refl _, htotal⟩ }

theorem computeDmaLayoutTxBuffers_ok
    (h : computeDmaLayoutTxBuffers page rxQueueSize txQueueSize align rxBuffers txBuffers
      rxBufferSize txBufferSize = .ok l) :
    LayoutOk page align rxQueueSize txQueueSize rxBuffers rxBufferSize l
      (arrayRegions l.txBuffersOffset txBufferSize.toNat txBuffers.toNat) := by
  obtain ⟨_, -, h⟩ := bind_eq_ok.1 h
  obtain ⟨_, -, h⟩ := bind_eq_ok.1 h
  obtain ⟨_, -, h⟩ := bind_eq_ok.1 h
  obtain ⟨_, -, h⟩ := bind_eq_ok.1 h
  obtain ⟨_, -, h⟩ := bind_eq_ok.1 h
  obtain ⟨layout, hqueues, h⟩ := bind_eq_ok.1 h
  obtain ⟨rxBuffersEnd, hend, h⟩ := bind_eq_ok.1 h
  obtain ⟨txBuffersOffset, hoffset, h⟩ := bind_eq_ok.1 h
  obtain ⟨txBuffersSize, hsize, h⟩ := bind_eq_ok.1 h
  obtain ⟨txBuffersEnd, htxEnd, h⟩ := bind_eq_ok.1 h
  obtain ⟨totalSize, htotal, h⟩ := bind_eq_ok.1 h
  cases h
  have hok := placeQueues_ok hqueues
  obtain ⟨rfl, -⟩ := checkedAdd_ok hend hok.rxBuffersSize_lt
  obtain ⟨rfl, hlt⟩ := checkedMul_ok hsize
  obtain ⟨rfl, -⟩ := checkedAdd_ok htxEnd hlt
  obtain ⟨hle, -⟩ := roundUpToPage_ok hoffset
  exact { hok with behind := ⟨_, (stacked_array _ _ _).mono hle (Nat.le_refl _), htotal⟩ }

/-- What an overload of `compute_dma_layout` returns, with its TX packet or its TX buffers. -/
inductive Computed (page : UInt64) (rxBuffers : UInt16) (rxBufferSize : UInt64) :
    DmaLayout → List Region → Prop where
  | txPacket {rxQueueSize txQueueSize : UInt16} {align txPacketSize : UInt64} {l : DmaLayout}
    (h : computeDmaLayoutTxPacket page rxQueueSize txQueueSize align rxBuffers rxBufferSize
      txPacketSize = .ok l) :
    Computed page rxBuffers rxBufferSize l [⟨l.txPacketOffset, txPacketSize.toNat⟩]
  | rx {rxQueueSize txQueueSize : UInt16} {align : UInt64} {l : DmaLayout}
    (h : computeDmaLayoutRx page rxQueueSize txQueueSize align rxBuffers rxBufferSize = .ok l) :
    Computed page rxBuffers rxBufferSize l []
  | txBuffers {rxQueueSize txQueueSize txBuffers : UInt16} {align txBufferSize : UInt64}
    {l : DmaLayout}
    (h : computeDmaLayoutTxBuffers page rxQueueSize txQueueSize align rxBuffers txBuffers
      rxBufferSize txBufferSize = .ok l) :
    Computed page rxBuffers rxBufferSize l
      (arrayRegions l.txBuffersOffset txBufferSize.toNat txBuffers.toNat)

theorem Computed.layoutOk (h : Computed page rxBuffers rxBufferSize l rs) :
    ∃ align rxQueueSize txQueueSize,
      LayoutOk page align rxQueueSize txQueueSize rxBuffers rxBufferSize l rs := by
  cases h with
  | txPacket h => exact ⟨_, _, _, computeDmaLayoutTxPacket_ok h⟩
  | rx h => exact ⟨_, _, _, computeDmaLayoutRx_ok h⟩
  | txBuffers h => exact ⟨_, _, _, computeDmaLayoutTxBuffers_ok h⟩

end Layouts

/-- **DMA layouts are disjoint, aligned and in bounds.**  For all arguments: whenever
`compute_vring_layout` or an overload of `compute_dma_layout` returns, the rings of the queues and
the single buffers are pairwise disjoint and inside `[0, total_size)` over the integers, the rings
are aligned, and `total_size` is a positive multiple of the page size. -/
theorem dmaLayout_sound (page : UInt64) (hpage : 4096 ≤ page.toNat) :
    (∀ queueSize align l, computeVringLayout queueSize align = .ok l →
      (l.rings 0).Pairwise Region.Disjoint ∧ (∀ r ∈ l.rings 0, r.stop ≤ l.totalSize) ∧
        l.Aligned 0 align ∧ l.totalSize < 2 ^ 64) ∧
    (∀ rxQueueSize txQueueSize align rxBuffers rxBufferSize txPacketSize l,
      computeDmaLayoutTxPacket page rxQueueSize txQueueSize align rxBuffers rxBufferSize
        txPacketSize = .ok l →
      l.Good page align
        (l.regions rxBuffers rxBufferSize ++ [⟨l.txPacketOffset, txPacketSize.toNat⟩])) ∧
    (∀ rxQueueSize txQueueSize align rxBuffers rxBufferSize l,
      computeDmaLayoutRx page rxQueueSize txQueueSize align rxBuffers rxBufferSize = .ok l →
      l.Good page align (l.regions rxBuffers rxBufferSize)) ∧
    ∀ rxQueueSize txQueueSize align rxBuffers txBuffers rxBufferSize txBufferSize l,
      computeDmaLayoutTxBuffers page rxQueueSize txQueueSize align rxBuffers txBuffers rxBufferSize
        txBufferSize = .ok l →
      l.Good page align (l.regions rxBuffers rxBufferSize ++
        arrayRegions l.txBuffersOffset txBufferSize.toNat txBuffers.toNat) := by
  refine ⟨?_, ?_, ?_, ?_⟩
  · intro queueSize align l h
    have hok := computeVringLayout_ok h
    have hstacked := hok.stacked 0
    refine ⟨hstacked.disjoint, fun r hr => ?_, hok.aligned (Nat.dvd_zero 16), hok.total_lt⟩
    have hstop := (hstacked.within hr).2
    omega
  · intro _ _ _ _ _ _ _ h
    exact (computeDmaLayoutTxPacket_ok h).good hpage
  · intro rxQueueSize txQueueSize align rxBuffers rxBufferSize l h
    have hgood := (computeDmaLayoutRx_ok h).good hpage
    rwa [List.append_nil] at hgood
  · intro _ _ _ _ _ _ _ _ h
    exact (computeDmaLayoutTxBuffers_ok h).good hpage

theorem dmaLayout_sound_echo : ∃ l,
    computeDmaLayoutTxBuffers 4096 256 256 4096 64 8 2048 2048 = .ok l ∧
    l.Good 4096 4096 (l.regions 64 2048 ++ arrayRegions l.txBuffersOffset 2048 8) := by
  obtain ⟨l, hl⟩ : ∃ l, computeDmaLayoutTxBuffers 4096 256 256 4096 64 8 2048 2048 = .ok l :=
    ⟨_, rfl⟩
  exact ⟨l, hl, (dmaLayout_sound 4096 (by decide)).2.2.2 _ _ _ _ _ _ _ l hl⟩

end AdvCpp.Virtio
