import AdvCpp.Vfio.RegionCaps
import AdvCpp.Vfio.VirtioCaps
import AdvCpp.Virtio.Layout
import Mathlib.Algebra.Ring.Nat

/-!
# Mapped BAR ranges

`map_common_cfg` and `map_notify_window` check the location that a virtio capability gives against
the BAR region and map it; the accessors of `MappedRegion` check every access against the length
that has been mapped.

* `returns_read`, `returns_write` — when an access does not throw.
* `commonCfg_accessible_iff` — when a COMMON_CFG that is accepted is long enough for its registers.
* `notifyWindow_inside_iff` — when a notify window that is accepted lies where it should.
-/

namespace AdvCpp.Vfio

open AdvCpp.Lib AdvCpp.Virtio

/-! ## The registers of COMMON_CFG -/

def VIRTIO_PCI_COMMON_DFSELECT : Nat := 0
def VIRTIO_PCI_COMMON_DF : Nat := 4
def VIRTIO_PCI_COMMON_GFSELECT : Nat := 8
def VIRTIO_PCI_COMMON_GF : Nat := 12
def VIRTIO_PCI_COMMON_STATUS : Nat := 20
def VIRTIO_PCI_COMMON_Q_SELECT : Nat := 22
def VIRTIO_PCI_COMMON_Q_SIZE : Nat := 24
def VIRTIO_PCI_COMMON_Q_MSIX : Nat := 26
def VIRTIO_PCI_COMMON_Q_ENABLE : Nat := 28
def VIRTIO_PCI_COMMON_Q_NOFF : Nat := 30
def VIRTIO_PCI_COMMON_Q_DESCLO : Nat := 32
def VIRTIO_PCI_COMMON_Q_DESCHI : Nat := 36
def VIRTIO_PCI_COMMON_Q_AVAILLO : Nat := 40
def VIRTIO_PCI_COMMON_Q_AVAILHI : Nat := 44
def VIRTIO_PCI_COMMON_Q_USEDLO : Nat := 48
def VIRTIO_PCI_COMMON_Q_USEDHI : Nat := 52
def VIRTIO_PCI_COMMON_Q_NDATA : Nat := 56

/-! ## The accessors -/

/-- A mapping of `size` bytes, which the device may change; addresses count from its start. -/
structure MappedRegion where
  size : Nat

/-- What the accessors do. -/
abbrev Mmio := Shared String

namespace MappedRegion

variable (mapping : MappedRegion)

def checkRange (offset width : Nat) : Mmio Unit :=
  Shared.ensure (offset ≤ mapping.size ∧ width ≤ mapping.size - offset)
    "MMIO access past mapped range"

/-- `read8`, `read16` and `read32`. -/
def read (width offset : Nat) : Mmio Nat := do
  mapping.checkRange offset width
  let bytes ← Shared.load offset width
  return leValue bytes

/-- `write8`, `write16` and `write32`. -/
def write (width offset value : Nat) : Mmio Unit := do
  mapping.checkRange offset width
  Shared.store offset (leBytes width value)

def read8 (offset : Nat) : Mmio UInt8 := UInt8.ofNat <$> mapping.read 1 offset
def read16 (offset : Nat) : Mmio UInt16 := UInt16.ofNat <$> mapping.read 2 offset
def read32 (offset : Nat) : Mmio UInt32 := UInt32.ofNat <$> mapping.read 4 offset

def write8 (offset : Nat) (value : UInt8) : Mmio Unit := mapping.write 1 offset value.toNat
def write16 (offset : Nat) (value : UInt16) : Mmio Unit := mapping.write 2 offset value.toNat
def write32 (offset : Nat) (value : UInt32) : Mmio Unit := mapping.write 4 offset value.toNat

end MappedRegion

/-! ## Access to COMMON_CFG -/

structure QueueView where
  selected : UInt16
  size : UInt16
  msixVector : UInt16
  enable : UInt16
  notifyOff : UInt16
  notifyData : UInt16
  desc : UInt64
  avail : UInt64
  used : UInt64

structure FeatureWords where
  originalSelect : UInt32
  words : List UInt32

section Access

variable (mapping : MappedRegion) (mappingDelta : Nat)

def readStatus : Mmio UInt8 := mapping.read8 (mappingDelta + VIRTIO_PCI_COMMON_STATUS)

def writeStatus (status : UInt8) : Mmio Unit :=
  mapping.write8 (mappingDelta + VIRTIO_PCI_COMMON_STATUS) status

def readCommonU64 (loOffset hiOffset : Nat) : Mmio UInt64 := do
  let lo ← mapping.read32 (mappingDelta + loOffset)
  let hi ← mapping.read32 (mappingDelta + hiOffset)
  return le64FromHalves lo hi

def writeCommonU64 (loOffset hiOffset : Nat) (value : UInt64) : Mmio Unit := do
  mapping.write32 (mappingDelta + loOffset) (value &&& 0xffffffff).toUInt32
  mapping.write32 (mappingDelta + hiOffset) (value >>> 32).toUInt32

def readQueueView : Mmio QueueView := do
  let selected ← mapping.read16 (mappingDelta + VIRTIO_PCI_COMMON_Q_SELECT)
  let size ← mapping.read16 (mappingDelta + VIRTIO_PCI_COMMON_Q_SIZE)
  let msixVector ← mapping.read16 (mappingDelta + VIRTIO_PCI_COMMON_Q_MSIX)
  let enable ← mapping.read16 (mappingDelta + VIRTIO_PCI_COMMON_Q_ENABLE)
  let notifyOff ← mapping.read16 (mappingDelta + VIRTIO_PCI_COMMON_Q_NOFF)
  let notifyData ← mapping.read16 (mappingDelta + VIRTIO_PCI_COMMON_Q_NDATA)
  let desc ← readCommonU64 mapping mappingDelta VIRTIO_PCI_COMMON_Q_DESCLO
    VIRTIO_PCI_COMMON_Q_DESCHI
  let avail ← readCommonU64 mapping mappingDelta VIRTIO_PCI_COMMON_Q_AVAILLO
    VIRTIO_PCI_COMMON_Q_AVAILHI
  let used ← readCommonU64 mapping mappingDelta VIRTIO_PCI_COMMON_Q_USEDLO
    VIRTIO_PCI_COMMON_Q_USEDHI
  return ⟨selected, size, msixVector, enable, notifyOff, notifyData, desc, avail, used⟩

/-- The loop of `read_feature_words`, for the words `words`. -/
def readWords (selectOffset valueOffset : Nat) : List Nat → Mmio (List UInt32)
  | [] => return []
  | word :: words => do
    mapping.write32 (mappingDelta + selectOffset) (UInt32.ofNat word)
    let value ← mapping.read32 (mappingDelta + valueOffset)
    let rest ← readWords selectOffset valueOffset words
    return value :: rest

def readFeatureWords (selectOffset valueOffset wordCount : Nat) : Mmio FeatureWords := do
  let originalSelect ← mapping.read32 (mappingDelta + selectOffset)
  let words ← readWords mapping mappingDelta selectOffset valueOffset (List.range wordCount)
  mapping.write32 (mappingDelta + selectOffset) originalSelect
  return ⟨originalSelect, words⟩

def writeGuestFeatureWord (word : UInt32 × Nat) : Mmio Unit := do
  mapping.write32 (mappingDelta + VIRTIO_PCI_COMMON_GFSELECT) (UInt32.ofNat word.2)
  mapping.write32 (mappingDelta + VIRTIO_PCI_COMMON_GF) word.1

def writeGuestFeatureWords (words : List UInt32) : Mmio Unit := do
  let originalSelect ← mapping.read32 (mappingDelta + VIRTIO_PCI_COMMON_GFSELECT)
  words.zipIdx.forM (writeGuestFeatureWord mapping mappingDelta)
  mapping.write32 (mappingDelta + VIRTIO_PCI_COMMON_GFSELECT) originalSelect

def programQueueAddresses (layout : VringLayout) (baseIova : UInt64) : Mmio Unit := do
  mapping.write16 (mappingDelta + VIRTIO_PCI_COMMON_Q_SIZE) (UInt16.ofNat layout.queueSize)
  writeCommonU64 mapping mappingDelta VIRTIO_PCI_COMMON_Q_DESCLO VIRTIO_PCI_COMMON_Q_DESCHI
    (baseIova + UInt64.ofNat layout.descOffset)
  writeCommonU64 mapping mappingDelta VIRTIO_PCI_COMMON_Q_AVAILLO VIRTIO_PCI_COMMON_Q_AVAILHI
    (baseIova + UInt64.ofNat layout.availOffset)
  writeCommonU64 mapping mappingDelta VIRTIO_PCI_COMMON_Q_USEDLO VIRTIO_PCI_COMMON_Q_USEDHI
    (baseIova + UInt64.ofNat layout.usedOffset)

def enableQueue : Mmio Unit := mapping.write16 (mappingDelta + VIRTIO_PCI_COMMON_Q_ENABLE) 1

end Access

/-! ## When an access does not throw -/

section Returns

open Shared

variable {mapping : MappedRegion} {mappingDelta offset width : Nat}

theorem returns_checkRange :
    Returns (mapping.checkRange offset width) ↔ offset + width ≤ mapping.size := by
  rw [MappedRegion.checkRange, returns_ensure]
  omega

theorem returns_read : Returns (mapping.read width offset) ↔ offset + width ≤ mapping.size :=
  ⟨fun h => returns_checkRange.1 h.parts.1,
    fun h => returns_bind (returns_checkRange.2 h) fun _ => returns_bind returns_load fun _ => trivial⟩

theorem returns_write {value : Nat} :
    Returns (mapping.write width offset value) ↔ offset + width ≤ mapping.size :=
  ⟨fun h => returns_checkRange.1 h.parts.1,
    fun h => returns_bind (returns_checkRange.2 h) fun _ => returns_store⟩

theorem returns_read8 : Returns (mapping.read8 offset) ↔ offset + 1 ≤ mapping.size :=
  returns_map.trans returns_read

theorem returns_read16 : Returns (mapping.read16 offset) ↔ offset + 2 ≤ mapping.size :=
  returns_map.trans returns_read

theorem returns_read32 : Returns (mapping.read32 offset) ↔ offset + 4 ≤ mapping.size :=
  returns_map.trans returns_read

theorem returns_readCommonU64 {lo hi : Nat} (hlo : mappingDelta + lo + 4 ≤ mapping.size)
    (hhi : mappingDelta + hi + 4 ≤ mapping.size) :
    Returns (readCommonU64 mapping mappingDelta lo hi) :=
  returns_bind (returns_read32.2 hlo) fun _ => returns_bind (returns_read32.2 hhi) fun _ => trivial

theorem returns_writeCommonU64 {lo hi : Nat} (value : UInt64)
    (hlo : mappingDelta + lo + 4 ≤ mapping.size) (hhi : mappingDelta + hi + 4 ≤ mapping.size) :
    Returns (writeCommonU64 mapping mappingDelta lo hi value) :=
  returns_bind (returns_write.2 hlo) fun _ => returns_write.2 hhi

/-- **`read_queue_view`** needs the registers up to `queue_notify_data`. -/
theorem returns_readQueueView :
    Returns (readQueueView mapping mappingDelta) ↔ mappingDelta + 58 ≤ mapping.size := by
  constructor
  · intro h
    obtain ⟨-, _, h⟩ := h.parts
    obtain ⟨-, _, h⟩ := h.parts
    obtain ⟨-, _, h⟩ := h.parts
    obtain ⟨-, _, h⟩ := h.parts
    obtain ⟨-, _, h⟩ := h.parts
    have hdata : mappingDelta + 56 + 2 ≤ mapping.size := returns_read16.1 h.parts.1
    omega
  · intro h
    have h16 : ∀ register, register + 2 ≤ 58 →
        Returns (mapping.read16 (mappingDelta + register)) := fun register hle =>
      returns_read16.2 (by omega)
    have h64 : ∀ lo hi, lo + 4 ≤ 58 → hi + 4 ≤ 58 →
        Returns (readCommonU64 mapping mappingDelta lo hi) := fun lo hi hlo hhi =>
      returns_readCommonU64 (by omega) (by omega)
    refine returns_bind (h16 _ (by decide)) fun _ => ?_
    refine returns_bind (h16 _ (by decide)) fun _ => ?_
    refine returns_bind (h16 _ (by decide)) fun _ => ?_
    refine returns_bind (h16 _ (by decide)) fun _ => ?_
    refine returns_bind (h16 _ (by decide)) fun _ => ?_
    refine returns_bind (h16 _ (by decide)) fun _ => ?_
    refine returns_bind (h64 _ _ (by decide) (by decide)) fun _ => ?_
    refine returns_bind (h64 _ _ (by decide) (by decide)) fun _ => ?_
    refine returns_bind (h64 _ _ (by decide) (by decide)) fun _ => ?_
    trivial

theorem returns_programQueueAddresses (h : mappingDelta + 56 ≤ mapping.size)
    (layout : VringLayout) (baseIova : UInt64) :
    Returns (programQueueAddresses mapping mappingDelta layout baseIova) := by
  have h64 : ∀ lo hi value, lo + 4 ≤ 56 → hi + 4 ≤ 56 →
      Returns (writeCommonU64 mapping mappingDelta lo hi value) := fun lo hi value hlo hhi =>
    returns_writeCommonU64 value (by omega) (by omega)
  refine returns_bind (returns_write.2 (by simp [VIRTIO_PCI_COMMON_Q_SIZE]; omega)) fun _ => ?_
  refine returns_bind (h64 _ _ _ (by decide) (by decide)) fun _ => ?_
  refine returns_bind (h64 _ _ _ (by decide) (by decide)) fun _ => ?_
  exact h64 _ _ _ (by decide) (by decide)

theorem returns_readFeatureWords {select value : Nat}
    (hselect : mappingDelta + select + 4 ≤ mapping.size)
    (hvalue : mappingDelta + value + 4 ≤ mapping.size) (wordCount : Nat) :
    Returns (readFeatureWords mapping mappingDelta select value wordCount) := by
  have hwords : ∀ words, Returns (readWords mapping mappingDelta select value words) := by
    intro words
    induction words with
    | nil => trivial
    | cons word words ih =>
      refine returns_bind (returns_write.2 hselect) fun _ => ?_
      refine returns_bind (returns_read32.2 hvalue) fun _ => ?_
      exact returns_bind ih fun _ => trivial
  refine returns_bind (returns_read32.2 hselect) fun _ => ?_
  refine returns_bind (hwords _) fun _ => ?_
  exact returns_bind (returns_write.2 hselect) fun _ => trivial

theorem returns_writeGuestFeatureWords (h : mappingDelta + 16 ≤ mapping.size)
    (words : List UInt32) : Returns (writeGuestFeatureWords mapping mappingDelta words) := by
  have hselect : mappingDelta + VIRTIO_PCI_COMMON_GFSELECT + 4 ≤ mapping.size := by
    simp [VIRTIO_PCI_COMMON_GFSELECT]; omega
  have hvalue : mappingDelta + VIRTIO_PCI_COMMON_GF + 4 ≤ mapping.size := by
    simp [VIRTIO_PCI_COMMON_GF]; omega
  refine returns_bind (returns_read32.2 hselect) fun _ => ?_
  refine returns_bind (returns_forM fun word _ => ?_) fun _ => returns_write.2 hselect
  exact returns_bind (returns_write.2 hselect) fun _ => returns_write.2 hvalue

end Returns

/-! ## The mappings -/

/-- What the kernel answers: the regions, the page size, and `mmap` of some bytes at an offset. -/
structure VfioDevice where
  getRegionInfo : UInt32 → Except String RegionInfo
  pageSize : Int64
  mmap : UInt64 → Int64 → Bool → Except String Unit

section Map

variable (device : VfioDevice)

def vfioBarRegionIndex (bar : UInt8) : Except String UInt32 := do
  ensure (bar ≤ 5) ("virtio capability references invalid BAR " ++ toString bar.toNat)
  return bar.toUInt32

def vfioSystemPageSize : Except String Int64 := do
  ensure (0 < device.pageSize) "cannot determine system page size"
  return device.pageSize

/-- The constructor of `MappedRegion`. -/
def mapRegion (size : UInt64) (offset : Int64) (writable : Bool) : Except String MappedRegion := do
  device.mmap size offset writable
  return ⟨size.toNat⟩

/-- What `map_common_cfg` maps of a capability, at most. -/
def requiredLength : UInt64 :=
  max (UInt64.ofNat (VIRTIO_PCI_COMMON_Q_USEDHI + 4)) (UInt64.ofNat (VIRTIO_PCI_COMMON_Q_NDATA + 2))

/-- The mapping, and `mapping_delta`. -/
def mapCommonCfg (common : VirtioCap) (writable : Bool) :
    Except String (MappedRegion × UInt64) := do
  let regionIndex ← vfioBarRegionIndex common.bar
  let region ← device.getRegionInfo regionIndex
  let info := region.info
  ensure (info.size ≠ 0) "COMMON_CFG BAR region is not present"
  ensure (info.flags &&& VFIO_REGION_INFO_FLAG_MMAP ≠ 0)
    "COMMON_CFG BAR region does not support mmap"
  ensure (common.offset < info.size) "COMMON_CFG offset is past BAR region size"
  ensure (UInt64.ofNat (VIRTIO_PCI_COMMON_Q_USEDHI + 4) ≤ common.length)
    "COMMON_CFG is shorter than queue address fields"
  let available := info.size - common.offset
  let commonLength := min common.length available
  let inspectLength := min commonLength requiredLength
  requireMmapAreaContains region common.offset inspectLength "COMMON_CFG range"
  let pageSize ← vfioSystemPageSize device
  let pageMask := (pageSize - 1).toUInt64
  let alignedOffset := common.offset &&& ~~~pageMask
  let mappingDelta := common.offset - alignedOffset
  let mapping ← mapRegion device (mappingDelta + inspectLength)
    (info.offset + alignedOffset).toInt64 writable
  return (mapping, mappingDelta)

/-- A mapping, `mapping_delta`, `bar_offset` and `mmap_offset`. -/
structure NotifyWindow where
  mapping : MappedRegion
  mappingDelta : UInt64
  barOffset : UInt64
  mmapOffset : Int64

def mapNotifyWindow (notify : VirtioCap) (region : RegionInfo) (queueNotifyOff : UInt16) :
    Except String NotifyWindow := do
  let info := region.info
  ensure (info.size ≠ 0) "NOTIFY_CFG BAR region is not present"
  ensure (info.flags &&& VFIO_REGION_INFO_FLAG_MMAP ≠ 0)
    "NOTIFY_CFG BAR region does not support mmap"
  ensure (info.flags &&& VFIO_REGION_INFO_FLAG_WRITE ≠ 0) "NOTIFY_CFG BAR region is not writable"
  let barOffset := notify.offset + queueNotifyOff.toUInt64 * notify.notifyOffMultiplier.toUInt64
  ensure (barOffset + 2 ≤ info.size) "computed notify offset is past BAR region size"
  ensure (notify.offset ≤ barOffset ∧ barOffset + 2 ≤ notify.offset + notify.length)
    "computed notify offset is outside NOTIFY_CFG"
  requireMmapAreaContains region barOffset 2 "notify range"
  let pageSize ← vfioSystemPageSize device
  let pageMask := (pageSize - 1).toUInt64
  let alignedOffset := barOffset &&& ~~~pageMask
  let mappingDelta := barOffset - alignedOffset
  let mmapOffset := (info.offset + alignedOffset).toInt64
  let mapping ← mapRegion device (mappingDelta + 2) mmapOffset true
  return ⟨mapping, mappingDelta, barOffset, mmapOffset⟩

/-- `map_notify_window` calls `mmap` for the window `w`; whether that succeeds does not matter. -/
def MapsNotifyWindow (notify : VirtioCap) (region : RegionInfo) (queueNotifyOff : UInt16)
    (w : NotifyWindow) : Prop :=
  mapNotifyWindow { device with mmap := fun _ _ _ => .ok () } notify region queueNotifyOff = .ok w

end Map

theorem toNat_min (a b : UInt64) : (min a b).toNat = min a.toNat b.toNat := by
  have hmin : min a b = if a ≤ b then a else b := rfl
  rw [hmin, Nat.min_def]
  simp only [UInt64.le_iff_toNat_le]
  split
  · rfl
  · rfl

/-! ## COMMON_CFG -/

/-- No access to COMMON_CFG throws. -/
structure CommonCfgAccessible (mapping : MappedRegion) (mappingDelta : Nat) : Prop where
  queueView : (readQueueView mapping mappingDelta).NeverThrows
  program : ∀ layout baseIova,
    (programQueueAddresses mapping mappingDelta layout baseIova).NeverThrows
  enable : (enableQueue mapping mappingDelta).NeverThrows
  getStatus : (readStatus mapping mappingDelta).NeverThrows
  setStatus : ∀ status, (writeStatus mapping mappingDelta status).NeverThrows
  deviceFeatures : ∀ wordCount, (readFeatureWords mapping mappingDelta VIRTIO_PCI_COMMON_DFSELECT
    VIRTIO_PCI_COMMON_DF wordCount).NeverThrows
  guestFeatures : ∀ wordCount, (readFeatureWords mapping mappingDelta VIRTIO_PCI_COMMON_GFSELECT
    VIRTIO_PCI_COMMON_GF wordCount).NeverThrows
  setGuestFeatures : ∀ words, (writeGuestFeatureWords mapping mappingDelta words).NeverThrows

theorem commonCfgAccessible_iff {mapping : MappedRegion} {mappingDelta : Nat} :
    CommonCfgAccessible mapping mappingDelta ↔ mappingDelta + 58 ≤ mapping.size := by
  constructor
  · exact fun h => returns_readQueueView.1 (Shared.neverThrows_iff.1 h.queueView)
  · intro h
    refine ⟨?_, ?_, ?_, ?_, ?_, ?_, ?_, ?_⟩
    · exact (returns_readQueueView.2 h).run
    · exact fun layout baseIova =>
        (returns_programQueueAddresses (by omega) layout baseIova).run
    · exact (returns_write.2 (by simp [VIRTIO_PCI_COMMON_Q_ENABLE]; omega)).run
    · exact (returns_read8.2 (by simp [VIRTIO_PCI_COMMON_STATUS]; omega)).run
    · exact fun status => (returns_write.2 (by simp [VIRTIO_PCI_COMMON_STATUS]; omega)).run
    · exact fun wordCount => (returns_readFeatureWords
        (by simp [VIRTIO_PCI_COMMON_DFSELECT]; omega) (by simp [VIRTIO_PCI_COMMON_DF]; omega)
        wordCount).run
    · exact fun wordCount => (returns_readFeatureWords
        (by simp [VIRTIO_PCI_COMMON_GFSELECT]; omega) (by simp [VIRTIO_PCI_COMMON_GF]; omega)
        wordCount).run
    · exact fun words => (returns_writeGuestFeatureWords (by omega) words).run

section CommonCfg

variable {device : VfioDevice} {common : VirtioCap} {writable : Bool} {region : RegionInfo}
  {mapping : MappedRegion} {mappingDelta : UInt64}

/-- **What `map_common_cfg` maps**: the 58 bytes of the registers, or what there is of them. -/
theorem mapCommonCfg_size (h : mapCommonCfg device common writable = .ok (mapping, mappingDelta))
    (hregion : device.getRegionInfo common.bar.toUInt32 = .ok region) :
    56 ≤ common.length.toNat ∧ common.offset.toNat < region.info.size.toNat ∧
      mapping.size = mappingDelta.toNat +
        min 58 (min common.length.toNat (region.info.size.toNat - common.offset.toNat)) := by
  obtain ⟨regionIndex, hindex, h⟩ := bind_eq_ok.1 h
  obtain ⟨_, -, hindex⟩ := bind_eq_ok.1 hindex
  cases hindex
  obtain ⟨region', hregion', h⟩ := bind_eq_ok.1 h
  rw [hregion] at hregion'
  cases hregion'
  obtain ⟨_, -, h⟩ := bind_eq_ok.1 h
  obtain ⟨_, -, h⟩ := bind_eq_ok.1 h
  obtain ⟨_, hoffset, h⟩ := bind_eq_ok.1 h
  obtain ⟨_, hlength, h⟩ := bind_eq_ok.1 h
  obtain ⟨_, -, h⟩ := bind_eq_ok.1 h
  obtain ⟨pageSize, -, h⟩ := bind_eq_ok.1 h
  obtain ⟨mapped, hmap, h⟩ := bind_eq_ok.1 h
  obtain ⟨_, -, hmap⟩ := bind_eq_ok.1 hmap
  cases hmap
  cases h
  have hlt := UInt64.lt_iff_toNat_lt.1 (ensure_eq_ok.1 hoffset)
  have hle := UInt64.le_iff_toNat_le.1 (ensure_eq_ok.1 hlength)
  refine ⟨hle, hlt, ?_⟩
  have havailable := UInt64.toNat_sub_of_le _ _ (UInt64.le_of_lt (ensure_eq_ok.1 hoffset))
  have hdelta := UInt64.toNat_sub_of_le _ _
    (UInt64.and_le_left : common.offset &&& ~~~(pageSize - 1).toUInt64 ≤ common.offset)
  have hinspect : (min (min common.length (region.info.size - common.offset))
      requiredLength).toNat =
        min 58 (min common.length.toNat (region.info.size.toNat - common.offset.toNat)) := by
    rw [toNat_min, toNat_min, havailable, Nat.min_comm]
    rfl
  have hsize := region.info.size.toNat_lt
  show (_ + min (min common.length (region.info.size - common.offset)) requiredLength).toNat = _
  rw [UInt64.toNat_add, hinspect]
  -- the sum is at most the size of the region
  exact Nat.mod_eq_of_lt (by omega)

/-- **When COMMON_CFG is accessible.**  A capability that `map_common_cfg` accepts is long enough for
all accesses exactly if it has the 58 bytes, and the BAR as well. -/
theorem commonCfg_accessible_iff
    (h : mapCommonCfg device common writable = .ok (mapping, mappingDelta))
    (hregion : device.getRegionInfo common.bar.toUInt32 = .ok region) :
    CommonCfgAccessible mapping mappingDelta.toNat ↔
      58 ≤ common.length.toNat ∧ common.offset.toNat + 58 ≤ region.info.size.toNat := by
  obtain ⟨-, hoffset, hsize⟩ := mapCommonCfg_size h hregion
  rw [commonCfgAccessible_iff]
  omega

end CommonCfg

/-- A BAR of one page, all of it mappable. -/
def onePage : RegionInfo :=
  ⟨⟨VFIO_REGION_INFO_FLAG_WRITE ||| VFIO_REGION_INFO_FLAG_MMAP, 0, 0x1000, 0⟩, []⟩

/-- A device with such BARs. -/
def onePageDevice : VfioDevice where
  getRegionInfo _ := .ok onePage
  pageSize := 0x1000
  mmap _ _ _ := .ok ()

/-- A COMMON_CFG of `length` bytes at the start of BAR 4. -/
def commonCap (length : UInt64) : VirtioCap := ⟨1, 4, 0, length, 0⟩

theorem commonCfg_accessible_onePage :
    CommonCfgAccessible ⟨58⟩ (0 : UInt64).toNat ↔
      58 ≤ (commonCap 64).length.toNat ∧
        (commonCap 64).offset.toNat + 58 ≤ onePage.info.size.toNat :=
  @commonCfg_accessible_iff onePageDevice (commonCap 64) true onePage ⟨58⟩ 0 rfl rfl

/-- **A COMMON_CFG without `queue_notify_data`** is accepted, and `read_queue_view` throws. -/
theorem short_commonCfg_accepted :
    ¬∀ (device : VfioDevice) (common : VirtioCap) (writable : Bool) (mapping : MappedRegion)
      (mappingDelta : UInt64), mapCommonCfg device common writable = .ok (mapping, mappingDelta) →
        CommonCfgAccessible mapping mappingDelta.toNat := by
  intro h
  have hshort := commonCfgAccessible_iff.1 (h onePageDevice (commonCap 56) true ⟨56⟩ 0 rfl)
  revert hshort
  decide

/-! ## The notify window -/

/-- The notify address of a queue, as an unbounded number. -/
def notifyAddress (notify : VirtioCap) (queueNotifyOff : UInt16) : Nat :=
  notify.offset.toNat + queueNotifyOff.toNat * notify.notifyOffMultiplier.toNat

/-- The two bytes of the window are in the BAR, in the capability, and in a sparse mmap area if there
are any, and `bar_offset` is their offset. -/
structure NotifyWindowInside (notify : VirtioCap) (region : RegionInfo) (queueNotifyOff : UInt16)
    (w : NotifyWindow) : Prop where
  bar : notifyAddress notify queueNotifyOff + 2 ≤ region.info.size.toNat
  capability : notify.offset.toNat ≤ notifyAddress notify queueNotifyOff ∧
    notifyAddress notify queueNotifyOff + 2 ≤ notify.offset.toNat + notify.length.toNat
  area : region.mmapAreas ≠ [] → ∃ a ∈ region.mmapAreas,
    a.offset.toNat ≤ notifyAddress notify queueNotifyOff ∧
      notifyAddress notify queueNotifyOff + 2 ≤ a.offset.toNat + a.size.toNat
  barOffset : w.barOffset.toNat = notifyAddress notify queueNotifyOff

section NotifyWindow

variable {device : VfioDevice} {notify : VirtioCap} {region : RegionInfo} {queueNotifyOff : UInt16}
  {w : NotifyWindow}

/-- The checks that a window has passed, with `barOffset` as the driver computes it. -/
theorem MapsNotifyWindow.checks (h : MapsNotifyWindow device notify region queueNotifyOff w) :
    w.barOffset =
        notify.offset + queueNotifyOff.toUInt64 * notify.notifyOffMultiplier.toUInt64 ∧
      w.barOffset + 2 ≤ region.info.size ∧
      notify.offset ≤ w.barOffset ∧ w.barOffset + 2 ≤ notify.offset + notify.length ∧
      requireMmapAreaContains region w.barOffset 2 "notify range" = .ok () := by
  obtain ⟨_, -, h⟩ := bind_eq_ok.1 h
  obtain ⟨_, -, h⟩ := bind_eq_ok.1 h
  obtain ⟨_, -, h⟩ := bind_eq_ok.1 h
  obtain ⟨_, hbar, h⟩ := bind_eq_ok.1 h
  obtain ⟨_, hcap, h⟩ := bind_eq_ok.1 h
  obtain ⟨_, harea, h⟩ := bind_eq_ok.1 h
  obtain ⟨pageSize, -, h⟩ := bind_eq_ok.1 h
  obtain ⟨mapping, -, h⟩ := bind_eq_ok.1 h
  cases h
  exact ⟨rfl, ensure_eq_ok.1 hbar, (ensure_eq_ok.1 hcap).1, (ensure_eq_ok.1 hcap).2, harea⟩

/-- The product does not wrap around, and the sum does not either if the check passes. -/
theorem MapsNotifyWindow.barOffset_toNat
    (h : MapsNotifyWindow device notify region queueNotifyOff w) :
    w.barOffset.toNat = notifyAddress notify queueNotifyOff := by
  obtain ⟨hbar, -, hle, -⟩ := h.checks
  have hq := queueNotifyOff.toNat_lt
  have hm := notify.notifyOffMultiplier.toNat_lt
  have ho := notify.offset.toNat_lt
  have hproduct : queueNotifyOff.toNat * notify.notifyOffMultiplier.toNat < 2 ^ 48 := by
    calc queueNotifyOff.toNat * notify.notifyOffMultiplier.toNat
        ≤ 2 ^ 16 * notify.notifyOffMultiplier.toNat := Nat.mul_le_mul_right _ (by omega)
      _ < 2 ^ 16 * 2 ^ 32 := by omega
  have hmod : queueNotifyOff.toNat * notify.notifyOffMultiplier.toNat % 2 ^ 64 =
      queueNotifyOff.toNat * notify.notifyOffMultiplier.toNat := Nat.mod_eq_of_lt (by omega)
  have htoNat := congrArg UInt64.toNat hbar
  rw [UInt64.toNat_add, UInt64.toNat_mul, UInt16.toNat_toUInt64, UInt32.toNat_toUInt64, hmod]
    at htoNat
  have hle' := UInt64.le_iff_toNat_le.1 hle
  unfold notifyAddress
  omega

/-- **When the notify window is where it should be**: exactly if the end of the window is not past
the largest offset that 64 bits can hold. -/
theorem notifyWindow_inside_iff (h : MapsNotifyWindow device notify region queueNotifyOff w) :
    NotifyWindowInside notify region queueNotifyOff w ↔
      notifyAddress notify queueNotifyOff + 2 < 2 ^ 64 := by
  obtain ⟨-, hbar, hle, hcap, harea⟩ := h.checks
  have haddress := h.barOffset_toNat
  have hle := UInt64.le_iff_toNat_le.1 hle
  have hcap := UInt64.le_iff_toNat_le.1 hcap
  have hbar := UInt64.le_iff_toNat_le.1 hbar
  have hsize := region.info.size.toNat_lt
  rw [UInt64.toNat_add, UInt64.toNat_add, haddress] at hcap
  rw [UInt64.toNat_add, haddress] at hbar
  constructor
  · intro hinside
    have hin := hinside.bar
    omega
  · intro hlt
    have hmod : (notifyAddress notify queueNotifyOff + (2 : UInt64).toNat) % 2 ^ 64 =
        notifyAddress notify queueNotifyOff + 2 := Nat.mod_eq_of_lt hlt
    rw [hmod] at hbar hcap
    refine ⟨hbar, ⟨by omega, hcap.trans (Nat.mod_le _ _)⟩, fun hne => ?_, haddress⟩
    obtain hnil | ⟨a, ha, hcovers⟩ := requireMmapAreaContains_ok.1 harea
    · exact absurd hnil hne
    · rw [MmapArea.Covers, haddress] at hcovers
      exact ⟨a, ha, hcovers⟩

end NotifyWindow

/-- A NOTIFY_CFG of `length` bytes at `offset`, with a multiplier of 4. -/
def notifyCap (offset length : UInt64) : VirtioCap := ⟨2, 4, offset, length, 4⟩

theorem notifyWindow_inside_onePage :
    NotifyWindowInside (notifyCap 0x40 0x10) onePage 3 ⟨⟨0x4e⟩, 0x4c, 0x4c, 0⟩ ↔
      notifyAddress (notifyCap 0x40 0x10) 3 + 2 < 2 ^ 64 :=
  @notifyWindow_inside_iff onePageDevice (notifyCap 0x40 0x10) onePage 3 ⟨⟨0x4e⟩, 0x4c, 0x4c, 0⟩ rfl

/-- **The two last bytes of the address space** pass all checks. -/
theorem notifyWindow_wraps :
    ¬∀ (device : VfioDevice) (notify : VirtioCap) (region : RegionInfo) (queueNotifyOff : UInt16)
      (w : NotifyWindow), MapsNotifyWindow device notify region queueNotifyOff w →
        NotifyWindowInside notify region queueNotifyOff w := by
  intro h
  have hinside := h onePageDevice (notifyCap 0xfffffffffffffffe 2) onePage 0
    ⟨⟨0x1000⟩, 0xffe, 0xfffffffffffffffe, -0x1000⟩ rfl
  have hbar := hinside.bar
  revert hbar
  decide

end AdvCpp.Vfio
