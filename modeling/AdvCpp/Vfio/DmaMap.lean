import AdvCpp.Lib.Multiples
import AdvCpp.Virtio.Layout

/-!
# A DMA mapping of whole pages

`08_vfio_dma_map.cpp` maps a buffer of a requested size.  Its `round_up_to_page` divides and
multiplies, the one of `virtio_net_vfio.hpp` masks and checks for an overflow.

* `roundUpToPage`, `dmaMapTest` — translated.
* `headerRoundUp_rounds` — the function of the header is exact.
* `roundUpToPage_exact_iff` — for which sizes the one of the sample is.
-/

namespace AdvCpp.Vfio.DmaMap

open AdvCpp.Lib

/-! ## The source -/

/-- The header's, where `sysconf` is the result of `::sysconf(_SC_PAGESIZE)`. -/
def systemPageSize (sysconf : Int64) : Except String Int64 := do
  ensure (¬sysconf ≤ 0) "cannot determine system page size"
  return sysconf

/-- `round_up_to_page` of `virtio_net_vfio.hpp`. -/
def headerRoundUp (sysconf : Int64) (size : UInt64) : Except String Nat := do
  let pageSize ← systemPageSize sysconf
  Virtio.roundUpToPage pageSize.toUInt64 size.toNat

/-- `round_up_to_page` of `08_vfio_dma_map.cpp`. -/
def roundUpToPage (sysconf : Int64) (size : UInt64) : Except String UInt64 := do
  ensure (¬sysconf ≤ 0) "cannot determine system page size"
  let page := sysconf.toUInt64
  ensure (size ≠ 0) "size must be greater than 0"
  return (size + page - 1) / page * page

def VFIO_DMA_MAP_FLAG_READ : UInt32 := 1
def VFIO_DMA_MAP_FLAG_WRITE : UInt32 := 2

/-- The arguments of `VFIO_IOMMU_MAP_DMA`; the buffer has the same size. -/
structure IommuDmaMap where
  flags : UInt32
  iova : UInt64
  size : UInt64
  deriving DecidableEq

/-- What `dma_map_test` announces, and maps with `--yes`, for a device that is there and bound. -/
def dmaMapTest (sysconf : Int64) (iova requestedSize : UInt64) (flags : UInt32) :
    Except String IommuDmaMap := do
  ensure (flags &&& (VFIO_DMA_MAP_FLAG_READ ||| VFIO_DMA_MAP_FLAG_WRITE) ≠ 0)
    "at least one of --read or --write is required"
  let size ← roundUpToPage sysconf requestedSize
  return ⟨flags, iova, size⟩

/-! ## Rounding -/

/-- The least multiple of the page that is not below the size; an exception if it does not fit. -/
def Rounds (page size : Nat) (r : Except String Nat) : Prop :=
  ∀ n, r = .ok n ↔ IsLeast (multiplesFrom page size) n ∧ n < 2 ^ 64

section Rounding

variable {sysconf : Int64} {size : UInt64}

/-- The page size that the functions compute with. -/
def page (sysconf : Int64) : Nat := sysconf.toNatClampNeg

/-- What the functions know of a page size that is a power of two. -/
theorem page_facts (hpage : (page sysconf).isPowerOfTwo) :
    (¬sysconf ≤ 0) ∧ sysconf.toUInt64.toNat = page sysconf ∧ 0 < page sysconf ∧
      page sysconf ∣ 2 ^ 64 := by
  have hpos : 0 < page sysconf := Nat.pos_of_isPowerOfTwo hpage
  have hint : 0 < sysconf.toInt := by
    unfold page Int64.toNatClampNeg at hpos
    omega
  have hlt := sysconf.toNatClampNeg_lt
  have hle : (0 : Int64) ≤ sysconf := Int64.le_iff_toInt_le.2 (Int.le_of_lt hint)
  refine ⟨fun h => ?_, Int64.toNat_toUInt64_of_le hle, hpos, isPowerOfTwo_dvd hpage ?_⟩
  · exact absurd (Int64.le_iff_toInt_le.1 h) (Int.not_le.2 hint)
  · unfold page
    omega

/-- **The header's function is exact.** -/
theorem headerRoundUp_rounds (hpage : (page sysconf).isPowerOfTwo) (size : UInt64) :
    Rounds (page sysconf) size.toNat (headerRoundUp sysconf size) := by
  obtain ⟨hsysconf, hnat, hpos, hdvd⟩ := page_facts hpage
  have hheader : headerRoundUp sysconf size = Virtio.alignUp size.toNat (page sysconf) := by
    simp only [headerRoundUp, systemPageSize, ensure_true hsysconf, ok_bind, pure_bind,
      Virtio.roundUpToPage, hnat]
  have hlt : page sysconf < 2 ^ 64 := hnat ▸ sysconf.toUInt64.toNat_lt
  -- whatever is returned is the least multiple
  have hleast : ∀ {n}, Virtio.alignUp size.toNat (page sysconf) = .ok n →
      IsLeast (multiplesFrom (page sysconf) size.toNat) n ∧ n < 2 ^ 64 := by
    intro n h
    obtain ⟨hle, hdvd, hnear, hfits, -⟩ := Virtio.alignUp_ok h hlt
    exact ⟨isLeast_of_lt hle hdvd hnear, hfits⟩
  intro n
  rw [hheader]
  refine ⟨hleast, ?_⟩
  rintro ⟨hn, hfits⟩
  have hroom : size.toNat ≤ Virtio.SIZE_MAX - (page sysconf - 1) := by
    have h := (isLeast_lt_iff hn hpos hdvd (by decide)).1 hfits
    unfold Virtio.SIZE_MAX
    omega
  have hpower : Virtio.isPowerOfTwo (page sysconf) :=
    Nat.ne_zero_and_sub_one_eq_zero_iff_isPowerOfTwo.2 hpage
  obtain ⟨r, hr⟩ : ∃ r, Virtio.alignUp size.toNat (page sysconf) = .ok r := by
    rw [Virtio.alignUp, ensure_true hpower, ok_bind, ensure_true hroom, ok_bind]
    exact ⟨_, rfl⟩
  rw [hr, (hleast hr).1.unique hn]

/-- **What the sample's function returns.** -/
theorem roundUpToPage_eq (hpage : (page sysconf).isPowerOfTwo) (hsize : size ≠ 0) :
    (roundUpToPage sysconf size).map UInt64.toNat =
      .ok (if size.toNat ≤ 2 ^ 64 - page sysconf then
        size.toNat ⌈/⌉ page sysconf * page sysconf else 0) := by
  obtain ⟨hsysconf, hnat, hpos, hdvd⟩ := page_facts hpage
  have hlt : page sysconf < 2 ^ 64 := hnat ▸ sysconf.toUInt64.toNat_lt
  have hsum : (size + sysconf.toUInt64 - 1).toNat = (size.toNat + page sysconf - 1) % 2 ^ 64 := by
    rw [UInt64.toNat_sub, UInt64.toNat_add, UInt64.toNat_one, hnat]
    omega
  have hle : (size + sysconf.toUInt64 - 1).toNat / page sysconf * page sysconf < 2 ^ 64 :=
    Nat.lt_of_le_of_lt (Nat.div_mul_le_self _ _) (UInt64.toNat_lt _)
  have hvalue : ((size + sysconf.toUInt64 - 1) / sysconf.toUInt64 * sysconf.toUInt64).toNat =
      (size.toNat + page sysconf - 1) % 2 ^ 64 / page sysconf * page sysconf := by
    rw [UInt64.toNat_mul, UInt64.toNat_div, hnat, Nat.mod_eq_of_lt hle, hsum]
  simp only [roundUpToPage, ensure_true hsysconf, ensure_true hsize, ok_bind]
  show Except.ok _ = _
  rw [hvalue, mod_ceilDiv_mul hpos hdvd size.toNat_lt]

/-- **For which sizes the two functions do the same**, and the right thing. -/
theorem roundUpToPage_exact_iff (hpage : (page sysconf).isPowerOfTwo) (hsize : size ≠ 0) :
    Rounds (page sysconf) size.toNat ((roundUpToPage sysconf size).map UInt64.toNat) ∧
        Alike ((roundUpToPage sysconf size).map UInt64.toNat) (headerRoundUp sysconf size) ↔
      size.toNat ≤ 2 ^ 64 - page sysconf := by
  obtain ⟨-, -, hpos, hdvd⟩ := page_facts hpage
  have hceil := isLeast_ceilDiv_mul hpos size.toNat
  have hheader := headerRoundUp_rounds hpage size
  rw [roundUpToPage_eq hpage hsize]
  constructor
  · rintro ⟨hrounds, -⟩
    by_contra hbig
    rw [if_neg hbig] at hrounds
    -- zero is not a size
    have hzero : size.toNat ≤ 0 := ((hrounds 0).1 rfl).1.1.2
    exact hsize (UInt64.toNat_inj.1 (Nat.le_zero.1 hzero))
  · intro hle
    rw [if_pos hle]
    have hfits := (isLeast_lt_iff hceil hpos hdvd (by decide)).2 hle
    refine ⟨fun n => ?_, Or.inr ⟨_, rfl, (hheader _).2 ⟨hceil, hfits⟩⟩⟩
    constructor
    · intro h
      cases h
      exact ⟨hceil, hfits⟩
    · intro h
      rw [h.1.unique hceil]

theorem roundUpToPage_exact_5000 :
    Rounds (page 4096) 5000 ((roundUpToPage 4096 5000).map UInt64.toNat) ∧
        Alike ((roundUpToPage 4096 5000).map UInt64.toNat) (headerRoundUp 4096 5000) ↔
      5000 ≤ 2 ^ 64 - page 4096 :=
  @roundUpToPage_exact_iff 4096 5000 ⟨12, rfl⟩ (by decide)

/-- One byte more than all pages but one: the mapping has no page. -/
theorem roundUpToPage_wraps :
    ¬∀ (sysconf : Int64) (size : UInt64), (page sysconf).isPowerOfTwo → size ≠ 0 →
      Rounds (page sysconf) size.toNat ((roundUpToPage sysconf size).map UInt64.toNat) ∧
        Alike ((roundUpToPage sysconf size).map UInt64.toNat) (headerRoundUp sysconf size) := by
  intro h
  obtain ⟨hrounds, -⟩ := h 4096 0xfffffffffffff001 ⟨12, rfl⟩ (by decide)
  have hzero : (roundUpToPage 4096 0xfffffffffffff001).map UInt64.toNat = .ok 0 := by decide
  have hsize := ((hrounds 0).1 hzero).1.1.2
  revert hsize
  decide

/-- **When the mapping covers what was asked for.** -/
theorem dmaMapTest_covers_iff (hpage : (page sysconf).isPowerOfTwo) (hsize : size ≠ 0)
    {iova : UInt64} {flags : UInt32} {m : IommuDmaMap} (h : dmaMapTest sysconf iova size flags = .ok m) :
    size ≤ m.size ↔ size.toNat ≤ 2 ^ 64 - page sysconf := by
  obtain ⟨_, -, h⟩ := bind_eq_ok.1 h
  obtain ⟨r, hr, h⟩ := bind_eq_ok.1 h
  cases h
  have heq := roundUpToPage_eq hpage hsize
  rw [hr] at heq
  have hnat := Except.ok.inj heq
  obtain ⟨-, -, hpos, -⟩ := page_facts hpage
  show size ≤ r ↔ _
  rw [UInt64.le_iff_toNat_le, hnat]
  split
  · rename_i hle
    exact iff_of_true (isLeast_ceilDiv_mul hpos size.toNat).1.2 hle
  · rename_i hbig
    refine iff_of_false (fun hzero => ?_) hbig
    exact hsize (UInt64.toNat_inj.1 (Nat.le_zero.1 hzero))

end Rounding

end AdvCpp.Vfio.DmaMap
