import AdvCpp.Lib.Chain
import AdvCpp.Lib.Checked
import AdvCpp.Lib.Endian
import AdvCpp.Lib.Shared

/-!
# The capabilities of a VFIO region

`parse_region_caps` follows the `next` offsets in the buffer that `VFIO_DEVICE_GET_REGION_INFO` has
filled, and collects the mmap areas; `require_mmap_area_contains` checks a range against them.

* `parseLoop_nth`, `parseLoop_spec` — the loop follows the chain and collects what is listed.
* `parseRegionCaps_terminates_iff` — it ends exactly if the chain repeats nothing.
* `sparse_areas_enforced_iff` — when a range that is accepted lies inside a listed area.
-/

namespace AdvCpp.Vfio

open AdvCpp.Lib

def VFIO_REGION_INFO_FLAG_READ : UInt32 := 1
def VFIO_REGION_INFO_FLAG_WRITE : UInt32 := 2
def VFIO_REGION_INFO_FLAG_MMAP : UInt32 := 4
def VFIO_REGION_INFO_FLAG_CAPS : UInt32 := 8
def VFIO_REGION_INFO_CAP_SPARSE_MMAP : UInt16 := 1

def sizeofVfioInfoCapHeader : Nat := 8
def sizeofVfioRegionInfoCapSparseMmap : Nat := 16
def sizeofVfioRegionSparseMmapArea : Nat := 16

/-- The fields of `vfio_region_info` that are used. -/
structure VfioRegionInfo where
  flags : UInt32
  capOffset : UInt32
  size : UInt64
  offset : UInt64

structure MmapArea where
  offset : UInt64
  size : UInt64
  deriving DecidableEq

def MmapArea.contains (a : MmapArea) (rangeOffset rangeSize : UInt64) : Prop :=
  a.offset ≤ rangeOffset ∧ rangeOffset - a.offset ≤ a.size ∧
    rangeSize ≤ a.size - (rangeOffset - a.offset)

instance (a : MmapArea) (rangeOffset rangeSize : UInt64) :
    Decidable (a.contains rangeOffset rangeSize) := by
  unfold MmapArea.contains
  exact inferInstance

structure RegionInfo where
  info : VfioRegionInfo
  mmapAreas : List MmapArea

/-- A buffer that an ioctl has filled. -/
structure Buffer where
  size : Nat
  bytes : Mem

namespace Buffer

variable (buf : Buffer)

/-! The members of the capability at `offset`. -/

def id (offset : UInt32) : UInt16 := u16At buf.bytes offset.toNat
def next (offset : UInt32) : UInt32 := u32At buf.bytes (offset.toNat + 4)
def nrAreas (offset : UInt32) : Nat := (u32At buf.bytes (offset.toNat + 8)).toNat

def area (offset : UInt32) (i : Nat) : MmapArea where
  offset := u64At buf.bytes (offset.toNat + sizeofVfioRegionInfoCapSparseMmap +
    i * sizeofVfioRegionSparseMmapArea)
  size := u64At buf.bytes (offset.toNat + sizeofVfioRegionInfoCapSparseMmap +
    i * sizeofVfioRegionSparseMmapArea + 8)

end Buffer

/-- The variables of the loop, and the offsets of the sparse-mmap capabilities whose areas have been
appended. -/
structure ParseState where
  offset : UInt32
  mmapAreas : List MmapArea
  appended : List UInt32

def parseSparse (buf : Buffer) (s : ParseState) : Except String ParseState := do
  ensure (s.offset.toNat + sizeofVfioRegionInfoCapSparseMmap ≤ buf.size)
    "VFIO sparse mmap capability is truncated"
  let bytes := sizeofVfioRegionInfoCapSparseMmap +
    buf.nrAreas s.offset * sizeofVfioRegionSparseMmapArea
  ensure (s.offset.toNat + bytes ≤ buf.size) "VFIO sparse mmap area list is truncated"
  return { s with
    mmapAreas := s.mmapAreas ++ (List.range (buf.nrAreas s.offset)).map (buf.area s.offset)
    appended := s.appended ++ [s.offset] }

/-- One round of the loop. -/
def parseCap (buf : Buffer) (s : ParseState) : Except String ParseState := do
  ensure (s.offset.toNat + sizeofVfioInfoCapHeader ≤ buf.size)
    "VFIO region capability chain is truncated"
  let parsed ← if buf.id s.offset = VFIO_REGION_INFO_CAP_SPARSE_MMAP then parseSparse buf s else .ok s
  return { parsed with offset := buf.next s.offset }

/-- The loop after `n` rounds, or after it has ended. -/
def parseLoop (buf : Buffer) (s : ParseState) : Nat → Except String ParseState
  | 0 => .ok s
  | n + 1 => do
    let s ← parseLoop buf s n
    if s.offset = 0 then .ok s else parseCap buf s

/-- `parse_region_caps`, if it does not take more than `n` rounds. -/
def parseRegionCaps (region : RegionInfo) (buf : Buffer) (n : Nat) :
    Option (Except String RegionInfo) :=
  if region.info.flags &&& VFIO_REGION_INFO_FLAG_CAPS = 0 then some (.ok region)
  else
    match parseLoop buf ⟨region.info.capOffset, region.mmapAreas, []⟩ n with
    | .error e => some (.error e)
    | .ok s => if s.offset = 0 then some (.ok { region with mmapAreas := s.mmapAreas }) else none

/-- The sparse-mmap capabilities whose areas `parse_region_caps` has appended after `n` rounds. -/
def appendedAfter (region : RegionInfo) (buf : Buffer) (n : Nat) : List UInt32 :=
  if region.info.flags &&& VFIO_REGION_INFO_FLAG_CAPS = 0 then []
  else
    match parseLoop buf ⟨region.info.capOffset, region.mmapAreas, []⟩ n with
    | .error _ => []
    | .ok s => s.appended

def requireMmapAreaContains (region : RegionInfo) (rangeOffset rangeSize : UInt64) (what : String) :
    Except String Unit :=
  if region.mmapAreas = [] then .ok ()
  else if ∃ area ∈ region.mmapAreas, area.contains rangeOffset rangeSize then .ok ()
  else .error (what ++ " is not fully inside a VFIO sparse mmap area")

/-! ## The chain -/

namespace Buffer

variable (buf : Buffer)

/-- The capability at `offset` is a list of mmap areas. -/
def IsSparse (offset : UInt32) : Prop := buf.id offset = VFIO_REGION_INFO_CAP_SPARSE_MMAP

/-- The capability at `offset` is inside the buffer. -/
def Fits (offset : UInt32) : Prop :=
  offset.toNat + 8 ≤ buf.size ∧
    (buf.IsSparse offset → offset.toNat + (16 + buf.nrAreas offset * 16) ≤ buf.size)

instance (offset : UInt32) : Decidable (buf.IsSparse offset) := by
  unfold IsSparse
  exact inferInstance

instance (offset : UInt32) : Decidable (buf.Fits offset) := by
  unfold Fits
  exact inferInstance

/-- The mmap areas that the capability at `offset` lists. -/
def listed (offset : UInt32) : List MmapArea :=
  if buf.IsSparse offset then (List.range (buf.nrAreas offset)).map (buf.area offset) else []

end Buffer

instance finiteUInt32 : Finite UInt32 :=
  Finite.of_injective UInt32.toFin fun _ _ h => UInt32.toFin_inj.1 h

def capOffsetNode (offset : UInt32) : Option UInt32 := if offset = 0 then none else some offset

/-- The capabilities from `start` on, up to one that is not inside the buffer. -/
def capChainFrom (buf : Buffer) (start : UInt32) : Chain UInt32 where
  start := capOffsetNode start
  next offset := if buf.Fits offset then capOffsetNode (buf.next offset) else none

section Loop

variable {buf : Buffer} {s s' : ParseState}

theorem parseSparse_eq (h : s.offset.toNat + (16 + buf.nrAreas s.offset * 16) ≤ buf.size) :
    parseSparse buf s = .ok { s with
      mmapAreas := s.mmapAreas ++ (List.range (buf.nrAreas s.offset)).map (buf.area s.offset)
      appended := s.appended ++ [s.offset] } := by
  have hcap : s.offset.toNat + sizeofVfioRegionInfoCapSparseMmap ≤ buf.size := by
    simp [sizeofVfioRegionInfoCapSparseMmap]; omega
  have hlist : s.offset.toNat + (sizeofVfioRegionInfoCapSparseMmap +
      buf.nrAreas s.offset * sizeofVfioRegionSparseMmapArea) ≤ buf.size := h
  simp only [parseSparse, ensure_true hcap, ensure_true hlist, ok_bind]
  rfl

/-- **One round.** -/
theorem parseCap_eq (h : buf.Fits s.offset) :
    parseCap buf s = .ok
      { offset := buf.next s.offset
        mmapAreas := s.mmapAreas ++ buf.listed s.offset
        appended := s.appended ++ if buf.IsSparse s.offset then [s.offset] else [] } := by
  have hheader : s.offset.toNat + sizeofVfioInfoCapHeader ≤ buf.size := h.1
  rw [parseCap, ensure_true hheader, ok_bind]
  by_cases hsparse : buf.IsSparse s.offset
  · have hid : buf.id s.offset = VFIO_REGION_INFO_CAP_SPARSE_MMAP := hsparse
    rw [if_pos hid, parseSparse_eq (h.2 hsparse), Buffer.listed, if_pos hsparse, if_pos hsparse]
    rfl
  · have hid : ¬buf.id s.offset = VFIO_REGION_INFO_CAP_SPARSE_MMAP := hsparse
    rw [if_neg hid, Buffer.listed, if_neg hsparse, if_neg hsparse, List.append_nil, List.append_nil]
    rfl

theorem parseCap_error (h : ¬buf.Fits s.offset) : ∃ e, parseCap buf s = .error e := by
  cases hparse : parseCap buf s with
  | error e => exact ⟨e, rfl⟩
  | ok s' =>
    exfalso
    obtain ⟨_, hheader, hrest⟩ := bind_eq_ok.1 hparse
    refine h ⟨ensure_eq_ok.1 hheader, fun hsparse => ?_⟩
    have hid : buf.id s.offset = VFIO_REGION_INFO_CAP_SPARSE_MMAP := hsparse
    rw [if_pos hid] at hrest
    obtain ⟨parsed, hparsed, -⟩ := bind_eq_ok.1 hrest
    obtain ⟨_, -, hareas⟩ := bind_eq_ok.1 hparsed
    obtain ⟨_, hlist, -⟩ := bind_eq_ok.1 hareas
    exact ensure_eq_ok.1 hlist

/-- **The loop follows the chain.** -/
theorem parseLoop_nth (buf : Buffer) (s : ParseState) (n : Nat) :
    (capChainFrom buf s.offset).nth n =
      match parseLoop buf s n with
      | .error _ => none
      | .ok s' => capOffsetNode s'.offset := by
  induction n with
  | zero => rfl
  | succ n ih =>
    rw [Chain.nth, ih, parseLoop]
    cases hloop : parseLoop buf s n with
    | error e => rfl
    | ok t =>
      by_cases hzero : t.offset = 0
      · simp [hzero, capOffsetNode]
      · have hnode : capOffsetNode t.offset = some t.offset := if_neg hzero
        simp only [ok_bind, if_neg hzero, hnode, Option.bind_some]
        by_cases hfits : buf.Fits t.offset
        · rw [parseCap_eq hfits]
          exact if_pos hfits
        · obtain ⟨e, he⟩ := parseCap_error hfits
          rw [he]
          exact if_neg hfits

/-- **What the loop has collected.** -/
theorem parseLoop_spec {n : Nat} (h : parseLoop buf s n = .ok s') :
    s'.mmapAreas = s.mmapAreas ++ ((capChainFrom buf s.offset).nodes n).flatMap buf.listed ∧
      s'.appended = s.appended ++ ((capChainFrom buf s.offset).nodes n).filter buf.IsSparse := by
  induction n generalizing s' with
  | zero =>
    cases h
    simp [Chain.nodes]
  | succ n ih =>
    obtain ⟨t, hloop, hround⟩ := bind_eq_ok.1 h
    obtain ⟨hareas, happended⟩ := ih hloop
    have hnth := parseLoop_nth buf s n
    rw [hloop] at hnth
    by_cases hzero : t.offset = 0
    · rw [if_pos hzero] at hround
      cases hround
      have hnode : capOffsetNode s'.offset = none := if_pos hzero
      simp [Chain.nodes, hnth, hnode, hareas, happended]
    · rw [if_neg hzero] at hround
      have hnode : capOffsetNode t.offset = some t.offset := if_neg hzero
      have hfits : buf.Fits t.offset := by
        by_contra hnot
        obtain ⟨e, he⟩ := parseCap_error hnot
        rw [he] at hround
        cases hround
      rw [parseCap_eq hfits] at hround
      cases hround
      by_cases hsparse : buf.IsSparse t.offset
      · simp [Chain.nodes, hnth, hnode, hareas, happended, hsparse]
      · simp [Chain.nodes, hnth, hnode, hareas, happended, hsparse]

end Loop

/-- The capabilities of a region. -/
def regionCaps (info : VfioRegionInfo) (buf : Buffer) : Chain UInt32 :=
  capChainFrom buf (if info.flags &&& VFIO_REGION_INFO_FLAG_CAPS = 0 then 0 else info.capOffset)

section Parse

variable {info : VfioRegionInfo} {region : RegionInfo} {buf : Buffer}

/-- Without capabilities there is nothing to follow. -/
theorem regionCaps_nth_of_noCaps (h : info.flags &&& VFIO_REGION_INFO_FLAG_CAPS = 0) (n : Nat) :
    (regionCaps info buf).nth n = none := by
  have hstart : (regionCaps info buf).nth 0 = none := by
    rw [regionCaps, if_pos h]
    rfl
  exact Chain.nth_none hstart (Nat.zero_le n)

theorem regionCaps_of_caps (h : ¬info.flags &&& VFIO_REGION_INFO_FLAG_CAPS = 0) :
    regionCaps info buf = capChainFrom buf info.capOffset := by
  rw [regionCaps, if_neg h]

/-- `n` rounds are enough if the chain has no more capabilities. -/
theorem parseRegionCaps_eq_none (n : Nat) :
    parseRegionCaps region buf n = none ↔ (regionCaps region.info buf).nth n ≠ none := by
  unfold parseRegionCaps
  by_cases hcaps : region.info.flags &&& VFIO_REGION_INFO_FLAG_CAPS = 0
  · simp [hcaps, regionCaps_nth_of_noCaps hcaps]
  · have hnth := parseLoop_nth buf ⟨region.info.capOffset, region.mmapAreas, []⟩ n
    rw [if_neg hcaps, regionCaps_of_caps hcaps, hnth]
    cases hloop : parseLoop buf ⟨region.info.capOffset, region.mmapAreas, []⟩ n with
    | error e => simp
    | ok s =>
      by_cases hzero : s.offset = 0
      · simp [hzero, capOffsetNode]
      · simp [hzero, capOffsetNode]

theorem appendedAfter_sublist (n : Nat) :
    (appendedAfter region buf n).Sublist ((regionCaps region.info buf).nodes n) := by
  unfold appendedAfter
  by_cases hcaps : region.info.flags &&& VFIO_REGION_INFO_FLAG_CAPS = 0
  · simp [hcaps]
  · rw [if_neg hcaps, regionCaps_of_caps hcaps]
    cases hloop : parseLoop buf ⟨region.info.capOffset, region.mmapAreas, []⟩ n with
    | error e => simp
    | ok s =>
      obtain ⟨-, happended⟩ := parseLoop_spec hloop
      simp [happended]

/-- **When `parse_region_caps` terminates**, and appends no capability twice: exactly if no offset
comes twice on the chain. -/
theorem parseRegionCaps_terminates_iff (region : RegionInfo) (buf : Buffer) :
    ((∃ n, parseRegionCaps region buf n ≠ none) ∧ ∀ n, (appendedAfter region buf n).Nodup) ↔
      ∀ i j, i < j → (regionCaps region.info buf).nth i ≠ none →
        (regionCaps region.info buf).nth i ≠ (regionCaps region.info buf).nth j := by
  constructor
  · intro h
    obtain ⟨n, hn⟩ := h.1
    refine Chain.ends_iff.1 ⟨n, ?_⟩
    by_contra hsome
    exact hn ((parseRegionCaps_eq_none n).2 hsome)
  · intro h
    obtain ⟨n, hn⟩ := Chain.ends_iff.2 h
    refine ⟨⟨n, fun hnone => (parseRegionCaps_eq_none n).1 hnone hn⟩, fun n => ?_⟩
    exact (appendedAfter_sublist n).nodup (Chain.nodes_nodup h n)

/-! ## What is checked against the areas -/

/-- `a` is in the list of a capability of the region. -/
def ListedArea (info : VfioRegionInfo) (buf : Buffer) (a : MmapArea) : Prop :=
  ∃ i offset, (regionCaps info buf).nth i = some offset ∧ a ∈ buf.listed offset

/-- The region has a sparse-mmap capability. -/
def HasSparse (info : VfioRegionInfo) (buf : Buffer) : Prop :=
  ∃ i offset, (regionCaps info buf).nth i = some offset ∧ buf.IsSparse offset

/-- One of its sparse-mmap capabilities lists an area. -/
def ListsArea (info : VfioRegionInfo) (buf : Buffer) : Prop :=
  ∃ i offset, (regionCaps info buf).nth i = some offset ∧ buf.IsSparse offset ∧
    buf.nrAreas offset ≠ 0

/-- The bytes `rangeOffset`, …, `rangeOffset + rangeSize - 1` are in the area. -/
def MmapArea.Covers (a : MmapArea) (rangeOffset rangeSize : UInt64) : Prop :=
  a.offset.toNat ≤ rangeOffset.toNat ∧
    rangeOffset.toNat + rangeSize.toNat ≤ a.offset.toNat + a.size.toNat

/-- The comparisons do not wrap around. -/
theorem MmapArea.contains_iff {a : MmapArea} {rangeOffset rangeSize : UInt64} :
    a.contains rangeOffset rangeSize ↔ a.Covers rangeOffset rangeSize := by
  unfold contains Covers
  simp only [UInt64.le_iff_toNat_le]
  constructor
  · intro h
    obtain ⟨hle, hgap, hsize⟩ := h
    have hsub := UInt64.toNat_sub_of_le _ _ (UInt64.le_iff_toNat_le.2 hle)
    have hrest := UInt64.toNat_sub_of_le _ _ (UInt64.le_iff_toNat_le.2 hgap)
    omega
  · intro h
    obtain ⟨hle, hend⟩ := h
    have hsub := UInt64.toNat_sub_of_le _ _ (UInt64.le_iff_toNat_le.2 hle)
    have hgap : (rangeOffset - a.offset).toNat ≤ a.size.toNat := by omega
    have hrest := UInt64.toNat_sub_of_le _ _ (UInt64.le_iff_toNat_le.2 hgap)
    omega

theorem mem_mmapAreas {n : Nat} (h : parseRegionCaps ⟨info, []⟩ buf n = some (.ok region)) (a : MmapArea) :
    a ∈ region.mmapAreas ↔ ListedArea info buf a := by
  by_cases hcaps : info.flags &&& VFIO_REGION_INFO_FLAG_CAPS = 0
  · simp only [parseRegionCaps, if_pos hcaps, Option.some.injEq, Except.ok.injEq] at h
    subst h
    simp [ListedArea, regionCaps_nth_of_noCaps hcaps]
  · simp only [parseRegionCaps, if_neg hcaps] at h
    split at h
    · cases h
    · rename_i s hloop
      split at h
      · cases h
        rename_i hzero
        obtain ⟨hareas, -⟩ := parseLoop_spec hloop
        have hends : (capChainFrom buf info.capOffset).nth n = none := by
          rw [parseLoop_nth buf ⟨info.capOffset, [], []⟩ n, hloop]
          exact if_pos hzero
        simp only [hareas, List.nil_append, List.mem_flatMap, Chain.mem_nodes, ListedArea,
          regionCaps_of_caps hcaps]
        constructor
        · rintro ⟨offset, ⟨i, -, hi⟩, ha⟩
          exact ⟨i, offset, hi, ha⟩
        · rintro ⟨i, offset, hi, ha⟩
          refine ⟨offset, ⟨i, ?_, hi⟩, ha⟩
          by_contra hlate
          have hnone := Chain.nth_none hends (Nat.le_of_not_lt hlate)
          rw [hi] at hnone
          cases hnone
      · cases h

/-- **What `require_mmap_area_contains` accepts.** -/
theorem requireMmapAreaContains_ok {rangeOffset rangeSize : UInt64} {what : String} :
    requireMmapAreaContains region rangeOffset rangeSize what = .ok () ↔
      region.mmapAreas = [] ∨ ∃ a ∈ region.mmapAreas, a.Covers rangeOffset rangeSize := by
  unfold requireMmapAreaContains
  by_cases hnil : region.mmapAreas = []
  · simp [hnil]
  · by_cases hin : ∃ a ∈ region.mmapAreas, a.contains rangeOffset rangeSize
    · rw [if_neg hnil, if_pos hin]
      simp only [MmapArea.contains_iff] at hin
      exact iff_of_true rfl (Or.inr hin)
    · rw [if_neg hnil, if_neg hin]
      simp only [MmapArea.contains_iff] at hin
      exact iff_of_false (by rintro ⟨⟩) (by simp [hnil, hin])

/-- The list of areas is empty exactly if no capability lists one. -/
theorem mmapAreas_ne_nil {n : Nat} (h : parseRegionCaps ⟨info, []⟩ buf n = some (.ok region)) :
    region.mmapAreas ≠ [] ↔ ListsArea info buf := by
  constructor
  · intro hne
    obtain ⟨a, ha⟩ := List.exists_mem_of_ne_nil _ hne
    obtain ⟨i, offset, hi, hlisted⟩ := (mem_mmapAreas h a).1 ha
    unfold Buffer.listed at hlisted
    split at hlisted
    · rename_i hsparse
      obtain ⟨k, hk, -⟩ := List.mem_map.1 hlisted
      have hlt := List.mem_range.1 hk
      exact ⟨i, offset, hi, hsparse, by omega⟩
    · cases hlisted
  · intro hlists
    obtain ⟨i, offset, hi, hsparse, hpos⟩ := hlists
    refine List.ne_nil_of_mem ((mem_mmapAreas h (buf.area offset 0)).2 ⟨i, offset, hi, ?_⟩)
    rw [Buffer.listed, if_pos hsparse]
    exact List.mem_map.2 ⟨0, List.mem_range.2 (by omega), rfl⟩

/-- **When sparse-mmap capabilities are enforced.**  If a region has one, the ranges that are
accepted lie inside listed areas; this holds exactly if not all of the capabilities are empty. -/
theorem sparse_areas_enforced_iff {n : Nat}
    (h : parseRegionCaps ⟨info, []⟩ buf n = some (.ok region)) :
    (HasSparse info buf → ∀ rangeOffset rangeSize what,
      requireMmapAreaContains region rangeOffset rangeSize what = .ok () →
        ∃ a, ListedArea info buf a ∧ a.Covers rangeOffset rangeSize) ↔
      (HasSparse info buf → ListsArea info buf) := by
  constructor
  · intro henforced hsparse
    refine (mmapAreas_ne_nil h).1 fun hnil => ?_
    -- an empty list accepts every range
    have haccepted : requireMmapAreaContains region 0 0 "" = .ok () :=
      requireMmapAreaContains_ok.2 (Or.inl hnil)
    obtain ⟨a, hlisted, -⟩ := henforced hsparse 0 0 "" haccepted
    have hmem := (mem_mmapAreas h a).2 hlisted
    rw [hnil] at hmem
    cases hmem
  · intro hlists hsparse rangeOffset rangeSize what haccepted
    have hne := (mmapAreas_ne_nil h).2 (hlists hsparse)
    obtain hnil | ⟨a, ha, hcovers⟩ := requireMmapAreaContains_ok.1 haccepted
    · exact absurd hnil hne
    · exact ⟨a, (mem_mmapAreas h a).1 ha, hcovers⟩

end Parse

/-! ## Two buffers -/

/-- A region whose only capability, at 32, is a sparse-mmap capability with `nrAreas` areas of one
page; `next` follows it. -/
def oneSparse (nrAreas next : UInt8) : Buffer where
  size := 64
  bytes a :=
    match a with
    | 32 => 1
    | 36 => next
    | 40 => nrAreas
    | 57 => 0x10
    | _ => 0

def oneSparseInfo : VfioRegionInfo where
  flags := VFIO_REGION_INFO_FLAG_READ ||| VFIO_REGION_INFO_FLAG_WRITE |||
    VFIO_REGION_INFO_FLAG_MMAP ||| VFIO_REGION_INFO_FLAG_CAPS
  capOffset := 32
  size := 0x2000
  offset := 0

/-- **A capability that names itself** keeps the loop going for ever. -/
theorem self_link_never_ends :
    ¬∀ (region : RegionInfo) (buf : Buffer),
      (∃ n, parseRegionCaps region buf n ≠ none) ∧ ∀ n, (appendedAfter region buf n).Nodup := by
  intro h
  obtain ⟨⟨n, hn⟩, -⟩ := h ⟨oneSparseInfo, []⟩ (oneSparse 1 32)
  have hnth : ∀ n, (regionCaps oneSparseInfo (oneSparse 1 32)).nth n = some 32 := by
    intro n
    induction n with
    | zero => rfl
    | succ n ih =>
      rw [Chain.nth, ih]
      rfl
  refine hn ((parseRegionCaps_eq_none n).2 ?_)
  simp [hnth]

theorem sparse_areas_enforced_oneSparse :
    (HasSparse oneSparseInfo (oneSparse 1 0) → ∀ rangeOffset rangeSize what,
      requireMmapAreaContains ⟨oneSparseInfo, [⟨0, 0x1000⟩]⟩ rangeOffset rangeSize what = .ok () →
        ∃ a, ListedArea oneSparseInfo (oneSparse 1 0) a ∧ a.Covers rangeOffset rangeSize) ↔
      (HasSparse oneSparseInfo (oneSparse 1 0) → ListsArea oneSparseInfo (oneSparse 1 0)) :=
  sparse_areas_enforced_iff (n := 1) rfl

/-- **A sparse-mmap capability without areas** permits every mapping. -/
theorem empty_sparse_permits_all :
    ¬∀ (info : VfioRegionInfo) (buf : Buffer) (n : Nat) (region : RegionInfo),
      parseRegionCaps ⟨info, []⟩ buf n = some (.ok region) → HasSparse info buf →
      ∀ rangeOffset rangeSize what,
        requireMmapAreaContains region rangeOffset rangeSize what = .ok () →
          ∃ a, ListedArea info buf a ∧ a.Covers rangeOffset rangeSize := by
  intro h
  have hsparse : HasSparse oneSparseInfo (oneSparse 0 0) := ⟨0, 32, rfl, rfl⟩
  obtain ⟨a, hlisted, -⟩ := h oneSparseInfo (oneSparse 0 0) 1 ⟨oneSparseInfo, []⟩ rfl hsparse
    0 0x1000 "COMMON_CFG range" rfl
  have hmem := (@mem_mmapAreas oneSparseInfo ⟨oneSparseInfo, []⟩ (oneSparse 0 0) 1 rfl a).2 hlisted
  cases hmem

end AdvCpp.Vfio
