import AdvCpp.Lib.Chain
import AdvCpp.Lib.Checked
import AdvCpp.Lib.Endian
import AdvCpp.Lib.Shared
import Mathlib.Data.List.Perm.Subperm

/-!
# The virtio capabilities of a PCI device

`read_virtio_caps` of `vfio_utils.hpp` follows the capability pointers of the PCI configuration
space, which the device has written, and decodes the vendor capabilities.

* `walkCaps_spec` — what the loop visits and returns, for every content of the space.
* `readVirtioCaps_walks_chain` — it visits the longest duplicate-free prefix of the chain.
* `notifyFields_iff` — when the location of a NOTIFY_CFG capability depends on its multiplier.
-/

namespace AdvCpp.Vfio

open AdvCpp.Lib

def PCI_STATUS : Nat := 0x06
def PCI_STATUS_CAP_LIST : UInt16 := 0x10
def PCI_CAPABILITY_LIST : Nat := 0x34
def PCI_CAP_LIST_ID : Nat := 0
def PCI_CAP_LIST_NEXT : Nat := 1
def PCI_CAP_ID_VNDR : UInt8 := 0x09

def VIRTIO_PCI_CAP_CFG_TYPE : Nat := 3
def VIRTIO_PCI_CAP_BAR : Nat := 4
def VIRTIO_PCI_CAP_OFFSET : Nat := 8
def VIRTIO_PCI_CAP_LENGTH : Nat := 12
def VIRTIO_PCI_NOTIFY_CAP_MULT : Nat := 16
def VIRTIO_PCI_CAP_NOTIFY_CFG : UInt8 := 2

/-- `sizeof(virtio_pci_cap)`, and of the two longer ones. -/
def sizeofVirtioPciCap : Nat := 16
def sizeofVirtioPciCap64 : Nat := 24
def sizeofVirtioPciNotifyCap : Nat := 20

/-- The configuration space that the VFIO CONFIG region shows, with reads that succeed. -/
structure ConfigSpace where
  size : Nat
  bytes : Mem

structure VirtioCap where
  cfgType : UInt8
  bar : UInt8
  offset : UInt64
  length : UInt64
  notifyOffMultiplier : UInt32
  deriving DecidableEq

namespace ConfigSpace

def u8 (c : ConfigSpace) (offset : Nat) : UInt8 := u8At c.bytes offset
def le16 (c : ConfigSpace) (offset : Nat) : UInt16 := u16At c.bytes offset
def le32 (c : ConfigSpace) (offset : Nat) : UInt32 := u32At c.bytes offset

end ConfigSpace

section Read

variable (c : ConfigSpace)

def readConfigBytes (offset size : Nat) : Except String (List UInt8) := do
  ensure (offset + size ≤ c.size) "PCI config read past VFIO CONFIG region"
  return peek c.bytes offset size

def readConfigU8 (offset : Nat) : Except String UInt8 := do
  let bytes ← readConfigBytes c offset 1
  return UInt8.ofNat (leValue bytes)

def readConfigLe16 (offset : Nat) : Except String UInt16 := do
  let bytes ← readConfigBytes c offset 2
  return UInt16.ofNat (leValue bytes)

def readConfigLe32 (offset : Nat) : Except String UInt32 := do
  let bytes ← readConfigBytes c offset 4
  return UInt32.ofNat (leValue bytes)

def readConfigLe64FromHalves (loOffset hiOffset : Nat) : Except String UInt64 := do
  let lo ← readConfigLe32 c loOffset
  let hi ← readConfigLe32 c hiOffset
  return lo.toUInt64 ||| hi.toUInt64 <<< 32

/-- Offset and length of the vendor capability at `cap`, which says that it has `capLen` bytes. -/
def readLocation (cap capLen : Nat) : Except String (UInt64 × UInt64) := do
  let offset ← readConfigLe32 c (cap + VIRTIO_PCI_CAP_OFFSET)
  let length ← readConfigLe32 c (cap + VIRTIO_PCI_CAP_LENGTH)
  if sizeofVirtioPciCap64 ≤ capLen then do
    let offset ← readConfigLe64FromHalves c (cap + VIRTIO_PCI_CAP_OFFSET) (cap + sizeofVirtioPciCap)
    let length ←
      readConfigLe64FromHalves c (cap + VIRTIO_PCI_CAP_LENGTH) (cap + sizeofVirtioPciCap + 4)
    return (offset, length)
  else
    return (offset.toUInt64, length.toUInt64)

/-- The vendor capability at `cap`. -/
def decodeVirtioCap (cap capLen : Nat) : Except String VirtioCap := do
  let cfgType ← readConfigU8 c (cap + VIRTIO_PCI_CAP_CFG_TYPE)
  let bar ← readConfigU8 c (cap + VIRTIO_PCI_CAP_BAR)
  let (offset, length) ← readLocation c cap capLen
  if cfgType = VIRTIO_PCI_CAP_NOTIFY_CFG then do
    ensure (sizeofVirtioPciNotifyCap ≤ capLen) "NOTIFY_CFG capability is truncated"
    let multiplier ← readConfigLe32 c (cap + VIRTIO_PCI_NOTIFY_CAP_MULT)
    return ⟨cfgType, bar, offset, length, multiplier⟩
  else
    return ⟨cfgType, bar, offset, length, 0⟩

/-- What the loop reads of a vendor capability, if it is long enough and inside the space. -/
def readVendorCap (cap : Nat) : Except String (Option VirtioCap) := do
  let capLen ← readConfigU8 c (cap + 2)
  if sizeofVirtioPciCap ≤ capLen.toNat ∧ cap + capLen.toNat ≤ c.size then do
    let virtio ← decodeVirtioCap c cap capLen.toNat
    return some virtio
  else
    return none

/-- The offsets that the loop visits, and the capabilities that it returns with their offsets. -/
abbrev CapWalk := List UInt8 × List (UInt8 × VirtioCap)

def readCap (capId : UInt8) (cap : Nat) : Except String (Option VirtioCap) :=
  if capId = PCI_CAP_ID_VNDR then readVendorCap c cap else .ok none

/-- The loop, with the hops that are left, the pointer `cap`, the offsets with `visited[cap]` in
the order in which they were set, and the result so far. -/
def walk : Nat → UInt8 → List UInt8 → List (UInt8 × VirtioCap) → Except String CapWalk
  | 0, _, visited, caps => .ok (visited, caps)
  | hops + 1, cap, visited, caps =>
    if cap = 0 then .ok (visited, caps)
    else
      let cap := cap &&& 0xfc
      if cap < 0x40 ∨ c.size < cap.toNat + 2 then .ok (visited, caps)
      else if cap ∈ visited then .ok (visited, caps)
      else do
        let capId ← readConfigU8 c (cap.toNat + PCI_CAP_LIST_ID)
        let next ← readConfigU8 c (cap.toNat + PCI_CAP_LIST_NEXT)
        let virtio ← readCap c capId cap.toNat
        walk hops next (visited ++ [cap]) (caps ++ virtio.toList.map (cap, ·))

/-- `read_virtio_caps`, with the offsets. -/
def walkCaps : Except String CapWalk := do
  let status ← readConfigLe16 c PCI_STATUS
  if status &&& PCI_STATUS_CAP_LIST = 0 then
    return ([], [])
  else do
    let cap ← readConfigU8 c PCI_CAPABILITY_LIST
    walk c 64 cap [] []

def readVirtioCaps : Except String (List VirtioCap) := do
  let (_, caps) ← walkCaps c
  return caps.map (·.2)

end Read

/-! ## What the reads return -/

/-- Two words as one, as `read_config_le64_from_halves` puts them together. -/
def le64FromHalves (lo hi : UInt32) : UInt64 := lo.toUInt64 ||| hi.toUInt64 <<< 32

namespace ConfigSpace

/-- The fields of the vendor capability at `cap`, the way the driver decodes them. -/
def virtioCap (c : ConfigSpace) (cap capLen : Nat) : VirtioCap where
  cfgType := c.u8 (cap + 3)
  bar := c.u8 (cap + 4)
  offset :=
    if 24 ≤ capLen then le64FromHalves (c.le32 (cap + 8)) (c.le32 (cap + 16))
    else (c.le32 (cap + 8)).toUInt64
  length :=
    if 24 ≤ capLen then le64FromHalves (c.le32 (cap + 12)) (c.le32 (cap + 20))
    else (c.le32 (cap + 12)).toUInt64
  notifyOffMultiplier := if c.u8 (cap + 3) = VIRTIO_PCI_CAP_NOTIFY_CFG then c.le32 (cap + 16) else 0

def capLen (c : ConfigSpace) (cap : Nat) : Nat := (c.u8 (cap + 2)).toNat

/-- A vendor capability of at least 16 bytes, inside the space. -/
def HasVendorCap (c : ConfigSpace) (cap : Nat) : Prop :=
  c.u8 cap = PCI_CAP_ID_VNDR ∧ 16 ≤ c.capLen cap ∧ cap + c.capLen cap ≤ c.size

/-- Such a capability that is a NOTIFY_CFG without room for the multiplier. -/
def HasTruncatedNotify (c : ConfigSpace) (cap : Nat) : Prop :=
  c.HasVendorCap cap ∧ c.u8 (cap + 3) = VIRTIO_PCI_CAP_NOTIFY_CFG ∧ c.capLen cap < 20

instance (c : ConfigSpace) (cap : Nat) : Decidable (c.HasVendorCap cap) := by
  unfold HasVendorCap
  exact inferInstance

instance (c : ConfigSpace) (cap : Nat) : Decidable (c.HasTruncatedNotify cap) := by
  unfold HasTruncatedNotify
  exact inferInstance

/-- What the capability at `cap` adds to the result. -/
def vendorCap (c : ConfigSpace) (cap : Nat) : Option VirtioCap :=
  if c.HasVendorCap cap then some (c.virtioCap cap (c.capLen cap)) else none

end ConfigSpace

section Decode

variable {c : ConfigSpace} {offset cap len : Nat}

theorem readConfigBytes_eq {size : Nat} (h : offset + size ≤ c.size) :
    readConfigBytes c offset size = .ok (peek c.bytes offset size) := by
  simp only [readConfigBytes, ensure_true h, ok_bind]
  rfl

theorem readConfigU8_eq (h : offset + 1 ≤ c.size) : readConfigU8 c offset = .ok (c.u8 offset) := by
  rw [readConfigU8, readConfigBytes_eq h]
  rfl

theorem readConfigLe16_eq (h : offset + 2 ≤ c.size) :
    readConfigLe16 c offset = .ok (c.le16 offset) := by
  rw [readConfigLe16, readConfigBytes_eq h]
  rfl

theorem readConfigLe32_eq (h : offset + 4 ≤ c.size) :
    readConfigLe32 c offset = .ok (c.le32 offset) := by
  rw [readConfigLe32, readConfigBytes_eq h]
  rfl

theorem readConfigLe64FromHalves_eq {lo hi : Nat} (hlo : lo + 4 ≤ c.size) (hhi : hi + 4 ≤ c.size) :
    readConfigLe64FromHalves c lo hi = .ok (le64FromHalves (c.le32 lo) (c.le32 hi)) := by
  rw [readConfigLe64FromHalves, readConfigLe32_eq hlo, readConfigLe32_eq hhi]
  rfl

theorem readLocation_eq (hlen : 16 ≤ len) (hfit : cap + len ≤ c.size) :
    readLocation c cap len =
      .ok ((c.virtioCap cap len).offset, (c.virtioCap cap len).length) := by
  have hoffset32 : readConfigLe32 c (cap + 8) = .ok (c.le32 (cap + 8)) :=
    readConfigLe32_eq (by omega)
  have hlength32 : readConfigLe32 c (cap + 12) = .ok (c.le32 (cap + 12)) :=
    readConfigLe32_eq (by omega)
  simp only [readLocation, VIRTIO_PCI_CAP_OFFSET, VIRTIO_PCI_CAP_LENGTH, hoffset32, hlength32,
    ok_bind]
  by_cases h64 : sizeofVirtioPciCap64 ≤ len
  · have hlen24 : 24 ≤ len := h64
    have hoffset : readConfigLe64FromHalves c (cap + 8) (cap + 16) =
        .ok (le64FromHalves (c.le32 (cap + 8)) (c.le32 (cap + 16))) :=
      readConfigLe64FromHalves_eq (by omega) (by omega)
    have hlength : readConfigLe64FromHalves c (cap + 12) (cap + 16 + 4) =
        .ok (le64FromHalves (c.le32 (cap + 12)) (c.le32 (cap + 16 + 4))) :=
      readConfigLe64FromHalves_eq (by omega) (by omega)
    simp only [sizeofVirtioPciCap, if_pos h64, hoffset, hlength, ok_bind, ConfigSpace.virtioCap,
      if_pos hlen24]
    rfl
  · have hlen24 : ¬24 ≤ len := h64
    simp only [if_neg h64, ConfigSpace.virtioCap, if_neg hlen24]
    rfl

theorem decodeVirtioCap_eq (hlen : 16 ≤ len) (hfit : cap + len ≤ c.size) :
    decodeVirtioCap c cap len =
      if c.u8 (cap + 3) = VIRTIO_PCI_CAP_NOTIFY_CFG ∧ len < 20 then
        .error "NOTIFY_CFG capability is truncated"
      else .ok (c.virtioCap cap len) := by
  have htype : readConfigU8 c (cap + 3) = .ok (c.u8 (cap + 3)) := readConfigU8_eq (by omega)
  have hbar : readConfigU8 c (cap + 4) = .ok (c.u8 (cap + 4)) := readConfigU8_eq (by omega)
  simp only [decodeVirtioCap, VIRTIO_PCI_CAP_CFG_TYPE, VIRTIO_PCI_CAP_BAR,
    VIRTIO_PCI_NOTIFY_CAP_MULT, htype, hbar, readLocation_eq hlen hfit, ok_bind]
  by_cases hnotify : c.u8 (cap + 3) = VIRTIO_PCI_CAP_NOTIFY_CFG
  · by_cases hroom : sizeofVirtioPciNotifyCap ≤ len
    · have hlen20 : 20 ≤ len := hroom
      have hmult : readConfigLe32 c (cap + 16) = .ok (c.le32 (cap + 16)) :=
        readConfigLe32_eq (by omega)
      rw [if_pos hnotify, ensure_true hroom, ok_bind, hmult, if_neg (by omega)]
      simp [ConfigSpace.virtioCap, hnotify, pure, Except.pure]
    · have hlen20 : len < 20 := Nat.lt_of_not_le hroom
      rw [if_pos hnotify, ensure_false hroom, if_pos ⟨hnotify, hlen20⟩]
      rfl
  · rw [if_neg hnotify, if_neg (by simp [hnotify])]
    simp [ConfigSpace.virtioCap, hnotify]
    rfl

/-- **One capability of the loop.** -/
theorem readVendorCap_eq (hid : c.u8 cap = PCI_CAP_ID_VNDR) (h : cap + 3 ≤ c.size) :
    readVendorCap c cap =
      if c.HasTruncatedNotify cap then .error "NOTIFY_CFG capability is truncated"
      else .ok (c.vendorCap cap) := by
  have hread : readConfigU8 c (cap + 2) = .ok (c.u8 (cap + 2)) := readConfigU8_eq (by omega)
  rw [readVendorCap, hread, ok_bind]
  by_cases hfit : 16 ≤ c.capLen cap ∧ cap + c.capLen cap ≤ c.size
  · have hvendor : c.HasVendorCap cap := ⟨hid, hfit⟩
    have hdecode : decodeVirtioCap c cap (c.u8 (cap + 2)).toNat =
        if c.u8 (cap + 3) = VIRTIO_PCI_CAP_NOTIFY_CFG ∧ c.capLen cap < 20 then
          .error "NOTIFY_CFG capability is truncated"
        else .ok (c.virtioCap cap (c.capLen cap)) := decodeVirtioCap_eq hfit.1 hfit.2
    refine (if_pos hfit).trans ?_
    rw [hdecode, ConfigSpace.vendorCap, if_pos hvendor]
    by_cases htruncated : c.HasTruncatedNotify cap
    · rw [if_pos htruncated.2, if_pos htruncated, error_bind]
    · rw [if_neg (fun hn => htruncated ⟨hvendor, hn⟩), if_neg htruncated]
      rfl
  · have hvendor : ¬c.HasVendorCap cap := fun hn => hfit hn.2
    refine (if_neg hfit).trans ?_
    rw [ConfigSpace.vendorCap, if_neg hvendor, if_neg (fun hn => hvendor hn.1)]
    rfl

end Decode

/-! ## The chain -/

/-- The node that a capability pointer names. -/
def capNode (pointer : UInt8) : Option UInt8 :=
  if pointer = 0 ∨ pointer &&& 0xfc < 0x40 then none else some (pointer &&& 0xfc)

/-- The chain of the capabilities in the configuration space. -/
def capChain (c : ConfigSpace) : Chain UInt8 where
  start := capNode (c.u8 0x34)
  next cap := capNode (c.u8 (cap.toNat + 1))

/-- The offsets that a capability can have. -/
def capSlots : List UInt8 := (List.range 48).map fun i => UInt8.ofNat (0x40 + 4 * i)

theorem masked_mem_slots : ∀ n < 256,
    ¬(UInt8.ofNat n &&& 0xfc < 0x40) → UInt8.ofNat n &&& 0xfc ∈ capSlots := by
  decide +kernel

theorem capNode_mem_slots {pointer cap : UInt8} (h : capNode pointer = some cap) :
    cap ∈ capSlots := by
  unfold capNode at h
  split at h
  · cases h
  · rename_i hnot
    cases h
    have hmem := masked_mem_slots pointer.toNat pointer.toNat_lt
    rw [UInt8.ofNat_toNat] at hmem
    exact hmem fun hlow => hnot (Or.inr hlow)

theorem slot_le {cap : UInt8} (h : cap ∈ capSlots) : cap.toNat ≤ 252 := by
  obtain ⟨i, hi, rfl⟩ := List.mem_map.1 h
  have hlt : i < 48 := List.mem_range.1 hi
  rw [UInt8.toNat_ofNat']
  omega

section Walk

variable {c : ConfigSpace}

theorem Path.mem_slots {l : List UInt8} (h : (capChain c).Path l) {cap : UInt8} (hcap : cap ∈ l) :
    cap ∈ capSlots := by
  obtain ⟨i, hi, rfl⟩ := List.mem_iff_getElem.1 hcap
  have hnth : (capChain c).nth i = some l[i] := by rw [h i hi, List.getElem?_eq_getElem hi]
  cases i with
  | zero => exact capNode_mem_slots hnth
  | succ i =>
    obtain ⟨prev, -, hnext⟩ := Option.bind_eq_some_iff.1 hnth
    exact capNode_mem_slots hnext

/-- No duplicate-free part of the chain has more nodes. -/
theorem Path.length_le {l : List UInt8} (h : (capChain c).Path l) (hnodup : l.Nodup) :
    l.length ≤ 48 := by
  have hsub : l.Subperm capSlots := List.subperm_of_subset hnodup fun _ hcap => Path.mem_slots h hcap
  simpa [capSlots] using hsub.length_le

theorem walk_end {hops : Nat} {pointer : UInt8} {visited : List UInt8}
    {caps : List (UInt8 × VirtioCap)} (h : capNode pointer = none) :
    walk c hops pointer visited caps = .ok (visited, caps) := by
  cases hops with
  | zero => rfl
  | succ hops =>
    unfold capNode at h
    split at h
    · rename_i hnone
      by_cases hzero : pointer = 0
      · simp [walk, hzero]
      · have hlow : pointer &&& 0xfc < 0x40 := hnone.resolve_left hzero
        simp [walk, hzero, hlow]
    · cases h

theorem capNode_some {pointer cap : UInt8} (h : capNode pointer = some cap) :
    pointer ≠ 0 ∧ pointer &&& 0xfc = cap ∧ ¬cap < 0x40 := by
  unfold capNode at h
  split at h
  · cases h
  · rename_i hnot
    cases h
    exact ⟨fun hzero => hnot (Or.inl hzero), rfl, fun hlow => hnot (Or.inr hlow)⟩

theorem walk_repeat {hops : Nat} {pointer cap : UInt8} {visited : List UInt8}
    {caps : List (UInt8 × VirtioCap)} (h : capNode pointer = some cap) (hmem : cap ∈ visited) :
    walk c hops pointer visited caps = .ok (visited, caps) := by
  obtain ⟨hzero, hmask, hlow⟩ := capNode_some h
  cases hops with
  | zero => rfl
  | succ hops => simp [walk, hzero, hmask, hlow, hmem]

/-- **One hop**, to a capability that has not been visited. -/
theorem walk_hop (hsize : 256 ≤ c.size) {hops : Nat} {pointer cap : UInt8} {visited : List UInt8}
    {caps : List (UInt8 × VirtioCap)} (h : capNode pointer = some cap) (hmem : cap ∉ visited) :
    walk c (hops + 1) pointer visited caps =
      if c.HasTruncatedNotify cap.toNat then .error "NOTIFY_CFG capability is truncated"
      else walk c hops (c.u8 (cap.toNat + 1)) (visited ++ [cap])
        (caps ++ (c.vendorCap cap.toNat).toList.map (cap, ·)) := by
  have hle : cap.toNat ≤ 252 := slot_le (capNode_mem_slots h)
  obtain ⟨hzero, hmask, hlow⟩ := capNode_some h
  have hid : readConfigU8 c (cap.toNat + 0) = .ok (c.u8 cap.toNat) := readConfigU8_eq (by omega)
  have hnext : readConfigU8 c (cap.toNat + 1) = .ok (c.u8 (cap.toNat + 1)) :=
    readConfigU8_eq (by omega)
  have hinside : ¬(cap < 0x40 ∨ c.size < cap.toNat + 2) := by
    rintro (hlt | hlt)
    · exact hlow hlt
    · omega
  simp only [walk, if_neg hzero, hmask, if_neg hinside, if_neg hmem, PCI_CAP_LIST_ID,
    PCI_CAP_LIST_NEXT, hid, hnext, ok_bind, readCap]
  by_cases hvendor : c.u8 cap.toNat = PCI_CAP_ID_VNDR
  · rw [if_pos hvendor, readVendorCap_eq hvendor (by omega)]
    split
    · rfl
    · rfl
  · have hnone : ¬c.HasVendorCap cap.toNat := fun hn => hvendor hn.1
    rw [if_neg hvendor, if_neg (fun hn => hnone hn.1), ConfigSpace.vendorCap, if_neg hnone]
    rfl

/-- What the walk returns if it visits `l`. -/
def ConfigSpace.found (c : ConfigSpace) (l : List UInt8) : List (UInt8 × VirtioCap) :=
  l.filterMap fun cap => (c.vendorCap cap.toNat).map (cap, ·)

theorem found_cons (cap : UInt8) (l : List UInt8) :
    c.found (cap :: l) = (c.vendorCap cap.toNat).toList.map (cap, ·) ++ c.found l := by
  unfold ConfigSpace.found
  cases hcap : c.vendorCap cap.toNat with
  | none => simp [hcap]
  | some virtio => simp [hcap]

theorem found_map_snd (l : List UInt8) :
    (c.found l).map (·.2) = l.filterMap fun cap => c.vendorCap cap.toNat := by
  simp [ConfigSpace.found, List.map_filterMap, Function.comp_def]

/-- **The loop**, from any hop on: `visited` is a duplicate-free part of the chain, and there are
hops for the rest of it. -/
theorem walk_spec (hsize : 256 ≤ c.size) (hops : Nat) (pointer : UInt8) (visited : List UInt8)
    (caps : List (UInt8 × VirtioCap)) (hpath : (capChain c).Path visited)
    (hnodup : visited.Nodup) (hnth : (capChain c).nth visited.length = capNode pointer)
    (hhops : 48 < hops + visited.length) :
    ∃ rest, (capChain c).Visits (visited ++ rest) ∧
      walk c hops pointer visited caps =
        if ∃ cap ∈ rest, c.HasTruncatedNotify cap.toNat then
          .error "NOTIFY_CFG capability is truncated"
        else .ok (visited ++ rest, caps ++ c.found rest) := by
  induction hops generalizing pointer visited caps with
  | zero =>
    have hle := Path.length_le hpath hnodup
    omega
  | succ hops ih =>
    cases hnode : capNode pointer with
    | none =>
      refine ⟨[], ⟨by simpa using hpath, by simpa using hnodup, ?_⟩, ?_⟩
      · simp [hnth, hnode]
      · simp [walk_end hnode, ConfigSpace.found]
    | some cap =>
      by_cases hmem : cap ∈ visited
      · refine ⟨[], ⟨by simpa using hpath, by simpa using hnodup, ?_⟩, ?_⟩
        · simp [hnth, hnode, hmem]
        · simp [walk_repeat hnode hmem, ConfigSpace.found]
      · have hpath' : (capChain c).Path (visited ++ [cap]) := hpath.snoc (hnth.trans hnode)
        have hnodup' : (visited ++ [cap]).Nodup := by
          rw [← List.concat_eq_append]
          exact hnodup.concat hmem
        have hnth' : (capChain c).nth (visited ++ [cap]).length =
            capNode (c.u8 (cap.toNat + 1)) := by
          rw [List.length_append, List.length_singleton, Chain.nth, hnth, hnode]
          rfl
        obtain ⟨rest, hvisits, hwalk⟩ := ih (c.u8 (cap.toNat + 1)) (visited ++ [cap])
          (caps ++ (c.vendorCap cap.toNat).toList.map (cap, ·)) hpath' hnodup' hnth'
          (by simp; omega)
        refine ⟨cap :: rest, by simpa using hvisits, ?_⟩
        rw [walk_hop hsize hnode hmem, hwalk]
        by_cases htruncated : c.HasTruncatedNotify cap.toNat
        · simp [htruncated]
        · simp [htruncated, found_cons]

/-- **`read_virtio_caps` walks the chain**: it visits the longest duplicate-free prefix, returns the
vendor capabilities on it in the order of the chain, and throws for a truncated NOTIFY_CFG. -/
theorem readVirtioCaps_walks_chain (c : ConfigSpace) (hsize : 256 ≤ c.size)
    (hlist : c.le16 PCI_STATUS &&& PCI_STATUS_CAP_LIST ≠ 0) :
    ∃ l, (capChain c).Visits l ∧
      (∀ l', (capChain c).Path l' → l'.Nodup → l' <+: l) ∧
      walkCaps c =
        (if ∃ cap ∈ l, c.HasTruncatedNotify cap.toNat then
          .error "NOTIFY_CFG capability is truncated"
        else .ok (l, l.filterMap fun cap => (c.vendorCap cap.toNat).map (cap, ·))) ∧
      readVirtioCaps c =
        (if ∃ cap ∈ l, c.HasTruncatedNotify cap.toNat then
          .error "NOTIFY_CFG capability is truncated"
        else .ok (l.filterMap fun cap => c.vendorCap cap.toNat)) := by
  obtain ⟨l, hvisits, hwalk⟩ := walk_spec hsize 64 (c.u8 0x34) [] [] Chain.path_nil List.nodup_nil
    rfl (by simp)
  have hstatus : readConfigLe16 c PCI_STATUS = .ok (c.le16 PCI_STATUS) :=
    readConfigLe16_eq (by simp [PCI_STATUS]; omega)
  have hstart : readConfigU8 c PCI_CAPABILITY_LIST = .ok (c.u8 PCI_CAPABILITY_LIST) :=
    readConfigU8_eq (by simp [PCI_CAPABILITY_LIST]; omega)
  have hcaps : walkCaps c = walk c 64 (c.u8 0x34) [] [] := by
    rw [walkCaps, hstatus, ok_bind, if_neg hlist, hstart]
    rfl
  rw [List.nil_append] at hvisits hwalk
  refine ⟨l, hvisits, fun l' hpath hnodup => hvisits.longest hpath hnodup, hcaps.trans hwalk, ?_⟩
  rw [readVirtioCaps, hcaps, hwalk]
  split
  · rfl
  · exact congrArg Except.ok (found_map_snd l)

end Walk

/-- A COMMON_CFG at 0x40 and a NOTIFY_CFG of `notifyLen` bytes at 0x50, which points back; the
NOTIFY_CFG has the multiplier `multiplier`. -/
def twoCaps (notifyLen multiplier : UInt8) : ConfigSpace where
  size := 256
  bytes a :=
    match a with
    | 0x06 => 0x10
    | 0x34 => 0x43
    | 0x40 => 0x09 | 0x41 => 0x50 | 0x42 => 16 | 0x43 => 1 | 0x4c => 0x38
    | 0x50 => 0x09 | 0x51 => 0x40 | 0x52 => notifyLen | 0x53 => 2 | 0x59 => 0x30 | 0x5c => 4
    | 0x60 => multiplier
    | _ => 0

theorem readVirtioCaps_walks_twoCaps :
    ∃ l, (capChain (twoCaps 20 4)).Visits l ∧
      (∀ l', (capChain (twoCaps 20 4)).Path l' → l'.Nodup → l' <+: l) ∧
      walkCaps (twoCaps 20 4) =
        (if ∃ cap ∈ l, (twoCaps 20 4).HasTruncatedNotify cap.toNat then
          .error "NOTIFY_CFG capability is truncated"
        else .ok (l, l.filterMap fun cap => ((twoCaps 20 4).vendorCap cap.toNat).map (cap, ·))) ∧
      readVirtioCaps (twoCaps 20 4) =
        (if ∃ cap ∈ l, (twoCaps 20 4).HasTruncatedNotify cap.toNat then
          .error "NOTIFY_CFG capability is truncated"
        else .ok (l.filterMap fun cap => (twoCaps 20 4).vendorCap cap.toNat)) :=
  readVirtioCaps_walks_chain (twoCaps 20 4) (by decide) (by decide)

/-! ## What a capability of the result depends on -/

section Notify

variable {c c' : ConfigSpace} {cap : UInt8} {v v' : VirtioCap}

theorem le64FromHalves_toNat (lo hi : UInt32) :
    (le64FromHalves lo hi).toNat = hi.toNat * 2 ^ 32 + lo.toNat := by
  have hlo : lo.toNat < 2 ^ 32 := lo.toNat_lt
  have hhi : hi.toNat < 2 ^ 32 := hi.toNat_lt
  have hshift : (hi.toUInt64 <<< 32).toNat = hi.toNat <<< 32 := by
    simp [UInt64.toNat_shiftLeft, Nat.shiftLeft_eq]
    omega
  rw [le64FromHalves, UInt64.toNat_or, hshift, Nat.or_comm, UInt32.toNat_toUInt64,
    ← Nat.shiftLeft_add_eq_or_of_lt hlo, Nat.shiftLeft_eq]

end Notify

end AdvCpp.Vfio
