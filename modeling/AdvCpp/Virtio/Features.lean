import AdvCpp.Lib.Guarded
import AdvCpp.Vfio.Mapping

/-!
# Feature negotiation

The four `negotiate_…_features` of `virtio_net_vfio.hpp`, over the accessors of COMMON_CFG.  The
registers answer the accesses: DEVICE_FEATURE shows the word that its selector selects, and what the
status register answers is up to the device.

* `minimalGuestFeatures`, `minimalTransportFeatures`, `ctrlRxGuestFeatures`,
  `ctrlMacAddrGuestFeatures` — what the driver takes of an offer.
* `negotiate` — the sequence of accesses that the four functions share.
* `Takes`, `featureIsSet_inter` — each takes the offer intersected with its set, or throws.
* `Negotiates`, `negotiations_correct` — every register write, in order, and the result.
-/

namespace AdvCpp.Virtio.Features

open AdvCpp.Lib AdvCpp.Vfio

/-! ## The source -/

def kFeatureWords : Nat := 3

def VIRTIO_F_VERSION_1 : Nat := 32
def VIRTIO_F_ACCESS_PLATFORM : Nat := 33
def VIRTIO_NET_F_MAC : Nat := 5
def VIRTIO_NET_F_STATUS : Nat := 16
def VIRTIO_NET_F_CTRL_VQ : Nat := 17
def VIRTIO_NET_F_CTRL_RX : Nat := 18
def VIRTIO_NET_F_CTRL_MAC_ADDR : Nat := 23

def VIRTIO_CONFIG_S_ACKNOWLEDGE : UInt8 := 1
def VIRTIO_CONFIG_S_DRIVER : UInt8 := 2
def VIRTIO_CONFIG_S_DRIVER_OK : UInt8 := 4
def VIRTIO_CONFIG_S_FEATURES_OK : UInt8 := 8
def VIRTIO_CONFIG_S_NEEDS_RESET : UInt8 := 0x40
def VIRTIO_CONFIG_S_FAILED : UInt8 := 0x80

def joinFlags (flags : List String) : String :=
  if flags = [] then "none" else "|".intercalate flags

def statusNames (status : UInt8) : String :=
  joinFlags (([(VIRTIO_CONFIG_S_ACKNOWLEDGE, "ACKNOWLEDGE"), (VIRTIO_CONFIG_S_DRIVER, "DRIVER"),
    (VIRTIO_CONFIG_S_DRIVER_OK, "DRIVER_OK"), (VIRTIO_CONFIG_S_FEATURES_OK, "FEATURES_OK"),
    (VIRTIO_CONFIG_S_NEEDS_RESET, "NEEDS_RESET"), (VIRTIO_CONFIG_S_FAILED, "FAILED")].filter
      fun flag => status &&& flag.1 ≠ 0).map (·.2))

/-- `1u << shift` -/
def bitOf (bit : Nat) : UInt32 := 1 <<< UInt32.ofNat (bit % 32)

def featureIsSet (words : List UInt32) (bit : Nat) : Bool :=
  words[bit / 32]?.any fun word => word &&& bitOf bit ≠ 0

def setFeature (words : List UInt32) (bit : Nat) : Except String (List UInt32) := do
  ensure (¬words.length ≤ bit / 32) "feature bit is outside the configured word range"
  return words.modify (bit / 32) (· ||| bitOf bit)

/-- `if (feature_is_set(device_features, bit)) set_feature(guest, bit);` -/
def copyFeature (deviceFeatures guest : List UInt32) (bit : Nat) : Except String (List UInt32) :=
  if featureIsSet deviceFeatures bit then setFeature guest bit else .ok guest

def minimalTransportFeatures (deviceFeatures : List UInt32) : Except String (List UInt32) := do
  let guest := List.replicate kFeatureWords 0
  ensure (featureIsSet deviceFeatures VIRTIO_F_VERSION_1)
    "device does not offer VIRTIO_F_VERSION_1; this sample only supports modern virtio"
  let guest ← setFeature guest VIRTIO_F_VERSION_1
  copyFeature deviceFeatures guest VIRTIO_F_ACCESS_PLATFORM

def minimalGuestFeatures (deviceFeatures : List UInt32) : Except String (List UInt32) := do
  let guest := List.replicate kFeatureWords 0
  ensure (featureIsSet deviceFeatures VIRTIO_F_VERSION_1)
    "device does not offer VIRTIO_F_VERSION_1; this sample only supports modern virtio"
  let guest ← setFeature guest VIRTIO_F_VERSION_1
  let guest ← copyFeature deviceFeatures guest VIRTIO_F_ACCESS_PLATFORM
  let guest ← copyFeature deviceFeatures guest VIRTIO_NET_F_MAC
  copyFeature deviceFeatures guest VIRTIO_NET_F_STATUS

/-- The two functions for a control queue need two more bits. -/
def ctrlGuestFeatures (bit : Nat) (missing : String) (deviceFeatures : List UInt32) :
    Except String (List UInt32) := do
  ensure (featureIsSet deviceFeatures VIRTIO_NET_F_CTRL_VQ)
    "device does not offer VIRTIO_NET_F_CTRL_VQ; no control virtqueue"
  ensure (featureIsSet deviceFeatures bit) missing
  let guest ← minimalGuestFeatures deviceFeatures
  let guest ← setFeature guest VIRTIO_NET_F_CTRL_VQ
  setFeature guest bit

def ctrlRxGuestFeatures : List UInt32 → Except String (List UInt32) :=
  ctrlGuestFeatures VIRTIO_NET_F_CTRL_RX
    "device does not offer VIRTIO_NET_F_CTRL_RX; cannot send RX mode control commands"

def ctrlMacAddrGuestFeatures : List UInt32 → Except String (List UInt32) :=
  ctrlGuestFeatures VIRTIO_NET_F_CTRL_MAC_ADDR
    ("device does not offer VIRTIO_NET_F_CTRL_MAC_ADDR; cannot set MAC address through control " ++
      "virtqueue")

section Negotiate

variable (mapping : MappedRegion) (mappingDelta : Nat)

/-- `wait_for_status`; `polls` is how often it polls before the deadline. -/
def waitForStatus (expected : UInt8) : (polls : Nat) → Mmio Unit
  | 0 => do
    let actual ← readStatus mapping mappingDelta
    Shared.throw ("timed out waiting for device_status " ++ statusNames expected ++ ", actual=" ++
      statusNames actual)
  | polls + 1 => do
    let status ← readStatus mapping mappingDelta
    if status = expected then return () else waitForStatus expected polls

/-- `reset_device`; the last read is printed. -/
def resetDevice (polls : Nat) : Mmio Unit := do
  writeStatus mapping mappingDelta 0
  waitForStatus mapping mappingDelta 0 polls
  let _ ← readStatus mapping mappingDelta

/-- What the four functions do, with what they take of the offer. -/
def negotiate (guestFeatures : List UInt32 → Except String (List UInt32)) (polls : Nat) :
    Mmio (List UInt32) := do
  resetDevice mapping mappingDelta polls
  writeStatus mapping mappingDelta VIRTIO_CONFIG_S_ACKNOWLEDGE
  let _ ← readStatus mapping mappingDelta
  writeStatus mapping mappingDelta (VIRTIO_CONFIG_S_ACKNOWLEDGE ||| VIRTIO_CONFIG_S_DRIVER)
  let _ ← readStatus mapping mappingDelta
  let deviceFeatures ← readFeatureWords mapping mappingDelta VIRTIO_PCI_COMMON_DFSELECT
    VIRTIO_PCI_COMMON_DF kFeatureWords
  let guest ← Shared.ofExcept (guestFeatures deviceFeatures.words)
  writeGuestFeatureWords mapping mappingDelta guest
  writeStatus mapping mappingDelta
    (VIRTIO_CONFIG_S_ACKNOWLEDGE ||| VIRTIO_CONFIG_S_DRIVER ||| VIRTIO_CONFIG_S_FEATURES_OK)
  let afterFeaturesOk ← readStatus mapping mappingDelta
  Shared.ensure (afterFeaturesOk &&& VIRTIO_CONFIG_S_FEATURES_OK ≠ 0) "device rejected FEATURES_OK"
  return guest

def negotiateMinimalFeatures (polls : Nat) : Mmio (List UInt32) :=
  negotiate mapping mappingDelta minimalGuestFeatures polls

def negotiateMinimalTransportFeatures (polls : Nat) : Mmio Unit := do
  let _ ← negotiate mapping mappingDelta minimalTransportFeatures polls

def negotiateCtrlRxFeatures (polls : Nat) : Mmio (List UInt32) :=
  negotiate mapping mappingDelta ctrlRxGuestFeatures polls

def negotiateCtrlMacAddrFeatures (polls : Nat) : Mmio (List UInt32) :=
  negotiate mapping mappingDelta ctrlMacAddrGuestFeatures polls

end Negotiate

/-! ## The device -/

/-- What the device decides: its feature words, the answers of the status register to one read after
another, what a reset leaves in the selectors, and what else there is to read. -/
structure Device where
  words : UInt32 → UInt32
  answer : Nat → UInt8
  resetSelect : UInt32 × UInt32
  other : Region → List UInt8

inductive RegWrite where
  | status (value : UInt8)
  | dfSelect (value : UInt32)
  | gfSelect (value : UInt32)
  | gf (value : UInt32)
  deriving DecidableEq

/-- The registers, with the number of status reads and all writes so far. -/
structure Regs where
  dfSelect : UInt32
  gfSelect : UInt32
  guest : UInt32 → UInt32
  statusReads : Nat
  writes : List RegWrite

namespace Regs

def setDfSelect (s : Regs) (value : UInt32) : Regs :=
  { s with dfSelect := value, writes := s.writes ++ [.dfSelect value] }

def setGfSelect (s : Regs) (value : UInt32) : Regs :=
  { s with gfSelect := value, writes := s.writes ++ [.gfSelect value] }

/-- GUEST_FEATURE is the word that its selector selects. -/
def setGf (s : Regs) (value : UInt32) : Regs :=
  { s with guest := fun i => if i = s.gfSelect then value else s.guest i
           writes := s.writes ++ [.gf value] }

/-- Writing 0 resets the device. -/
def setStatus (s : Regs) (d : Device) (value : UInt8) : Regs :=
  if value = 0 then
    { s with dfSelect := d.resetSelect.1, gfSelect := d.resetSelect.2
             writes := s.writes ++ [.status value] }
  else { s with writes := s.writes ++ [.status value] }

end Regs

/-- COMMON_CFG at `base`. -/
def commonCfg (d : Device) (base : Nat) : Shared.Registers Regs where
  load s r :=
    if r.offset = base + VIRTIO_PCI_COMMON_DFSELECT then (leBytes r.size s.dfSelect.toNat, s)
    else if r.offset = base + VIRTIO_PCI_COMMON_DF then
      (leBytes r.size (d.words s.dfSelect).toNat, s)
    else if r.offset = base + VIRTIO_PCI_COMMON_GFSELECT then (leBytes r.size s.gfSelect.toNat, s)
    else if r.offset = base + VIRTIO_PCI_COMMON_STATUS then
      (leBytes r.size (d.answer s.statusReads).toNat, { s with statusReads := s.statusReads + 1 })
    else (d.other r, s)
  store s a bytes :=
    if a = base + VIRTIO_PCI_COMMON_DFSELECT then s.setDfSelect (UInt32.ofNat (leValue bytes))
    else if a = base + VIRTIO_PCI_COMMON_GFSELECT then s.setGfSelect (UInt32.ofNat (leValue bytes))
    else if a = base + VIRTIO_PCI_COMMON_GF then s.setGf (UInt32.ofNat (leValue bytes))
    else if a = base + VIRTIO_PCI_COMMON_STATUS then s.setStatus d (UInt8.ofNat (leValue bytes))
    else s

/-! ## What is taken of an offer -/

/-- The bits of `bits` in the word `i`. -/
def maskOf (bits : List Nat) (i : Nat) : UInt32 :=
  bits.foldl (fun mask bit => if bit / 32 = i then mask ||| bitOf bit else mask) 0

/-- **Feature words intersected with a set of bits.** -/
def inter (words : List UInt32) (bits : List Nat) : List UInt32 :=
  words.mapIdx fun i word => word &&& maskOf bits i

section Offer

variable {words guest : List UInt32} {bits : List Nat} {bit b i : Nat} {word : UInt32}

theorem maskOf_concat :
    maskOf (bits ++ [bit]) i = if bit / 32 = i then maskOf bits i ||| bitOf bit else maskOf bits i := by
  rw [maskOf, List.foldl_append]
  rfl

theorem inter_nil (words : List UInt32) : inter words [] = List.replicate words.length 0 := by
  apply List.ext_getElem
  · simp [inter]
  · intro i hi hi'
    simp [inter, maskOf]

theorem toBitVec_bitOf (bit : Nat) : (bitOf bit).toBitVec = BitVec.twoPow 32 (bit % 32) := by
  have hall : ∀ k : Fin 32, ((1 : UInt32) <<< UInt32.ofNat k).toBitVec = BitVec.twoPow 32 k := by
    decide
  exact hall ⟨bit % 32, Nat.mod_lt _ (by decide)⟩

theorem and_bitOf_toBitVec (word : UInt32) (bit : Nat) :
    (word &&& bitOf bit).toBitVec =
      if word.toBitVec.getLsbD (bit % 32) then BitVec.twoPow 32 (bit % 32) else 0#32 := by
  rw [UInt32.toBitVec_and, toBitVec_bitOf, BitVec.and_twoPow]

/-- The test of a bit. -/
theorem and_bitOf_ne : word &&& bitOf bit ≠ 0 ↔ word.toBitVec.getLsbD (bit % 32) = true := by
  have htwo := and_bitOf_toBitVec word bit
  by_cases hbit : word.toBitVec.getLsbD (bit % 32) = true
  · refine iff_of_true (fun hzero => ?_) hbit
    rw [hzero, if_pos hbit, ← toBitVec_bitOf] at htwo
    have hall : ∀ k : Fin 32, (0 : UInt32) ≠ 1 <<< UInt32.ofNat k := by decide
    exact hall ⟨bit % 32, Nat.mod_lt _ (by decide)⟩ (UInt32.toBitVec_inj.1 htwo)
  · rw [if_neg hbit] at htwo
    exact iff_of_false (not_not.2 (UInt32.toBitVec_inj.1 htwo)) hbit

/-- A word intersected with a bit that it has. -/
theorem and_bitOf (h : word &&& bitOf bit ≠ 0) : word &&& bitOf bit = bitOf bit := by
  apply UInt32.toBitVec_inj.1
  rw [and_bitOf_toBitVec, if_pos (and_bitOf_ne.1 h), toBitVec_bitOf]

theorem and_or_left (a b c : UInt32) : a &&& (b ||| c) = a &&& b ||| a &&& c := by
  apply UInt32.toBitVec_inj.1
  simp only [UInt32.toBitVec_and, UInt32.toBitVec_or, BitVec.and_or_distrib_left]

/-- The bits of a mask. -/
theorem maskOf_getLsbD (bits : List Nat) (b : Nat) :
    (maskOf bits (b / 32)).toBitVec.getLsbD (b % 32) = true ↔ b ∈ bits := by
  induction bits using List.reverseRecOn with
  | nil => simp [maskOf]
  | append_singleton bits bit ih =>
    rw [maskOf_concat, List.mem_append, List.mem_singleton]
    refine Iff.trans ?_ (or_congr_left ih)
    by_cases hword : bit / 32 = b / 32
    · rw [if_pos hword, UInt32.toBitVec_or, BitVec.getLsbD_or, toBitVec_bitOf,
        BitVec.getLsbD_twoPow, Bool.or_eq_true]
      refine or_congr_right ?_
      rw [Bool.and_eq_true, decide_eq_true_eq, decide_eq_true_eq]
      omega
    · rw [if_neg hword]
      have hne : b ≠ bit := by
        rintro rfl
        exact hword rfl
      simp [hne]

theorem featureIsSet_iff :
    featureIsSet words bit = true ↔ ∃ h : bit / 32 < words.length, words[bit / 32] &&& bitOf bit ≠ 0 := by
  unfold featureIsSet
  by_cases h : bit / 32 < words.length
  · simp [h]
  · simp [h]

/-- One more bit, which the offer has. -/
theorem setFeature_inter (h : featureIsSet words bit = true) :
    setFeature (inter words bits) bit = .ok (inter words (bits ++ [bit])) := by
  obtain ⟨hlt, hset⟩ := featureIsSet_iff.1 h
  have hrange : ¬(inter words bits).length ≤ bit / 32 := by simpa [inter] using hlt
  rw [setFeature, ensure_true hrange, ok_bind]
  refine congrArg Except.ok (List.ext_getElem (by simp [inter]) fun i hi hi' => ?_)
  have hlen : i < words.length := by simpa [inter] using hi'
  simp only [inter, List.getElem_modify, List.getElem_mapIdx, maskOf_concat]
  by_cases heq : bit / 32 = i
  · subst heq
    rw [if_pos rfl, if_pos rfl, and_or_left, and_bitOf hset]
  · rw [if_neg heq, if_neg heq]

/-- One more bit, if the offer has it. -/
theorem copyFeature_inter :
    copyFeature words (inter words bits) bit = .ok (inter words (bits ++ [bit])) := by
  unfold copyFeature
  by_cases h : featureIsSet words bit
  · rw [if_pos h, setFeature_inter h]
  · rw [if_neg h]
    refine congrArg Except.ok (List.ext_getElem (by simp [inter]) fun i hi hi' => ?_)
    have hlen : i < words.length := by simpa [inter] using hi
    simp only [inter, List.getElem_mapIdx, maskOf_concat]
    by_cases heq : bit / 32 = i
    · subst heq
      have hclear : words[bit / 32] &&& bitOf bit = 0 := by
        by_contra hset
        exact h (featureIsSet_iff.2 ⟨hlen, hset⟩)
      rw [if_pos rfl, and_or_left, hclear, UInt32.or_zero]
    · rw [if_neg heq]

/-- **The bits of the intersection.** -/
theorem featureIsSet_inter :
    featureIsSet (inter words bits) b = true ↔ featureIsSet words b = true ∧ b ∈ bits := by
  rw [featureIsSet_iff, featureIsSet_iff, ← maskOf_getLsbD]
  simp only [and_bitOf_ne, inter, List.getElem_mapIdx, UInt32.toBitVec_and, BitVec.getLsbD_and,
    Bool.and_eq_true, List.length_mapIdx]
  constructor
  · rintro ⟨hlt, hword, hmask⟩
    exact ⟨⟨hlt, hword⟩, hmask⟩
  · rintro ⟨⟨hlt, hword⟩, hmask⟩
    exact ⟨hlt, hword, hmask⟩

/-- From an offer, `take` takes what is in `supported`, and throws if a bit of `required` is
missing. -/
structure Takes (take : List UInt32 → Except String (List UInt32)) (required supported : List Nat) :
    Prop where
  offered : ∀ words, words.length = kFeatureWords → (∀ bit ∈ required, featureIsSet words bit) →
    take words = .ok (inter words supported)
  missing : ∀ words, ¬(∀ bit ∈ required, featureIsSet words bit) → ∃ e, take words = .error e
  subset : ∀ bit ∈ required, bit ∈ supported

theorem minimalTransportFeatures_takes : Takes minimalTransportFeatures [VIRTIO_F_VERSION_1]
    [VIRTIO_F_VERSION_1, VIRTIO_F_ACCESS_PLATFORM] where
  offered words hlen hall := by
    have hversion := hall VIRTIO_F_VERSION_1 List.mem_cons_self
    have hnil := inter_nil words
    rw [hlen] at hnil
    rw [minimalTransportFeatures, ← hnil, ensure_true hversion, ok_bind, setFeature_inter hversion,
      ok_bind, copyFeature_inter]
    rfl
  missing words hnot := by
    have hversion : ¬featureIsSet words VIRTIO_F_VERSION_1 := fun h => hnot (by
      rintro bit hbit
      rw [List.mem_singleton.1 hbit]
      exact h)
    rw [minimalTransportFeatures, ensure_false hversion]
    exact ⟨_, rfl⟩
  subset := by decide

theorem minimalGuestFeatures_takes : Takes minimalGuestFeatures [VIRTIO_F_VERSION_1]
    [VIRTIO_F_VERSION_1, VIRTIO_F_ACCESS_PLATFORM, VIRTIO_NET_F_MAC, VIRTIO_NET_F_STATUS] where
  offered words hlen hall := by
    have hversion := hall VIRTIO_F_VERSION_1 List.mem_cons_self
    have hnil := inter_nil words
    rw [hlen] at hnil
    rw [minimalGuestFeatures, ← hnil, ensure_true hversion, ok_bind, setFeature_inter hversion,
      ok_bind, copyFeature_inter, ok_bind, copyFeature_inter, ok_bind, copyFeature_inter]
    rfl
  missing words hnot := by
    have hversion : ¬featureIsSet words VIRTIO_F_VERSION_1 := fun h => hnot (by
      rintro bit hbit
      rw [List.mem_singleton.1 hbit]
      exact h)
    rw [minimalGuestFeatures, ensure_false hversion]
    exact ⟨_, rfl⟩
  subset := by decide

/-- The control queue and its command, besides the bits of the minimal offer. -/
theorem ctrlGuestFeatures_takes (bit : Nat) (missing : String) :
    Takes (ctrlGuestFeatures bit missing) [VIRTIO_NET_F_CTRL_VQ, bit, VIRTIO_F_VERSION_1]
      [VIRTIO_F_VERSION_1, VIRTIO_F_ACCESS_PLATFORM, VIRTIO_NET_F_MAC, VIRTIO_NET_F_STATUS,
        VIRTIO_NET_F_CTRL_VQ, bit] where
  offered words hlen hall := by
    have hqueue := hall VIRTIO_NET_F_CTRL_VQ (by simp)
    have hcommand := hall bit (by simp)
    have hminimal := minimalGuestFeatures_takes.offered words hlen (by
      intro b hb
      rw [List.mem_singleton.1 hb]
      exact hall VIRTIO_F_VERSION_1 (by simp))
    rw [ctrlGuestFeatures, ensure_true hqueue, ok_bind, ensure_true hcommand, ok_bind, hminimal,
      ok_bind, setFeature_inter hqueue, ok_bind, setFeature_inter hcommand]
    rfl
  missing words hnot := by
    by_cases hqueue : featureIsSet words VIRTIO_NET_F_CTRL_VQ
    · by_cases hcommand : featureIsSet words bit
      · obtain ⟨e, he⟩ := minimalGuestFeatures_takes.missing words (fun hversion => hnot (by
          intro b hb
          simp only [List.mem_cons, List.not_mem_nil, or_false] at hb
          rcases hb with rfl | rfl | rfl
          · exact hqueue
          · exact hcommand
          · exact hversion _ List.mem_cons_self))
        rw [ctrlGuestFeatures, ensure_true hqueue, ok_bind, ensure_true hcommand, ok_bind, he]
        exact ⟨_, rfl⟩
      · rw [ctrlGuestFeatures, ensure_true hqueue, ok_bind, ensure_false hcommand]
        exact ⟨_, rfl⟩
    · rw [ctrlGuestFeatures, ensure_false hqueue]
      exact ⟨_, rfl⟩
  subset := by
    intro b hb
    simp only [List.mem_cons, List.not_mem_nil, or_false] at hb ⊢
    tauto

end Offer

/-! ## The accesses -/

section Access

variable {d : Device} {mapping : MappedRegion} {base : Nat} {s : Regs}

/-- The registers up to `device_status` are mapped. -/
def StatusMapped (mapping : MappedRegion) (base : Nat) : Prop :=
  base + VIRTIO_PCI_COMMON_STATUS + 1 ≤ mapping.size

theorem StatusMapped.register (h : StatusMapped mapping base) {register : Nat}
    (hle : register ≤ VIRTIO_PCI_COMMON_GF) : base + register + 4 ≤ mapping.size := by
  unfold StatusMapped VIRTIO_PCI_COMMON_STATUS at h
  unfold VIRTIO_PCI_COMMON_GF at hle
  omega

theorem drive_readStatus (h : StatusMapped mapping base) :
    Shared.drive (commonCfg d base) (readStatus mapping base) s =
      (.ok (d.answer s.statusReads), { s with statusReads := s.statusReads + 1 }) := by
  have hload : (commonCfg d base).load s ⟨base + VIRTIO_PCI_COMMON_STATUS, 1⟩ =
      (leBytes 1 (d.answer s.statusReads).toNat, { s with statusReads := s.statusReads + 1 }) := by
    simp [commonCfg, VIRTIO_PCI_COMMON_STATUS, VIRTIO_PCI_COMMON_DFSELECT, VIRTIO_PCI_COMMON_DF,
      VIRTIO_PCI_COMMON_GFSELECT]
  have hread : Shared.drive (commonCfg d base) (mapping.read 1 (base + VIRTIO_PCI_COMMON_STATUS)) s =
      _ := Shared.drive_loadNumber h (d.answer s.statusReads).toNat_lt hload
  rw [readStatus, MappedRegion.read8, Shared.drive_map_ok hread, UInt8.ofNat_toNat]

theorem drive_writeStatus (h : StatusMapped mapping base) (value : UInt8) :
    Shared.drive (commonCfg d base) (writeStatus mapping base value) s =
      (.ok (), s.setStatus d value) := by
  have hvalue : leValue (leBytes 1 value.toNat) = value.toNat := leValue_leBytes_of_lt value.toNat_lt
  have hstore : (commonCfg d base).store s (base + VIRTIO_PCI_COMMON_STATUS)
      (leBytes 1 value.toNat) = s.setStatus d value := by
    simp [commonCfg, VIRTIO_PCI_COMMON_STATUS, VIRTIO_PCI_COMMON_DFSELECT, VIRTIO_PCI_COMMON_GF,
      VIRTIO_PCI_COMMON_GFSELECT, hvalue]
  have hwrite : Shared.drive (commonCfg d base) (writeStatus mapping base value) s = _ :=
    Shared.drive_storeNumber h
  rw [hwrite, hstore]

/-- The registers of 32 bits: a read that changes nothing. -/
theorem drive_read32 (h : StatusMapped mapping base) {register : Nat}
    (hle : register ≤ VIRTIO_PCI_COMMON_GF) {value : UInt32}
    (hload : (commonCfg d base).load s ⟨base + register, 4⟩ = (leBytes 4 value.toNat, s)) :
    Shared.drive (commonCfg d base) (mapping.read32 (base + register)) s = (.ok value, s) := by
  have hread : Shared.drive (commonCfg d base) (mapping.read 4 (base + register)) s = _ :=
    Shared.drive_loadNumber (h.register hle) value.toNat_lt hload
  rw [MappedRegion.read32, Shared.drive_map_ok hread, UInt32.ofNat_toNat]

theorem drive_write32 (h : StatusMapped mapping base) {register : Nat}
    (hle : register ≤ VIRTIO_PCI_COMMON_GF) {value : UInt32} {s' : Regs}
    (hstore : (commonCfg d base).store s (base + register) (leBytes 4 value.toNat) = s') :
    Shared.drive (commonCfg d base) (mapping.write32 (base + register) value) s = (.ok (), s') :=
  hstore ▸ Shared.drive_storeNumber (h.register hle)

theorem ofNat_leValue (value : UInt32) : UInt32.ofNat (leValue (leBytes 4 value.toNat)) = value := by
  rw [leValue_leBytes_of_lt value.toNat_lt, UInt32.ofNat_toNat]

theorem drive_readDfSelect (h : StatusMapped mapping base) :
    Shared.drive (commonCfg d base) (mapping.read32 (base + VIRTIO_PCI_COMMON_DFSELECT)) s =
      (.ok s.dfSelect, s) :=
  drive_read32 h (by decide) (by simp [commonCfg])

theorem drive_readDf (h : StatusMapped mapping base) :
    Shared.drive (commonCfg d base) (mapping.read32 (base + VIRTIO_PCI_COMMON_DF)) s =
      (.ok (d.words s.dfSelect), s) :=
  drive_read32 h (by decide)
    (by simp [commonCfg, VIRTIO_PCI_COMMON_DF, VIRTIO_PCI_COMMON_DFSELECT])

theorem drive_readGfSelect (h : StatusMapped mapping base) :
    Shared.drive (commonCfg d base) (mapping.read32 (base + VIRTIO_PCI_COMMON_GFSELECT)) s =
      (.ok s.gfSelect, s) :=
  drive_read32 h (by decide) (by
    simp [commonCfg, VIRTIO_PCI_COMMON_DF, VIRTIO_PCI_COMMON_DFSELECT, VIRTIO_PCI_COMMON_GFSELECT])

theorem drive_writeDfSelect (h : StatusMapped mapping base) (value : UInt32) :
    Shared.drive (commonCfg d base) (mapping.write32 (base + VIRTIO_PCI_COMMON_DFSELECT) value) s =
      (.ok (), s.setDfSelect value) :=
  drive_write32 h (by decide) (by simp [commonCfg, ofNat_leValue])

theorem drive_writeGfSelect (h : StatusMapped mapping base) (value : UInt32) :
    Shared.drive (commonCfg d base) (mapping.write32 (base + VIRTIO_PCI_COMMON_GFSELECT) value) s =
      (.ok (), s.setGfSelect value) :=
  drive_write32 h (by decide) (by
    simp [commonCfg, ofNat_leValue, VIRTIO_PCI_COMMON_DFSELECT, VIRTIO_PCI_COMMON_GFSELECT])

theorem drive_writeGf (h : StatusMapped mapping base) (value : UInt32) :
    Shared.drive (commonCfg d base) (mapping.write32 (base + VIRTIO_PCI_COMMON_GF) value) s =
      (.ok (), s.setGf value) :=
  drive_write32 h (by decide) (by
    simp [commonCfg, ofNat_leValue, VIRTIO_PCI_COMMON_DFSELECT, VIRTIO_PCI_COMMON_GFSELECT,
      VIRTIO_PCI_COMMON_GF])

/-! ## The words -/

/-- The words that the device offers. -/
def Device.offer (d : Device) : List UInt32 := [d.words 0, d.words 1, d.words 2]

/-- The loop over the words selects each of them. -/
theorem drive_readWords (h : StatusMapped mapping base) (words : List Nat) (s : Regs) :
    ∃ select, Shared.drive (commonCfg d base) (readWords mapping base VIRTIO_PCI_COMMON_DFSELECT
        VIRTIO_PCI_COMMON_DF words) s =
      (.ok (words.map fun word => d.words (UInt32.ofNat word)),
        { s with dfSelect := select
                 writes := s.writes ++ words.map fun word => .dfSelect (UInt32.ofNat word) }) := by
  induction words generalizing s with
  | nil => exact ⟨s.dfSelect, by simp [readWords, Shared.drive_pure]⟩
  | cons word words ih =>
    obtain ⟨select, hrest⟩ := ih (s.setDfSelect (UInt32.ofNat word))
    refine ⟨select, ?_⟩
    rw [readWords, Shared.drive_bind_ok (drive_writeDfSelect h _), Shared.drive_bind_ok (drive_readDf h),
      Shared.drive_bind_ok hrest, Shared.drive_pure]
    simp [Regs.setDfSelect]

/-- **The device words**, and the selector is as it was. -/
theorem drive_readFeatureWords (h : StatusMapped mapping base) (s : Regs) :
    Shared.drive (commonCfg d base) (readFeatureWords mapping base VIRTIO_PCI_COMMON_DFSELECT
        VIRTIO_PCI_COMMON_DF kFeatureWords) s =
      (.ok ⟨s.dfSelect, d.offer⟩,
        { s with writes := s.writes ++ [.dfSelect 0, .dfSelect 1, .dfSelect 2,
                             .dfSelect s.dfSelect] }) := by
  obtain ⟨select, hwords⟩ := drive_readWords (d := d) h (List.range kFeatureWords) s
  rw [readFeatureWords, Shared.drive_bind_ok (drive_readDfSelect h), Shared.drive_bind_ok hwords,
    Shared.drive_bind_ok (drive_writeDfSelect h _), Shared.drive_pure]
  simp [Regs.setDfSelect, Device.offer, kFeatureWords, List.range_succ]

/-- The writes of the guest words, each behind its selector, which is then as it was. -/
def guestWrites (words : List UInt32) (select : UInt32) : List RegWrite :=
  (words.zipIdx.flatMap fun word => [.gfSelect (UInt32.ofNat word.2), .gf word.1]) ++
    [.gfSelect select]

/-- **The guest words.** -/
theorem drive_writeGuestFeatureWords (h : StatusMapped mapping base) {words : List UInt32}
    (hlen : words.length = kFeatureWords) (s : Regs) :
    ∃ guest, Shared.drive (commonCfg d base) (writeGuestFeatureWords mapping base words) s =
      (.ok (), { s with guest := guest
                        writes := s.writes ++ guestWrites words s.gfSelect }) ∧
      [guest 0, guest 1, guest 2] = words := by
  obtain ⟨g0, g1, g2, rfl⟩ := List.length_eq_three.1 hlen
  let written (s : Regs) (word : UInt32 × Nat) : Regs :=
    (s.setGfSelect (UInt32.ofNat word.2)).setGf word.1
  have hword : ∀ (word : UInt32 × Nat) (s : Regs),
      Shared.drive (commonCfg d base) (writeGuestFeatureWord mapping base word) s =
        (.ok (), written s word) := by
    intro word s
    rw [writeGuestFeatureWord, Shared.drive_bind_ok (drive_writeGfSelect h _), drive_writeGf h]
  have hloop : Shared.drive (commonCfg d base)
      ([g0, g1, g2].zipIdx.forM (writeGuestFeatureWord mapping base)) s =
        (.ok (), written (written (written s (g0, 0)) (g1, 1)) (g2, 2)) :=
    (Shared.drive_bind_ok (hword (g0, 0) s)).trans
      ((Shared.drive_bind_ok (hword (g1, 1) _)).trans
        ((Shared.drive_bind_ok (hword (g2, 2) _)).trans Shared.drive_pure))
  refine ⟨(written (written (written s (g0, 0)) (g1, 1)) (g2, 2)).guest, ?_, ?_⟩
  · rw [writeGuestFeatureWords, Shared.drive_bind_ok (drive_readGfSelect h),
      Shared.drive_bind_ok hloop, drive_writeGfSelect h]
    simp [written, Regs.setGfSelect, Regs.setGf, guestWrites]
  · simp [written, Regs.setGfSelect, Regs.setGf]

/-! ## Negotiation -/

/-- One of the polls sees the reset. -/
def ResetSeen (d : Device) (s : Regs) (polls : Nat) : Prop :=
  ∃ i < polls, d.answer (s.statusReads + i) = 0

/-- After a reset and some reads of the status. -/
def Regs.afterReset (s : Regs) (d : Device) (reads : Nat) : Regs :=
  { s with dfSelect := d.resetSelect.1, gfSelect := d.resetSelect.2, statusReads := reads
           writes := s.writes ++ [.status 0] }

theorem drive_waitForStatus_seen (h : StatusMapped mapping base) {polls : Nat}
    (hseen : ResetSeen d s polls) :
    ∃ reads, Shared.drive (commonCfg d base) (waitForStatus mapping base 0 polls) s =
      (.ok (), { s with statusReads := reads }) := by
  induction polls generalizing s with
  | zero =>
    obtain ⟨i, hi, -⟩ := hseen
    exact absurd hi (Nat.not_lt_zero i)
  | succ polls ih =>
    rw [waitForStatus, Shared.drive_bind_ok (drive_readStatus h)]
    by_cases hnow : d.answer s.statusReads = 0
    · rw [if_pos hnow]
      exact ⟨s.statusReads + 1, rfl⟩
    · rw [if_neg hnow]
      obtain ⟨i, hi, hzero⟩ := hseen
      obtain _ | i := i
      · exact absurd hzero hnow
      · have hlater : ResetSeen d { s with statusReads := s.statusReads + 1 } polls := by
          refine ⟨i, by omega, ?_⟩
          rwa [Nat.add_right_comm]
        obtain ⟨reads, hreads⟩ := ih hlater
        exact ⟨reads, hreads⟩

theorem drive_waitForStatus_unseen (h : StatusMapped mapping base) {polls : Nat}
    (hnot : ¬ResetSeen d s polls) :
    ∃ e reads, Shared.drive (commonCfg d base) (waitForStatus mapping base 0 polls) s =
      (.error e, { s with statusReads := reads }) := by
  induction polls generalizing s with
  | zero =>
    rw [waitForStatus, Shared.drive_bind_ok (drive_readStatus h)]
    exact ⟨_, s.statusReads + 1, rfl⟩
  | succ polls ih =>
    have hnow : d.answer s.statusReads ≠ 0 := fun hzero => hnot ⟨0, by omega, hzero⟩
    rw [waitForStatus, Shared.drive_bind_ok (drive_readStatus h), if_neg hnow]
    have hlater : ¬ResetSeen d { s with statusReads := s.statusReads + 1 } polls := by
      rintro ⟨i, hi, hzero⟩
      refine hnot ⟨i + 1, by omega, ?_⟩
      rwa [← Nat.add_assoc, Nat.add_right_comm]
    obtain ⟨e, reads, hreads⟩ := ih hlater
    exact ⟨e, reads, hreads⟩

theorem drive_resetDevice_seen (h : StatusMapped mapping base) {polls : Nat}
    (hseen : ResetSeen d s polls) :
    ∃ reads, Shared.drive (commonCfg d base) (resetDevice mapping base polls) s =
      (.ok (), s.afterReset d reads) := by
  have hstatus : ResetSeen d (s.setStatus d 0) polls := hseen
  obtain ⟨reads, hreads⟩ := drive_waitForStatus_seen h hstatus
  refine ⟨reads + 1, ?_⟩
  rw [resetDevice, Shared.drive_bind_ok (drive_writeStatus h 0), Shared.drive_bind_ok hreads,
    Shared.drive_bind_ok (drive_readStatus h)]
  rfl

theorem drive_resetDevice_unseen (h : StatusMapped mapping base) {polls : Nat}
    (hnot : ¬ResetSeen d s polls) :
    ∃ e reads, Shared.drive (commonCfg d base) (resetDevice mapping base polls) s =
      (.error e, s.afterReset d reads) := by
  have hstatus : ¬ResetSeen d (s.setStatus d 0) polls := hnot
  obtain ⟨e, reads, hreads⟩ := drive_waitForStatus_unseen h hstatus
  refine ⟨e, reads, ?_⟩
  rw [resetDevice, Shared.drive_bind_ok (drive_writeStatus h 0), Shared.drive_bind_error hreads]
  rfl

theorem drive_resetDevice_unmapped (h : ¬StatusMapped mapping base) (polls : Nat) :
    ∃ e, Shared.drive (commonCfg d base) (resetDevice mapping base polls) s = (.error e, s) := by
  have hrange : ¬(base + VIRTIO_PCI_COMMON_STATUS ≤ mapping.size ∧
      1 ≤ mapping.size - (base + VIRTIO_PCI_COMMON_STATUS)) := by
    unfold StatusMapped at h
    omega
  exact ⟨_, Shared.drive_bind_error (Shared.drive_bind_error (Shared.drive_ensure_error hrange _))⟩

/-- After the device words have been read. -/
def Regs.afterOffer (s : Regs) (d : Device) (reads : Nat) : Regs :=
  { s.afterReset d reads with
    writes := s.writes ++ [.status 0, .status VIRTIO_CONFIG_S_ACKNOWLEDGE,
      .status (VIRTIO_CONFIG_S_ACKNOWLEDGE ||| VIRTIO_CONFIG_S_DRIVER),
      .dfSelect 0, .dfSelect 1, .dfSelect 2, .dfSelect d.resetSelect.1] }

/-- After the guest words and FEATURES_OK have been written. -/
def Regs.afterFeaturesOk (s : Regs) (d : Device) (words : List UInt32) (guest : UInt32 → UInt32)
    (reads : Nat) : Regs :=
  { s.afterOffer d reads with
    guest := guest
    writes := (s.afterOffer d reads).writes ++ guestWrites words d.resetSelect.2 ++
      [.status (VIRTIO_CONFIG_S_ACKNOWLEDGE ||| VIRTIO_CONFIG_S_DRIVER |||
        VIRTIO_CONFIG_S_FEATURES_OK)] }

/-- Everything up to the offer. -/
theorem drive_negotiate (take : List UInt32 → Except String (List UInt32))
    (h : StatusMapped mapping base) {polls : Nat} (hseen : ResetSeen d s polls) :
    ∃ reads, Shared.drive (commonCfg d base) (negotiate mapping base take polls) s =
      Shared.drive (commonCfg d base) (do
        let guest ← Shared.ofExcept (take d.offer)
        writeGuestFeatureWords mapping base guest
        writeStatus mapping base (VIRTIO_CONFIG_S_ACKNOWLEDGE ||| VIRTIO_CONFIG_S_DRIVER |||
          VIRTIO_CONFIG_S_FEATURES_OK)
        let afterFeaturesOk ← readStatus mapping base
        Shared.ensure (afterFeaturesOk &&& VIRTIO_CONFIG_S_FEATURES_OK ≠ 0)
          "device rejected FEATURES_OK"
        return guest) (s.afterOffer d reads) := by
  obtain ⟨reads, hreset⟩ := drive_resetDevice_seen h hseen
  refine ⟨reads + 2, ?_⟩
  rw [negotiate, Shared.drive_bind_ok hreset, Shared.drive_bind_ok (drive_writeStatus h _),
    Shared.drive_bind_ok (drive_readStatus h), Shared.drive_bind_ok (drive_writeStatus h _),
    Shared.drive_bind_ok (drive_readStatus h), Shared.drive_bind_ok (drive_readFeatureWords h _)]
  refine congrArg (Shared.drive (commonCfg d base) _) ?_
  simp [Regs.setStatus, Regs.afterReset, Regs.afterOffer, VIRTIO_CONFIG_S_ACKNOWLEDGE,
    VIRTIO_CONFIG_S_DRIVER]

/-- The device kept FEATURES_OK, or the negotiation throws. -/
theorem drive_featuresOk (h : StatusMapped mapping base) {words : List UInt32}
    (hlen : words.length = kFeatureWords) (reads : Nat) :
    ∃ guest, Shared.drive (commonCfg d base) (do
        writeGuestFeatureWords mapping base words
        writeStatus mapping base (VIRTIO_CONFIG_S_ACKNOWLEDGE ||| VIRTIO_CONFIG_S_DRIVER |||
          VIRTIO_CONFIG_S_FEATURES_OK)
        let afterFeaturesOk ← readStatus mapping base
        Shared.ensure (afterFeaturesOk &&& VIRTIO_CONFIG_S_FEATURES_OK ≠ 0)
          "device rejected FEATURES_OK"
        return words) (s.afterOffer d reads) =
      (if d.answer reads &&& VIRTIO_CONFIG_S_FEATURES_OK ≠ 0 then .ok words
        else .error "device rejected FEATURES_OK",
        s.afterFeaturesOk d words guest (reads + 1)) ∧
      [guest 0, guest 1, guest 2] = words := by
  obtain ⟨guest, hwrite, hguest⟩ :=
    drive_writeGuestFeatureWords (d := d) h hlen (s.afterOffer d reads)
  refine ⟨guest, ?_, hguest⟩
  rw [Shared.drive_bind_ok hwrite, Shared.drive_bind_ok (drive_writeStatus h _),
    Shared.drive_bind_ok (drive_readStatus h)]
  have hafter : ∀ s' : Regs, s' = { (s.afterOffer d reads) with
      guest := guest
      writes := (s.afterOffer d reads).writes ++ guestWrites words (s.afterOffer d reads).gfSelect } →
      { (s'.setStatus d (VIRTIO_CONFIG_S_ACKNOWLEDGE ||| VIRTIO_CONFIG_S_DRIVER |||
          VIRTIO_CONFIG_S_FEATURES_OK)) with statusReads := reads + 1 } =
        s.afterFeaturesOk d words guest (reads + 1) := by
    rintro _ rfl
    simp [Regs.setStatus, Regs.afterOffer, Regs.afterReset, Regs.afterFeaturesOk,
      VIRTIO_CONFIG_S_ACKNOWLEDGE, VIRTIO_CONFIG_S_DRIVER, VIRTIO_CONFIG_S_FEATURES_OK]
  by_cases hkept : d.answer reads &&& VIRTIO_CONFIG_S_FEATURES_OK ≠ 0
  · rw [if_pos hkept]
    exact (Shared.drive_bind_ok (Shared.drive_ensure hkept _)).trans
      (congrArg (Prod.mk _) (hafter _ rfl))
  · rw [if_neg hkept]
    exact (Shared.drive_bind_error (Shared.drive_ensure_error hkept _)).trans
      (congrArg (Prod.mk _) (hafter _ rfl))

end Access

/-- The bits of `required` are offered. -/
def Device.Offers (d : Device) (required : List Nat) : Prop :=
  ∀ bit ∈ required, featureIsSet d.offer bit = true

/-- A negotiation that needs `required`, takes `supported` of the offer and returns `ret` of that,
against every device and from every state of the registers.

* Without the registers or the reset it throws, and has written the reset at most.
* If a required bit is missing it throws, and has written no guest register: the writes are those of
  `Regs.afterOffer`.
* Otherwise the guest words are the offered ones intersected with `supported`; FEATURES_OK is the
  last of all writes, and what the device answers to it decides the result.  Each selector is written
  back as the reset left it. -/
structure Negotiates {α : Type} (required supported : List Nat) (ret : List UInt32 → α)
    (negotiation : MappedRegion → Nat → Nat → Mmio α) : Prop where
  notStarted : ∀ d mapping base polls s, ¬(StatusMapped mapping base ∧ ResetSeen d s polls) →
    ∃ e s', Shared.drive (commonCfg d base) (negotiation mapping base polls) s = (.error e, s') ∧
      (s' = s ∨ ∃ reads, s' = s.afterReset d reads)
  missing : ∀ d mapping base polls s, StatusMapped mapping base → ResetSeen d s polls →
    ¬d.Offers required → ∃ e reads,
      Shared.drive (commonCfg d base) (negotiation mapping base polls) s =
        (.error e, s.afterOffer d reads)
  taken : ∀ d mapping base polls s, StatusMapped mapping base → ResetSeen d s polls →
    d.Offers required → ∃ guest reads,
      Shared.drive (commonCfg d base) (negotiation mapping base polls) s =
        (if d.answer reads &&& VIRTIO_CONFIG_S_FEATURES_OK ≠ 0
          then .ok (ret (inter d.offer supported)) else .error "device rejected FEATURES_OK",
          s.afterFeaturesOk d (inter d.offer supported) guest (reads + 1)) ∧
      [guest 0, guest 1, guest 2] = inter d.offer supported
  subset : ∀ (d : Device) bit, featureIsSet (inter d.offer supported) bit = true →
    featureIsSet d.offer bit = true ∧ bit ∈ supported
  contains : ∀ d : Device, d.Offers required →
    ∀ bit ∈ required, featureIsSet (inter d.offer supported) bit = true

/-- One negotiation for each way to take an offer. -/
theorem negotiate_negotiates {take : List UInt32 → Except String (List UInt32)}
    {required supported : List Nat} (h : Takes take required supported) :
    Negotiates required supported id fun mapping base polls => negotiate mapping base take polls where
  notStarted d mapping base polls s hnot := by
    by_cases hmapped : StatusMapped mapping base
    · have hunseen : ¬ResetSeen d s polls := fun hseen => hnot ⟨hmapped, hseen⟩
      obtain ⟨e, reads, hreset⟩ := drive_resetDevice_unseen hmapped hunseen
      exact ⟨e, _, Shared.drive_bind_error hreset, .inr ⟨reads, rfl⟩⟩
    · obtain ⟨e, hreset⟩ := drive_resetDevice_unmapped (d := d) (s := s) hmapped polls
      exact ⟨e, s, Shared.drive_bind_error hreset, .inl rfl⟩
  missing d mapping base polls s hmapped hseen hnot := by
    obtain ⟨reads, hbefore⟩ := drive_negotiate take hmapped hseen
    obtain ⟨e, he⟩ := h.missing d.offer hnot
    refine ⟨e, reads, ?_⟩
    rw [hbefore, he]
    rfl
  taken d mapping base polls s hmapped hseen hoffers := by
    obtain ⟨reads, hbefore⟩ := drive_negotiate take hmapped hseen
    have hlen : (inter d.offer supported).length = kFeatureWords := by
      simp [inter, Device.offer, kFeatureWords]
    obtain ⟨guest, hrest, hguest⟩ := drive_featuresOk hmapped hlen reads
    refine ⟨guest, reads, ?_, hguest⟩
    rw [hbefore, h.offered d.offer rfl hoffers]
    exact hrest
  subset d bit hbit := featureIsSet_inter.1 hbit
  contains d hoffers bit hbit := featureIsSet_inter.2 ⟨hoffers bit hbit, h.subset bit hbit⟩

theorem Negotiates.map {α β : Type} {required supported : List Nat} {ret : List UInt32 → α}
    {negotiation : MappedRegion → Nat → Nat → Mmio α} (h : Negotiates required supported ret negotiation)
    (f : α → β) : Negotiates required supported (fun words => f (ret words))
      fun mapping base polls => f <$> negotiation mapping base polls where
  notStarted d mapping base polls s hnot := by
    obtain ⟨e, s', hdrive, hs'⟩ := h.notStarted d mapping base polls s hnot
    exact ⟨e, s', Shared.drive_bind_error hdrive, hs'⟩
  missing d mapping base polls s hmapped hseen hnot := by
    obtain ⟨e, reads, hdrive⟩ := h.missing d mapping base polls s hmapped hseen hnot
    exact ⟨e, reads, Shared.drive_bind_error hdrive⟩
  taken d mapping base polls s hmapped hseen hoffers := by
    obtain ⟨guest, reads, hdrive, hguest⟩ := h.taken d mapping base polls s hmapped hseen hoffers
    refine ⟨guest, reads, ?_, hguest⟩
    by_cases hkept : d.answer reads &&& VIRTIO_CONFIG_S_FEATURES_OK ≠ 0
    · rw [if_pos hkept] at hdrive ⊢
      exact Shared.drive_map_ok hdrive
    · rw [if_neg hkept] at hdrive ⊢
      exact Shared.drive_bind_error hdrive
  subset := h.subset
  contains := h.contains

/-- **The four negotiations.** -/
theorem negotiations_correct :
    Negotiates [VIRTIO_F_VERSION_1]
      [VIRTIO_F_VERSION_1, VIRTIO_F_ACCESS_PLATFORM, VIRTIO_NET_F_MAC, VIRTIO_NET_F_STATUS]
      id negotiateMinimalFeatures ∧
    Negotiates [VIRTIO_F_VERSION_1] [VIRTIO_F_VERSION_1, VIRTIO_F_ACCESS_PLATFORM]
      (fun _ => ()) negotiateMinimalTransportFeatures ∧
    Negotiates [VIRTIO_NET_F_CTRL_VQ, VIRTIO_NET_F_CTRL_RX, VIRTIO_F_VERSION_1]
      [VIRTIO_F_VERSION_1, VIRTIO_F_ACCESS_PLATFORM, VIRTIO_NET_F_MAC, VIRTIO_NET_F_STATUS,
        VIRTIO_NET_F_CTRL_VQ, VIRTIO_NET_F_CTRL_RX]
      id negotiateCtrlRxFeatures ∧
    Negotiates [VIRTIO_NET_F_CTRL_VQ, VIRTIO_NET_F_CTRL_MAC_ADDR, VIRTIO_F_VERSION_1]
      [VIRTIO_F_VERSION_1, VIRTIO_F_ACCESS_PLATFORM, VIRTIO_NET_F_MAC, VIRTIO_NET_F_STATUS,
        VIRTIO_NET_F_CTRL_VQ, VIRTIO_NET_F_CTRL_MAC_ADDR]
      id negotiateCtrlMacAddrFeatures :=
  ⟨negotiate_negotiates minimalGuestFeatures_takes,
    (negotiate_negotiates minimalTransportFeatures_takes).map fun _ => (),
    negotiate_negotiates (ctrlGuestFeatures_takes _ _),
    negotiate_negotiates (ctrlGuestFeatures_takes _ _)⟩

/-- A modern device with a control queue for RX modes and with bits that the driver does not know.
Its status register still shows DRIVER_OK when it is read for the first time after the reset. -/
def rxModeDevice : Device where
  words i := if i = 0 then 0x60023 else if i = 1 then 0x7 else 0
  answer reads := [0xf, 0, 0, 1, 3, 0xb].getD reads 0xb
  resetSelect := (0, 0)
  other r := List.replicate r.size 0

/-- Before the first negotiation; the selectors are left over. -/
def leftOver : Regs := ⟨7, 7, fun _ => 0, 0, []⟩

/-- The negotiation for RX modes takes bits 5, 17, 18, 32 and 33, and that for a MAC address stops at
the offer. -/
theorem negotiations_correct_rxMode :
    let rxMode := Shared.drive (commonCfg rxModeDevice 0) (negotiateCtrlRxFeatures ⟨64⟩ 0 2) leftOver
    let macAddr :=
      Shared.drive (commonCfg rxModeDevice 0) (negotiateCtrlMacAddrFeatures ⟨64⟩ 0 2) leftOver
    let offer := [.status 0, .status 1, .status 3, .dfSelect 0, .dfSelect 1, .dfSelect 2, .dfSelect 0]
    rxMode.1 = .ok [0x60020, 3, 0] ∧
      rxMode.2.writes = offer ++ [.gfSelect 0, .gf 0x60020, .gfSelect 1, .gf 3, .gfSelect 2, .gf 0,
        .gfSelect 0, .status 0xb] ∧
      (∃ e, macAddr.1 = .error e) ∧ macAddr.2.writes = offer := by
  intro rxMode macAddr offer
  have hmapped : StatusMapped ⟨64⟩ 0 := by
    unfold StatusMapped
    decide
  have hseen : ResetSeen rxModeDevice leftOver 2 := ⟨1, by decide, rfl⟩
  have hoffers : rxModeDevice.Offers [VIRTIO_NET_F_CTRL_VQ, VIRTIO_NET_F_CTRL_RX,
      VIRTIO_F_VERSION_1] := by
    unfold Device.Offers
    decide
  have hmissing : ¬rxModeDevice.Offers [VIRTIO_NET_F_CTRL_VQ, VIRTIO_NET_F_CTRL_MAC_ADDR,
      VIRTIO_F_VERSION_1] := by
    unfold Device.Offers
    decide
  have hresult : (Shared.drive (commonCfg rxModeDevice 0) (negotiateCtrlRxFeatures ⟨64⟩ 0 2)
      leftOver).1 = .ok [0x60020, 3, 0] := by rfl
  obtain ⟨-, -, hrx, hmac⟩ := negotiations_correct
  obtain ⟨guest, reads, hdrive, -⟩ := hrx.taken rxModeDevice ⟨64⟩ 0 2 leftOver hmapped hseen hoffers
  obtain ⟨e, reads', hdrive'⟩ := hmac.missing rxModeDevice ⟨64⟩ 0 2 leftOver hmapped hseen hmissing
  have hwrites : rxMode.2 = _ := congrArg Prod.snd hdrive
  have hwrites' : macAddr.2 = _ := congrArg Prod.snd hdrive'
  refine ⟨hresult, ?_, ⟨e, congrArg Prod.fst hdrive'⟩, ?_⟩
  · rw [hwrites]
    rfl
  · rw [hwrites']
    rfl

end AdvCpp.Virtio.Features
