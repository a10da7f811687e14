import AdvCpp.Lib.Chain
import Mathlib.Data.UInt
import Mathlib.Tactic.Common

/-!
# The configuration space as a file

`02_config_space.cpp` reads the configuration space of a device from sysfs, however much of it there
is, and prints the header and the capabilities.

* `decodeMsix`, `walkCaps`, `dumpDevice` — translated, with the indices that they use.
* `walkCaps_value` — the loop follows the chain of the masked pointers.
* `walkCaps_ends_iff` — when the loop ends.
* `configDump_inBounds_iff` — when no index is outside the image.
-/

namespace AdvCpp.Vfio.ConfigDump

open AdvCpp.Lib

/-! ## Images -/

/-- What `read_config` returns, and what the memory behind it holds. -/
structure Image where
  bytes : List UInt8
  behind : Nat → UInt8

def Image.size (cfg : Image) : Nat := cfg.bytes.length

def Image.byte (cfg : Image) (off : Nat) : UInt8 := cfg.bytes.getD off (cfg.behind off)

/-- A value, and the indices that were used for it. -/
structure Indexed (α : Type) where
  value : α
  indices : List Nat

namespace Indexed

variable {α β : Type}

instance : Monad Indexed where
  pure a := ⟨a, []⟩
  bind x f := ⟨(f x.value).value, x.indices ++ (f x.value).indices⟩

@[simp] theorem pure_value (a : α) : (pure a : Indexed α).value = a := rfl

@[simp] theorem pure_indices (a : α) : (pure a : Indexed α).indices = [] := rfl

@[simp] theorem bind_value (x : Indexed α) (f : α → Indexed β) :
    (x >>= f).value = (f x.value).value := rfl

@[simp] theorem bind_indices (x : Indexed α) (f : α → Indexed β) :
    (x >>= f).indices = x.indices ++ (f x.value).indices := rfl

/-- No index is `size` or more. -/
def InBounds (size : Nat) (x : Indexed α) : Prop := ∀ off ∈ x.indices, off < size

end Indexed

/-! ## The source -/

/-- `cfg[off]` -/
def index (cfg : Image) (off : Nat) : Indexed UInt8 := ⟨cfg.byte off, [off]⟩

def read16 (cfg : Image) (off : Nat) : Indexed UInt16 := do
  let b0 ← index cfg off
  let b1 ← index cfg (off + 1)
  return b0.toUInt16 ||| b1.toUInt16 <<< 8

def read32 (cfg : Image) (off : Nat) : Indexed UInt32 := do
  let b0 ← index cfg off
  let b1 ← index cfg (off + 1)
  let b2 ← index cfg (off + 2)
  let b3 ← index cfg (off + 3)
  return b0.toUInt32 ||| b1.toUInt32 <<< 8 ||| b2.toUInt32 <<< 16 ||| b3.toUInt32 <<< 24

def capNames : List (UInt8 × String) :=
  [(0x01, "Power Management"), (0x03, "VPD"), (0x05, "MSI"), (0x07, "PCI-X"),
    (0x09, "Vendor Specific"), (0x0d, "Subsystem ID"), (0x10, "PCI Express"), (0x11, "MSI-X"),
    (0x12, "SATA Data/Idx"), (0x13, "Advanced Features")]

def capName (id : UInt8) : String := (capNames.lookup id).getD "Unknown"

/-- What `decode_msix` prints. -/
structure Msix where
  tableSize : Nat
  enabled : Bool
  masked : Bool
  tblBir : UInt32
  tblOff : UInt32
  pbaBir : UInt32
  pbaOff : UInt32
  deriving DecidableEq

/-- `off + 2` is an `int`, so that it does not wrap. -/
def decodeMsix (cfg : Image) (off : UInt8) : Indexed Msix := do
  let ctrl ← read16 cfg (off.toNat + 2)
  let tbl ← read32 cfg (off.toNat + 4)
  let pba ← read32 cfg (off.toNat + 8)
  return {
    tableSize := (ctrl &&& 0x7ff).toNat + 1
    enabled := ctrl &&& 0x8000 ≠ 0
    masked := ctrl &&& 0x4000 ≠ 0
    tblBir := tbl &&& 0x7
    tblOff := tbl &&& ~~~0x7
    pbaBir := pba &&& 0x7
    pbaOff := pba &&& ~~~0x7 }

/-- A line for a capability, with the lines of `decode_msix`. -/
structure CapLine where
  ptr : UInt8
  id : UInt8
  name : String
  msix : Option Msix
  deriving DecidableEq

/-- `if (id == 0x11) decode_msix(cfg, ptr);` -/
def decodeCap (cfg : Image) (id ptr : UInt8) : Indexed (Option Msix) :=
  if id = 0x11 then do
    let msix ← decodeMsix cfg ptr
    return some msix
  else return none

/-- The body of the loop: what is printed, and `ptr` for the next round unless it breaks. -/
def walkBody (cfg : Image) (ptr : UInt8) : Indexed (CapLine × Option UInt8) := do
  let id ← index cfg ptr.toNat
  let next ← index cfg (ptr.toNat + 1)
  let msix ← decodeCap cfg id ptr
  return (⟨ptr, id, capName id, msix⟩,
    if next = 0 ∨ next = ptr then none else some (next &&& 0xfc))

/-- The condition of the loop. -/
def Continues (cfg : Image) (ptr : UInt8) : Prop := ptr ≠ 0 ∧ ptr.toNat + 2 ≤ cfg.size

instance decidableContinues (cfg : Image) (ptr : UInt8) : Decidable (Continues cfg ptr) := by
  unfold Continues
  exact inferInstance

/-- What is printed in the first `n` rounds, and whether the loop has ended by then. -/
def walkLoop (cfg : Image) : Nat → UInt8 → Indexed (List CapLine × Bool)
  | 0, ptr => return ([], ¬Continues cfg ptr)
  | n + 1, ptr =>
    if Continues cfg ptr then do
      let (line, next) ← walkBody cfg ptr
      match next with
      | none => return ([line], true)
      | some ptr => do
        let (lines, ended) ← walkLoop cfg n ptr
        return (line :: lines, ended)
    else return ([], true)

/-- `walk_caps` with `n` rounds of the loop; `none` is "(no capability list)". -/
def walkCaps (cfg : Image) (n : Nat) : Indexed (Option (List CapLine) × Bool) := do
  let status ← read16 cfg 0x06
  if status &&& ((1 : UInt16) <<< 4) = 0 then return (none, true)
  else do
    let pointer ← index cfg 0x34
    let (lines, ended) ← walkLoop cfg n (pointer &&& 0xfc)
    return (some lines, ended)

structure Header where
  vendor : UInt16
  device : UInt16
  command : UInt16
  status : UInt16
  subv : UInt16
  subd : UInt16
  irqLine : UInt8
  irqPin : UInt8
  deriving DecidableEq

def dumpDevice (cfg : Image) (n : Nat) : Indexed (Header × Option (List CapLine) × Bool) := do
  let vendor ← read16 cfg 0x00
  let device ← read16 cfg 0x02
  let command ← read16 cfg 0x04
  let status ← read16 cfg 0x06
  let subv ← read16 cfg 0x2c
  let subd ← read16 cfg 0x2e
  let irqLine ← index cfg 0x3c
  let irqPin ← index cfg 0x3d
  let caps ← walkCaps cfg n
  return (⟨vendor, device, command, status, subv, subd, irqLine, irqPin⟩, caps)

/-! ## The chain -/

/-- The status register says that there is a capability list. -/
def Image.HasCaps (cfg : Image) : Prop := (read16 cfg 0x06).value &&& ((1 : UInt16) <<< 4) ≠ 0

instance decidableHasCaps (cfg : Image) : Decidable cfg.HasCaps := by
  unfold Image.HasCaps
  exact inferInstance

/-- The capability at a pointer, if the loop goes on with it. -/
def node (cfg : Image) (ptr : UInt8) : Option UInt8 := if Continues cfg ptr then some ptr else none

/-- The capability behind the one at `ptr`: the loop stops at zero and at the capability's own
offset, with the low bits as they are, and goes on without them. -/
def capNext (cfg : Image) (ptr : UInt8) : Option UInt8 :=
  let next := cfg.byte (ptr.toNat + 1)
  if next = 0 ∨ next = ptr then none else node cfg (next &&& 0xfc)

def capChainFrom (cfg : Image) (ptr : UInt8) : Chain UInt8 := ⟨node cfg ptr, capNext cfg⟩

/-- The capabilities of the image. -/
def capChain (cfg : Image) : Chain UInt8 :=
  if cfg.HasCaps then capChainFrom cfg (cfg.byte 0x34 &&& 0xfc) else ⟨none, capNext cfg⟩

/-- An MSI-X capability on the chain is inside the image. -/
def MsixInside (cfg : Image) : Prop :=
  ∀ i ptr, (capChain cfg).nth i = some ptr → cfg.byte ptr.toNat = 0x11 → ptr.toNat + 12 ≤ cfg.size

instance finiteUInt8 : Finite UInt8 :=
  Finite.of_injective UInt8.toFin fun _ _ h => UInt8.toFin_inj.1 h

section Loop

variable {cfg : Image} {ptr : UInt8}

theorem node_eq_some {ptr' : UInt8} : node cfg ptr = some ptr' ↔ Continues cfg ptr ∧ ptr = ptr' := by
  unfold node
  split
  · rename_i h
    simp [h]
  · rename_i h
    simp [h]

/-- **One round** follows the pointer. -/
theorem walkBody_next (cfg : Image) (ptr : UInt8) :
    (walkBody cfg ptr).value.2.bind (node cfg) = capNext cfg ptr := by
  show (if cfg.byte (ptr.toNat + 1) = 0 ∨ cfg.byte (ptr.toNat + 1) = ptr then none
    else some (cfg.byte (ptr.toNat + 1) &&& 0xfc)).bind (node cfg) = capNext cfg ptr
  simp only [capNext]
  by_cases h : cfg.byte (ptr.toNat + 1) = 0 ∨ cfg.byte (ptr.toNat + 1) = ptr
  · rw [if_pos h, if_pos h]
    rfl
  · rw [if_neg h, if_neg h]
    rfl

theorem tail_of_continues (h : Continues cfg ptr) :
    (capChainFrom cfg ptr).tail = ⟨capNext cfg ptr, capNext cfg⟩ := by
  have hstart : (capChainFrom cfg ptr).start = some ptr := if_pos h
  rw [Chain.tail, hstart]
  rfl

theorem walkLoop_break {n : Nat} (h : Continues cfg ptr) (hbody : (walkBody cfg ptr).value.2 = none) :
    walkLoop cfg (n + 1) ptr =
      ⟨([(walkBody cfg ptr).value.1], true), (walkBody cfg ptr).indices⟩ := by
  rw [walkLoop, if_pos h]
  show Indexed.mk _ _ = _
  simp only [hbody, Indexed.pure_value, Indexed.pure_indices, List.append_nil]

theorem walkLoop_next {n : Nat} {ptr' : UInt8} (h : Continues cfg ptr)
    (hbody : (walkBody cfg ptr).value.2 = some ptr') :
    walkLoop cfg (n + 1) ptr =
      ⟨((walkBody cfg ptr).value.1 :: (walkLoop cfg n ptr').value.1, (walkLoop cfg n ptr').value.2),
        (walkBody cfg ptr).indices ++ (walkLoop cfg n ptr').indices⟩ := by
  rw [walkLoop, if_pos h]
  show Indexed.mk _ _ = _
  simp only [hbody, Indexed.bind_value, Indexed.bind_indices, Indexed.pure_value, Indexed.pure_indices, List.append_nil]

/-- **What the loop does in `n` rounds**: the lines of the first `n` capabilities, their indices, and
whether there are no more. -/
theorem walkLoop_spec (cfg : Image) (n : Nat) (ptr : UInt8) :
    walkLoop cfg n ptr =
      ⟨(((capChainFrom cfg ptr).nodes n).map fun p => (walkBody cfg p).value.1,
          ((capChainFrom cfg ptr).nth n).isNone),
        ((capChainFrom cfg ptr).nodes n).flatMap fun p => (walkBody cfg p).indices⟩ := by
  induction n generalizing ptr with
  | zero =>
    have hended : decide (¬Continues cfg ptr) = (node cfg ptr).isNone := by
      by_cases h : Continues cfg ptr
      · simp [node, h]
      · simp [node, h]
    show Indexed.mk ([], decide (¬Continues cfg ptr)) [] = ⟨([], (node cfg ptr).isNone), []⟩
    rw [hended]
  | succ n ih =>
    rw [Chain.nodes_succ, Chain.nth_succ]
    by_cases h : Continues cfg ptr
    · have hstart : (capChainFrom cfg ptr).start = some ptr := if_pos h
      rw [tail_of_continues h, hstart]
      have hnext := walkBody_next cfg ptr
      cases hbody : (walkBody cfg ptr).value.2 with
      | none =>
        rw [hbody] at hnext
        rw [walkLoop_break h hbody, Chain.nodes_of_start hnext.symm, Chain.nth_of_start hnext.symm]
        simp
      | some ptr' =>
        rw [hbody] at hnext
        have hchain : (⟨capNext cfg ptr, capNext cfg⟩ : Chain UInt8) = capChainFrom cfg ptr' := by
          rw [← hnext]
          rfl
        rw [walkLoop_next h hbody, ih, hchain]
        rfl
    · have hstart : (capChainFrom cfg ptr).start = none := if_neg h
      have htail : (capChainFrom cfg ptr).tail.start = none := by
        rw [Chain.tail, hstart]
        rfl
      rw [walkLoop, if_neg h, Chain.nodes_of_start htail, Chain.nth_of_start htail, hstart]
      rfl

end Loop

section Walk

variable {cfg : Image} {n : Nat}

theorem walkCaps_of_hasCaps (h : cfg.HasCaps) (n : Nat) :
    walkCaps cfg n =
      ⟨(some (((capChain cfg).nodes n).map fun p => (walkBody cfg p).value.1),
          ((capChain cfg).nth n).isNone),
        [0x06, 0x07, 0x34] ++ ((capChain cfg).nodes n).flatMap fun p => (walkBody cfg p).indices⟩ := by
  have hchain : capChain cfg = capChainFrom cfg (cfg.byte 0x34 &&& 0xfc) := if_pos h
  rw [hchain, walkCaps]
  show Indexed.mk _ _ = _
  simp only [if_neg h, Indexed.bind_value, Indexed.bind_indices, Indexed.pure_value,
    Indexed.pure_indices, walkLoop_spec]
  simp [index, read16]

theorem walkCaps_of_noCaps (h : ¬cfg.HasCaps) (n : Nat) :
    walkCaps cfg n = ⟨(none, true), [0x06, 0x07]⟩ := by
  rw [walkCaps]
  show Indexed.mk _ _ = _
  simp only [if_pos (not_not.1 h), Indexed.pure_value, Indexed.pure_indices]
  rfl

theorem capChain_start_of_noCaps (h : ¬cfg.HasCaps) : (capChain cfg).start = none := by
  rw [capChain, if_neg h]

/-- The loop has ended when the chain has. -/
theorem walkCaps_value (cfg : Image) (n : Nat) :
    (walkCaps cfg n).value.2 = ((capChain cfg).nth n).isNone := by
  by_cases h : cfg.HasCaps
  · rw [walkCaps_of_hasCaps h]
  · rw [walkCaps_of_noCaps h, Chain.nth_of_start (capChain_start_of_noCaps h)]
    rfl

/-- **When the loop ends**: exactly if no offset comes twice on the chain. -/
theorem walkCaps_ends_iff (cfg : Image) :
    (∃ n, (walkCaps cfg n).value.2 = true) ↔
      ∀ i j, i < j → (capChain cfg).nth i ≠ none →
        (capChain cfg).nth i ≠ (capChain cfg).nth j := by
  simp only [walkCaps_value, Option.isNone_iff_eq_none]
  exact Chain.ends_iff

/-- Two capabilities that point to each other. -/
def cyclicImage : Image where
  bytes := ((((List.replicate 256 0).set 0x06 0x10).set 0x34 0x40).set 0x41 0x50).set 0x51 0x40
  behind := fun _ => 0

theorem walkCaps_cycles : ¬∀ cfg, ∃ n, (walkCaps cfg n).value.2 = true := by
  intro h
  obtain ⟨n, hn⟩ := h cyclicImage
  have hfirst : (capChain cyclicImage).nth 0 = some 0x40 := by decide +kernel
  have hthird : (capChain cyclicImage).nth 2 = some 0x40 := by decide +kernel
  rw [walkCaps_value, Option.isNone_iff_eq_none] at hn
  exact Chain.nth_ne_none_of_repeat (by decide) (hfirst.trans hthird.symm) (by simp [hfirst]) n hn

end Walk

/-! ## Indices -/

section Bounds

variable {cfg : Image} {ptr : UInt8} {size n : Nat}

theorem decodeMsix_inBounds (cfg : Image) (off : UInt8) :
    (decodeMsix cfg off).InBounds size ↔ off.toNat + 12 ≤ size := by
  have hindices : (decodeMsix cfg off).indices = (List.range 10).map fun i => off.toNat + 2 + i := rfl
  rw [Indexed.InBounds, hindices]
  constructor
  · intro h
    have hlast := h (off.toNat + 2 + 9) (List.mem_map_of_mem (by decide))
    omega
  · intro h i hi
    obtain ⟨k, hk, rfl⟩ := List.mem_map.1 hi
    have hlt := List.mem_range.1 hk
    omega

/-- Of a capability, two bytes are used, and twelve of an MSI-X capability. -/
theorem walkBody_inBounds (h : Continues cfg ptr) :
    (walkBody cfg ptr).InBounds cfg.size ↔
      (cfg.byte ptr.toNat = 0x11 → ptr.toNat + 12 ≤ cfg.size) := by
  have hindices : (walkBody cfg ptr).indices =
      [ptr.toNat, ptr.toNat + 1] ++ ((decodeCap cfg (cfg.byte ptr.toNat) ptr).indices ++ []) := rfl
  have hle := h.2
  rw [Indexed.InBounds, hindices, decodeCap]
  by_cases hid : cfg.byte ptr.toNat = 0x11
  · rw [if_pos hid]
    simp only [hid, forall_const, ← decodeMsix_inBounds cfg, Indexed.InBounds,
      Indexed.bind_indices, Indexed.pure_indices, List.append_nil, List.mem_append]
    constructor
    · exact fun hall off hoff => hall off (Or.inr hoff)
    · rintro hall off (hoff | hoff)
      · simp only [List.mem_cons, List.not_mem_nil, or_false] at hoff
        omega
      · exact hall off hoff
  · rw [if_neg hid]
    refine iff_of_true (fun off hoff => ?_) fun h => absurd h hid
    simp only [Indexed.pure_indices, List.append_nil, List.mem_cons, List.not_mem_nil, or_false]
      at hoff
    omega

theorem capChain_next (cfg : Image) : (capChain cfg).next = capNext cfg := by
  unfold capChain
  split
  · rfl
  · rfl

theorem continues_of_nth {i : Nat} (h : (capChain cfg).nth i = some ptr) : Continues cfg ptr := by
  have hnode : ∀ {p : UInt8}, node cfg p = some ptr → Continues cfg ptr := by
    intro p hp
    obtain ⟨hcontinues, rfl⟩ := node_eq_some.1 hp
    exact hcontinues
  cases i with
  | zero =>
    by_cases hcaps : cfg.HasCaps
    · rw [capChain, if_pos hcaps] at h
      exact hnode h
    · have hnone := capChain_start_of_noCaps hcaps
      rw [Chain.nth, hnone] at h
      cases h
  | succ i =>
    rw [Chain.nth, capChain_next] at h
    obtain ⟨prev, -, hnext⟩ := Option.bind_eq_some_iff.1 h
    simp only [capNext] at hnext
    split at hnext
    · cases hnext
    · exact hnode hnext

/-- The rounds of the loop. -/
theorem rounds_inBounds :
    (∀ n, ∀ off ∈ ((capChain cfg).nodes n).flatMap fun p => (walkBody cfg p).indices,
        off < cfg.size) ↔ MsixInside cfg := by
  constructor
  · intro h i ptr hi
    have hmem : ptr ∈ (capChain cfg).nodes (i + 1) := Chain.mem_nodes.2 ⟨i, Nat.lt_succ_self i, hi⟩
    exact (walkBody_inBounds (continues_of_nth hi)).1 fun off hoff =>
      h (i + 1) off (List.mem_flatMap.2 ⟨ptr, hmem, hoff⟩)
  · intro h n off hoff
    obtain ⟨ptr, hmem, hoff⟩ := List.mem_flatMap.1 hoff
    obtain ⟨i, -, hi⟩ := Chain.mem_nodes.1 hmem
    exact (walkBody_inBounds (continues_of_nth hi)).2 (h i ptr hi) off hoff

theorem walkCaps_inBounds :
    (∀ n, (walkCaps cfg n).InBounds cfg.size) ↔
      0x08 ≤ cfg.size ∧ (cfg.HasCaps → 0x35 ≤ cfg.size) ∧ MsixInside cfg := by
  by_cases hcaps : cfg.HasCaps
  · have hfixed : (∀ off ∈ [0x06, 0x07, 0x34], off < cfg.size) ↔ 0x08 ≤ cfg.size ∧ 0x35 ≤ cfg.size := by
      simp only [List.forall_mem_cons, List.not_mem_nil, false_imp_iff, implies_true, and_true]
      omega
    simp only [Indexed.InBounds, walkCaps_of_hasCaps hcaps, List.forall_mem_append, forall_and,
      rounds_inBounds, forall_const, hcaps, hfixed, and_assoc]
  · have hinside : MsixInside cfg := by
      intro i ptr hi
      rw [Chain.nth_of_start (capChain_start_of_noCaps hcaps)] at hi
      cases hi
    simp only [Indexed.InBounds, walkCaps_of_noCaps hcaps, forall_const, List.forall_mem_cons,
      List.not_mem_nil, false_imp_iff, hcaps, hinside, and_true]
    omega

theorem dumpDevice_inBounds :
    (∀ n, (dumpDevice cfg n).InBounds cfg.size) ↔ 0x3e ≤ cfg.size ∧ MsixInside cfg := by
  have hindices : ∀ n, (dumpDevice cfg n).indices =
      [0, 1, 2, 3, 4, 5, 6, 7, 0x2c, 0x2d, 0x2e, 0x2f, 0x3c, 0x3d] ++
        ((walkCaps cfg n).indices ++ []) := fun _ => rfl
  have hheader : (∀ off ∈ [0, 1, 2, 3, 4, 5, 6, 7, 0x2c, 0x2d, 0x2e, 0x2f, 0x3c, 0x3d],
      off < cfg.size) ↔ 0x3e ≤ cfg.size := by
    simp only [List.forall_mem_cons, List.not_mem_nil, false_imp_iff, implies_true, and_true]
    omega
  have hcaps : (∀ n, ∀ off ∈ (walkCaps cfg n).indices, off < cfg.size) ↔ _ := walkCaps_inBounds
  simp only [Indexed.InBounds, hindices, List.append_nil, List.forall_mem_append, forall_and, hcaps,
    forall_const, hheader]
  -- the header is longer than what the loop needs of it
  refine and_congr_right fun hlen => ⟨fun h => h.2.2, fun h => ⟨?_, fun _ => ?_, h⟩⟩
  · omega
  · omega

/-- **When no index is outside the image**, whatever it is and however long the loop runs. -/
theorem configDump_inBounds_iff (cfg : Image) :
    (∀ off, (decodeMsix cfg off).InBounds cfg.size ↔ off.toNat + 12 ≤ cfg.size) ∧
      ((∀ n, (walkCaps cfg n).InBounds cfg.size) ↔
        0x08 ≤ cfg.size ∧ (cfg.HasCaps → 0x35 ≤ cfg.size) ∧ MsixInside cfg) ∧
      ((∀ n, (dumpDevice cfg n).InBounds cfg.size) ↔ 0x3e ≤ cfg.size ∧ MsixInside cfg) :=
  ⟨decodeMsix_inBounds cfg, walkCaps_inBounds, dumpDevice_inBounds⟩

/-- An MSI-X capability eight bytes before the end. -/
def msixImage : Image where
  bytes := (((List.replicate 256 0).set 0x06 0x10).set 0x34 0xf8).set 0xf8 0x11
  behind := fun _ => 0

theorem configDump_outside :
    ¬∀ cfg : Image, (∀ n, (dumpDevice cfg n).InBounds cfg.size) ∧
      (∀ n, (walkCaps cfg n).InBounds cfg.size) ∧
      ∀ off, off.toNat + 2 ≤ cfg.size → (decodeMsix cfg off).InBounds cfg.size := by
  intro h
  have hinside := (dumpDevice_inBounds.1 (h msixImage).1).2
  have hfirst : (capChain msixImage).nth 0 = some 0xf8 := by decide +kernel
  have hlt := hinside 0 0xf8 hfirst (by decide +kernel)
  revert hlt
  decide +kernel

end Bounds

end AdvCpp.Vfio.ConfigDump
