import AdvCpp.Lib.Guarded
import AdvCpp.Vfio.Mapping
import AdvCpp.Virtio.ControlQueue

/-!
# Setting up the queues

The queue registers of COMMON_CFG are one window for all queues: `queue_select` says whose registers
it shows.  `virtio_net_vfio.hpp` and the samples 21 to 30 select one queue after another, choose its
size, tell the device where its rings are and enable it; a `QueueSelectionGuard` writes the original
selection back, however the function is left.

* `inspectAndChooseQueue`, `programAndEnableQueue` — one queue.
* `setupQueues` — what the samples do with the registers, for their two or three queues.
* `setupQueues_outcome` — on every way out: which queues have been enabled, and with what.
-/

namespace AdvCpp.Virtio.QueueSetup

open AdvCpp.Lib AdvCpp.Vfio
open Guarded (Triple)

/-! ## The source -/

def VIRTIO_PCI_COMMON_NUMQ : Nat := 18

structure QueueSelectionGuard where
  originalSelect : UInt16
  changed : Bool
  deriving DecidableEq

/-- A queue that a sample uses; with interrupts it also has an MSI-X vector. -/
structure Queue where
  index : UInt16
  label : String
  vector : Option UInt16

def chooseQueueSize (deviceQueueSize : UInt16) (requested : Option UInt16) :
    Except String UInt16 := do
  ensure (deviceQueueSize ≠ 0) "selected queue is unavailable"
  let chosen := requested.getD deviceQueueSize
  ensure (¬(chosen = 0 ∨ deviceQueueSize < chosen))
    ("requested queue-size must be in range 1.." ++ toString deviceQueueSize.toNat)
  ensure (isPowerOfTwo chosen.toNat) "requested queue-size must be a power of two"
  return chosen

/-- A program that has the guard. -/
abbrev Selecting := Guarded QueueSelectionGuard String

section Source

variable (mapping : MappedRegion) (mappingDelta : Nat)

def select (queue : UInt16) : Selecting Unit := do
  Guarded.lift (mapping.write16 (mappingDelta + VIRTIO_PCI_COMMON_Q_SELECT) queue)
  Guarded.change fun g => { g with changed := true }

def restore : Selecting Unit := do
  let g ← Guarded.get
  if g.changed then
    Guarded.lift (mapping.write16 (mappingDelta + VIRTIO_PCI_COMMON_Q_SELECT) g.originalSelect)
    Guarded.change fun g => { g with changed := false }
  else
    return ()

/-- The destructor. -/
def restoreNoexcept (g : QueueSelectionGuard) : Mmio Unit :=
  (fun _ => ()) <$> restore mapping mappingDelta g

def alreadyEnabled (queue : Queue) : String :=
  queue.label ++ " is already enabled; reset the device before using this tutorial sample"

def inspectAndChooseQueue (requested : Option UInt16) (queue : Queue) : Selecting UInt16 := do
  select mapping mappingDelta queue.index
  let view ← Guarded.lift (readQueueView mapping mappingDelta)
  Guarded.lift (Shared.ensure (view.enable = 0) (alreadyEnabled queue))
  Guarded.lift (Shared.ofExcept (chooseQueueSize view.size requested))

/-- The part of `program_and_enable_queue_with_msix` that `program_and_enable_queue` has not. -/
def setQueueVector (queue : Queue) (vector : UInt16) : Mmio Unit := do
  mapping.write16 (mappingDelta + VIRTIO_PCI_COMMON_Q_MSIX) vector
  let afterVector ← readQueueView mapping mappingDelta
  Shared.ensure (afterVector.msixVector = vector)
    (queue.label ++ " queue_msix_vector did not read back as the requested vector")

def programAndEnableQueue (queue : Queue) (layout : VringLayout) (queueIova : UInt64) :
    Selecting QueueView := do
  select mapping mappingDelta queue.index
  let before ← Guarded.lift (readQueueView mapping mappingDelta)
  Guarded.lift (Shared.ensure (before.enable = 0) (alreadyEnabled queue))
  Guarded.lift (match queue.vector with
    | none => pure ()
    | some vector => setQueueVector mapping mappingDelta queue vector)
  Guarded.lift (programQueueAddresses mapping mappingDelta layout queueIova)
  let _ ← Guarded.lift (readQueueView mapping mappingDelta)
  Guarded.lift (enableQueue mapping mappingDelta)
  let afterEnable ← Guarded.lift (readQueueView mapping mappingDelta)
  Guarded.lift (Shared.ensure (afterEnable.enable = 1)
    (queue.label ++ " queue_enable did not read back as 1"))
  return afterEnable

/-- A queue, its rings, and where they begin in the DMA buffer. -/
abbrev Placed := Queue × VringLayout × Nat

/-- What a sample does with the registers of its queues.  `layout` places their rings in a buffer,
and `mapDma` maps the buffer. -/
def setupQueues (queues : List Queue) (mustDiffer : String) (requested : Option UInt16)
    (layout : List UInt16 → Except String (List (VringLayout × Nat) × Nat))
    (mapDma : Nat → Except String Unit) (iova : UInt64) : Mmio (List QueueView) := do
  let numQueues ← mapping.read16 (mappingDelta + VIRTIO_PCI_COMMON_NUMQ)
  let originalSelect ← mapping.read16 (mappingDelta + VIRTIO_PCI_COMMON_Q_SELECT)
  Shared.ofExcept (queues.forM fun queue =>
    ensure (queue.index < numQueues) (queue.label ++ " index is outside num_queues"))
  Shared.ensure (queues.map Queue.index).Nodup mustDiffer
  Guarded.scope ⟨originalSelect, false⟩ (restoreNoexcept mapping mappingDelta) do
    let sizes ← Guarded.each (inspectAndChooseQueue mapping mappingDelta requested) queues
    let (vrings, totalSize) ← Guarded.lift (Shared.ofExcept (layout sizes))
    Guarded.lift (Shared.ofExcept (mapDma totalSize))
    let views ← Guarded.each (fun placed : Placed =>
      programAndEnableQueue mapping mappingDelta placed.1 placed.2.1
        (iova + UInt64.ofNat placed.2.2)) (queues.zip vrings)
    restore mapping mappingDelta
    return views

end Source

/-! ## The device -/

/-- The registers of one queue. -/
structure Bank where
  size : UInt16
  msixVector : UInt16
  enable : UInt16
  notifyOff : UInt16
  notifyData : UInt16
  descLo : UInt32
  descHi : UInt32
  availLo : UInt32
  availHi : UInt32
  usedLo : UInt32
  usedHi : UInt32

namespace Bank

variable (b : Bank)

def desc : UInt64 := le64FromHalves b.descLo b.descHi
def avail : UInt64 := le64FromHalves b.availLo b.availHi
def used : UInt64 := le64FromHalves b.usedLo b.usedHi

/-- What the device takes for the rings. -/
def rings : List Region :=
  [⟨b.desc.toNat, 16 * b.size.toNat⟩, ⟨b.avail.toNat, 6 + 2 * b.size.toNat⟩,
    ⟨b.used.toNat, 6 + 8 * b.size.toNat⟩]

/-- What the driver reads. -/
def view (selected : UInt16) : QueueView :=
  ⟨selected, b.size, b.msixVector, b.enable, b.notifyOff, b.notifyData, b.desc, b.avail, b.used⟩

end Bank

/-- The banks, and which queues have been enabled, each with its registers as they were then. -/
structure QueueRegs where
  numQueues : UInt16
  select : UInt16
  bank : UInt16 → Bank
  started : List (UInt16 × Bank)

namespace QueueRegs

def selected (s : QueueRegs) : Bank := s.bank s.select

def setBank (s : QueueRegs) (b : Bank) : QueueRegs :=
  { s with bank := Function.update s.bank s.select b }

end QueueRegs

inductive QueueReg where
  | numQueues
  | select
  | size
  | msix
  | enable
  | notifyOff
  | notifyData
  | descLo
  | descHi
  | availLo
  | availHi
  | usedLo
  | usedHi

/-- A device may take another vector than the one that is written, and may refuse to enable. -/
structure Device where
  takesVector : UInt16 → UInt16 → UInt16
  takesEnable : UInt16 → UInt16 → UInt16
  other : Region → List UInt8

namespace QueueReg

def offset : QueueReg → Nat
  | numQueues => VIRTIO_PCI_COMMON_NUMQ
  | select => VIRTIO_PCI_COMMON_Q_SELECT
  | size => VIRTIO_PCI_COMMON_Q_SIZE
  | msix => VIRTIO_PCI_COMMON_Q_MSIX
  | enable => VIRTIO_PCI_COMMON_Q_ENABLE
  | notifyOff => VIRTIO_PCI_COMMON_Q_NOFF
  | notifyData => VIRTIO_PCI_COMMON_Q_NDATA
  | descLo => VIRTIO_PCI_COMMON_Q_DESCLO
  | descHi => VIRTIO_PCI_COMMON_Q_DESCHI
  | availLo => VIRTIO_PCI_COMMON_Q_AVAILLO
  | availHi => VIRTIO_PCI_COMMON_Q_AVAILHI
  | usedLo => VIRTIO_PCI_COMMON_Q_USEDLO
  | usedHi => VIRTIO_PCI_COMMON_Q_USEDHI

def decode : Nat → Option QueueReg
  | 18 => some numQueues
  | 22 => some select
  | 24 => some size
  | 26 => some msix
  | 28 => some enable
  | 30 => some notifyOff
  | 56 => some notifyData
  | 32 => some descLo
  | 36 => some descHi
  | 40 => some availLo
  | 44 => some availHi
  | 48 => some usedLo
  | 52 => some usedHi
  | _ => none

def read (s : QueueRegs) : QueueReg → Nat
  | numQueues => s.numQueues.toNat
  | select => s.select.toNat
  | size => s.selected.size.toNat
  | msix => s.selected.msixVector.toNat
  | enable => s.selected.enable.toNat
  | notifyOff => s.selected.notifyOff.toNat
  | notifyData => s.selected.notifyData.toNat
  | descLo => s.selected.descLo.toNat
  | descHi => s.selected.descHi.toNat
  | availLo => s.selected.availLo.toNat
  | availHi => s.selected.availHi.toNat
  | usedLo => s.selected.usedLo.toNat
  | usedHi => s.selected.usedHi.toNat

/-- The counts and the notification fields are read-only. -/
def write (d : Device) (s : QueueRegs) (value : Nat) : QueueReg → QueueRegs
  | select => { s with select := UInt16.ofNat value }
  | size => s.setBank { s.selected with size := UInt16.ofNat value }
  | msix => s.setBank
      { s.selected with msixVector := d.takesVector s.select (UInt16.ofNat value) }
  | enable =>
    { s.setBank { s.selected with enable := d.takesEnable s.select (UInt16.ofNat value) } with
      started := s.started ++ [(s.select, s.selected)] }
  | descLo => s.setBank { s.selected with descLo := UInt32.ofNat value }
  | descHi => s.setBank { s.selected with descHi := UInt32.ofNat value }
  | availLo => s.setBank { s.selected with availLo := UInt32.ofNat value }
  | availHi => s.setBank { s.selected with availHi := UInt32.ofNat value }
  | usedLo => s.setBank { s.selected with usedLo := UInt32.ofNat value }
  | usedHi => s.setBank { s.selected with usedHi := UInt32.ofNat value }
  | numQueues | notifyOff | notifyData => s

end QueueReg

def queueRegisters (d : Device) : RegisterFile QueueReg QueueRegs where
  offset := QueueReg.offset
  decode := QueueReg.decode
  decode_offset q := by cases q <;> rfl
  get := QueueReg.read
  set s q value := QueueReg.write d s value q
  other := d.other

/-! ## The accesses -/

section Registers

variable {d : Device} {mapping : MappedRegion} {base : Nat} {s : QueueRegs}

/-- The registers up to `queue_notify_data` are mapped. -/
def Mapped (mapping : MappedRegion) (base : Nat) : Prop := base + 58 ≤ mapping.size

theorem Mapped.register (h : Mapped mapping base) (q : QueueReg) {width : Nat}
    (hle : q.offset + width ≤ 58) : base + (queueRegisters d).offset q + width ≤ mapping.size := by
  show base + q.offset + width ≤ mapping.size
  unfold Mapped at h
  omega

theorem reads_number (q : QueueReg) {width value : Nat} (hvalue : q.read s = value)
    (hlt : value < 256 ^ width) :
    Shared.Reads ((queueRegisters d).registers base) s (mapping.read width (base + q.offset)) value
      (base + q.offset + width ≤ mapping.size) := by
  subst hvalue
  exact RegisterFile.reads_register (F := queueRegisters d) hlt

theorem reads_read16 (q : QueueReg) (value : UInt16) (hvalue : q.read s = value.toNat) :
    Shared.Reads ((queueRegisters d).registers base) s (mapping.read16 (base + q.offset)) value
      (base + q.offset + 2 ≤ mapping.size) :=
  (reads_number q hvalue value.toNat_lt).ofNat fun _ => UInt16.ofNat_toNat

theorem reads_read32 (q : QueueReg) (value : UInt32) (hvalue : q.read s = value.toNat) :
    Shared.Reads ((queueRegisters d).registers base) s (mapping.read32 (base + q.offset)) value
      (base + q.offset + 4 ≤ mapping.size) :=
  (reads_number q hvalue value.toNat_lt).ofNat fun _ => UInt32.ofNat_toNat

theorem reads_readCommonU64 (lo hi : QueueReg) (loValue hiValue : UInt32)
    (hlo : lo.read s = loValue.toNat) (hhi : hi.read s = hiValue.toNat) :
    Shared.Reads ((queueRegisters d).registers base) s
      (readCommonU64 mapping base lo.offset hi.offset) (le64FromHalves loValue hiValue)
      (base + lo.offset + 4 ≤ mapping.size ∧ base + hi.offset + 4 ≤ mapping.size) :=
  (Shared.reads_bind (reads_read32 lo loValue hlo)
    ((reads_read32 hi hiValue hhi).map fun hi => le64FromHalves loValue hi)).congr Iff.rfl

/-- **`read_queue_view`** shows the selected queue. -/
theorem reads_readQueueView (s : QueueRegs) :
    Shared.Reads ((queueRegisters d).registers base) s (readQueueView mapping base)
      (s.selected.view s.select) (Mapped mapping base) := by
  have h16 : ∀ (q : QueueReg) (value : UInt16), q.read s = value.toNat →
      Shared.Reads ((queueRegisters d).registers base) s (mapping.read16 (base + q.offset)) value
        (base + q.offset + 2 ≤ mapping.size) := reads_read16
  have h64 : ∀ (lo hi : QueueReg) (loValue hiValue : UInt32), lo.read s = loValue.toNat →
      hi.read s = hiValue.toNat → Shared.Reads ((queueRegisters d).registers base) s
        (readCommonU64 mapping base lo.offset hi.offset) (le64FromHalves loValue hiValue)
        (base + lo.offset + 4 ≤ mapping.size ∧ base + hi.offset + 4 ≤ mapping.size) :=
    reads_readCommonU64
  let b := s.selected
  have hview : Shared.Reads ((queueRegisters d).registers base) s (readQueueView mapping base)
      (b.view s.select) _ :=
    Shared.reads_bind (h16 .select s.select rfl) <| Shared.reads_bind (h16 .size b.size rfl) <|
      Shared.reads_bind (h16 .msix b.msixVector rfl) <|
      Shared.reads_bind (h16 .enable b.enable rfl) <|
      Shared.reads_bind (h16 .notifyOff b.notifyOff rfl) <|
      Shared.reads_bind (h16 .notifyData b.notifyData rfl) <|
      Shared.reads_bind (h64 .descLo .descHi b.descLo b.descHi rfl rfl) <|
      Shared.reads_bind (h64 .availLo .availHi b.availLo b.availHi rfl rfl) <|
      Shared.reads_bind (h64 .usedLo .usedHi b.usedLo b.usedHi rfl rfl) <| Shared.reads_pure _
  refine hview.congr ?_
  unfold Mapped
  simp only [QueueReg.offset, VIRTIO_PCI_COMMON_Q_SELECT, VIRTIO_PCI_COMMON_Q_SIZE,
    VIRTIO_PCI_COMMON_Q_MSIX, VIRTIO_PCI_COMMON_Q_ENABLE, VIRTIO_PCI_COMMON_Q_NOFF,
    VIRTIO_PCI_COMMON_Q_NDATA, VIRTIO_PCI_COMMON_Q_DESCLO, VIRTIO_PCI_COMMON_Q_DESCHI,
    VIRTIO_PCI_COMMON_Q_AVAILLO, VIRTIO_PCI_COMMON_Q_AVAILHI, VIRTIO_PCI_COMMON_Q_USEDLO,
    VIRTIO_PCI_COMMON_Q_USEDHI, and_true]
  omega

theorem drive_write16 (h : Mapped mapping base) (q : QueueReg) (hle : q.offset + 2 ≤ 58)
    (value : UInt16) :
    Shared.drive ((queueRegisters d).registers base) (mapping.write16 (base + q.offset) value) s =
      (.ok (), q.write d s value.toNat) :=
  RegisterFile.drive_register (F := queueRegisters d) (h.register q hle) value.toNat_lt

theorem drive_write32 (h : Mapped mapping base) (q : QueueReg) (hle : q.offset + 4 ≤ 58)
    (value : UInt32) :
    Shared.drive ((queueRegisters d).registers base) (mapping.write32 (base + q.offset) value) s =
      (.ok (), q.write d s value.toNat) :=
  RegisterFile.drive_register (F := queueRegisters d) (h.register q hle) value.toNat_lt

theorem drive_writeCommonU64 (h : Mapped mapping base) (lo hi : QueueReg) (hlo : lo.offset + 4 ≤ 58)
    (hhi : hi.offset + 4 ≤ 58) (value : UInt64) :
    Shared.drive ((queueRegisters d).registers base)
      (writeCommonU64 mapping base lo.offset hi.offset value) s =
        (.ok (), hi.write d (lo.write d s (value &&& 0xffffffff).toUInt32.toNat)
          (value >>> 32).toUInt32.toNat) := by
  rw [writeCommonU64, Shared.drive_bind_ok (drive_write32 h lo hlo _), drive_write32 h hi hhi]

/-- The two halves of an address. -/
theorem le64FromHalves_halves (value : UInt64) :
    le64FromHalves (value &&& 0xffffffff).toUInt32 (value >>> 32).toUInt32 = value := by
  have hlo : (value &&& 0xffffffff).toUInt32.toNat = value.toNat % 2 ^ 32 := by
    have hmask : (0xffffffff : UInt64).toNat = 2 ^ 32 - 1 := by decide
    rw [UInt64.toNat_toUInt32, UInt64.toNat_and, hmask, Nat.and_two_pow_sub_one_eq_mod, Nat.mod_mod]
  have hhi : (value >>> 32).toUInt32.toNat = value.toNat / 2 ^ 32 := by
    have hlt := value.toNat_lt
    have hshift : (value >>> 32).toNat = value.toNat / 2 ^ 32 := by
      rw [UInt64.toNat_shiftRight, Nat.shiftRight_eq_div_pow]
      rfl
    rw [UInt64.toNat_toUInt32, hshift]
    omega
  apply UInt64.toNat_inj.1
  rw [le64FromHalves_toNat, hlo, hhi]
  omega

/-- A bank with the rings of `layout` at `queueIova`. -/
def Bank.program (b : Bank) (layout : VringLayout) (queueIova : UInt64) : Bank :=
  let lo := fun value : UInt64 => (value &&& 0xffffffff).toUInt32
  let hi := fun value : UInt64 => (value >>> 32).toUInt32
  let desc := queueIova + UInt64.ofNat layout.descOffset
  let avail := queueIova + UInt64.ofNat layout.availOffset
  let used := queueIova + UInt64.ofNat layout.usedOffset
  { b with
    size := UInt16.ofNat layout.queueSize
    descLo := lo desc, descHi := hi desc, availLo := lo avail, availHi := hi avail
    usedLo := lo used, usedHi := hi used }

theorem drive_programQueueAddresses (h : Mapped mapping base) (layout : VringLayout)
    (queueIova : UInt64) :
    Shared.drive ((queueRegisters d).registers base)
      (programQueueAddresses mapping base layout queueIova) s =
        (.ok (), s.setBank (s.selected.program layout queueIova)) := by
  have hsize := drive_write16 (d := d) (s := s) h .size (by decide) (UInt16.ofNat layout.queueSize)
  have hdesc := fun s => drive_writeCommonU64 (d := d) (s := s) h .descLo .descHi (by decide)
    (by decide) (queueIova + UInt64.ofNat layout.descOffset)
  have havail := fun s => drive_writeCommonU64 (d := d) (s := s) h .availLo .availHi (by decide)
    (by decide) (queueIova + UInt64.ofNat layout.availOffset)
  have hused := fun s => drive_writeCommonU64 (d := d) (s := s) h .usedLo .usedHi (by decide)
    (by decide) (queueIova + UInt64.ofNat layout.usedOffset)
  refine (Shared.drive_bind_ok hsize).trans ((Shared.drive_bind_ok (hdesc _)).trans
    ((Shared.drive_bind_ok (havail _)).trans ((hused _).trans ?_)))
  simp only [QueueReg.write, QueueRegs.setBank, QueueRegs.selected, Bank.program,
    UInt16.ofNat_toNat, UInt32.ofNat_toNat, Function.update_self, Function.update_idem]

end Registers

/-! ## The guard -/

/-- What the destructor needs: it is to write `original` back if the selection has changed. -/
structure GuardOk (mapping : MappedRegion) (base : Nat) (original : UInt16)
    (g : QueueSelectionGuard) (s : QueueRegs) : Prop where
  keeps : g.originalSelect = original
  unchanged : g.changed = false → s.select = original
  mapped : g.changed = true → base + QueueReg.select.offset + 2 ≤ mapping.size

/-- The queues are as in `s₀`; another one may be selected. -/
def SameQueues (s₀ s : QueueRegs) : Prop := ∃ queue, s = { s₀ with select := queue }

section Guard

variable {d : Device} {mapping : MappedRegion} {base : Nat} {original : UInt16}
  {g : QueueSelectionGuard} {s s' s₀ : QueueRegs}

theorem GuardOk.of_select (h : GuardOk mapping base original g s) (hselect : s'.select = s.select) :
    GuardOk mapping base original g s' :=
  ⟨h.keeps, fun hg => hselect.trans (h.unchanged hg), h.mapped⟩

theorem drive_writeSelect (hmapped : base + QueueReg.select.offset + 2 ≤ mapping.size)
    (queue : UInt16) :
    Shared.drive ((queueRegisters d).registers base)
      (mapping.write16 (base + VIRTIO_PCI_COMMON_Q_SELECT) queue) s =
        (.ok (), { s with select := queue }) := by
  have hwrite : Shared.drive ((queueRegisters d).registers base)
      (mapping.write16 (base + VIRTIO_PCI_COMMON_Q_SELECT) queue) s = _ :=
    RegisterFile.drive_register (F := queueRegisters d) (q := .select) hmapped queue.toNat_lt
  refine hwrite.trans ?_
  show (Except.ok (), QueueReg.write d s queue.toNat .select) = _
  rw [QueueReg.write, UInt16.ofNat_toNat]

/-- **Selecting a queue**, or nothing happens. -/
theorem triple_select (queue : UInt16) (s₀ : QueueRegs) :
    Triple ((queueRegisters d).registers base)
      (fun g s => GuardOk mapping base original g s ∧ s = s₀) (select mapping base queue)
      (fun _ g s => GuardOk mapping base original g s ∧ s = { s₀ with select := queue })
      (fun g s => GuardOk mapping base original g s ∧ s = s₀) := by
  refine Guarded.triple_bind (Q := fun _ g s => g.originalSelect = original ∧
    base + QueueReg.select.offset + 2 ≤ mapping.size ∧ s = { s₀ with select := queue })
    (Guarded.triple_lift fun g s h => ?_) fun _ => ?_
  · obtain ⟨hok, rfl⟩ := h
    by_cases hmapped : base + QueueReg.select.offset + 2 ≤ mapping.size
    · rw [drive_writeSelect hmapped]
      exact ⟨hok.keeps, hmapped, rfl⟩
    · have hdrive : Shared.drive ((queueRegisters d).registers base)
          (mapping.write16 (base + VIRTIO_PCI_COMMON_Q_SELECT) queue) s = _ :=
        Shared.drive_storeNumber_error hmapped
      rw [hdrive]
      exact ⟨hok, rfl⟩
  · refine Guarded.triple_conseq (Guarded.triple_change _) (fun g s h => ?_) (fun _ _ _ h => h)
      fun _ _ h => h
    obtain ⟨horiginal, hmapped, hs⟩ := h
    exact ⟨⟨horiginal, fun hchanged => absurd hchanged (by simp), fun _ => hmapped⟩, hs⟩

/-- Restoring never throws. -/
theorem triple_restore (E : QueueSelectionGuard → QueueRegs → Prop) (s₀ : QueueRegs) :
    Triple ((queueRegisters d).registers base)
      (fun g s => GuardOk mapping base original g s ∧ s = s₀) (restore mapping base)
      (fun _ g s => GuardOk mapping base original g s ∧ s = { s₀ with select := original }) E := by
  refine Guarded.triple_bind Guarded.triple_get fun a => ?_
  by_cases hchanged : a.changed = true
  · rw [if_pos hchanged]
    refine Guarded.triple_bind (Q := fun _ g s => g = a ∧ a.originalSelect = original ∧
      base + QueueReg.select.offset + 2 ≤ mapping.size ∧ s = { s₀ with select := original })
      (Guarded.triple_lift fun g s h => ?_) fun _ => ?_
    · obtain ⟨rfl, hok, rfl⟩ := h
      rw [drive_writeSelect (hok.mapped hchanged), hok.keeps]
      exact ⟨rfl, rfl, hok.mapped hchanged, rfl⟩
    · refine Guarded.triple_conseq (Guarded.triple_change _) (fun g s h => ?_) (fun _ _ _ h => h)
        fun _ _ h => h
      obtain ⟨rfl, horiginal, -, rfl⟩ := h
      exact ⟨⟨horiginal, fun _ => rfl, fun hg => absurd hg (by simp)⟩, rfl⟩
  · rw [if_neg hchanged]
    refine Guarded.triple_conseq (Guarded.triple_pure ()) (fun g s h => ?_) (fun _ _ _ h => h)
      fun _ _ h => h
    obtain ⟨rfl, hok, rfl⟩ := h
    have hselect := hok.unchanged (Bool.eq_false_iff.2 hchanged)
    exact ⟨hok, by rw [← hselect]⟩

/-- **The destructor** leaves the original selection. -/
theorem GuardOk.restored (h : GuardOk mapping base original g s) :
    (Shared.drive ((queueRegisters d).registers base) (restoreNoexcept mapping base g) s).2 =
      { s with select := original } := by
  obtain ⟨g', r, s', hdrive, hr⟩ := triple_restore (fun _ _ => False) s g s ⟨h, rfl⟩
  rw [restoreNoexcept, Shared.drive_map_ok hdrive]
  cases r with
  | ok a => exact hr.2
  | error e => exact hr.elim

end Guard

/-! ## One queue -/

section OneQueue

variable {requested : Option UInt16} {iova : UInt64}

/-- The queue may be used: it is not enabled yet, and `size` is what the sample takes of it. -/
def Fresh (requested : Option UInt16) (b : Bank) (size : UInt16) : Prop :=
  b.enable = 0 ∧ chooseQueueSize b.size requested = .ok size

/-- The registers tell of the rings of `placed`, and of its vector if it has one. -/
structure Programmed (iova : UInt64) (placed : Placed) (b : Bank) : Prop where
  size : b.size = UInt16.ofNat placed.2.1.queueSize
  desc : b.desc = iova + UInt64.ofNat placed.2.2 + UInt64.ofNat placed.2.1.descOffset
  avail : b.avail = iova + UInt64.ofNat placed.2.2 + UInt64.ofNat placed.2.1.availOffset
  used : b.used = iova + UInt64.ofNat placed.2.2 + UInt64.ofNat placed.2.1.usedOffset
  vector : ∀ v, placed.1.vector = some v → b.msixVector = v

theorem programmed_program {placed : Placed} {b : Bank}
    (hvector : ∀ v, placed.1.vector = some v → b.msixVector = v) :
    Programmed iova placed (b.program placed.2.1 (iova + UInt64.ofNat placed.2.2)) :=
  ⟨rfl, le64FromHalves_halves _, le64FromHalves_halves _, le64FromHalves_halves _, hvector⟩

theorem Programmed.setEnable {placed : Placed} {b : Bank} (h : Programmed iova placed b)
    (enable : UInt16) : Programmed iova placed { b with enable := enable } :=
  ⟨h.size, h.desc, h.avail, h.used, h.vector⟩

section Triples

variable (d : Device) (mapping : MappedRegion) (base : Nat) (original : UInt16)

/-- The guard is there, and the queues are as in `s₀`. -/
def Same (s₀ : QueueRegs) (g : QueueSelectionGuard) (s : QueueRegs) : Prop :=
  GuardOk mapping base original g s ∧ SameQueues s₀ s

/-- A queue is selected, with the registers `b`, and the others are as in `s₀`. -/
def At (s₀ : QueueRegs) (queue : UInt16) (b : Bank) (g : QueueSelectionGuard) (s : QueueRegs) :
    Prop :=
  GuardOk mapping base original g s ∧ s = { s₀ with select := queue }.setBank b

variable {d mapping base original} {s₀ : QueueRegs} {queue : UInt16} {b : Bank}

theorem At.same {g : QueueSelectionGuard} {s : QueueRegs}
    (h : At mapping base original s₀ queue (s₀.bank queue) g s) : Same mapping base original s₀ g s := by
  refine ⟨h.1, queue, h.2.trans ?_⟩
  show { s₀ with select := queue, bank := Function.update s₀.bank queue (s₀.bank queue) } = _
  rw [Function.update_eq_self]

theorem At.selected {g : QueueSelectionGuard} {s : QueueRegs}
    (h : At mapping base original s₀ queue b g s) : s.select = queue ∧ s.selected = b := by
  rw [h.2]
  exact ⟨rfl, Function.update_self ..⟩

theorem At.setBank {g : QueueSelectionGuard} {s : QueueRegs}
    (h : At mapping base original s₀ queue b g s) (b' : Bank) :
    At mapping base original s₀ queue b' g (s.setBank b') := by
  refine ⟨h.1.of_select rfl, ?_⟩
  rw [h.2]
  simp only [QueueRegs.setBank, Function.update_idem]

theorem triple_selectSame (queue : UInt16) (s₀ : QueueRegs) :
    Triple ((queueRegisters d).registers base) (Same mapping base original s₀)
      (select mapping base queue)
      (fun _ => At mapping base original s₀ queue (s₀.bank queue)) (Same mapping base original s₀) := by
  rintro g s ⟨hok, selected, rfl⟩
  refine Guarded.triple_conseq (triple_select queue _) (fun _ _ h => h) (fun _ _ _ h => ?_)
    (fun _ _ h => ⟨h.1, selected, h.2⟩) g _ ⟨hok, rfl⟩
  refine ⟨h.1, h.2.trans ?_⟩
  show _ = { s₀ with select := queue, bank := Function.update s₀.bank queue (s₀.bank queue) }
  rw [Function.update_eq_self]

/-- **Reading the registers of the selected queue.** -/
theorem triple_view {E : QueueSelectionGuard → QueueRegs → Prop}
    (hE : ∀ g s, At mapping base original s₀ queue b g s → E g s) :
    Triple ((queueRegisters d).registers base) (At mapping base original s₀ queue b)
      (Guarded.lift (readQueueView mapping base))
      (fun view g s => (view = b.view queue ∧ Mapped mapping base) ∧
        At mapping base original s₀ queue b g s) E := by
  refine Guarded.triple_reads reads_readQueueView (fun g s h hmapped => ⟨⟨?_, hmapped⟩, h⟩) hE
  rw [h.selected.1, h.selected.2]

/-- Both functions begin alike: the queue must not be enabled. -/
theorem triple_notEnabled {α : Type} {k : QueueView → Selecting α} (queue : Queue) (s₀ : QueueRegs)
    {Q : α → QueueSelectionGuard → QueueRegs → Prop} {E : QueueSelectionGuard → QueueRegs → Prop}
    (hE : ∀ g s, Same mapping base original s₀ g s → E g s)
    (hk : (s₀.bank queue.index).enable = 0 → Mapped mapping base →
      Triple ((queueRegisters d).registers base)
        (At mapping base original s₀ queue.index (s₀.bank queue.index))
        (k ((s₀.bank queue.index).view queue.index)) Q E) :
    Triple ((queueRegisters d).registers base) (Same mapping base original s₀) (do
      select mapping base queue.index
      let view ← Guarded.lift (readQueueView mapping base)
      Guarded.lift (Shared.ensure (view.enable = 0) (alreadyEnabled queue))
      k view) Q E := by
  refine Guarded.triple_bind (Guarded.triple_conseq (triple_selectSame queue.index s₀)
    (fun _ _ h => h) (fun _ _ _ h => h) hE) fun _ => ?_
  refine Guarded.triple_bind (triple_view fun g s h => hE g s h.same) fun view => ?_
  refine Guarded.triple_bind (Guarded.triple_ensure
    (fun g s h henable => And.intro henable h) fun g s h => hE g s h.2.same) fun _ => ?_
  rintro g s ⟨henable, ⟨rfl, hmapped⟩, hat⟩
  exact hk henable hmapped g s hat

/-- **`inspect_and_choose_queue`** only selects the queue. -/
theorem triple_inspect (queue : Queue) (s₀ : QueueRegs) :
    Triple ((queueRegisters d).registers base) (Same mapping base original s₀)
      (inspectAndChooseQueue mapping base requested queue)
      (fun size g s => Same mapping base original s₀ g s ∧
        Fresh requested (s₀.bank queue.index) size) (Same mapping base original s₀) :=
  triple_notEnabled queue s₀ (fun _ _ h => h) fun henable _ =>
    Guarded.triple_ofExcept (fun _ _ _ h hsize => ⟨h.same, henable, hsize⟩) fun _ _ h => h.same

/-- What may have changed while the queue of `placed` is programmed: its own registers, and the
device has been told of the rings of `placed` or of nothing. -/
structure Programming (iova : UInt64) (placed : Placed) (s₀ s : QueueRegs) : Prop where
  others : ∀ q, q ≠ placed.1.index → s.bank q = s₀.bank q
  started : s.started = s₀.started ∨
    ∃ b, Programmed iova placed b ∧ s.started = s₀.started ++ [(placed.1.index, b)]

/-- The queue of `placed` is enabled, and `view` is what the driver knows of it. -/
structure Enabled (iova : UInt64) (placed : Placed) (s₀ s : QueueRegs) (view : QueueView) : Prop where
  others : ∀ q, q ≠ placed.1.index → s.bank q = s₀.bank q
  started : ∃ b, Programmed iova placed b ∧ s.started = s₀.started ++ [(placed.1.index, b)]
  programmed : Programmed iova placed (s.bank placed.1.index)
  enabled : (s.bank placed.1.index).enable = 1
  notify : (s.bank placed.1.index).notifyOff = (s₀.bank placed.1.index).notifyOff
  view : view = (s.bank placed.1.index).view placed.1.index

theorem At.programming {placed : Placed} {g : QueueSelectionGuard} {s : QueueRegs}
    (h : At mapping base original s₀ placed.1.index b g s) :
    GuardOk mapping base original g s ∧ Programming iova placed s₀ s := by
  refine ⟨h.1, fun q hq => ?_, .inl ?_⟩
  · rw [h.2]
    exact Function.update_of_ne hq ..
  · rw [h.2]
    rfl

theorem drive_setQueueVector (hmapped : Mapped mapping base) (queue : Queue) (vector : UInt16)
    (s : QueueRegs) :
    let s' := s.setBank { s.selected with msixVector := d.takesVector s.select vector }
    Shared.Reads ((queueRegisters d).registers base) s' (do
      let afterVector ← readQueueView mapping base
      Shared.ensure (afterVector.msixVector = vector)
        (queue.label ++ " queue_msix_vector did not read back as the requested vector")) ()
        (d.takesVector s.select vector = vector) := by
  intro s'
  have hselected : s'.selected.msixVector = d.takesVector s.select vector := by
    simp only [s', QueueRegs.setBank, QueueRegs.selected, Function.update_self]
  refine (Shared.reads_bind (reads_readQueueView s') (Shared.reads_ensure _)).congr ?_
  show Mapped mapping base ∧ s'.selected.msixVector = vector ↔ _
  rw [hselected]
  exact and_iff_right hmapped

/-- The vector is set, if the queue has one. -/
theorem triple_vector (hmapped : Mapped mapping base) (placed : Placed) (s₀ : QueueRegs) :
    Triple ((queueRegisters d).registers base)
      (At mapping base original s₀ placed.1.index (s₀.bank placed.1.index))
      (Guarded.lift (match placed.1.vector with
        | none => pure ()
        | some vector => setQueueVector mapping base placed.1 vector))
      (fun _ g s => ∃ b, At mapping base original s₀ placed.1.index b g s ∧
        (∀ v, placed.1.vector = some v → b.msixVector = v) ∧
        b.notifyOff = (s₀.bank placed.1.index).notifyOff)
      (fun g s => GuardOk mapping base original g s ∧ Programming iova placed s₀ s) := by
  cases hvector : placed.1.vector with
  | none =>
    refine Guarded.triple_lift fun g s h => ?_
    exact ⟨_, h, fun v hv => (by cases hv), rfl⟩
  | some vector =>
    refine Guarded.triple_lift fun g s h => ?_
    obtain ⟨hselect, hselected⟩ := h.selected
    let b := { s₀.bank placed.1.index with msixVector := d.takesVector placed.1.index vector }
    have hat : At mapping base original s₀ placed.1.index b g (s.setBank
        { s.selected with msixVector := d.takesVector s.select vector }) := by
      have hset := h.setBank b
      rw [hselect, hselected]
      exact hset
    have hwrite := drive_write16 (d := d) (s := s) hmapped .msix (by decide) vector
    have hrest := drive_setQueueVector (d := d) hmapped placed.1 vector s
    rw [QueueReg.write, UInt16.ofNat_toNat] at hwrite
    obtain ⟨htakes, hdrive⟩ | ⟨-, e, hdrive⟩ := hrest
    · have hset : Shared.drive ((queueRegisters d).registers base)
          (setQueueVector mapping base placed.1 vector) s = _ :=
        (Shared.drive_bind_ok hwrite).trans hdrive
      dsimp only
      rw [hset]
      refine ⟨b, hat, fun v hv => ?_, rfl⟩
      cases hv
      rw [hselect] at htakes
      exact htakes
    · have hset : Shared.drive ((queueRegisters d).registers base)
          (setQueueVector mapping base placed.1 vector) s = _ :=
        (Shared.drive_bind_ok hwrite).trans hdrive
      dsimp only
      rw [hset]
      exact hat.programming

/-- **`program_and_enable_queue`**, with and without a vector. -/
theorem triple_program (placed : Placed) (s₀ : QueueRegs) :
    Triple ((queueRegisters d).registers base) (Same mapping base original s₀)
      (programAndEnableQueue mapping base placed.1 placed.2.1 (iova + UInt64.ofNat placed.2.2))
      (fun view g s => GuardOk mapping base original g s ∧ Enabled iova placed s₀ s view)
      (fun g s => GuardOk mapping base original g s ∧ Programming iova placed s₀ s) := by
  refine triple_notEnabled placed.1 s₀ (fun g s h => ?_) fun henable hmapped => ?_
  · obtain ⟨hok, selected, rfl⟩ := h
    exact ⟨hok, fun _ _ => rfl, .inl rfl⟩
  refine Guarded.triple_bind (triple_vector hmapped placed s₀) fun _ => ?_
  rintro g s ⟨b, hat, hvector, hnotify⟩
  let b' := b.program placed.2.1 (iova + UInt64.ofNat placed.2.2)
  have hb' : Programmed iova placed b' := programmed_program hvector
  -- what the device is told by the write that enables the queue
  let enable := d.takesEnable placed.1.index 1
  let Started : QueueSelectionGuard → QueueRegs → Prop := fun g s =>
    GuardOk mapping base original g s ∧
      s = { ({ s₀ with select := placed.1.index }.setBank { b' with enable := enable }) with
        started := s₀.started ++ [(placed.1.index, b')] }
  have hothers : ∀ g s, Started g s → ∀ q, q ≠ placed.1.index → s.bank q = s₀.bank q := by
    rintro g s ⟨-, rfl⟩ q hq
    exact Function.update_of_ne hq ..
  have hbank : ∀ g s, Started g s → s.bank placed.1.index = { b' with enable := enable } := by
    rintro g s ⟨-, rfl⟩
    exact Function.update_self ..
  have hstarted : ∀ g s, Started g s → s.started = s₀.started ++ [(placed.1.index, b')] := by
    rintro g s ⟨-, rfl⟩
    rfl
  have hE : ∀ g s, Started g s →
      GuardOk mapping base original g s ∧ Programming iova placed s₀ s := fun g s h =>
    ⟨h.1, hothers g s h, .inr ⟨b', hb', hstarted g s h⟩⟩
  have htail : Triple ((queueRegisters d).registers base)
      (At mapping base original s₀ placed.1.index b') (do
        let _ ← Guarded.lift (readQueueView mapping base)
        Guarded.lift (enableQueue mapping base)
        let afterEnable ← Guarded.lift (readQueueView mapping base)
        Guarded.lift (Shared.ensure (afterEnable.enable = 1)
          (placed.1.label ++ " queue_enable did not read back as 1"))
        return afterEnable)
      (fun view g s => GuardOk mapping base original g s ∧ Enabled iova placed s₀ s view)
      (fun g s => GuardOk mapping base original g s ∧ Programming iova placed s₀ s) := by
    refine Guarded.triple_bind (triple_view fun g s h => h.programming) fun _ => ?_
    refine Guarded.triple_bind (Q := fun _ => Started)
      (Guarded.triple_lift fun g s h => ?_) fun _ => ?_
    · have hwrite := drive_write16 (d := d) (s := s) hmapped .enable (by decide) 1
      obtain ⟨hselect, hselected⟩ := h.2.selected
      have hdrive : Shared.drive ((queueRegisters d).registers base) (enableQueue mapping base) s =
        _ := hwrite
      rw [hdrive]
      refine ⟨h.2.1.of_select rfl, ?_⟩
      show { s.setBank { s.selected with enable := d.takesEnable s.select 1 } with
        started := s.started ++ [(s.select, s.selected)] } = _
      rw [hselect, hselected, (h.2.setBank _).2, h.2.2]
      rfl
    refine Guarded.triple_bind (Q := fun view g s =>
      view = (s.bank placed.1.index).view placed.1.index ∧ Started g s)
      (Guarded.triple_reads reads_readQueueView (fun g s h _ => ⟨?_, h⟩) hE) fun view => ?_
    · rw [h.2]
      rfl
    refine Guarded.triple_bind (Guarded.triple_ensure (fun g s h henabled => And.intro henabled h)
      fun g s h => hE g s h.2) fun _ => ?_
    refine Guarded.triple_conseq (Guarded.triple_pure view) (fun g s h => ?_) (fun _ _ _ h => h)
      fun _ _ h => h
    obtain ⟨henabled, hview, h⟩ := h
    refine ⟨h.1, hothers g s h, ⟨b', hb', hstarted g s h⟩, ?_, ?_, ?_, hview⟩
    · rw [hbank g s h]
      exact hb'.setEnable enable
    · rw [hview] at henabled
      exact henabled
    · rw [hbank g s h]
      exact hnotify
  refine Guarded.triple_bind (Q := fun _ => At mapping base original s₀ placed.1.index b')
    (Guarded.triple_lift fun g s h => ?_) (fun _ => htail) g s hat
  rw [drive_programQueueAddresses hmapped, h.selected.2]
  exact h.setBank b'

end Triples

end OneQueue

/-! ## All queues -/

/-- An entry of `started` tells the device of `placed`. -/
def Told (iova : UInt64) (placed : Placed) (entry : UInt16 × Bank) : Prop :=
  entry.1 = placed.1.index ∧ Programmed iova placed entry.2

/-- The device has been told of the first queues of `all`, one after another. -/
def ToldInOrder (iova : UInt64) (all : List Placed) (s₀ s : QueueRegs) : Prop :=
  ∃ l, s.started = s₀.started ++ l ∧ List.Forall₂ (Told iova) (all.take l.length) l

/-- The queue is enabled with the rings of `placed`, and the driver knows its notification fields. -/
structure Ready (iova : UInt64) (bank₀ bank : UInt16 → Bank) (placed : Placed) (view : QueueView) :
    Prop where
  programmed : Programmed iova placed (bank placed.1.index)
  enabled : (bank placed.1.index).enable = 1
  notify : (bank placed.1.index).notifyOff = (bank₀ placed.1.index).notifyOff
  view : view = (bank placed.1.index).view placed.1.index

def Placed.index (placed : Placed) : UInt16 := placed.1.index

/-- What a run of `setupQueues` has done to the registers when it ends.

* `queue_select` is what it was, and no other queue has been touched.
* Either nothing has been programmed and it threw; or all queues were disabled, the sizes are
  those that the sample may use, the buffer is laid out and mapped, and the device has been told of
  the queues in order, up to the one where it threw, or of all of them. -/
structure Outcome (queues : List Queue) (requested : Option UInt16)
    (layout : List UInt16 → Except String (List (VringLayout × Nat) × Nat))
    (mapDma : Nat → Except String Unit) (iova : UInt64) (s : QueueRegs)
    (r : Except String (List QueueView)) (s' : QueueRegs) : Prop where
  select : s'.select = s.select
  others : ∀ q, q ∉ queues.map Queue.index → s'.bank q = s.bank q
  programmed : (s'.bank = s.bank ∧ s'.started = s.started ∧ ∃ e, r = .error e) ∨
    ∃ sizes vrings totalSize, layout sizes = .ok (vrings, totalSize) ∧ mapDma totalSize = .ok () ∧
      List.Forall₂ (fun queue size => Fresh requested (s.bank queue.index) size) queues sizes ∧
      ToldInOrder iova (queues.zip vrings) s s' ∧
      ∀ views, r = .ok views →
        s'.started.length = s.started.length + (queues.zip vrings).length ∧
        List.Forall₂ (Ready iova s.bank s'.bank) (queues.zip vrings) views

section AllQueues

variable {d : Device} {mapping : MappedRegion} {base : Nat} {original : UInt16}
  {requested : Option UInt16} {iova : UInt64} {s₀ s s' : QueueRegs}

theorem triple_inspectAll (queues : List Queue) (s₀ : QueueRegs) :
    Triple ((queueRegisters d).registers base) (Same mapping base original s₀)
      (Guarded.each (inspectAndChooseQueue mapping base requested) queues)
      (fun sizes g s => Same mapping base original s₀ g s ∧
        List.Forall₂ (fun queue size => Fresh requested (s₀.bank queue.index) size) queues sizes)
      (Same mapping base original s₀) := by
  have hloop := Guarded.triple_each (R := (queueRegisters d).registers base)
    (f := inspectAndChooseQueue mapping base requested) (l := queues)
    (J := fun done sizes g s => Same mapping base original s₀ g s ∧
      List.Forall₂ (fun queue size => Fresh requested (s₀.bank queue.index) size) done sizes)
    (E := Same mapping base original s₀) fun done queue rest _ sizes => ?_
  · exact Guarded.triple_conseq hloop (fun g s h => ⟨h, .nil⟩) (fun _ _ _ h => h) fun _ _ h => h
  · rintro g s ⟨hsame, hall⟩
    refine Guarded.triple_conseq (triple_inspect queue s₀) (fun _ _ h => h)
      (fun size _ _ h => ⟨h.1, ?_⟩) (fun _ _ h => h) g s hsame
    exact List.rel_append hall (.cons h.2 .nil)

/-- What is known after some queues of `all`. -/
structure Progress (iova : UInt64) (s₀ : QueueRegs) (done : List Placed) (views : List QueueView)
    (s : QueueRegs) : Prop where
  others : ∀ q, q ∉ done.map Placed.index → s.bank q = s₀.bank q
  told : ∃ l, s.started = s₀.started ++ l ∧ List.Forall₂ (Told iova) done l
  ready : List.Forall₂ (Ready iova s₀.bank s.bank) done views

/-- **One more queue.** -/
theorem Progress.step {done : List Placed} {views : List QueueView} {placed : Placed}
    {view : QueueView} (h : Progress iova s₀ done views s)
    (hnew : placed.index ∉ done.map Placed.index) (henabled : Enabled iova placed s s' view) :
    Progress iova s₀ (done ++ [placed]) (views ++ [view]) s' := by
  refine ⟨fun q hq => ?_, ?_, ?_⟩
  · rw [List.map_append, List.mem_append, not_or] at hq
    have hne : q ≠ placed.1.index := fun heq => hq.2 (heq ▸ List.mem_singleton_self _)
    exact (henabled.others q hne).trans (h.others q hq.1)
  · obtain ⟨l, hl, hall⟩ := h.told
    obtain ⟨b, hb, hstarted⟩ := henabled.started
    refine ⟨l ++ [(placed.1.index, b)], ?_, List.rel_append hall (.cons ⟨rfl, hb⟩ .nil)⟩
    rw [hstarted, hl, List.append_assoc]
  · refine List.rel_append ?_ (.cons ⟨henabled.programmed, henabled.enabled, ?_, henabled.view⟩ .nil)
    · -- the registers of the queues before are as they were
      refine (List.forall₂_iff_zip.2 ⟨h.ready.length_eq, fun {p v} hmem => ?_⟩)
      have hp : p.1.index ∈ done.map Placed.index := List.mem_map_of_mem (List.of_mem_zip hmem).1
      have hne : p.1.index ≠ placed.1.index := fun heq => hnew (by rwa [Placed.index, ← heq])
      have hready := List.forall₂_zip h.ready hmem
      have hbank := henabled.others _ hne
      exact ⟨hbank ▸ hready.programmed, hbank ▸ hready.enabled, hbank ▸ hready.notify,
        hbank ▸ hready.view⟩
    · exact henabled.notify.trans (congrArg Bank.notifyOff (h.others placed.1.index hnew))

/-- What is known if the loop throws. -/
def Interrupted (iova : UInt64) (s₀ : QueueRegs) (all : List Placed) (s : QueueRegs) : Prop :=
  (∀ q, q ∉ all.map Placed.index → s.bank q = s₀.bank q) ∧ ToldInOrder iova all s₀ s

theorem Progress.interrupted {done rest : List Placed} {views : List QueueView} {placed : Placed}
    (h : Progress iova s₀ done views s) (hprogramming : Programming iova placed s s') :
    Interrupted iova s₀ (done ++ placed :: rest) s' := by
  obtain ⟨l, hl, hall⟩ := h.told
  refine ⟨fun q hq => ?_, ?_⟩
  · rw [List.map_append, List.mem_append, List.map_cons, List.mem_cons, not_or, not_or] at hq
    exact (hprogramming.others q hq.2.1).trans (h.others q hq.1)
  · have hlen := hall.length_eq
    obtain hstarted | ⟨b, hb, hstarted⟩ := hprogramming.started
    · refine ⟨l, hstarted.trans hl, ?_⟩
      rwa [← hlen, List.take_left]
    · refine ⟨l ++ [(placed.1.index, b)], ?_, ?_⟩
      · rw [hstarted, hl, List.append_assoc]
      · have htake : (done ++ placed :: rest).take (l ++ [(placed.1.index, b)]).length =
            done ++ [placed] := by
          rw [List.length_append, ← hlen, List.length_singleton, List.take_length_add_append]
          rfl
        rw [htake]
        exact List.rel_append hall (.cons ⟨rfl, hb⟩ .nil)

theorem triple_programAll {all : List Placed} (hnodup : (all.map Placed.index).Nodup)
    (s₀ : QueueRegs) :
    Triple ((queueRegisters d).registers base) (Same mapping base original s₀)
      (Guarded.each (fun placed : Placed => programAndEnableQueue mapping base placed.1 placed.2.1
        (iova + UInt64.ofNat placed.2.2)) all)
      (fun views g s => GuardOk mapping base original g s ∧ Progress iova s₀ all views s)
      (fun g s => GuardOk mapping base original g s ∧ Interrupted iova s₀ all s) := by
  have hloop := Guarded.triple_each (R := (queueRegisters d).registers base) (l := all)
    (f := fun placed : Placed => programAndEnableQueue mapping base placed.1 placed.2.1
      (iova + UInt64.ofNat placed.2.2))
    (J := fun done views g s => GuardOk mapping base original g s ∧ Progress iova s₀ done views s)
    (E := fun g s => GuardOk mapping base original g s ∧ Interrupted iova s₀ all s)
    fun done placed rest hall views => ?_
  · refine Guarded.triple_conseq hloop (fun g s h => ?_) (fun _ _ _ h => h) fun _ _ h => h
    obtain ⟨hok, selected, rfl⟩ := h
    exact ⟨hok, fun _ _ => rfl, ⟨[], (List.append_nil _).symm, .nil⟩, .nil⟩
  · rintro g s ⟨hok, hprogress⟩
    have hnew : placed.index ∉ done.map Placed.index := by
      rw [hall, List.map_append, List.nodup_append] at hnodup
      intro hmem
      exact hnodup.2.2 _ hmem _ List.mem_cons_self rfl
    refine Guarded.triple_conseq (triple_program placed s) (fun _ _ h => h)
      (fun view g' s' h => ⟨h.1, hprogress.step hnew h.2⟩) (fun g' s' h => ⟨h.1, ?_⟩) g s
      ⟨hok, s.select, rfl⟩
    rw [hall]
    exact hprogress.interrupted h.2

/-- Placing does not add queues. -/
theorem zip_index_sublist (queues : List Queue) (vrings : List (VringLayout × Nat)) :
    ((queues.zip vrings).map Placed.index).Sublist (queues.map Queue.index) := by
  induction queues generalizing vrings with
  | nil => simp
  | cons queue queues ih =>
    cases vrings with
    | nil => simp
    | cons vring vrings => exact (ih vrings).cons_cons _

theorem SameQueues.outcome {queues : List Queue}
    {layout : List UInt16 → Except String (List (VringLayout × Nat) × Nat)}
    {mapDma : Nat → Except String Unit} (h : SameQueues s s') (e : String) :
    Outcome queues requested layout mapDma iova s (.error e) { s' with select := s.select } := by
  obtain ⟨selected, rfl⟩ := h
  exact ⟨rfl, fun _ _ => rfl, .inl ⟨rfl, rfl, e, rfl⟩⟩

end AllQueues

/-- **Setting up the queues, on every way out.**  Against every device, for every mapping and from
every state of the registers. -/
theorem setupQueues_outcome (d : Device) (mapping : MappedRegion) (base : Nat) (queues : List Queue)
    (mustDiffer : String) (requested : Option UInt16)
    (layout : List UInt16 → Except String (List (VringLayout × Nat) × Nat))
    (mapDma : Nat → Except String Unit) (iova : UInt64) (s : QueueRegs) :
    let o := Shared.drive ((queueRegisters d).registers base)
      (setupQueues mapping base queues mustDiffer requested layout mapDma iova) s
    Outcome queues requested layout mapDma iova s o.1 o.2 := by
  have hnothing : ∀ e, Outcome queues requested layout mapDma iova s (.error e) s := fun e =>
    SameQueues.outcome ⟨s.select, rfl⟩ e
  refine Shared.drive_reads_bind (reads_read16 .numQueues s.numQueues rfl) hnothing fun _ => ?_
  refine Shared.drive_reads_bind (reads_read16 .select s.select rfl) hnothing fun _ => ?_
  refine Shared.drive_ofExcept_bind hnothing fun _ _ => ?_
  refine Shared.drive_reads_bind (Shared.reads_ensure _) hnothing fun hdistinct => ?_
  have hnodup : ∀ vrings, ((queues.zip vrings).map Placed.index).Nodup := fun vrings =>
    (zip_index_sublist queues vrings).nodup hdistinct
  -- what holds before the destructor
  let Before := fun (r : Except String (List QueueView)) (g : QueueSelectionGuard) (s' : QueueRegs) =>
    GuardOk mapping base s.select g s' ∧
      Outcome queues requested layout mapDma iova s r { s' with select := s.select }
  refine Guarded.drive_scope (P := Same mapping base s.select s) (Q := fun views => Before (.ok views))
    (E := fun g s' => ∀ e, Before (.error e) g s') ?_ ⟨⟨rfl, fun _ => rfl, ?_⟩, s.select, rfl⟩ ?_ ?_
  · have hE : ∀ g s', Same mapping base s.select s g s' → ∀ e, Before (.error e) g s' :=
      fun g s' h e => ⟨h.1, h.2.outcome e⟩
    refine Guarded.triple_bind (Guarded.triple_conseq (triple_inspectAll queues s)
      (fun _ _ h => h) (fun _ _ _ h => h) hE) fun sizes => ?_
    refine Guarded.triple_bind (Guarded.triple_ofExcept
      (fun placed g s' h hlayout => And.intro hlayout h) fun g s' h => hE g s' h.1) fun placed => ?_
    obtain ⟨vrings, totalSize⟩ := placed
    refine Guarded.triple_bind (Guarded.triple_ofExcept
      (fun _ g s' h hmap => And.intro hmap h) fun g s' h => hE g s' h.2.1) fun _ => ?_
    rintro g s' ⟨hmap, hlayout, hsame, hfresh⟩
    have hwhen : ∀ r s', (∀ q, q ∉ (queues.zip vrings).map Placed.index → s'.bank q = s.bank q) →
        ToldInOrder iova (queues.zip vrings) s s' →
        (∀ views, r = .ok views →
          s'.started.length = s.started.length + (queues.zip vrings).length ∧
          List.Forall₂ (Ready iova s.bank s'.bank) (queues.zip vrings) views) →
        Outcome queues requested layout mapDma iova s r { s' with select := s.select } :=
      fun r s' hothers htold hok =>
        ⟨rfl, fun q hq => hothers q fun hmem => hq ((zip_index_sublist queues vrings).subset hmem),
          .inr ⟨sizes, vrings, totalSize, hlayout, hmap, hfresh, htold, hok⟩⟩
    refine Guarded.triple_bind (Guarded.triple_conseq (triple_programAll (hnodup vrings) s)
      (fun _ _ h => h) (fun _ _ _ h => h) fun g s' h e => ?_) (fun views => ?_) g s' hsame
    · exact ⟨h.1, hwhen _ _ h.2.1 h.2.2 fun _ hr => by cases hr⟩
    · rintro g s' ⟨hok, hprogress⟩
      obtain ⟨l, hl, htold⟩ := hprogress.told
      have hlen := htold.length_eq
      refine Guarded.triple_bind (triple_restore _ s') (fun _ => Guarded.triple_conseq
        (Guarded.triple_pure views) (fun g s'' h => ?_) (fun _ _ _ h => h) fun _ _ h => h)
        g s' ⟨hok, rfl⟩
      obtain ⟨hok', rfl⟩ := h
      refine ⟨hok', hwhen _ _ hprogress.others ⟨l, hl, ?_⟩ fun views' hviews => ?_⟩
      · rwa [← hlen, List.take_length]
      · cases hviews
        refine ⟨?_, hprogress.ready⟩
        rw [hl, List.length_append, hlen]
  · exact fun h => absurd h (by simp)
  · intro views g s' h
    rw [h.1.restored]
    exact h.2
  · intro e g s' h
    rw [(h e).1.restored]
    exact (h e).2

end AdvCpp.Virtio.QueueSetup
