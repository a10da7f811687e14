import AdvCpp.Lib.Scope
import AdvCpp.Lib.Trace

/-!
# Teardown of the interrupt-driven driver

`26_virtio_net_irq_echo_loop.cpp`: the objects of `run_irq_echo_loop`, in the order of their
declaration, and every call that reaches the device, the kernel or a mapping.  Any call may throw.

* `runIrqEchoLoop` — the function as a block, `driver` — what its calls and destructors do.
* `Allowed` — when an effect is in order, `Orderly` — a trace of such effects.
* `Guarded` — what is in force has its guard on the stack; every path keeps it.
* `teardown_order` — the order of the effects on every path.
-/

namespace AdvCpp.Virtio.Teardown

open AdvCpp.Lib

/-! ## Objects, effects and calls -/

/-- The objects with a destructor that matters; `txIrq` is only there for distinct vectors. -/
inductive Object where
  | vfio
  | rxIrq
  | txIrq
  | irqBindings
  | pciCommand
  | commonMapping
  | deviceCfgMapping
  | selection
  | buffer
  | dma
  | resetGuard
  | rxNotifyMapping
  | txNotifyMapping
  deriving DecidableEq

/-- The place of an object in the order of declaration. -/
def Object.rank : Object → Nat
  | .vfio => 0
  | .rxIrq => 1
  | .txIrq => 2
  | .irqBindings => 3
  | .pciCommand => 4
  | .commonMapping => 5
  | .deviceCfgMapping => 6
  | .selection => 7
  | .buffer => 8
  | .dma => 9
  | .resetGuard => 10
  | .rxNotifyMapping => 11
  | .txNotifyMapping => 12

/-- What the device, the kernel and the address space see. -/
inductive Effect where
  | openVfio
  | closeVfio
  | openEventfd (tx : Bool)
  | closeEventfd (tx : Bool)
  | setIrqEventfds
  | disableIrqIndex
  | writeCommand
  | mmapCommon
  | munmapCommon
  | mmapDeviceCfg
  | munmapDeviceCfg
  | mmapBuffer
  | munmapBuffer
  | mapDma
  | unmapDma
  | mmapNotify (tx : Bool)
  | munmapNotify (tx : Bool)
  | writeStatus (status : Nat)
  | writeCommon (offset : Nat)
  | selectQueue (queue : Nat)
  | enableQueue
  | notify (tx : Bool)
  deriving DecidableEq

/-- A call; `check` reads, checks, prints, or writes the DMA buffer. -/
inductive Act where
  | check
  | setIrqEventfds
  | activate
  | disable
  | writeCommand
  | readCommand
  | restoreCommand
  | readBackCommand
  | writeStatus (status : Nat)
  | setDriverOk
  | writeCommon (offset width : Nat)
  | select (queue : Nat)
  | restoreSelect
  | enableQueue
  | notify (tx : Bool)
  | disarm
  | unmap
  deriving DecidableEq

/-- What the run depends on: `tx_vector == rx_vector`, the mapped length of COMMON_CFG, the queues,
and the queue that was selected before. -/
structure Setup where
  sharedVector : Bool
  inspectLength : Nat
  rxQueue : Nat
  txQueue : Nat
  originalSelect : Nat

/-- `active_` of `irq_bindings`, `dma` and `reset_guard`, `changed_` of `selection`, whether
`pci_command` has something to restore, and what was done so far. -/
structure State where
  irqActive : Bool
  dmaActive : Bool
  resetActive : Bool
  selectChanged : Bool
  commandChanged : Bool
  trace : List Effect

def init : State := ⟨false, false, false, false, false, []⟩

def State.emit (s : State) (e : Effect) : State := { s with trace := s.trace ++ [e] }

/-- The last status written; the device follows it. -/
def deviceStatus (t : List Effect) : Nat :=
  t.foldl (fun status e => match e with | .writeStatus v => v | _ => status) 0

section Driver

variable (d : Setup)

/-- `MappedRegion::write` at an offset of COMMON_CFG. -/
def State.mmio (offset width : Nat) (e : Effect) (s : State) : Option State :=
  if offset + width ≤ d.inspectLength then some (s.emit e) else none

def perform : Act → State → Option State
  | .check, s => some s
  | .setIrqEventfds, s => some (s.emit .setIrqEventfds)
  | .activate, s => some { s with irqActive := true }
  | .disable, s =>
    some (if s.irqActive then { s.emit .disableIrqIndex with irqActive := false } else s)
  | .writeCommand, s => some (s.emit .writeCommand)
  | .readCommand, s => some { s with commandChanged := true }
  | .restoreCommand, s => some (if s.commandChanged then s.emit .writeCommand else s)
  | .readBackCommand, s => some { s with commandChanged := false }
  | .writeStatus status, s => s.mmio d 20 1 (.writeStatus status)
  | .setDriverOk, s => s.mmio d 20 1 (.writeStatus (deviceStatus s.trace ||| 4))
  | .writeCommon offset width, s => s.mmio d offset width (.writeCommon offset)
  | .select queue, s =>
    (s.mmio d 22 2 (.selectQueue queue)).map fun s => { s with selectChanged := true }
  | .restoreSelect, s =>
    if s.selectChanged then
      (s.mmio d 22 2 (.selectQueue d.originalSelect)).map fun s => { s with selectChanged := false }
    else some s
  | .enableQueue, s => s.mmio d 28 2 .enableQueue
  | .notify tx, s => some (s.emit (.notify tx))
  | .disarm, s => some { s with resetActive := false }
  | .unmap, s => some (if s.dmaActive then { s.emit .unmapDma with dmaActive := false } else s)

def construct : Object → State → Option State
  | .vfio, s => some (s.emit .openVfio)
  | .rxIrq, s => some (s.emit (.openEventfd false))
  | .txIrq, s => some (s.emit (.openEventfd true))
  | .irqBindings, s => some { s with irqActive := false }
  | .pciCommand, s => some { s with commandChanged := false }
  | .commonMapping, s => some (s.emit .mmapCommon)
  | .deviceCfgMapping, s => some (s.emit .mmapDeviceCfg)
  | .selection, s => some { s with selectChanged := false }
  | .buffer, s => some (s.emit .mmapBuffer)
  | .dma, s => some { s.emit .mapDma with dmaActive := true }
  | .resetGuard, s => some { s with resetActive := true }
  | .rxNotifyMapping, s => some (s.emit (.mmapNotify false))
  | .txNotifyMapping, s => some (s.emit (.mmapNotify true))

/-- A `_noexcept` member: what it throws is swallowed. -/
def noexcept (a : Act) (s : State) : State := (perform d a s).getD s

/-- Unmapping the IOVA and disabling the IRQ index succeed; restoring the PCI command may not. -/
def destroy : Object → Bool → State → State
  | .vfio, _, s => s.emit .closeVfio
  | .rxIrq, _, s => s.emit (.closeEventfd false)
  | .txIrq, _, s => s.emit (.closeEventfd true)
  | .irqBindings, _, s => noexcept d .disable s
  | .pciCommand, swallowed, s => if swallowed then s else noexcept d .restoreCommand s
  | .commonMapping, _, s => s.emit .munmapCommon
  | .deviceCfgMapping, _, s => s.emit .munmapDeviceCfg
  | .selection, _, s => noexcept d .restoreSelect s
  | .buffer, _, s => s.emit .munmapBuffer
  | .dma, _, s => noexcept d .unmap s
  | .resetGuard, _, s => if s.resetActive then noexcept d (.writeStatus 0) s else s
  | .rxNotifyMapping, _, s => s.emit (.munmapNotify false)
  | .txNotifyMapping, _, s => s.emit (.munmapNotify true)

def driver : Scoped Act Object State := ⟨perform d, construct, destroy d⟩

/-! ## The function -/

abbrev Code := Block Act Object

def enableBusMastering : Code :=
  .branch (.act .check)
    (.steps [.act .writeCommand, .branch (.act .readCommand) (.act .check), .act .check])

def resetDevice : Code := .steps [.act (.writeStatus 0), .act .check, .act .check]

/-- `read_feature_words` with `DFSELECT`. -/
def readFeatureWords : Code :=
  .steps [.act .check, .loop (.steps [.act (.writeCommon 0 4), .act .check]),
    .act (.writeCommon 0 4)]

/-- `write_guest_feature_words` with `GFSELECT` and `GF`. -/
def writeGuestFeatureWords : Code :=
  .steps [.act .check,
    .loop (.steps [.act (.writeCommon 8 4), .act (.writeCommon 12 4), .act .check]),
    .act (.writeCommon 8 4)]

def negotiateMinimalFeatures : Code :=
  .steps [resetDevice, .act (.writeStatus 1), .act .check, .act (.writeStatus 3), .act .check,
    readFeatureWords, .act .check, writeGuestFeatureWords, .act (.writeStatus 11), .act .check]

/-- Up to the DMA buffer. -/
def setup : Code :=
  .steps [.declare .vfio, .act .check, .declare .rxIrq,
    if d.sharedVector then .act .check else .declare .txIrq,
    .declare .irqBindings, .act .setIrqEventfds, .act .check, .act .activate, .act .check,
    .declare .pciCommand, enableBusMastering, .act .check,
    .declare .commonMapping, .declare .deviceCfgMapping, .act .check,
    negotiateMinimalFeatures, .act .check,
    .declare .selection, .act (.select d.rxQueue), .act .check, .act (.select d.txQueue),
    .act .check, .declare .buffer, .act .check]

def programQueueAddresses : Code :=
  .steps [.act (.writeCommon 24 2), .act (.writeCommon 32 4), .act (.writeCommon 36 4),
    .act (.writeCommon 40 4), .act (.writeCommon 44 4), .act (.writeCommon 48 4),
    .act (.writeCommon 52 4)]

def programAndEnableQueueWithMsix (queue : Nat) : Code :=
  .steps [.act (.select queue), .act .check, .act (.writeCommon 26 2), .act .check,
    programQueueAddresses, .act .check, .act .enableQueue, .act .check]

/-- One received packet: skipped, without a free slot, or echoed. -/
def packet : Code :=
  .seq (.act .check)
    (.branch (.branch (.act .check) (.steps [.act .check, .act (.notify false)]))
      (.branch (.steps [.act .check, .act (.notify false)])
        (.steps [.act .check, .act (.notify true), .act .check, .act (.notify false)])))

/-- Ends when the packets are echoed, or there is no time left. -/
def mainLoop : Code :=
  .loop (.steps [.act .check, .loop packet, .branch (.act .check) .skip])

/-- Ends when the packets are completed, or there is no time left. -/
def drainLoop : Code := .loop (.steps [.act .check, .branch (.act .check) .skip])

/-- From the DMA mapping to the end of both loops. -/
def serve : Code :=
  .steps [.act .check, .declare .resetGuard, .act .check,
    programAndEnableQueueWithMsix d.rxQueue, programAndEnableQueueWithMsix d.txQueue,
    .declare .rxNotifyMapping, .act .check, .declare .txNotifyMapping, .act .check,
    .act .check, .act .setDriverOk, .act .check, .act (.notify false), .act .check,
    mainLoop, .act .check, drainLoop, .act .check]

def cleanup : Code :=
  .steps [.act .disable, .act .check, .act .restoreSelect, .act .check, resetDevice, .act .disarm,
    .act .restoreCommand, .act .readBackCommand, .act .check, .act .unmap, .act .check]

def runIrqEchoLoop : Code := .steps [setup d, .declare .dma, serve d, cleanup]

/-- Every path through the function, until all its objects are destroyed. -/
def machine : Machine (Config Act Object State) Turn := (driver d).machine (runIrqEchoLoop d) init

end Driver

/-! ## Orderly traces -/

/-- A queue is enabled, or `DRIVER_OK` is set. -/
def Effect.enables : Effect → Bool
  | .writeStatus v => v.testBit 2
  | .enableQueue => true
  | _ => false

def Effect.resets : Effect → Bool
  | .writeStatus v => v == 0
  | _ => false

/-- The device may use the DMA memory. -/
def enabled (t : List Effect) : Bool := switched Effect.enables Effect.resets t

/-- The eventfds are bound to the IRQ index. -/
def irqBound (t : List Effect) : Bool :=
  switched (fun e => e == .setIrqEventfds) (fun e => e == .disableIrqIndex) t

def Mapped (t : List Effect) : Prop := .mapDma ∈ t ∧ .unmapDma ∉ t

def CommonMapped (t : List Effect) : Prop := .mmapCommon ∈ t ∧ .munmapCommon ∉ t

def BufferMapped (t : List Effect) : Prop := .mmapBuffer ∈ t ∧ .munmapBuffer ∉ t

/-- When an effect is in order, after those of `t`. -/
def Allowed (t : List Effect) : Effect → Prop
  | .mapDma => BufferMapped t ∧ .setIrqEventfds ∈ t ∧ .mapDma ∉ t ∧ ∀ tx, .closeEventfd tx ∉ t
  | .unmapDma => Mapped t ∧ enabled t = false
  | .munmapBuffer => BufferMapped t ∧ ¬ Mapped t
  | .writeStatus v => CommonMapped t ∧ (v.testBit 2 = true → Mapped t)
  | .enableQueue => CommonMapped t ∧ Mapped t
  | .writeCommon _ | .selectQueue _ => CommonMapped t
  | .closeEventfd _ => .mapDma ∈ t → irqBound t = false
  | .setIrqEventfds => .mapDma ∉ t
  | _ => True

abbrev Orderly (t : List Effect) : Prop := Always Allowed t

section Traces

variable {t a b : List Effect} {e : Effect}

theorem mapped_concat (hmap : e ≠ .mapDma) (hunmap : e ≠ .unmapDma) :
    Mapped (t ++ [e]) ↔ Mapped t := by
  simp [Mapped, hmap.symm, hunmap.symm]

/-- What is mapped for the device is not freed. -/
theorem Orderly.bufferMapped (h : Orderly t) (hm : Mapped t) : BufferMapped t := by
  induction t using List.reverseRecOn with
  | nil => cases hm.1
  | append_singleton t e ih =>
    obtain ⟨ht, he⟩ := always_concat.1 h
    by_cases hmap : e = .mapDma
    · subst hmap
      exact ⟨List.mem_append_left _ he.1.1, by simpa using he.1.2⟩
    · have hunmap : e ≠ .unmapDma := by
        rintro rfl
        exact hm.2 (List.mem_append_right _ List.mem_cons_self)
      have hold := (mapped_concat hmap hunmap).1 hm
      have hfree : e ≠ .munmapBuffer := by
        rintro rfl
        exact he.2 hold
      obtain ⟨hin, hout⟩ := ih ht hold
      exact ⟨List.mem_append_left _ hin, by simpa using ⟨hout, hfree.symm⟩⟩

/-- **The device is only enabled while its memory is mapped.** -/
theorem Orderly.mapped_of_enabled (h : Orderly t) (hon : enabled t = true) : Mapped t := by
  induction t using List.reverseRecOn with
  | nil => cases hon
  | append_singleton t e ih =>
    obtain ⟨ht, he⟩ := always_concat.1 h
    have hmap : e ≠ .mapDma → e ≠ .unmapDma → Mapped t → Mapped (t ++ [e]) := fun h₁ h₂ =>
      (mapped_concat h₁ h₂).2
    unfold enabled at hon
    rw [switched_concat, Bool.and_eq_true, Bool.or_eq_true] at hon
    rcases hon.2 with hold | hnew
    · have hmapped := ih ht hold
      refine hmap ?_ ?_ hmapped
      · rintro rfl
        exact he.2.2.1 hmapped.1
      · rintro rfl
        exact absurd (hold.symm.trans he.2) Bool.noConfusion
    · cases e with
      | writeStatus v => exact hmap (by rintro ⟨⟩) (by rintro ⟨⟩) (he.2 hnew)
      | enableQueue => exact hmap (by rintro ⟨⟩) (by rintro ⟨⟩) he.2
      | _ => cases hnew

end Traces

/-! ## Guards -/

/-- What an object guards is in force; the IRQ index counts once the DMA memory is mapped. -/
def InForce (t : List Effect) : Object → Prop
  | .irqBindings => .mapDma ∈ t ∧ irqBound t = true
  | .commonMapping => CommonMapped t
  | .buffer => BufferMapped t
  | .dma => Mapped t
  | .resetGuard => enabled t = true
  | _ => False

/-- The effects that bear on what an object guards. -/
def Effect.concerns : Effect → Object → Bool
  | .setIrqEventfds, .irqBindings | .disableIrqIndex, .irqBindings | .mapDma, .irqBindings => true
  | .mmapCommon, .commonMapping | .munmapCommon, .commonMapping => true
  | .mmapBuffer, .buffer | .munmapBuffer, .buffer => true
  | .mapDma, .dma | .unmapDma, .dma => true
  | .writeStatus _, .resetGuard | .enableQueue, .resetGuard => true
  | _, _ => false

/-- The destructor of the object will act. -/
def State.active (s : State) : Object → Bool
  | .irqBindings => s.irqActive
  | .dma => s.dmaActive
  | .resetGuard => s.resetActive
  | _ => true

/-- While the object is active, what it guards is in force. -/
def Object.holds : Object → Bool
  | .commonMapping | .buffer | .dma => true
  | _ => false

theorem inForce_concat {t : List Effect} {e : Effect} {o : Object} (h : e.concerns o = false) :
    InForce (t ++ [e]) o ↔ InForce t o := by
  cases o with
  | irqBindings =>
    have hmap : e ≠ .mapDma := by
      rintro rfl
      cases h
    have hbound : irqBound (t ++ [e]) = irqBound t := by
      refine switched_concat_of_not (beq_eq_false_iff_ne.2 ?_) (beq_eq_false_iff_ne.2 ?_)
      · rintro rfl
        cases h
      · rintro rfl
        cases h
    simp [InForce, hbound, hmap.symm]
  | commonMapping =>
    have hmap : e ≠ .mmapCommon := by
      rintro rfl
      cases h
    have hunmap : e ≠ .munmapCommon := by
      rintro rfl
      cases h
    simp [InForce, CommonMapped, hmap.symm, hunmap.symm]
  | buffer =>
    have hmap : e ≠ .mmapBuffer := by
      rintro rfl
      cases h
    have hunmap : e ≠ .munmapBuffer := by
      rintro rfl
      cases h
    simp [InForce, BufferMapped, hmap.symm, hunmap.symm]
  | dma =>
    refine mapped_concat ?_ ?_
    · rintro rfl
      cases h
    · rintro rfl
      cases h
  | resetGuard =>
    have hsame : enabled (t ++ [e]) = enabled t := by
      apply switched_concat_of_not
      · cases e with
        | writeStatus v | enableQueue => cases h
        | _ => rfl
      · cases e with
        | writeStatus v => cases h
        | _ => rfl
    simp only [InForce, hsame]
  | vfio | rxIrq | txIrq | pciCommand | deviceCfgMapping | selection | rxNotifyMapping
  | txNotifyMapping => exact Iff.rfl

section Guards

/-- What is in force has an active guard on the stack. -/
def Covered (x : List Object) (s : State) : Prop :=
  ∀ o, InForce s.trace o → o ∈ x ∧ s.active o = true

def Kept (x : List Object) (s : State) : Prop :=
  ∀ o ∈ x, o.holds = true → s.active o = true → InForce s.trace o

variable (d : Setup)

/-- **The stack is in the order of declaration, and guards all that is in force.** -/
structure Guarded (x : List Object) (s : State) : Prop where
  order : x.Pairwise fun o p => p.rank < o.rank
  orderly : Orderly s.trace
  covered : Covered x s
  kept : Kept x s
  uses : ∀ o ∈ x, o = .selection ∨ o = .resetGuard → .commonMapping ∈ x
  covers : .resetGuard ∈ x → 21 ≤ d.inspectLength

variable {d} {x : List Object} {s s' : State} {e : Effect} {o : Object}

theorem Covered.emit (h : Covered x s) (ht : s'.trace = s.trace ++ [e])
    (hactive : ∀ p, e.concerns p = false → s'.active p = s.active p)
    (hnew : ∀ p, e.concerns p = true → InForce s'.trace p → p ∈ x ∧ s'.active p = true) :
    Covered x s' := by
  intro p hp
  cases hc : e.concerns p
  · rw [ht, inForce_concat hc] at hp
    rw [hactive p hc]
    exact h p hp
  · exact hnew p hc hp

theorem Covered.pop (h : Covered (o :: x) s) (ho : ¬ InForce s.trace o) : Covered x s := by
  intro p hp
  obtain ⟨hmem, hactive⟩ := h p hp
  rcases List.mem_cons.1 hmem with rfl | hmem
  · exact absurd hp ho
  · exact ⟨hmem, hactive⟩

theorem Covered.push (h : Covered x s) : Covered (o :: x) s := fun p hp =>
  ⟨List.mem_cons_of_mem _ (h p hp).1, (h p hp).2⟩

theorem Kept.emit (h : Kept x s) (ht : s'.trace = s.trace ++ [e])
    (hactive : ∀ p, e.concerns p = false → s'.active p = s.active p)
    (hnew : ∀ p ∈ x, e.concerns p = true → p.holds = true → s'.active p = true →
      InForce s'.trace p) : Kept x s' := by
  intro p hmem hholds hp
  cases hc : e.concerns p
  · rw [ht, inForce_concat hc]
    rw [hactive p hc] at hp
    exact h p hmem hholds hp
  · exact hnew p hmem hc hholds hp

theorem Kept.tail (h : Kept (o :: x) s) : Kept x s := fun p hmem => h p (List.mem_cons_of_mem _ hmem)

/-- Only members that guard nothing have changed. -/
theorem Guarded.congr (h : Guarded d x s) (ht : s'.trace = s.trace)
    (hactive : ∀ p, s'.active p = s.active p) : Guarded d x s' := by
  refine ⟨h.order, ?_, fun p => ?_, fun p => ?_, h.uses, h.covers⟩
  · rw [ht]
    exact h.orderly
  · rw [ht, hactive]
    exact h.covered p
  · rw [ht, hactive]
    exact h.kept p

/-- An effect that is in order. -/
theorem Guarded.emit (h : Guarded d x s) (ht : s'.trace = s.trace ++ [e])
    (hactive : ∀ p, e.concerns p = false → s'.active p = s.active p)
    (hallowed : Allowed s.trace e)
    (hnew : ∀ p, e.concerns p = true → InForce s'.trace p → p ∈ x ∧ s'.active p = true)
    (hkept : ∀ p ∈ x, e.concerns p = true → p.holds = true → s'.active p = true →
      InForce s'.trace p) : Guarded d x s' := by
  refine ⟨h.order, ?_, h.covered.emit ht hactive hnew, h.kept.emit ht hactive hkept, h.uses,
    h.covers⟩
  rw [ht]
  exact always_concat.2 ⟨h.orderly, hallowed⟩

/-! ## Destructors -/

/-- The other objects were declared before the one that is destroyed. -/
theorem Guarded.not_mem (h : Guarded d (o :: x) s) {p : Object} (hp : o.rank ≤ p.rank) : p ∉ x := by
  intro hmem
  have hlt := (List.pairwise_cons.1 h.order).1 p hmem
  omega

theorem Guarded.uses_tail (h : Guarded d (o :: x) s) :
    ∀ p ∈ x, p = .selection ∨ p = .resetGuard → .commonMapping ∈ x := by
  intro p hmem hp
  rcases List.mem_cons.1 (h.uses p (List.mem_cons_of_mem _ hmem) hp) with rfl | hcommon
  · refine absurd hmem (h.not_mem ?_)
    rcases hp with rfl | rfl <;> decide
  · exact hcommon

/-- What later objects guard is over. -/
theorem Guarded.not_inForce_above (h : Guarded d (o :: x) s) {p : Object} (hp : o.rank < p.rank) :
    ¬ InForce s.trace p := by
  intro hin
  rcases List.mem_cons.1 (h.covered p hin).1 with rfl | hmem
  · exact absurd hp (Nat.lt_irrefl _)
  · exact h.not_mem (Nat.le_of_lt hp) hmem

/-- An object goes that guards nothing. -/
theorem Guarded.drop (h : Guarded d (o :: x) s) (ho : ¬ InForce s.trace o) : Guarded d x s where
  order := (List.pairwise_cons.1 h.order).2
  orderly := h.orderly
  covered := h.covered.pop ho
  kept := h.kept.tail
  uses := h.uses_tail
  covers := fun hmem => h.covers (List.mem_cons_of_mem _ hmem)

/-- **An object goes, and gives up what it guards.** -/
theorem Guarded.release (h : Guarded d (o :: x) s) (ht : s'.trace = s.trace ++ [e])
    (hactive : ∀ p, e.concerns p = false → s'.active p = s.active p)
    (hallowed : Allowed s.trace e) (honly : ∀ p, e.concerns p = true → p = o)
    (hgone : ¬ InForce s'.trace o) : Guarded d x s' where
  order := (List.pairwise_cons.1 h.order).2
  orderly := by
    rw [ht]
    exact always_concat.2 ⟨h.orderly, hallowed⟩
  covered := by
    refine Covered.pop (h.covered.emit ht hactive fun p hc hp => ?_) hgone
    rw [honly p hc] at hp
    exact absurd hp hgone
  kept := by
    refine h.kept.tail.emit ht hactive fun p hmem hc => ?_
    rw [honly p hc] at hmem
    exact absurd hmem (h.not_mem (Nat.le_refl _))
  uses := h.uses_tail
  covers := fun hmem => h.covers (List.mem_cons_of_mem _ hmem)

/-- Eventfds are closed after the guard of the IRQ index is gone. -/
theorem Guarded.unbound (h : Guarded d x s) (hx : .irqBindings ∉ x) (hmap : .mapDma ∈ s.trace) :
    irqBound s.trace = false := by
  cases hbound : irqBound s.trace
  · rfl
  · exact absurd (h.covered .irqBindings ⟨hmap, hbound⟩).1 hx

/-- A guard that will not act guards nothing. -/
theorem Guarded.not_inForce (h : Guarded d x s) (ho : s.active o = false) : ¬ InForce s.trace o := by
  intro hin
  exact absurd ((h.covered o hin).2.symm.trans ho) Bool.noConfusion

/-- **Every destructor keeps it.** -/
theorem Guarded.destroy (swallowed : Bool) (h : Guarded d (o :: x) s) :
    Guarded d x (destroy d o swallowed s) := by
  cases o with
  | vfio | deviceCfgMapping | rxNotifyMapping | txNotifyMapping =>
    exact h.release rfl (fun _ _ => rfl) trivial (fun p hc => by cases p <;> cases hc) id
  | rxIrq | txIrq =>
    have hgone : Object.irqBindings ∉ x := h.not_mem (by decide)
    refine h.release rfl (fun _ _ => rfl) (fun hmap => ?_) (fun p hc => by cases p <;> cases hc) id
    exact (h.drop id).unbound hgone hmap
  | irqBindings =>
    cases hactive : s.irqActive
    · simp only [Teardown.destroy, noexcept, perform, hactive, Bool.false_eq_true, if_false,
        Option.getD_some]
      exact h.drop (h.not_inForce hactive)
    · simp only [Teardown.destroy, noexcept, perform, hactive, if_true, Option.getD_some]
      refine h.release rfl (fun p hc => ?_) trivial (fun p hc => ?_) fun hbound => ?_
      · cases p <;> first | rfl | cases hc
      · cases p <;> first | rfl | cases hc
      · have hoff : irqBound (s.trace ++ [.disableIrqIndex]) = false := switched_concat
        exact absurd (hbound.2.symm.trans hoff) Bool.noConfusion
  | pciCommand =>
    cases swallowed
    · cases hchanged : s.commandChanged
      · simp only [Teardown.destroy, noexcept, perform, hchanged, Bool.false_eq_true, if_false,
          Option.getD_some]
        exact h.drop id
      · simp only [Teardown.destroy, noexcept, perform, hchanged, Bool.false_eq_true, if_false,
          if_true, Option.getD_some]
        exact h.release rfl (fun _ _ => rfl) trivial (fun p hc => by cases p <;> cases hc) id
    · exact h.drop id
  | commonMapping =>
    refine h.release rfl (fun _ _ => rfl) trivial (fun p hc => by cases p <;> first | rfl | cases hc) ?_
    exact fun hmapped => hmapped.2 (List.mem_append_right _ List.mem_cons_self)
  | selection =>
    have hdrop := h.drop id
    have hcommon : CommonMapped s.trace :=
      h.kept .commonMapping (h.uses .selection List.mem_cons_self (Or.inl rfl)) rfl rfl
    simp only [Teardown.destroy, noexcept, perform]
    split
    · unfold State.mmio
      split
      · exact h.release (e := .selectQueue d.originalSelect) rfl (fun _ _ => rfl) hcommon
          (fun p hc => by cases p <;> cases hc) id
      · exact hdrop
    · exact hdrop
  | buffer =>
    have hbuffer := h.kept .buffer List.mem_cons_self rfl rfl
    refine h.release rfl (fun _ _ => rfl) ⟨hbuffer, h.not_inForce_above (p := .dma) (by decide)⟩
      (fun p hc => by cases p <;> first | rfl | cases hc) fun hin => ?_
    exact hin.2 (List.mem_append_right _ List.mem_cons_self)
  | dma =>
    cases hactive : s.dmaActive
    · simp only [Teardown.destroy, noexcept, perform, hactive, Bool.false_eq_true, if_false,
        Option.getD_some]
      exact h.drop (h.not_inForce hactive)
    · simp only [Teardown.destroy, noexcept, perform, hactive, if_true, Option.getD_some]
      have hmapped := h.kept .dma List.mem_cons_self rfl hactive
      have hdisabled := Bool.eq_false_iff.2 (h.not_inForce_above (p := .resetGuard) (by decide))
      refine h.release rfl (fun p hc => ?_) ⟨hmapped, hdisabled⟩ (fun p hc => ?_) fun hin => ?_
      · cases p <;> first | rfl | cases hc
      · cases p <;> first | rfl | cases hc
      · exact hin.2 (List.mem_append_right _ List.mem_cons_self)
  | resetGuard =>
    cases hactive : s.resetActive
    · simp only [Teardown.destroy, hactive, Bool.false_eq_true, if_false]
      exact h.drop (h.not_inForce hactive)
    · have hlength := h.covers List.mem_cons_self
      have hcommon := h.uses .resetGuard List.mem_cons_self (Or.inr rfl)
      simp only [Teardown.destroy, noexcept, perform, State.mmio, hactive, if_true,
        if_pos hlength, Option.getD_some]
      refine h.release rfl (fun _ _ => rfl) ⟨h.kept .commonMapping hcommon rfl rfl, ?_⟩
        (fun p hc => by cases p <;> first | rfl | cases hc) fun hin => ?_
      · rintro ⟨⟩
      · have hoff : enabled (s.trace ++ [.writeStatus 0]) = false := switched_concat
        exact absurd (hin.symm.trans hoff) Bool.noConfusion

/-! ## Constructors -/

/-- An object whose constructor has no effect. -/
theorem Guarded.push (h : Guarded d x s) (hbelow : ∀ p ∈ x, p.rank < o.rank)
    (ht : s'.trace = s.trace)
    (hactive : ∀ p, InForce s.trace p → s.active p = true → s'.active p = true)
    (hkept : ∀ p, p.holds = true → s'.active p = s.active p) (ho : o.holds = false)
    (huses : o = .selection ∨ o = .resetGuard → .commonMapping ∈ x)
    (hcovers : o = .resetGuard → 21 ≤ d.inspectLength) : Guarded d (o :: x) s' where
  order := List.pairwise_cons.2 ⟨hbelow, h.order⟩
  orderly := by
    rw [ht]
    exact h.orderly
  covered := by
    intro p hp
    rw [ht] at hp
    obtain ⟨hmem, hact⟩ := h.covered p hp
    exact ⟨List.mem_cons_of_mem _ hmem, hactive p hp hact⟩
  kept := by
    intro p hmem hholds hp
    rw [hkept p hholds] at hp
    rw [ht]
    rcases List.mem_cons.1 hmem with rfl | hmem
    · exact absurd (ho.symm.trans hholds) Bool.noConfusion
    · exact h.kept p hmem hholds hp
  uses := by
    intro p hmem hp
    rcases List.mem_cons.1 hmem with rfl | hmem
    · exact List.mem_cons_of_mem _ (huses hp)
    · exact List.mem_cons_of_mem _ (h.uses p hmem hp)
  covers := by
    intro hmem
    rcases List.mem_cons.1 hmem with heq | hmem
    · exact hcovers heq.symm
    · exact h.covers hmem

/-- An object whose constructor has an effect that is in order. -/
theorem Guarded.acquire (h : Guarded d x s) (hbelow : ∀ p ∈ x, p.rank < o.rank)
    (ht : s'.trace = s.trace ++ [e])
    (hactive : ∀ p, e.concerns p = false → s'.active p = s.active p)
    (hallowed : Allowed s.trace e)
    (hnew : ∀ p, e.concerns p = true → InForce s'.trace p → p ∈ o :: x ∧ s'.active p = true)
    (hkept : ∀ p ∈ o :: x, e.concerns p = true → p.holds = true → InForce s'.trace p)
    (ho : o.holds = true → e.concerns o = true) (huses : o ≠ .selection ∧ o ≠ .resetGuard) :
    Guarded d (o :: x) s' where
  order := List.pairwise_cons.2 ⟨hbelow, h.order⟩
  orderly := by
    rw [ht]
    exact always_concat.2 ⟨h.orderly, hallowed⟩
  covered := h.covered.push.emit ht hactive hnew
  kept := by
    intro p hmem hholds hp
    cases hc : e.concerns p
    · rcases List.mem_cons.1 hmem with rfl | hold
      · exact absurd (hc.symm.trans (ho hholds)) Bool.noConfusion
      · rw [ht, inForce_concat hc]
        rw [hactive p hc] at hp
        exact h.kept p hold hholds hp
    · exact hkept p hmem hc hholds
  uses := by
    intro p hmem hp
    rcases List.mem_cons.1 hmem with rfl | hmem
    · exact absurd hp (not_or.2 huses)
    · exact List.mem_cons_of_mem _ (h.uses p hmem hp)
  covers := by
    intro hmem
    rcases List.mem_cons.1 hmem with heq | hmem
    · exact absurd heq.symm huses.2
    · exact h.covers hmem

end Guards

/-! ## Before the DMA memory is mapped -/

section Preparing

variable (d : Setup)

/-- The effects of the DMA mapping and of the destructors. -/
def Effect.late : Effect → Bool
  | .mapDma | .unmapDma | .munmapBuffer | .munmapCommon | .closeEventfd _ => true
  | _ => false

def Fresh (t : List Effect) : Prop := ∀ e ∈ t, e.late = false

/-- The objects below rank `n` are declared, and nothing is released. -/
structure Preparing (n : Nat) (x : List Object) (s : State) : Prop where
  guarded : Guarded d x s
  below : ∀ o ∈ x, o.rank < n
  limit : n ≤ 9
  fresh : Fresh s.trace
  bindings : 3 < n → .irqBindings ∈ x
  active : 4 < n → s.irqActive = true ∧ .setIrqEventfds ∈ s.trace
  common : 5 < n → .commonMapping ∈ x
  covers : 7 < n → 21 ≤ d.inspectLength
  buffer : 8 < n → .buffer ∈ x

/-- The calls that prepare, with the objects below rank `n`. -/
def Act.prepares (n : Nat) : Act → Bool
  | .check | .writeCommand | .readCommand => true
  | .writeStatus v => 5 < n && !v.testBit 2
  | .writeCommon _ _ | .select _ => 5 < n
  | _ => false

variable {d} {n : Nat} {x : List Object} {s s' : State} {e : Effect} {o : Object}

theorem Fresh.not_mem {t : List Effect} (h : Fresh t) (he : e.late = true) : e ∉ t := fun hmem =>
  absurd ((h e hmem).symm.trans he) Bool.noConfusion

theorem Fresh.concat {t : List Effect} (h : Fresh t) (he : e.late = false) : Fresh (t ++ [e]) := by
  intro k hk
  rcases List.mem_append.1 hk with hk | hk
  · exact h k hk
  · rw [List.mem_singleton.1 hk]
    exact he

theorem Preparing.disabled (h : Preparing d n x s) : enabled s.trace = false := by
  cases hon : enabled s.trace
  · rfl
  · have hlt := h.below .resetGuard (h.guarded.covered .resetGuard hon).1
    have hle := h.limit
    exact absurd (show 10 < n from hlt) (by omega)

theorem Preparing.emit (h : Preparing d n x s) (ht : s'.trace = s.trace ++ [e])
    (hactive : s'.active = s.active) (hallowed : Allowed s.trace e) (hoff : e.enables = false)
    (hlate : e.late = false) (hquiet : ∀ p, e.concerns p = true → p = .resetGuard) :
    Preparing d n x s' := by
  have hstill : enabled s'.trace = false := by
    rw [ht]
    unfold enabled
    rw [switched_concat, hoff, Bool.or_false]
    have hdisabled := h.disabled
    unfold enabled at hdisabled
    rw [hdisabled, Bool.and_false]
  refine ⟨h.guarded.emit ht (fun p _ => by rw [hactive]) hallowed (fun p hc hin => ?_)
    (fun p _ hc hholds => ?_), h.below, h.limit, ?_, h.bindings, fun hn => ?_, h.common, h.covers,
    h.buffer⟩
  · rw [hquiet p hc] at hin
    exact absurd (hstill.symm.trans hin) Bool.noConfusion
  · rw [hquiet p hc] at hholds
    cases hholds
  · rw [ht]
    exact h.fresh.concat hlate
  · obtain ⟨hirq, hbound⟩ := h.active hn
    refine ⟨(congrFun hactive .irqBindings).trans hirq, ?_⟩
    rw [ht]
    exact List.mem_append_left _ hbound

theorem Preparing.commonMapped (h : Preparing d n x s) (hn : 5 < n) : CommonMapped s.trace :=
  h.guarded.kept .commonMapping (h.common hn) rfl rfl

theorem mmio_some {offset width : Nat} (hs : s.mmio d offset width e = some s') :
    offset + width ≤ d.inspectLength ∧ s' = s.emit e := by
  unfold State.mmio at hs
  split at hs
  · rename_i hle
    exact ⟨hle, (Option.some.inj hs).symm⟩
  · cases hs

theorem Preparing.perform {a : Act} (h : Preparing d n x s) (ha : a.prepares n = true)
    (hs : perform d a s = some s') : Preparing d n x s' := by
  cases a with
  | check =>
    cases hs
    exact h
  | writeCommand =>
    cases hs
    exact h.emit (e := .writeCommand) rfl rfl trivial rfl rfl fun p hc => by cases p <;> cases hc
  | readCommand =>
    cases hs
    exact ⟨h.guarded.congr rfl fun _ => rfl, h.below, h.limit, h.fresh, h.bindings, h.active,
      h.common, h.covers, h.buffer⟩
  | writeStatus v =>
    obtain ⟨-, rfl⟩ := mmio_some hs
    obtain ⟨hn, hoff⟩ := Bool.and_eq_true_iff.1 ha
    have hbit : v.testBit 2 = false := by simpa using hoff
    have hallowed : Allowed s.trace (.writeStatus v) :=
      ⟨h.commonMapped (of_decide_eq_true hn),
        fun hon => absurd (hbit.symm.trans hon) Bool.noConfusion⟩
    exact h.emit rfl rfl hallowed hbit rfl fun p hc => by cases p <;> first | rfl | cases hc
  | writeCommon offset width =>
    obtain ⟨-, rfl⟩ := mmio_some hs
    exact h.emit rfl rfl (h.commonMapped (of_decide_eq_true ha)) rfl rfl fun p hc => by cases p <;> cases hc
  | select queue =>
    obtain ⟨s₁, hmmio, rfl⟩ := Option.map_eq_some_iff.1 hs
    obtain ⟨-, rfl⟩ := mmio_some hmmio
    exact h.emit (e := .selectQueue queue) rfl rfl (h.commonMapped (of_decide_eq_true ha)) rfl rfl
      fun p hc => by cases p <;> cases hc
  | _ => cases ha

theorem Object.eq_of_rank {o p : Object} (h : o.rank = p.rank) : o = p := by
  cases o <;> cases p <;> first | rfl | cases h

/-- What is left to show when the next object is there. -/
theorem Preparing.next (h : Preparing d o.rank x s) (ho : o.rank < 9)
    (hguarded : Guarded d (o :: x) s')
    (hfresh : Fresh s'.trace)
    (hactive : 3 < o.rank → s'.irqActive = true ∧ .setIrqEventfds ∈ s'.trace)
    (hlength : o = .selection → 21 ≤ d.inspectLength) : Preparing d (o.rank + 1) (o :: x) s' := by
  have hmem : ∀ p : Object, (p.rank < o.rank → p ∈ x) → p.rank < o.rank + 1 → p ∈ o :: x := by
    intro p hold hlt
    rcases Nat.lt_or_eq_of_le (Nat.le_of_lt_succ hlt) with hlt | heq
    · exact List.mem_cons_of_mem _ (hold hlt)
    · rw [Object.eq_of_rank heq]
      exact List.mem_cons_self
  refine ⟨hguarded, fun p hp => ?_, ho, hfresh, hmem .irqBindings h.bindings,
    fun hn => hactive (Nat.lt_of_succ_lt_succ hn), hmem .commonMapping h.common, fun hn => ?_,
    hmem .buffer h.buffer⟩
  · rcases List.mem_cons.1 hp with rfl | hp
    · exact Nat.lt_succ_self _
    · exact Nat.lt_succ_of_lt (h.below p hp)
  · rcases Nat.lt_or_eq_of_le (Nat.le_of_lt_succ hn) with hlt | heq
    · exact h.covers hlt
    · exact hlength (Object.eq_of_rank (p := .selection) heq.symm)

/-- **The next object is declared.** -/
theorem Preparing.declare (h : Preparing d o.rank x s) (ho : o.rank < 9)
    (hirq : o = .pciCommand → s.irqActive = true ∧ .setIrqEventfds ∈ s.trace)
    (hlength : o = .selection → 21 ≤ d.inspectLength) (hs : construct o s = some s') :
    Preparing d (o.rank + 1) (o :: x) s' := by
  have hactive : 3 < o.rank → s.irqActive = true ∧ .setIrqEventfds ∈ s.trace := by
    intro hn
    rcases Nat.lt_or_eq_of_le hn with hlt | heq
    · exact h.active hlt
    · exact hirq (Object.eq_of_rank (p := .pciCommand) heq.symm)
  have hemit : ∀ e, 3 < o.rank → s.irqActive = true ∧ .setIrqEventfds ∈ s.trace ++ [e] :=
    fun _ hn => ⟨(hactive hn).1, List.mem_append_left _ (hactive hn).2⟩
  cases o with
  | vfio | rxIrq | txIrq | deviceCfgMapping =>
    cases hs
    refine h.next ho (h.guarded.acquire h.below rfl (fun _ _ => rfl) trivial
      (fun p hc => by cases p <;> cases hc) (fun p _ hc => by cases p <;> cases hc) nofun
      (by decide)) (h.fresh.concat rfl) (hemit _) hlength
  | irqBindings =>
    cases hs
    refine h.next ho (h.guarded.push h.below rfl (fun p hin hact => ?_) (fun p hholds => ?_) rfl
      nofun nofun) h.fresh (fun hn => absurd hn (by decide)) hlength
    · cases p with
      | irqBindings => exact absurd hin.1 (h.fresh.not_mem rfl)
      | _ => exact hact
    · cases p with
      | irqBindings => cases hholds
      | _ => rfl
  | pciCommand =>
    cases hs
    exact h.next ho (h.guarded.push h.below rfl (fun _ _ hact => hact) (fun _ _ => rfl) rfl
      nofun nofun) h.fresh hactive hlength
  | commonMapping =>
    cases hs
    refine h.next ho (h.guarded.acquire h.below rfl (fun _ _ => rfl) trivial (fun p hc _ => ?_)
      (fun p _ hc _ => ?_) (fun _ => rfl) (by decide)) (h.fresh.concat rfl) (hemit _) hlength
    · cases p <;> first | exact ⟨List.mem_cons_self, rfl⟩ | cases hc
    · have hin : CommonMapped (s.trace ++ [.mmapCommon]) :=
        ⟨List.mem_append_right _ List.mem_cons_self, by simpa using h.fresh.not_mem (e := .munmapCommon) rfl⟩
      cases p <;> first | exact hin | cases hc
  | selection =>
    cases hs
    exact h.next ho (h.guarded.push h.below rfl (fun _ _ hact => hact) (fun _ _ => rfl) rfl
      (fun _ => h.common (by decide)) nofun) h.fresh hactive hlength
  | buffer =>
    cases hs
    refine h.next ho (h.guarded.acquire h.below rfl (fun _ _ => rfl) trivial (fun p hc _ => ?_)
      (fun p _ hc _ => ?_) (fun _ => rfl) (by decide)) (h.fresh.concat rfl) (hemit _) hlength
    · cases p <;> first | exact ⟨List.mem_cons_self, rfl⟩ | cases hc
    · have hin : BufferMapped (s.trace ++ [.mmapBuffer]) :=
        ⟨List.mem_append_right _ List.mem_cons_self, by simpa using h.fresh.not_mem (e := .munmapBuffer) rfl⟩
      cases p <;> first | exact hin | cases hc
  | dma | resetGuard | rxNotifyMapping | txNotifyMapping => exact absurd ho (by decide)

end Preparing

/-! ### The code before the DMA mapping -/

section Setups

variable {d : Setup} {n : Nat}

/-- A `check` changes nothing. -/
theorem check_triple {P : List Object → State → Prop} (hP : ∀ x s, P x s → Guarded d x s) :
    (driver d).Triple (Guarded d) P (.act .check) P := by
  refine .act hP fun x s s' h hs => ?_
  cases hs
  exact h

theorem prepare_calls {p : Code} (hp : p.calls (·.prepares n) = true) :
    (driver d).Triple (Guarded d) (Preparing d n) p (Preparing d n) :=
  .of_calls (fun _ _ h => h.guarded) (fun _ ha _ _ _ h hs => h.perform ha hs) hp

theorem prepare_declare (o : Object) (ho : o.rank < 9) (hirq : o ≠ .pciCommand)
    (hlength : o = .selection → 21 ≤ d.inspectLength) :
    (driver d).Triple (Guarded d) (Preparing d o.rank) (.declare o) (Preparing d (o.rank + 1)) :=
  .declare (fun _ _ h => h.guarded) fun _ _ _ h hs =>
    h.declare ho (fun heq => absurd heq hirq) hlength hs

/-- The IRQ index is bound, and its guard is active. -/
def Bound (d : Setup) (x : List Object) (s : State) : Prop :=
  Preparing d 4 x s ∧ s.irqActive = true ∧ .setIrqEventfds ∈ s.trace

theorem bind_triple : (driver d).Triple (Guarded d) (Preparing d 4) (.act .setIrqEventfds)
    fun x s => Preparing d 4 x s ∧ .setIrqEventfds ∈ s.trace := by
  refine .act (fun _ _ h => h.guarded) fun x s s' h hs => ?_
  cases hs
  have hmap : .mapDma ∉ s.trace := h.fresh.not_mem rfl
  refine ⟨⟨h.guarded.emit rfl (fun _ _ => rfl) hmap (fun p hc hin => ?_) (fun p _ hc hholds => ?_),
    h.below, h.limit, h.fresh.concat rfl, h.bindings, fun hn => absurd hn (by decide), h.common, h.covers,
    h.buffer⟩, List.mem_append_right _ List.mem_cons_self⟩
  · cases p with
    | irqBindings => exact absurd hin.1 (by simpa [State.emit] using hmap)
    | _ => cases hc
  · cases p with
    | irqBindings => cases hholds
    | _ => cases hc

theorem activate_triple : (driver d).Triple (Guarded d)
    (fun x s => Preparing d 4 x s ∧ .setIrqEventfds ∈ s.trace) (.act .activate) (Bound d) := by
  refine .act (fun _ _ h => h.1.guarded) fun x s s' ⟨h, hbound⟩ hs => ?_
  cases hs
  refine ⟨⟨⟨h.guarded.order, h.guarded.orderly, fun p hin => ?_, fun p hmem hholds hact => ?_,
    h.guarded.uses, h.guarded.covers⟩, h.below, h.limit, h.fresh, h.bindings,
    fun hn => absurd hn (by decide), h.common, h.covers, h.buffer⟩, rfl, hbound⟩
  · cases p with
    | irqBindings => exact absurd hin.1 (h.fresh.not_mem rfl)
    | _ => exact h.guarded.covered _ hin
  · cases p with
    | irqBindings => cases hholds
    | _ => exact h.guarded.kept _ hmem hholds hact

theorem declare_pciCommand :
    (driver d).Triple (Guarded d) (Bound d) (.declare .pciCommand) (Preparing d 5) :=
  .declare (fun _ _ h => h.1.guarded) fun _ _ _ h hs =>
    h.1.declare (o := .pciCommand) (by decide) (fun _ => h.2) nofun hs

/-- The first write of the status shows that the mapping covers it. -/
theorem negotiate_triple : (driver d).Triple (Guarded d) (Preparing d 7) negotiateMinimalFeatures
    fun x s => Preparing d 7 x s ∧ 21 ≤ d.inspectLength :=
  .cons (.cons (.act (fun _ _ h => h.guarded)
      fun _ _ _ h hs => ⟨h.perform (a := .writeStatus 0) rfl hs, (mmio_some hs).1⟩)
    (prepare_calls rfl).frame) (prepare_calls rfl).frame

/-- With one vector there is no `tx_irq`. -/
theorem txIrq_triple : (driver d).Triple (Guarded d) (Preparing d 2)
    (if d.sharedVector then .act .check else .declare .txIrq) (Preparing d 3) := by
  split
  · refine (prepare_calls rfl).post fun x s h => ?_
    exact ⟨h.guarded, fun o ho => Nat.lt_succ_of_lt (h.below o ho), by decide, h.fresh,
      fun hn => absurd hn (by decide), fun hn => absurd hn (by decide),
      fun hn => absurd hn (by decide), fun hn => absurd hn (by decide),
      fun hn => absurd hn (by decide)⟩
  · exact prepare_declare .txIrq (by decide) nofun nofun

theorem setup_triple :
    (driver d).Triple (Guarded d) (Preparing d 0) (setup d) (Preparing d 9) := by
  refine .cons (prepare_declare .vfio (by decide) nofun nofun) ?_
  refine .cons (prepare_calls rfl) ?_
  refine .cons (prepare_declare .rxIrq (by decide) nofun nofun) ?_
  refine .cons txIrq_triple ?_
  refine .cons (prepare_declare .irqBindings (by decide) nofun nofun) ?_
  refine .cons bind_triple ?_
  refine .cons (check_triple fun _ _ h => h.1.guarded) ?_
  refine .cons activate_triple ?_
  refine .cons (check_triple fun _ _ h => h.1.guarded) ?_
  refine .cons declare_pciCommand ?_
  refine .cons (prepare_calls (p := enableBusMastering) rfl) ?_
  refine .cons (prepare_calls rfl) ?_
  refine .cons (prepare_declare .commonMapping (by decide) nofun nofun) ?_
  refine .cons (prepare_declare .deviceCfgMapping (by decide) nofun nofun) ?_
  refine .cons (prepare_calls rfl) ?_
  refine .cons negotiate_triple ?_
  refine .cons (prepare_calls rfl).frame ?_
  refine .cons (.assume fun hlength => prepare_declare .selection (by decide) nofun fun _ => hlength) ?_
  refine .cons (prepare_calls rfl) ?_
  refine .cons (prepare_calls rfl) ?_
  refine .cons (prepare_calls rfl) ?_
  refine .cons (prepare_calls rfl) ?_
  refine .cons (prepare_declare .buffer (by decide) nofun nofun) ?_
  exact .last (prepare_calls rfl)

end Setups

/-! ## While the DMA memory is mapped -/

section Serving

variable (d : Setup)

/-- The DMA memory is mapped, and from rank `11` on the reset guard is armed. -/
structure Serving (n : Nat) (x : List Object) (s : State) : Prop where
  guarded : Guarded d x s
  below : ∀ o ∈ x, o.rank < n
  mapped : Mapped s.trace
  common : .commonMapping ∈ x
  covers : 21 ≤ d.inspectLength
  armed : 10 < n → .resetGuard ∈ x ∧ s.resetActive = true

/-- The calls that serve, with the objects below rank `n`. -/
def Act.serves (n : Nat) : Act → Bool
  | .check | .writeCommon _ _ | .select _ | .restoreSelect | .notify _ | .disable => true
  | .writeStatus _ | .setDriverOk | .enableQueue => 10 < n
  | _ => false

variable {d} {n : Nat} {x : List Object} {s s' : State} {e : Effect} {o : Object}

theorem Serving.commonMapped (h : Serving d n x s) : CommonMapped s.trace :=
  h.guarded.kept .commonMapping h.common rfl rfl

/-- An effect that maps and binds nothing; only with the reset guard it may enable. -/
theorem Serving.emit (h : Serving d n x s) (ht : s'.trace = s.trace ++ [e])
    (hreset : s'.resetActive = s.resetActive)
    (hactive : ∀ p, e.concerns p = false → s'.active p = s.active p)
    (hallowed : Allowed s.trace e)
    (hguard : ∀ p, e.concerns p = true →
      p = .resetGuard ∧ 10 < n ∨ p = .irqBindings ∧ irqBound s'.trace = false) :
    Serving d n x s' := by
  have hdma : e.concerns .dma = false := by
    cases hc : e.concerns .dma
    · rfl
    · rcases hguard .dma hc with ⟨heq, -⟩ | ⟨heq, -⟩
      · cases heq
      · cases heq
  refine ⟨h.guarded.emit ht hactive hallowed (fun p hc hin => ?_) (fun p _ hc hholds => ?_),
    h.below, ?_, h.common, h.covers, fun hn => ?_⟩
  · rcases hguard p hc with ⟨rfl, hn⟩ | ⟨rfl, hoff⟩
    · refine ⟨(h.armed hn).1, ?_⟩
      show s'.resetActive = true
      rw [hreset]
      exact (h.armed hn).2
    · exact absurd (hoff.symm.trans hin.2) Bool.noConfusion
  · rcases hguard p hc with ⟨rfl, -⟩ | ⟨rfl, -⟩
    · cases hholds
    · cases hholds
  · have hin : InForce s'.trace .dma := by
      rw [ht, inForce_concat hdma]
      exact h.mapped
    exact hin
  · rw [hreset]
    exact h.armed hn

theorem Serving.disable (h : Serving d n x s) :
    Serving d n x { s.emit .disableIrqIndex with irqActive := false } := by
  refine h.emit rfl rfl (fun p hc => ?_) trivial fun p hc => Or.inr ⟨?_, switched_concat⟩
  · cases p <;> first | rfl | cases hc
  · cases p <;> first | rfl | cases hc

theorem Serving.congr (h : Serving d n x s) (ht : s'.trace = s.trace)
    (hactive : s'.active = s.active) : Serving d n x s' := by
  refine ⟨h.guarded.congr ht fun p => by rw [hactive], h.below, ?_, h.common, h.covers,
    fun hn => ⟨(h.armed hn).1, ?_⟩⟩
  · rw [ht]
    exact h.mapped
  · exact (congrFun hactive .resetGuard).trans (h.armed hn).2

/-- A write of COMMON_CFG. -/
theorem Serving.mmio (h : Serving d n x s) {offset width : Nat}
    (hs : s.mmio d offset width e = some s') (hallowed : Allowed s.trace e)
    (hguard : ∀ p, e.concerns p = true → p = .resetGuard ∧ 10 < n) : Serving d n x s' := by
  obtain ⟨-, rfl⟩ := mmio_some hs
  exact h.emit rfl rfl (fun _ _ => rfl) hallowed fun p hc => Or.inl (hguard p hc)

theorem Serving.writeStatus (h : Serving d n x s) (hn : 10 < n) {v : Nat}
    (hs : s.mmio d 20 1 (.writeStatus v) = some s') : Serving d n x s' := by
  refine h.mmio hs ⟨h.commonMapped, fun _ => h.mapped⟩ fun p hc => ⟨?_, hn⟩
  cases p <;> first | rfl | cases hc

theorem Serving.selectQueue (h : Serving d n x s) {queue : Nat}
    (hs : s.mmio d 22 2 (.selectQueue queue) = some s') : Serving d n x s' :=
  h.mmio hs h.commonMapped fun p hc => by cases p <;> cases hc

theorem Serving.perform {a : Act} (h : Serving d n x s) (ha : a.serves n = true)
    (hs : perform d a s = some s') : Serving d n x s' := by
  cases a with
  | check =>
    cases hs
    exact h
  | writeCommon offset width =>
    exact h.mmio hs h.commonMapped fun p hc => by cases p <;> cases hc
  | select queue =>
    obtain ⟨s₁, hmmio, rfl⟩ := Option.map_eq_some_iff.1 hs
    exact (h.selectQueue hmmio).congr rfl rfl
  | restoreSelect =>
    simp only [Teardown.perform] at hs
    split at hs
    · obtain ⟨s₁, hmmio, rfl⟩ := Option.map_eq_some_iff.1 hs
      exact (h.selectQueue hmmio).congr rfl rfl
    · cases hs
      exact h
  | notify tx =>
    cases hs
    exact h.emit (e := .notify tx) rfl rfl (fun _ _ => rfl) trivial fun p hc => by
      cases p <;> cases hc
  | disable =>
    simp only [Teardown.perform] at hs
    split at hs
    · cases hs
      exact h.disable
    · cases hs
      exact h
  | writeStatus v => exact h.writeStatus (of_decide_eq_true ha) hs
  | setDriverOk => exact h.writeStatus (of_decide_eq_true ha) hs
  | enableQueue =>
    refine h.mmio hs ⟨h.commonMapped, h.mapped⟩ fun p hc => ⟨?_, of_decide_eq_true ha⟩
    cases p <;> first | rfl | cases hc
  | _ => cases ha

/-- The DMA memory is mapped. -/
theorem dma_triple : (driver d).Triple (Guarded d) (Preparing d 9) (.declare .dma)
    (Serving d 10) := by
  refine .declare (fun _ _ h => h.guarded) fun x s s' h hs => ?_
  cases hs
  obtain ⟨hirq, hbound⟩ := h.active (by decide)
  have hunmap : .unmapDma ∉ s.trace := h.fresh.not_mem rfl
  have hmapped : Mapped (s.trace ++ [.mapDma]) :=
    ⟨List.mem_append_right _ List.mem_cons_self, by simpa using hunmap⟩
  have hbuf : BufferMapped s.trace := h.guarded.kept .buffer (h.buffer (by decide)) rfl rfl
  refine ⟨h.guarded.acquire h.below rfl (fun p hc => ?_) ⟨hbuf, hbound, h.fresh.not_mem rfl, fun _ => h.fresh.not_mem rfl⟩ (fun p hc _ => ?_)
    (fun p _ hc hholds => ?_) (fun _ => rfl) (by decide), fun p hp => ?_, hmapped,
    List.mem_cons_of_mem _ (h.common (by decide)), h.covers (by decide),
    fun hn => absurd hn (by decide)⟩
  · cases p <;> first | rfl | cases hc
  · cases p with
    | dma => exact ⟨List.mem_cons_self, rfl⟩
    | irqBindings => exact ⟨List.mem_cons_of_mem _ (h.bindings (by decide)), hirq⟩
    | _ => cases hc
  · cases p with
    | dma => exact hmapped
    | irqBindings => cases hholds
    | _ => cases hc
  · rcases List.mem_cons.1 hp with rfl | hp
    · decide
    · exact Nat.lt_succ_of_lt (h.below p hp)

/-- The device is going to be reset, whatever happens. -/
theorem resetGuard_triple : (driver d).Triple (Guarded d) (Serving d 10) (.declare .resetGuard)
    (Serving d 11) := by
  refine .declare (fun _ _ h => h.guarded) fun x s s' h hs => ?_
  cases hs
  refine ⟨h.guarded.push h.below rfl (fun p hin hact => ?_) (fun p hholds => ?_) rfl
    (fun _ => h.common) (fun _ => h.covers), fun p hp => ?_, h.mapped,
    List.mem_cons_of_mem _ h.common, h.covers, fun _ => ⟨List.mem_cons_self, rfl⟩⟩
  · cases p <;> first | rfl | exact hact
  · cases p <;> first | rfl | cases hholds
  · rcases List.mem_cons.1 hp with rfl | hp
    · decide
    · exact Nat.lt_succ_of_lt (h.below p hp)

/-- A notify window is mapped. -/
theorem notify_triple (ho : o = .rxNotifyMapping ∨ o = .txNotifyMapping) :
    (driver d).Triple (Guarded d) (Serving d o.rank) (.declare o) (Serving d (o.rank + 1)) := by
  refine .declare (fun _ _ h => h.guarded) fun x s s' h hs => ?_
  have hbelow : ∀ p ∈ o :: x, p.rank < o.rank + 1 := by
    intro p hp
    rcases List.mem_cons.1 hp with rfl | hp
    · exact Nat.lt_succ_self _
    · exact Nat.lt_succ_of_lt (h.below p hp)
  have hnext : ∀ tx, s' = s.emit (.mmapNotify tx) → 10 < o.rank → o.holds = false →
      o ≠ .selection ∧ o ≠ .resetGuard → Serving d (o.rank + 1) (o :: x) s' := by
    rintro tx rfl hn hholds huses
    obtain ⟨hreset, hactive⟩ := h.armed hn
    refine ⟨h.guarded.acquire (e := .mmapNotify tx) h.below rfl (fun _ _ => rfl) trivial
      (fun p hc => by cases p <;> cases hc) (fun p _ hc => by cases p <;> cases hc)
      (fun hh => absurd (hholds.symm.trans hh) Bool.noConfusion) huses, hbelow, ?_,
      List.mem_cons_of_mem _ h.common, h.covers, fun _ => ⟨List.mem_cons_of_mem _ hreset, hactive⟩⟩
    exact (mapped_concat (e := .mmapNotify tx) nofun nofun).2 h.mapped
  rcases ho with rfl | rfl
  · cases hs
    exact hnext false rfl (by decide) rfl (by decide)
  · cases hs
    exact hnext true rfl (by decide) rfl (by decide)

theorem serve_calls {p : Code} (hp : p.calls (·.serves n) = true) :
    (driver d).Triple (Guarded d) (Serving d n) p (Serving d n) :=
  .of_calls (fun _ _ h => h.guarded) (fun _ ha _ _ _ h hs => h.perform ha hs) hp

theorem serve_triple :
    (driver d).Triple (Guarded d) (Serving d 10) (serve d) (Serving d 13) := by
  refine .cons (serve_calls rfl) ?_
  refine .cons resetGuard_triple ?_
  refine .cons (serve_calls rfl) ?_
  refine .cons (serve_calls rfl) ?_
  refine .cons (serve_calls rfl) ?_
  refine .cons (notify_triple (Or.inl rfl)) ?_
  refine .cons (serve_calls rfl) ?_
  refine .cons (notify_triple (Or.inr rfl)) ?_
  exact serve_calls (p := .steps _) rfl

end Serving

/-! ## After the reset -/

section Stopped

variable (d : Setup)

/-- The device is reset; the mapping may be given up. -/
structure Stopped (x : List Object) (s : State) : Prop where
  guarded : Guarded d x s
  dma : .dma ∈ x
  off : enabled s.trace = false

def Act.stops : Act → Bool
  | .check | .disarm | .restoreCommand | .readBackCommand | .unmap => true
  | _ => false

variable {d} {x : List Object} {s s' : State}

theorem Stopped.disarm (h : Stopped d x s) : Stopped d x { s with resetActive := false } := by
  refine ⟨⟨h.guarded.order, h.guarded.orderly, fun p hin => ?_, fun p hmem hholds hact => ?_,
    h.guarded.uses, h.guarded.covers⟩, h.dma, h.off⟩
  · cases p with
    | resetGuard => exact absurd (h.off.symm.trans hin) Bool.noConfusion
    | _ => exact h.guarded.covered _ hin
  · cases p with
    | resetGuard => cases hholds
    | _ => exact h.guarded.kept _ hmem hholds hact

theorem Stopped.unmap (h : Stopped d x s) (hactive : s.dmaActive = true) :
    Stopped d x { s.emit .unmapDma with dmaActive := false } := by
  have hmapped : Mapped s.trace := h.guarded.kept .dma h.dma rfl hactive
  refine ⟨h.guarded.emit rfl (fun p hc => ?_) ⟨hmapped, h.off⟩ (fun p hc hin => ?_)
    (fun p _ hc _ hact => ?_), h.dma, ?_⟩
  · cases p <;> first | rfl | cases hc
  · cases p with
    | dma => exact absurd (List.mem_append_right _ List.mem_cons_self) hin.2
    | _ => cases hc
  · cases p with
    | dma => cases hact
    | _ => cases hc
  · have hsame : enabled (s.trace ++ [.unmapDma]) = enabled s.trace := switched_concat_of_not rfl rfl
    exact hsame.trans h.off

theorem Stopped.perform {a : Act} (h : Stopped d x s) (ha : a.stops = true)
    (hs : perform d a s = some s') : Stopped d x s' := by
  cases a with
  | check =>
    cases hs
    exact h
  | disarm =>
    cases hs
    exact h.disarm
  | restoreCommand =>
    simp only [Teardown.perform] at hs
    split at hs
    · cases hs
      refine ⟨h.guarded.emit (e := .writeCommand) rfl (fun _ _ => rfl) trivial
        (fun p hc => by cases p <;> cases hc) (fun p _ hc => by cases p <;> cases hc), h.dma, ?_⟩
      exact (switched_concat_of_not rfl rfl).trans h.off
    · cases hs
      exact h
  | readBackCommand =>
    cases hs
    exact ⟨h.guarded.congr rfl fun _ => rfl, h.dma, h.off⟩
  | unmap =>
    simp only [Teardown.perform] at hs
    split at hs
    · rename_i hactive
      cases hs
      exact h.unmap hactive
    · cases hs
      exact h
  | _ => cases ha

theorem stop_calls {p : Code} (hp : p.calls Act.stops = true) :
    (driver d).Triple (Guarded d) (Stopped d) p (Stopped d) :=
  .of_calls (fun _ _ h => h.guarded) (fun _ ha _ _ _ h hs => h.perform ha hs) hp

theorem reset_triple :
    (driver d).Triple (Guarded d) (Serving d 13) resetDevice (Stopped d) := by
  refine .cons (.act (fun _ _ h => h.guarded) fun x s s' h hs => ?_)
    (stop_calls (p := .steps _) rfl)
  have hnext := h.writeStatus (by decide) hs
  obtain ⟨-, rfl⟩ := mmio_some hs
  refine ⟨hnext.guarded, ?_, switched_concat⟩
  exact (hnext.guarded.covered .dma hnext.mapped).1

theorem cleanup_triple : (driver d).Triple (Guarded d) (Serving d 13) cleanup (Stopped d) := by
  refine .cons (serve_calls rfl) ?_
  refine .cons (serve_calls rfl) ?_
  refine .cons (serve_calls rfl) ?_
  refine .cons (serve_calls rfl) ?_
  refine .cons reset_triple ?_
  exact stop_calls (p := .steps _) rfl

end Stopped

/-! ## Every path -/

section Paths

variable {d : Setup} {c : Config Act Object State} {s : State} {es : List Turn}

theorem init_preparing : Preparing d 0 [] init where
  guarded := ⟨List.Pairwise.nil, always_nil, fun o hin => by
    cases o with
    | irqBindings => cases hin.1
    | commonMapping => cases hin.1
    | buffer => cases hin.1
    | dma => cases hin.1
    | resetGuard => cases hin
    | _ => exact hin.elim, nofun, nofun, nofun⟩
  below := nofun
  limit := by decide
  fresh := nofun
  bindings := nofun
  active := nofun
  common := nofun
  covers := nofun
  buffer := nofun

theorem runIrqEchoLoop_triple :
    (driver d).Triple (Guarded d) (Preparing d 0) (runIrqEchoLoop d) (Stopped d) :=
  .cons setup_triple (.cons dma_triple (.cons serve_triple (.last cleanup_triple)))

/-- **At every point of every path** what is in force is guarded. -/
theorem Guarded.of_run (h : (machine d).run es = some c) : Guarded d c.scope c.state :=
  Scoped.run_inv (runIrqEchoLoop_triple.post (fun _ _ h => h.guarded) [] init init_preparing)
    (fun _ swallowed _ _ h => h.destroy swallowed) h

/-- What an orderly trace has come to when no object is left. -/
theorem Guarded.complete (h : Guarded d [] s) (hmap : .mapDma ∈ s.trace) :
    s.trace.count .unmapDma = 1 ∧ s.trace.count .munmapBuffer = 1 := by
  have hunmap : .unmapDma ∈ s.trace := by
    by_contra hnot
    cases (h.covered .dma ⟨hmap, hnot⟩).1
  have hbuffer : .mmapBuffer ∈ s.trace := by
    obtain ⟨a, b, ht⟩ := List.append_of_mem hmap
    rw [ht]
    exact List.mem_append_left _ (h.orderly a _ b ht).1.1
  have hfree : .munmapBuffer ∈ s.trace := by
    by_contra hnot
    cases (h.covered .buffer ⟨hbuffer, hnot⟩).1
  constructor
  · apply Nat.le_antisymm (h.orderly.count_le_one (x := .unmapDma) fun a ha => ha.1.2)
    exact List.count_pos_iff.2 hunmap
  · apply Nat.le_antisymm (h.orderly.count_le_one (x := .munmapBuffer) fun a ha => ha.1.2)
    exact List.count_pos_iff.2 hfree

/-- The DMA memory is mapped, and then unmapped before the buffer is freed. -/
theorem Orderly.unmapDma_mem {t a b : List Effect} (h : Orderly t) (hmap : .mapDma ∈ t)
    (ht : t = a ++ .munmapBuffer :: b) : .unmapDma ∈ a := by
  have hfree := h a _ b ht
  have hmem : .mapDma ∈ a := 
    h.mem_before (x := .munmapBuffer) nofun (fun _ hmapping => hmapping.1.2) hmap ht
  by_contra hnot
  exact hfree.2 ⟨hmem, hnot⟩

/-- The eventfds are closed when the IRQ index has been bound, and disabled after that. -/
theorem Orderly.irqDisabled {t a b : List Effect} {tx : Bool} (h : Orderly t)
    (hmap : .mapDma ∈ t) (ht : t = a ++ .closeEventfd tx :: b) :
    .setIrqEventfds ∈ a ∧ ∀ u w, a = u ++ .setIrqEventfds :: w → .disableIrqIndex ∈ w := by
  have hclose := h a _ b ht
  have hmem : .mapDma ∈ a := 
    h.mem_before (x := .closeEventfd tx) nofun (fun _ hmapping => hmapping.2.2.2 tx) hmap ht
  constructor
  · obtain ⟨u, w, hu⟩ := List.append_of_mem hmem
    have hbound := (h u .mapDma (w ++ .closeEventfd tx :: b) (by rw [ht, hu]; simp)).2.1
    rw [hu]
    exact List.mem_append_left _ hbound
  · intro u w hu
    obtain ⟨e, he, hoff⟩ := exists_off_of_switched (hclose hmem) hu rfl rfl
    rwa [eq_of_beq hoff] at he

/-- After every write that enables the device it is reset, and then the IOVA is unmapped. -/
theorem Orderly.reset_mem {t a b : List Effect} {e : Effect} (h : Orderly t) (hunmap : .unmapDma ∈ t)
    (ht : t = a ++ e :: b) (he : e.enables = true) :
    .unmapDma ∉ a ∧ ∃ u w, b = u ++ .unmapDma :: w ∧ .writeStatus 0 ∈ u := by
  have hmapped : Mapped a := by
    have hallowed := h a e b ht
    cases e with
    | writeStatus v => exact hallowed.2 he
    | enableQueue => exact hallowed.2
    | _ => cases he
  refine ⟨hmapped.2, ?_⟩
  rw [ht, List.mem_append, List.mem_cons] at hunmap
  rcases hunmap with hmem | heq | hmem
  · exact absurd hmem hmapped.2
  · rw [← heq] at he
    cases he
  · obtain ⟨u, w, rfl⟩ := List.append_of_mem hmem
    refine ⟨u, w, rfl, ?_⟩
    have hoff := (h (a ++ e :: u) .unmapDma w (by rw [ht]; simp)).2
    have hkeeps : e.resets = false := by
      cases e with
      | writeStatus v =>
        cases v with
        | zero => cases he
        | succ v => rfl
      | _ => rfl
    obtain ⟨k, hk, hreset⟩ := exists_off_of_switched hoff rfl he hkeeps
    cases k with
    | writeStatus v =>
      rw [eq_of_beq (a := v) (b := 0) hreset] at hk
      exact hk
    | _ => cases hreset

/-- **The driver is torn down in order**, on every path, with an exception at any call: the device
is never enabled without its DMA memory; when its status is reset, COMMON_CFG is still mapped.  If
the DMA memory was mapped, then the IRQ index is disabled before an eventfd is closed, and the IOVA
is unmapped before the buffer is freed; and when all objects are gone, both have happened once, with
a reset between the last write that enables the device and the unmapping. -/
theorem teardown_order (h : (machine d).run es = some c) :
    (∀ a b, c.state.trace = a ++ b → enabled a = true →
      .mapDma ∈ a ∧ .unmapDma ∉ a ∧ .munmapBuffer ∉ a) ∧
    (∀ a b, c.state.trace = a ++ .writeStatus 0 :: b → .mmapCommon ∈ a ∧ .munmapCommon ∉ a) ∧
    (.mapDma ∈ c.state.trace →
      (∀ a b tx, c.state.trace = a ++ .closeEventfd tx :: b →
        .setIrqEventfds ∈ a ∧ ∀ u w, a = u ++ .setIrqEventfds :: w → .disableIrqIndex ∈ w) ∧
      (∀ a b, c.state.trace = a ++ .munmapBuffer :: b → .unmapDma ∈ a) ∧
      (c.finished →
        c.state.trace.count .unmapDma = 1 ∧ c.state.trace.count .munmapBuffer = 1 ∧
        ∀ a b e, c.state.trace = a ++ e :: b → e.enables = true →
          .unmapDma ∉ a ∧ ∃ u w, b = u ++ .unmapDma :: w ∧ .writeStatus 0 ∈ u)) := by
  have hguarded := Guarded.of_run h
  have horderly := hguarded.orderly
  refine ⟨fun a b ht hon => ?_, fun a b ht => (horderly a _ b ht).1, fun hmap =>
    ⟨fun a b tx ht => horderly.irqDisabled hmap ht, fun a b ht => horderly.unmapDma_mem hmap ht,
      fun hfinished => ?_⟩⟩
  · have hpart : Orderly a := horderly.of_prefix ⟨b, ht.symm⟩
    have hmapped := hpart.mapped_of_enabled hon
    exact ⟨hmapped.1, hmapped.2, (hpart.bufferMapped hmapped).2⟩
  · rw [hfinished.2] at hguarded
    obtain ⟨hunmap, hfree⟩ := hguarded.complete hmap
    refine ⟨hunmap, hfree, fun a b e ht he => horderly.reset_mem ?_ ht he⟩
    exact List.count_pos_iff.1 (by omega)

/-- One vector for both queues, and no queue ever sees a packet. -/
def smallSetup : Setup := ⟨true, 56, 0, 1, 0⟩

/-- Everything succeeds up to `set_driver_ok`; the next call throws, and the objects go. -/
def smallPath : List Turn :=
  .replicate 22 .go ++ .left :: .replicate 30 .go ++ .right :: .replicate 9 .go ++
    .right :: .replicate 111 .go ++ .throw :: .replicate 12 .go

theorem teardown_order_small : ∃ c, (machine smallSetup).run smallPath = some c ∧ c.finished ∧
    c.state.trace.drop 37 = [.writeStatus 15, .munmapNotify true, .munmapNotify false,
      .writeStatus 0, .unmapDma, .munmapBuffer, .selectQueue 0, .munmapDeviceCfg, .munmapCommon,
      .disableIrqIndex, .closeEventfd false, .closeVfio] ∧
    c.state.trace.count .unmapDma = 1 ∧ c.state.trace.count .munmapBuffer = 1 := by
  have heval : ((machine smallSetup).run smallPath).map (fun c =>
      (c.todo.isNone, c.scope, decide (.mapDma ∈ c.state.trace), c.state.trace.drop 37)) =
      some (true, [], true, [.writeStatus 15, .munmapNotify true, .munmapNotify false,
        .writeStatus 0, .unmapDma, .munmapBuffer, .selectQueue 0, .munmapDeviceCfg, .munmapCommon,
        .disableIrqIndex, .closeEventfd false, .closeVfio]) := by decide +kernel
  obtain ⟨c, hrun, hc⟩ := Option.map_eq_some_iff.1 heval
  simp only [Prod.mk.injEq, decide_eq_true_eq, Option.isNone_iff_eq_none] at hc
  obtain ⟨htodo, hscope, hmap, htrace⟩ := hc
  have hfinished : c.finished := ⟨htodo, hscope⟩
  obtain ⟨hunmap, hfree, -⟩ := ((teardown_order hrun).2.2 hmap).2.2 hfinished
  exact ⟨c, hrun, hfinished, htrace, hunmap, hfree⟩

end Paths

end AdvCpp.Virtio.Teardown
