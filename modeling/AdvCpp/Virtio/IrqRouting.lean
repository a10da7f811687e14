import AdvCpp.Virtio.QueueMapping

/-!
# From a queue to the eventfd that is polled

`26_virtio_net_irq_echo_loop.cpp` writes an MSI-X vector into the registers of each queue and binds
the vectors to eventfds with one `vfio_irq_set`; with `NORESIZE` the call has to name all vectors of
the index.  A completion is noticed only if both agree.

* `irqSetBytes`, `decodeIrqSet` — the structure as `vfio_set_irq_eventfds` writes it and as the
  kernel reads it, `decode_irqSetBytes`.
* `IrqTable.setIrqs` — what the kernel makes of it.
* `bindInterrupts` — `validate_irq_vectors` and `bind_irq_eventfds`.
* `bindInterrupts_routes` — which vector signals which eventfd, and when the call succeeds.
* `completions_reach_poll` — the queues of the sample signal the eventfds that it polls.
-/

namespace AdvCpp.Virtio.IrqRouting

open AdvCpp.Lib AdvCpp.Vfio
open QueueSetup (Bank Device Placed Programmed QueueRegs irqQueues mapAt4GiB ofDmaLayout
  queueRegisters setupQueues)

/-! ## The source -/

def VFIO_IRQ_INFO_EVENTFD : UInt32 := 1
def VFIO_IRQ_INFO_NORESIZE : UInt32 := 8

def VFIO_IRQ_SET_DATA_NONE : Nat := 1
def VFIO_IRQ_SET_DATA_EVENTFD : Nat := 4
def VFIO_IRQ_SET_ACTION_TRIGGER : Nat := 32

structure VfioIrqInfo where
  flags : UInt32
  count : UInt32
  deriving DecidableEq

structure Options where
  irqIndex : UInt32
  rxVector : UInt16
  txVector : UInt16

/-- `sizeof(vfio_irq_set)` -/
def kIrqSetSize : Nat := 20

/-- The storage of a `vfio_irq_set`; the fields have 32 bits. -/
def irqSetBytes (flags index start : Nat) (eventFds : List Int32) : List UInt8 :=
  leBytes 4 (kIrqSetSize + 4 * eventFds.length) ++ leBytes 4 flags ++ leBytes 4 index ++
    leBytes 4 start ++ leBytes 4 eventFds.length ++
    eventFds.flatMap fun fd => leBytes 4 fd.toUInt32.toNat

/-- `vfio_set_irq_eventfds` -/
def setIrqEventfds (index start : Nat) (eventFds : List Int32) : List UInt8 :=
  irqSetBytes (VFIO_IRQ_SET_DATA_EVENTFD ||| VFIO_IRQ_SET_ACTION_TRIGGER) index start eventFds

/-- `vfio_disable_irq_index` -/
def disableIrqIndex (index : Nat) : List UInt8 :=
  irqSetBytes (VFIO_IRQ_SET_DATA_NONE ||| VFIO_IRQ_SET_ACTION_TRIGGER) index 0 []

def validateIrqVectors (numIrqs : UInt32) (irq : VfioIrqInfo) (o : Options) : Except String Unit := do
  ensure (o.irqIndex < numIrqs) ("IRQ index " ++ toString o.irqIndex.toNat ++
    " is outside num_irqs=" ++ toString numIrqs.toNat)
  ensure (irq.flags &&& VFIO_IRQ_INFO_EVENTFD ≠ 0)
    ("IRQ index " ++ toString o.irqIndex.toNat ++ " does not support eventfd delivery")
  ensure (o.rxVector.toNat < irq.count.toNat) ("rx-vector " ++ toString o.rxVector.toNat ++
    " is outside IRQ count=" ++ toString irq.count.toNat)
  ensure (o.txVector.toNat < irq.count.toNat) ("tx-vector " ++ toString o.txVector.toNat ++
    " is outside IRQ count=" ++ toString irq.count.toNat)

/-- A vector and its eventfd. -/
structure IrqEventfdBinding where
  vector : UInt16
  fd : Int32

/-- `start` and `event_fds` of `bind_irq_eventfds`. -/
def irqEventfds (irq : VfioIrqInfo) (rxIrq : IrqEventfdBinding) (txIrq : Option IrqEventfdBinding) :
    Nat × List Int32 :=
  let rx := rxIrq.vector.toNat
  let minVector := txIrq.elim rx fun tx => min rx tx.vector.toNat
  let maxVector := txIrq.elim rx fun tx => max rx tx.vector.toNat
  let noresize := irq.flags &&& VFIO_IRQ_INFO_NORESIZE ≠ 0
  let start := if noresize then 0 else minVector
  let count := if noresize then irq.count.toNat else maxVector - minVector + 1
  let eventFds := (List.replicate count (-1)).set (rx - start) rxIrq.fd
  (start, txIrq.elim eventFds fun tx => eventFds.set (tx.vector.toNat - start) tx.fd)

/-- `tx_irq`: the queues share a binding if their vectors are the same. -/
def txBinding (o : Options) (txFd : Int32) : Option IrqEventfdBinding :=
  if o.txVector ≠ o.rxVector then some ⟨o.txVector, txFd⟩ else none

/-- The eventfds that `poll_irq_events` polls. -/
def polledFds (rxIrq : IrqEventfdBinding) (txIrq : Option IrqEventfdBinding) : List Int32 :=
  rxIrq.fd :: (txIrq.map IrqEventfdBinding.fd).toList

/-! ## The kernel -/

/-- The vectors of each index, what they signal, and how many of them are enabled. -/
structure IrqTable where
  numIrqs : UInt32
  info : UInt32 → VfioIrqInfo
  route : Nat → Nat → Option Int32
  enabled : Nat → Nat

/-- The fields of a `vfio_irq_set`, with the data behind them. -/
structure IrqSet where
  argsz : Nat
  flags : Nat
  index : Nat
  start : Nat
  count : Nat
  data : List UInt8

/-- The next 32 bits. -/
def word (bytes : List UInt8) : Option (Nat × List UInt8) :=
  if 4 ≤ bytes.length then some (leValue (bytes.take 4), bytes.drop 4) else none

def decodeIrqSet (bytes : List UInt8) : Option IrqSet := do
  let (argsz, bytes) ← word bytes
  let (flags, bytes) ← word bytes
  let (index, bytes) ← word bytes
  let (start, bytes) ← word bytes
  let (count, bytes) ← word bytes
  return ⟨argsz, flags, index, start, count, bytes⟩

/-- The file descriptors in the data. -/
def decodeFds : Nat → List UInt8 → Option (List Int32)
  | 0, _ => some []
  | count + 1, bytes => do
    let (fd, bytes) ← word bytes
    let fds ← decodeFds count bytes
    return (UInt32.ofNat fd).toInt32 :: fds

namespace IrqTable

/-- The vectors from `start` on signal `fds`; -1 takes a signal away. -/
def assign (route : Nat → Option Int32) (start : Nat) (fds : List Int32) : Nat → Option Int32 :=
  fun v => if start ≤ v then
      match fds[v - start]? with
      | some fd => if fd = -1 then none else some fd
      | none => route v
    else route v

/-- The header names vectors of an index. -/
def InIndex (k : IrqTable) (s : IrqSet) : Prop :=
  kIrqSetSize ≤ s.argsz ∧ s.index < k.numIrqs.toNat ∧
    s.start < (k.info (UInt32.ofNat s.index)).count.toNat ∧
    s.start + s.count ≤ (k.info (UInt32.ofNat s.index)).count.toNat

/-- An index that cannot be resized keeps the vectors that it has been enabled with. -/
def Resizes (k : IrqTable) (s : IrqSet) : Prop :=
  (k.info (UInt32.ofNat s.index)).flags &&& VFIO_IRQ_INFO_NORESIZE ≠ 0 ∧
    k.enabled s.index ≠ 0 ∧ k.enabled s.index < s.start + s.count

instance decidableInIndex (k : IrqTable) (s : IrqSet) : Decidable (k.InIndex s) :=
  inferInstanceAs (Decidable (_ ∧ _))

instance decidableResizes (k : IrqTable) (s : IrqSet) : Decidable (k.Resizes s) :=
  inferInstanceAs (Decidable (_ ∧ _))

/-- The checks of the arguments, and what the call does then.  The kernel may also refuse because no
vectors are left to allocate or because another index is enabled; these failures are left out. -/
def handle (k : IrqTable) (s : IrqSet) : Option IrqTable :=
  if ¬k.InIndex s then none
  else if s.flags = VFIO_IRQ_SET_DATA_NONE ||| VFIO_IRQ_SET_ACTION_TRIGGER then
    -- without vectors this disables the index
    if s.count = 0 then
      some { k with
        route := Function.update k.route s.index fun _ => none
        enabled := Function.update k.enabled s.index 0 }
    else none
  else if s.flags ≠ VFIO_IRQ_SET_DATA_EVENTFD ||| VFIO_IRQ_SET_ACTION_TRIGGER then none
  else if ¬kIrqSetSize + 4 * s.count ≤ s.argsz ∨ k.Resizes s then none
  else (decodeFds s.count s.data).map fun fds =>
    { k with
      route := Function.update k.route s.index (assign (k.route s.index) s.start fds)
      enabled := Function.update k.enabled s.index (max (k.enabled s.index) (s.start + s.count)) }

/-- `VFIO_DEVICE_SET_IRQS`; `none` is `EINVAL`. -/
def setIrqs (k : IrqTable) (bytes : List UInt8) : Option IrqTable :=
  (decodeIrqSet bytes).bind k.handle

end IrqTable

/-- What `run_irq_echo_loop` does before the device is set up. -/
def bindInterrupts (k : IrqTable) (o : Options) (rxFd txFd : Int32) : Except String IrqTable := do
  let irq := k.info o.irqIndex
  validateIrqVectors k.numIrqs irq o
  let range := irqEventfds irq ⟨o.rxVector, rxFd⟩ (txBinding o txFd)
  (k.setIrqs (setIrqEventfds o.irqIndex.toNat range.1 range.2)).elim
    (.error "VFIO_DEVICE_SET_IRQS(eventfd trigger)") .ok

/-! ## The structure -/

section Decode

theorem word_leBytes (n : Nat) (rest : List UInt8) :
    word (leBytes 4 n ++ rest) = some (n % 2 ^ 32, rest) := by
  have hlen : (leBytes 4 n).length = 4 := leBytes_length 4 n
  have hle : 4 ≤ (leBytes 4 n ++ rest).length := by
    rw [List.length_append, hlen]
    omega
  rw [word, if_pos hle, List.take_left' hlen, List.drop_left' hlen, leValue_leBytes]
  rfl

theorem decodeFds_bytes (eventFds : List Int32) :
    decodeFds eventFds.length (eventFds.flatMap fun fd => leBytes 4 fd.toUInt32.toNat) =
      some eventFds := by
  induction eventFds with
  | nil => rfl
  | cons fd eventFds ih =>
    have hfd : (UInt32.ofNat (fd.toUInt32.toNat % 2 ^ 32)).toInt32 = fd := by
      rw [Nat.mod_eq_of_lt fd.toUInt32.toNat_lt, UInt32.ofNat_toNat, Int32.toInt32_toUInt32]
    rw [List.flatMap_cons, List.length_cons, decodeFds, word_leBytes]
    show (do
      let fds ← decodeFds eventFds.length _
      return (UInt32.ofNat (fd.toUInt32.toNat % 2 ^ 32)).toInt32 :: fds) = _
    rw [ih, hfd]
    rfl

/-- **The kernel reads what has been written**, up to 32 bits. -/
theorem decode_irqSetBytes (flags index start : Nat) (eventFds : List Int32) :
    decodeIrqSet (irqSetBytes flags index start eventFds) =
      some ⟨(kIrqSetSize + 4 * eventFds.length) % 2 ^ 32, flags % 2 ^ 32, index % 2 ^ 32,
        start % 2 ^ 32, eventFds.length % 2 ^ 32,
        eventFds.flatMap fun fd => leBytes 4 fd.toUInt32.toNat⟩ := by
  simp only [decodeIrqSet, irqSetBytes, List.append_assoc, word_leBytes, Option.bind_eq_bind,
    Option.bind_some]
  rfl

end Decode

/-! ## Which vector signals which eventfd -/

/-- The eventfd of a vector. -/
def signals (rxIrq : IrqEventfdBinding) (txIrq : Option IrqEventfdBinding) (v : Nat) : Option Int32 :=
  if v = rxIrq.vector.toNat then some rxIrq.fd
  else txIrq.bind fun tx => if v = tx.vector.toNat then some tx.fd else none

/-- The bindings fit an index: other vectors, other eventfds, and none is -1. -/
structure Bindable (irq : VfioIrqInfo) (rxIrq : IrqEventfdBinding) (txIrq : Option IrqEventfdBinding) :
    Prop where
  rx : rxIrq.vector.toNat < irq.count.toNat ∧ rxIrq.fd ≠ -1
  tx : ∀ tx ∈ txIrq, tx.vector.toNat < irq.count.toNat ∧ tx.fd ≠ -1 ∧ tx.vector ≠ rxIrq.vector

section Routes

variable {irq : VfioIrqInfo} {rxIrq : IrqEventfdBinding} {txIrq : Option IrqEventfdBinding}

/-- The range of the call is inside the index, and contains the vectors. -/
theorem Bindable.range (h : Bindable irq rxIrq txIrq) :
    let r := irqEventfds irq rxIrq txIrq
    r.1 + r.2.length ≤ irq.count.toNat ∧ (r.1 ≤ rxIrq.vector.toNat ∧
      rxIrq.vector.toNat < r.1 + r.2.length) ∧
      ∀ tx ∈ txIrq, r.1 ≤ tx.vector.toNat ∧ tx.vector.toNat < r.1 + r.2.length := by
  obtain ⟨hrx, -⟩ := h.rx
  cases txIrq with
  | none =>
    simp only [irqEventfds, Option.elim, List.length_set, List.length_replicate]
    refine ⟨?_, ?_, fun tx htx => by cases htx⟩
    · split <;> omega
    · split <;> omega
  | some tx =>
    obtain ⟨htx, -, -⟩ := h.tx tx rfl
    simp only [irqEventfds, Option.elim, List.length_set, List.length_replicate, Option.mem_def,
      Option.some.injEq, forall_eq']
    refine ⟨?_, ?_, ?_⟩
    · split <;> omega
    · split <;> omega
    · split <;> omega

/-- The entry of a vector in the range of the call. -/
theorem Bindable.entry (h : Bindable irq rxIrq txIrq) (v : Nat)
    (hv : (irqEventfds irq rxIrq txIrq).1 ≤ v ∧
      v < (irqEventfds irq rxIrq txIrq).1 + (irqEventfds irq rxIrq txIrq).2.length) :
    (irqEventfds irq rxIrq txIrq).2[v - (irqEventfds irq rxIrq txIrq).1]? =
      some ((signals rxIrq txIrq v).getD (-1)) := by
  obtain ⟨-, hrx, htx⟩ := h.range
  cases txIrq with
  | none =>
    simp only [irqEventfds, Option.elim, List.length_set, List.length_replicate] at hv hrx ⊢
    simp only [signals, Option.bind_none, List.getElem?_set, List.getElem?_replicate,
      List.length_replicate]
    by_cases hveq : v = rxIrq.vector.toNat
    · rw [if_pos (by omega), if_pos (by omega), if_pos hveq]
      rfl
    · rw [if_neg (by omega), if_pos (by omega), if_neg hveq]
      rfl
  | some tx =>
    obtain ⟨-, -, hne⟩ := h.tx tx rfl
    have hne' : tx.vector.toNat ≠ rxIrq.vector.toNat := fun heq => hne (UInt16.toNat_inj.1 heq)
    have htx := htx tx rfl
    simp only [irqEventfds, Option.elim, List.length_set, List.length_replicate] at hv hrx htx ⊢
    simp only [signals, Option.bind_some, List.getElem?_set, List.getElem?_replicate,
      List.length_replicate, List.length_set]
    by_cases hvtx : v = tx.vector.toNat
    · rw [if_pos (by omega), if_pos (by omega), if_neg (by omega), if_pos hvtx]
      rfl
    · rw [if_neg (by omega)]
      by_cases hvrx : v = rxIrq.vector.toNat
      · rw [if_pos (by omega), if_pos (by omega), if_pos hvrx]
        rfl
      · rw [if_neg (by omega), if_pos (by omega), if_neg hvrx, if_neg hvtx]
        rfl

/-- **The vectors after the call**, where none had an eventfd before. -/
theorem Bindable.assign (h : Bindable irq rxIrq txIrq) :
    IrqTable.assign (fun _ => none) (irqEventfds irq rxIrq txIrq).1 (irqEventfds irq rxIrq txIrq).2 =
      signals rxIrq txIrq := by
  obtain ⟨-, hrx, htx⟩ := h.range
  funext v
  by_cases hv : (irqEventfds irq rxIrq txIrq).1 ≤ v ∧
      v < (irqEventfds irq rxIrq txIrq).1 + (irqEventfds irq rxIrq txIrq).2.length
  · rw [IrqTable.assign, if_pos hv.1, h.entry v hv]
    show (if (signals rxIrq txIrq v).getD (-1) = -1 then none else some _) = _
    cases hsignal : signals rxIrq txIrq v with
    | none => rfl
    | some fd =>
      have hfd : fd ≠ -1 := by
        unfold signals at hsignal
        split at hsignal
        · cases hsignal
          exact h.rx.2
        · cases htxIrq : txIrq with
          | none =>
            rw [htxIrq] at hsignal
            cases hsignal
          | some tx =>
            rw [htxIrq, Option.bind_some] at hsignal
            split at hsignal
            · cases hsignal
              exact (h.tx tx htxIrq).2.1
            · cases hsignal
      show (if fd = -1 then none else some fd) = _
      rw [if_neg hfd]
  · -- outside the range there is no vector of the sample
    have hnone : signals rxIrq txIrq v = none := by
      unfold signals
      rw [if_neg fun heq => hv (by rw [heq]; exact hrx)]
      cases htxIrq : txIrq with
      | none => rfl
      | some tx => exact if_neg fun heq => hv (by rw [heq]; exact htx tx htxIrq)
    rw [hnone, IrqTable.assign]
    split
    · next hle =>
      have hout : (irqEventfds irq rxIrq txIrq).2[v - (irqEventfds irq rxIrq txIrq).1]? = none := by
        rw [List.getElem?_eq_none_iff]
        omega
      rw [hout]
    · rfl

end Routes

/-! ## The call -/

section Bind

variable {k k' : IrqTable} {o : Options} {rxFd txFd : Int32}

/-- What `validate_irq_vectors` checks. -/
def ValidVectors (k : IrqTable) (o : Options) : Prop :=
  o.irqIndex < k.numIrqs ∧ (k.info o.irqIndex).flags &&& VFIO_IRQ_INFO_EVENTFD ≠ 0 ∧
    o.rxVector.toNat < (k.info o.irqIndex).count.toNat ∧
    o.txVector.toNat < (k.info o.irqIndex).count.toNat

theorem validateIrqVectors_ok :
    validateIrqVectors k.numIrqs (k.info o.irqIndex) o = .ok () ↔ ValidVectors k o := by
  simp only [validateIrqVectors, ValidVectors, bind_eq_ok, ensure_eq_ok]
  constructor
  · rintro ⟨_, hindex, _, hflags, _, hrx, htx⟩
    exact ⟨hindex, hflags, hrx, htx⟩
  · rintro ⟨hindex, hflags, hrx, htx⟩
    exact ⟨(), hindex, (), hflags, (), hrx, htx⟩

theorem ValidVectors.bindable (h : ValidVectors k o) (hrx : rxFd ≠ -1) (htx : txFd ≠ -1) :
    Bindable (k.info o.irqIndex) ⟨o.rxVector, rxFd⟩ (txBinding o txFd) := by
  refine ⟨⟨h.2.2.1, hrx⟩, fun tx hmem => ?_⟩
  unfold txBinding at hmem
  split at hmem
  · next hne =>
    cases hmem
    exact ⟨h.2.2.2, htx, hne⟩
  · cases hmem

/-- The index is not used yet, and its `vfio_irq_set` fits 32 bits. -/
structure Unused (k : IrqTable) (index : UInt32) : Prop where
  route : k.route index.toNat = fun _ => none
  enabled : k.enabled index.toNat = 0
  fits : kIrqSetSize + 4 * (k.info index).count.toNat < 2 ^ 32

theorem handle_eventfds {s : IrqSet} {fds : List Int32} (hindex : k.InIndex s)
    (hflags : s.flags = VFIO_IRQ_SET_DATA_EVENTFD ||| VFIO_IRQ_SET_ACTION_TRIGGER)
    (hsize : kIrqSetSize + 4 * s.count ≤ s.argsz) (henabled : k.enabled s.index = 0)
    (hfds : decodeFds s.count s.data = some fds) :
    k.handle s = some { k with
      route := Function.update k.route s.index (IrqTable.assign (k.route s.index) s.start fds)
      enabled := Function.update k.enabled s.index (max (k.enabled s.index) (s.start + s.count)) } := by
  have hnone : s.flags ≠ VFIO_IRQ_SET_DATA_NONE ||| VFIO_IRQ_SET_ACTION_TRIGGER := by
    rw [hflags]
    decide
  have hrest : ¬(¬kIrqSetSize + 4 * s.count ≤ s.argsz ∨ k.Resizes s) := by
    rintro (hnot | hresizes)
    · exact hnot hsize
    · exact hresizes.2.1 henabled
  rw [IrqTable.handle, if_neg (not_not.2 hindex), if_neg hnone, if_neg (not_not.2 hflags),
    if_neg hrest, hfds]
  rfl

theorem handle_disable {s : IrqSet} (hindex : k.InIndex s)
    (hflags : s.flags = VFIO_IRQ_SET_DATA_NONE ||| VFIO_IRQ_SET_ACTION_TRIGGER)
    (hcount : s.count = 0) :
    k.handle s = some { k with
      route := Function.update k.route s.index fun _ => none
      enabled := Function.update k.enabled s.index 0 } := by
  rw [IrqTable.handle, if_neg (not_not.2 hindex), if_pos hflags, if_pos hcount]

/-- **The call for a range inside an unused index.** -/
theorem setIrqs_eventfds (hunused : Unused k o.irqIndex) (hindex : o.irqIndex < k.numIrqs)
    {start : Nat} {eventFds : List Int32} (hpos : 0 < eventFds.length)
    (hrange : start + eventFds.length ≤ (k.info o.irqIndex).count.toNat) :
    k.setIrqs (setIrqEventfds o.irqIndex.toNat start eventFds) = some { k with
      route := Function.update k.route o.irqIndex.toNat
        (IrqTable.assign (fun _ => none) start eventFds)
      enabled := Function.update k.enabled o.irqIndex.toNat (start + eventFds.length) } := by
  have hfits := hunused.fits
  have hlt := o.irqIndex.toNat_lt
  unfold kIrqSetSize at hfits
  let s : IrqSet := ⟨20 + 4 * eventFds.length, VFIO_IRQ_SET_DATA_EVENTFD ||| VFIO_IRQ_SET_ACTION_TRIGGER,
    o.irqIndex.toNat, start, eventFds.length, eventFds.flatMap fun fd => leBytes 4 fd.toUInt32.toNat⟩
  have hdecode : decodeIrqSet (setIrqEventfds o.irqIndex.toNat start eventFds) = some s := by
    rw [setIrqEventfds, decode_irqSetBytes]
    have hmod : ∀ n, n < 2 ^ 32 → n % 2 ^ 32 = n := fun n h => Nat.mod_eq_of_lt h
    rw [hmod _ (by unfold kIrqSetSize; omega), hmod o.irqIndex.toNat hlt, hmod start (by omega),
      hmod eventFds.length (by omega)]
    rfl
  have hinfo : k.info (UInt32.ofNat s.index) = k.info o.irqIndex := by
    show k.info (UInt32.ofNat o.irqIndex.toNat) = _
    rw [UInt32.ofNat_toNat]
  have hin : k.InIndex s := by
    unfold IrqTable.InIndex
    rw [hinfo]
    exact ⟨Nat.le_add_right _ _, UInt32.lt_iff_toNat_lt.1 hindex,
      Nat.lt_of_lt_of_le (Nat.lt_add_of_pos_right hpos) hrange, hrange⟩
  have hhandle := handle_eventfds hin rfl (Nat.le_refl _) hunused.enabled (decodeFds_bytes eventFds)
  rw [IrqTable.setIrqs, hdecode, Option.bind_some, hhandle]
  show some { k with
    route := Function.update k.route o.irqIndex.toNat
      (IrqTable.assign (k.route o.irqIndex.toNat) start eventFds)
    enabled := Function.update k.enabled o.irqIndex.toNat
      (max (k.enabled o.irqIndex.toNat) (start + eventFds.length)) } = _
  rw [hunused.route, hunused.enabled, Nat.zero_max]

/-- Disabling an index. -/
theorem setIrqs_disable (hindex : o.irqIndex < k.numIrqs)
    (hcount : 0 < (k.info o.irqIndex).count.toNat) :
    k.setIrqs (disableIrqIndex o.irqIndex.toNat) = some { k with
      route := Function.update k.route o.irqIndex.toNat fun _ => none
      enabled := Function.update k.enabled o.irqIndex.toNat 0 } := by
  let s : IrqSet := ⟨20, VFIO_IRQ_SET_DATA_NONE ||| VFIO_IRQ_SET_ACTION_TRIGGER,
    o.irqIndex.toNat, 0, 0, []⟩
  have hdecode : decodeIrqSet (disableIrqIndex o.irqIndex.toNat) = some s := by
    rw [disableIrqIndex, decode_irqSetBytes, Nat.mod_eq_of_lt o.irqIndex.toNat_lt]
    rfl
  have hin : k.InIndex s := by
    have hinfo : k.info (UInt32.ofNat s.index) = k.info o.irqIndex := by
      show k.info (UInt32.ofNat o.irqIndex.toNat) = _
      rw [UInt32.ofNat_toNat]
    unfold IrqTable.InIndex
    rw [hinfo]
    exact ⟨Nat.le_refl _, UInt32.lt_iff_toNat_lt.1 hindex, hcount, Nat.zero_le _⟩
  rw [IrqTable.setIrqs, hdecode, Option.bind_some, handle_disable hin rfl rfl]

/-- What `bind_irq_eventfds` leaves behind. -/
structure Bound (k : IrqTable) (o : Options) (rxFd txFd : Int32) (k' : IrqTable) : Prop where
  route : k'.route o.irqIndex.toNat = signals ⟨o.rxVector, rxFd⟩ (txBinding o txFd)
  others : ∀ i, i ≠ o.irqIndex.toNat → k'.route i = k.route i
  info : k'.info = k.info ∧ k'.numIrqs = k.numIrqs

/-- **Which vector signals which eventfd.**  On an unused index, with and without `NORESIZE`: the
call is made and accepted exactly if `validate_irq_vectors` finds the vectors in the index, and then
`rx_vector` signals the RX eventfd, `tx_vector` the TX eventfd unless it is the same vector, and no
other vector signals anything.  Disabling the index takes all signals away again. -/
theorem bindInterrupts_routes (k : IrqTable) (o : Options) (rxFd txFd : Int32) (hrx : rxFd ≠ -1)
    (htx : txFd ≠ -1) (hunused : Unused k o.irqIndex) :
    (ValidVectors k o → ∃ k', bindInterrupts k o rxFd txFd = .ok k' ∧ Bound k o rxFd txFd k' ∧
      ∃ k'', k'.setIrqs (disableIrqIndex o.irqIndex.toNat) = some k'' ∧
        ∀ v, k''.route o.irqIndex.toNat v = none) ∧
    (¬ValidVectors k o → ∃ e, bindInterrupts k o rxFd txFd = .error e) := by
  constructor
  · intro hvalid
    have hbindable := hvalid.bindable hrx htx
    obtain ⟨hrange, hrxIn, -⟩ := hbindable.range
    have hcall := setIrqs_eventfds hunused hvalid.1 (by omega) hrange
    rw [hbindable.assign] at hcall
    let k' : IrqTable := { k with
      route := Function.update k.route o.irqIndex.toNat
        (signals ⟨o.rxVector, rxFd⟩ (txBinding o txFd))
      enabled := Function.update k.enabled o.irqIndex.toNat
        ((irqEventfds (k.info o.irqIndex) ⟨o.rxVector, rxFd⟩ (txBinding o txFd)).1 +
          (irqEventfds (k.info o.irqIndex) ⟨o.rxVector, rxFd⟩ (txBinding o txFd)).2.length) }
    refine ⟨k', ?_, ⟨?_, fun i hi => ?_, rfl, rfl⟩, ?_⟩
    · rw [bindInterrupts, validateIrqVectors_ok.2 hvalid, ok_bind]
      exact congrArg (fun r : Option IrqTable => (r.elim
        (Except.error "VFIO_DEVICE_SET_IRQS(eventfd trigger)") Except.ok : Except String IrqTable)) hcall
    · exact Function.update_self ..
    · exact Function.update_of_ne hi ..
    · have hcount : 0 < (k'.info o.irqIndex).count.toNat := Nat.lt_of_le_of_lt (Nat.zero_le _) hvalid.2.2.1
      refine ⟨_, setIrqs_disable (k := k') hvalid.1 hcount, fun v => ?_⟩
      show Function.update k'.route _ (fun _ => none) o.irqIndex.toNat v = none
      rw [Function.update_self]
  · intro hinvalid
    cases hcheck : validateIrqVectors k.numIrqs (k.info o.irqIndex) o with
    | ok u => exact absurd (validateIrqVectors_ok.1 hcheck) hinvalid
    | error e => exact ⟨e, by rw [bindInterrupts, hcheck]; rfl⟩

end Bind

/-! ## From the registers to `poll` -/

/-- What a completion of a queue signals: the queue's registers name the vector. -/
def eventOf (k : IrqTable) (o : Options) (b : Bank) : Option Int32 :=
  k.route o.irqIndex.toNat b.msixVector.toNat

/-- The eventfd that is polled for the TX queue. -/
def txEvent (o : Options) (rxFd txFd : Int32) : Int32 :=
  if o.txVector ≠ o.rxVector then txFd else rxFd

section Poll

variable {k k' : IrqTable} {o : Options} {rxFd txFd : Int32} {iova : UInt64} {placed : Placed}
  {b : Bank}

theorem mem_polledFds : rxFd ∈ polledFds ⟨o.rxVector, rxFd⟩ (txBinding o txFd) ∧
    txEvent o rxFd txFd ∈ polledFds ⟨o.rxVector, rxFd⟩ (txBinding o txFd) := by
  unfold polledFds txEvent txBinding
  split
  · exact ⟨List.mem_cons_self, List.mem_cons_of_mem _ List.mem_cons_self⟩
  · exact ⟨List.mem_cons_self, List.mem_cons_self⟩

theorem Bound.eventOf_rx (h : Bound k o rxFd txFd k') (hb : b.msixVector = o.rxVector) :
    eventOf k' o b = some rxFd := by
  rw [eventOf, h.route, hb]
  exact if_pos rfl

theorem Bound.eventOf_tx (h : Bound k o rxFd txFd k') (hb : b.msixVector = o.txVector) :
    eventOf k' o b = some (txEvent o rxFd txFd) := by
  rw [eventOf, h.route, hb]
  unfold signals txBinding txEvent
  by_cases hne : o.txVector ≠ o.rxVector
  · have hne' : o.txVector.toNat ≠ o.rxVector.toNat := fun heq => hne (UInt16.toNat_inj.1 heq)
    rw [if_neg hne', if_pos hne, if_pos hne, Option.bind_some, if_pos rfl]
  · rw [if_neg hne, if_neg hne, not_not.1 hne, if_pos rfl]

/-- The eventfd of each of the two queues. -/
def Polled (o : Options) (rxFd txFd : Int32) (rxQueue txQueue queue : UInt16) (event : Option Int32) :
    Prop :=
  (queue = rxQueue ∧ event = some rxFd) ∨ (queue = txQueue ∧ event = some (txEvent o rxFd txFd))

theorem Bound.polled (h : Bound k o rxFd txFd k') {rxQueue txQueue : UInt16}
    (hmem : placed.1 ∈ irqQueues rxQueue txQueue o.rxVector o.txVector)
    (hb : Programmed iova placed b) :
    Polled o rxFd txFd rxQueue txQueue placed.1.index (eventOf k' o b) := by
  simp only [irqQueues, List.mem_cons, List.not_mem_nil, or_false] at hmem
  rcases hmem with heq | heq
  · have hvector := hb.vector o.rxVector (by rw [heq])
    exact .inl ⟨by rw [heq], h.eventOf_rx hvector⟩
  · have hvector := hb.vector o.txVector (by rw [heq])
    exact .inr ⟨by rw [heq], h.eventOf_tx hvector⟩

end Poll

/-- **The queues signal what is polled.**  After the vectors have been bound, the queues are set up:
on every path, against every device, each queue that the device has been told to use signals an
eventfd that `poll_irq_events` polls, the RX queue its own; and if the setup returns, this still
holds of the registers of both queues. -/
theorem completions_reach_poll (k k' : IrqTable) (o : Options) (rxFd txFd : Int32) (hrx : rxFd ≠ -1)
    (htx : txFd ≠ -1) (hunused : Unused k o.irqIndex)
    (hbind : bindInterrupts k o rxFd txFd = .ok k') (d : Device) (mapping : MappedRegion)
    (base : Nat) (rxQueue txQueue : UInt16) (mustDiffer : String) (requested : Option UInt16)
    (page align : UInt64) (rxBuffers txBuffers : UInt16) (rxBufferSize txBufferSize : UInt64)
    (mapDma : Nat → Except String Unit) (iova : UInt64) (s : QueueRegs) :
    let r := Shared.drive ((queueRegisters d).registers base)
      (setupQueues mapping base (irqQueues rxQueue txQueue o.rxVector o.txVector) mustDiffer requested
        (ofDmaLayout fun rx tx =>
          computeDmaLayoutTxBuffers page rx tx align rxBuffers txBuffers rxBufferSize txBufferSize)
        mapDma iova) s
    (∃ l, r.2.started = s.started ++ l ∧
      ∀ e ∈ l, Polled o rxFd txFd rxQueue txQueue e.1 (eventOf k' o e.2)) ∧
    (∀ views, r.1 = .ok views →
      eventOf k' o (r.2.bank rxQueue) = some rxFd ∧
        eventOf k' o (r.2.bank txQueue) = some (txEvent o rxFd txFd)) ∧
    rxFd ∈ polledFds ⟨o.rxVector, rxFd⟩ (txBinding o txFd) ∧
    txEvent o rxFd txFd ∈ polledFds ⟨o.rxVector, rxFd⟩ (txBinding o txFd) := by
  intro r
  obtain ⟨hvalid, hinvalid⟩ := bindInterrupts_routes k o rxFd txFd hrx htx hunused
  have hbound : Bound k o rxFd txFd k' := by
    by_cases h : ValidVectors k o
    · obtain ⟨k₁, hk₁, hbound, -⟩ := hvalid h
      rw [hbind] at hk₁
      cases hk₁
      exact hbound
    · obtain ⟨e, he⟩ := hinvalid h
      rw [hbind] at he
      cases he
  have hout : QueueSetup.Outcome _ _ _ _ _ s r.1 r.2 :=
    QueueSetup.setupQueues_outcome d mapping base (irqQueues rxQueue txQueue o.rxVector o.txVector)
      mustDiffer requested _ mapDma iova s
  obtain ⟨-, hstarted, e, he⟩ | ⟨sizes, vrings, totalSize, hlayout, -, -, ⟨l, hl, htold⟩, hok⟩ :=
    hout.programmed
  · refine ⟨⟨[], by rw [hstarted, List.append_nil], by rintro e ⟨⟩⟩, fun views hviews => ?_, mem_polledFds⟩
    rw [he] at hviews
    cases hviews
  · refine ⟨⟨l, hl, fun e he => ?_⟩, fun views hviews => ?_, mem_polledFds⟩
    · obtain ⟨placed, hmem, hindex, hprogrammed⟩ := QueueSetup.told_of_mem htold he
      rw [hindex]
      exact hbound.polled (List.of_mem_zip (List.mem_of_mem_take hmem)).1 hprogrammed
    · -- the layout has placed two queues
      match sizes, hlayout with
      | [rx, tx], hlayout =>
        obtain ⟨layout, -, hret⟩ := bind_eq_ok.1 hlayout
        cases hret
        obtain ⟨-, hready⟩ := hok views hviews
        obtain ⟨view, views, hrxReady, hrest, rfl⟩ := List.forall₂_cons_left_iff.1 hready
        obtain ⟨view', views', htxReady, -, rfl⟩ := List.forall₂_cons_left_iff.1 hrest
        exact ⟨hbound.eventOf_rx (hrxReady.programmed.vector _ rfl),
          hbound.eventOf_tx (htxReady.programmed.vector _ rfl)⟩

/-- MSI-X with three vectors, which cannot be resized. -/
def msixTable : IrqTable :=
  ⟨5, fun _ => ⟨VFIO_IRQ_INFO_EVENTFD ||| VFIO_IRQ_INFO_NORESIZE, 3⟩, fun _ _ => none, fun _ => 0⟩

/-- The defaults of the sample. -/
def msixOptions : Options := ⟨2, 0, 1⟩

theorem msixTable_unused : Unused msixTable msixOptions.irqIndex := ⟨rfl, rfl, by decide⟩

theorem bindInterrupts_routes_msix : ∃ k', bindInterrupts msixTable msixOptions 7 8 = .ok k' ∧
    Bound msixTable msixOptions 7 8 k' ∧
      ∃ k'', k'.setIrqs (disableIrqIndex msixOptions.irqIndex.toNat) = some k'' ∧
        ∀ v, k''.route msixOptions.irqIndex.toNat v = none :=
  (bindInterrupts_routes msixTable msixOptions 7 8 (by decide) (by decide) msixTable_unused).1
    ⟨by decide, by decide, by decide, by decide⟩

theorem completions_reach_poll_msix : ∃ k', bindInterrupts msixTable msixOptions 7 8 = .ok k' ∧
    let r := Shared.drive ((queueRegisters Device.plain).registers 0)
      (setupQueues ⟨58⟩ 0 (irqQueues 0 1 msixOptions.rxVector msixOptions.txVector)
        "RX queue and TX queue must be different" none
        (ofDmaLayout fun rx tx => computeDmaLayoutTxBuffers 4096 rx tx 4096 64 8 2048 2048)
        mapAt4GiB 0x100000000) QueueRegs.reset
    ∃ l, r.2.started = QueueRegs.reset.started ++ l ∧
      ∀ e ∈ l, Polled msixOptions 7 8 0 1 e.1 (eventOf k' msixOptions e.2) := by
  obtain ⟨k', hk'⟩ : ∃ k', bindInterrupts msixTable msixOptions 7 8 = .ok k' := ⟨_, rfl⟩
  exact ⟨k', hk', (completions_reach_poll msixTable k' msixOptions 7 8 (by decide) (by decide)
    msixTable_unused hk' Device.plain ⟨58⟩ 0 0 1 "RX queue and TX queue must be different" none 4096 4096
    64 8 2048 2048 mapAt4GiB 0x100000000 QueueRegs.reset).1⟩

end AdvCpp.Virtio.IrqRouting
