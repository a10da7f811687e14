import AdvCpp.Virtio.QueueSetup
import Mathlib.Data.List.Flatten

/-!
# The rings of the samples

The samples 21 to 30 pass their queues and the layout of their buffer to the same setup.  The
addresses are computed modulo `2 ^ 64`, and the device computes the sizes of the rings from
`queue_size`; what it will access has to be inside the buffer that is mapped for it.

* `computeControlDmaLayout` — what sample 27 has instead of `compute_ctrlq_dma_layout`.
* `Sample` — the queues and the layout of each sample.
* `Sample.ringsFit` — every layout has room for the rings, and no two overlap.
* `queues_inside_mapping` — on every path, the rings that the device has been told of are disjoint
  and inside the DMA mapping.
-/

namespace AdvCpp.Virtio.QueueSetup

open AdvCpp.Lib AdvCpp.Vfio

/-! ## `27_virtio_net_ctrl_promisc.cpp` -/

def kCtrlHdrSize : Nat := 2
def kCtrlStateSize : Nat := 1
def kCtrlAckSize : Nat := 1

structure ControlDmaLayout where
  rxVring : VringLayout
  txVring : VringLayout
  ctrlVring : VringLayout
  rxVringOffset : Nat
  txVringOffset : Nat
  ctrlVringOffset : Nat
  rxBuffersOffset : Nat
  rxBuffersSize : Nat
  ctrlCommandOffset : Nat
  ctrlHdrOffset : Nat
  ctrlStateOffset : Nat
  ctrlAckOffset : Nat
  totalSize : Nat

def computeControlDmaLayout (page : UInt64) (rxQueueSize txQueueSize ctrlQueueSize : UInt16)
    (align : UInt64) (rxBuffers : UInt16) (rxBufferSize : UInt64) :
    Except String ControlDmaLayout := do
  checkRxBuffers rxBuffers rxQueueSize
  ensure (rxBufferSize ≠ 0) "rx-buffer-size must be greater than 0"
  ensure (3 ≤ ctrlQueueSize.toNat)
    "control queue-size must be at least 3 for this descriptor chain"
  let rxVring ← computeVringLayout rxQueueSize align
  let txVring ← computeVringLayout txQueueSize align
  let ctrlVring ← computeVringLayout ctrlQueueSize align
  let txVringOffset ← roundUpToPage page rxVring.totalSize
  let txVringEnd ← checkedAdd txVringOffset txVring.totalSize "TX vring end"
  let ctrlVringOffset ← roundUpToPage page txVringEnd
  let ctrlVringEnd ← checkedAdd ctrlVringOffset ctrlVring.totalSize "control vring end"
  let rxBuffersOffset ← roundUpToPage page ctrlVringEnd
  let rxBuffersSize ← checkedMul rxBuffers.toNat rxBufferSize.toNat "RX buffer area"
  let rxBuffersEnd ← checkedAdd rxBuffersOffset rxBuffersSize "RX buffer area end"
  let ctrlCommandOffset ← roundUpToPage page rxBuffersEnd
  let ctrlHdrOffset := ctrlCommandOffset
  let ctrlStateOffset := wrap (ctrlHdrOffset + kCtrlHdrSize)
  let ctrlAckOffset := wrap (ctrlStateOffset + kCtrlStateSize)
  let ctrlEnd ← checkedAdd ctrlAckOffset kCtrlAckSize "control command area"
  let totalSize ← roundUpToPage page ctrlEnd
  return {
    rxVring := rxVring, txVring := txVring, ctrlVring := ctrlVring
    rxVringOffset := 0, txVringOffset := txVringOffset, ctrlVringOffset := ctrlVringOffset
    rxBuffersOffset := rxBuffersOffset, rxBuffersSize := rxBuffersSize
    ctrlCommandOffset := ctrlCommandOffset, ctrlHdrOffset := ctrlHdrOffset
    ctrlStateOffset := ctrlStateOffset, ctrlAckOffset := ctrlAckOffset, totalSize := totalSize }

/-- The fields that both layouts have. -/
def ControlDmaLayout.ofCtrlq (l : CtrlqDmaLayout) : ControlDmaLayout where
  rxVring := l.rxVring
  txVring := l.txVring
  ctrlVring := l.ctrlVring
  rxVringOffset := l.rxVringOffset
  txVringOffset := l.txVringOffset
  ctrlVringOffset := l.ctrlVringOffset
  rxBuffersOffset := l.rxBuffersOffset
  rxBuffersSize := l.rxBuffersSize
  ctrlCommandOffset := l.ctrlCommandOffset
  ctrlHdrOffset := l.ctrlHdrOffset
  ctrlStateOffset := l.ctrlStateOffset
  ctrlAckOffset := l.ctrlAckOffset
  totalSize := l.totalSize

/-- **The sample's own function** is the one of the header for one byte of data. -/
theorem computeControlDmaLayout_eq (page : UInt64) (rxQueueSize txQueueSize ctrlQueueSize : UInt16)
    (align : UInt64) (rxBuffers : UInt16) (rxBufferSize : UInt64) :
    computeControlDmaLayout page rxQueueSize txQueueSize ctrlQueueSize align rxBuffers rxBufferSize =
      ControlDmaLayout.ofCtrlq <$> computeCtrlqDmaLayout page rxQueueSize txQueueSize ctrlQueueSize
        align rxBuffers rxBufferSize (UInt64.ofNat kVirtioNetCtrlStateSize) := by
  have hone : UInt64.ofNat kVirtioNetCtrlStateSize ≠ 0 := by decide
  have hsmall : (UInt64.ofNat kVirtioNetCtrlStateSize).toNat ≤ 2 ^ 32 - 1 := by decide
  simp only [computeCtrlqDmaLayout, ensure_true hone, ensure_true hsmall, ok_bind, map_bind, map_pure]
  rfl

/-! ## The samples -/

def macTableControlDataSize (unicastMacs multicastMacs : Nat) : Except String Nat := do
  let unicastSize ← checkedMul unicastMacs kVirtioNetCtrlMacAddrSize "unicast MAC table"
  let unicastBytes ← checkedAdd kVirtioNetCtrlMacTableCountSize unicastSize "unicast MAC table"
  let multicastSize ← checkedMul multicastMacs kVirtioNetCtrlMacAddrSize "multicast MAC table"
  let multicastBytes ← checkedAdd kVirtioNetCtrlMacTableCountSize multicastSize "multicast MAC table"
  checkedAdd unicastBytes multicastBytes "MAC table control data"

/-- The check of sample 30 before its layout. -/
def checkMacTableQueueSize (ctrlQueueSize : UInt16) : Except String Unit :=
  ensure (4 ≤ ctrlQueueSize.toNat) "control queue-size must be at least 4 for MAC_TABLE_SET"

/-- Where the rings of the queues are, and the size of the buffer. -/
abbrev Layout := List UInt16 → Except String (List (VringLayout × Nat) × Nat)

def ofDmaLayout (compute : UInt16 → UInt16 → Except String DmaLayout) : Layout
  | [rxQueueSize, txQueueSize] => do
    let l ← compute rxQueueSize txQueueSize
    return ([(l.rxVring, l.rxVringOffset), (l.txVring, l.txVringOffset)], l.totalSize)
  | _ => .error "two queues"

def ofCtrlqDmaLayout (compute : UInt16 → UInt16 → UInt16 → Except String CtrlqDmaLayout) : Layout
  | [rxQueueSize, txQueueSize, ctrlQueueSize] => do
    let l ← compute rxQueueSize txQueueSize ctrlQueueSize
    return ([(l.rxVring, l.rxVringOffset), (l.txVring, l.txVringOffset),
      (l.ctrlVring, l.ctrlVringOffset)], l.totalSize)
  | _ => .error "three queues"

def ofControlDmaLayout (compute : UInt16 → UInt16 → UInt16 → Except String ControlDmaLayout) : Layout
  | [rxQueueSize, txQueueSize, ctrlQueueSize] => do
    let l ← compute rxQueueSize txQueueSize ctrlQueueSize
    return ([(l.rxVring, l.rxVringOffset), (l.txVring, l.txVringOffset),
      (l.ctrlVring, l.ctrlVringOffset)], l.totalSize)
  | _ => .error "three queues"

def rxTxQueues (rxQueue txQueue : UInt16) : List Queue :=
  [⟨rxQueue, "RX queue", none⟩, ⟨txQueue, "TX queue", none⟩]

/-- With interrupts. -/
def irqQueues (rxQueue txQueue rxVector txVector : UInt16) : List Queue :=
  [⟨rxQueue, "RX queue", some rxVector⟩, ⟨txQueue, "TX queue", some txVector⟩]

def ctrlQueues (rxQueue txQueue ctrlQueue : UInt16) : List Queue :=
  [⟨rxQueue, "RX queue", none⟩, ⟨txQueue, "TX queue", none⟩, ⟨ctrlQueue, "control queue", none⟩]

/-- The queues of a sample, what it throws if two are the same, and its layout.

* 21 and 22 only receive, 23 and 24 have room for one TX packet, 25 and 26 for TX buffers.
* 27 to 30 have a control queue: 27 with its own layout, 28 for RX modes, 29 for a MAC address and 30
  for a table of MAC addresses. -/
inductive Sample (page align : UInt64) : List Queue → String → Layout → Prop where
  | rx (rxQueue txQueue rxBuffers : UInt16) (rxBufferSize : UInt64) :
    Sample page align (rxTxQueues rxQueue txQueue) "RX queue and TX queue must be different"
      (ofDmaLayout fun rx tx => computeDmaLayoutRx page rx tx align rxBuffers rxBufferSize)
  | txPacket (rxQueue txQueue rxBuffers : UInt16) (rxBufferSize txPacketSize : UInt64) :
    Sample page align (rxTxQueues rxQueue txQueue) "RX queue and TX queue must be different"
      (ofDmaLayout fun rx tx =>
        computeDmaLayoutTxPacket page rx tx align rxBuffers rxBufferSize txPacketSize)
  | echoLoop (rxQueue txQueue rxBuffers txBuffers : UInt16) (rxBufferSize txBufferSize : UInt64) :
    Sample page align (rxTxQueues rxQueue txQueue) "RX queue and TX queue must be different"
      (ofDmaLayout fun rx tx =>
        computeDmaLayoutTxBuffers page rx tx align rxBuffers txBuffers rxBufferSize txBufferSize)
  | irqEchoLoop (rxQueue txQueue rxVector txVector rxBuffers txBuffers : UInt16)
      (rxBufferSize txBufferSize : UInt64) :
    Sample page align (irqQueues rxQueue txQueue rxVector txVector)
      "RX queue and TX queue must be different"
      (ofDmaLayout fun rx tx =>
        computeDmaLayoutTxBuffers page rx tx align rxBuffers txBuffers rxBufferSize txBufferSize)
  | ctrlPromisc (rxQueue txQueue ctrlQueue rxBuffers : UInt16) (rxBufferSize : UInt64) :
    Sample page align (ctrlQueues rxQueue txQueue ctrlQueue)
      "RX, TX, and control queues must be different"
      (ofControlDmaLayout fun rx tx ctrl =>
        computeControlDmaLayout page rx tx ctrl align rxBuffers rxBufferSize)
  | ctrl (rxQueue txQueue ctrlQueue rxBuffers : UInt16) (rxBufferSize ctrlDataSize : UInt64)
      (hdata : ctrlDataSize ∈ [UInt64.ofNat kVirtioNetCtrlStateSize,
        UInt64.ofNat kVirtioNetCtrlMacAddrSize]) :
    Sample page align (ctrlQueues rxQueue txQueue ctrlQueue)
      "RX, TX, and control queues must be different"
      (ofCtrlqDmaLayout fun rx tx ctrl =>
        computeCtrlqDmaLayout page rx tx ctrl align rxBuffers rxBufferSize ctrlDataSize)
  | ctrlMacTable (rxQueue txQueue ctrlQueue rxBuffers : UInt16) (rxBufferSize : UInt64) :
    Sample page align (ctrlQueues rxQueue txQueue ctrlQueue)
      "RX, TX, and control queues must be different"
      (ofCtrlqDmaLayout fun rx tx ctrl => do
        checkMacTableQueueSize ctrl
        let ctrlDataSize ← macTableControlDataSize 1 0
        computeCtrlqDmaLayout page rx tx ctrl align rxBuffers rxBufferSize
          (UInt64.ofNat ctrlDataSize))

/-! ## Room for the rings -/

/-- All rings of a layout. -/
def ringsOf (vrings : List (VringLayout × Nat)) : List Region :=
  vrings.flatMap fun v => v.1.rings v.2

/-- The layout of a queue, and the size of the queue. -/
def OfSize (size : UInt16) (v : VringLayout × Nat) : Prop := ∃ align, VringOk size align v.1

/-- The rings lie in the buffer, one behind the other. -/
def RingsFit (layout : Layout) : Prop :=
  ∀ sizes vrings totalSize, layout sizes = .ok (vrings, totalSize) →
    List.Forall₂ OfSize sizes vrings ∧ Stacked 0 totalSize (ringsOf vrings)

section RingsFit

variable {page align : UInt64} {l : DmaLayout} {rxQueueSize txQueueSize rxBuffers : UInt16}
  {rxBufferSize : UInt64} {rs : List Region}

theorem ringsFit_layoutOk
    (h : LayoutOk page align rxQueueSize txQueueSize rxBuffers rxBufferSize l rs) :
    List.Forall₂ OfSize [rxQueueSize, txQueueSize]
        [(l.rxVring, l.rxVringOffset), (l.txVring, l.txVringOffset)] ∧
      Stacked 0 l.totalSize (ringsOf [(l.rxVring, l.rxVringOffset), (l.txVring, l.txVringOffset)]) := by
  refine ⟨.cons ⟨align, h.rxVring⟩ (.cons ⟨align, h.txVring⟩ .nil), ?_⟩
  refine h.allStacked.sublist ?_
  simp only [ringsOf, List.flatMap_cons, List.flatMap_nil, List.append_nil, DmaLayout.regions]
  rw [List.append_assoc]
  exact List.sublist_append_left _ _

theorem ringsFit_ofDmaLayout {compute : UInt16 → UInt16 → Except String DmaLayout}
    (h : ∀ rx tx l, compute rx tx = .ok l →
      ∃ rxBuffers rxBufferSize rs, LayoutOk page align rx tx rxBuffers rxBufferSize l rs) :
    RingsFit (ofDmaLayout compute) := by
  intro sizes vrings totalSize hlayout
  match sizes, hlayout with
  | [rx, tx], hlayout =>
    obtain ⟨l, hl, hret⟩ := bind_eq_ok.1 hlayout
    cases hret
    obtain ⟨_, _, _, hok⟩ := h rx tx l hl
    exact ringsFit_layoutOk hok

/-- The data of a command is smaller than a page, so that the two unchecked additions do not
wrap. -/
theorem noWrap_of_small {ctrlQueueSize : UInt16} {ctrlDataSize : UInt64}
    {l : CtrlqDmaLayout}
    (h : CtrlqPlaced page rxQueueSize txQueueSize ctrlQueueSize align rxBuffers rxBufferSize
      ctrlDataSize l) (hsmall : ctrlDataSize.toNat + 2 < page.toNat) : l.NoWrap := by
  obtain ⟨-, hdvd, hlt, hpower⟩ := roundUpToPage_ok h.hdr
  obtain ⟨k, hk⟩ := hpower
  have hpage : page.toNat ∣ 2 ^ 64 := by
    have hle : 2 ^ k < 2 ^ 64 := hk ▸ page.toNat_lt
    rw [hk]
    exact Nat.pow_dvd_pow 2 (Nat.le_of_lt ((Nat.pow_lt_pow_iff_right (by decide)).1 hle))
  -- the page of the header ends at `2 ^ 64` at the latest
  have hend : l.ctrlHdrOffset + page.toNat ≤ 2 ^ 64 := by
    obtain ⟨a, ha⟩ := hdvd
    obtain ⟨b, hb⟩ := hpage
    rw [ha, hb] at hlt ⊢
    have hab := Nat.lt_of_mul_lt_mul_left hlt
    rw [← Nat.mul_succ]
    exact Nat.mul_le_mul_left _ hab
  show l.ctrlHdrOffset + 2 + l.ctrlDataSize < 2 ^ 64
  rw [h.dataSize]
  omega

theorem ringsFit_ctrlq {compute : UInt16 → UInt16 → UInt16 → Except String CtrlqDmaLayout}
    {rxBuffers : UInt16} {rxBufferSize ctrlDataSize : UInt64}
    (h : ∀ rx tx ctrl l, compute rx tx ctrl = .ok l →
      computeCtrlqDmaLayout page rx tx ctrl align rxBuffers rxBufferSize ctrlDataSize = .ok l)
    (hsmall : ctrlDataSize.toNat + 2 < page.toNat) : RingsFit (ofCtrlqDmaLayout compute) := by
  intro sizes vrings totalSize hlayout
  match sizes, hlayout with
  | [rx, tx, ctrl], hlayout =>
    obtain ⟨l, hcompute, hret⟩ := bind_eq_ok.1 hlayout
    cases hret
    have hl := h rx tx ctrl l hcompute
    have hplaced := computeCtrlqDmaLayout_placed hl
    have hrx := computeVringLayout_ok hplaced.rxVring
    have htx := computeVringLayout_ok hplaced.txVring
    have hctrl := computeVringLayout_ok hplaced.ctrlVring
    have hok := computeCtrlqDmaLayout_ok hl (noWrap_of_small hplaced hsmall)
    obtain ⟨htxOffset, -⟩ := roundUpToPage_ok hplaced.txVringOffset
    obtain ⟨hctrlOffset, -⟩ := roundUpToPage_ok hplaced.ctrlVringOffset
    refine ⟨.cons ⟨_, hrx⟩ (.cons ⟨_, htx⟩ (.cons ⟨_, hctrl⟩ .nil)), ?_⟩
    have hfirst : Stacked 0 l.txVringOffset (l.rxVring.rings l.rxVringOffset) := by
      refine (hrx.stacked l.rxVringOffset).mono (Nat.zero_le _) ?_
      rw [hplaced.rxVringOffset]
      omega
    have hlast : Stacked l.ctrlVringOffset l.totalSize (l.ctrlVring.rings l.ctrlVringOffset) := by
      have hcommand := hok.command
      have hdata := hok.data
      have hack := hok.ack
      have htotal := hok.total
      exact (hctrl.stacked l.ctrlVringOffset).mono (Nat.le_refl _) (by omega)
    have hall := hfirst.append (((htx.stacked l.txVringOffset).mono (Nat.le_refl _) hctrlOffset).append
      hlast)
    simpa only [ringsOf, List.flatMap_cons, List.flatMap_nil, List.append_nil] using hall

/-- The two layouts place the rings alike. -/
theorem ofControlDmaLayout_eq (page align : UInt64) (rxBuffers : UInt16) (rxBufferSize : UInt64) :
    (ofControlDmaLayout fun rx tx ctrl =>
        computeControlDmaLayout page rx tx ctrl align rxBuffers rxBufferSize) =
      ofCtrlqDmaLayout fun rx tx ctrl => computeCtrlqDmaLayout page rx tx ctrl align rxBuffers
        rxBufferSize (UInt64.ofNat kVirtioNetCtrlStateSize) := by
  funext sizes
  match sizes with
  | [rx, tx, ctrl] =>
    simp only [ofControlDmaLayout, ofCtrlqDmaLayout, computeControlDmaLayout_eq, bind_map_left]
    rfl
  | [] => rfl
  | [_] => rfl
  | [_, _] => rfl
  | _ :: _ :: _ :: _ :: _ => rfl

/-- **Every sample has room for its rings.** -/
theorem Sample.ringsFit {queues : List Queue} {mustDiffer : String} {layout : Layout}
    (h : Sample page align queues mustDiffer layout) (hpage : 4096 ≤ page.toNat) :
    RingsFit layout := by
  cases h with
  | rx _ _ rxBuffers rxBufferSize =>
    exact ringsFit_ofDmaLayout fun rx tx l hl => ⟨_, _, _, computeDmaLayoutRx_ok hl⟩
  | txPacket _ _ rxBuffers rxBufferSize txPacketSize =>
    exact ringsFit_ofDmaLayout fun rx tx l hl => ⟨_, _, _, computeDmaLayoutTxPacket_ok hl⟩
  | echoLoop _ _ rxBuffers txBuffers rxBufferSize txBufferSize =>
    exact ringsFit_ofDmaLayout fun rx tx l hl => ⟨_, _, _, computeDmaLayoutTxBuffers_ok hl⟩
  | irqEchoLoop _ _ _ _ rxBuffers txBuffers rxBufferSize txBufferSize =>
    exact ringsFit_ofDmaLayout fun rx tx l hl => ⟨_, _, _, computeDmaLayoutTxBuffers_ok hl⟩
  | ctrlPromisc _ _ _ rxBuffers rxBufferSize =>
    rw [ofControlDmaLayout_eq]
    exact ringsFit_ctrlq (fun _ _ _ _ hl => hl) (Nat.lt_of_lt_of_le (by decide) hpage)
  | ctrl _ _ _ rxBuffers rxBufferSize ctrlDataSize hdata =>
    refine ringsFit_ctrlq (fun _ _ _ _ hl => hl) ?_
    simp only [List.mem_cons, List.not_mem_nil, or_false] at hdata
    rcases hdata with rfl | rfl
    · exact Nat.lt_of_lt_of_le (by decide) hpage
    · exact Nat.lt_of_lt_of_le (by decide) hpage
  | ctrlMacTable _ _ _ rxBuffers rxBufferSize =>
    have hdata : macTableControlDataSize 1 0 = .ok 14 := rfl
    have hlayout : ∀ rx tx ctrl l, (do
        checkMacTableQueueSize ctrl
        let ctrlDataSize ← macTableControlDataSize 1 0
        computeCtrlqDmaLayout page rx tx ctrl align rxBuffers rxBufferSize
          (UInt64.ofNat ctrlDataSize)) = .ok l →
        computeCtrlqDmaLayout page rx tx ctrl align rxBuffers rxBufferSize 14 = .ok l := by
      intro rx tx ctrl l hl
      obtain ⟨_, -, hl⟩ := bind_eq_ok.1 hl
      rwa [hdata, ok_bind] at hl
    exact ringsFit_ctrlq hlayout (Nat.lt_of_lt_of_le (by decide) hpage)

end RingsFit

/-! ## What the device is told -/

section Told

variable {iova : UInt64} {placed : Placed} {entry : UInt16 × Bank} {size : UInt16} {totalSize : Nat}

/-- The rings that the device computes are those of the layout, in the address space of the
device. -/
theorem Told.rings (h : Told iova placed entry) (hsize : OfSize size placed.2)
    (hinside : ∀ r ∈ placed.2.1.rings placed.2.2, r.stop ≤ totalSize)
    (hmapped : iova.toNat + totalSize ≤ 2 ^ 64) :
    entry.2.rings = (placed.2.1.rings placed.2.2).map (Region.shift iova.toNat) := by
  obtain ⟨align, hok⟩ := hsize
  have hpos := hok.pos
  have hq : entry.2.size.toNat = size.toNat := by
    rw [h.2.size, hok.size_eq, UInt16.ofNat_toNat]
  have haddress : ∀ offset n, 0 < n → placed.2.2 + offset + n ≤ totalSize →
      (iova + UInt64.ofNat placed.2.2 + UInt64.ofNat offset).toNat =
        iova.toNat + (placed.2.2 + offset) := by
    intro offset n hn hle
    rw [UInt64.toNat_add, UInt64.toNat_add, UInt64.toNat_ofNat', UInt64.toNat_ofNat']
    omega
  simp only [VringLayout.rings, List.mem_cons, List.not_mem_nil, or_false, forall_eq_or_imp,
    forall_eq, Region.stop] at hinside
  obtain ⟨hdesc, havail, hused⟩ := hinside
  have hdescSize := hok.desc.2
  have havailSize := hok.avail.2
  have husedSize := hok.used.2
  rw [Bank.rings, hq, h.2.desc, h.2.avail, h.2.used, haddress _ _ (by omega) hdesc,
    haddress _ _ (by omega) havail, haddress _ _ (by omega) hused]
  simp only [VringLayout.rings, List.map_cons, List.map_nil, Region.shift, hdescSize, havailSize,
    husedSize]
  refine congrArg₂ _ rfl (congrArg₂ _ ?_ rfl)
  rw [Nat.mul_add]

/-- The rings of several queues. -/
theorem told_rings {all : List Placed} {l : List (UInt16 × Bank)}
    (h : List.Forall₂ (Told iova) all l)
    (hall : ∀ placed ∈ all, ∃ size, OfSize size placed.2)
    (hinside : ∀ r ∈ ringsOf (all.map Prod.snd), r.stop ≤ totalSize)
    (hmapped : iova.toNat + totalSize ≤ 2 ^ 64) :
    (l.flatMap fun e => e.2.rings) = (ringsOf (all.map Prod.snd)).map (Region.shift iova.toNat) := by
  induction h with
  | nil => rfl
  | @cons placed entry all l htold hrest ih =>
    obtain ⟨⟨size, hsize⟩, hall⟩ := List.forall_mem_cons.1 hall
    rw [List.map_cons, ringsOf, List.flatMap_cons] at hinside
    have hfirst := htold.rings hsize (fun r hr => hinside r (List.mem_append_left _ hr)) hmapped
    have hlater := ih hall fun r hr => hinside r (List.mem_append_right _ hr)
    rw [List.flatMap_cons, hlater, hfirst, ← List.map_append]
    rfl

theorem told_of_mem {all : List Placed} {l : List (UInt16 × Bank)}
    (h : List.Forall₂ (Told iova) all l) (hentry : entry ∈ l) :
    ∃ placed ∈ all, Told iova placed entry := by
  induction h with
  | nil => cases hentry
  | @cons placed first all l htold hrest ih =>
    rcases List.mem_cons.1 hentry with rfl | hlater
    · exact ⟨placed, List.mem_cons_self, htold⟩
    · obtain ⟨other, hmem, hother⟩ := ih hlater
      exact ⟨other, List.mem_cons_of_mem _ hmem, hother⟩

/-- A queue with its size and its place. -/
theorem fresh_placed {requested : Option UInt16} {s : QueueRegs} {queues : List Queue}
    {sizes : List UInt16} {vrings : List (VringLayout × Nat)}
    (hfresh : List.Forall₂ (fun queue size => Fresh requested (s.bank queue.index) size) queues sizes)
    (hsizes : List.Forall₂ OfSize sizes vrings) {placed : Placed} (h : placed ∈ queues.zip vrings) :
    placed.1 ∈ queues ∧ ∃ size, Fresh requested (s.bank placed.1.index) size ∧ OfSize size placed.2 := by
  induction hfresh generalizing vrings with
  | nil => cases h
  | @cons queue size queues sizes hqueue hrest ih =>
    obtain _ | ⟨hsize, hsizes⟩ := hsizes
    rcases List.mem_cons.1 h with rfl | h
    · exact ⟨List.mem_cons_self, size, hqueue, hsize⟩
    · obtain ⟨hmem, hfound⟩ := ih hsizes h
      exact ⟨List.mem_cons_of_mem _ hmem, hfound⟩

theorem chooseQueueSize_ok {deviceQueueSize : UInt16} {requested : Option UInt16}
    (h : chooseQueueSize deviceQueueSize requested = .ok size) :
    size ≤ deviceQueueSize ∧ isPowerOfTwo size.toNat := by
  obtain ⟨_, -, h⟩ := bind_eq_ok.1 h
  obtain ⟨_, hrange, h⟩ := bind_eq_ok.1 h
  obtain ⟨_, hpower, h⟩ := bind_eq_ok.1 h
  cases h
  rw [ensure_eq_ok, not_or] at hrange
  exact ⟨UInt16.not_lt.1 hrange.2, ensure_eq_ok.1 hpower⟩

theorem zip_snd_sublist (queues : List Queue) (vrings : List (VringLayout × Nat)) :
    ((queues.zip vrings).map Prod.snd).Sublist vrings := by
  induction queues generalizing vrings with
  | nil => simp
  | cons queue queues ih =>
    cases vrings with
    | nil => simp
    | cons vring vrings => exact (ih vrings).cons_cons _

end Told

/-- What the device has been told of: rings of allowed sizes for queues of the sample, which do not
overlap and are inside a mapping that has succeeded. -/
structure InsideMapping (queues : List Queue) (mapDma : Nat → Except String Unit) (iova : UInt64)
    (s : QueueRegs) (l : List (UInt16 × Bank)) : Prop where
  disjoint : (l.flatMap fun e => e.2.rings).Pairwise Region.Disjoint
  inside : ∀ e ∈ l, ∃ totalSize, mapDma totalSize = .ok () ∧
    ∀ r ∈ e.2.rings, iova.toNat ≤ r.offset ∧ r.stop ≤ iova.toNat + totalSize
  size : ∀ e ∈ l, e.1 ∈ queues.map Queue.index ∧ e.2.size ≤ (s.bank e.1).size ∧
    isPowerOfTwo e.2.size.toNat

/-- **The device is told of mapped memory only.**  For every sample, against every device and on
every path: whatever queues the device has been told to use when the setup returns or throws, their
rings do not overlap and are inside the DMA mapping, and no queue is larger than the device allows.
A mapping does not wrap around the end of the address space, which the kernel checks. -/
theorem queues_inside_mapping (page align : UInt64) (hpage : 4096 ≤ page.toNat)
    (queues : List Queue) (mustDiffer : String) (layout : Layout)
    (hsample : Sample page align queues mustDiffer layout)
    (mapDma : Nat → Except String Unit) (iova : UInt64)
    (hmapDma : ∀ totalSize, mapDma totalSize = .ok () → iova.toNat + totalSize ≤ 2 ^ 64)
    (d : Device) (mapping : MappedRegion) (base : Nat) (requested : Option UInt16) (s : QueueRegs) :
    let o := Shared.drive ((queueRegisters d).registers base)
      (setupQueues mapping base queues mustDiffer requested layout mapDma iova) s
    ∃ l, o.2.started = s.started ++ l ∧ InsideMapping queues mapDma iova s l := by
  intro o
  have hout : Outcome queues requested layout mapDma iova s o.1 o.2 :=
    setupQueues_outcome d mapping base queues mustDiffer requested layout mapDma iova s
  obtain ⟨-, hstarted, -⟩ | ⟨sizes, vrings, totalSize, hlayout, hmap, hfresh, htold, -⟩ :=
    hout.programmed
  · refine ⟨[], by rw [hstarted, List.append_nil], List.Pairwise.nil, ?_, ?_⟩
    · rintro e ⟨⟩
    · rintro e ⟨⟩
  · obtain ⟨l, hl, htold⟩ := htold
    obtain ⟨hsizes, hstacked⟩ := hsample.ringsFit hpage sizes vrings totalSize hlayout
    have hplaced : ∀ placed ∈ (queues.zip vrings).take l.length, placed.1 ∈ queues ∧
        ∃ size, Fresh requested (s.bank placed.1.index) size ∧ OfSize size placed.2 :=
      fun placed hmem => fresh_placed hfresh hsizes (List.mem_of_mem_take hmem)
    have hsub : (((queues.zip vrings).take l.length).map Prod.snd).Sublist vrings :=
      ((List.take_sublist _ _).map _).trans (zip_snd_sublist queues vrings)
    have hfirst := hstacked.sublist (hsub.flatMap fun v => v.1.rings v.2)
    have hrings := told_rings htold
      (fun placed hmem => (hplaced placed hmem).2.imp fun _ h => h.2)
      (fun r hr => (hfirst.within hr).2) (hmapDma totalSize hmap)
    have hshifted := hfirst.shift iova.toNat
    rw [ringsOf] at hrings
    rw [← hrings] at hshifted
    refine ⟨l, hl, hshifted.disjoint, fun e he => ⟨totalSize, hmap, fun r hr => ?_⟩, fun e he => ?_⟩
    · exact hshifted.within (List.mem_flatMap.2 ⟨e, he, hr⟩)
    · obtain ⟨placed, hmem, hindex, hprogrammed⟩ := told_of_mem htold he
      obtain ⟨hqueue, size, ⟨-, hchosen⟩, align, hok⟩ := hplaced placed hmem
      obtain ⟨hle, hpower⟩ := chooseQueueSize_ok hchosen
      have hsize : e.2.size = size := by
        rw [hprogrammed.size, hok.size_eq, UInt16.ofNat_toNat]
      rw [hindex, hsize]
      exact ⟨List.mem_map_of_mem hqueue, hle, hpower⟩

/-- A device that takes what is written. -/
def Device.plain : Device := ⟨fun _ vector => vector, fun _ enable => enable, fun _ => []⟩

/-- Two queues of 256 descriptors after a reset. -/
def QueueRegs.reset : QueueRegs :=
  ⟨2, 0, fun queue => ⟨256, 0xffff, 0, queue, 0, 0, 0, 0, 0, 0, 0⟩, []⟩

/-- The kernel's check of a mapping at 4 GiB. -/
def mapAt4GiB (totalSize : Nat) : Except String Unit :=
  ensure ((0x100000000 : UInt64).toNat + totalSize ≤ 2 ^ 64) "VFIO_IOMMU_MAP_DMA"

/-- Sample 21. -/
theorem queues_inside_mapping_rx : ∃ l,
    (Shared.drive ((queueRegisters Device.plain).registers 0)
      (setupQueues ⟨58⟩ 0 (rxTxQueues 0 1) "RX queue and TX queue must be different" none
        (ofDmaLayout fun rx tx => computeDmaLayoutRx 4096 rx tx 4096 64 2048) mapAt4GiB 0x100000000)
      QueueRegs.reset).2.started = QueueRegs.reset.started ++ l ∧
      InsideMapping (rxTxQueues 0 1) mapAt4GiB 0x100000000 QueueRegs.reset l :=
  queues_inside_mapping 4096 4096 (by decide) (rxTxQueues 0 1)
    "RX queue and TX queue must be different"
    (ofDmaLayout fun rx tx => computeDmaLayoutRx 4096 rx tx 4096 64 2048) (.rx 0 1 64 2048) mapAt4GiB
    0x100000000 (fun _ h => ensure_eq_ok.1 h) Device.plain ⟨58⟩ 0 none QueueRegs.reset

end AdvCpp.Virtio.QueueSetup
