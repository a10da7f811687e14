import AdvCpp.Lib.Machine
import AdvCpp.Lib.Multiples
import AdvCpp.Lib.UsedScan
import AdvCpp.Virtio.EchoLoop

/-!
# Observing the RX queue

The loop with which `28_virtio_net_promisc_observe.cpp`, `29_virtio_net_ctrl_mac_addr.cpp` and
`30_virtio_net_ctrl_mac_table.cpp` look at the packets that arrive: every matching packet is
reported, every buffer is handed back.  The device is live, and returns buffers and fills those it
holds between any two accesses.

* `run`, `clock` — the driver, one used entry or one buffer in a step; `deviceStep` — the device.
* `expected` — the report on what the device has delivered.
* `Inv.step` — what every step keeps.
* `rxObserve_reports` — the report is that of the delivered packets, and no buffer is lost.
-/

namespace AdvCpp.Virtio.RxObserve

open AdvCpp.Lib
open EchoLoop (rxAccepts ethertypeOf)

/-- What the loop reads of the options and the layout. -/
structure Options where
  rxQueueSize : Nat
  rxBuffers : Nat
  rxBufferSize : Nat
  stopAfter : Nat
  matchEthertype : Option Nat

/-- What is printed for a packet. -/
structure Report where
  usedSlot : Nat
  descId : Nat
  usedLen : Nat
  dst : List UInt8
  src : List UInt8
  ethertype : Nat
  deriving DecidableEq

inductive Pc where
  | head
  | readUsed
  /-- `elems[used_slot]` -/
  | elem
  /-- `read_rx_used_packet`, as far as the buffer -/
  | packet
  | ethertype
  | report
  | recycle (matching : Bool)
  | recycleIdx (matching : Bool)
  | done
  deriving DecidableEq

/-- The RX queue and its buffers, and the locals of the loop; `id` is the descriptor that is recycled.
The last two are a record: what the device has delivered, and the entries that were examined and
recycled. -/
structure State where
  pc : Pc
  rx : Virtqueue
  rxBuf : Nat → List UInt8
  lastRxUsedIdx : BitVec 16
  currentRxUsed : BitVec 16
  i : Nat
  elem : Nat × Nat
  received : Nat × Nat
  ethertype : Nat
  id : Nat
  matched : Nat
  skipped : Nat
  reports : List Report
  delivered : List ((Nat × Nat) × List UInt8)
  seen : List (Nat × Nat)

inductive Event where
  | run
  | clock (timeLeft : Bool)
  | device (a : DeviceAction)
  | fill (id : Nat) (data : List UInt8)
  deriving DecidableEq

/-- The destination and the source of the frame behind the virtio-net header. -/
def dstOf (buffer : List UInt8) : List UInt8 := (buffer.drop kVirtioNetHeaderSize).take 6
def srcOf (buffer : List UInt8) : List UInt8 := (buffer.drop (kVirtioNetHeaderSize + 6)).take 6

section Driver

variable (o : Options)

/-- The buffers are posted, DRIVER_OK is set, and the used index that was read before is that of a
queue that has just been zeroed. -/
def init : State where
  pc := .head
  rx := { Virtqueue.zero with availRing := id, availIdx := BitVec.ofNat 16 o.rxBuffers }
  rxBuf := fun _ => List.replicate o.rxBufferSize 0
  lastRxUsedIdx := 0
  currentRxUsed := 0
  i := 0
  elem := (0, 0)
  received := (0, 0)
  ethertype := 0
  id := 0
  matched := 0
  skipped := 0
  reports := []
  delivered := []
  seen := []

def State.scan (s : State) : Virtqueue.Scan := ⟨s.lastRxUsedIdx, s.currentRxUsed, s.i⟩

/-- `used_slot` -/
def State.usedSlot (s : State) : Nat := s.scan.slot o.rxQueueSize

/-- `if (count == 0)` is an iteration that only sleeps. -/
def readUsed (s : State) : State :=
  if s.rx.usedIdx = s.lastRxUsedIdx then { s with pc := .head, currentRxUsed := s.rx.usedIdx }
  else { s with pc := .elem, currentRxUsed := s.rx.usedIdx, i := 0 }

def elem (s : State) : State :=
  if s.i < s.scan.count then { s with pc := .packet, elem := s.rx.usedRing (s.usedSlot o) }
  else { s with pc := .head, lastRxUsedIdx := s.currentRxUsed }

/-- `read_rx_used_packet` has returned nothing: the id that was read first is recycled. -/
def skip (s : State) : State :=
  let s := { s with skipped := (s.skipped + 1) % 2 ^ 32 }
  if s.elem.1 < o.rxBuffers then { s with pc := .recycle false, id := s.elem.1 }
  else { s with pc := .elem, i := s.i + 1 }

/-- The entry is read a second time. -/
def packet (s : State) : State :=
  let s := { s with received := s.rx.usedRing (s.usedSlot o) }
  if o.rxBuffers ≤ s.received.1 then skip o s
  else if o.rxBufferSize < s.received.2 then skip o s
  else if s.received.2 < kVirtioNetHeaderSize + kEthernetHeaderSize then skip o s
  else { s with pc := .ethertype }

def ethertype (s : State) : State :=
  let s := { s with ethertype := ethertypeOf (s.rxBuf s.received.1) }
  if o.matchEthertype.any (· ≠ s.ethertype) then skip o s else { s with pc := .report }

def report (s : State) : State :=
  let buffer := s.rxBuf s.received.1
  { s with
    pc := .recycle true, id := s.received.1, matched := (s.matched + 1) % 2 ^ 16
    reports := s.reports ++ [{
      usedSlot := s.usedSlot o, descId := s.received.1, usedLen := s.received.2
      dst := dstOf buffer, src := srcOf buffer, ethertype := s.ethertype }] }

/-- `recycle_rx_buffer` up to the slot of the avail ring. -/
def recycle (matching : Bool) (s : State) : State :=
  { s with pc := .recycleIdx matching, rx := s.rx.store o.rxQueueSize (s.id % 2 ^ 16) }

/-- The counter of the avail ring, and the end of the loop body. -/
def recycleIdx (matching : Bool) (s : State) : State :=
  let s := { s with rx := s.rx.post, seen := s.seen ++ [s.received] }
  if matching ∧ o.stopAfter ≤ s.matched then { s with pc := .head, lastRxUsedIdx := s.currentRxUsed }
  else { s with pc := .elem, i := s.i + 1 }

def run (s : State) : Option State :=
  match s.pc with
  | .readUsed => some (readUsed s)
  | .elem => some (elem o s)
  | .packet => some (packet o s)
  | .ethertype => some (ethertype o s)
  | .report => some (report o s)
  | .recycle matching => some (recycle o matching s)
  | .recycleIdx matching => some (recycleIdx o matching s)
  | .head | .done => none

/-- The condition of the loop. -/
def clock (s : State) (timeLeft : Bool) : Option State :=
  match s.pc with
  | .head => some { s with pc := if s.matched < o.stopAfter ∧ timeLeft then .readUsed else .done }
  | _ => none

/-- The device acts on the queue, or fills a buffer that it holds. -/
def deviceStep (s : State) : Event → Option State
  | .device a =>
    (s.rx.device o.rxQueueSize a).map fun rx =>
      { s with rx := rx, delivered := Virtqueue.logged s.rx rx s.rxBuf s.delivered }
  | .fill id data =>
    if id ∈ s.rx.held then some { s with rxBuf := Function.update s.rxBuf id data } else none
  | .run | .clock _ => none

def step (s : State) : Event → Option State
  | .run => run o s
  | .clock timeLeft => clock o s timeLeft
  | e => deviceStep o s e

def machine : Machine State Event := ⟨init o, step o⟩

/-! ## The report on what was delivered -/

/-- The entry `k` with what the device has delivered with it. -/
def reportOf (k : Nat) (d : (Nat × Nat) × List UInt8) : Report where
  usedSlot := k % o.rxQueueSize
  descId := d.1.1
  usedLen := d.1.2
  dst := dstOf d.2
  src := srcOf d.2
  ethertype := ethertypeOf d.2

def matching (d : (Nat × Nat) × List UInt8) : Bool :=
  rxAccepts o.rxBuffers o.rxBufferSize o.matchEthertype d.1.1 d.1.2 (ethertypeOf d.2)

/-- The matching packets among those delivered, in order. -/
def expected (l : List ((Nat × Nat) × List UInt8)) : List Report :=
  l.zipIdx.filterMap fun d => if matching o d.1 then some (reportOf o d.2 d.1) else none

theorem expected_snoc (l : List ((Nat × Nat) × List UInt8)) (d : (Nat × Nat) × List UInt8) :
    expected o (l ++ [d]) =
      expected o l ++ if matching o d then [reportOf o l.length d] else [] := by
  unfold expected
  rw [List.zipIdx_append, List.filterMap_append]
  congr 1
  cases h : matching o d with
  | true => simp [h]
  | false => simp [h]

end Driver

/-! ## The invariant -/

section Inv

variable (o : Options)

/-- The counts and the report after `n` of the entries delivered. -/
structure Tally (delivered : List ((Nat × Nat) × List UInt8)) (reports : List Report)
    (matched skipped n : Nat) : Prop where
  reports_eq : reports = expected o (delivered.take n)
  matched_eq : matched = reports.length
  le : matched ≤ o.stopAfter
  skipped_eq : skipped = (n - reports.length) % 2 ^ 32
  all : reports.length ≤ n

def Counted (s : State) (n : Nat) : Prop := Tally o s.delivered s.reports s.matched s.skipped n

/-- A scan has come to the entry behind those that were seen. -/
structure Scanning (s : State) : Prop where
  between : Virtqueue.Between o.rxQueueSize (List.range o.rxBuffers) s.rx s.scan [] s.seen
  pos : s.scan.pos = BitVec.ofNat 16 s.seen.length
  more : s.matched < o.stopAfter
  counted : Counted o s s.seen.length

/-- The entry behind those that were seen has been examined. -/
structure Examining (s : State) : Prop where
  taken : Virtqueue.Taken o.rxQueueSize (List.range o.rxBuffers) s.rx s.scan [] s.seen s.received
  pos : s.scan.pos = BitVec.ofNat 16 s.seen.length

/-- The length and the id of the entry are accepted. -/
def LengthOk (s : State) : Prop :=
  s.received.1 < o.rxBuffers ∧ s.received.2 ≤ o.rxBufferSize ∧
    kVirtioNetHeaderSize + kEthernetHeaderSize ≤ s.received.2

def Facts (s : State) : Pc → Prop
  | .head =>
      Virtqueue.Conserved o.rxQueueSize (List.range o.rxBuffers) s.rx
          (BitVec.ofNat 16 s.seen.length) [] s.seen ∧
        Counted o s s.seen.length ∧
        (s.matched < o.stopAfter → s.lastRxUsedIdx = BitVec.ofNat 16 s.seen.length)
  | .readUsed =>
      Virtqueue.Conserved o.rxQueueSize (List.range o.rxBuffers) s.rx s.lastRxUsedIdx [] s.seen ∧
        Counted o s s.seen.length ∧ s.matched < o.stopAfter ∧
        s.lastRxUsedIdx = BitVec.ofNat 16 s.seen.length
  | .elem => Scanning o s
  | .packet => Scanning o s ∧ s.i < s.scan.count ∧ s.elem = s.rx.usedRing (s.usedSlot o)
  | .ethertype => Examining o s ∧ Counted o s s.seen.length ∧ s.matched < o.stopAfter ∧
      s.elem = s.received ∧ LengthOk o s
  | .report => Examining o s ∧ Counted o s s.seen.length ∧ s.matched < o.stopAfter ∧ LengthOk o s ∧
      s.ethertype = ethertypeOf (s.rxBuf s.received.1) ∧ ¬o.matchEthertype.any (· ≠ s.ethertype)
  | .recycle matching => Examining o s ∧ Counted o s (s.seen.length + 1) ∧ s.id = s.received.1 ∧
      (matching = false → s.matched < o.stopAfter)
  | .recycleIdx matching => Examining o s ∧ Counted o s (s.seen.length + 1) ∧
      (matching = false → s.matched < o.stopAfter) ∧
      s.rx.availRing (s.rx.availIdx.toNat % o.rxQueueSize) = s.received.1
  | .done =>
      Virtqueue.Conserved o.rxQueueSize (List.range o.rxBuffers) s.rx
          (BitVec.ofNat 16 s.seen.length) [] s.seen ∧ Counted o s s.seen.length

/-- **The invariant of the loop.** -/
structure Inv (s : State) : Prop where
  log : Virtqueue.Log s.rx s.seen.length s.rxBuf s.delivered
  facts : Facts o s s.pc

/-- The queue size is a power of two, and there are not more buffers; `stop_after` has 16 bits. -/
structure Options.Valid : Prop where
  power : o.rxQueueSize.isPowerOfTwo
  size : o.rxQueueSize ≤ 32768
  buffers : o.rxBuffers ≤ o.rxQueueSize
  stop : o.stopAfter < 2 ^ 16

variable {o} {s s' : State}

theorem Options.Valid.dvd (ho : o.Valid) : o.rxQueueSize ∣ 2 ^ 16 :=
  isPowerOfTwo_dvd ho.power (ho.size.trans (by decide))

theorem Options.Valid.lt (ho : o.Valid) : o.rxQueueSize < 2 ^ 16 := by
  have hsize := ho.size
  omega

theorem Options.Valid.ids (ho : o.Valid) : (List.range o.rxBuffers).length ≤ o.rxQueueSize := by
  rw [List.length_range]
  exact ho.buffers

/-! ## Counting -/

/-- The entry that is examined is delivered with what is in its buffer. -/
theorem Examining.take (h : Examining o s)
    (hlog : Virtqueue.Log s.rx s.seen.length s.rxBuf s.delivered) :
    s.delivered.take (s.seen.length + 1) =
        s.delivered.take s.seen.length ++ [(s.received, s.rxBuf s.received.1)] ∧
      (s.delivered.take s.seen.length).length = s.seen.length := by
  obtain ⟨done, rest, hsplit, hlen⟩ := hlog.current h.taken.conserved
  have hnext : s.delivered = (done ++ [(s.received, s.rxBuf s.received.1)]) ++ rest := by
    rw [hsplit, List.append_assoc]
    rfl
  have htake : s.delivered.take s.seen.length = done := by
    rw [hsplit]
    exact List.take_left' hlen
  rw [htake]
  refine ⟨?_, hlen⟩
  rw [hnext]
  exact List.take_left' (by rw [List.length_append, hlen]; rfl)

/-- One entry more is delivered than was seen. -/
theorem Examining.expected (h : Examining o s)
    (hlog : Virtqueue.Log s.rx s.seen.length s.rxBuf s.delivered) :
    expected o (s.delivered.take (s.seen.length + 1)) =
      expected o (s.delivered.take s.seen.length) ++
        if matching o (s.received, s.rxBuf s.received.1) then
          [reportOf o s.seen.length (s.received, s.rxBuf s.received.1)]
        else [] := by
  obtain ⟨htake, hlen⟩ := h.take hlog
  rw [htake, expected_snoc, hlen]

theorem Examining.skip (h : Examining o s)
    (hlog : Virtqueue.Log s.rx s.seen.length s.rxBuf s.delivered) (hc : Counted o s s.seen.length)
    (hno : matching o (s.received, s.rxBuf s.received.1) = false) :
    Counted o { s with skipped := (s.skipped + 1) % 2 ^ 32 } (s.seen.length + 1) := by
  have hexpected := h.expected hlog
  rw [hno, if_neg Bool.false_ne_true, List.append_nil] at hexpected
  have hall := hc.all
  refine ⟨hc.reports_eq.trans hexpected.symm, hc.matched_eq, hc.le, ?_, Nat.le_succ_of_le hall⟩
  show (s.skipped + 1) % 2 ^ 32 = (s.seen.length + 1 - s.reports.length) % 2 ^ 32
  rw [hc.skipped_eq]
  omega

/-- **The report is right.** -/
theorem Examining.report (ho : o.Valid) (h : Examining o s)
    (hlog : Virtqueue.Log s.rx s.seen.length s.rxBuf s.delivered) (hc : Counted o s s.seen.length)
    (hmore : s.matched < o.stopAfter)
    (htype : s.ethertype = ethertypeOf (s.rxBuf s.received.1))
    (hyes : matching o (s.received, s.rxBuf s.received.1) = true) :
    Counted o (RxObserve.report o s) (s.seen.length + 1) := by
  have hslot : s.usedSlot o = s.seen.length % o.rxQueueSize := by
    unfold State.usedSlot
    rw [Virtqueue.Scan.slot_eq ho.dvd, h.pos, BitVec.toNat_ofNat, Nat.mod_mod_of_dvd _ ho.dvd]
  have hstop := ho.stop
  have hmatched := hc.matched_eq
  have hsucc : (s.matched + 1) % 2 ^ 16 = s.matched + 1 := Nat.mod_eq_of_lt (by omega)
  have hall := hc.all
  have hskipped := hc.skipped_eq
  refine ⟨?_, ?_, ?_, ?_, ?_⟩
  · rw [show (RxObserve.report o s).delivered = s.delivered from rfl, h.expected hlog, hyes, if_pos rfl,
      ← hc.reports_eq]
    simp only [RxObserve.report, reportOf, hslot, htype]
  · simp only [RxObserve.report, List.length_append, List.length_singleton, hsucc, ← hmatched]
  · simp only [RxObserve.report, hsucc]
    exact hmore
  · simp only [RxObserve.report, List.length_append, List.length_singleton, hskipped]
    congr 1
    omega
  · simp only [RxObserve.report, List.length_append, List.length_singleton]
    omega

/-! ## Steps of the driver -/

theorem Examining.id_lt (h : Examining o s) : s.received.1 < o.rxBuffers := by
  apply List.mem_range.1
  apply h.taken.conserved.places.subset
  simp

/-- `read_rx_used_packet` accepts what the report is about. -/
theorem matching_iff (s : State) : matching o (s.received, s.rxBuf s.received.1) = true ↔
    LengthOk o s ∧ ¬o.matchEthertype.any (· ≠ ethertypeOf (s.rxBuf s.received.1)) := by
  simp [matching, rxAccepts, LengthOk, and_assoc]

theorem skip_inv (h : Examining o s) (hlog : Virtqueue.Log s.rx s.seen.length s.rxBuf s.delivered)
    (hc : Counted o s s.seen.length) (hmore : s.matched < o.stopAfter) (helem : s.elem = s.received)
    (hno : ¬matching o (s.received, s.rxBuf s.received.1) = true) : Inv o (skip o s) := by
  have hcounted := h.skip hlog hc (Bool.eq_false_iff.2 hno)
  unfold skip
  dsimp only
  rw [helem, if_pos h.id_lt]
  exact ⟨hlog, ⟨h.taken, h.pos⟩, hcounted, rfl,
    fun _ => hmore⟩

theorem readUsed_inv
    (hlog : Virtqueue.Log s.rx s.seen.length s.rxBuf s.delivered) (h : Facts o s .readUsed) :
    Inv o (readUsed s) := by
  obtain ⟨hconserved, hcounted, hmore, hlast⟩ := h
  unfold readUsed
  split
  · refine ⟨hlog, ?_, hcounted, fun _ => hlast⟩
    rw [← hlast]
    exact hconserved
  · refine ⟨hlog, Virtqueue.Between.start hconserved, ?_, hmore, hcounted⟩
    exact (Virtqueue.Scan.start_pos _ _).trans hlast

theorem elem_inv (hlog : Virtqueue.Log s.rx s.seen.length s.rxBuf s.delivered)
    (h : Scanning o s) : Inv o (elem o s) := by
  unfold elem
  split
  · rename_i hi
    exact ⟨hlog, ⟨h.between, h.pos, h.more, h.counted⟩, hi, rfl⟩
  · rename_i hi
    have hend : s.currentRxUsed = BitVec.ofNat 16 s.seen.length := by
      rw [← h.pos]
      exact (Virtqueue.Scan.pos_of_end (Nat.le_antisymm h.between.le (Nat.not_lt.1 hi))).symm
    refine ⟨hlog, ?_, h.counted, fun _ => hend⟩
    rw [← hend]
    exact h.between.finish hi

theorem packet_inv (ho : o.Valid) (hlog : Virtqueue.Log s.rx s.seen.length s.rxBuf s.delivered)
    (h : Facts o s .packet) : Inv o (packet o s) := by
  obtain ⟨hscan, hi, helem⟩ := h
  have hexamine : Examining o { s with received := s.rx.usedRing (s.usedSlot o) } :=
    ⟨hscan.between.take ho.dvd hi, hscan.pos⟩
  have hskip : ¬LengthOk o { s with received := s.rx.usedRing (s.usedSlot o) } →
      Inv o (skip o { s with received := s.rx.usedRing (s.usedSlot o) }) := by
    intro hlength
    refine skip_inv hexamine hlog hscan.counted hscan.more helem fun hyes => ?_
    exact hlength ((matching_iff _).1 hyes).1
  unfold packet
  dsimp only
  split
  · rename_i hid
    exact hskip fun hlength => absurd hlength.1 (Nat.not_lt.2 hid)
  · rename_i hid
    split
    · rename_i hlen
      exact hskip fun hlength => absurd hlength.2.1 (Nat.not_le.2 hlen)
    · rename_i hlen
      split
      · rename_i hshort
        exact hskip fun hlength => absurd hlength.2.2 (Nat.not_le.2 hshort)
      · rename_i hshort
        exact ⟨hlog, ⟨hexamine.taken, hexamine.pos⟩, hscan.counted, hscan.more, helem, Nat.not_le.1 hid, Nat.not_lt.1 hlen,
          Nat.not_lt.1 hshort⟩

theorem ethertype_inv (hlog : Virtqueue.Log s.rx s.seen.length s.rxBuf s.delivered)
    (h : Facts o s .ethertype) : Inv o (ethertype o s) := by
  obtain ⟨hexamine, hcounted, hmore, helem, hlength⟩ := h
  unfold ethertype
  dsimp only
  split
  · rename_i hother
    refine skip_inv (s := { s with ethertype := ethertypeOf (s.rxBuf s.received.1) })
      ⟨hexamine.taken, hexamine.pos⟩ hlog
      hcounted hmore helem fun hyes => ?_
    exact ((matching_iff _).1 hyes).2 hother
  · rename_i hsame
    exact ⟨hlog, ⟨hexamine.taken, hexamine.pos⟩,
      hcounted, hmore, hlength, rfl, hsame⟩

theorem report_inv (ho : o.Valid) (hlog : Virtqueue.Log s.rx s.seen.length s.rxBuf s.delivered)
    (h : Facts o s .report) : Inv o (report o s) := by
  obtain ⟨hexamine, hcounted, hmore, hlength, htype, hsame⟩ := h
  rw [htype] at hsame
  have hyes := (matching_iff s).2 ⟨hlength, hsame⟩
  exact ⟨hlog, ⟨hexamine.taken, hexamine.pos⟩, hexamine.report ho hlog hcounted hmore htype hyes, rfl,
    nofun⟩

theorem recycle_inv (ho : o.Valid) (matching : Bool)
    (hlog : Virtqueue.Log s.rx s.seen.length s.rxBuf s.delivered)
    (h : Facts o s (.recycle matching)) : Inv o (recycle o matching s) := by
  obtain ⟨hexamine, hcounted, hid, hmore⟩ := h
  have hbuffers := ho.buffers
  have hlt := ho.lt
  have hsmall : s.id % 2 ^ 16 = s.received.1 := by
    have hid_lt := hexamine.id_lt
    rw [hid]
    exact Nat.mod_eq_of_lt (by omega)
  refine ⟨hlog.congr rfl, ⟨hexamine.taken.store ho.dvd ho.ids _, hexamine.pos⟩,
    hcounted, hmore, ?_⟩
  exact (Function.update_self _ _ _).trans hsmall

theorem recycleIdx_inv (ho : o.Valid) (matching : Bool)
    (hlog : Virtqueue.Log s.rx s.seen.length s.rxBuf s.delivered)
    (h : Facts o s (.recycleIdx matching)) : Inv o (recycleIdx o matching s) := by
  obtain ⟨hexamine, hcounted, hmore, hslot⟩ := h
  have hpost := hexamine.taken.post ho.dvd ho.lt ho.ids hslot
  have hlen : (s.seen ++ [s.received]).length = s.seen.length + 1 := by simp
  have hpos : s.scan.next.pos = BitVec.ofNat 16 (s.seen ++ [s.received]).length := by
    rw [Virtqueue.Scan.next_pos, hexamine.pos, hlen, BitVec.ofNat_add]
    rfl
  have hlog' : Virtqueue.Log s.rx.post (s.seen ++ [s.received]).length s.rxBuf s.delivered :=
    (hlog.mono (by omega)).congr rfl
  rw [← hlen] at hcounted
  unfold recycleIdx
  dsimp only
  split
  · rename_i hstop
    refine ⟨hlog', ?_, hcounted,
      fun hlt => absurd hlt (Nat.not_lt.2 hstop.2)⟩
    rw [← hpos]
    exact hpost.conserved
  · rename_i hgo
    refine ⟨hlog', hpost, hpos, ?_, hcounted⟩
    cases matching with
    | false => exact hmore rfl
    | true => exact Nat.not_le.1 fun hle => hgo ⟨rfl, hle⟩

theorem Inv.run (ho : o.Valid) (h : Inv o s) (hs : run o s = some s') : Inv o s' := by
  obtain ⟨hlog, hfacts⟩ := h
  unfold RxObserve.run at hs
  cases hpc : s.pc with
  | head | done =>
    rw [hpc] at hs
    cases hs
  | readUsed =>
    rw [hpc] at hs hfacts
    cases hs
    exact readUsed_inv hlog hfacts
  | elem =>
    rw [hpc] at hs hfacts
    cases hs
    exact elem_inv hlog hfacts
  | packet =>
    rw [hpc] at hs hfacts
    cases hs
    exact packet_inv ho hlog hfacts
  | ethertype =>
    rw [hpc] at hs hfacts
    cases hs
    exact ethertype_inv hlog hfacts
  | report =>
    rw [hpc] at hs hfacts
    cases hs
    exact report_inv ho hlog hfacts
  | recycle matching =>
    rw [hpc] at hs hfacts
    cases hs
    exact recycle_inv ho matching hlog hfacts
  | recycleIdx matching =>
    rw [hpc] at hs hfacts
    cases hs
    exact recycleIdx_inv ho matching hlog hfacts

theorem Inv.clock {timeLeft : Bool} (h : Inv o s) (hs : clock o s timeLeft = some s') :
    Inv o s' := by
  obtain ⟨hlog, hfacts⟩ := h
  unfold RxObserve.clock at hs
  split at hs
  · rename_i hpc
    rw [hpc] at hfacts
    obtain ⟨hconserved, hcounted, hlast⟩ := hfacts
    cases hs
    refine ⟨hlog, ?_⟩
    dsimp only
    split
    · rename_i hmore
      have hlast := hlast hmore.1
      refine ⟨?_, hcounted, hmore.1, hlast⟩
      rw [hlast]
      exact hconserved
    · exact ⟨hconserved, hcounted⟩
  · cases hs

/-! ## Steps of the device -/

/-- What the driver has examined does not change when the device delivers more. -/
theorem Tally.logged {v v' : Virtqueue} {buf : Nat → List UInt8}
    {delivered : List ((Nat × Nat) × List UInt8)} {reports : List Report} {matched skipped n : Nat}
    (h : Tally o delivered reports matched skipped n) (hn : n ≤ delivered.length) :
    Tally o (Virtqueue.logged v v' buf delivered) reports matched skipped n := by
  refine ⟨?_, h.matched_eq, h.le, h.skipped_eq, h.all⟩
  rw [Virtqueue.logged, List.take_append_of_le_length hn]
  exact h.reports_eq

/-- Every id is in one place, and beyond what was seen at most the entry that is examined has been
taken from the queue. -/
theorem Facts.conserved (h : Facts o s s.pc) : ∃ pos mine seen,
    Virtqueue.Conserved o.rxQueueSize (List.range o.rxBuffers) s.rx pos mine seen ∧
      s.seen <+: seen ∧ mine = (seen.drop s.seen.length).map Prod.fst := by
  have hidle : [] = (s.seen.drop s.seen.length).map Prod.fst := by simp
  have hbusy : [s.received.1] = ((s.seen ++ [s.received]).drop s.seen.length).map Prod.fst := by simp
  generalize hpc : s.pc = pc at h
  cases pc with
  | head | readUsed | done => exact ⟨_, _, _, h.1, List.prefix_refl _, hidle⟩
  | elem => exact ⟨_, _, _, h.between.conserved, List.prefix_refl _, hidle⟩
  | packet => exact ⟨_, _, _, h.1.between.conserved, List.prefix_refl _, hidle⟩
  | ethertype | report | recycle | recycleIdx =>
    exact ⟨_, _, _, h.1.taken.conserved, List.prefix_append _ _, hbusy⟩

theorem Facts.seen_le (h : Facts o s s.pc) : s.seen.length ≤ s.rx.returned.length := by
  obtain ⟨pos, mine, seen, hconserved, hprefix, -⟩ := h.conserved
  rw [hconserved.history, List.length_append]
  exact hprefix.length_le.trans (Nat.le_add_right _ _)

/-- **The device acts on the queue.** -/
theorem Inv.device (ho : o.Valid) (h : Inv o s) {a : DeviceAction} {rx : Virtqueue}
    (hs : s.rx.device o.rxQueueSize a = some rx) :
    Inv o { s with rx := rx, delivered := Virtqueue.logged s.rx rx s.rxBuf s.delivered } := by
  obtain ⟨hlog, hfacts⟩ := h
  have hdvd := ho.dvd
  have hlt := ho.lt
  have hids := ho.ids
  refine ⟨hlog.device hfacts.seen_le hs, ?_⟩
  have hlen : s.delivered.length = s.rx.returned.length := by
    rw [← hlog.entries, List.length_map]
  have hcount : ∀ {n}, n ≤ s.delivered.length → Counted o s n →
      Tally o (Virtqueue.logged s.rx rx s.rxBuf s.delivered) s.reports s.matched s.skipped n :=
    fun hn hc => hc.logged hn
  have hseen : s.seen.length ≤ s.delivered.length := hlen ▸ hfacts.seen_le
  have hscan : Scanning o s →
      Scanning o { s with rx := rx, delivered := Virtqueue.logged s.rx rx s.rxBuf s.delivered } :=
    fun h => ⟨h.between.device hdvd hlt hids hs, h.pos, h.more, hcount hseen h.counted⟩
  have hexamine : Examining o s →
      Examining o { s with rx := rx, delivered := Virtqueue.logged s.rx rx s.rxBuf s.delivered } ∧
        s.seen.length + 1 ≤ s.delivered.length := by
    intro h
    obtain ⟨done, rest, hsplit, hdone⟩ := hlog.current h.taken.conserved
    refine ⟨⟨h.taken.device hdvd hlt hids hs, h.pos⟩, ?_⟩
    rw [hsplit, List.length_append, hdone, List.length_cons]
    omega
  suffices hall : ∀ pc, Facts o s pc → Facts o { s with
      rx := rx, delivered := Virtqueue.logged s.rx rx s.rxBuf s.delivered } pc from hall s.pc hfacts
  intro pc hpc
  cases pc with
  | head =>
    obtain ⟨hconserved, hcounted, hlast⟩ := hpc
    exact ⟨hconserved.device hdvd hlt hids hs, hcount hseen hcounted, hlast⟩
  | readUsed =>
    obtain ⟨hconserved, hcounted, hrest⟩ := hpc
    exact ⟨hconserved.device hdvd hlt hids hs, hcount hseen hcounted, hrest⟩
  | elem => exact hscan hpc
  | packet =>
    obtain ⟨h, hi, helem⟩ := hpc
    refine ⟨hscan h, hi, helem.trans ?_⟩
    exact (h.between.entry_stable hdvd hlt hids hi hs).symm
  | ethertype =>
    obtain ⟨h, hcounted, hrest⟩ := hpc
    exact ⟨(hexamine h).1, hcount hseen hcounted, hrest⟩
  | report =>
    obtain ⟨h, hcounted, hrest⟩ := hpc
    exact ⟨(hexamine h).1, hcount hseen hcounted, hrest⟩
  | recycle matching =>
    obtain ⟨h, hcounted, hrest⟩ := hpc
    exact ⟨(hexamine h).1, hcount (hexamine h).2 hcounted, hrest⟩
  | recycleIdx matching =>
    obtain ⟨h, hcounted, hmore, hslot⟩ := hpc
    obtain ⟨hring, hidx⟩ := Virtqueue.device_avail hs
    refine ⟨(hexamine h).1, hcount (hexamine h).2 hcounted, hmore, ?_⟩
    rw [hring, hidx]
    exact hslot
  | done =>
    obtain ⟨hconserved, hcounted⟩ := hpc
    exact ⟨hconserved.device hdvd hlt hids hs, hcount hseen hcounted⟩

/-- **The device fills a buffer that it holds.** -/
theorem Inv.fill (h : Inv o s) {id : Nat} (hid : id ∈ s.rx.held) (data : List UInt8) :
    Inv o { s with rxBuf := Function.update s.rxBuf id data } := by
  obtain ⟨hlog, hfacts⟩ := h
  have hnodup : (List.range o.rxBuffers).Nodup := List.nodup_range
  obtain ⟨pos, mine, seen, hconserved, -, hmine⟩ := hfacts.conserved
  have hmem : ∀ e ∈ seen.drop s.seen.length, e.1 ∈ mine := fun e he =>
    hmine ▸ List.mem_map_of_mem he
  refine ⟨hlog.fill hconserved hnodup hmem hid data, ?_⟩
  suffices hall : ∀ pc, Facts o s pc →
      Facts o { s with rxBuf := Function.update s.rxBuf id data } pc from hall s.pc hfacts
  intro pc hpc
  cases pc with
  | head | readUsed | done => exact hpc
  | elem => exact ⟨hpc.between, hpc.pos, hpc.more, hpc.counted⟩
  | packet =>
    obtain ⟨h, hrest⟩ := hpc
    exact ⟨⟨h.between, h.pos, h.more, h.counted⟩, hrest⟩
  | ethertype | recycle | recycleIdx =>
    obtain ⟨h, hrest⟩ := hpc
    exact ⟨⟨h.taken, h.pos⟩, hrest⟩
  | report =>
    -- the buffer that is reported is the driver's
    obtain ⟨h, hcounted, hmore, hlength, htype, hsame⟩ := hpc
    refine ⟨⟨h.taken, h.pos⟩, hcounted, hmore, hlength, ?_, hsame⟩
    have hne := h.taken.ne_held hnodup hid
    show s.ethertype = ethertypeOf (Function.update s.rxBuf id data s.received.1)
    rw [Function.update_of_ne hne.symm]
    exact htype

theorem init_inv (ho : o.Valid) : Inv o (init o) := by
  have hconserved := Virtqueue.posted_conserved ho.buffers ho.lt (f := id) fun _ _ => rfl
  exact ⟨⟨rfl, nofun⟩, hconserved, ⟨rfl, rfl, Nat.zero_le _, rfl, Nat.le_refl _⟩, fun _ => rfl⟩

theorem Inv.step (ho : o.Valid) (h : Inv o s) {e : Event} (hs : step o s e = some s') : Inv o s' := by
  cases e with
  | run => exact h.run ho hs
  | clock timeLeft => exact h.clock hs
  | device a =>
    obtain ⟨rx, hrx, rfl⟩ := Option.map_eq_some_iff.1 hs
    exact h.device ho hrx
  | fill id data =>
    obtain ⟨hid, hs'⟩ := Option.ite_none_right_eq_some.1 hs
    obtain rfl := Option.some.inj hs'
    exact h.fill hid data

theorem run_inv (ho : o.Valid) {es : List Event} (h : (machine o).run es = some s) : Inv o s :=
  Machine.run_inv (init_inv ho) (fun _ _ _ hi hs => hi.step ho hs) h

/-! ## The report -/

/-- The entry that is being handed back has been examined as well. -/
def State.examined (s : State) : Nat :=
  match s.pc with
  | .recycle _ | .recycleIdx _ => s.seen.length + 1
  | _ => s.seen.length

/-- **What holds after every run** of the loop. -/
structure Observed (o : Options) (s : State) : Prop where
  /-- The report is that of the first packets that were delivered, as they were delivered. -/
  reports : s.reports = expected o (s.delivered.take s.examined)
  delivered : s.delivered.map Prod.fst = s.rx.returned
  /-- Each entry is handed back once, in the order of their delivery. -/
  recycled : s.seen <+: s.rx.returned
  matched : s.matched = s.reports.length ∧ s.matched ≤ o.stopAfter
  skipped : s.skipped = (s.examined - s.reports.length) % 2 ^ 32
  /-- Every buffer is posted, with the device, or returned and not handed back. -/
  places : (s.rx.waiting o.rxQueueSize ++ (s.rx.held ++
    (s.rx.returned.drop s.seen.length).map Prod.fst)).Perm (List.range o.rxBuffers)
  /-- When the loop finds nothing new and goes on, everything has been examined. -/
  current : s.pc = .readUsed → s.rx.usedIdx = s.lastRxUsedIdx → s.seen = s.rx.returned

theorem Facts.counted (h : Facts o s s.pc) : Counted o s s.examined := by
  unfold State.examined
  generalize s.pc = pc at h
  cases pc with
  | head => exact h.2.1
  | readUsed => exact h.2.1
  | elem => exact Scanning.counted h
  | packet => exact h.1.counted
  | ethertype | report | recycle | recycleIdx => exact h.2.1
  | done => exact h.2

/-- **The report.**  Whatever the device does, the loop reports exactly the matching packets among those
it has examined, as the device has delivered them, and loses no buffer. -/
theorem rxObserve_reports (ho : o.Valid) {es : List Event} (h : (machine o).run es = some s) :
    Observed o s := by
  obtain ⟨hlog, hfacts⟩ := run_inv ho h
  obtain ⟨hreports, hmatched, hle, hskipped, -⟩ := hfacts.counted
  obtain ⟨pos, mine, seen, hconserved, hprefix, hmine⟩ := hfacts.conserved
  refine ⟨hreports, hlog.entries, ?_, ⟨hmatched, hle⟩, hskipped, ?_, fun hpc hidx => ?_⟩
  · rw [hconserved.history]
    exact hprefix.trans (List.prefix_append _ _)
  · have hplaces := hconserved.places
    rw [hconserved.history, List.drop_append_of_le_length hprefix.length_le, List.map_append, ← hmine]
    exact ((List.perm_append_comm.append_left _).append_left _).trans hplaces
  · rw [hpc] at hfacts
    obtain ⟨hc, -⟩ := hfacts
    rw [hc.history, Virtqueue.unseen_eq_nil.2 hidx.symm, List.append_nil]

/-- A frame of another protocol, and then one that matches in the same batch. -/
def twoFrames : List Event :=
  [.device .pop, .device .pop, .fill 1 (List.replicate 24 1 ++ [0x88, 0xb5]),
    .device (.write 0 26), .device .publish, .device (.write 1 26), .clock true, .device .publish,
    .run, .run, .run, .run, .run, .run, .run, .run, .run, .run, .run, .run, .clock true]

theorem rxObserve_reports_twoFrames : ∃ s,
    (machine ⟨2, 2, 64, 1, some 0x88b5⟩).run twoFrames = some s ∧ s.pc = .done ∧ s.skipped = 1 ∧
      s.reports = [⟨1, 1, 26, List.replicate 6 1, List.replicate 6 1, 0x88b5⟩] ∧
      Observed ⟨2, 2, 64, 1, some 0x88b5⟩ s := by
  have ho : Options.Valid ⟨2, 2, 64, 1, some 0x88b5⟩ := ⟨⟨1, rfl⟩, by decide, by decide, by decide⟩
  obtain ⟨s, hs, hpc, hskipped, hreports⟩ : ∃ s,
      (machine ⟨2, 2, 64, 1, some 0x88b5⟩).run twoFrames = some s ∧ s.pc = .done ∧ s.skipped = 1 ∧
        s.reports = [⟨1, 1, 26, List.replicate 6 1, List.replicate 6 1, 0x88b5⟩] :=
    ⟨_, rfl, rfl, rfl, rfl⟩
  exact ⟨s, hs, hpc, hskipped, hreports, rxObserve_reports ho hs⟩

end Inv

end AdvCpp.Virtio.RxObserve
