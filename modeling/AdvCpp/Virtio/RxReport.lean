import AdvCpp.Lib.Machine
import AdvCpp.Lib.Multiples
import AdvCpp.Lib.Virtqueue
import AdvCpp.Virtio.Packet

/-!
# The report of received buffers

`21_virtio_net_rx_buffers.cpp` posts RX buffers, sets DRIVER_OK, notifies the device, waits, and
reports the used entries between two reads of `used.idx`.  The device may return buffers at any
moment after DRIVER_OK.

* `machine` — `run_rx_buffers` from `set_driver_ok` to the report, in every interleaving.
* `Inv.step` — every step keeps the invariant.
* `reportedRange_eq` — the report is about what was returned after the first read.
* `rxReport_complete_iff` — in which runs that is everything.
-/

namespace AdvCpp.Virtio.RxReport

open AdvCpp.Lib

/-! ## The source -/

/-- What this part reads of the options and the layout. -/
structure Options where
  rxQueueSize : Nat
  rxBuffers : Nat
  waitMs : Nat

inductive Pc where
  | driverOk
  | printStatus
  | notify
  | readBase
  /-- `steady_clock::now() < deadline` -/
  | head
  | poll
  | readFinal
  /-- `print_rx_used_entries`: the condition of its loop and `elems[slot].id`, and then `.len`. -/
  | entry
  | entryLen
  | reported
  deriving DecidableEq

/-- The shared queue and the locals of `run_rx_buffers`.  `lines` are the lines of the report (slot,
id and length); `published` records what the device had returned at the final read. -/
structure State where
  pc : Pc
  live : Bool
  rx : Virtqueue
  usedBeforeWait : BitVec 16
  usedAfterWait : BitVec 16
  i : Nat
  id : Nat
  lines : List (Nat × Nat × Nat)
  published : List (Nat × Nat)

inductive Event where
  | run
  | clock (timeLeft : Bool)
  | rxDevice (a : DeviceAction)
  deriving DecidableEq

/-- The avail ring after the loop of `publish_rx_buffers`. -/
def publishedRing (rxBuffers : Nat) : Nat → Nat :=
  (List.range rxBuffers).foldl (fun ring i => Function.update ring i i) (fun _ => 0)

section Driver

variable (o : Options)

/-- The zeroed queue after `publish_rx_buffers`, and a device that has not been started. -/
def init : State where
  pc := .driverOk
  live := false
  rx := { Virtqueue.zero with
    availRing := publishedRing o.rxBuffers, availIdx := BitVec.ofNat 16 o.rxBuffers }
  usedBeforeWait := 0
  usedAfterWait := 0
  i := 0
  id := 0
  lines := []
  published := []

/-- `used_delta(used_before_wait, used_after_wait)` -/
def State.delta (s : State) : Nat := (s.usedAfterWait - s.usedBeforeWait).toNat

/-- `to_print` -/
def State.toPrint (s : State) : Nat := min s.delta 8

/-- `slot` -/
def State.slot (s : State) : Nat := (s.usedBeforeWait.toNat + s.i) % o.rxQueueSize

/-- A turn of the loop that polls; the pause behind it is no step. -/
def poll (s : State) : State :=
  if s.rx.usedIdx ≠ s.usedBeforeWait then { s with pc := .readFinal } else { s with pc := .head }

def entry (s : State) : State :=
  if s.i < s.toPrint then { s with pc := .entryLen, id := (s.rx.usedRing (s.slot o)).1 }
  else { s with pc := .reported }

def entryLen (s : State) : State :=
  { s with
    pc := .entry, i := s.i + 1
    lines := s.lines ++ [(s.slot o, s.id, (s.rx.usedRing (s.slot o)).2)] }

/-- The steps that do not ask for the time. -/
def run (s : State) : Option State :=
  match s.pc with
  | .driverOk => some { s with pc := .printStatus, live := true }
  | .printStatus => some { s with pc := .notify }
  | .notify => some { s with pc := .readBase }
  | .readBase =>
    some { s with
      pc := if 0 < o.waitMs then .head else .readFinal, usedBeforeWait := s.rx.usedIdx }
  | .poll => some (poll s)
  | .readFinal =>
    some { s with
      pc := .entry, usedAfterWait := s.rx.usedIdx, i := 0, published := s.rx.returned }
  | .entry => some (entry o s)
  | .entryLen => some (entryLen o s)
  | .head | .reported => none

def step (s : State) : Event → Option State
  | .run => run o s
  | .clock timeLeft =>
    if s.pc = .head then some { s with pc := if timeLeft then .poll else .readFinal } else none
  | .rxDevice a =>
    if s.live then (s.rx.device o.rxQueueSize a).map fun rx => { s with rx := rx } else none

def machine : Machine State Event := ⟨init o, step o⟩

/-! ## What the report is about -/

/-- The used entries between the two reads: `delta` of them, from slot `used_before_wait` on. -/
def reportedRange (s : State) : List (Nat × Nat) :=
  CounterRing.contents o.rxQueueSize ⟨s.rx.usedRing, s.usedBeforeWait, s.usedAfterWait⟩

/-- Everything returned between DRIVER_OK and the final read is counted, and in the range. -/
structure Complete (s : State) : Prop where
  counted : s.delta = s.published.length
  covered : reportedRange o s = s.published

/-- DRIVER_OK up to the first read, the wait, and the report. -/
inductive Phase where
  | before
  | waiting
  | reporting
  deriving DecidableEq

def Pc.phase : Pc → Phase
  | .driverOk | .printStatus | .notify | .readBase => .before
  | .head | .poll | .readFinal => .waiting
  | .entry | .entryLen | .reported => .reporting

/-- The device returns nothing between DRIVER_OK and the first read. -/
def Quiet (s : State) (e : Event) : Prop := e = .rxDevice .publish → s.pc.phase ≠ .before

/-! ## The invariant -/

/-- The queue size is a power of two, and there are not more buffers. -/
structure Options.Valid : Prop where
  power : o.rxQueueSize.isPowerOfTwo
  size : o.rxQueueSize ≤ 32768
  buffers : o.rxBuffers ≤ o.rxQueueSize

/-- The line about the `j`-th reported entry. -/
def lineOf (s : State) (j : Nat) : Nat × Nat × Nat :=
  ((s.usedBeforeWait.toNat + j) % o.rxQueueSize,
    s.published.getD (s.usedBeforeWait.toNat + j) (0, 0))

/-- What the loop of `print_rx_used_entries` has printed. -/
structure Printed (s : State) : Prop where
  le : s.i ≤ s.toPrint
  lines : s.lines = (List.range s.i).map (lineOf o s)

/-- After the final read. -/
structure Reporting (s : State) : Prop where
  order : s.usedBeforeWait.toNat ≤ s.usedAfterWait.toNat
  isPrefix : s.published <+: s.rx.returned
  length : s.published.length = s.usedAfterWait.toNat

/-- What holds in each phase, where `a` says that all steps were `Quiet`. -/
def PhaseFacts (a : Prop) (s : State) : Phase → Prop
  | .before => a ↔ s.rx.returned = []
  | .waiting => (a ↔ s.usedBeforeWait = 0) ∧ s.usedBeforeWait.toNat ≤ s.rx.returned.length
  | .reporting => (a ↔ s.usedBeforeWait = 0) ∧ Reporting s

def PcFacts (s : State) : Pc → Prop
  | .driverOk => s.live = false
  | .entry => Printed o s
  | .entryLen => Printed o s ∧ s.i < s.toPrint ∧ s.id = (lineOf o s s.i).2.1
  | .reported => Printed o s ∧ s.i = s.toPrint
  | _ => True

/-- No entry of the used ring is ever overwritten: it is seen from its start. -/
structure Inv (a : Prop) (s : State) : Prop where
  queue : Virtqueue.Conserved o.rxQueueSize (List.range o.rxBuffers) s.rx 0 [] []
  phase : PhaseFacts a s s.pc.phase
  atPc : PcFacts o s s.pc
  lines : s.pc.phase ≠ .reporting → s.lines = []

variable {o} {a : Prop} {s s' : State}

theorem Options.Valid.dvd (ho : o.Valid) : o.rxQueueSize ∣ 2 ^ 16 :=
  isPowerOfTwo_dvd ho.power (ho.size.trans (by decide))

theorem Options.Valid.lt (ho : o.Valid) : o.rxQueueSize < 2 ^ 16 :=
  ho.size.trans_lt (by decide)

theorem Options.Valid.ids (ho : o.Valid) : (List.range o.rxBuffers).length ≤ o.rxQueueSize := by
  rw [List.length_range]
  exact ho.buffers

theorem publishedRing_apply {n : Nat} : ∀ j < n, publishedRing n j = j := by
  induction n with
  | zero => exact fun j hj => absurd hj (Nat.not_lt_zero j)
  | succ n ih =>
    intro j hj
    rw [publishedRing, List.range_succ, List.foldl_concat]
    by_cases hjn : j = n
    · rw [hjn, Function.update_self]
    · rw [Function.update_of_ne hjn]
      exact ih j (by omega)

/-- The counter is the number of entries. -/
theorem Inv.length (h : Inv o a s) : s.rx.returned.length = s.rx.usedIdx.toNat := by
  rw [h.queue.history, List.nil_append, Virtqueue.unseen_length]
  exact congrArg BitVec.toNat (BitVec.sub_zero _)

/-- The ring still holds all entries. -/
theorem Inv.usedRing (h : Inv o a s) {k : Nat} (hk : k < s.rx.returned.length) :
    s.rx.usedRing (k % o.rxQueueSize) = s.rx.returned.getD k (0, 0) := by
  have hlt : k < CounterRing.size ⟨s.rx.usedRing, 0, s.rx.usedIdx⟩ := by
    show k < (s.rx.usedIdx - 0#16).toNat
    rw [BitVec.sub_zero, ← h.length]
    exact hk
  rw [h.queue.history, List.nil_append, Virtqueue.unseen, CounterRing.contents,
    List.getD_eq_getElem?_getD, List.getElem?_map, List.getElem?_range hlt]
  show _ = s.rx.usedRing ((0 + k) % o.rxQueueSize)
  rw [Nat.zero_add]

theorem delta_eq (h : Reporting s) : s.delta = s.usedAfterWait.toNat - s.usedBeforeWait.toNat := by
  have horder := h.order
  have hlt := s.usedAfterWait.isLt
  unfold State.delta
  rw [BitVec.toNat_sub]
  omega

/-- What a slot of the range holds. -/
theorem Inv.usedRing_published (h : Inv o a s) (hr : Reporting s) {j : Nat} (hj : j < s.delta) :
    s.rx.usedRing ((s.usedBeforeWait.toNat + j) % o.rxQueueSize) =
      s.published.getD (s.usedBeforeWait.toNat + j) (0, 0) := by
  rw [delta_eq hr] at hj
  have hlength := hr.length
  obtain ⟨rest, hrest⟩ := hr.isPrefix
  have hlt : s.usedBeforeWait.toNat + j < s.published.length := by omega
  have hreturned : s.usedBeforeWait.toNat + j < s.rx.returned.length := by
    rw [← hrest, List.length_append]
    omega
  rw [h.usedRing hreturned, ← hrest, List.getD_append _ _ _ _ hlt]

theorem PhaseFacts.congr {b : Prop} (hab : a ↔ b) {ph : Phase} :
    PhaseFacts a s ph ↔ PhaseFacts b s ph := by
  rw [propext hab]

theorem Inv.congr {b : Prop} (hab : a ↔ b) : Inv o a s ↔ Inv o b s := by
  rw [propext hab]

/-! ## Steps -/

theorem init_inv (ho : o.Valid) : Inv o True (init o) where
  queue := Virtqueue.posted_conserved ho.buffers ho.lt publishedRing_apply
  phase := iff_of_true trivial rfl
  atPc := rfl
  lines := fun _ => rfl

/-- **The first read.** -/
theorem readBase_inv (h : Inv o a s) (hpc : s.pc = .readBase) :
    Inv o a { s with
      pc := if 0 < o.waitMs then .head else .readFinal, usedBeforeWait := s.rx.usedIdx } := by
  have hphase := h.phase
  rw [hpc] at hphase
  have hlength := h.length
  have hfacts : PhaseFacts a { s with usedBeforeWait := s.rx.usedIdx } .waiting := by
    refine ⟨hphase.trans ?_, Nat.le_of_eq hlength.symm⟩
    rw [← List.length_eq_zero_iff, hlength]
    exact ⟨fun hzero => BitVec.eq_of_toNat_eq hzero, fun hzero => congrArg BitVec.toNat hzero⟩
  refine ⟨h.queue, ?_, ?_, fun _ => h.lines (by rw [hpc]; decide)⟩
  · dsimp only
    split
    · exact hfacts
    · exact hfacts
  · dsimp only
    split
    · trivial
    · trivial

/-- **The final read.** -/
theorem readFinal_inv (h : Inv o a s) (hpc : s.pc = .readFinal) :
    Inv o a { s with
      pc := .entry, usedAfterWait := s.rx.usedIdx, i := 0, published := s.rx.returned } := by
  have hphase := h.phase
  rw [hpc] at hphase
  obtain ⟨hquiet, hle⟩ := hphase
  have hlength := h.length
  have hlines := h.lines (by rw [hpc]; decide)
  refine ⟨h.queue, ⟨hquiet, ?_, List.prefix_refl _, hlength⟩, ⟨Nat.zero_le _, hlines⟩, by simp [Pc.phase]⟩
  show s.usedBeforeWait.toNat ≤ s.rx.usedIdx.toNat
  rw [← hlength]
  exact hle

/-- Where the report is being printed. -/
theorem Inv.reporting (h : Inv o a s) (hpc : s.pc.phase = .reporting) :
    (a ↔ s.usedBeforeWait = 0) ∧ Reporting s := by
  have hphase := h.phase
  rw [hpc] at hphase
  exact hphase

/-- **The id of the next entry**, or the end of the report. -/
theorem entry_inv (h : Inv o a s) (hpc : s.pc = .entry) : Inv o a (entry o s) := by
  have hat := h.atPc
  obtain ⟨hquiet, hr⟩ := h.reporting (by rw [hpc]; rfl)
  rw [hpc] at hat
  obtain ⟨hle, hlines⟩ := hat
  unfold entry
  split
  · rename_i hlt
    have hdelta : s.i < s.delta := lt_of_lt_of_le hlt (Nat.min_le_left _ _)
    have hread := congrArg Prod.fst (h.usedRing_published hr hdelta)
    exact ⟨h.queue, ⟨hquiet, hr.order, hr.isPrefix, hr.length⟩, ⟨⟨hle, hlines⟩, hlt, hread⟩,
      fun hne => absurd rfl hne⟩
  · rename_i hge
    exact ⟨h.queue, ⟨hquiet, hr.order, hr.isPrefix, hr.length⟩,
      ⟨⟨hle, hlines⟩, Nat.le_antisymm hle (Nat.not_lt.1 hge)⟩, fun hne => absurd rfl hne⟩

/-- **A line is printed.** -/
theorem entryLen_inv (h : Inv o a s) (hpc : s.pc = .entryLen) : Inv o a (entryLen o s) := by
  have hat := h.atPc
  obtain ⟨hquiet, hr⟩ := h.reporting (by rw [hpc]; rfl)
  rw [hpc] at hat
  obtain ⟨⟨-, hlines⟩, hlt, hid⟩ := hat
  have hdelta : s.i < s.delta := lt_of_lt_of_le hlt (Nat.min_le_left _ _)
  have hline : (s.slot o, s.id, (s.rx.usedRing (s.slot o)).2) = lineOf o s s.i := by
    rw [hid, State.slot, h.usedRing_published hr hdelta]
    rfl
  refine ⟨h.queue, ⟨hquiet, hr.order, hr.isPrefix, hr.length⟩, ⟨hlt, ?_⟩,
    fun hne => absurd rfl hne⟩
  show s.lines ++ [_] = (List.range (s.i + 1)).map (lineOf o s)
  rw [hline, List.range_succ, List.map_append, hlines]
  rfl

theorem run_inv (h : Inv o a s) (hs : run o s = some s') : Inv o a s' := by
  have hphase := h.phase
  have hlines := h.lines
  cases hpc : s.pc with
  | driverOk | printStatus | notify =>
    simp only [run, hpc, Option.some.injEq] at hs
    subst hs
    rw [hpc] at hphase hlines
    exact ⟨h.queue, hphase, trivial, hlines⟩
  | readBase =>
    simp only [run, hpc, Option.some.injEq] at hs
    subst hs
    exact readBase_inv h hpc
  | poll =>
    simp only [run, hpc, Option.some.injEq] at hs
    subst hs
    rw [hpc] at hphase hlines
    unfold poll
    split
    · exact ⟨h.queue, hphase, trivial, hlines⟩
    · exact ⟨h.queue, hphase, trivial, hlines⟩
  | readFinal =>
    simp only [run, hpc, Option.some.injEq] at hs
    subst hs
    exact readFinal_inv h hpc
  | entry =>
    simp only [run, hpc, Option.some.injEq] at hs
    subst hs
    exact entry_inv h hpc
  | entryLen =>
    simp only [run, hpc, Option.some.injEq] at hs
    subst hs
    exact entryLen_inv h hpc
  | head | reported =>
    simp only [run, hpc] at hs
    cases hs

/-- What a device step returns. -/
theorem device_returned {q : Nat} {v v' : Virtqueue} {d : DeviceAction}
    (hs : v.device q d = some v') :
    (d ≠ .publish ∧ v'.returned = v.returned) ∨ d = .publish ∧ v'.returned ≠ [] := by
  cases d with
  | pop =>
    simp only [Virtqueue.device] at hs
    split at hs
    · cases hs
    · cases hs
      exact Or.inl ⟨by decide, rfl⟩
  | write id len =>
    simp only [Virtqueue.device] at hs
    split at hs
    · cases hs
      exact Or.inl ⟨by simp, rfl⟩
    · cases hs
  | publish =>
    simp only [Virtqueue.device] at hs
    split at hs
    · cases hs
    · cases hs
      exact Or.inr ⟨rfl, by simp⟩

/-- The facts of a place are not about the queue. -/
theorem PcFacts.device {pc : Pc} (h : PcFacts o s pc) (rx : Virtqueue) :
    PcFacts o { s with rx := rx } pc := by
  cases pc with
  | entry => exact ⟨h.le, h.lines⟩
  | entryLen => exact ⟨⟨h.1.le, h.1.lines⟩, h.2⟩
  | reported => exact ⟨⟨h.1.le, h.1.lines⟩, h.2⟩
  | driverOk => exact h
  | printStatus | notify | readBase | head | poll | readFinal => trivial

/-- **The device** only adds to what it has returned. -/
theorem device_inv (ho : o.Valid) (h : Inv o a s) {d : DeviceAction} {rx : Virtqueue}
    (hs : s.rx.device o.rxQueueSize d = some rx) :
    Inv o (a ∧ Quiet s (.rxDevice d)) { s with rx := rx } := by
  have hqueue := h.queue.device ho.dvd ho.lt ho.ids hs
  have hprefix : s.rx.returned <+: rx.returned := by
    rw [h.queue.history, hqueue.history]
    exact h.queue.device_unseen ho.dvd ho.lt ho.ids hs
  have hphase := h.phase
  refine ⟨hqueue, ?_, h.atPc.device rx, h.lines⟩
  show PhaseFacts _ _ s.pc.phase
  by_cases hbefore : s.pc.phase = .before
  · rw [hbefore] at hphase ⊢
    show a ∧ Quiet s (.rxDevice d) ↔ rx.returned = []
    rcases device_returned hs with ⟨hd, hsame⟩ | ⟨rfl, hne⟩
    · have hquiet : Quiet s (.rxDevice d) := fun heq => absurd (Event.rxDevice.inj heq) hd
      rw [hsame, and_iff_left hquiet]
      exact hphase
    · exact iff_of_false (fun hquiet => hquiet.2 rfl hbefore) hne
  · have hquiet : Quiet s (.rxDevice d) := fun _ => hbefore
    rw [PhaseFacts.congr (and_iff_left hquiet)]
    cases hph : s.pc.phase with
    | before => exact absurd hph hbefore
    | waiting =>
      rw [hph] at hphase
      exact ⟨hphase.1, hphase.2.trans hprefix.length_le⟩
    | reporting =>
      rw [hph] at hphase
      obtain ⟨hquiet, hr⟩ := hphase
      exact ⟨hquiet, hr.order, hr.isPrefix.trans hprefix, hr.length⟩

/-- **Every step keeps the invariant.** -/
theorem Inv.step (ho : o.Valid) (h : Inv o a s) {e : Event} (hs : RxReport.step o s e = some s') :
    Inv o (a ∧ Quiet s e) s' := by
  cases e with
  | run =>
    rw [Inv.congr (and_iff_left (by rintro ⟨⟩))]
    exact run_inv h hs
  | clock timeLeft =>
    rw [Inv.congr (and_iff_left (by rintro ⟨⟩))]
    simp only [RxReport.step] at hs
    split at hs
    · rename_i hpc
      cases hs
      have hphase := h.phase
      have hlines := h.lines
      rw [hpc] at hphase hlines
      cases timeLeft
      · exact ⟨h.queue, hphase, trivial, hlines⟩
      · exact ⟨h.queue, hphase, trivial, hlines⟩
    · cases hs
  | rxDevice d =>
    simp only [RxReport.step] at hs
    split at hs
    · obtain ⟨rx, hrx, rfl⟩ := Option.map_eq_some_iff.1 hs
      exact device_inv ho h hrx
    · cases hs

theorem Inv.of_run (ho : o.Valid) {es : List Event} (h : (machine o).run es = some s) :
    Inv o ((machine o).Meets Quiet (init o) es) s :=
  Machine.run_inv_meets (M := machine o) (init_inv ho) (fun _ _ _ _ hI hs => hI.step ho hs) h

/-! ## The report -/

/-- **The report is about what was returned after the first read.** -/
theorem reportedRange_eq (h : Inv o a s) (hpc : s.pc.phase = .reporting) :
    reportedRange o s = s.published.drop s.usedBeforeWait.toNat := by
  obtain ⟨-, hr⟩ := h.reporting hpc
  have hsize : CounterRing.size ⟨s.rx.usedRing, s.usedBeforeWait, s.usedAfterWait⟩ = s.delta := rfl
  have hdelta := delta_eq hr
  have hlength := hr.length
  rw [reportedRange, CounterRing.contents, hsize]
  apply List.ext_getElem
  · rw [List.length_map, List.length_range, List.length_drop]
    omega
  · intro j hj hj'
    rw [List.length_map, List.length_range] at hj
    rw [List.getElem_map, List.getElem_range, List.getElem_drop]
    show s.rx.usedRing ((s.usedBeforeWait.toNat + j) % o.rxQueueSize) = _
    rw [h.usedRing_published hr hj, List.getD_eq_getElem]

/-- **The lines show the first eight entries of the range**, with their slots. -/
theorem lines_eq (h : Inv o a s) (hpc : s.pc = .reported) :
    s.lines = (List.range (min s.delta 8)).map fun j =>
      ((s.usedBeforeWait.toNat + j) % o.rxQueueSize, (reportedRange o s).getD j (0, 0)) := by
  have hat := h.atPc
  rw [hpc] at hat
  obtain ⟨hprinted, hi⟩ := hat
  rw [hprinted.lines, hi, State.toPrint, reportedRange_eq h (by rw [hpc]; rfl)]
  apply List.map_congr_left
  intro j _
  rw [lineOf, List.getD_eq_getElem?_getD, List.getD_eq_getElem?_getD, List.getElem?_drop]

/-- **In which runs the report is complete.** -/
theorem rxReport_complete_iff (ho : o.Valid) {es : List Event} (h : (machine o).run es = some s)
    (hpc : s.pc = .reported) :
    Complete o s ↔ (machine o).Meets Quiet (init o) es := by
  have hinv := Inv.of_run ho h
  have hphase : s.pc.phase = .reporting := by rw [hpc]; rfl
  obtain ⟨hquiet, hr⟩ := hinv.reporting hphase
  rw [hquiet]
  have hdelta := delta_eq hr
  have hlength := hr.length
  have horder := hr.order
  constructor
  · intro hcomplete
    have hcounted := hcomplete.counted
    have hzero : s.usedBeforeWait.toNat = 0 := by omega
    exact BitVec.eq_of_toNat_eq hzero
  · intro hzero
    have hnat : s.usedBeforeWait.toNat = 0 := congrArg BitVec.toNat hzero
    refine ⟨by omega, ?_⟩
    rw [reportedRange_eq hinv hphase, hnat, List.drop_zero]

/-- One buffer, and no wait. -/
def oneBuffer : Options := ⟨2, 1, 0⟩

/-- The device returns the buffer after the first read. -/
def quietRun : List Event :=
  [.run, .rxDevice .pop, .run, .run, .run, .rxDevice (.write 0 72), .rxDevice .publish, .run, .run,
    .run, .run]

theorem rxReport_complete_quietRun : ∃ s, (machine oneBuffer).run quietRun = some s ∧
    s.lines = [(0, 0, 72)] ∧
    (Complete oneBuffer s ↔ (machine oneBuffer).Meets Quiet (init oneBuffer) quietRun) := by
  obtain ⟨s, hs, hpc, hlines⟩ : ∃ s, (machine oneBuffer).run quietRun = some s ∧
      s.pc = .reported ∧ s.lines = [(0, 0, 72)] := ⟨_, rfl, rfl, rfl⟩
  have hvalid : oneBuffer.Valid := ⟨⟨1, rfl⟩, by decide, by decide⟩
  exact ⟨s, hs, hlines, rxReport_complete_iff hvalid hs hpc⟩

/-- A buffer that is returned before the device is notified is not reported. -/
theorem rxReport_misses : ¬∀ (o : Options) (es : List Event) (s : State), o.Valid →
    (machine o).run es = some s → s.pc = .reported → Complete o s := by
  intro h
  obtain ⟨s, hs, hpc, hdelta, hpublished⟩ : ∃ s, (machine oneBuffer).run
      [.run, .rxDevice .pop, .rxDevice (.write 0 72), .rxDevice .publish, .run, .run, .run, .run,
        .run] = some s ∧ s.pc = .reported ∧ s.delta = 0 ∧ s.published = [(0, 72)] :=
    ⟨_, rfl, rfl, rfl, rfl⟩
  have hcomplete := h oneBuffer _ s ⟨⟨1, rfl⟩, by decide, by decide⟩ hs hpc
  have hcounted := hcomplete.counted
  rw [hdelta, hpublished] at hcounted
  cases hcounted

end Driver

end AdvCpp.Virtio.RxReport
