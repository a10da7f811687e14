import AdvCpp.Lib.Linearization
import Mathlib.Data.List.Basic
import Mathlib.Tactic.Common

/-!
# The SPSC descriptor queue of the multi-threaded server

`FdQueue` of `19_multithread_echo.cpp`: a ring of `CAPACITY` cells with a consumer index `head`
and a producer index `tail`.  `push` and `pop` are modelled as the sequences of their atomic loads
and stores and their accesses to `data`, one access a step, so a schedule is an interleaving of
the two threads' accesses (in a sequentially consistent memory).

* `Inv` — the cells from `head` on hold the queue's content, and what each side has read so far
  is still usable although the other side has moved on.
* `step_sim` — every access is matched by the bounded FIFO `fifo`: a `push` takes effect at the
  store to `tail` (or at the load of `head` that finds the ring full), a `pop` at the store to
  `head` (or at the load of `tail` that finds it empty).
* `Inv.pushStep`, `Inv.popStep` — what one access does to the content.
* `fdQueue_refines_fifo` — linearizability, no loss, and no simultaneous access to one cell.
-/

namespace AdvCpp.Uring.FdQueue

open AdvCpp.Lib

def CAPACITY : Nat := 4096

/-- Where the producer is inside `push(fd)`: the access it makes next, with its locals. -/
inductive PushPc where
  | idle
  | loadTail (fd : Int)
  | loadHead (fd : Int) (t : Nat)
  | storeData (fd : Int) (t next : Nat)
  | storeTail (fd : Int) (t next : Nat)
  | ret (ok : Bool)
  deriving DecidableEq

/-- Where the consumer is inside `pop`. -/
inductive PopPc where
  | idle
  | loadHead
  | loadTail (h : Nat)
  | loadData (h : Nat)
  | storeHead (h : Nat) (fd : Int)
  | ret (res : Option Int)
  deriving DecidableEq

/-- The queue, its two threads, and the values stored and removed so far (ghosts). -/
structure State where
  data : Nat → Int
  head : Nat
  tail : Nat
  push : PushPc
  pop : PopPc
  pushed : List Int
  popped : List Int

/-- `data{}`, `head{0}`, `tail{0}`. -/
def State.init : State := ⟨fun _ => 0, 0, 0, .idle, .idle, [], []⟩

/-- One access of `push`. -/
def pushStep (s : State) : Option State :=
  match s.push with
  | .loadTail fd => some { s with push := .loadHead fd s.tail }
  | .loadHead fd t =>
    let next := (t + 1) % CAPACITY
    if next = s.head then some { s with push := .ret false } -- full
    else some { s with push := .storeData fd t next }
  | .storeData fd t next =>
    some { s with data := Function.update s.data t fd, push := .storeTail fd t next }
  | .storeTail fd _ next =>
    some { s with tail := next, push := .ret true, pushed := s.pushed ++ [fd] }
  | _ => none

/-- One access of `pop`. -/
def popStep (s : State) : Option State :=
  match s.pop with
  | .loadHead => some { s with pop := .loadTail s.head }
  | .loadTail h =>
    if h = s.tail then some { s with pop := .ret none } -- empty
    else some { s with pop := .loadData h }
  | .loadData h => some { s with pop := .storeHead h (s.data h) }
  | .storeHead h fd =>
    some { s with head := (h + 1) % CAPACITY, pop := .ret (some fd), popped := s.popped ++ [fd] }
  | _ => none

inductive Side where
  | producer
  | consumer
  deriving DecidableEq

inductive Op where
  | push (fd : Int)
  | pop
  deriving DecidableEq

/-- `push` answers a flag, `pop` the descriptor it hands out, if any. -/
inductive Res where
  | push (ok : Bool)
  | pop (fd : Option Int)
  deriving DecidableEq

/-- Calls and returns of the two threads, and their accesses in between. -/
inductive Ev where
  | callPush (fd : Int)
  | push
  | retPush (ok : Bool)
  | callPop
  | pop
  | retPop (res : Option Int)
  deriving DecidableEq

def Ev.visible : Ev → List (Act Side Op Res)
  | .callPush fd => [.call .producer (.push fd)]
  | .retPush ok => [.ret .producer (.push ok)]
  | .callPop => [.call .consumer .pop]
  | .retPop res => [.ret .consumer (.pop res)]
  | .push | .pop => []

def step (s : State) : Ev → Option State
  | .callPush fd => if s.push = .idle then some { s with push := .loadTail fd } else none
  | .push => pushStep s
  | .retPush ok => if s.push = .ret ok then some { s with push := .idle } else none
  | .callPop => if s.pop = .idle then some { s with pop := .loadHead } else none
  | .pop => popStep s
  | .retPop res => if s.pop = .ret res then some { s with pop := .idle } else none

/-- One producer and one consumer over one queue. -/
def machine : Machine State Ev := ⟨.init, step⟩

/-- The cell the producer writes next, and the cell the consumer reads next. -/
def State.writes (s : State) : Option Nat :=
  match s.push with
  | .storeData _ t _ => some t
  | _ => none

def State.reads (s : State) : Option Nat :=
  match s.pop with
  | .loadData h => some h
  | _ => none

/-! ## The bounded FIFO -/

/-- A FIFO of capacity `CAPACITY - 1`. -/
def fifo : SeqSpec (List Int) Op Res where
  init := []
  apply q
    | .push fd => if q.length = CAPACITY - 1 then (q, .push false) else (q ++ [fd], .push true)
    | .pop =>
      match q with
      | [] => ([], .pop none)
      | fd :: q => (q, .pop (some fd))

/-! ## Invariant -/

/-- What the producer has read and written so far, with queue content `q`. -/
def PushOk (s : State) (q : List Int) : PushPc → Prop
  | .loadHead _ t => t = s.tail
  | .storeData _ t next => t = s.tail ∧ next = (t + 1) % CAPACITY ∧ q.length + 1 < CAPACITY
  | .storeTail fd t next =>
    t = s.tail ∧ next = (t + 1) % CAPACITY ∧ q.length + 1 < CAPACITY ∧ s.data t = fd
  | _ => True

/-- What the consumer has read so far, with queue content `q`. -/
def PopOk (s : State) (q : List Int) : PopPc → Prop
  | .loadTail h => h = s.head
  | .loadData h => h = s.head ∧ q ≠ []
  | .storeHead h fd => h = s.head ∧ q.head? = some fd
  | _ => True

/-- The queue invariant, with queue content `q`. -/
structure Inv (s : State) (q : List Int) : Prop where
  head_lt : s.head < CAPACITY
  length_lt : q.length < CAPACITY
  tail : s.tail = (s.head + q.length) % CAPACITY
  cells : ∀ i (hi : i < q.length), s.data ((s.head + i) % CAPACITY) = q[i]
  push : PushOk s q s.push
  pop : PopOk s q s.pop
  log : s.pushed = s.popped ++ q

/-- The threads of the atomic FIFO as the program counters show them. -/
def pushStatus : PushPc → Status Op Res
  | .idle => .idle
  | .ret ok => .answered (.push ok)
  | .loadTail fd | .loadHead fd _ | .storeData fd _ _ | .storeTail fd _ _ => .called (.push fd)

def popStatus : PopPc → Status Op Res
  | .idle => .idle
  | .ret res => .answered (.pop res)
  | _ => .called .pop

def statusOf (s : State) : Side → Status Op Res
  | .producer => pushStatus s.push
  | .consumer => popStatus s.pop

/-- The simulation relation. -/
def Sim (s : State) (a : SeqSpec.Atomic (List Int) Op Res Side) : Prop :=
  Inv s a.obj ∧ a.status = statusOf s

theorem sim_init : Sim machine.init (fifo.atomic Side).init := by
  refine ⟨⟨by decide, by decide, rfl, fun i hi => ?_, trivial, trivial, rfl⟩, ?_⟩
  · simp [SeqSpec.atomic, fifo] at hi
  · funext t; cases t <;> rfl

theorem cell_ne {h i n : Nat} (hi : i < n) (hn : n < CAPACITY) :
    (h + i) % CAPACITY ≠ (h + n) % CAPACITY := by
  unfold CAPACITY at *; omega

theorem Inv.tail_ne_head {s : State} {q : List Int} (h : Inv s q) (hq : q ≠ []) :
    s.tail ≠ s.head := by
  have hlt := h.head_lt
  have hlen := h.length_lt
  have hpos := List.length_pos_iff.2 hq
  rw [h.tail]
  unfold CAPACITY at *
  omega

theorem Inv.head_eq_tail_iff {s : State} {q : List Int} (h : Inv s q) : s.head = s.tail ↔ q = [] := by
  constructor
  · intro he
    refine Classical.byContradiction fun hq => ?_
    exact h.tail_ne_head hq he.symm
  · intro he
    have hlt := h.head_lt
    rw [h.tail, he, List.length_nil, Nat.add_zero, Nat.mod_eq_of_lt hlt]

theorem Inv.full_iff {s : State} {q : List Int} (h : Inv s q) :
    (s.tail + 1) % CAPACITY = s.head ↔ q.length = CAPACITY - 1 := by
  have hlt := h.head_lt
  have hlen := h.length_lt
  rw [h.tail]
  unfold CAPACITY at *
  omega

/-- The content is read at the front: the consumer's cell holds the oldest value. -/
theorem Inv.front {s : State} {q : List Int} (h : Inv s q) (hq : q ≠ []) :
    q.head? = some (s.data s.head) := by
  obtain ⟨x, xs, rfl⟩ := List.exists_cons_of_ne_nil hq
  have hc := h.cells 0 (by simp)
  have hlt := h.head_lt
  rw [Nat.add_zero, Nat.mod_eq_of_lt hlt] at hc
  simp [hc]

/-- A step of the producer that leaves `data` and `tail` alone. -/
theorem Inv.pushMove {s : State} {q : List Int} (h : Inv s q) (pc : PushPc) (hpc : PushOk s q pc) :
    Inv { s with push := pc } q := by
  obtain ⟨h1, h2, h3, h4, -, h6, h7⟩ := h
  refine ⟨h1, h2, h3, h4, ?_, ?_, h7⟩
  · cases pc <;> exact hpc
  · show PopOk _ q s.pop
    revert h6
    cases s.pop <;> exact id

/-- A step of the consumer that leaves `head` alone. -/
theorem Inv.popMove {s : State} {q : List Int} (h : Inv s q) (pc : PopPc) (hpc : PopOk s q pc) :
    Inv { s with pop := pc } q := by
  obtain ⟨h1, h2, h3, h4, h5, -, h7⟩ := h
  refine ⟨h1, h2, h3, h4, ?_, ?_, h7⟩
  · show PushOk _ q s.push
    revert h5
    cases s.push <;> exact id
  · cases pc <;> exact hpc

/-- The write of `data[t]` touches no cell of the content. -/
theorem Inv.storeData {s : State} {q : List Int} (h : Inv s q) {fd : Int} {t next : Nat}
    (hpc : s.push = .storeData fd t next) :
    Inv { s with data := Function.update s.data t fd, push := .storeTail fd t next } q := by
  have hp := h.push
  rw [hpc] at hp
  obtain ⟨ht, hnext, hfull⟩ := hp
  refine ⟨h.head_lt, h.length_lt, h.tail, fun i hi => ?_, ⟨ht, hnext, hfull, by simp⟩, ?_, h.log⟩
  · have hne : (s.head + i) % CAPACITY ≠ t := by
      rw [ht, h.tail]; exact cell_ne hi h.length_lt
    simp only [Function.update_of_ne hne]
    exact h.cells i hi
  · have hpop := h.pop
    show PopOk _ q s.pop
    revert hpop
    cases s.pop <;> exact id

/-- The store to `tail` appends the value. -/
theorem Inv.storeTail {s : State} {q : List Int} (h : Inv s q) {fd : Int} {t next : Nat}
    (hpc : s.push = .storeTail fd t next) :
    Inv { s with tail := next, push := .ret true, pushed := s.pushed ++ [fd] } (q ++ [fd]) := by
  have hp := h.push
  rw [hpc] at hp
  obtain ⟨ht, hnext, hfull, hd⟩ := hp
  refine ⟨h.head_lt, by simp; omega, ?_, fun i hi => ?_, trivial, ?_, by simp [h.log]⟩
  · show next = _
    rw [hnext, ht, h.tail, List.length_append, List.length_singleton, ← Nat.add_assoc, Nat.mod_add_mod]
  · rw [List.length_append, List.length_singleton] at hi
    by_cases hlt : i < q.length
    · rw [List.getElem_append_left hlt]
      exact h.cells i hlt
    · have hiq : i = q.length := by omega
      subst hiq
      rw [List.getElem_append_right (Nat.le_refl _), ← h.tail, ← ht]
      simpa using hd
  · have hpop := h.pop
    show PopOk _ (q ++ [fd]) s.pop
    revert hpop
    cases s.pop with
    | loadData _ => exact fun hpop => ⟨hpop.1, by simp⟩
    | storeHead _ _ => exact fun hpop => ⟨hpop.1, by rw [List.head?_append, hpop.2]; rfl⟩
    | _ => exact id

/-- The store to `head` removes the oldest value. -/
theorem Inv.storeHead {s : State} {q : List Int} (h : Inv s q) {n : Nat} {fd : Int}
    (hpc : s.pop = .storeHead n fd) :
    ∃ q', q = fd :: q' ∧
      Inv { s with head := (n + 1) % CAPACITY, pop := .ret (some fd), popped := s.popped ++ [fd] } q' := by
  have hp := h.pop
  rw [hpc] at hp
  obtain ⟨hn, hfd⟩ := hp
  obtain ⟨q', rfl⟩ : ∃ q', q = fd :: q' := by
    cases q with
    | nil => cases hfd
    | cons x xs => cases hfd; exact ⟨xs, rfl⟩
  have hlt := h.head_lt
  have hlen := h.length_lt
  rw [List.length_cons] at hlen
  have hpos : 0 < CAPACITY := by decide
  refine ⟨q', rfl, Nat.mod_lt _ hpos, by omega, ?_, fun i hi => ?_, ?_, trivial, by simp [h.log]⟩
  · show s.tail = ((n + 1) % CAPACITY + q'.length) % CAPACITY
    rw [h.tail, hn, Nat.mod_add_mod, List.length_cons]
    congr 1; omega
  · have hc := h.cells (i + 1) (by simpa using hi)
    show s.data (((n + 1) % CAPACITY + i) % CAPACITY) = q'[i]
    rw [hn, Nat.mod_add_mod, show s.head + 1 + i = s.head + (i + 1) by omega, hc]
    rfl
  · have hpush := h.push
    show PushOk _ q' s.push
    revert hpush
    cases s.push with
    | storeData _ _ _ => exact fun hp => ⟨hp.1, hp.2.1, by have := hp.2.2; simp at this; omega⟩
    | storeTail _ _ _ =>
      exact fun hp => ⟨hp.1, hp.2.1, by have := hp.2.2.1; simp at this; omega, hp.2.2.2⟩
    | _ => exact id

/-! ## Simulation -/

theorem statusOf_push (s : State) (pc : PushPc) :
    statusOf { s with push := pc } = Function.update (statusOf s) .producer (pushStatus pc) := by
  funext t; cases t <;> simp [statusOf, Function.update]

theorem statusOf_pop (s : State) (pc : PopPc) :
    statusOf { s with pop := pc } = Function.update (statusOf s) .consumer (popStatus pc) := by
  funext t; cases t <;> simp [statusOf, Function.update]

/-- The atomic FIFO `a` makes the schedule `ds`, with the visible events of `e`, and ends in a
state related to `s'`. -/
def Matched (s' : State) (a : SeqSpec.Atomic (List Int) Op Res Side) (e : Ev) : Prop :=
  ∃ ds a', (fifo.atomic Side).exec a ds = some a' ∧ Sim s' a' ∧
    ds.flatMap AtomicEv.visible = e.visible

/-- A step that changes nothing the FIFO shows. -/
theorem matched_silent {s s' : State} {a : SeqSpec.Atomic (List Int) Op Res Side} {e : Ev}
    (hst : a.status = statusOf s) (heq : statusOf s' = statusOf s) (hi : Inv s' a.obj)
    (hv : e.visible = []) : Matched s' a e :=
  ⟨[], a, rfl, ⟨hi, by rw [hst, heq]⟩, by simp [hv]⟩

/-- The step at which an operation takes effect. -/
theorem matched_lin {s s' : State} {a : SeqSpec.Atomic (List Int) Op Res Side} {e : Ev} {t : Side}
    {o : Op} {r : Res} {q : List Int} (hst : a.status = statusOf s)
    (hcalled : statusOf s t = .called o) (happ : fifo.apply a.obj o = (q, r))
    (heq : statusOf s' = Function.update (statusOf s) t (.answered r)) (hi : Inv s' q)
    (hv : e.visible = []) : Matched s' a e := by
  refine ⟨[.lin t], ⟨q, Function.update a.status t (.answered r), a.lins ++ [(t, o, r)]⟩, ?_,
    ⟨hi, by rw [hst, heq]⟩, by simp [AtomicEv.visible, hv]⟩
  simp [Machine.exec, SeqSpec.atomic, hst, hcalled, happ]

theorem pushStep_sim {s s' : State} {a : SeqSpec.Atomic (List Int) Op Res Side} (h : Sim s a)
    (hstep : pushStep s = some s') : Matched s' a .push := by
  obtain ⟨hi, hst⟩ := h
  unfold pushStep at hstep
  split at hstep
  · rename_i fd hpc
    cases hstep
    refine matched_silent hst ?_ (hi.pushMove (.loadHead fd s.tail) rfl) rfl
    rw [statusOf_push]; funext t; cases t <;> simp [statusOf, hpc, pushStatus]
  · rename_i fd t hpc
    have hp := hi.push
    rw [hpc] at hp
    have hcalled : statusOf s .producer = .called (.push fd) := by simp [statusOf, hpc, pushStatus]
    simp only at hstep
    split at hstep
    · -- the ring is full at the load of `head`
      rename_i hfull
      cases hstep
      rw [hp, hi.full_iff] at hfull
      refine matched_lin hst hcalled (q := a.obj) (r := .push false) ?_ ?_ (hi.pushMove _ trivial) rfl
      · simp [fifo, hfull]
      · rw [statusOf_push]; rfl
    · rename_i hfull
      cases hstep
      have hlen : a.obj.length + 1 < CAPACITY := by
        rw [hp, hi.full_iff] at hfull
        have := hi.length_lt
        omega
      refine matched_silent hst ?_
        (hi.pushMove (.storeData fd t ((t + 1) % CAPACITY)) ⟨hp, rfl, hlen⟩) rfl
      rw [statusOf_push]; funext t; cases t <;> simp [statusOf, hpc, pushStatus]
  · rename_i fd t next hpc
    cases hstep
    refine matched_silent hst ?_ (hi.storeData hpc) rfl
    funext t; cases t <;> simp [statusOf, hpc, pushStatus]
  · rename_i fd t next hpc
    cases hstep
    have hp := hi.push
    rw [hpc] at hp
    have hlen : a.obj.length ≠ CAPACITY - 1 := by have := hp.2.2.1; omega
    refine matched_lin hst (t := .producer) (o := .push fd) (r := .push true) ?_ ?_ ?_
      (hi.storeTail hpc) rfl
    · simp [statusOf, hpc, pushStatus]
    · simp [fifo, hlen]
    · funext t; cases t <;> simp [statusOf, pushStatus, Function.update]
  · cases hstep

theorem popStep_sim {s s' : State} {a : SeqSpec.Atomic (List Int) Op Res Side} (h : Sim s a)
    (hstep : popStep s = some s') : Matched s' a .pop := by
  obtain ⟨hi, hst⟩ := h
  unfold popStep at hstep
  split at hstep
  · rename_i hpc
    cases hstep
    refine matched_silent hst ?_ (hi.popMove (.loadTail s.head) rfl) rfl
    rw [statusOf_pop]; funext t; cases t <;> simp [statusOf, hpc, popStatus]
  · rename_i n hpc
    have hp := hi.pop
    rw [hpc] at hp
    split at hstep
    · -- the ring is empty at the load of `tail`
      rename_i hempty
      cases hstep
      rw [hp, hi.head_eq_tail_iff] at hempty
      refine matched_lin hst (t := .consumer) (o := .pop) (q := a.obj) (r := .pop none) ?_ ?_ ?_
        (hi.popMove _ trivial) rfl
      · simp [statusOf, hpc, popStatus]
      · simp [fifo, hempty]
      · rw [statusOf_pop]; rfl
    · rename_i hempty
      cases hstep
      rw [hp, hi.head_eq_tail_iff] at hempty
      refine matched_silent hst ?_ (hi.popMove (.loadData n) ⟨hp, hempty⟩) rfl
      rw [statusOf_pop]; funext t; cases t <;> simp [statusOf, hpc, popStatus]
  · rename_i n hpc
    cases hstep
    have hp := hi.pop
    rw [hpc] at hp
    obtain ⟨hn, hne⟩ := hp
    have hfront : a.obj.head? = some (s.data n) := by rw [hn]; exact hi.front hne
    refine matched_silent hst ?_ (hi.popMove (.storeHead n (s.data n)) ⟨hn, hfront⟩) rfl
    rw [statusOf_pop]; funext t; cases t <;> simp [statusOf, hpc, popStatus]
  · rename_i n fd hpc
    cases hstep
    obtain ⟨q', hq, hi'⟩ := hi.storeHead hpc
    refine matched_lin hst (t := .consumer) (o := .pop) (q := q') (r := .pop (some fd)) ?_ ?_ ?_
      hi' rfl
    · simp [statusOf, hpc, popStatus]
    · simp [fifo, hq]
    · funext t; cases t <;> simp [statusOf, popStatus, Function.update]
  · cases hstep

/-- **Every event is matched by the atomic FIFO.** -/
theorem step_sim {s s' : State} {a : SeqSpec.Atomic (List Int) Op Res Side} {e : Ev} (h : Sim s a)
    (hstep : step s e = some s') : Matched s' a e := by
  cases e with
  | push => exact pushStep_sim h hstep
  | pop => exact popStep_sim h hstep
  | callPush fd =>
    obtain ⟨hi, hst⟩ := h
    simp only [step] at hstep
    split at hstep <;> cases hstep
    rename_i hpc
    refine ⟨[.act (.call .producer (.push fd))],
      { a with status := Function.update a.status .producer (.called (.push fd)) }, ?_,
      ⟨hi.pushMove _ trivial, by rw [statusOf_push, hst]; rfl⟩, rfl⟩
    simp [Machine.exec, SeqSpec.atomic, hst, statusOf, hpc, pushStatus]
  | retPush ok =>
    obtain ⟨hi, hst⟩ := h
    simp only [step] at hstep
    split at hstep <;> cases hstep
    rename_i hpc
    refine ⟨[.act (.ret .producer (.push ok))],
      { a with status := Function.update a.status .producer .idle }, ?_,
      ⟨hi.pushMove _ trivial, by rw [statusOf_push, hst]; rfl⟩, rfl⟩
    simp [Machine.exec, SeqSpec.atomic, hst, statusOf, hpc, pushStatus]
  | callPop =>
    obtain ⟨hi, hst⟩ := h
    simp only [step] at hstep
    split at hstep <;> cases hstep
    rename_i hpc
    refine ⟨[.act (.call .consumer .pop)],
      { a with status := Function.update a.status .consumer (.called .pop) }, ?_,
      ⟨hi.popMove _ trivial, by rw [statusOf_pop, hst]; rfl⟩, rfl⟩
    simp [Machine.exec, SeqSpec.atomic, hst, statusOf, hpc, popStatus]
  | retPop res =>
    obtain ⟨hi, hst⟩ := h
    simp only [step] at hstep
    split at hstep <;> cases hstep
    rename_i hpc
    refine ⟨[.act (.ret .consumer (.pop res))],
      { a with status := Function.update a.status .consumer .idle }, ?_,
      ⟨hi.popMove _ trivial, by rw [statusOf_pop, hst]; rfl⟩, rfl⟩
    simp [Machine.exec, SeqSpec.atomic, hst, statusOf, hpc, popStatus]

/-- The content is what the FIFO has after the operations so far, one after another and each with the
answer that it gives. -/
theorem run_legal {es : List Ev} {s : State} (h : machine.run es = some s) :
    ∃ (ops : List (Side × Op × Res)) (q : List Int), fifo.Legal fifo.init ops q ∧ Inv s q := by
  obtain ⟨_, a, hrun, hsim, -⟩ := Machine.run_refines (N := fifo.atomic Side) Ev.visible
    AtomicEv.visible sim_init (fun _ _ _ _ hR hs => step_sim hR hs) h
  exact ⟨a.lins, a.obj, fifo.atomic_legal hrun, hsim.1⟩

/-- The invariant holds of every state of every interleaving. -/
theorem run_inv {es : List Ev} {s : State} (h : machine.run es = some s) : ∃ q, Inv s q := by
  obtain ⟨_, q, -, hinv⟩ := run_legal h
  exact ⟨q, hinv⟩

/-- The producer never writes the cell the consumer is reading. -/
theorem Inv.cells_apart {s : State} {q : List Int} (h : Inv s q) {t n : Nat}
    (hw : s.writes = some t) (hr : s.reads = some n) : t ≠ n := by
  unfold State.writes at hw
  unfold State.reads at hr
  have hpush := h.push
  have hpop := h.pop
  split at hw <;> cases hw
  rename_i hpc
  split at hr <;> cases hr
  rename_i hpc'
  rw [hpc] at hpush
  rw [hpc'] at hpop
  rw [hpush.1, hpop.1]
  exact h.tail_ne_head hpop.2

/-! ## Content -/

/-- The values in the cells from `head` to `tail`. -/
def State.contents (s : State) : List Int :=
  (List.range ((s.tail + CAPACITY - s.head) % CAPACITY)).map fun i => s.data ((s.head + i) % CAPACITY)

/-- The value of a `push` that is not decided yet. -/
def State.offered (s : State) : List Int :=
  match s.push with
  | .loadTail fd | .loadHead fd _ | .storeData fd _ _ | .storeTail fd _ _ => [fd]
  | _ => []

/-- The value that a `pop` has removed and not handed out yet. -/
def State.taken (s : State) : List Int :=
  match s.pop with
  | .ret (some fd) => [fd]
  | _ => []

/-- The load of `head` that comes next finds the ring full. -/
def State.Full (s : State) : Prop :=
  match s.push with
  | .loadHead _ t => (t + 1) % CAPACITY = s.head
  | _ => False

instance (s : State) : Decidable s.Full := by
  unfold State.Full
  split <;> exact inferInstance

theorem State.taken_eq_nil {s : State} (h : ∀ res, s.pop ≠ .ret res) : s.taken = [] := by
  unfold State.taken
  split
  · rename_i fd hret
    exact absurd hret (h (some fd))
  · rfl

theorem Inv.contents_eq {s : State} {q : List Int} (h : Inv s q) : s.contents = q := by
  have hlt := h.head_lt
  have hlen := h.length_lt
  have htail := h.tail
  have hn : (s.tail + CAPACITY - s.head) % CAPACITY = q.length := by
    rw [htail]
    unfold CAPACITY at *
    omega
  unfold State.contents
  rw [hn]
  apply List.ext_getElem
  · simp
  · intro i hi hi'
    simp only [List.getElem_map, List.getElem_range]
    exact h.cells i hi'

/-- **One access of `push`**: the value is still offered, or it is refused or in the ring. -/
theorem Inv.pushStep {s s' : State} {q : List Int} (h : Inv s q) (hs : pushStep s = some s') :
    s'.pop = s.pop ∧
      (Inv s' q ∧ ¬s.Full ∧ s'.offered = s.offered ∧ s'.push ≠ .idle ∧ (∀ ok, s'.push ≠ .ret ok) ∨
        Inv s' q ∧ s.Full ∧ (∃ fd, s.offered = [fd]) ∧ s'.push = .ret false ∨
        ∃ fd, Inv s' (q ++ [fd]) ∧ ¬s.Full ∧ s.offered = [fd] ∧ s'.push = .ret true) := by
  unfold FdQueue.pushStep at hs
  split at hs
  · rename_i fd hpc
    cases hs
    refine ⟨rfl, Or.inl ⟨h.pushMove _ rfl, ?_, ?_, ?_, ?_⟩⟩ <;>
      simp [State.Full, State.offered, hpc]
  · rename_i fd t hpc
    have hp := h.push
    rw [hpc] at hp
    simp only at hs
    split at hs
    · rename_i hfull
      cases hs
      refine ⟨rfl, Or.inr (Or.inl ⟨h.pushMove _ trivial, ?_, ⟨fd, ?_⟩, rfl⟩)⟩
      · simpa [State.Full, hpc] using hfull
      · simp [State.offered, hpc]
    · rename_i hfull
      cases hs
      have hlen : q.length + 1 < CAPACITY := by
        rw [hp, h.full_iff] at hfull
        have := h.length_lt
        omega
      refine ⟨rfl, Or.inl ⟨h.pushMove (.storeData fd t ((t + 1) % CAPACITY)) ⟨hp, rfl, hlen⟩,
        ?_, ?_, ?_, ?_⟩⟩
      · simpa [State.Full, hpc] using hfull
      all_goals simp [State.offered, hpc]
  · rename_i fd t next hpc
    cases hs
    refine ⟨rfl, Or.inl ⟨h.storeData hpc, ?_, ?_, ?_, ?_⟩⟩ <;>
      simp [State.Full, State.offered, hpc]
  · rename_i fd t next hpc
    cases hs
    refine ⟨rfl, Or.inr (Or.inr ⟨fd, h.storeTail hpc, ?_, ?_, rfl⟩)⟩ <;>
      simp [State.Full, State.offered, hpc]
  · cases hs

/-- **One access of `pop`**: nothing is removed yet, the ring is empty, or the oldest value is
taken. -/
theorem Inv.popStep {s s' : State} {q : List Int} (h : Inv s q) (hs : popStep s = some s') :
    s'.push = s.push ∧ s.taken = [] ∧
      (Inv s' q ∧ s'.pop ≠ .idle ∧ (∀ r, s'.pop ≠ .ret r) ∨
        Inv s' q ∧ q = [] ∧ s'.pop = .ret none ∨
        ∃ fd q', q = fd :: q' ∧ Inv s' q' ∧ s'.pop = .ret (some fd)) := by
  unfold FdQueue.popStep at hs
  split at hs
  · rename_i hpc
    cases hs
    refine ⟨rfl, by simp [State.taken, hpc], Or.inl ⟨h.popMove _ rfl, ?_, ?_⟩⟩ <;> simp
  · rename_i n hpc
    have hp := h.pop
    rw [hpc] at hp
    split at hs
    · rename_i hempty
      cases hs
      rw [hp, h.head_eq_tail_iff] at hempty
      exact ⟨rfl, by simp [State.taken, hpc], Or.inr (Or.inl ⟨h.popMove _ trivial, hempty, rfl⟩)⟩
    · rename_i hempty
      cases hs
      rw [hp, h.head_eq_tail_iff] at hempty
      refine ⟨rfl, by simp [State.taken, hpc], Or.inl ⟨h.popMove _ ⟨hp, hempty⟩, ?_, ?_⟩⟩ <;> simp
  · rename_i n hpc
    cases hs
    have hp := h.pop
    rw [hpc] at hp
    obtain ⟨hn, hne⟩ := hp
    have hfront : q.head? = some (s.data n) := by rw [hn]; exact h.front hne
    refine ⟨rfl, by simp [State.taken, hpc], Or.inl ⟨h.popMove _ ⟨hn, hfront⟩, ?_, ?_⟩⟩ <;> simp
  · rename_i n fd hpc
    cases hs
    obtain ⟨q', hq, hi'⟩ := h.storeHead hpc
    exact ⟨rfl, by simp [State.taken, hpc], Or.inr (Or.inr ⟨fd, q', hq, hi', rfl⟩)⟩
  · cases hs

/-- **`FdQueue` is a bounded FIFO.**  For every interleaving of one producer and one consumer:
the history of calls and returns is linearizable to a FIFO of capacity `CAPACITY - 1` (so `push`
fails only on a full and `pop` only on an empty FIFO); the values stored so far are the values
handed out so far followed by the content of the cells from `head` on; and the two sides never
access one data cell at the same time. -/
theorem fdQueue_refines_fifo (es : List Ev) (s : State) (h : machine.run es = some s) :
    fifo.Linearizable (es.flatMap Ev.visible) ∧
    (∃ q : List Int, s.pushed = s.popped ++ q ∧ q.length ≤ CAPACITY - 1 ∧
      s.tail = (s.head + q.length) % CAPACITY ∧
      ∀ i (hi : i < q.length), s.data ((s.head + i) % CAPACITY) = q[i]) ∧
    (∀ t n, s.writes = some t → s.reads = some n → t ≠ n) := by
  obtain ⟨q, hq⟩ := run_inv h
  refine ⟨?_, ⟨q, hq.log, ?_, hq.tail, hq.cells⟩, fun t n hw hr => hq.cells_apart hw hr⟩
  · exact SeqSpec.linearizable_of_simulation fifo sim_init (fun _ _ _ _ hR hs => step_sim hR hs) h
  · have := hq.length_lt
    omega

/-- A push and a pop that overlap: the pop finds the ring empty before the store to `tail`. -/
def overlap : List Ev :=
  [.callPush 7, .push, .callPop, .pop, .push, .pop, .push, .push, .retPop none, .retPush true,
    .callPop, .pop, .pop, .pop, .pop, .retPop (some 7)]

theorem overlap_linearizable : fifo.Linearizable (overlap.flatMap Ev.visible) ∧
    (∃ s, machine.run overlap = some s ∧ s.pushed = [7] ∧ s.popped = [7]) :=
  ⟨(fdQueue_refines_fifo overlap _ rfl).1, _, rfl, rfl, rfl⟩

end AdvCpp.Uring.FdQueue
