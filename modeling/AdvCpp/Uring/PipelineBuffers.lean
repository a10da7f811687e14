import AdvCpp.Uring.PipelineCopy

/-!
# The two buffers of the pipelined copy

The loop of `05_pipeline_copy.cpp` and `06_fixed_buffers.cpp` again, now for what is in flight and
not for what is copied: the file may change after `fstat` (`fileSize` is not tied to what the reads
find) and a request may end with any error or any count up to its length, zero included.

* `Slots`, `Waits` — the requests in flight at each wait and the buffers they use.
* `pipeline_race_free` — at every wait the loop waits for what it has submitted, and a buffer whose
  data has not been written yet is not touched.
* `failed_quiescent_iff` — when an exception leaves the scope of the buffers with nothing in flight.
-/

namespace AdvCpp.Uring.PipelineCopy

open AdvCpp.Lib

/-- `step` with any result up to the length of the request. -/
def loopStep (fixed : Bool) (fileSize : Nat) (src : List UInt8) (s : State) : Ev → Option State
  | .exec t res =>
    match s.flight.find? (·.pending t) with
    | some q =>
      if res ≤ (q.sqe.len : Int) then
        some (transfer src q.sqe res { s with flight := s.flight.replaceF (·.finish t res) })
      else none
    | none => none
  | .wait t =>
    match s.flight.find? (·.completed t) with
    | some ⟨_, some res⟩ =>
      reap fixed fileSize { s with flight := s.flight.eraseP (·.completed t) } t res
    | _ => none

def loopMachine (fixed : Bool) (fileSize : Nat) (src : List UInt8) : Machine State Ev :=
  ⟨start fixed fileSize, loopStep fixed fileSize src⟩

section Refinement

variable {fixed : Bool} {src : List UInt8} {s s' : State}

theorem KernelMay.le {q : Sqe} {res : Int} (h : KernelMay src q res) : res ≤ (q.len : Int) := by
  rcases h with h | ⟨-, h⟩
  · omega
  · cases htag : q.tag with
    | read =>
      simp only [htag] at h
      have hmin : (min q.len (src.length - q.off) : Nat) ≤ q.len := Nat.min_le_left _ _
      omega
    | write =>
      simp only [htag] at h
      exact h.2

theorem loopStep_of_step {e : Ev} (h : step fixed src s e = some s') :
    loopStep fixed src.length src s e = some s' := by
  cases e with
  | wait t => exact h
  | exec t res =>
    simp only [step] at h
    split at h
    · rename_i q hq
      split at h
      · rename_i hk
        simp only [loopStep, hq, if_pos hk.le]
        exact h
      · cases h
    · cases h

/-- **The copy's own runs are runs of this loop.** -/
theorem loopMachine_of_run {es : List Ev} (h : (machine fixed src).run es = some s) :
    (loopMachine fixed src.length src).run es = some s :=
  Machine.exec_mono (fun _ _ _ => loopStep_of_step) h

end Refinement

/-! ## What is in flight -/

/-- A read into the buffer `cur`, a write from the other one. -/
structure Slots (s : State) (rd wr : Option Req) : Prop where
  flight : s.flight = wr.toList ++ rd.toList
  read : Tagged .read rd
  readBuf : ∀ q, rd = some q → q.sqe.buf = s.cur
  write : Tagged .write wr
  writeBuf : ∀ q, wr = some q → q.sqe.buf = s.cur ^^^ 1
  cur : s.cur < 2

/-- What the program waits for. -/
def Waits (s : State) (rd wr : Option Req) : Prop :=
  match s.pc with
  | .reap left => 0 < left ∧ left = s.flight.length
  | .drain => rd = none ∧ wr.isSome
  | .copied => rd = none ∧ wr = none
  | .failed => True

section Slots

variable {fixed : Bool} {fileSize : Nat} {src : List UInt8} {s s' : State} {rd wr : Option Req}

theorem swap_spec {cur : Nat} (h : cur < 2) : cur ^^^ 1 < 2 ∧ cur ≠ cur ^^^ 1 := by
  obtain rfl | rfl : cur = 0 ∨ cur = 1 := by omega
  · decide
  · decide

theorem swap_swap (cur : Nat) : (cur ^^^ 1) ^^^ 1 = cur := by
  rw [Nat.xor_assoc, Nat.xor_self, Nat.xor_zero]

@[simp] theorem transfer_flight (q : Sqe) (res : Int) (s : State) :
    (transfer src q res s).flight = s.flight := by
  unfold transfer; split <;> rfl

@[simp] theorem transfer_cur (q : Sqe) (res : Int) (s : State) :
    (transfer src q res s).cur = s.cur := by
  unfold transfer; split <;> rfl

/-- A request carries the same tag and buffer when it is done. -/
theorem Tagged.done {t : Tag} {q : Req} (h : Tagged t (some q)) (res : Int) :
    Tagged t (some { q with res := some res }) := by
  intro p hp
  cases hp
  exact h q rfl

theorem Slots.execRead {q : Req} (res : Int) (h : Slots s (some q) wr)
    (hf : s'.flight = wr.toList ++ (some { q with res := some res }).toList)
    (hc : s'.cur = s.cur) : Slots s' (some { q with res := some res }) wr :=
  { flight := hf, read := h.read.done res, write := h.write, cur := hc ▸ h.cur
    readBuf := by
      intro p hp
      cases hp
      rw [hc]
      exact h.readBuf q rfl
    writeBuf := by rw [hc]; exact h.writeBuf }

theorem Slots.execWrite {q : Req} (res : Int) (h : Slots s rd (some q))
    (hf : s'.flight = (some { q with res := some res }).toList ++ rd.toList)
    (hc : s'.cur = s.cur) : Slots s' rd (some { q with res := some res }) :=
  { flight := hf, read := h.read, write := h.write.done res, cur := hc ▸ h.cur
    readBuf := by rw [hc]; exact h.readBuf
    writeBuf := by
      intro p hp
      cases hp
      rw [hc]
      exact h.writeBuf q rfl }

theorem Slots.reapRead (h : Slots s rd wr) (hf : s'.flight = wr.toList) (hc : s'.cur = s.cur) :
    Slots s' none wr :=
  { flight := by simp [hf], read := by simp [Tagged], readBuf := by simp, write := h.write
    writeBuf := by rw [hc]; exact h.writeBuf
    cur := hc ▸ h.cur }

theorem Slots.reapWrite (h : Slots s rd wr) (hf : s'.flight = rd.toList) (hc : s'.cur = s.cur) :
    Slots s' rd none :=
  { flight := by simp [hf], read := h.read, write := by simp [Tagged], writeBuf := by simp
    readBuf := by rw [hc]; exact h.readBuf
    cur := hc ▸ h.cur }

/-- The kernel executes the read. -/
theorem exec_read {res : Int} (h : Slots s rd wr)
    (hs : loopStep fixed fileSize src s (.exec .read res) = some s') :
    ∃ q, rd = some q ∧ q.res = none ∧ Slots s' (some { q with res := some res }) wr ∧
      s'.pc = s.pc ∧ s'.cur = s.cur ∧ s'.flight.length = s.flight.length ∧
      ∀ b, b ≠ s.cur → s'.buf b = s.buf b := by
  simp only [loopStep] at hs
  split at hs
  · rename_i q hfind
    rw [h.flight] at hfind hs
    obtain ⟨htag, hn, hslot⟩ := find_pending h.write h.read hfind
    obtain rfl : rd = some q := hslot
    rw [replace_read h.write htag hn] at hs
    split at hs
    · cases hs
      refine ⟨q, rfl, hn, h.execRead res (by simp) (by simp), by simp, by simp, ?_, ?_⟩
      · simp [h.flight]
      · intro b hb
        simp only [transfer, htag]
        rw [h.readBuf q rfl]
        exact Function.update_of_ne hb _ _
    · cases hs
  · cases hs

/-- The kernel executes the write. -/
theorem exec_write {res : Int} (h : Slots s rd wr)
    (hs : loopStep fixed fileSize src s (.exec .write res) = some s') :
    ∃ q, wr = some q ∧ q.res = none ∧ Slots s' rd (some { q with res := some res }) ∧
      s'.pc = s.pc ∧ s'.cur = s.cur ∧ s'.flight.length = s.flight.length ∧ s'.buf = s.buf := by
  simp only [loopStep] at hs
  split at hs
  · rename_i q hfind
    rw [h.flight] at hfind hs
    obtain ⟨htag, hn, hslot⟩ := find_pending h.write h.read hfind
    obtain rfl : wr = some q := hslot
    rw [replace_write htag hn] at hs
    split at hs
    · cases hs
      refine ⟨q, rfl, hn, h.execWrite res (by simp) (by simp), by simp, by simp, ?_, ?_⟩
      · simp [h.flight]
      · simp only [transfer, htag]
    · cases hs
  · cases hs

/-- All completions have been reaped: the loop ends, or the write of the buffer just read is
queued and the other buffer is the next to be read into. -/
def Queued (s s' : State) : Prop :=
  (s'.bytesRead = 0 ∧ s'.pc = .copied ∧ Slots s' none none) ∨
    ∃ rd' w, w.sqe.buf = s.cur ∧ w.res = none ∧ s'.pc ≠ .failed ∧ Slots s' rd' (some w) ∧
      Waits s' rd' (some w)

theorem afterReap_queued (hf : s.flight = []) (hc : s.cur < 2) :
    Queued s (afterReap fixed fileSize s) := by
  have hslots : ∀ {s' : State} {rd' : Option Req} {len off : Nat},
      s'.flight = (some (prepWrite fixed s.cur len off)).toList ++ rd'.toList →
      s'.cur = s.cur ^^^ 1 → Tagged .read rd' → (∀ q, rd' = some q → q.sqe.buf = s.cur ^^^ 1) →
      Slots s' rd' (some (prepWrite fixed s.cur len off)) := by
    intro s' rd' len off hflight hcur htag hbuf
    refine ⟨hflight, htag, ?_, ?_, ?_, hcur ▸ (swap_spec hc).1⟩
    · rw [hcur]; exact hbuf
    · intro q hq
      cases hq
      rfl
    · intro q hq
      cases hq
      rw [hcur, swap_swap]
      rfl
  unfold afterReap
  split
  · rename_i hzero
    refine Or.inl ⟨hzero, rfl, ?_⟩
    exact ⟨hf, by simp [Tagged], by simp, by simp [Tagged], by simp, hc⟩
  · simp only
    split
    · -- the next read goes into the other buffer
      refine Or.inr ⟨some (prepRead fixed (s.cur ^^^ 1) (min (fileSize - s.readOff) BUF_SIZE)
        s.readOff), prepWrite fixed s.cur s.bytesRead s.writeOff, rfl, rfl, by simp [loopTop], ?_, ?_⟩
      · refine hslots (by simp [loopTop, hf]) rfl ?_ ?_
        · intro q hq
          cases hq
          rfl
        · intro q hq
          cases hq
          rfl
      · simp [Waits, loopTop, hf]
    · refine Or.inr ⟨none, prepWrite fixed s.cur s.bytesRead s.writeOff, rfl, rfl, by simp,
        hslots (by simp [hf]) rfl (by simp [Tagged]) (by simp), ?_⟩
      simp [Waits]

/-- The program takes the completion of the read. -/
theorem wait_read (h : Slots s rd wr) (hw : Waits s rd wr)
    (hs : loopStep fixed fileSize src s (.wait .read) = some s') :
    ∃ q res, rd = some q ∧ q.res = some res ∧
      ((res < 0 ∧ s'.pc = .failed ∧ Slots s' none wr) ∨
        (0 ≤ res ∧ wr.isSome ∧ s'.pc = .reap 1 ∧ s'.cur = s.cur ∧ Slots s' none wr) ∨
        (0 ≤ res ∧ wr = none ∧ Queued s s')) := by
  simp only [loopStep] at hs
  split at hs
  · rename_i sqe res hfind
    rw [h.flight] at hfind hs
    obtain ⟨htag, hslot⟩ := find_completed h.write h.read hfind
    obtain rfl : rd = some _ := hslot
    rw [erase_read h.write htag (by simp)] at hs
    refine ⟨⟨sqe, some res⟩, res, rfl, rfl, ?_⟩
    simp only [reap] at hs
    split at hs
    · rename_i left hpc
      obtain ⟨-, hleft⟩ : 0 < left + 1 ∧ left + 1 = s.flight.length := by simpa [Waits, hpc] using hw
      rw [h.flight] at hleft
      split at hs
      · rename_i hneg
        cases hs
        exact Or.inl ⟨hneg, rfl, h.reapRead (by simp) rfl⟩
      · rename_i hneg
        have h0 : 0 ≤ res := Int.not_lt.1 hneg
        cases wr with
        | some w =>
          obtain rfl : left = 1 := by simpa using hleft
          cases hs
          exact Or.inr (Or.inl ⟨h0, rfl, rfl, rfl, h.reapRead rfl rfl⟩)
        | none =>
          obtain rfl : left = 0 := by simpa using hleft
          cases hs
          exact Or.inr (Or.inr ⟨h0, rfl, afterReap_queued rfl h.cur⟩)
    · rename_i hpc
      simp [Waits, hpc] at hw
    · cases hs
  · cases hs

/-- The program takes the completion of the write. -/
theorem wait_write (h : Slots s rd wr) (hw : Waits s rd wr)
    (hs : loopStep fixed fileSize src s (.wait .write) = some s') :
    ∃ q res, wr = some q ∧ q.res = some res ∧
      ((res < 0 ∧ s'.pc = .failed ∧ Slots s' rd none) ∨
        (0 ≤ res ∧ s.pc = .drain ∧ s'.pc = .copied ∧ Slots s' none none) ∨
        (0 ≤ res ∧ rd.isSome ∧ s'.pc = .reap 1 ∧ s'.cur = s.cur ∧ Slots s' rd none) ∨
        (0 ≤ res ∧ rd = none ∧ (∃ left, s.pc = .reap left) ∧ Queued s s')) := by
  simp only [loopStep] at hs
  split at hs
  · rename_i sqe res hfind
    rw [h.flight] at hfind hs
    obtain ⟨htag, hslot⟩ := find_completed h.write h.read hfind
    obtain rfl : wr = some _ := hslot
    rw [erase_write htag (by simp)] at hs
    refine ⟨⟨sqe, some res⟩, res, rfl, rfl, ?_⟩
    simp only [reap] at hs
    split at hs
    · rename_i left hpc
      obtain ⟨-, hleft⟩ : 0 < left + 1 ∧ left + 1 = s.flight.length := by simpa [Waits, hpc] using hw
      rw [h.flight] at hleft
      split at hs
      · rename_i hneg
        cases hs
        exact Or.inl ⟨hneg, rfl, h.reapWrite (by simp) rfl⟩
      · rename_i hneg
        have h0 : 0 ≤ res := Int.not_lt.1 hneg
        cases rd with
        | some r =>
          obtain rfl : left = 1 := by simpa using hleft
          cases hs
          exact Or.inr (Or.inr (Or.inl ⟨h0, rfl, rfl, rfl, h.reapWrite rfl rfl⟩))
        | none =>
          obtain rfl : left = 0 := by simpa using hleft
          cases hs
          exact Or.inr (Or.inr (Or.inr ⟨h0, rfl, ⟨_, hpc⟩, afterReap_queued rfl h.cur⟩))
    · rename_i hpc
      obtain rfl : rd = none := by simpa [Waits, hpc] using hw
      split at hs
      · rename_i hneg
        cases hs
        exact Or.inl ⟨hneg, rfl, h.reapWrite (by simp) rfl⟩
      · rename_i hneg
        cases hs
        exact Or.inr (Or.inl ⟨Int.not_lt.1 hneg, hpc, rfl, h.reapWrite rfl rfl⟩)
    · cases hs
  · cases hs

theorem afterReap_buf : (afterReap fixed fileSize s).buf = s.buf := by
  unfold afterReap
  split
  · rfl
  · dsimp only
    split
    · rfl
    · rfl

/-- Only the kernel writes to a buffer. -/
theorem wait_buf {t : Tag} (hs : loopStep fixed fileSize src s (.wait t) = some s') :
    s'.buf = s.buf := by
  simp only [loopStep, reap] at hs
  split at hs
  · split at hs
    · split at hs
      · cases hs; rfl
      · split at hs
        · cases hs
          rw [afterReap_buf]
          cases t with
          | read => rfl
          | write => rfl
        · cases hs
          cases t with
          | read => rfl
          | write => rfl
    · split at hs
      · cases hs; rfl
      · cases hs; rfl
    · cases hs
  · cases hs

/-! ## The invariant -/

def LoopInv (s : State) : Prop := ∃ rd wr, Slots s rd wr ∧ Waits s rd wr

theorem start_loopInv : LoopInv (start fixed fileSize) := by
  refine ⟨some (prepRead fixed 0 (min (fileSize - 0) BUF_SIZE) 0), none, ?_, by simp [Waits, start, loopTop]⟩
  refine ⟨rfl, ?_, ?_, by simp [Tagged], by simp, by simp [start, loopTop]⟩
  · intro q hq
    cases hq
    rfl
  · intro q hq
    cases hq
    rfl

theorem Queued.loopInv (h : Queued s s') : LoopInv s' := by
  rcases h with ⟨-, hpc, h⟩ | ⟨rd', w, -, -, -, h, hw⟩
  · exact ⟨none, none, h, by simp [Waits, hpc]⟩
  · exact ⟨rd', some w, h, hw⟩

theorem loopStep_inv {e : Ev} (h : LoopInv s) (hs : loopStep fixed fileSize src s e = some s') :
    LoopInv s' := by
  obtain ⟨rd, wr, h, hw⟩ := h
  cases e with
  | exec t res =>
    cases t with
    | read =>
      obtain ⟨q, rfl, -, h', hpc, -, hlen, -⟩ := exec_read h hs
      refine ⟨_, wr, h', ?_⟩
      unfold Waits at hw ⊢
      rw [hpc, hlen]
      split at hw
      · exact hw
      · simp at hw
      · simp at hw
      · trivial
    | write =>
      obtain ⟨q, rfl, -, h', hpc, -, hlen, -⟩ := exec_write h hs
      refine ⟨rd, _, h', ?_⟩
      unfold Waits at hw ⊢
      rw [hpc, hlen]
      split at hw
      · exact hw
      · exact ⟨hw.1, rfl⟩
      · simp at hw
      · trivial
  | wait t =>
    cases t with
    | read =>
      obtain ⟨q, res, rfl, -, ⟨-, hpc, h'⟩ | ⟨-, hwr, hpc, -, h'⟩ | ⟨-, -, hq⟩⟩ := wait_read h hw hs
      · exact ⟨none, wr, h', by simp [Waits, hpc]⟩
      · obtain ⟨w, rfl⟩ := Option.isSome_iff_exists.1 hwr
        exact ⟨none, some w, h', by simp [Waits, hpc, h'.flight]⟩
      · exact hq.loopInv
    | write =>
      obtain ⟨q, res, rfl, -, ⟨-, hpc, h'⟩ | ⟨-, -, hpc, h'⟩ | ⟨-, hrd, hpc, -, h'⟩ | ⟨-, -, -, hq⟩⟩ :=
        wait_write h hw hs
      · exact ⟨rd, none, h', by simp [Waits, hpc]⟩
      · exact ⟨none, none, h', by simp [Waits, hpc]⟩
      · obtain ⟨r, rfl⟩ := Option.isSome_iff_exists.1 hrd
        exact ⟨some r, none, h', by simp [Waits, hpc, h'.flight]⟩
      · exact hq.loopInv

theorem run_loopInv {es : List Ev} (h : (loopMachine fixed fileSize src).run es = some s) :
    LoopInv s :=
  Machine.run_inv start_loopInv (fun _ _ _ => loopStep_inv) h

/-! ## The buffers are never shared -/

/-- The buffer holds data that has not been written: a read into it has been executed, a write
from it is queued, or the read has been reaped and the write is still to be queued. -/
def Unwritten (s : State) (b : Nat) : Prop :=
  (∃ q ∈ s.flight, q.sqe.buf = b ∧ (q.completed .read ∨ q.pending .write)) ∨
    (b = s.cur ∧ (∃ left, s.pc = .reap left) ∧ ∀ q ∈ s.flight, q.sqe.tag = .write)

/-- What is in flight at a wait, and how many completions the loop waits for. -/
structure RaceFree (s : State) : Prop where
  one_read : (s.flight.filter (·.sqe.tag = .read)).length ≤ 1
  one_write : (s.flight.filter (·.sqe.tag = .write)).length ≤ 1
  apart : ∀ r ∈ s.flight, ∀ w ∈ s.flight, r.sqe.tag = .read → w.sqe.tag = .write →
    r.sqe.buf ≠ w.sqe.buf
  waits : match s.pc with
    | .reap left => 0 < left ∧ left = s.flight.length
    | .drain => s.flight.length = 1
    | .copied => s.flight = []
    | .failed => True

/-- What a step does to the data of a buffer: it is there once the read has been executed, and it
stays until the write has been executed or there is nothing more to write. -/
structure KeepsData (s : State) (e : Ev) (s' : State) : Prop where
  read : ∀ res, e = .exec .read res → ∀ q ∈ s.flight, q.pending .read → Unwritten s' q.sqe.buf
  kept : ∀ b, Unwritten s b → s'.buf b = s.buf b
  until_written : ∀ b, Unwritten s b → Unwritten s' b ∨
    (∃ res, e = .exec .write res ∧ ∃ q ∈ s.flight, q.pending .write ∧ q.sqe.buf = b) ∨
    (s'.pc = .copied ∧ s'.bytesRead = 0) ∨ s'.pc = .failed

theorem Slots.tag_read_iff (h : Slots s rd wr) {q : Req} (hq : q ∈ s.flight) :
    (q.sqe.tag = .read ↔ rd = some q) ∧ (q.sqe.tag = .write ↔ wr = some q) := by
  rw [h.flight] at hq
  have hcases : wr = some q ∨ rd = some q := by simpa using hq
  constructor
  · constructor
    · intro htag
      rcases hcases with hw | hr
      · rw [h.write q hw] at htag
        cases htag
      · exact hr
    · exact h.read q
  · constructor
    · intro htag
      rcases hcases with hw | hr
      · exact hw
      · rw [h.read q hr] at htag
        cases htag
    · exact h.write q

theorem Slots.mem_read {q : Req} (h : Slots s (some q) wr) : q ∈ s.flight := by
  simp [h.flight]

theorem Slots.mem_write {q : Req} (h : Slots s rd (some q)) : q ∈ s.flight := by
  simp [h.flight]

/-- Which buffers hold data, by slot. -/
theorem Slots.unwritten_iff (h : Slots s rd wr) {b : Nat} :
    Unwritten s b ↔ (b = s.cur ∧ ∃ q, rd = some q ∧ q.res ≠ none) ∨
      (∃ q, wr = some q ∧ q.res = none ∧ b = q.sqe.buf) ∨
      (b = s.cur ∧ (∃ left, s.pc = .reap left) ∧ rd = none) := by
  constructor
  · rintro (⟨q, hq, rfl, hd⟩ | ⟨rfl, hpc, hall⟩)
    · obtain ⟨hr, hw⟩ := h.tag_read_iff hq
      rcases hd with hd | hd
      · simp only [Req.completed, decide_eq_true_eq] at hd
        have hrd := hr.1 hd.1
        exact Or.inl ⟨h.readBuf q hrd, q, hrd, hd.2⟩
      · simp only [Req.pending, decide_eq_true_eq] at hd
        exact Or.inr (Or.inl ⟨q, hw.1 hd.1, hd.2, rfl⟩)
    · refine Or.inr (Or.inr ⟨rfl, hpc, ?_⟩)
      cases rd with
      | none => rfl
      | some q =>
        have htag := hall q h.mem_read
        rw [h.read q rfl] at htag
        cases htag
  · rintro (⟨rfl, q, rfl, hd⟩ | ⟨q, rfl, hd, rfl⟩ | ⟨rfl, hpc, rfl⟩)
    · refine Or.inl ⟨q, h.mem_read, h.readBuf q rfl, Or.inl ?_⟩
      simpa [Req.completed, h.read q rfl] using hd
    · refine Or.inl ⟨q, h.mem_write, rfl, Or.inr ?_⟩
      simpa [Req.pending, h.write q rfl] using hd
    · refine Or.inr ⟨rfl, hpc, ?_⟩
      intro q hq
      rw [h.flight] at hq
      exact h.write q (by simpa using hq)

theorem Slots.length_filter_le (h : Slots s rd wr) (t : Tag) :
    (s.flight.filter (·.sqe.tag = t)).length ≤ 1 := by
  rw [h.flight, List.filter_append, List.length_append]
  have hlen : ∀ o : Option Req, (o.toList.filter (·.sqe.tag = t)).length ≤ 1 := by
    intro o
    refine Nat.le_trans (List.length_filter_le _ _) ?_
    cases o with
    | none => simp
    | some q => simp
  have hnil : ∀ {o : Option Req} {u : Tag}, Tagged u o → u ≠ t →
      (o.toList.filter (·.sqe.tag = t)).length = 0 := by
    intro o u ho hu
    rw [List.length_eq_zero_iff, List.filter_eq_nil_iff]
    intro q hq
    rw [ho q (by simpa using hq)]
    simpa using hu
  cases t with
  | read => rw [hnil h.write (by simp), Nat.zero_add]; exact hlen rd
  | write => rw [hnil h.read (by simp), Nat.add_zero]; exact hlen wr

theorem LoopInv.raceFree (h : LoopInv s) : RaceFree s := by
  obtain ⟨rd, wr, h, hw⟩ := h
  refine ⟨h.length_filter_le .read, h.length_filter_le .write, ?_, ?_⟩
  · intro r hr w hw' htr htw
    rw [h.readBuf r ((h.tag_read_iff hr).1.1 htr), h.writeBuf w ((h.tag_read_iff hw').2.1 htw)]
    exact (swap_spec h.cur).2
  · unfold Waits at hw
    split at hw
    · exact hw
    · obtain ⟨rfl, hsome⟩ := hw
      obtain ⟨w, rfl⟩ := Option.isSome_iff_exists.1 hsome
      simp [h.flight]
    · obtain ⟨rfl, rfl⟩ := hw
      simp [h.flight]
    · trivial

/-- The write of the buffer just read is queued, or nothing was read. -/
theorem Queued.unwritten (h : Queued s s') :
    Unwritten s' s.cur ∨ (s'.pc = .copied ∧ s'.bytesRead = 0) := by
  rcases h with ⟨hz, hpc, -⟩ | ⟨rd', w, hbuf, hn, -, h, -⟩
  · exact Or.inr ⟨hpc, hz⟩
  · exact Or.inl (h.unwritten_iff.2 (Or.inr (Or.inl ⟨w, rfl, hn, hbuf.symm⟩)))

theorem keepsData_exec_read {res : Int} (h : Slots s rd wr)
    (hs : loopStep fixed fileSize src s (.exec .read res) = some s') :
    KeepsData s (.exec .read res) s' := by
  obtain ⟨q, rfl, hn, h', hpc, hcur, -, hbuf⟩ := exec_read h hs
  have hne : ∀ b, Unwritten s b → ∃ w, wr = some w ∧ w.res = none ∧ b = w.sqe.buf := by
    intro b hb
    rcases h.unwritten_iff.1 hb with ⟨-, p, hp, hres⟩ | hw | ⟨-, -, hnone⟩
    · cases hp
      exact absurd hn hres
    · exact hw
    · cases hnone
  constructor
  · intro _ _ p hp hpend
    simp only [Req.pending, decide_eq_true_eq] at hpend
    cases (h.tag_read_iff hp).1.1 hpend.1
    refine h'.unwritten_iff.2 (Or.inl ⟨?_, _, rfl, by simp⟩)
    rw [h.readBuf q rfl, hcur]
  · intro b hb
    obtain ⟨w, rfl, -, rfl⟩ := hne b hb
    refine hbuf _ ?_
    rw [h.writeBuf w rfl]
    exact (swap_spec h.cur).2.symm
  · intro b hb
    exact Or.inl (h'.unwritten_iff.2 (Or.inr (Or.inl (hne b hb))))

theorem keepsData_exec_write {res : Int} (h : Slots s rd wr)
    (hs : loopStep fixed fileSize src s (.exec .write res) = some s') :
    KeepsData s (.exec .write res) s' := by
  obtain ⟨q, rfl, hn, h', hpc, hcur, -, hbuf⟩ := exec_write h hs
  constructor
  · intro res' he
    cases he
  · intro b _
    rw [hbuf]
  · intro b hb
    rcases h.unwritten_iff.1 hb with hr | ⟨w, hw, -, rfl⟩ | hr
    · exact Or.inl (h'.unwritten_iff.2 (Or.inl (hcur ▸ hr)))
    · cases hw
      refine Or.inr (Or.inl ⟨res, rfl, q, h.mem_write, ?_, rfl⟩)
      simpa [Req.pending, hn] using h.write q rfl
    · exact Or.inl (h'.unwritten_iff.2 (Or.inr (Or.inr (by rw [hcur, hpc]; exact hr))))

theorem keepsData_wait_read (h : Slots s rd wr) (hw : Waits s rd wr)
    (hs : loopStep fixed fileSize src s (.wait .read) = some s') :
    KeepsData s (.wait .read) s' := by
  refine { read := ?_, kept := ?_, until_written := ?_ }
  · intro res he
    cases he
  · intro b _
    rw [wait_buf hs]
  intro b hb
  obtain ⟨q, res, rfl, hres, ⟨-, hpc, -⟩ | ⟨-, hwr, hpc, hcur, h'⟩ | ⟨-, rfl, hq⟩⟩ :=
    wait_read h hw hs
  · exact Or.inr (Or.inr (Or.inr hpc))
  · left
    rw [h'.unwritten_iff]
    rcases h.unwritten_iff.1 hb with ⟨rfl, -⟩ | hpend | ⟨-, -, hnone⟩
    · exact Or.inr (Or.inr ⟨hcur.symm, ⟨1, hpc⟩, rfl⟩)
    · exact Or.inr (Or.inl hpend)
    · cases hnone
  · rcases h.unwritten_iff.1 hb with ⟨rfl, -⟩ | ⟨w, hw', -⟩ | ⟨-, -, hnone⟩
    · rcases hq.unwritten with hu | hend
      · exact Or.inl hu
      · exact Or.inr (Or.inr (Or.inl hend))
    · cases hw'
    · cases hnone

theorem keepsData_wait_write (h : Slots s rd wr) (hw : Waits s rd wr)
    (hs : loopStep fixed fileSize src s (.wait .write) = some s') :
    KeepsData s (.wait .write) s' := by
  refine { read := ?_, kept := ?_, until_written := ?_ }
  · intro res he
    cases he
  · intro b _
    rw [wait_buf hs]
  intro b hb
  obtain ⟨q, res, rfl, hres, hcases⟩ := wait_write h hw hs
  -- the write taken has been executed, so its buffer is free
  have hb' : (b = s.cur ∧ ∃ p, rd = some p ∧ p.res ≠ none) ∨
      (b = s.cur ∧ (∃ left, s.pc = .reap left) ∧ rd = none) := by
    rcases h.unwritten_iff.1 hb with hr | ⟨w, hw', hn, -⟩ | hr
    · exact Or.inl hr
    · cases hw'
      rw [hn] at hres
      cases hres
    · exact Or.inr hr
  rcases hcases with ⟨-, hpc, -⟩ | ⟨-, hpc, -, -⟩ | ⟨-, hrd, hpc, hcur, h'⟩ | ⟨-, rfl, -, hq⟩
  · exact Or.inr (Or.inr (Or.inr hpc))
  · -- the final write: nothing else holds data
    unfold Waits at hw
    rw [hpc] at hw
    obtain ⟨rfl, -⟩ := hw
    rcases hb' with ⟨-, p, hp, -⟩ | ⟨-, ⟨left, hleft⟩, -⟩
    · cases hp
    · rw [hpc] at hleft
      cases hleft
  · left
    rw [h'.unwritten_iff]
    rcases hb' with ⟨rfl, p, hp, hn⟩ | ⟨-, -, rfl⟩
    · exact Or.inl ⟨hcur.symm, p, hp, hn⟩
    · cases hrd
  · rcases hb' with ⟨-, p, hp, -⟩ | ⟨rfl, -⟩
    · cases hp
    · rcases hq.unwritten with hu | hend
      · exact Or.inl hu
      · exact Or.inr (Or.inr (Or.inl hend))

theorem LoopInv.keepsData {e : Ev} (h : LoopInv s)
    (hs : loopStep fixed fileSize src s e = some s') : KeepsData s e s' := by
  obtain ⟨rd, wr, h, hw⟩ := h
  cases e with
  | exec t res =>
    cases t with
    | read => exact keepsData_exec_read h hs
    | write => exact keepsData_exec_write h hs
  | wait t =>
    cases t with
    | read => exact keepsData_wait_read h hw hs
    | write => exact keepsData_wait_write h hw hs

end Slots

/-- **Double buffering is race-free**: at every wait the loop waits for exactly the requests in
flight, at most one read and one write on different buffers, and no step touches a buffer whose
data has not been written. -/
theorem pipeline_race_free (fixed : Bool) (fileSize : Nat) (src : List UInt8) (es : List Ev)
    (s : State) (h : (loopMachine fixed fileSize src).run es = some s) :
    RaceFree s ∧ ∀ e s', loopStep fixed fileSize src s e = some s' → KeepsData s e s' :=
  have hinv := run_loopInv h
  ⟨hinv.raceFree, fun _ _ hs => hinv.keepsData hs⟩

/-- A short first read of a large file: its write and the next read are in flight. -/
theorem pipeline_race_free_short_read : ∃ s : State,
    (loopMachine true 200000 [1, 2]).run [.exec .read 2, .wait .read] = some s ∧
      s.pc = .reap 2 ∧ RaceFree s :=
  ⟨_, rfl, rfl,
    (pipeline_race_free true 200000 [1, 2] [.exec .read 2, .wait .read] _ rfl).1⟩

/-! ## Errors -/

/-- An exception finds nothing with the kernel. -/
def Quiescent (s : State) : Prop := s.pc = .failed → ∀ q ∈ s.flight, q.res ≠ none

/-- An error is taken as the last completion of its round, or when the other request is done. -/
def ErrorLast (s : State) : Ev → Prop
  | .exec _ _ => True
  | .wait t => ∀ q ∈ s.flight, q.completed t → (∃ res, q.res = some res ∧ res < 0) →
    s.pc = .reap 1 ∨ s.pc = .drain ∨ ∀ p ∈ s.flight, p.sqe.tag ≠ t → p.res ≠ none

section Errors

variable {fixed : Bool} {fileSize : Nat} {src : List UInt8} {s s' : State}

theorem quiescent_of_pc (h : s.pc ≠ .failed) : Quiescent s := fun hf => absurd hf h

/-- No request that is taken carries an error. -/
theorem errorLast_of_nonneg {t : Tag}
    (h : ∀ q ∈ s.flight, q.completed t → ∀ res, q.res = some res → 0 ≤ res) :
    ErrorLast s (.wait t) := by
  intro q hq hc ⟨res, hres, hneg⟩
  exact absurd hneg (Int.not_lt.2 (h q hq hc res hres))

theorem Queued.pc_ne (h : Queued s s') : s'.pc ≠ .failed := by
  rcases h with ⟨-, hpc, -⟩ | ⟨_, _, -, -, hpc, -⟩
  · rw [hpc]; simp
  · exact hpc

/-- An exec step does not raise an exception, and finds none with everything executed. -/
theorem quiescent_exec {t : Tag} {res : Int} (h : LoopInv s) (hq : Quiescent s)
    (hs : loopStep fixed fileSize src s (.exec t res) = some s') : Quiescent s' := by
  obtain ⟨rd, wr, h, -⟩ := h
  refine quiescent_of_pc ?_
  cases t with
  | read =>
    obtain ⟨q, rfl, hn, -, hpc, -⟩ := exec_read h hs
    rw [hpc]
    exact fun hf => hq hf q h.mem_read hn
  | write =>
    obtain ⟨q, rfl, hn, -, hpc, -⟩ := exec_write h hs
    rw [hpc]
    exact fun hf => hq hf q h.mem_write hn

theorem quiescent_wait_read (h : Slots s rd wr) (hw : Waits s rd wr)
    (hs : loopStep fixed fileSize src s (.wait .read) = some s') :
    Quiescent s' ↔ ErrorLast s (.wait .read) := by
  obtain ⟨q, res, rfl, hres, hcases⟩ := wait_read h hw hs
  have hnonneg : 0 ≤ res → ErrorLast s (.wait .read) := by
    intro h0
    refine errorLast_of_nonneg ?_
    intro p hp hc r hr
    simp only [Req.completed, decide_eq_true_eq] at hc
    cases (h.tag_read_iff hp).1.1 hc.1
    rw [hres] at hr
    cases hr
    exact h0
  rcases hcases with ⟨hneg, hpc, h'⟩ | ⟨h0, -, hpc, -⟩ | ⟨h0, -, hq⟩
  · constructor
    · intro hquiet p _ _ _
      refine Or.inr (Or.inr ?_)
      intro p hp htag
      have hp' : p ∈ s'.flight := by
        rw [h.flight] at hp
        rw [h'.flight]
        rcases List.mem_append.1 hp with hp | hp
        · exact List.mem_append_left _ hp
        · exact absurd (h.read p (by simpa [eq_comm] using hp)) htag
      exact hquiet hpc p hp'
    · intro hlast _ p hp
      have hw' : wr = some p := by simpa [h'.flight] using hp
      subst hw'
      have hc : q.completed .read := by simp [Req.completed, h.read q rfl, hres]
      rcases hlast q h.mem_read hc ⟨res, hres, hneg⟩ with hone | hdrain | hdone
      · -- two requests were in flight
        simp [Waits, hone, h.flight] at hw
      · simp [Waits, hdrain] at hw
      · exact hdone p h.mem_write (by simp [h.write p rfl])
  · exact iff_of_true (quiescent_of_pc (by simp [hpc])) (hnonneg h0)
  · exact iff_of_true (quiescent_of_pc hq.pc_ne) (hnonneg h0)

theorem quiescent_wait_write (h : Slots s rd wr) (hw : Waits s rd wr)
    (hs : loopStep fixed fileSize src s (.wait .write) = some s') :
    Quiescent s' ↔ ErrorLast s (.wait .write) := by
  obtain ⟨q, res, rfl, hres, hcases⟩ := wait_write h hw hs
  have hnonneg : 0 ≤ res → ErrorLast s (.wait .write) := by
    intro h0
    refine errorLast_of_nonneg ?_
    intro p hp hc r hr
    simp only [Req.completed, decide_eq_true_eq] at hc
    cases (h.tag_read_iff hp).2.1 hc.1
    rw [hres] at hr
    cases hr
    exact h0
  rcases hcases with ⟨hneg, hpc, h'⟩ | ⟨h0, -, hpc, -⟩ | ⟨h0, -, hpc, -⟩ | ⟨h0, -, -, hq⟩
  · constructor
    · intro hquiet p _ _ _
      refine Or.inr (Or.inr ?_)
      intro p hp htag
      have hp' : p ∈ s'.flight := by
        rw [h.flight] at hp
        rw [h'.flight]
        rcases List.mem_append.1 hp with hp | hp
        · exact absurd (h.write p (by simpa [eq_comm] using hp)) htag
        · exact List.mem_append_right _ hp
      exact hquiet hpc p hp'
    · intro hlast _ p hp
      have hr' : rd = some p := by simpa [h'.flight] using hp
      subst hr'
      have hc : q.completed .write := by simp [Req.completed, h.write q rfl, hres]
      rcases hlast q h.mem_write hc ⟨res, hres, hneg⟩ with hone | hdrain | hdone
      · simp [Waits, hone, h.flight] at hw
      · simp [Waits, hdrain] at hw
      · exact hdone p h.mem_read (by simp [h.read p rfl])
  · exact iff_of_true (quiescent_of_pc (by simp [hpc])) (hnonneg h0)
  · exact iff_of_true (quiescent_of_pc (by simp [hpc])) (hnonneg h0)
  · exact iff_of_true (quiescent_of_pc hq.pc_ne) (hnonneg h0)

/-- One step, in a state with nothing left behind. -/
theorem quiescent_step {e : Ev} (h : LoopInv s) (hq : Quiescent s)
    (hs : loopStep fixed fileSize src s e = some s') : Quiescent s' ↔ ErrorLast s e := by
  cases e with
  | exec t res => exact iff_of_true (quiescent_exec h hq hs) trivial
  | wait t =>
    obtain ⟨rd, wr, h, hw⟩ := h
    cases t with
    | read => exact quiescent_wait_read h hw hs
    | write => exact quiescent_wait_write h hw hs

end Errors

/-- **When a failed copy leaves no I/O behind**: throughout a run, no exception leaves the scope of
the buffers with a request still at work, exactly if every error is taken as the last completion of
its round or after the other request has been executed. -/
theorem failed_quiescent_iff (fixed : Bool) (fileSize : Nat) (src : List UInt8) (es : List Ev)
    (s : State) (h : (loopMachine fixed fileSize src).run es = some s) :
    (loopMachine fixed fileSize src).Always Quiescent (start fixed fileSize) es ↔
      (loopMachine fixed fileSize src).Meets ErrorLast (start fixed fileSize) es := by
  refine Machine.always_iff_meets (M := loopMachine fixed fileSize src)
    (I := fun s => LoopInv s ∧ Quiescent s) (fun s hI => hI.2) ?_ ?_
    ⟨start_loopInv, quiescent_of_pc (by simp [start, loopTop])⟩ h
  · intro s e s' hI hs hok
    exact ⟨loopStep_inv hI.1 hs, (quiescent_step hI.1 hI.2 hs).2 hok⟩
  · intro s e s' hI hs hbad hq
    exact hbad ((quiescent_step hI.1 hI.2 hs).1 hq)

/-- The first read of a file of two chunks fails: nothing else is in flight. -/
theorem failed_quiescent_first_read :
    (loopMachine false 65537 [1, 2]).Always Quiescent (start false 65537)
      [.exec .read (-5), .wait .read] ↔
    (loopMachine false 65537 [1, 2]).Meets ErrorLast (start false 65537)
      [.exec .read (-5), .wait .read] :=
  failed_quiescent_iff false 65537 [1, 2] [.exec .read (-5), .wait .read] _ rfl

/-- The second read of a file of 65537 bytes fails while the write of the first buffer is still
with the kernel, in `05_pipeline_copy` and in `06_fixed_buffers`. -/
theorem failed_leaves_write :
    (∃ s : State, (loopMachine false 65537 (List.replicate 65537 7)).run
        [.exec .read 65536, .wait .read, .exec .read (-5), .wait .read] = some s ∧
      s.flight = [prepWrite false 0 65536 0] ∧ ¬Quiescent s) ∧
    (∃ s : State, (loopMachine true 65537 (List.replicate 65537 7)).run
        [.exec .read 65536, .wait .read, .exec .read (-5), .wait .read] = some s ∧
      s.flight = [prepWrite true 0 65536 0] ∧ ¬Quiescent s) := by
  constructor
  · refine ⟨_, rfl, rfl, fun h => ?_⟩
    exact h rfl (prepWrite false 0 65536 0) (List.mem_singleton_self _) rfl
  · refine ⟨_, rfl, rfl, fun h => ?_⟩
    exact h rfl (prepWrite true 0 65536 0) (List.mem_singleton_self _) rfl

end AdvCpp.Uring.PipelineCopy
