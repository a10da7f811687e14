import AdvCpp.Lib.Machine
import Mathlib.Data.UInt

/-!
# Reads and writes of exactly so many bytes

`pread_exact` and `pwrite_exact` of `vfio_utils.hpp` call `pread` or `pwrite` until all bytes are
transferred.  The events are the results of the calls.

* `transferExact` — the loop, for a system call and the text of its exception.
* `preadExact`, `pwriteExact` — the two functions.
* `Inv.step` — what one call keeps, `Inv.of_run` — what holds after any results.
* `exactTransfer_spec` — what the two functions do.
-/

namespace AdvCpp.Vfio.ExactTransfer

open AdvCpp.Lib

/-! ## The source -/

/-- A number of bytes, or -1 and `errno`. -/
inductive Result where
  | count (n : Nat)
  | error (errno : Nat)
  deriving DecidableEq

def EINTR : Nat := 4

/-- `std::numeric_limits<off_t>::max()` -/
def OFF_T_MAX : UInt64 := 0x7fffffffffffffff

/-- The buffer, and the file (or the device behind it). -/
structure Memory where
  buffer : Nat → UInt8
  file : Int → UInt8

/-- The arguments of a call: a position in the buffer, how many bytes, and a position in the file. -/
structure Call where
  start : Nat
  count : Nat
  offset : Int
  deriving DecidableEq

/-- What the first bytes of a call transfer, and the exception for none. -/
structure Syscall where
  move : Call → Nat → Memory → Memory
  short : String

inductive Thrown where
  | offsetTooLarge
  | errno (error : Nat)
  | short (text : String)
  deriving DecidableEq

/-- `e.what()`, where `strerror` is `vfio_errno_text`. -/
def Thrown.text (strerror : Nat → String) (what : String) : Thrown → String
  | .offsetTooLarge => what ++ ": offset too large"
  | .errno error => what ++ ": " ++ strerror error
  | .short text => what ++ ": " ++ text

inductive Outcome where
  | running
  | returned
  | threw (e : Thrown)
  deriving DecidableEq

/-- `calls` records the calls that have returned, and `moved` which byte of the buffer went where in
the file, or came from there. -/
structure State where
  outcome : Outcome
  done : UInt64
  memory : Memory
  calls : List Call
  moved : List (Nat × Int)

section Loop

variable (sys : Syscall) (size offset : UInt64) (memory : Memory)

/-- `while (done < size)` -/
def loopTest (s : State) : State :=
  { s with outcome := if s.done < size then .running else .returned }

def init : State :=
  if OFF_T_MAX < offset then ⟨.threw .offsetTooLarge, 0, memory, [], []⟩
  else loopTest size ⟨.running, 0, memory, [], []⟩

/-- The arguments of the next call. -/
def nextCall (s : State) : Call :=
  ⟨s.done.toNat, (size - s.done).toNat, (offset + s.done).toInt64.toInt⟩

/-- The bytes of a call, one after the other. -/
def Call.bytes (c : Call) (n : Nat) : List (Nat × Int) :=
  (List.range n).map fun j => (c.start + j, c.offset + j)

/-- One turn of the loop; no call transfers more than it is asked to. -/
def step (s : State) (r : Result) : Option State :=
  if s.outcome = .running then
    let c := nextCall size offset s
    let s := { s with calls := s.calls ++ [c] }
    match r with
    | .error errno =>
      if errno = EINTR then some (loopTest size s) else some { s with outcome := .threw (.errno errno) }
    | .count n =>
      if c.count < n then none
      else if n = 0 then some { s with outcome := .threw (.short sys.short) }
      else
        some (loopTest size { s with
          done := s.done + UInt64.ofNat n, memory := sys.move c n s.memory, moved := s.moved ++ c.bytes n })
  else none

def transferExact : Machine State Result := ⟨init size offset memory, step sys size offset⟩

end Loop

def pread : Syscall where
  move c n m := { m with
    buffer := fun i => if c.start ≤ i ∧ i < c.start + n then m.file (c.offset + (i - c.start)) else m.buffer i }
  short := "short read"

def pwrite : Syscall where
  move c n m := { m with
    file := fun o => if c.offset ≤ o ∧ o < c.offset + n then m.buffer (c.start + (o - c.offset).toNat) else m.file o }
  short := "short write"

def preadExact := transferExact pread
def pwriteExact := transferExact pwrite

/-! ## What is to be shown -/

/-- The bytes that a call has transferred. -/
def Result.amount : Result → Nat
  | .count n => n
  | .error _ => 0

/-- The sum of the counts. -/
def total (rs : List Result) : Nat := (rs.map Result.amount).sum

/-- No bytes, or an error other than EINTR. -/
def Result.Fails (r : Result) : Prop := r = .count 0 ∨ ∃ errno ≠ EINTR, r = .error errno

/-- A call for the whole buffer. -/
def wholeCall (size offset : UInt64) : Call := ⟨0, size.toNat, offset.toNat⟩

/-- What holds after the results `rs`. -/
structure Exact (sys : Syscall) (size offset : UInt64) (memory : Memory) (rs : List Result)
    (s : State) : Prop where
  returned : s.outcome = .returned ↔ total rs = size.toNat
  threw : (∃ e, s.outcome = .threw e) ↔ ∃ r ∈ rs, r.Fails
  /-- Each byte once, and in order. -/
  moved : s.moved = (wholeCall size offset).bytes (total rs)
  /-- As if it had been one call. -/
  memory : s.memory = sys.move (wholeCall size offset) (total rs) memory
  /-- No call is for nothing, or beyond the buffer. -/
  calls : ∀ c ∈ s.calls, 0 < c.count ∧ c.start + c.count = size.toNat ∧
    c.offset = offset.toNat + c.start
  /-- The next call goes on behind the bytes transferred, and any result of it is handled. -/
  running : s.outcome = .running →
    nextCall size offset s = ⟨total rs, size.toNat - total rs, offset.toNat + total rs⟩ ∧
    ∀ r, r.amount ≤ size.toNat - total rs → ∃ s', step sys size offset s r = some s'

/-- Two calls, of which the second goes on behind the first, do what one does. -/
structure Syscall.Additive (sys : Syscall) : Prop where
  zero : ∀ c m, sys.move c 0 m = m
  add : ∀ (c d : Call) (k n : Nat) (m : Memory), d.start = c.start + k → d.offset = c.offset + k →
    sys.move d n (sys.move c k m) = sys.move c (k + n) m

/-- The invariant. -/
structure Inv (sys : Syscall) (size offset : UInt64) (memory : Memory) (rs : List Result)
    (s : State) : Prop where
  done : s.done.toNat = total rs
  outcome : if s.outcome = .returned then total rs = size.toNat else total rs < size.toNat
  threw : (∃ e, s.outcome = .threw e) ↔ ∃ r ∈ rs, r.Fails
  moved : s.moved = (wholeCall size offset).bytes (total rs)
  memory : s.memory = sys.move (wholeCall size offset) (total rs) memory
  calls : ∀ c ∈ s.calls, 0 < c.count ∧ c.start + c.count = size.toNat ∧
    c.offset = offset.toNat + c.start

section Proofs

variable {sys : Syscall} {size offset : UInt64} {memory : Memory} {s s' : State} {r : Result}
  {rs : List Result}

theorem total_concat (rs : List Result) (r : Result) : total (rs ++ [r]) = total rs + r.amount := by
  simp [total]

theorem Call.bytes_add (c : Call) (k n : Nat) :
    c.bytes (k + n) = c.bytes k ++ Call.bytes ⟨c.start + k, c.count - k, c.offset + k⟩ n := by
  simp only [Call.bytes, List.range_add, List.map_append, List.map_map]
  congr 1
  apply List.map_congr_left
  intro j _
  simp only [Function.comp, Nat.cast_add, Nat.add_assoc, Int.add_assoc]

theorem pread_additive : pread.Additive where
  zero c m := by
    have hnone : ∀ i, ¬(c.start ≤ i ∧ i < c.start + 0) := fun i h => by omega
    simp only [pread, if_neg (hnone _)]
  add c d k n m hstart hoffset := by
    simp only [pread, Memory.mk.injEq, and_true]
    funext i
    rw [hstart, hoffset]
    by_cases hd : c.start + k ≤ i ∧ i < c.start + k + n
    · have hoff : c.offset + k + ((i : Int) - ((c.start + k : Nat) : Int)) = c.offset + (i - c.start) := by
        omega
      rw [if_pos hd, if_pos (by omega), hoff]
    · rw [if_neg hd]
      by_cases hc : c.start ≤ i ∧ i < c.start + k
      · rw [if_pos hc, if_pos (by omega)]
      · rw [if_neg hc, if_neg (by omega)]

theorem pwrite_additive : pwrite.Additive where
  zero c m := by
    have hnone : ∀ o, ¬(c.offset ≤ o ∧ o < c.offset + (0 : Nat)) := fun o h => by omega
    simp only [pwrite, if_neg (hnone _)]
  add c d k n m hstart hoffset := by
    simp only [pwrite, Memory.mk.injEq, true_and]
    funext o
    rw [hstart, hoffset]
    by_cases hd : c.offset + k ≤ o ∧ o < c.offset + k + n
    · have hpos : c.start + k + (o - (c.offset + k)).toNat = c.start + (o - c.offset).toNat := by
        omega
      rw [if_pos hd, if_pos (by omega), hpos]
    · rw [if_neg hd]
      by_cases hc : c.offset ≤ o ∧ o < c.offset + k
      · rw [if_pos hc, if_pos (by omega)]
      · rw [if_neg hc, if_neg (by omega)]

/-- **No computation wraps** in the arguments of a call. -/
theorem nextCall_eq (hend : offset.toNat + size.toNat ≤ OFF_T_MAX.toNat) (hdone : s.done.toNat = total rs)
    (hle : total rs ≤ size.toNat) :
    nextCall size offset s = ⟨total rs, size.toNat - total rs, offset.toNat + total rs⟩ := by
  have hmax : OFF_T_MAX.toNat < 2 ^ 63 := by decide
  have hcount : (size - s.done).toNat = size.toNat - total rs := by
    rw [UInt64.toNat_sub_of_le _ _ (UInt64.le_iff_toNat_le.2 (hdone ▸ hle)), hdone]
  have hsum : (offset + s.done).toNat = offset.toNat + total rs := by
    rw [UInt64.toNat_add, hdone, Nat.mod_eq_of_lt (by omega)]
  have hint : (offset + s.done).toInt64.toInt = ((offset.toNat + total rs : Nat) : Int) := by
    rw [← hsum, ← Int64.toInt_ofNat_of_lt (n := (offset + s.done).toNat) (by omega),
      ← UInt64.toInt64_ofNat', UInt64.ofNat_toNat]
  rw [nextCall, hcount, hint, hdone]
  rfl

/-- The end of a turn that has not thrown. -/
theorem loopTest_inv (hdone : s.done.toNat = total rs) (hle : total rs ≤ size.toNat)
    (hfails : ∀ r ∈ rs, ¬r.Fails) (hmoved : s.moved = (wholeCall size offset).bytes (total rs))
    (hmemory : s.memory = sys.move (wholeCall size offset) (total rs) memory)
    (hcalls : ∀ c ∈ s.calls, 0 < c.count ∧ c.start + c.count = size.toNat ∧
      c.offset = offset.toNat + c.start) :
    Inv sys size offset memory rs (loopTest size s) := by
  have hlt : s.done < size ↔ total rs < size.toNat := by
    rw [UInt64.lt_iff_toNat_lt, hdone]
  have hnone : ¬∃ r ∈ rs, r.Fails := fun ⟨r, hr, hf⟩ => hfails r hr hf
  refine ⟨hdone, ?_, ?_, hmoved, hmemory, hcalls⟩
  · unfold loopTest
    by_cases hmore : s.done < size
    · simp only [if_pos hmore]
      exact hlt.1 hmore
    · simp only [if_neg hmore]
      exact Nat.le_antisymm hle (Nat.not_lt.1 (mt hlt.2 hmore))
  · refine iff_of_false (fun ⟨e, he⟩ => ?_) hnone
    unfold loopTest at he
    dsimp only at he
    split at he
    · cases he
    · cases he

theorem init_inv (hsys : sys.Additive) (hend : offset.toNat + size.toNat ≤ OFF_T_MAX.toNat) :
    Inv sys size offset memory [] (init size offset memory) := by
  have hguard : ¬OFF_T_MAX < offset := by
    rw [UInt64.not_lt, UInt64.le_iff_toNat_le]
    exact (Nat.le_add_right _ _).trans hend
  rw [init, if_neg hguard]
  exact loopTest_inv rfl (Nat.zero_le _) (by simp) rfl (hsys.zero _ _).symm (by simp)

/-- The turn that throws. -/
theorem threw_inv (h : Inv sys size offset memory rs s) (hmore : total rs < size.toNat)
    (hfails : r.Fails) (e : Thrown) {calls : List Call}
    (hcalls : ∀ c ∈ calls, 0 < c.count ∧ c.start + c.count = size.toNat ∧
      c.offset = offset.toNat + c.start) :
    Inv sys size offset memory (rs ++ [r]) { s with calls := calls, outcome := .threw e } := by
  have htotal : total (rs ++ [r]) = total rs := by
    rw [total_concat]
    rcases hfails with rfl | ⟨errno, -, rfl⟩
    · rfl
    · rfl
  refine ⟨h.done.trans htotal.symm, ?_, iff_of_true ⟨e, rfl⟩ ⟨r, by simp, hfails⟩, ?_, ?_, hcalls⟩
  · rw [if_neg (by simp), htotal]
    exact hmore
  · rw [htotal]
    exact h.moved
  · rw [htotal]
    exact h.memory

/-- What is known before a call. -/
theorem Inv.running (h : Inv sys size offset memory rs s) (hrunning : s.outcome = .running) :
    total rs < size.toNat ∧ ∀ x ∈ rs, ¬x.Fails := by
  have hmore := h.outcome
  rw [if_neg (by rw [hrunning]; decide)] at hmore
  refine ⟨hmore, fun x hx hf => ?_⟩
  obtain ⟨e, he⟩ := h.threw.2 ⟨x, hx, hf⟩
  rw [hrunning] at he
  cases he

/-- The next call is for what is left of the buffer. -/
theorem Inv.calls_concat (h : Inv sys size offset memory rs s)
    (hend : offset.toNat + size.toNat ≤ OFF_T_MAX.toNat) (hrunning : s.outcome = .running) :
    ∀ c ∈ s.calls ++ [nextCall size offset s], 0 < c.count ∧ c.start + c.count = size.toNat ∧
      c.offset = offset.toNat + c.start := by
  obtain ⟨hmore, -⟩ := h.running hrunning
  intro c hc
  rcases List.mem_append.1 hc with hc | hc
  · exact h.calls c hc
  · rw [List.mem_singleton.1 hc, nextCall_eq hend h.done hmore.le]
    exact ⟨Nat.sub_pos_of_lt hmore, Nat.add_sub_cancel' hmore.le, rfl⟩

theorem not_fails_concat (hbefore : ∀ x ∈ rs, ¬x.Fails) (hr : ¬r.Fails) :
    ∀ x ∈ rs ++ [r], ¬x.Fails := by
  intro x hx
  rcases List.mem_append.1 hx with hx | hx
  · exact hbefore x hx
  · exact List.mem_singleton.1 hx ▸ hr

/-- **A call that is interrupted** is made again. -/
theorem eintr_inv (hend : offset.toNat + size.toNat ≤ OFF_T_MAX.toNat)
    (h : Inv sys size offset memory rs s) (hrunning : s.outcome = .running) :
    Inv sys size offset memory (rs ++ [.error EINTR])
      (loopTest size { s with calls := s.calls ++ [nextCall size offset s] }) := by
  obtain ⟨hmore, hbefore⟩ := h.running hrunning
  have htotal : total (rs ++ [.error EINTR]) = total rs := total_concat rs _
  have hnot : ¬(Result.error EINTR).Fails := by simp [Result.Fails]
  apply loopTest_inv _ _ (not_fails_concat hbefore hnot) _ _ (h.calls_concat hend hrunning)
  · exact h.done.trans htotal.symm
  · exact htotal.symm ▸ hmore.le
  · rw [htotal]
    exact h.moved
  · rw [htotal]
    exact h.memory

/-- **A call that transfers some bytes.** -/
theorem count_inv (hsys : sys.Additive) (hend : offset.toNat + size.toNat ≤ OFF_T_MAX.toNat)
    (h : Inv sys size offset memory rs s) (hrunning : s.outcome = .running) {n : Nat}
    (hasked : n ≤ (nextCall size offset s).count) (hpos : n ≠ 0) :
    Inv sys size offset memory (rs ++ [.count n]) (loopTest size { s with
      done := s.done + UInt64.ofNat n
      memory := sys.move (nextCall size offset s) n s.memory
      calls := s.calls ++ [nextCall size offset s]
      moved := s.moved ++ (nextCall size offset s).bytes n }) := by
  obtain ⟨hmore, hbefore⟩ := h.running hrunning
  have hnext := nextCall_eq hend h.done hmore.le
  have htotal : total (rs ++ [.count n]) = total rs + n := total_concat rs _
  have hn : n ≤ size.toNat - total rs := by
    rw [hnext] at hasked
    exact hasked
  have hnot : ¬(Result.count n).Fails := by simp [Result.Fails, hpos]
  have hsize := size.toNat_lt
  apply loopTest_inv _ _ (not_fails_concat hbefore hnot) _ _ (h.calls_concat hend hrunning)
  · have hlt : n < 2 ^ 64 := by omega
    have hfits : (UInt64.ofNat n).toNat = n := UInt64.toNat_ofNat_of_lt' hlt
    show (s.done + UInt64.ofNat n).toNat = _
    rw [UInt64.toNat_add, hfits, h.done, htotal, Nat.mod_eq_of_lt (by omega)]
  · rw [htotal]
    omega
  · show s.moved ++ (nextCall size offset s).bytes n = _
    rw [htotal, Call.bytes_add, h.moved, hnext]
    simp [wholeCall]
  · show sys.move (nextCall size offset s) n s.memory = _
    rw [htotal, h.memory, hnext]
    apply hsys.add
    · simp [wholeCall]
    · rfl

/-- **One call.** -/
theorem Inv.step (hsys : sys.Additive) (hend : offset.toNat + size.toNat ≤ OFF_T_MAX.toNat)
    (h : Inv sys size offset memory rs s) (hs : ExactTransfer.step sys size offset s r = some s') :
    Inv sys size offset memory (rs ++ [r]) s' := by
  unfold ExactTransfer.step at hs
  split at hs
  · rename_i hrunning
    obtain ⟨hmore, -⟩ := h.running hrunning
    have hcalls := h.calls_concat hend hrunning
    cases r with
    | error errno =>
      by_cases heintr : errno = EINTR
      · simp only [if_pos heintr, Option.some.injEq] at hs
        subst hs heintr
        exact eintr_inv hend h hrunning
      · simp only [if_neg heintr, Option.some.injEq] at hs
        subst hs
        exact threw_inv h hmore (Or.inr ⟨errno, heintr, rfl⟩) _ hcalls
    | count n =>
      dsimp only at hs
      split at hs
      · cases hs
      · rename_i hasked
        split at hs
        · rename_i hzero
          cases hs
          exact threw_inv h hmore (Or.inl (by rw [hzero])) _ hcalls
        · rename_i hpos
          cases hs
          exact count_inv hsys hend h hrunning (Nat.not_lt.1 hasked) hpos
  · cases hs

theorem Inv.of_run (hsys : sys.Additive) (hend : offset.toNat + size.toNat ≤ OFF_T_MAX.toNat)
    (h : (transferExact sys size offset memory).run rs = some s) :
    Inv sys size offset memory rs s :=
  Machine.run_inv_hist (M := transferExact sys size offset memory) (init_inv hsys hend)
    (fun _ _ _ _ hI hs => hI.step hsys hend hs) h

/-- **What the loop has done** after any results. -/
theorem transferExact_spec (hsys : sys.Additive) (hend : offset.toNat + size.toNat ≤ OFF_T_MAX.toNat)
    (h : (transferExact sys size offset memory).run rs = some s) :
    Exact sys size offset memory rs s := by
  have hinv := Inv.of_run hsys hend h
  have houtcome := hinv.outcome
  refine ⟨?_, hinv.threw, hinv.moved, hinv.memory, hinv.calls, fun hrunning => ?_⟩
  · split at houtcome
    · rename_i hreturned
      exact iff_of_true hreturned houtcome
    · rename_i hnot
      exact iff_of_false hnot (Nat.ne_of_lt houtcome)
  · have hnext := nextCall_eq hend hinv.done (hinv.running hrunning).1.le
    refine ⟨hnext, fun r hr => ?_⟩
    unfold ExactTransfer.step
    rw [if_pos hrunning]
    cases r with
    | error errno =>
      dsimp only
      split
      · exact ⟨_, rfl⟩
      · exact ⟨_, rfl⟩
    | count n =>
      dsimp only
      rw [if_neg (by rw [hnext]; exact Nat.not_lt.2 hr)]
      split
      · exact ⟨_, rfl⟩
      · exact ⟨_, rfl⟩

/-- **Exactly the bytes that are asked for**: `pread_exact` and `pwrite_exact` after any sequence of
results. -/
theorem exactTransfer_spec (size offset : UInt64) (memory : Memory)
    (hend : offset.toNat + size.toNat ≤ OFF_T_MAX.toNat) (rs : List Result) :
    (∀ s, (preadExact size offset memory).run rs = some s →
      Exact pread size offset memory rs s) ∧
    ∀ s, (pwriteExact size offset memory).run rs = some s →
      Exact pwrite size offset memory rs s :=
  ⟨fun _ h => transferExact_spec pread_additive hend h,
    fun _ h => transferExact_spec pwrite_additive hend h⟩

/-- An empty buffer, and a file whose bytes count up. -/
def counting : Memory := ⟨fun _ => 0, fun o => UInt8.ofNat o.toNat⟩

/-- Twelve bytes in two pieces, with a signal between them. -/
def pieces : List Result := [.count 5, .error EINTR, .count 7]

theorem exactTransfer_pieces : ∃ s, (preadExact 12 0x40 counting).run pieces = some s ∧
    s.outcome = .returned ∧ s.memory.buffer 11 = 0x4b ∧
    Exact pread 12 0x40 counting pieces s := by
  obtain ⟨s, hs, hreturned, hbyte⟩ : ∃ s, (preadExact 12 0x40 counting).run pieces = some s ∧
      s.outcome = .returned ∧ s.memory.buffer 11 = 0x4b := ⟨_, rfl, rfl, rfl⟩
  exact ⟨s, hs, hreturned, hbyte, (exactTransfer_spec 12 0x40 counting (by decide) pieces).1 s hs⟩

end Proofs

end AdvCpp.Vfio.ExactTransfer
