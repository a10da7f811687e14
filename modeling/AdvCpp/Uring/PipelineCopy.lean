import AdvCpp.Lib.ChunkedCopy
import AdvCpp.Lib.Machine
import Mathlib.Data.List.Zip
import Mathlib.Logic.Function.Basic

/-!
# The double-buffered pipelined copy

The pipeline loop of `05_pipeline_copy.cpp` and of `06_fixed_buffers.cpp`, which differ only in
the registered-buffer index passed along with every request (`fixed`).  The program runs from one
`ring.wait()` to the next in one step; between two steps the kernel executes the requests in
flight in any order and with any results.

* `Inv` — which requests are in flight at each wait, what the two buffers hold, and the
  destination as the function `copyOut` of the results so far.
* `pipelineCopy_iff` — a run that reports "Copied" has copied the file exactly if every read was
  full and every write was full too or left out zeros of a chunk other than the last.
-/

namespace AdvCpp.Uring.PipelineCopy

open AdvCpp.Lib

def BUF_SIZE : Nat := 64 * 1024

/-- `user_data`: `TAG_READ` or `TAG_WRITE`. -/
inductive Tag where
  | read
  | write
  deriving DecidableEq

/-- A prepared request: the buffer it uses, its length and file offset, and the registered-buffer
index of the `_fixed` variants. -/
structure Sqe where
  tag : Tag
  buf : Nat
  len : Nat
  off : Nat
  bufIndex : Option Nat
  deriving DecidableEq

/-- A submitted request; `res` is set once the kernel has executed it. -/
structure Req where
  sqe : Sqe
  res : Option Int
  deriving DecidableEq

/-- Where the program waits: `left` completions still to reap at the top of the loop, or the
final write.  `failed` is an exception, `copied` the report of success. -/
inductive Pc where
  | reap (left : Nat)
  | drain
  | copied
  | failed
  deriving DecidableEq

structure State where
  dst : List UInt8
  buf : Nat → List UInt8
  flight : List Req
  readOff : Nat
  writeOff : Nat
  cur : Nat
  readDone : Bool
  hasPendingWrite : Bool
  bytesRead : Nat
  pc : Pc

/-- `io_uring_prep_read` / `io_uring_prep_read_fixed`. -/
def prepRead (fixed : Bool) (buf chunk off : Nat) : Req :=
  ⟨⟨.read, buf, chunk, off, if fixed then some buf else none⟩, none⟩

/-- `io_uring_prep_write` / `io_uring_prep_write_fixed`. -/
def prepWrite (fixed : Bool) (buf len off : Nat) : Req :=
  ⟨⟨.write, buf, len, off, if fixed then some buf else none⟩, none⟩

section Prep

variable (fixed : Bool) (buf len off : Nat)

@[simp] theorem prepRead_tag : (prepRead fixed buf len off).sqe.tag = .read := rfl
@[simp] theorem prepRead_buf : (prepRead fixed buf len off).sqe.buf = buf := rfl
@[simp] theorem prepRead_len : (prepRead fixed buf len off).sqe.len = len := rfl
@[simp] theorem prepRead_off : (prepRead fixed buf len off).sqe.off = off := rfl

@[simp] theorem prepWrite_tag : (prepWrite fixed buf len off).sqe.tag = .write := rfl
@[simp] theorem prepWrite_buf : (prepWrite fixed buf len off).sqe.buf = buf := rfl
@[simp] theorem prepWrite_len : (prepWrite fixed buf len off).sqe.len = len := rfl
@[simp] theorem prepWrite_off : (prepWrite fixed buf len off).sqe.off = off := rfl

end Prep

/-- Top of the loop: how many completions to reap. -/
def loopTop (s : State) : State :=
  { s with bytesRead := 0, pc := .reap (1 + if s.hasPendingWrite then 1 else 0) }

/-- Up to the first wait: the first read is submitted. -/
def start (fixed : Bool) (fileSize : Nat) : State :=
  let chunk := min (fileSize - 0) BUF_SIZE
  loopTop
    { dst := [], buf := fun _ => List.replicate BUF_SIZE 0, flight := [prepRead fixed 0 chunk 0],
      readOff := chunk, writeOff := 0, cur := 0, readDone := decide (fileSize ≤ chunk),
      hasPendingWrite := false, bytesRead := 0, pc := .copied }

/-- The loop body after the completions have been reaped: queue the write of the filled buffer and
the next read into the other one, submit, and go on to the next wait. -/
def afterReap (fixed : Bool) (fileSize : Nat) (s : State) : State :=
  if s.bytesRead = 0 then { s with pc := .copied } -- EOF
  else
    let filled := s.cur
    let cur := s.cur ^^^ 1
    let write := prepWrite fixed filled s.bytesRead s.writeOff
    let moreReads := !s.readDone
    if moreReads then
      let chunk := min (fileSize - s.readOff) BUF_SIZE
      loopTop
        { s with
          cur := cur, flight := s.flight ++ [write, prepRead fixed cur chunk s.readOff],
          readOff := s.readOff + chunk, readDone := decide (fileSize ≤ s.readOff + chunk),
          writeOff := s.writeOff + s.bytesRead, hasPendingWrite := true }
    else
      { s with
        cur := cur, flight := s.flight ++ [write], writeOff := s.writeOff + s.bytesRead,
        hasPendingWrite := true, pc := .drain }

/-- The results the kernel may give: a negative error, the bytes available for a read (possibly
fewer, but not zero), or between one and all bytes of a write.  A registered-buffer index must
name the buffer that is used. -/
def KernelMay (src : List UInt8) (q : Sqe) (res : Int) : Prop :=
  res < 0 ∨
    ((q.bufIndex = none ∨ q.bufIndex = some q.buf) ∧
      match q.tag with
      | .read =>
        0 ≤ res ∧ res ≤ (min q.len (src.length - q.off) : Nat) ∧
          (res = 0 → min q.len (src.length - q.off) = 0)
      | .write => 1 ≤ res ∧ res ≤ (q.len : Nat))

instance (src : List UInt8) (q : Sqe) (res : Int) : Decidable (KernelMay src q res) := by
  unfold KernelMay; cases q.tag <;> exact inferInstance

/-- The data the kernel moves for a request that ends with `res`; nothing for an error. -/
def transfer (src : List UInt8) (q : Sqe) (res : Int) (s : State) : State :=
  match q.tag with
  | .read =>
    { s with
      buf := Function.update s.buf q.buf (pwrite 0 (s.buf q.buf) 0 (pread src q.off res.toNat)) }
  | .write => { s with dst := pwrite 0 s.dst q.off ((s.buf q.buf).take res.toNat) }

def Req.pending (t : Tag) (q : Req) : Bool := q.sqe.tag = t ∧ q.res = none

def Req.completed (t : Tag) (q : Req) : Bool := q.sqe.tag = t ∧ q.res ≠ none

def Req.finish (t : Tag) (res : Int) (q : Req) : Option Req :=
  if q.pending t then some { q with res := some res } else none

/-- `exec`: the kernel executes the request with this tag.  `wait`: `ring.wait()` returns the
completion with this tag. -/
inductive Ev where
  | exec (t : Tag) (res : Int)
  | wait (t : Tag)
  deriving DecidableEq

/-- The program takes a completion: `cqe->res` is checked, then the loop goes on. -/
def reap (fixed : Bool) (fileSize : Nat) (s : State) (t : Tag) (res : Int) : Option State :=
  match s.pc with
  | .reap (left + 1) =>
    if res < 0 then some { s with pc := .failed }
    else
      let s := match t with
        | .read => { s with bytesRead := res.toNat }
        | .write => s
      if left = 0 then some (afterReap fixed fileSize s) else some { s with pc := .reap left }
  | .drain => if res < 0 then some { s with pc := .failed } else some { s with pc := .copied }
  | _ => none

def step (fixed : Bool) (src : List UInt8) (s : State) : Ev → Option State
  | .exec t res =>
    match s.flight.find? (·.pending t) with
    | some q =>
      if KernelMay src q.sqe res then
        some (transfer src q.sqe res { s with flight := s.flight.replaceF (·.finish t res) })
      else none
    | none => none
  | .wait t =>
    match s.flight.find? (·.completed t) with
    | some ⟨_, some res⟩ =>
      reap fixed src.length { s with flight := s.flight.eraseP (·.completed t) } t res
    | _ => none

/-- `main` on a source with content `src`, from the first submitted read on. -/
def machine (fixed : Bool) (src : List UInt8) : Machine State Ev :=
  ⟨start fixed src.length, step fixed src⟩

/-- `05_pipeline_copy`. -/
def pipelineCopy : List UInt8 → Machine State Ev := machine false

/-- `06_fixed_buffers`. -/
def fixedBuffers : List UInt8 → Machine State Ev := machine true

/-! ## What the kernel's results amount to -/

/-- Results of the reads, in order. -/
def readResults (es : List Ev) : List Int :=
  es.filterMap fun
    | .exec .read res => some res
    | _ => none

/-- Results of the writes, in order. -/
def writeResults (es : List Ev) : List Int :=
  es.filterMap fun
    | .exec .write res => some res
    | _ => none

@[simp] theorem readResults_snoc (es : List Ev) (e : Ev) :
    readResults (es ++ [e]) = readResults es ++ readResults [e] := by
  simp [readResults]

@[simp] theorem writeResults_snoc (es : List Ev) (e : Ev) :
    writeResults (es ++ [e]) = writeResults es ++ writeResults [e] := by
  simp [writeResults]

@[simp] theorem readResults_read (res : Int) : readResults [.exec .read res] = [res] := rfl
@[simp] theorem readResults_write (res : Int) : readResults [.exec .write res] = [] := rfl
@[simp] theorem writeResults_read (res : Int) : writeResults [.exec .read res] = [] := rfl
@[simp] theorem writeResults_write (res : Int) : writeResults [.exec .write res] = [res] := rfl

/-- Every read returned the whole chunk. -/
def FullReads (n : Nat) (rs : List Int) : Prop :=
  ∀ (i : Nat) (r : Int), rs[i]? = some r → r = chunkLen BUF_SIZE n i

/-- Every write wrote the whole chunk, or left out zeros of a chunk that is not the last. -/
def ZeroTails (src : List UInt8) (ws : List Int) : Prop :=
  ∀ (i : Nat) (w : Int), ws[i]? = some w → w = chunkLen BUF_SIZE src.length i ∨
    ((i + 1) * BUF_SIZE < src.length ∧ TailPadded 0 BUF_SIZE src i w)

/-! ## The requests in flight at a wait -/

section Flight

variable {rd wr : Option Req}

/-- Every request of the slot carries the tag. -/
def Tagged (t : Tag) (o : Option Req) : Prop := ∀ q, o = some q → q.sqe.tag = t

theorem find_pending {t : Tag} {q : Req} (hw : Tagged .write wr) (hr : Tagged .read rd)
    (h : (wr.toList ++ rd.toList).find? (·.pending t) = some q) :
    q.sqe.tag = t ∧ q.res = none ∧ match t with
      | .read => rd = some q
      | .write => wr = some q := by
  have hp := List.find?_some h
  have hm := List.mem_of_find?_eq_some h
  simp only [Req.pending, decide_eq_true_eq] at hp
  refine ⟨hp.1, hp.2, ?_⟩
  rcases List.mem_append.1 hm with hm | hm <;> simp at hm
  · have := hw q hm
    rw [hp.1] at this
    subst this
    exact hm
  · have := hr q hm
    rw [hp.1] at this
    subst this
    exact hm

theorem find_completed {t : Tag} {q : Req} (hw : Tagged .write wr) (hr : Tagged .read rd)
    (h : (wr.toList ++ rd.toList).find? (·.completed t) = some q) :
    q.sqe.tag = t ∧ match t with
      | .read => rd = some q
      | .write => wr = some q := by
  have hp := List.find?_some h
  have hm := List.mem_of_find?_eq_some h
  simp only [Req.completed, decide_eq_true_eq] at hp
  refine ⟨hp.1, ?_⟩
  rcases List.mem_append.1 hm with hm | hm <;> simp at hm
  · have := hw q hm
    rw [hp.1] at this
    subst this
    exact hm
  · have := hr q hm
    rw [hp.1] at this
    subst this
    exact hm

theorem replace_read {q : Req} {res : Int} (hw : Tagged .write wr) (hq : q.sqe.tag = .read)
    (hn : q.res = none) :
    (wr.toList ++ (some q).toList).replaceF (·.finish .read res) =
      wr.toList ++ (some { q with res := some res }).toList := by
  cases wr with
  | none => simp [List.replaceF, Req.finish, Req.pending, hq, hn]
  | some p => simp [List.replaceF, Req.finish, Req.pending, hq, hn, hw p rfl]

theorem replace_write {q : Req} {res : Int} (hq : q.sqe.tag = .write) (hn : q.res = none) :
    ((some q).toList ++ rd.toList).replaceF (·.finish .write res) =
      (some { q with res := some res }).toList ++ rd.toList := by
  simp [List.replaceF, Req.finish, Req.pending, hq, hn]

theorem erase_read {q : Req} (hw : Tagged .write wr) (hq : q.sqe.tag = .read) (hn : q.res ≠ none) :
    (wr.toList ++ (some q).toList).eraseP (·.completed .read) = wr.toList ++ (none : Option Req).toList := by
  cases wr with
  | none => simp [Req.completed, hq, hn]
  | some p => simp [Req.completed, hq, hn, hw p rfl]

theorem erase_write {q : Req} (hq : q.sqe.tag = .write) (hn : q.res ≠ none) :
    ((some q).toList ++ rd.toList).eraseP (·.completed .write) =
      (none : Option Req).toList ++ rd.toList := by
  simp [Req.completed, hq, hn]

end Flight

/-! ## Invariant -/

section Invariant

variable {fixed : Bool} {src : List UInt8} {rs ws : List Int} {s s' : State} {k : Nat}
  {rd wr : Option Req}

/-- Destination offset of the `k`-th write. -/
def offAt (rs : List Int) (k : Nat) : Nat := ((rs.take k).map Int.toNat).sum

/-- The `k`-th read: in flight, or reaped with its result in `bytesRead`. -/
def ReadSlot (fixed : Bool) (src : List UInt8) (rs : List Int) (buf : Nat → List UInt8)
    (bytesRead k : Nat) : Option Req → Prop
  | none => ∃ r, rs.length = k + 1 ∧ rs[k]? = some r ∧ 0 ≤ r ∧ bytesRead = r.toNat ∧
      pread src (k * BUF_SIZE) r.toNat <+: buf (k % 2)
  | some q =>
    q.sqe = (prepRead fixed (k % 2) (chunkLen BUF_SIZE src.length k) (k * BUF_SIZE)).sqe ∧
    match q.res with
    | none => rs.length = k
    | some r => rs.length = k + 1 ∧ rs[k]? = some r ∧
        pread src (k * BUF_SIZE) r.toNat <+: buf (k % 2)

/-- The write of what the read before the `k`-th one returned: in flight, or all writes reaped. -/
def WriteSlot (fixed : Bool) (src : List UInt8) (rs ws : List Int) (buf : Nat → List UInt8)
    (k : Nat) : Option Req → Prop
  | none => ws.length = k ∧ ∀ w ∈ ws, 0 < w
  | some q => ∃ j r, k = j + 1 ∧ rs[j]? = some r ∧
    q.sqe = (prepWrite fixed (j % 2) r.toNat (offAt rs j)).sqe ∧
    match q.res with
    | none => ws.length = j ∧ (∀ w ∈ ws, 0 < w) ∧
        pread src (j * BUF_SIZE) r.toNat <+: buf (j % 2)
    | some w => ∃ ws', ws = ws' ++ [w] ∧ ws'.length = j ∧ ∀ w ∈ ws', 0 < w

/-- After `k` writes have been queued. -/
structure Common (fixed : Bool) (src : List UInt8) (rs ws : List Int) (s : State) (k : Nat)
    (wr : Option Req) : Prop where
  cur : s.cur = k % 2
  reads : ∀ (i : Nat) (r : Int), rs[i]? = some r →
    r ≤ chunkLen BUF_SIZE src.length i ∧ (r = 0 → chunkLen BUF_SIZE src.length i = 0)
  writes : ∀ (i : Nat) (w : Int), ws[i]? = some w → w < 0 ∨ (0 < w ∧ ∃ r, rs[i]? = some r ∧ w ≤ r)
  len : k ≤ rs.length
  pos : ∀ (i : Nat) (r : Int), i < k → rs[i]? = some r → 0 < r
  writeOff : s.writeOff = offAt rs k
  dst : s.dst = (copyOut 0 BUF_SIZE src (rs.zip ws)).dst
  write : WriteSlot fixed src rs ws s.buf k wr

/-- Waiting at the top of the loop, with the `k`-th read submitted. -/
structure Loop (fixed : Bool) (src : List UInt8) (rs ws : List Int) (s : State) (left k : Nat)
    (rd wr : Option Req) : Prop extends Common fixed src rs ws s k wr where
  flight : s.flight = wr.toList ++ rd.toList
  left_eq : left = s.flight.length
  started : k = 0 ∨ k * BUF_SIZE < src.length
  readOff : s.readOff = min ((k + 1) * BUF_SIZE) src.length
  readDone : s.readDone = decide (src.length ≤ s.readOff)
  pendingWrite : s.hasPendingWrite = decide (0 < k)
  read : ReadSlot fixed src rs s.buf s.bytesRead k rd

/-- Waiting for the `j`-th write, which is the last. -/
structure Drain (fixed : Bool) (src : List UInt8) (rs ws : List Int) (s : State) (j : Nat)
    (q : Req) : Prop extends Common fixed src rs ws s (j + 1) (some q) where
  flight : s.flight = (some q).toList ++ (none : Option Req).toList
  len_eq : rs.length = j + 1
  last : j * BUF_SIZE < src.length
  all : src.length ≤ (j + 1) * BUF_SIZE

/-- Success has been reported. -/
def Copied (src : List UInt8) (rs ws : List Int) (dst : List UInt8) : Prop :=
  (src = [] ∧ dst = [] ∧ rs = [0] ∧ ws = []) ∨
    ∃ j, rs.length = j + 1 ∧ ws.length = j + 1 ∧ j * BUF_SIZE < src.length ∧
      src.length ≤ (j + 1) * BUF_SIZE ∧ Bounded BUF_SIZE src.length (rs.zip ws) ∧
      dst = (copyOut 0 BUF_SIZE src (rs.zip ws)).dst

/-- **The invariant of the pipeline.** -/
def Inv (fixed : Bool) (src : List UInt8) (rs ws : List Int) (s : State) : Prop :=
  match s.pc with
  | .reap left => ∃ k rd wr, Loop fixed src rs ws s left k rd wr
  | .drain => ∃ j q, Drain fixed src rs ws s j q
  | .copied => s.flight = [] ∧ Copied src rs ws s.dst
  | .failed => True

theorem offAt_append {x : Int} (h : k ≤ rs.length) : offAt (rs ++ [x]) k = offAt rs k := by
  rw [offAt, List.take_append_of_le_length h, offAt]

theorem offAt_succ {r : Int} (h : rs[k]? = some r) : offAt rs (k + 1) = offAt rs k + r.toNat := by
  simp [offAt, List.take_add_one, h]

theorem copyOut_off_zip (h : ws.length ≤ rs.length) :
    (copyOut 0 BUF_SIZE src (rs.zip ws)).off = offAt rs ws.length := by
  have hz : rs.zip ws = (rs.take ws.length).zip ws := by
    rw [List.zip_eq_zip_take_min, Nat.min_eq_right h, List.take_length]
  have hm : ((rs.take ws.length).zip ws).map (fun p => p.1.toNat) =
      (((rs.take ws.length).zip ws).map Prod.fst).map Int.toNat := by simp
  rw [copyOut_off, hz, hm, List.map_fst_zip (by simp [h]), offAt]

theorem zip_snoc_right {r w : Int} : ∀ {rs ws : List Int}, rs[ws.length]? = some r →
    rs.zip (ws ++ [w]) = rs.zip ws ++ [(r, w)]
  | [], _, h => by simp at h
  | _ :: _, [], h => by simp at h; simp [h]
  | _ :: _, _ :: _, h => by simpa using zip_snoc_right (by simpa using h)

theorem zip_snoc_left {x : Int} : ∀ {rs ws : List Int}, ws.length ≤ rs.length →
    (rs ++ [x]).zip ws = rs.zip ws
  | _, [], _ => by simp
  | [], _ :: _, h => by simp at h
  | _ :: _, _ :: _, h => by simpa using zip_snoc_left (by simpa using h)

theorem Loop.inv {left : Nat} (h : Loop fixed src rs ws s left k rd wr)
    (hpc : s.pc = .reap left) : Inv fixed src rs ws s := by
  unfold Inv
  rw [hpc]
  exact ⟨k, rd, wr, h⟩

theorem Drain.inv {j : Nat} {q : Req} (h : Drain fixed src rs ws s j q) (hpc : s.pc = .drain) :
    Inv fixed src rs ws s := by
  unfold Inv
  rw [hpc]
  exact ⟨j, q, h⟩

theorem forall_zip_fst {P : Nat → Int → Prop} (h : rs.length = ws.length) :
    (∀ (i : Nat) (p : Int × Int), (rs.zip ws)[i]? = some p → P i p.1) ↔
      ∀ (i : Nat) (r : Int), rs[i]? = some r → P i r := by
  constructor
  · intro hz i r hr
    have hi : i < ws.length := h ▸ (List.getElem?_eq_some_iff.1 hr).1
    exact hz i (r, ws[i]) (List.getElem?_zip_eq_some.2 ⟨hr, List.getElem?_eq_getElem hi⟩)
  · intro hr i p hp
    exact hr i p.1 (List.getElem?_zip_eq_some.1 hp).1

theorem forall_zip_snd {P : Nat → Int → Prop} (h : rs.length = ws.length) :
    (∀ (i : Nat) (p : Int × Int), (rs.zip ws)[i]? = some p → P i p.2) ↔
      ∀ (i : Nat) (w : Int), ws[i]? = some w → P i w := by
  constructor
  · intro hz i w hw
    have hi : i < rs.length := h ▸ (List.getElem?_eq_some_iff.1 hw).1
    exact hz i (rs[i], w) (List.getElem?_zip_eq_some.2 ⟨List.getElem?_eq_getElem hi, hw⟩)
  · intro hw i p hp
    exact hw i p.2 (List.getElem?_zip_eq_some.1 hp).2

/-! ### The kernel executes a request -/

theorem WriteSlot.snoc_read {x : Int} {buf buf' : Nat → List UInt8}
    (h : WriteSlot fixed src rs ws buf k wr) (hlen : k ≤ rs.length)
    (hbuf : ∀ i, i ≠ k % 2 → buf' i = buf i) : WriteSlot fixed src (rs ++ [x]) ws buf' k wr := by
  cases wr with
  | none => exact h
  | some q =>
    obtain ⟨j, r, rfl, hr, hsqe, hres⟩ := h
    refine ⟨j, r, rfl, ?_, ?_, ?_⟩
    · rw [List.getElem?_append_left (by omega)]; exact hr
    · rw [offAt_append (by omega)]; exact hsqe
    · revert hres
      cases q.res with
      | none =>
        rintro ⟨h1, h2, h3⟩
        exact ⟨h1, h2, by rw [hbuf _ (by omega)]; exact h3⟩
      | some w => exact id

theorem WriteSlot.length_le {buf : Nat → List UInt8} (h : WriteSlot fixed src rs ws buf k wr) :
    ws.length ≤ k := by
  cases wr with
  | none => exact Nat.le_of_eq h.1
  | some q =>
    obtain ⟨j, r, rfl, -, -, hres⟩ := h
    revert hres
    cases q.res with
    | none => rintro ⟨h1, -⟩; omega
    | some w => rintro ⟨ws', rfl, h1, -⟩; simp; omega

theorem WriteSlot.tagged {buf : Nat → List UInt8} (h : WriteSlot fixed src rs ws buf k wr) :
    Tagged .write wr := by
  rintro q rfl
  obtain ⟨j, r, -, -, hsqe, -⟩ := h
  rw [hsqe, prepWrite_tag]

theorem ReadSlot.tagged {buf : Nat → List UInt8} {bytesRead : Nat}
    (h : ReadSlot fixed src rs buf bytesRead k rd) : Tagged .read rd := by
  rintro q rfl
  rw [h.1, prepRead_tag]

/-- The `k`-th read is executed. -/
theorem Loop.execRead {q : Req} {left : Nat} {res : Int}
    (h : Loop fixed src rs ws s left k (some q) wr) (hn : q.res = none)
    (hk : KernelMay src q.sqe res) :
    Loop fixed src (rs ++ [res]) ws
      (transfer src q.sqe res
        { s with flight := wr.toList ++ (some { q with res := some res }).toList })
      left k (some { q with res := some res }) wr := by
  obtain ⟨hsqe, hres⟩ := h.read
  rw [hn] at hres
  have hlen : rs.length = k := hres
  have htag : q.sqe.tag = .read := by rw [hsqe, prepRead_tag]
  have hbuf : q.sqe.buf = k % 2 := by rw [hsqe, prepRead_buf]
  have hqoff : q.sqe.off = k * BUF_SIZE := by rw [hsqe, prepRead_off]
  have hqlen : min q.sqe.len (src.length - q.sqe.off) = chunkLen BUF_SIZE src.length k := by
    rw [hqoff, hsqe, prepRead_len, chunkLen]; omega
  have hbound : res ≤ chunkLen BUF_SIZE src.length k ∧
      (res = 0 → chunkLen BUF_SIZE src.length k = 0) := by
    rcases hk with hk | ⟨-, hk⟩
    · exact ⟨by omega, fun h0 => by omega⟩
    · rw [htag] at hk
      simp only [hqlen] at hk
      exact hk.2
  have hwlen : ws.length ≤ rs.length := by
    have := h.write.length_le
    omega
  have hother : ∀ i, i ≠ k % 2 →
      Function.update s.buf q.sqe.buf
        (pwrite 0 (s.buf q.sqe.buf) 0 (pread src q.sqe.off res.toNat)) i = s.buf i := by
    intro i hi
    rw [hbuf, Function.update_of_ne hi]
  simp only [transfer, htag]
  refine
    { cur := h.cur, reads := ?_, writes := ?_, len := by simp; omega, pos := ?_
      writeOff := by rw [offAt_append h.len]; exact h.writeOff
      dst := by rw [zip_snoc_left hwlen]; exact h.dst
      write := h.write.snoc_read h.len hother
      flight := rfl, left_eq := by rw [h.left_eq, h.flight]; simp, started := h.started
      readOff := h.readOff, readDone := h.readDone
      pendingWrite := h.pendingWrite, read := ⟨hsqe, by simp [hlen], by simp [← hlen], ?_⟩ }
  · intro i r hi
    by_cases hlt : i < rs.length
    · rw [List.getElem?_append_left hlt] at hi
      exact h.reads i r hi
    · rw [List.getElem?_append_right (by omega)] at hi
      have hik : i = k := by
        have := (List.getElem?_eq_some_iff.1 hi).1
        simp at this; omega
      subst hik
      simp [hlen] at hi
      subst hi
      exact hbound
  · intro i w hi
    rcases h.writes i w hi with hw | ⟨hw, r, hr, hwr⟩
    · exact Or.inl hw
    · exact Or.inr ⟨hw, r, by
        rw [List.getElem?_append_left (List.getElem?_eq_some_iff.1 hr).1]; exact hr, hwr⟩
  · intro i r hi hr
    rw [List.getElem?_append_left (by omega)] at hr
    exact h.pos i r hi hr
  · show _ <+: Function.update s.buf q.sqe.buf _ (k % 2)
    rw [hbuf, Function.update_self, hqoff, pwrite_front]
    exact List.prefix_append _ _

/-- The write in flight is executed. -/
theorem Common.execWrite {q : Req} {res : Int} (h : Common fixed src rs ws s k (some q))
    (hn : q.res = none) (hk : KernelMay src q.sqe res) (hcur : s'.cur = s.cur)
    (hoff : s'.writeOff = s.writeOff)
    (hdst : s'.dst = pwrite 0 s.dst q.sqe.off ((s.buf q.sqe.buf).take res.toNat)) :
    Common fixed src rs (ws ++ [res]) s' k (some { q with res := some res }) := by
  obtain ⟨j, r, rfl, hr, hsqe, hres⟩ := h.write
  rw [hn] at hres
  obtain ⟨hlen, hpos, hpre⟩ := hres
  have htag : q.sqe.tag = .write := by rw [hsqe, prepWrite_tag]
  have hbuf' : q.sqe.buf = j % 2 := by rw [hsqe, prepWrite_buf]
  have hqoff : q.sqe.off = offAt rs j := by rw [hsqe, prepWrite_off]
  have hqlen : q.sqe.len = r.toNat := by rw [hsqe, prepWrite_len]
  have hr0 : 0 < r := h.pos j r (by omega) hr
  have hrlen : (pread src (j * BUF_SIZE) r.toNat).length = r.toNat := by
    have := (h.reads j r hr).1
    have := chunkLen_le BUF_SIZE src.length j
    rw [pread_length]; omega
  have hbound : res < 0 ∨ (0 < res ∧ res ≤ r) := by
    rcases hk with hk | ⟨-, hk⟩
    · exact Or.inl hk
    · rw [htag] at hk
      simp only [hqlen] at hk
      omega
  have hdata : (s.buf q.sqe.buf).take res.toNat =
      (pread src (j * BUF_SIZE) r.toNat).take res.toNat := by
    obtain ⟨t, ht⟩ := hpre
    rw [hbuf', ← ht, List.take_append_of_le_length (by omega)]
  refine
    { cur := by rw [hcur]; exact h.cur, reads := h.reads, writes := ?_, len := h.len, pos := h.pos
      writeOff := by rw [hoff]; exact h.writeOff, dst := ?_
      write := ⟨j, r, rfl, hr, hsqe, ws, rfl, hlen, hpos⟩ }
  · intro i w hi
    by_cases hlt : i < ws.length
    · rw [List.getElem?_append_left hlt] at hi
      exact h.writes i w hi
    · rw [List.getElem?_append_right (by omega)] at hi
      have hij : i = j := by
        have := (List.getElem?_eq_some_iff.1 hi).1
        simp at this; omega
      subst hij
      simp [hlen] at hi
      subst hi
      exact hbound.imp id fun hb => ⟨hb.1, r, hr, hb.2⟩
  · have hle : ws.length ≤ rs.length := by have := h.len; omega
    rw [zip_snoc_right (by rw [hlen]; exact hr), copyOut_snoc, hdst, h.dst, hdata, hqoff]
    simp only [writeChunk, copyOut_chunk, copyOut_off_zip hle, hlen]
    rw [List.length_zip, hlen, Nat.min_eq_right (by omega)]

/-! ### The program takes a completion -/

theorem Common.frame (h : Common fixed src rs ws s k wr) (hcur : s'.cur = s.cur)
    (hoff : s'.writeOff = s.writeOff) (hbuf : s'.buf = s.buf) (hdst : s'.dst = s.dst) :
    Common fixed src rs ws s' k wr where
  cur := by rw [hcur]; exact h.cur
  reads := h.reads
  writes := h.writes
  len := h.len
  pos := h.pos
  writeOff := by rw [hoff]; exact h.writeOff
  dst := by rw [hdst]; exact h.dst
  write := by rw [hbuf]; exact h.write

/-- A write that did not fail has been reaped. -/
theorem Common.reapWrite {q : Req} {w : Int} (h : Common fixed src rs ws s k (some q))
    (hres : q.res = some w) (hw : 0 ≤ w) : Common fixed src rs ws s k none := by
  obtain ⟨j, r, rfl, hr, hsqe, hslot⟩ := h.write
  rw [hres] at hslot
  obtain ⟨ws', rfl, hlen, hpos⟩ := hslot
  have hw' := h.writes j w (by simp [← hlen])
  refine { h with write := ⟨by simp [hlen], fun x hx => ?_⟩ }
  rcases List.mem_append.1 hx with hx | hx
  · exact hpos x hx
  · simp at hx; subst hx; omega

/-- After the last write: what `copyOut` needs to know. -/
theorem Common.copied {j : Nat} (h : Common fixed src rs ws s (j + 1) none)
    (hlen : rs.length = j + 1) (hlast : j * BUF_SIZE < src.length)
    (hall : src.length ≤ (j + 1) * BUF_SIZE) : Copied src rs ws s.dst := by
  obtain ⟨hwlen, hwpos⟩ := h.write
  refine Or.inr ⟨j, hlen, hwlen, hlast, hall, ?_, h.dst⟩
  intro i p hp
  rw [List.getElem?_zip_eq_some] at hp
  obtain ⟨hr, hw⟩ := hp
  have hmem := hwpos p.2 (List.mem_of_getElem? hw)
  rcases h.writes i p.2 hw with hneg | ⟨-, r, hr', hle⟩
  · omega
  · rw [hr] at hr'
    cases hr'
    exact ⟨hmem, hle, (h.reads i p.1 hr).1⟩

theorem swap_cur : (k % 2) ^^^ 1 = (k + 1) % 2 := by
  rcases Nat.mod_two_eq_zero_or_one k with h | h <;> rw [h] <;> simp <;> omega

/-- The first read has found the end of the file: the file is empty. -/
theorem Common.endOfFile (h : Common fixed src rs ws s k none) (hlen : rs.length = k + 1)
    (hr : rs[k]? = some 0) (hstarted : k = 0 ∨ k * BUF_SIZE < src.length) :
    Copied src rs ws s.dst := by
  obtain ⟨hwlen, -⟩ := h.write
  have hchunk : chunkLen BUF_SIZE src.length k = 0 := (h.reads k 0 hr).2 rfl
  have hend : src.length ≤ k * BUF_SIZE := (chunkLen_eq_zero (by decide)).1 hchunk
  have hk : k = 0 := hstarted.resolve_right (Nat.not_lt.2 hend)
  subst hk
  rw [Nat.zero_mul] at hend
  have hsrc : src = [] := List.eq_nil_of_length_eq_zero (Nat.le_zero.1 hend)
  have hws : ws = [] := List.eq_nil_of_length_eq_zero hwlen
  refine Or.inl ⟨hsrc, ?_, ?_, hws⟩
  · rw [h.dst, hws]
    simp [copyOut]
  · obtain ⟨x, rfl⟩ := List.length_eq_one_iff.1 hlen
    simp at hr
    rw [hr]

/-- The write of the filled buffer is queued, and the other buffer becomes the current one. -/
theorem Common.queueWrite {r : Int} (h : Common fixed src rs ws s k none)
    (hlen : rs.length = k + 1) (hr : rs[k]? = some r) (hrpos : 0 < r)
    (hbytes : s.bytesRead = r.toNat) (hpre : pread src (k * BUF_SIZE) r.toNat <+: s.buf (k % 2))
    (hcur : s'.cur = s.cur ^^^ 1) (hoff : s'.writeOff = s.writeOff + s.bytesRead)
    (hbuf : s'.buf = s.buf) (hdst : s'.dst = s.dst) :
    Common fixed src rs ws s' (k + 1) (some (prepWrite fixed s.cur s.bytesRead s.writeOff)) where
  cur := by rw [hcur, h.cur, swap_cur]
  reads := h.reads
  writes := h.writes
  len := Nat.le_of_eq hlen.symm
  pos := by
    intro i x hi hx
    rcases Nat.lt_succ_iff_lt_or_eq.1 hi with hlt | rfl
    · exact h.pos i x hlt hx
    · rw [hr] at hx
      cases hx
      exact hrpos
  writeOff := by rw [hoff, offAt_succ hr, h.writeOff, hbytes]
  dst := by rw [hdst]; exact h.dst
  write := by
    obtain ⟨hwlen, hwpos⟩ := h.write
    rw [hbuf]
    refine ⟨k, r, rfl, hr, ?_, hwlen, hwpos, hpre⟩
    rw [h.cur, hbytes, h.writeOff]

/-- All completions of the round are reaped: the loop body runs to the next wait. -/
theorem afterReap_inv (h : Common fixed src rs ws s k none) (hflight : s.flight = [])
    (hstarted : k = 0 ∨ k * BUF_SIZE < src.length)
    (hreadOff : s.readOff = min ((k + 1) * BUF_SIZE) src.length)
    (hreadDone : s.readDone = decide (src.length ≤ s.readOff))
    (hread : ReadSlot fixed src rs s.buf s.bytesRead k none) :
    Inv fixed src rs ws (afterReap fixed src.length s) := by
  obtain ⟨r, hlen, hr, hr0, hbytes, hpre⟩ := hread
  unfold afterReap
  split
  · rename_i hzero
    obtain rfl : r = 0 := by omega
    exact ⟨hflight, h.endOfFile hlen hr hstarted⟩
  · rename_i hzero
    have hrpos : 0 < r := by omega
    have hcur : s.cur ^^^ 1 = (k + 1) % 2 := by rw [h.cur, swap_cur]
    simp only
    split
    · -- the next read is queued behind the write
      rename_i hmore
      have hlt : (k + 1) * BUF_SIZE < src.length := by
        simp only [hreadDone, Bool.not_eq_eq_eq_not, Bool.not_true, decide_eq_false_iff_not] at hmore
        omega
      have hro : s.readOff = (k + 1) * BUF_SIZE := by omega
      have hchunk : min (src.length - (k + 1) * BUF_SIZE) BUF_SIZE =
          chunkLen BUF_SIZE src.length (k + 1) := Nat.min_comm _ _
      refine ⟨k + 1, some (prepRead fixed ((k + 1) % 2) (chunkLen BUF_SIZE src.length (k + 1))
        ((k + 1) * BUF_SIZE)), some (prepWrite fixed s.cur s.bytesRead s.writeOff), ?_⟩
      simp only [loopTop, hcur, hro, hchunk]
      refine
        { toCommon := h.queueWrite hlen hr hrpos hbytes hpre hcur.symm rfl rfl rfl
          flight := ?_, left_eq := ?_, started := Or.inr hlt, readOff := ?_, readDone := rfl
          pendingWrite := by simp, read := ⟨rfl, hlen⟩ }
      · simp [hflight]
      · simp [hflight]
      · exact chunkLen_end (Nat.le_of_lt hlt)
    · -- no more reads: wait for the final write
      rename_i hmore
      have hall : src.length ≤ (k + 1) * BUF_SIZE := by
        simp only [hreadDone, Bool.not_eq_eq_eq_not, Bool.not_true, decide_eq_false_iff_not,
          Classical.not_not] at hmore
        omega
      have hlast : k * BUF_SIZE < src.length := by
        have hle := (h.reads k r hr).1
        have hsome : chunkLen BUF_SIZE src.length k ≠ 0 := by omega
        exact Nat.not_le.1 (mt (chunkLen_eq_zero (by decide)).2 hsome)
      exact ⟨k, prepWrite fixed s.cur s.bytesRead s.writeOff,
        { toCommon := h.queueWrite hlen hr hrpos hbytes hpre rfl rfl rfl rfl
          flight := by simp [hflight], len_eq := hlen, last := hlast, all := hall }⟩

theorem Loop.reapRead {q : Req} {left : Nat} {res : Int}
    (h : Loop fixed src rs ws s (left + 1) k (some q) wr) (hres : q.res = some res)
    (h0 : 0 ≤ res) :
    Loop fixed src rs ws { s with flight := wr.toList, bytesRead := res.toNat } left k none wr := by
  obtain ⟨-, hslot⟩ := h.read
  rw [hres] at hslot
  obtain ⟨hlen, hr, hpre⟩ := hslot
  have hleft := h.left_eq
  rw [h.flight, List.length_append] at hleft
  exact
    { h.toCommon.frame rfl rfl rfl rfl with
      flight := by simp, left_eq := by simpa using hleft, started := h.started
      readOff := h.readOff, readDone := h.readDone, pendingWrite := h.pendingWrite
      read := ⟨res, hlen, hr, h0, rfl, hpre⟩ }

theorem Loop.reapWrite {q : Req} {left : Nat} {res : Int}
    (h : Loop fixed src rs ws s (left + 1) k rd (some q)) (hres : q.res = some res)
    (h0 : 0 ≤ res) :
    Loop fixed src rs ws { s with flight := rd.toList } left k rd none := by
  have hleft := h.left_eq
  rw [h.flight, List.length_append] at hleft
  have hlen : left = rd.toList.length := by
    rw [Option.toList_some, List.length_singleton] at hleft
    omega
  exact
    { (h.toCommon.reapWrite hres h0).frame rfl rfl rfl rfl with
      flight := by simp, left_eq := hlen, started := h.started
      readOff := h.readOff, readDone := h.readDone, pendingWrite := h.pendingWrite
      read := h.read }

theorem Loop.setPc {left : Nat} (h : Loop fixed src rs ws s left k rd wr) (pc : Pc) :
    Loop fixed src rs ws { s with pc := pc } left k rd wr :=
  { toCommon := h.toCommon.frame rfl rfl rfl rfl
    flight := h.flight, left_eq := h.left_eq, started := h.started, readOff := h.readOff
    readDone := h.readDone, pendingWrite := h.pendingWrite, read := h.read }

/-- Nothing left to reap. -/
theorem Loop.next (h : Loop fixed src rs ws s 0 k rd wr) :
    Inv fixed src rs ws (afterReap fixed src.length s) := by
  have hnil : s.flight = [] := List.eq_nil_of_length_eq_zero h.left_eq.symm
  have hslots := h.flight
  rw [hnil] at hslots
  obtain ⟨hwr, hrd⟩ := List.append_eq_nil_iff.1 hslots.symm
  rw [Option.toList_eq_nil_iff] at hwr hrd
  subst hwr hrd
  exact afterReap_inv h.toCommon hnil h.started h.readOff h.readDone h.read

theorem Loop.execWrite {q : Req} {left : Nat} {res : Int}
    (h : Loop fixed src rs ws s left k rd (some q)) (hn : q.res = none)
    (hk : KernelMay src q.sqe res) :
    Loop fixed src rs (ws ++ [res])
      (transfer src q.sqe res
        { s with flight := (some { q with res := some res }).toList ++ rd.toList })
      left k rd (some { q with res := some res }) := by
  have htag : q.sqe.tag = .write := h.write.tagged q rfl
  simp only [transfer, htag]
  exact
    { toCommon := h.toCommon.execWrite hn hk rfl rfl rfl
      flight := rfl, left_eq := by rw [h.left_eq, h.flight]; simp, started := h.started
      readOff := h.readOff, readDone := h.readDone, pendingWrite := h.pendingWrite
      read := h.read }

theorem Drain.execWrite {j : Nat} {q : Req} {res : Int} (h : Drain fixed src rs ws s j q)
    (hn : q.res = none) (hk : KernelMay src q.sqe res) :
    Drain fixed src rs (ws ++ [res])
      (transfer src q.sqe res
        { s with flight :=
            (some { q with res := some res }).toList ++ (none : Option Req).toList })
      j { q with res := some res } := by
  have htag : q.sqe.tag = .write := h.write.tagged q rfl
  simp only [transfer, htag]
  exact
    { toCommon := h.toCommon.execWrite hn hk rfl rfl rfl
      flight := rfl, len_eq := h.len_eq, last := h.last, all := h.all }

@[simp] theorem transfer_pc (q : Sqe) (res : Int) : (transfer src q res s).pc = s.pc := by
  unfold transfer; split <;> rfl

theorem start_inv : Inv fixed src [] [] (start fixed src.length) := by
  refine ⟨0, some (prepRead fixed 0 (chunkLen BUF_SIZE src.length 0) 0), none, ?_⟩
  have hchunk : min (src.length - 0) BUF_SIZE = chunkLen BUF_SIZE src.length 0 := by
    rw [chunkLen, Nat.zero_mul, Nat.min_comm]
  simp only [start, loopTop, hchunk]
  refine
    { cur := rfl, reads := by simp, writes := by simp, len := Nat.le_refl _, pos := by simp
      writeOff := rfl, dst := rfl, write := ⟨rfl, by simp⟩, flight := rfl, left_eq := rfl
      started := Or.inl rfl, readOff := ?_, readDone := rfl, pendingWrite := rfl
      read := ⟨by rw [Nat.zero_mul], rfl⟩ }
  have hend : 0 * BUF_SIZE + chunkLen BUF_SIZE src.length 0 = _ := chunkLen_end (by simp)
  rw [Nat.zero_mul, Nat.zero_add] at hend
  exact hend

/-- The kernel executes a request. -/
theorem exec_inv {t : Tag} {res : Int} (h : Inv fixed src rs ws s)
    (hs : step fixed src s (.exec t res) = some s') :
    Inv fixed src (rs ++ readResults [.exec t res]) (ws ++ writeResults [.exec t res]) s' := by
  simp only [step] at hs
  split at hs
  · rename_i q hfind
    split at hs
    · rename_i hk
      cases hs
      unfold Inv at h
      split at h
      · -- at the top of the loop
        rename_i left hpc
        obtain ⟨k, rd, wr, h⟩ := h
        rw [h.flight] at hfind
        obtain ⟨htag, hn, hslot⟩ := find_pending h.write.tagged h.read.tagged hfind
        cases t with
        | read =>
          obtain rfl : rd = some q := hslot
          rw [h.flight, replace_read h.write.tagged htag hn]
          simp only [readResults_read, writeResults_read, List.append_nil]
          exact (h.execRead hn hk).inv (by rw [transfer_pc]; exact hpc)
        | write =>
          obtain rfl : wr = some q := hslot
          rw [h.flight, replace_write htag hn]
          simp only [readResults_write, writeResults_write, List.append_nil]
          exact (h.execWrite hn hk).inv (by rw [transfer_pc]; exact hpc)
      · -- at the final write
        rename_i hpc
        obtain ⟨j, q', h⟩ := h
        have htag' := h.write.tagged q' rfl
        rw [h.flight] at hfind
        obtain ⟨htag, hn, hslot⟩ := find_pending h.write.tagged (by simp [Tagged]) hfind
        cases t with
        | read => cases hslot
        | write =>
          cases hslot
          rw [h.flight, replace_write htag hn]
          simp only [readResults_write, writeResults_write, List.append_nil]
          exact (h.execWrite hn hk).inv (by rw [transfer_pc]; exact hpc)
      · rw [h.1] at hfind
        cases hfind
      · rename_i hpc
        simp [Inv, hpc]
    · cases hs
  · cases hs

/-- The program takes a completion. -/
theorem wait_inv {t : Tag} (h : Inv fixed src rs ws s)
    (hs : step fixed src s (.wait t) = some s') : Inv fixed src rs ws s' := by
  simp only [step] at hs
  split at hs
  · rename_i sqe res hfind
    unfold Inv at h
    split at h
    · -- at the top of the loop
      rename_i left hpc
      obtain ⟨k, rd, wr, h⟩ := h
      have hflight := h.flight
      rw [hflight] at hfind hs
      obtain ⟨htag, hslot⟩ := find_completed h.write.tagged h.read.tagged hfind
      cases left with
      | zero => simp [reap, hpc] at hs
      | succ left =>
        simp only [reap, hpc] at hs
        split at hs
        · cases hs; trivial
        · rename_i hneg
          have h0 : 0 ≤ res := Int.not_lt.1 hneg
          cases t with
          | read =>
            obtain rfl : rd = some _ := hslot
            have h' := h.reapRead rfl h0
            rw [erase_read h.write.tagged htag (by simp)] at hs
            simp only [Option.toList_none, List.append_nil] at hs
            split at hs
            · rename_i hleft
              subst hleft
              cases hs
              exact h'.next
            · cases hs
              exact (h'.setPc _).inv rfl
          | write =>
            obtain rfl : wr = some _ := hslot
            have h' := h.reapWrite rfl h0
            rw [erase_write htag (by simp)] at hs
            simp only [Option.toList_none, List.nil_append] at hs
            split at hs
            · rename_i hleft
              subst hleft
              cases hs
              exact h'.next
            · cases hs
              exact (h'.setPc _).inv rfl
    · -- at the final write
      rename_i hpc
      obtain ⟨j, q', h⟩ := h
      have hflight := h.flight
      rw [hflight] at hfind hs
      obtain ⟨htag, hslot⟩ := find_completed h.write.tagged (by simp [Tagged]) hfind
      cases t with
      | read => cases hslot
      | write =>
        cases hslot
        simp only [reap, hpc] at hs
        split at hs
        · cases hs; trivial
        · rename_i hneg
          cases hs
          refine ⟨?_, ?_⟩
          · simpa [Req.completed] using htag
          · exact (h.toCommon.reapWrite rfl (Int.not_lt.1 hneg)).copied h.len_eq h.last h.all
    · rw [h.1] at hfind
      cases hfind
    · rename_i hpc
      simp [reap, hpc] at hs
  · cases hs

/-- **The invariant holds after every schedule.** -/
theorem run_inv {es : List Ev} (h : (machine fixed src).run es = some s) :
    Inv fixed src (readResults es) (writeResults es) s := by
  refine Machine.run_inv_hist (I := fun es s => Inv fixed src (readResults es) (writeResults es) s)
    start_inv (fun es s e s' hi hs => ?_) h
  cases e with
  | exec t res =>
    rw [readResults_snoc, writeResults_snoc]
    exact exec_inv hi hs
  | wait t =>
    have hr : readResults [.wait t] = [] := rfl
    have hw : writeResults [.wait t] = [] := rfl
    rw [readResults_snoc, writeResults_snoc, hr, hw, List.append_nil, List.append_nil]
    exact wait_inv hi hs

end Invariant

/-! ## When the copy is a copy -/

/-- What the results must be for the destination to be the source. -/
theorem Copied.dst_eq_iff {src dst : List UInt8} {rs ws : List Int} (h : Copied src rs ws dst) :
    dst = src ↔ FullReads src.length rs ∧ ZeroTails src ws := by
  rcases h with ⟨rfl, rfl, rfl, rfl⟩ | ⟨j, hrs, hws, hlast, hall, hb, rfl⟩
  · refine iff_of_true rfl ⟨?_, by simp [ZeroTails]⟩
    intro i r hr
    obtain ⟨rfl, rfl⟩ : i = 0 ∧ r = 0 := by
      rcases i with _ | i
      · simpa [eq_comm] using hr
      · simp at hr
    simp [chunkLen]
  · have hlen : (rs.zip ws).length = j + 1 := by simp [hrs, hws]
    obtain ⟨init, p, hsnoc⟩ : ∃ init p, rs.zip ws = init ++ [p] :=
      ⟨_, _, (List.dropLast_append_getLast (List.ne_nil_of_length_eq_add_one hlen)).symm⟩
    obtain rfl : init.length = j := by
      rw [hsnoc] at hlen
      simpa using hlen
    rw [hsnoc] at hb ⊢
    rw [copyOut_eq_iff hb hlast hall, ← hsnoc]
    exact and_congr (forall_zip_fst (P := fun i r => r = chunkLen BUF_SIZE src.length i)
        (hrs.trans hws.symm))
      (forall_zip_snd (P := fun i w => w = chunkLen BUF_SIZE src.length i ∨
        ((i + 1) * BUF_SIZE < src.length ∧ TailPadded 0 BUF_SIZE src i w)) (hrs.trans hws.symm))

/-- **The pipelined copy is a copy exactly for full reads and full writes**, up to writes that
leave out zeros of a chunk other than the last. -/
theorem pipelineCopy_iff (fixed : Bool) (src : List UInt8) (es : List Ev) (s : State)
    (h : (machine fixed src).run es = some s) (hc : s.pc = .copied) :
    s.dst = src ↔ FullReads src.length (readResults es) ∧ ZeroTails src (writeResults es) := by
  have hinv := run_inv h
  unfold Inv at hinv
  rw [hc] at hinv
  exact hinv.2.dst_eq_iff

/-- A file of two bytes, copied. -/
theorem pipelineCopy_two_bytes : ∃ s : State,
    (machine false [1, 2]).run [.exec .read 2, .wait .read, .exec .write 2, .wait .write] = some s ∧
      (s.dst = [1, 2] ↔ FullReads 2 [2] ∧ ZeroTails [1, 2] [2]) := by
  refine ⟨_, rfl, pipelineCopy_iff false [1, 2]
    [.exec .read 2, .wait .read, .exec .write 2, .wait .write] _ rfl rfl⟩

/-- A short read in `05_pipeline_copy`, a short write in `06_fixed_buffers`: both report success
on half of the file. -/
theorem pipelineCopy_short :
    ((pipelineCopy [1, 2]).run
        [.exec .read 1, .wait .read, .exec .write 1, .wait .write]).map
      (fun s => (s.pc, s.dst)) = some (.copied, [1]) ∧
    ((fixedBuffers [1, 2]).run
        [.exec .read 2, .wait .read, .exec .write 1, .wait .write]).map
      (fun s => (s.pc, s.dst)) = some (.copied, [1]) := by
  decide +kernel

end AdvCpp.Uring.PipelineCopy
