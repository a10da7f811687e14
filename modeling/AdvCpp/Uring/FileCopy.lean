import AdvCpp.Lib.ChunkedCopy
import AdvCpp.Lib.Machine

/-!
# The sequential and the linked copy

The copy loops of `03_file_copy.cpp` (one request at a time, chunks as long as the reads) and of
`04_linked_copy.cpp` (a read linked to a write of the same chunk).  The program runs from one
`ring.wait()` to the next in one step; in between the kernel executes the requests in flight in
their order, a read or write that is short or fails breaks the link behind it, and the request
behind a broken link is cancelled.

* `CopyInv`, `LinkInv` — the destination at each wait.
* `fileCopy_iff` — a run of either program that reports "Copied" has copied the file exactly if
  every write was full or left out zeros in front of the end of the file.
-/

namespace AdvCpp.Uring.FileCopy

open AdvCpp.Lib

def BUF_SIZE : Nat := 64 * 1024
def ECANCELED : Int := 125

inductive Opcode where
  | read
  | write
  deriving DecidableEq

/-- A request on the buffer; `link` is `IOSQE_IO_LINK`. -/
structure Sqe where
  op : Opcode
  len : Nat
  off : Nat
  link : Bool
  deriving DecidableEq

/-- The destination, the buffer, the requests in flight and the results that are not reaped yet.
`broken` says that the first request in flight stands behind a broken link. -/
structure Kernel where
  dst : List UInt8
  buf : List UInt8
  flight : List Sqe
  broken : Bool
  cq : List Int

/-- `dst` is empty by `O_TRUNC`. -/
def Kernel.init : Kernel := ⟨[], List.replicate BUF_SIZE 0, [], false, []⟩

/-- `ring.submit()`. -/
def Kernel.submit (K : Kernel) (qs : List Sqe) : Kernel := { K with flight := K.flight ++ qs }

/-- The results the kernel may give: a negative error, the bytes available for a read (possibly
fewer, but not zero), or between one and all bytes of a write. -/
def KernelMay (src : List UInt8) (q : Sqe) (res : Int) : Prop :=
  res < 0 ∨
    match q.op with
    | .read =>
      0 ≤ res ∧ res ≤ (min q.len (src.length - q.off) : Nat) ∧
        (res = 0 → min q.len (src.length - q.off) = 0)
    | .write => 1 ≤ res ∧ res ≤ q.len

instance (src : List UInt8) (q : Sqe) (res : Int) : Decidable (KernelMay src q res) := by
  unfold KernelMay
  cases q.op <;> exact inferInstance

/-- The data the kernel moves for a request that ends with `res`. -/
def transfer (src : List UInt8) (q : Sqe) (res : Int) (K : Kernel) : Kernel :=
  match q.op with
  | .read => { K with buf := pwrite 0 K.buf 0 (pread src q.off res.toNat) }
  | .write => { K with dst := pwrite 0 K.dst q.off (K.buf.take res.toNat) }

/-- The first request in flight ends with `res`. -/
def Kernel.exec (src : List UInt8) (K : Kernel) (res : Int) : Option Kernel :=
  match K.flight with
  | [] => none
  | q :: flight =>
    if K.broken then
      if res = -ECANCELED then
        some { K with flight := flight, broken := q.link, cq := K.cq ++ [res] }
      else none
    else if KernelMay src q res then
      some
        { transfer src q res K with
          flight := flight, broken := q.link && decide (res ≠ q.len), cq := K.cq ++ [res] }
    else none

/-- `exec`: the kernel ends the next request with this result.  `wait`: `ring.wait()` returns. -/
inductive Ev where
  | exec (res : Int)
  | wait
  deriving DecidableEq

/-! ## `03_file_copy` -/

/-- Where the program waits; `failed` is an exception, `copied` the report of success. -/
inductive CopyPc where
  | read
  | write (bytesRead : Nat)
  | copied
  | failed
  deriving DecidableEq

structure CopyState where
  kern : Kernel
  offset : Nat
  pc : CopyPc

namespace CopyState

/-- Top of the loop: a read of the whole buffer. -/
def loopTop (s : CopyState) : CopyState :=
  { s with kern := s.kern.submit [⟨.read, BUF_SIZE, s.offset, false⟩], pc := .read }

/-- The program takes a completion. -/
def reap (s : CopyState) (res : Int) : Option CopyState :=
  match s.pc with
  | .read =>
    if res < 0 then some { s with pc := .failed }
    else
      let bytesRead := res.toNat
      if bytesRead = 0 then some { s with pc := .copied } -- EOF
      else
        some
          { s with
            kern := s.kern.submit [⟨.write, bytesRead, s.offset, false⟩], pc := .write bytesRead }
  | .write bytesRead =>
    if res < 0 then some { s with pc := .failed }
    else some (loopTop { s with offset := s.offset + bytesRead })
  | _ => none

def step (src : List UInt8) (s : CopyState) : Ev → Option CopyState
  | .exec res => (s.kern.exec src res).map fun K => { s with kern := K }
  | .wait =>
    match s.kern.cq with
    | res :: cq => reap { s with kern := { s.kern with cq := cq } } res
    | [] => none

end CopyState

/-- `main` of `03_file_copy` on a source with content `src`. -/
def fileCopy (src : List UInt8) : Machine CopyState Ev :=
  ⟨CopyState.loopTop ⟨Kernel.init, 0, .read⟩, CopyState.step src⟩

/-! ## `04_linked_copy` -/

inductive LinkPc where
  | read (chunk : Nat)
  | write (chunk : Nat)
  | copied
  | failed
  deriving DecidableEq

structure LinkState where
  kern : Kernel
  offset : Nat
  remaining : Nat
  pc : LinkPc

namespace LinkState

/-- Top of the loop: a linked pair of a read and a write. -/
def loopTop (s : LinkState) : LinkState :=
  if 0 < s.remaining then
    let chunk := min s.remaining BUF_SIZE
    { s with
      kern := s.kern.submit
        [⟨.read, chunk, s.offset, true⟩, ⟨.write, chunk, s.offset, false⟩]
      pc := .read chunk }
  else { s with pc := .copied }

/-- The program takes a completion. -/
def reap (s : LinkState) (res : Int) : Option LinkState :=
  match s.pc with
  | .read chunk =>
    if res < 0 then some { s with pc := .failed } else some { s with pc := .write chunk }
  | .write chunk =>
    if res < 0 then some { s with pc := .failed }
    else
      some (loopTop { s with offset := s.offset + chunk, remaining := s.remaining - chunk })
  | _ => none

def step (src : List UInt8) (s : LinkState) : Ev → Option LinkState
  | .exec res => (s.kern.exec src res).map fun K => { s with kern := K }
  | .wait =>
    match s.kern.cq with
    | res :: cq => reap { s with kern := { s.kern with cq := cq } } res
    | [] => none

end LinkState

/-- `main` of `04_linked_copy`; `st_size` is the length of the source. -/
def linkedCopy (src : List UInt8) : Machine LinkState Ev :=
  ⟨LinkState.loopTop ⟨Kernel.init, 0, src.length, .copied⟩, LinkState.step src⟩

/-! ## The condition -/

/-- A write takes all its bytes, or leaves out zeros in front of the end of the source. -/
def TakesAll (src : List UInt8) (K : Kernel) : Ev → Prop
  | .exec res =>
    match K.flight with
    | ⟨.write, len, off, _⟩ :: _ =>
      0 ≤ res → res = len ∨ (off + len < src.length ∧
        ∀ j < len, res ≤ j → src[off + j]? = some 0)
    | _ => True
  | .wait => True

instance (src : List UInt8) (K : Kernel) (e : Ev) : Decidable (TakesAll src K e) := by
  unfold TakesAll
  cases e with
  | exec res => dsimp only; split <;> exact inferInstance
  | wait => exact inferInstance

/-- **The kernel ends the next request.** -/
theorem Kernel.exec_cases {src : List UInt8} {K K' : Kernel} {res : Int}
    (hs : K.exec src res = some K') :
    ∃ q flight, K.flight = q :: flight ∧ K'.flight = flight ∧ K'.cq = K.cq ++ [res] ∧
      (K.broken = true ∧ res = -ECANCELED ∧ K'.broken = q.link ∧ K'.dst = K.dst ∧ K'.buf = K.buf ∨
        K.broken = false ∧ KernelMay src q res ∧ K'.broken = (q.link && decide (res ≠ q.len)) ∧
          K'.dst = (transfer src q res K).dst ∧ K'.buf = (transfer src q res K).buf) := by
  unfold Kernel.exec at hs
  split at hs
  · cases hs
  · rename_i q flight hq
    refine ⟨q, flight, hq, ?_⟩
    split at hs
    · rename_i hbroken
      split at hs
      · rename_i hres
        cases hs
        exact ⟨rfl, rfl, Or.inl ⟨hbroken, hres, rfl, rfl, rfl⟩⟩
      · cases hs
    · rename_i hbroken
      split at hs
      · rename_i hmay
        cases hs
        have hcq : (transfer src q res K).cq = K.cq := by
          unfold transfer
          split <;> rfl
        exact ⟨rfl, rfl, Or.inr ⟨Bool.eq_false_iff.2 hbroken, hmay, rfl, rfl, rfl⟩⟩
      · cases hs

/-! ## The destination -/

section Invariant

variable {src dst buf : List UInt8} {a b : Prop} {off n : Nat} {res : Int} {K K' : Kernel}

/-- The copy up to `off`, which is exact if `a` holds. -/
structure Copied (a : Prop) (src : List UInt8) (off : Nat) (dst : List UInt8) : Prop where
  length_le : dst.length ≤ off
  off_le : off ≤ src.length
  exact_iff : a ↔ CopiedTo 0 src off dst

theorem copied_init (src : List UInt8) : Copied True src 0 [] where
  length_le := Nat.le_refl _
  off_le := Nat.zero_le _
  exact_iff := iff_of_true trivial (copiedTo_nil 0 src)

/-- The whole source is copied. -/
theorem Copied.dst_eq_iff (h : Copied a src src.length dst) : dst = src ↔ a :=
  (copiedTo_end h.length_le).symm.trans h.exact_iff.symm

/-- A step without a write. -/
theorem Copied.and_true (h : Copied a src off dst) (hb : b) : Copied (a ∧ b) src off dst :=
  { h with exact_iff := (and_iff_left hb).trans h.exact_iff }

/-- **A write of what was read.** -/
theorem Copied.write (h : Copied a src off dst) (hbuf : pread src off n <+: buf)
    (hn : off + n ≤ src.length) (hres : 1 ≤ res) (hle : res ≤ n) {link : Bool}
    (hK : K.flight = [⟨.write, n, off, link⟩]) :
    Copied (a ∧ TakesAll src K (.exec res)) src (off + n)
      (pwrite 0 dst off (buf.take res.toNat)) := by
  have hlen : (pread src off n).length = n := by
    rw [pread_length]
    omega
  have htake : buf.take res.toNat = (pread src off n).take res.toNat := by
    obtain ⟨rest, rfl⟩ := hbuf
    rw [List.take_append_of_le_length (by omega)]
  rw [htake]
  refine ⟨?_, hn, ?_⟩
  · refine Nat.le_trans (pwrite_end_length h.length_le) ?_
    rw [List.length_take, hlen]
    omega
  · rw [copiedTo_write h.length_le (by omega) (by omega) hn, h.exact_iff]
    refine and_congr_right fun _ => ?_
    simp only [TakesAll, hK]
    constructor
    · intro hok
      refine (hok (by omega)).imp (by omega) fun hz => ⟨hz.1, fun j hj hjn => ?_⟩
      exact hz.2 j hjn (by omega)
    · intro hok _
      refine hok.imp (by omega) fun hz => ⟨hz.1, fun j hjn hj => ?_⟩
      exact hz.2 j (by omega) hjn

theorem takesAll_of_read {q : Sqe} {flight : List Sqe} (hK : K.flight = q :: flight)
    (hq : q.op = .read) (e : Ev) : TakesAll src K e := by
  obtain ⟨op, len, off, link⟩ := q
  cases hq
  unfold TakesAll
  rw [hK]
  split <;> trivial

/-- What a read has left in the buffer. -/
structure HasRead (src : List UInt8) (len off : Nat) (buf : List UInt8) (res : Int) : Prop where
  le : res ≤ (min len (src.length - off) : Nat)
  eof : res = 0 → min len (src.length - off) = 0
  data : pread src off res.toNat <+: buf

theorem hasRead_transfer {len : Nat} (hle : res ≤ (min len (src.length - off) : Nat))
    (heof : res = 0 → min len (src.length - off) = 0) :
    HasRead src len off (pwrite 0 buf 0 (pread src off res.toNat)) res :=
  ⟨hle, heof, by rw [pwrite_front]; exact List.prefix_append _ _⟩

/-! ## The sequential copy -/

/-- The sequential copy at a wait. -/
def CopyInv (src : List UInt8) (a : Prop) (s : CopyState) : Prop :=
  match s.pc with
  | .read =>
    s.kern.broken = false ∧ Copied a src s.offset s.kern.dst ∧
      (s.kern.flight = [⟨.read, BUF_SIZE, s.offset, false⟩] ∧ s.kern.cq = [] ∨
        s.kern.flight = [] ∧ ∃ res, s.kern.cq = [res] ∧
          (0 ≤ res → HasRead src BUF_SIZE s.offset s.kern.buf res))
  | .write n =>
    s.kern.broken = false ∧ s.offset + n ≤ src.length ∧
      (s.kern.flight = [⟨.write, n, s.offset, false⟩] ∧ s.kern.cq = [] ∧
          Copied a src s.offset s.kern.dst ∧ pread src s.offset n <+: s.kern.buf ∨
        s.kern.flight = [] ∧ ∃ res, s.kern.cq = [res] ∧
          (0 ≤ res → Copied a src (s.offset + n) s.kern.dst))
  | .copied => s.kern.flight = [] ∧ (s.kern.dst = src ↔ a)
  | .failed => True

theorem copyInv_exec {s : CopyState} (h : CopyInv src a s) (hs : s.kern.exec src res = some K') :
    CopyInv src (a ∧ TakesAll src s.kern (.exec res)) { s with kern := K' } := by
  obtain ⟨q, flight, hq, hflight, hcq, hcase⟩ := Kernel.exec_cases hs
  obtain ⟨K, offset, pc⟩ := s
  cases pc with
  | read =>
    obtain ⟨hbroken, hcop, ⟨hK, hnil⟩ | ⟨hK, -⟩⟩ := h
    · cases hK.symm.trans hq
      obtain ⟨-, hmay, hbroken', hdst, hbuf⟩ := hcase.resolve_left fun hb => Bool.false_ne_true (hbroken.symm.trans hb.1)
      refine ⟨hbroken', ?_, Or.inr ⟨hflight, res, by rw [hcq, hnil]; rfl, fun hpos => ?_⟩⟩
      · rw [hdst]
        exact hcop.and_true (takesAll_of_read hK rfl _)
      · obtain ⟨-, hle, heof⟩ := hmay.resolve_left (Int.not_lt.2 hpos)
        rw [hbuf]
        exact hasRead_transfer hle heof
    · cases hK.symm.trans hq
  | write n =>
    obtain ⟨hbroken, hn, ⟨hK, hnil, hcop, hpre⟩ | ⟨hK, -⟩⟩ := h
    · cases hK.symm.trans hq
      obtain ⟨-, hmay, hbroken', hdst, -⟩ := hcase.resolve_left fun hb => Bool.false_ne_true (hbroken.symm.trans hb.1)
      refine ⟨hbroken', hn, Or.inr ⟨hflight, res, by rw [hcq, hnil]; rfl, fun hpos => ?_⟩⟩
      obtain ⟨hres, hle⟩ := hmay.resolve_left (Int.not_lt.2 hpos)
      rw [hdst]
      exact hcop.write hpre hn hres hle hK
    · cases hK.symm.trans hq
  | copied => cases h.1.symm.trans hq
  | failed => trivial

theorem copyInv_reap {s s' : CopyState} {cq : List Int} (h : CopyInv src a s)
    (hcq : s.kern.cq = res :: cq)
    (hs : CopyState.reap { s with kern := { s.kern with cq := cq } } res = some s') :
    CopyInv src a s' := by
  obtain ⟨⟨dst, buf, flight, broken, cq₀⟩, offset, pc⟩ := s
  cases pc with
  | read =>
    obtain ⟨hbroken, hcop, ⟨-, hnil⟩ | ⟨hflight, res', hcq', hread⟩⟩ := h
    · cases hnil.symm.trans hcq
    · cases hcq'.symm.trans hcq
      have hread := fun hres => hread (Int.not_lt.1 hres)
      simp only [CopyState.reap] at hs
      split at hs
      · cases hs
        trivial
      · rename_i hres
        obtain ⟨hle, heof, hdata⟩ := hread hres
        split at hs
        · rename_i hzero
          cases hs
          -- the end of the file
          have hoff : offset = src.length := by
            have := heof (by omega)
            have := hcop.off_le
            simp only [BUF_SIZE] at *
            omega
          subst hoff
          exact ⟨hflight, hcop.dst_eq_iff⟩
        · cases hs
          have hend : offset + res.toNat ≤ src.length := by
            have hoff := hcop.off_le
            simp only at hle hoff
            omega
          refine ⟨hbroken, hend, Or.inl ⟨?_, rfl, hcop, hdata⟩⟩
          simp only [Kernel.submit] at hflight ⊢
          rw [hflight]
          rfl
  | write n =>
    obtain ⟨hbroken, hn, ⟨-, hnil, -⟩ | ⟨hflight, res', hcq', hcop⟩⟩ := h
    · cases hnil.symm.trans hcq
    · cases hcq'.symm.trans hcq
      simp only [CopyState.reap] at hs
      split at hs
      · cases hs
        trivial
      · rename_i hres
        cases hs
        refine ⟨hbroken, hcop (Int.not_lt.1 hres), Or.inl ⟨?_, rfl⟩⟩
        simp only [CopyState.loopTop, Kernel.submit] at hflight ⊢
        rw [hflight]
        rfl
  | copied => cases hs
  | failed => cases hs

theorem fileCopy_inv {es : List Ev} {s : CopyState} (hs : (fileCopy src).run es = some s) :
    CopyInv src ((fileCopy src).Meets (fun s e => TakesAll src s.kern e) (fileCopy src).init es) s := by
  refine Machine.run_inv_meets ⟨rfl, copied_init src, Or.inl ⟨rfl, rfl⟩⟩ (fun a s e s' h hs => ?_) hs
  cases e with
  | exec res =>
    obtain ⟨K, hK, rfl⟩ := Option.map_eq_some_iff.1 hs
    exact copyInv_exec h hK
  | wait =>
    rw [and_iff_left (show TakesAll src s.kern .wait from trivial)]
    simp only [fileCopy, CopyState.step] at hs
    split at hs
    · rename_i res cq hcq
      exact copyInv_reap h hcq hs
    · cases hs

/-! ## The linked copy -/

/-- A linked pair of which the results `rs` are there. -/
def Pair (src : List UInt8) (a : Prop) (K : Kernel) (chunk off : Nat) : List Int → Prop
  | [] =>
    K.flight = [⟨.read, chunk, off, true⟩, ⟨.write, chunk, off, false⟩] ∧ K.broken = false ∧
      Copied a src off K.dst
  | [r] =>
    K.flight = [⟨.write, chunk, off, false⟩] ∧ K.broken = decide (r ≠ chunk) ∧
      Copied a src off K.dst ∧ (r = chunk → pread src off chunk <+: K.buf)
  | [_, w] => K.flight = [] ∧ K.broken = false ∧ (0 ≤ w → Copied a src (off + chunk) K.dst)
  | _ => False

/-- The linked copy at a wait. -/
def LinkInv (src : List UInt8) (a : Prop) (s : LinkState) : Prop :=
  s.pc = .failed ∨ s.offset + s.remaining = src.length ∧
    match s.pc with
    | .read chunk => chunk ≤ s.remaining ∧ Pair src a s.kern chunk s.offset s.kern.cq
    | .write chunk => chunk ≤ s.remaining ∧ ∃ r, Pair src a s.kern chunk s.offset (r :: s.kern.cq)
    | .copied => s.kern.flight = [] ∧ (s.kern.dst = src ↔ a)
    | .failed => True

theorem Pair.exec {chunk : Nat} {rs : List Int} (h : Pair src a K chunk off rs)
    (hn : off + chunk ≤ src.length) (hs : K.exec src res = some K') :
    Pair src (a ∧ TakesAll src K (.exec res)) K' chunk off (rs ++ [res]) := by
  obtain ⟨q, flight, hq, hflight, -, hcase⟩ := Kernel.exec_cases hs
  match rs, h with
  | [], h =>
    obtain ⟨hK, hbroken, hcop⟩ := h
    cases hK.symm.trans hq
    obtain ⟨-, hmay, hbroken', hdst, hbuf⟩ :=
      hcase.resolve_left fun hb => Bool.false_ne_true (hbroken.symm.trans hb.1)
    refine ⟨hflight, by rw [hbroken', Bool.true_and], ?_, fun hres => ?_⟩
    · rw [hdst]
      exact hcop.and_true (takesAll_of_read hK rfl _)
    · subst hres
      rw [hbuf]
      show pread src off chunk <+: pwrite 0 K.buf 0 (pread src off (chunk : Int).toNat)
      rw [Int.toNat_natCast, pwrite_front]
      exact List.prefix_append _ _
  | [r], h =>
    obtain ⟨hK, hbroken, hcop, hpre⟩ := h
    cases hK.symm.trans hq
    rcases hcase with ⟨-, hres, hbroken', -⟩ | ⟨hintact, hmay, hbroken', hdst, -⟩
    · -- the link is broken, the write was cancelled
      refine ⟨hflight, hbroken', fun hpos => ?_⟩
      rw [hres] at hpos
      exact absurd hpos (by decide)
    · refine ⟨hflight, hbroken', fun hpos => ?_⟩
      have hr : r = chunk := by
        rw [hbroken, decide_eq_false_iff_not, not_not] at hintact
        exact hintact
      obtain ⟨hres, hle⟩ := hmay.resolve_left (Int.not_lt.2 hpos)
      rw [hdst]
      exact hcop.write (hpre hr) hn hres hle hK
  | [_, _], h => cases h.1.symm.trans hq
  | _ :: _ :: _ :: _, h => exact h.elim

theorem linkInv_loopTop {s : LinkState} (hcop : Copied a src s.offset s.kern.dst)
    (hrem : s.offset + s.remaining = src.length) (hflight : s.kern.flight = [])
    (hbroken : s.kern.broken = false) (hcq : s.kern.cq = []) : LinkInv src a s.loopTop := by
  unfold LinkState.loopTop
  split
  · refine Or.inr ⟨hrem, Nat.min_le_left _ _, ?_⟩
    simp only [Kernel.submit, hcq, hflight]
    exact ⟨rfl, hbroken, hcop⟩
  · have hoff : s.offset = src.length := by omega
    rw [hoff] at hcop
    exact Or.inr ⟨hrem, hflight, hcop.dst_eq_iff⟩

theorem linkInv_exec {s : LinkState} (h : LinkInv src a s) (hs : s.kern.exec src res = some K') :
    LinkInv src (a ∧ TakesAll src s.kern (.exec res)) { s with kern := K' } := by
  obtain ⟨q, flight, hq, -, hcq, -⟩ := Kernel.exec_cases hs
  rcases h with h | ⟨hrem, h⟩
  · exact Or.inl h
  · refine Or.inr ⟨hrem, ?_⟩
    obtain ⟨K, offset, remaining, pc⟩ := s
    cases pc with
    | read chunk =>
      obtain ⟨hle, hpair⟩ := h
      refine ⟨hle, ?_⟩
      simp only at hcq hrem hle
      simp only [hcq]
      refine hpair.exec ?_ hs
      show offset + chunk ≤ src.length
      omega
    | write chunk =>
      obtain ⟨hle, r, hpair⟩ := h
      refine ⟨hle, r, ?_⟩
      simp only at hcq hrem hle
      simp only [hcq]
      refine hpair.exec ?_ hs
      show offset + chunk ≤ src.length
      omega
    | copied => cases h.1.symm.trans hq
    | failed => trivial

theorem linkInv_reap {s s' : LinkState} {cq : List Int} (h : LinkInv src a s)
    (hcq : s.kern.cq = res :: cq)
    (hs : LinkState.reap { s with kern := { s.kern with cq := cq } } res = some s') :
    LinkInv src a s' := by
  obtain ⟨⟨dst, buf, flight, broken, cq₀⟩, offset, remaining, pc⟩ := s
  simp only at hcq
  subst hcq
  cases pc with
  | read chunk =>
    obtain ⟨hrem, hle, hpair⟩ := h.resolve_left (by rintro ⟨⟩)
    simp only [LinkState.reap] at hs
    split at hs
    · cases hs
      exact Or.inl rfl
    · cases hs
      exact Or.inr ⟨hrem, hle, res, hpair⟩
  | write chunk =>
    obtain ⟨hrem, hle, r, hpair⟩ := h.resolve_left (by rintro ⟨⟩)
    simp only [LinkState.reap] at hs
    split at hs
    · cases hs
      exact Or.inl rfl
    · rename_i hres
      cases hs
      match cq, hpair with
      | [], hpair =>
        obtain ⟨hflight, hbroken, hcop⟩ := hpair
        simp only at hrem hle
        refine linkInv_loopTop (hcop (Int.not_lt.1 hres)) ?_ hflight hbroken rfl
        simp only
        omega
      | _ :: _, hpair => exact hpair.elim
  | copied => cases hs
  | failed => cases hs

theorem linkedCopy_inv {es : List Ev} {s : LinkState} (hs : (linkedCopy src).run es = some s) :
    LinkInv src
      ((linkedCopy src).Meets (fun s e => TakesAll src s.kern e) (linkedCopy src).init es) s := by
  refine Machine.run_inv_meets ?_ (fun a s e s' h hs => ?_) hs
  · exact linkInv_loopTop (copied_init src) (Nat.zero_add _) rfl rfl rfl
  · cases e with
    | exec res =>
      obtain ⟨K, hK, rfl⟩ := Option.map_eq_some_iff.1 hs
      exact linkInv_exec h hK
    | wait =>
      rw [and_iff_left (show TakesAll src s.kern .wait from trivial)]
      simp only [linkedCopy, LinkState.step] at hs
      split at hs
      · rename_i res cq hcq
        exact linkInv_reap h hcq hs
      · cases hs

end Invariant

/-- **What a successful copy has copied.**  A run of either program that reports "Copied" has
copied the file exactly if every write took all its bytes or left out zeros in front of the end. -/
theorem fileCopy_iff (src : List UInt8) (es : List Ev) :
    (∀ s, (fileCopy src).run es = some s → s.pc = .copied →
      (s.kern.dst = src ↔
        (fileCopy src).Meets (fun s e => TakesAll src s.kern e) (fileCopy src).init es)) ∧
    (∀ s, (linkedCopy src).run es = some s → s.pc = .copied →
      (s.kern.dst = src ↔
        (linkedCopy src).Meets (fun s e => TakesAll src s.kern e) (linkedCopy src).init es)) := by
  constructor
  · intro s hs hpc
    have h := fileCopy_inv hs
    simp only [CopyInv, hpc] at h
    exact h.2
  · intro s hs hpc
    have h := linkedCopy_inv hs
    simp only [LinkInv, hpc] at h
    exact (h.resolve_left (by rintro ⟨⟩)).2.2

/-- Two bytes, read and written in one piece, then the end of the file for `03_file_copy`. -/
theorem fileCopy_two_bytes :
    (∃ s, (fileCopy [1, 2]).run [.exec 2, .wait, .exec 2, .wait, .exec 0, .wait] = some s ∧
      (s.kern.dst = [1, 2] ↔ (fileCopy [1, 2]).Meets (fun s e => TakesAll [1, 2] s.kern e)
        (fileCopy [1, 2]).init [.exec 2, .wait, .exec 2, .wait, .exec 0, .wait])) ∧
    ∃ s, (linkedCopy [1, 2]).run [.exec 2, .exec 2, .wait, .wait] = some s ∧
      (s.kern.dst = [1, 2] ↔ (linkedCopy [1, 2]).Meets (fun s e => TakesAll [1, 2] s.kern e)
        (linkedCopy [1, 2]).init [.exec 2, .exec 2, .wait, .wait]) :=
  ⟨⟨_, rfl, (fileCopy_iff [1, 2] [.exec 2, .wait, .exec 2, .wait, .exec 0, .wait]).1 _ rfl rfl⟩,
    ⟨_, rfl, (fileCopy_iff [1, 2] [.exec 2, .exec 2, .wait, .wait]).2 _ rfl rfl⟩⟩

/-- **A short write is reported as a copy** by both programs. -/
theorem fileCopy_short :
    ((fileCopy [1, 2]).run [.exec 2, .wait, .exec 1, .wait, .exec 0, .wait]).map
      (fun s => (s.pc, s.kern.dst)) = some (.copied, [1]) ∧
    ((linkedCopy [1, 2]).run [.exec 2, .exec 1, .wait, .wait]).map
      (fun s => (s.pc, s.kern.dst)) = some (.copied, [1]) := by
  decide +kernel

end AdvCpp.Uring.FileCopy
