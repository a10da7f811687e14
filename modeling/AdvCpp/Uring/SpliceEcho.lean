import AdvCpp.Lib.Machine

/-!
# The splice echo

One run of `client_handler` of `17_splice_echo.cpp`.  The bytes go from the socket into a pipe and
from the pipe back to the socket inside the kernel; the handler only counts.  The events are the
results of `pipe2` and of the splices, so a list of events is one schedule of partial transfers and
errors.

* `Counted` — the counter of the handler is the length of what is in the pipe.
* `splice_echo` — what every run keeps, and what is closed when it ends.
-/

namespace AdvCpp.Uring.SpliceEcho

open AdvCpp.Lib

/-- The descriptors of the handler: the socket `fd`, and what `pipe2` returns. -/
inductive Descriptor where
  | fd
  | pipeRead
  | pipeWrite
  deriving DecidableEq

/-- A submitted `AsyncSplice`. -/
structure AsyncSplice where
  fdIn : Descriptor
  fdOut : Descriptor
  len : Nat
  deriving DecidableEq

/-- Where the coroutine is: at `pipe2`, at the `co_await` of `to_pipe` or of `from_pipe`, or at its
end. -/
inductive Place where
  | pipe2
  | toPipe (op : AsyncSplice)
  | fromPipe (op : AsyncSplice) (remaining : Nat)
  | returned
  deriving DecidableEq

/-- The kernel's pipe, what has come from the client and what has gone back to it (`received`,
`sent`: the bytes spliced in and out), the descriptors of the handler and the calls of `close`. -/
structure State where
  pipe : List UInt8
  received : List UInt8
  sent : List UInt8
  owned : List Descriptor
  closed : List Descriptor
  place : Place
  deriving DecidableEq

/-- `pipe2` returns; the splice that is awaited completes, and `data` is what the client has sent if
it reads from the socket. -/
inductive Event where
  | pipe2 (res : Int)
  | splice (res : Int) (data : List UInt8)
  deriving DecidableEq

/-- The kernel moves the bytes of a splice that ends with `res`. -/
def transfer (op : AsyncSplice) (res : Int) (data : List UInt8) (s : State) : State :=
  match op.fdIn, op.fdOut with
  | .fd, .pipeWrite => { s with received := s.received ++ data, pipe := s.pipe ++ data }
  | .pipeRead, .fd =>
    { s with sent := s.sent ++ s.pipe.take res.toNat, pipe := s.pipe.drop res.toNat }
  | _, _ => s

/-- A splice ends with an error, with zero, or with at most as many bytes as were asked for; a read
from the socket finds that many. -/
def KernelMay (op : AsyncSplice) (res : Int) (data : List UInt8) : Prop :=
  res ≤ (op.len : Int) ∧ data.length = if op.fdIn = .fd then res.toNat else 0

instance (op : AsyncSplice) (res : Int) (data : List UInt8) : Decidable (KernelMay op res data) := by
  unfold KernelMay
  exact inferInstance

/-- `done:` -/
def done (s : State) : State :=
  { s with closed := s.closed ++ [.pipeRead, .pipeWrite, .fd], place := .returned }

/-- Top of the `for` loop. -/
def loop (s : State) : State := { s with place := .toPipe ⟨.fd, .pipeWrite, 4096⟩ }

/-- Top of the `while` loop. -/
def drain (s : State) (remaining : Nat) : State :=
  if 0 < remaining then { s with place := .fromPipe ⟨.pipeRead, .fd, remaining⟩ remaining }
  else loop s

def step (s : State) : Event → Option State
  | .pipe2 res =>
    match s.place with
    | .pipe2 =>
      if res < 0 then some { s with closed := s.closed ++ [.fd], place := .returned }
      else some (loop { s with owned := s.owned ++ [.pipeRead, .pipeWrite] })
    | _ => none
  | .splice res data =>
    match s.place with
    | .toPipe op =>
      if KernelMay op res data then
        let s := transfer op res data s
        if res ≤ 0 then some (done s) else some (drain s res.toNat)
      else none
    | .fromPipe op remaining =>
      if KernelMay op res data then
        let s := transfer op res data s
        if res ≤ 0 then some (done s) else some (drain s (remaining - res.toNat))
      else none
    | _ => none

/-- `client_handler` on an accepted socket. -/
def clientHandler : Machine State Event :=
  ⟨{ pipe := [], received := [], sent := [], owned := [.fd], closed := [], place := .pipe2 }, step⟩

/-! ## The counter and the pipe -/

/-- What is in the pipe at each place. -/
def Counted (s : State) : Prop :=
  match s.place with
  | .pipe2 => s.pipe = []
  | .toPipe op => op = ⟨.fd, .pipeWrite, 4096⟩ ∧ s.pipe = []
  | .fromPipe op remaining =>
    op = ⟨.pipeRead, .fd, remaining⟩ ∧ 0 < remaining ∧ s.pipe.length = remaining
  | .returned => True

/-- What the handler owns and has closed at each place. -/
def Closes (s : State) : Prop :=
  match s.place with
  | .pipe2 => s.owned = [.fd] ∧ s.closed = []
  | .toPipe _ | .fromPipe _ _ => s.owned = [.fd, .pipeRead, .pipeWrite] ∧ s.closed = []
  | .returned => s.closed.Perm s.owned ∧ s.owned.Nodup

structure Inv (s : State) : Prop where
  counted : Counted s
  /-- What has come in is what has gone out and what is in the pipe. -/
  bytes : s.received = s.sent ++ s.pipe
  closes : Closes s

section Inv

variable {s s' : State}

theorem done_inv (hbytes : s.received = s.sent ++ s.pipe)
    (howned : s.owned = [.fd, .pipeRead, .pipeWrite]) (hclosed : s.closed = []) : Inv (done s) := by
  refine ⟨trivial, hbytes, ?_⟩
  show (s.closed ++ [Descriptor.pipeRead, .pipeWrite, .fd]).Perm s.owned ∧ s.owned.Nodup
  rw [howned, hclosed]
  decide

theorem loop_inv (hbytes : s.received = s.sent ++ s.pipe) (hpipe : s.pipe = [])
    (howned : s.owned = [.fd, .pipeRead, .pipeWrite]) (hclosed : s.closed = []) : Inv (loop s) :=
  ⟨⟨rfl, hpipe⟩, hbytes, howned, hclosed⟩

theorem drain_inv {remaining : Nat} (hbytes : s.received = s.sent ++ s.pipe)
    (hpipe : s.pipe.length = remaining) (howned : s.owned = [.fd, .pipeRead, .pipeWrite])
    (hclosed : s.closed = []) : Inv (drain s remaining) := by
  unfold drain
  split
  · rename_i hpos
    exact ⟨⟨rfl, hpos, hpipe⟩, hbytes, howned, hclosed⟩
  · rename_i hpos
    have hnil : s.pipe = [] := List.eq_nil_of_length_eq_zero (by omega)
    exact loop_inv hbytes hnil howned hclosed

theorem pipe2_inv {res : Int} (h : Inv s) (hs : step s (.pipe2 res) = some s') : Inv s' := by
  obtain ⟨hcounted, hbytes, hcloses⟩ := h
  simp only [step] at hs
  split at hs
  · rename_i hplace
    unfold Counted at hcounted
    unfold Closes at hcloses
    rw [hplace] at hcounted hcloses
    obtain ⟨howned, hclosed⟩ := hcloses
    split at hs
    · -- only the socket is there to be closed
      cases hs
      refine ⟨trivial, hbytes, ?_⟩
      show (s.closed ++ [Descriptor.fd]).Perm s.owned ∧ s.owned.Nodup
      rw [howned, hclosed]
      decide
    · cases hs
      exact loop_inv hbytes hcounted (by rw [howned]; rfl) hclosed
  · cases hs

theorem splice_inv {res : Int} {data : List UInt8} (h : Inv s)
    (hs : step s (.splice res data) = some s') : Inv s' := by
  obtain ⟨hcounted, hbytes, hcloses⟩ := h
  simp only [step] at hs
  unfold Counted at hcounted
  unfold Closes at hcloses
  split at hs
  · rename_i op hplace
    rw [hplace] at hcounted hcloses
    obtain ⟨rfl, hpipe⟩ := hcounted
    obtain ⟨howned, hclosed⟩ := hcloses
    split at hs
    · rename_i hk
      have hlen : data.length = res.toNat := hk.2
      have hbytes' : s.received ++ data = s.sent ++ (s.pipe ++ data) := by
        rw [hbytes, List.append_assoc]
      split at hs
      · cases hs
        exact done_inv hbytes' howned hclosed
      · cases hs
        refine drain_inv hbytes' ?_ howned hclosed
        show (s.pipe ++ data).length = res.toNat
        rw [hpipe, List.nil_append, hlen]
    · cases hs
  · rename_i op remaining hplace
    rw [hplace] at hcounted hcloses
    obtain ⟨rfl, -, hpipe⟩ := hcounted
    obtain ⟨howned, hclosed⟩ := hcloses
    split at hs
    · have hbytes' : s.received =
          s.sent ++ s.pipe.take res.toNat ++ s.pipe.drop res.toNat := by
        rw [List.append_assoc, List.take_append_drop, hbytes]
      split at hs
      · cases hs
        exact done_inv hbytes' howned hclosed
      · cases hs
        refine drain_inv hbytes' ?_ howned hclosed
        show (s.pipe.drop res.toNat).length = remaining - res.toNat
        rw [List.length_drop, hpipe]
    · cases hs
  · cases hs

theorem step_inv {e : Event} (h : Inv s) (hs : step s e = some s') : Inv s' := by
  cases e with
  | pipe2 res => exact pipe2_inv h hs
  | splice res data => exact splice_inv h hs

end Inv

/-! ## What came in -/

/-- The bytes of the splices from the socket, in order. -/
def splicedIn (es : List Event) : List UInt8 :=
  es.flatMap fun
    | .pipe2 _ => []
    | .splice _ data => data

section Received

variable {s s' : State}

@[simp] theorem drain_received (remaining : Nat) : (drain s remaining).received = s.received := by
  unfold drain
  split
  · rfl
  · rfl

theorem step_received {e : Event} (h : Inv s) (hs : step s e = some s') :
    s'.received = s.received ++ splicedIn [e] := by
  have hcounted := h.counted
  unfold Counted at hcounted
  cases e with
  | pipe2 res =>
    simp only [step] at hs
    split at hs
    · split at hs
      · cases hs
        simp [splicedIn]
      · cases hs
        simp [splicedIn, loop]
    · cases hs
  | splice res data =>
    simp only [step] at hs
    split at hs
    · rename_i op hplace
      rw [hplace] at hcounted
      obtain ⟨rfl, -⟩ := hcounted
      split at hs
      · split at hs
        · cases hs
          simp [splicedIn, transfer, done]
        · cases hs
          simp [splicedIn, transfer]
      · cases hs
    · rename_i op remaining hplace
      rw [hplace] at hcounted
      obtain ⟨rfl, -⟩ := hcounted
      split at hs
      · rename_i hk
        -- nothing is read from the socket
        obtain rfl : data = [] := List.eq_nil_of_length_eq_zero hk.2
        split at hs
        · cases hs
          simp [splicedIn, transfer, done]
        · cases hs
          simp [splicedIn, transfer]
      · cases hs
    · cases hs

theorem run_inv {es : List Event} (h : clientHandler.run es = some s) :
    Inv s ∧ s.received = splicedIn es := by
  have hinit : Inv clientHandler.init := ⟨rfl, rfl, rfl, rfl⟩
  refine Machine.run_inv_hist (I := fun es s => Inv s ∧ s.received = splicedIn es)
    ⟨hinit, rfl⟩ (fun es s e s' hi hs => ⟨step_inv hi.1 hs, ?_⟩) h
  rw [step_received hi.1 hs, hi.2]
  simp [splicedIn]

end Received

/-- What holds after every run. -/
structure Echoes (es : List Event) (s : State) : Prop where
  /-- The pipe is empty at a splice from the socket. -/
  toPipe : ∀ op, s.place = .toPipe op → op.fdIn = .fd ∧ op.fdOut = .pipeWrite ∧ s.pipe = []
  /-- The pipe holds exactly the bytes that a splice to the socket asks for. -/
  fromPipe : ∀ op remaining, s.place = .fromPipe op remaining → op.fdIn = .pipeRead ∧
    op.fdOut = .fd ∧ op.len = remaining ∧ s.pipe.length = remaining
  echo : s.sent <+: splicedIn es
  running : s.place ≠ .returned → s.closed = []
  returned : s.place = .returned → ∀ d, s.closed.count d = if d ∈ s.owned then 1 else 0

/-- **The splice echo**: the counter of the handler is what is in the pipe, what is sent back is a
prefix of what has come in, and every descriptor that was opened is closed exactly once. -/
theorem splice_echo (es : List Event) (s : State) (h : clientHandler.run es = some s) :
    Echoes es s := by
  obtain ⟨⟨hcounted, hbytes, hcloses⟩, hreceived⟩ := run_inv h
  unfold Counted at hcounted
  unfold Closes at hcloses
  constructor
  case toPipe =>
    intro op hplace
    rw [hplace] at hcounted
    obtain ⟨rfl, hpipe⟩ := hcounted
    exact ⟨rfl, rfl, hpipe⟩
  case fromPipe =>
    intro op remaining hplace
    rw [hplace] at hcounted
    obtain ⟨rfl, -, hpipe⟩ := hcounted
    exact ⟨rfl, rfl, rfl, hpipe⟩
  case echo =>
    rw [← hreceived, hbytes]
    exact List.prefix_append _ _
  case running =>
    intro hplace
    split at hcloses
    · exact hcloses.2
    · exact hcloses.2
    · exact hcloses.2
    · rename_i hret
      exact absurd hret hplace
  case returned =>
    intro hplace d
    rw [hplace] at hcloses
    obtain ⟨hperm, hnodup⟩ := hcloses
    rw [hperm.count_eq]
    exact hnodup.count

/-- Five bytes in, two and three out, and an error on the next splice. -/
theorem splice_echo_partial : ∃ s : State,
    clientHandler.run [.pipe2 0, .splice 5 [1, 2, 3, 4, 5], .splice 2 [], .splice 3 [],
      .splice (-104) []] = some s ∧
    s.sent = [1, 2, 3, 4, 5] ∧ s.closed = [.pipeRead, .pipeWrite, .fd] ∧
    Echoes [.pipe2 0, .splice 5 [1, 2, 3, 4, 5], .splice 2 [], .splice 3 [], .splice (-104) []] s :=
  ⟨_, rfl, rfl, rfl, splice_echo _ _ rfl⟩

end AdvCpp.Uring.SpliceEcho
