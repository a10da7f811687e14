import AdvCpp.Lib.Exclusive
import AdvCpp.Lib.Machine
import AdvCpp.Uring.Net
import Mathlib.Algebra.Ring.Int.Defs
import Mathlib.Data.List.Basic

/-!
# The ring, the sockets and an event-loop program

What the echo servers share: submissions are queued by the program, submitted in order, executed
by the kernel in any order and with any result the operation allows, and their completions are
handed back in any order.  A `Program` answers a completion (`user_data` and result) by queueing
submissions and closing descriptors.  A descriptor number is resolved to the connection behind it
when the submission reaches the kernel; a closed number may be given out again.

* `machine` — a program together with the kernel.
* `Wf` — queued and submitted operations, kept by every program.
-/

namespace AdvCpp.Uring

open AdvCpp.Lib

/-! ## Submissions -/

def ECANCELED : Int := 125

/-- What is asked of the kernel; `buf` is the buffer, `off` the offset into it. -/
inductive Prep (β : Type) where
  | accept
  | recv (buf : β) (off len : Nat)
  | send (buf : β) (off len : Nat)
  | poll
  | cancelFd
  deriving DecidableEq

def Prep.isCancel {β : Type} : Prep β → Bool
  | .cancelFd => true
  | _ => false

/-- The request without the identity of the buffer. -/
def Prep.erase {β : Type} : Prep β → Prep Unit
  | .accept => .accept
  | .recv _ off len => .recv () off len
  | .send _ off len => .send () off len
  | .poll => .poll
  | .cancelFd => .cancelFd

structure Sqe (β δ : Type) where
  fd : Int
  prep : Prep β
  userData : δ
  deriving DecidableEq

/-- What a program does while it handles a completion, in order. -/
inductive Act (β δ : Type) where
  | queue (q : Sqe β δ)
  | close (fd : Int)
  deriving DecidableEq

/-- Prepared but not submitted, in the kernel's hands with the file its descriptor named at
submission, or executed with the completion not yet handled. -/
inductive Phase where
  | queued
  | armed (file : Option Nat)
  | done (res : Int)
  deriving DecidableEq

structure Op (β δ : Type) where
  sqe : Sqe β δ
  phase : Phase
  deriving DecidableEq

/-- The calls of a program, as an observer sees them. -/
inductive Call where
  | queue (fd : Int) (prep : Prep Unit)
  | close (fd : Int)
  deriving DecidableEq

/-- Operations under the number of their submission, of which the first `submitted` have reached
the kernel.  `log` records the calls. -/
structure Kernel (β δ : Type) where
  ops : Nat → Option (Op β δ)
  nextOp : Nat
  submitted : Nat
  net : Net
  log : List Call

/-- A program driven by completions: its state, what it does before the first completion, how it
handles one, and its buffers. -/
structure Program (σ β δ : Type) where
  start : σ × List (Act β δ)
  handle : σ → δ → Int → σ × List (Act β δ)
  load : σ → β → Nat → Nat → List UInt8
  store : σ → β → Nat → List UInt8 → σ

structure State (σ β δ : Type) where
  app : σ
  kern : Kernel β δ

/-- `submit`: the next queued submission reaches the kernel.  `exec`: the kernel executes an
operation, with the data received.  `complete`: the program handles the completion. -/
inductive Ev where
  | submit
  | exec (k : Nat) (res : Int) (data : List UInt8)
  | complete (k : Nat)
  deriving DecidableEq

section Step

variable {σ β δ : Type}

def Kernel.perform (K : Kernel β δ) : Act β δ → Kernel β δ
  | .queue q =>
    { K with
      ops := Function.update K.ops K.nextOp (some ⟨q, .queued⟩), nextOp := K.nextOp + 1
      log := K.log ++ [.queue q.fd q.prep.erase] }
  | .close fd => { K with net := K.net.close fd, log := K.log ++ [.close fd] }

def Kernel.performAll (K : Kernel β δ) (acts : List (Act β δ)) : Kernel β δ :=
  acts.foldl Kernel.perform K

/-- `IORING_ASYNC_CANCEL_ALL` on the file a descriptor names. -/
def Op.cancel (file : Option Nat) (o : Op β δ) : Op β δ :=
  match o.phase with
  | .armed (some c) =>
    if file = some c ∧ !o.sqe.prep.isCancel then { o with phase := .done (-ECANCELED) } else o
  | _ => o

/-- A submission reaches the kernel; a cancel request takes effect at once. -/
def Kernel.submit (K : Kernel β δ) : Option (Kernel β δ) :=
  match K.ops K.submitted with
  | some ⟨q, .queued⟩ =>
    let file := K.net.fds q.fd
    let ops := if q.prep.isCancel then fun k => (K.ops k).map (Op.cancel file) else K.ops
    some
      { K with
        ops := Function.update ops K.submitted (some ⟨q, .armed file⟩)
        submitted := K.submitted + 1 }
  | _ => none

/-- The results the kernel may give.  An accepted connection gets a number that is not open; a
receive returns at most `len` bytes (none at the end of the stream), a send accepts at most
`len`; without a file there is only an error. -/
def KernelMay (n : Net) (q : Sqe β δ) (file : Option Nat) (res : Int) (data : List UInt8) : Prop :=
  match file, q.prep with
  | none, _ => res < 0 ∧ data = []
  | some _, .accept => data = [] ∧ (res < 0 ∨ (n.fds res = none ∧ res < 2 ^ 31))
  | some _, .recv _ _ len => (res < 0 ∧ data = []) ∨ (res = data.length ∧ data.length ≤ len)
  | some _, .send _ _ len => res ≤ len ∧ data = []
  | some _, _ => data = []

instance (n : Net) (q : Sqe β δ) (file : Option Nat) (res : Int) (data : List UInt8) :
    Decidable (KernelMay n q file res data) := by
  unfold KernelMay
  exact match file, q.prep with
    | none, _ => inferInstance
    | some _, .accept => inferInstance
    | some _, .recv _ _ _ => inferInstance
    | some _, .send _ _ _ => inferInstance
    | some _, .poll => inferInstance
    | some _, .cancelFd => inferInstance

/-- What an executed operation does to the connections and the program's buffers. -/
def transfer (P : Program σ β δ) (s : State σ β δ) (q : Sqe β δ) (file : Option Nat) (res : Int)
    (data : List UInt8) : State σ β δ :=
  match file, q.prep with
  | some _, .accept =>
    if 0 ≤ res then { s with kern := { s.kern with net := s.kern.net.accept res } } else s
  | some c, .recv b off _ =>
    { app := P.store s.app b off data, kern := { s.kern with net := s.kern.net.receive c data } }
  | some c, .send b off _ =>
    { s with kern := { s.kern with net := s.kern.net.transmit c (P.load s.app b off res.toNat) } }
  | _, _ => s

def Kernel.setOp (K : Kernel β δ) (k : Nat) (o : Option (Op β δ)) : Kernel β δ :=
  { K with ops := Function.update K.ops k o }

def step (P : Program σ β δ) (s : State σ β δ) : Ev → Option (State σ β δ)
  | .submit => s.kern.submit.map fun K => { s with kern := K }
  | .exec k res data =>
    match s.kern.ops k with
    | some ⟨q, .armed file⟩ =>
      if KernelMay s.kern.net q file res data then
        some (transfer P { s with kern := s.kern.setOp k (some ⟨q, .done res⟩) } q file res data)
      else none
    | _ => none
  | .complete k =>
    match s.kern.ops k with
    | some ⟨q, .done res⟩ =>
      let r := P.handle s.app q.userData res
      some ⟨r.1, (s.kern.setOp k none).performAll r.2⟩
    | _ => none

/-- The kernel before the program runs; `fds` are the descriptors it has opened. -/
def Kernel.init (fds : List Int) : Kernel β δ := ⟨fun _ => none, 0, 0, Net.init fds, []⟩

/-- A program with the descriptors `fds` open, run by the kernel. -/
def machine (P : Program σ β δ) (fds : List Int) : Machine (State σ β δ) Ev :=
  ⟨⟨P.start.1, (Kernel.init fds).performAll P.start.2⟩, step P⟩

/-! ## Steps -/

section Events

variable {P : Program σ β δ} {s : State σ β δ} {k : Nat} {res : Int} {data : List UInt8}

theorem step_exec {q : Sqe β δ} {file : Option Nat} (hk : s.kern.ops k = some ⟨q, .armed file⟩) :
    step P s (.exec k res data) =
      if KernelMay s.kern.net q file res data then
        some (transfer P { s with kern := s.kern.setOp k (some ⟨q, .done res⟩) } q file res data)
      else none := by
  simp [step, hk]

theorem step_exec_eq_none (hk : ∀ q file, s.kern.ops k ≠ some ⟨q, .armed file⟩) :
    step P s (.exec k res data) = none := by
  simp only [step]

theorem step_complete {q : Sqe β δ} (hk : s.kern.ops k = some ⟨q, .done res⟩) :
    step P s (.complete k) =
      some ⟨(P.handle s.app q.userData res).1,
        (s.kern.setOp k none).performAll (P.handle s.app q.userData res).2⟩ := by
  simp [step, hk]

theorem step_complete_eq_none (hk : ∀ q res, s.kern.ops k ≠ some ⟨q, .done res⟩) :
    step P s (.complete k) = none := by
  simp only [step]

end Events

@[simp] theorem transfer_ops (P : Program σ β δ) (s : State σ β δ) (q : Sqe β δ)
    (file : Option Nat) (res : Int) (data : List UInt8) :
    (transfer P s q file res data).kern.ops = s.kern.ops := by
  unfold transfer
  split
  · split <;> rfl
  all_goals rfl

theorem transfer_counters (P : Program σ β δ) (s : State σ β δ) (q : Sqe β δ)
    (file : Option Nat) (res : Int) (data : List UInt8) :
    (transfer P s q file res data).kern.nextOp = s.kern.nextOp ∧
      (transfer P s q file res data).kern.submitted = s.kern.submitted := by
  unfold transfer
  split
  · split <;> exact ⟨rfl, rfl⟩
  all_goals exact ⟨rfl, rfl⟩

theorem Op.cancel_armed {q : Sqe β δ} {c : Nat} (hq : q.prep.isCancel = false) :
    Op.cancel (some c) ⟨q, .armed (some c)⟩ = ⟨q, .done (-ECANCELED)⟩ := by
  simp [Op.cancel, hq]

/-! ## Queueing several submissions -/

theorem Kernel.performAll_append (K : Kernel β δ) (as bs : List (Act β δ)) :
    K.performAll (as ++ bs) = (K.performAll as).performAll bs :=
  List.foldl_append

/-- The table after several submissions have been queued. -/
theorem Kernel.performAll_queue_ops (qs : List (Sqe β δ)) (K : Kernel β δ) (k : Nat) :
    (K.performAll (qs.map .queue)).ops k =
      if k < K.nextOp then K.ops k
      else match qs[k - K.nextOp]? with
        | some q => some ⟨q, .queued⟩
        | none => K.ops k := by
  induction qs generalizing K with
  | nil => simp [performAll]
  | cons q qs ih =>
    have hrec := ih (K.perform (.queue q))
    simp only [performAll, List.map_cons, List.foldl_cons] at hrec ⊢
    rw [hrec]
    simp only [perform]
    rcases Nat.lt_trichotomy k K.nextOp with hlt | rfl | hgt
    · simp [Nat.lt_succ_of_lt hlt, hlt, Function.update_of_ne (Nat.ne_of_lt hlt)]
    · simp
    · obtain ⟨m, rfl⟩ := Nat.exists_eq_add_of_lt hgt
      have h1 : K.nextOp + m + 1 - (K.nextOp + 1) = m := by omega
      have h2 : K.nextOp + m + 1 - K.nextOp = m + 1 := by omega
      have h3 : ¬K.nextOp + m + 1 < K.nextOp + 1 := by omega
      have h4 : ¬K.nextOp + m + 1 < K.nextOp := by omega
      simp only [h1, h2, h3, h4, if_false, List.getElem?_cons_succ,
        Function.update_of_ne (Nat.ne_of_gt hgt)]

/-- Queued submissions get numbers of their own. -/
theorem Kernel.performAll_ops_lt {acts : List (Act β δ)} {K : Kernel β δ} {k : Nat}
    (hk : k < K.nextOp) : (K.performAll acts).ops k = K.ops k := by
  induction acts generalizing K with
  | nil => rfl
  | cons a acts ih =>
    cases a with
    | queue q =>
      refine (ih (K := K.perform (.queue q)) (Nat.lt_succ_of_lt hk)).trans ?_
      exact Function.update_of_ne (Nat.ne_of_lt hk) _ _
    | close fd => exact ih (K := K.perform (.close fd)) hk

/-! ## What every program keeps -/

/-- The operations from `submitted` on are queued and the others are not; a file that an
operation is armed on exists. -/
structure Kernel.Wf (K : Kernel β δ) : Prop where
  net : K.net.Ok
  fresh : ∀ k, K.nextOp ≤ k → K.ops k = none
  submitted_le : K.submitted ≤ K.nextOp
  queued_iff : ∀ k o, K.ops k = some o → (o.phase = .queued ↔ K.submitted ≤ k)
  armed_lt : ∀ k o, K.ops k = some o → ∀ c, o.phase = .armed (some c) → c < K.net.next

theorem Kernel.init_wf (fds : List Int) : (Kernel.init fds : Kernel β δ).Wf where
  net := Net.init_ok fds
  fresh := fun _ _ => rfl
  submitted_le := Nat.le_refl _
  queued_iff := by rintro _ _ ⟨⟩
  armed_lt := by rintro _ _ ⟨⟩

theorem Kernel.Wf.perform {K : Kernel β δ} (h : K.Wf) (a : Act β δ) : (K.perform a).Wf := by
  cases a with
  | queue q =>
    refine
      { net := h.net
        fresh := fun k hk => ?_
        submitted_le := Nat.le_succ_of_le h.submitted_le
        queued_iff := forall_update ?_ fun k' o _ => h.queued_iff k' o
        armed_lt := forall_update ?_ fun k' o _ => h.armed_lt k' o }
    · have hne : k ≠ K.nextOp := Nat.ne_of_gt hk
      exact (Function.update_of_ne hne _ _).trans (h.fresh k (Nat.le_of_succ_le hk))
    · rintro o ⟨⟩
      exact iff_of_true rfl h.submitted_le
    · rintro o ⟨⟩ c ⟨⟩
  | close fd =>
    exact
      { net := h.net.close fd, fresh := h.fresh, submitted_le := h.submitted_le
        queued_iff := h.queued_iff, armed_lt := h.armed_lt }

theorem Kernel.Wf.performAll {K : Kernel β δ} (h : K.Wf) (acts : List (Act β δ)) :
    (K.performAll acts).Wf := by
  induction acts generalizing K with
  | nil => exact h
  | cons a acts ih => exact ih (h.perform a)

theorem Kernel.Wf.lt {K : Kernel β δ} (h : K.Wf) {k : Nat} {o : Op β δ} (hk : K.ops k = some o) :
    k < K.nextOp := by
  rcases Nat.lt_or_ge k K.nextOp with hlt | hge
  · exact hlt
  · rw [h.fresh k hge] at hk
    cases hk

theorem Kernel.Wf.setNet {K : Kernel β δ} (h : K.Wf) {n : Net} (hn : n.Ok)
    (hle : K.net.next ≤ n.next) : ({ K with net := n } : Kernel β δ).Wf :=
  { net := hn, fresh := h.fresh, submitted_le := h.submitted_le, queued_iff := h.queued_iff
    armed_lt := fun k o hk c hc => Nat.lt_of_lt_of_le (h.armed_lt k o hk c hc) hle }

theorem Kernel.Wf.remove {K : Kernel β δ} (h : K.Wf) (k : Nat) : (K.setOp k none).Wf where
  net := h.net
  fresh := fun k' hk' => by
    by_cases he : k' = k
    · simp only [Kernel.setOp, he, Function.update_self]
    · exact (Function.update_of_ne he _ _).trans (h.fresh k' hk')
  submitted_le := h.submitted_le
  queued_iff := forall_update (by rintro _ ⟨⟩) fun k' o _ => h.queued_iff k' o
  armed_lt := forall_update (by rintro _ ⟨⟩) fun k' o _ => h.armed_lt k' o

/-- The kernel executes an operation. -/
theorem Kernel.Wf.finish {K : Kernel β δ} (h : K.Wf) {k : Nat} {q : Sqe β δ} {file : Option Nat}
    (hk : K.ops k = some ⟨q, .armed file⟩) (res : Int) : (K.setOp k (some ⟨q, .done res⟩)).Wf where
  net := h.net
  fresh := fun k' hk' => by
    have hne : k' ≠ k := Nat.ne_of_gt (Nat.lt_of_lt_of_le (h.lt hk) hk')
    exact (Function.update_of_ne hne _ _).trans (h.fresh k' hk')
  submitted_le := h.submitted_le
  queued_iff := by
    refine forall_update ?_ fun k' o _ => h.queued_iff k' o
    rintro _ ⟨⟩
    have hlt : ¬K.submitted ≤ k := by simpa using h.queued_iff k _ hk
    exact iff_of_false (by rintro ⟨⟩) hlt
  armed_lt := forall_update (by rintro _ ⟨⟩ c ⟨⟩) fun k' o _ => h.armed_lt k' o

@[simp] theorem Op.cancel_sqe (file : Option Nat) (o : Op β δ) : (o.cancel file).sqe = o.sqe := by
  unfold Op.cancel; split
  · split <;> rfl
  · rfl

/-- A cancel request leaves an operation alone or completes it with `-ECANCELED`. -/
theorem Op.cancel_phase (file : Option Nat) (o : Op β δ) :
    o.cancel file = o ∨ ((∃ c, o.phase = .armed (some c)) ∧
      o.cancel file = { o with phase := .done (-ECANCELED) }) := by
  unfold Op.cancel; split
  · rename_i c hc
    split
    · exact Or.inr ⟨⟨c, hc⟩, rfl⟩
    · exact Or.inl rfl
  · exact Or.inl rfl

/-- What submitting does to an operation: the next queued one is armed, and the others may be
cancelled if that one is a cancel request. -/
theorem Kernel.submit_ops {K K' : Kernel β δ} (h : K.submit = some K') :
    ∃ q, K.ops K.submitted = some ⟨q, .queued⟩ ∧
      K' = { K with ops := K'.ops, submitted := K.submitted + 1 } ∧
      K'.ops K.submitted = some ⟨q, .armed (K.net.fds q.fd)⟩ ∧
      ∀ k, k ≠ K.submitted →
        K'.ops k = if q.prep.isCancel then (K.ops k).map (Op.cancel (K.net.fds q.fd)) else K.ops k := by
  unfold Kernel.submit at h
  split at h
  · rename_i q hq
    cases h
    refine ⟨q, hq, rfl, Function.update_self .., fun k hk => ?_⟩
    simp only [Function.update_of_ne hk]
    split <;> rfl
  · cases h

/-- Submitting anything but a cancel request. -/
theorem Kernel.submit_of_queued {K : Kernel β δ} {q : Sqe β δ}
    (hq : K.ops K.submitted = some ⟨q, .queued⟩) (hc : q.prep.isCancel = false) :
    K.submit = some
      { K with
        ops := Function.update K.ops K.submitted (some ⟨q, .armed (K.net.fds q.fd)⟩)
        submitted := K.submitted + 1 } := by
  simp [Kernel.submit, hq, hc]

theorem Kernel.submit_eq_none {K : Kernel β δ} (h : ∀ q, K.ops K.submitted ≠ some ⟨q, .queued⟩) :
    K.submit = none := by
  unfold Kernel.submit
  split
  · rename_i q hq
    exact absurd hq (h q)
  · rfl

theorem Kernel.Wf.submit {K K' : Kernel β δ} (h : K.Wf) (hs : K.submit = some K') : K'.Wf := by
  obtain ⟨q, hq, hK, hself, hother⟩ := Kernel.submit_ops hs
  have hlt := h.lt hq
  -- an operation after the step comes from one before it
  have hold : ∀ k o, K'.ops k = some o → k ≠ K.submitted →
      ∃ o', K.ops k = some o' ∧ (o = o' ∨
        ((∃ c, o'.phase = .armed (some c)) ∧ o = { o' with phase := .done (-ECANCELED) })) := by
    intro k o hk hne
    rw [hother k hne] at hk
    split at hk
    · obtain ⟨o', ho', rfl⟩ := Option.map_eq_some_iff.1 hk
      exact ⟨o', ho', o'.cancel_phase _⟩
    · exact ⟨o, hk, Or.inl rfl⟩
  rw [hK]
  refine
    { net := h.net, fresh := fun k hk => ?_, submitted_le := hlt
      queued_iff := fun k o hk => ?_, armed_lt := fun k o hk c hc => ?_ }
  · have hne : k ≠ K.submitted := Nat.ne_of_gt (Nat.lt_of_lt_of_le hlt hk)
    show K'.ops k = none
    rw [hother k hne, h.fresh k hk]
    simp
  · by_cases hne : k = K.submitted
    · subst hne
      have : o = ⟨q, .armed (K.net.fds q.fd)⟩ := Option.some.inj (hk.symm.trans hself)
      subst this
      simp
    · obtain ⟨o', ho', rfl | ⟨⟨c, hc⟩, rfl⟩⟩ := hold k o hk hne
      · have hstep : K.submitted ≤ k ↔ K.submitted + 1 ≤ k :=
          ⟨fun hle => Nat.lt_of_le_of_ne hle (Ne.symm hne), Nat.le_of_succ_le⟩
        exact (h.queued_iff k o ho').trans hstep
      · have := h.queued_iff k o' ho'
        rw [hc] at this
        have hlt' : ¬K.submitted ≤ k := by simpa using this
        exact iff_of_false (by rintro ⟨⟩) fun hle => hlt' (Nat.le_of_succ_le hle)
  · by_cases hne : k = K.submitted
    · subst hne
      have : o = ⟨q, .armed (K.net.fds q.fd)⟩ := Option.some.inj (hk.symm.trans hself)
      subst this
      simp only [Phase.armed.injEq] at hc
      exact h.net.lt hc
    · obtain ⟨o', ho', rfl | ⟨-, rfl⟩⟩ := hold k o hk hne
      · exact h.armed_lt k o ho' c hc
      · cases hc

/-- **Every program keeps the table of operations well formed.** -/
theorem step_wf {P : Program σ β δ} {s s' : State σ β δ} {e : Ev} (h : s.kern.Wf)
    (hs : step P s e = some s') : s'.kern.Wf := by
  cases e with
  | submit =>
    obtain ⟨K, hK, rfl⟩ := Option.map_eq_some_iff.1 hs
    exact h.submit hK
  | exec k res data =>
    simp only [step] at hs
    split at hs
    · rename_i q file hk
      split at hs
      · cases hs
        have hfin := h.finish hk res
        unfold transfer
        split
        · split
          · exact hfin.setNet (h.net.accept res) (Nat.le_succ _)
          · exact hfin
        · exact hfin.setNet (h.net.receive (h.armed_lt k _ hk _ rfl) data) (Nat.le_refl _)
        · exact hfin.setNet (h.net.transmit (h.armed_lt k _ hk _ rfl) _) (Nat.le_refl _)
        · exact hfin
      · cases hs
    · cases hs
  | complete k =>
    simp only [step] at hs
    split at hs
    · cases hs
      exact (h.remove k).performAll _
    · cases hs

theorem machine_wf (P : Program σ β δ) (fds : List Int) : (machine P fds).init.kern.Wf :=
  (Kernel.init_wf fds).performAll _

/-- A submitted operation is armed on the file its descriptor still names. -/
def Bound (net : Net) (fd : Int) : Phase → Prop
  | .armed file => file = net.fds fd
  | _ => True

theorem Bound.frame {net net' : Net} {fd : Int} {ph : Phase} (h : Bound net fd ph)
    (hf : net'.fds fd = net.fds fd) : Bound net' fd ph := by
  cases ph with
  | armed file => exact h.trans hf.symm
  | _ => trivial

end Step

end AdvCpp.Uring
