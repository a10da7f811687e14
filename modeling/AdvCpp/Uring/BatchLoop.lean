import AdvCpp.Uring.EchoServer
import Mathlib.Data.List.Nodup

/-!
# Batches and the submission queue

The event loop of `07_echo_server.cpp` with the slots of its ring: `submit_and_wait` frees the
submission slots, the completions that are ready then are handled one after another, and
`Ring::get_sqe` throws when no slot is left.  `Uring.EchoServer` is the same server with a queue
that is never full.

* `machine` — the loop over batches.
* `Inv` — the slots in use are those that the batch has asked for so far.
* `batches_iff` — when load alone terminates the server.
-/

namespace AdvCpp.Uring.BatchLoop

open AdvCpp.Lib EchoServer

/-- `Ring ring(4096)`: submission and completion slots. -/
def SQ_ENTRIES : Nat := 4096
def CQ_ENTRIES : Nat := 8192

abbrev Server := Uring.State Clients Int (BitVec 64)

abbrev ServerKernel := Kernel Int (BitVec 64)

/-- The submission slots that are in use. -/
def sqUsed (K : ServerKernel) : Nat := K.nextOp - K.submitted

/-- The calls of `handle_cqe` with `Ring::get_sqe`; `none` is its exception. -/
def handleAll (K : ServerKernel) : List (Act Int (BitVec 64)) → Option ServerKernel
  | [] => some K
  | .queue q :: acts =>
    if sqUsed K < SQ_ENTRIES then handleAll (K.perform (.queue q)) acts else none
  | .close fd :: acts => handleAll (K.perform (.close fd)) acts

/-- Inside `submit_and_wait`, in the loop over the completions `ready`, or after an exception. -/
inductive Pc where
  | wait
  | batch (ready : List Nat)
  | failed
  deriving DecidableEq

/-- `handled` records the completions taken from the current batch. -/
structure State where
  server : Server
  pc : Pc
  handled : List (BitVec 64 × Int)

/-- `kernel`: submission or execution of a request.  `ready`: `submit_and_wait` returns with these
completions in the ring.  `handle`: the next turn of the loop over them. -/
inductive Ev where
  | kernel (e : Uring.Ev)
  | ready (ks : List Nat)
  | handle
  deriving DecidableEq

/-- The completion of request `k`, if it is in the ring. -/
def completion (K : ServerKernel) (k : Nat) : Option (BitVec 64 × Int) :=
  match K.ops k with
  | some ⟨q, .done res⟩ => some (q.userData, res)
  | _ => none

/-- What the kernel does, and when: requests are submitted in `submit_and_wait` only. -/
def KernelTurn (pc : Pc) : Uring.Ev → Prop
  | .submit => pc = .wait
  | .exec .. => pc ≠ .failed
  | .complete _ => False

instance (pc : Pc) (e : Uring.Ev) : Decidable (KernelTurn pc e) := by
  unfold KernelTurn
  split <;> exact inferInstance

/-- One turn of the loop over the completions. -/
def handleStep (listenFd : Int) (s : State) : Option State :=
  match s.pc with
  | .batch [] => some { s with pc := .wait }
  | .batch (k :: ks) =>
    match completion s.server.kern k with
    | none => none
    | some (ud, res) =>
      let r := (program listenFd).handle s.server.app ud res
      match handleAll (s.server.kern.setOp k none) r.2 with
      | some K => some ⟨⟨r.1, K⟩, .batch ks, s.handled ++ [(ud, res)]⟩
      | none => some { s with pc := .failed, handled := s.handled ++ [(ud, res)] }
  | _ => none

def step (listenFd : Int) (s : State) : Ev → Option State
  | .kernel e =>
    if KernelTurn s.pc e then
      (Uring.step (program listenFd) s.server e).map fun server => { s with server := server }
    else none
  | .ready ks =>
    if s.pc = .wait ∧ sqUsed s.server.kern = 0 ∧ ks ≠ [] ∧ ks.length ≤ CQ_ENTRIES ∧ ks.Nodup ∧
        ∀ k ∈ ks, completion s.server.kern k ≠ none then
      some { s with pc := .batch ks, handled := [] }
    else none
  | .handle => handleStep listenFd s

/-- The server with its ring, from its first accept on. -/
def machine (listenFd : Int) : Machine State Ev :=
  ⟨⟨(echoServer listenFd).init, .wait, []⟩, step listenFd⟩

/-! ## What a batch asks for -/

/-- The requests that `handle_cqe` queues for a completion. -/
def demand (c : BitVec 64 × Int) : Nat :=
  if decodeOp c.1 = OP_ACCEPT then if 0 ≤ c.2 then 2 else 1
  else if 0 < c.2 then 1 else 0

def demandAll (cs : List (BitVec 64 × Int)) : Nat := (cs.map demand).sum

/-- The completion that is handled next. -/
def State.next (s : State) : List (BitVec 64 × Int) :=
  match s.pc with
  | .batch (k :: _) => (completion s.server.kern k).toList
  | _ => []

/-- The completions of the batch, up to the one that is handled next, ask for no more requests than
the ring has slots. -/
def BatchFits (s : State) : Ev → Prop
  | .handle => demandAll (s.handled ++ s.next) ≤ SQ_ENTRIES
  | _ => True

instance (s : State) (e : Ev) : Decidable (BatchFits s e) := by
  unfold BatchFits
  split <;> exact inferInstance

/-! ## The slots in use -/

section Slots

variable {listenFd : Int} {K : ServerKernel} {s s' : State}

/-- The requests among the calls. -/
def queues : List (Act Int (BitVec 64)) → Nat
  | [] => 0
  | .queue _ :: acts => queues acts + 1
  | .close _ :: acts => queues acts

theorem sqUsed_queue (h : K.submitted ≤ K.nextOp) (q : Sqe Int (BitVec 64)) :
    sqUsed (K.perform (.queue q)) = sqUsed K + 1 := by
  show K.nextOp + 1 - K.submitted = K.nextOp - K.submitted + 1
  omega

theorem sqUsed_performAll (h : K.submitted ≤ K.nextOp) (acts : List (Act Int (BitVec 64))) :
    sqUsed (K.performAll acts) = sqUsed K + queues acts := by
  induction acts generalizing K with
  | nil => rfl
  | cons a acts ih =>
    cases a with
    | queue q =>
      have hrec := ih (K := K.perform (.queue q)) (Nat.le_succ_of_le h)
      rw [sqUsed_queue h] at hrec
      show sqUsed ((K.perform (.queue q)).performAll acts) = sqUsed K + (queues acts + 1)
      omega
    | close fd => exact ih (K := K.perform (.close fd)) h

/-- `get_sqe` throws when the calls ask for more slots than are left. -/
theorem handleAll_eq (h : K.submitted ≤ K.nextOp) (hroom : sqUsed K ≤ SQ_ENTRIES)
    (acts : List (Act Int (BitVec 64))) : handleAll K acts =
      if sqUsed K + queues acts ≤ SQ_ENTRIES then some (K.performAll acts) else none := by
  induction acts generalizing K with
  | nil => exact (if_pos hroom).symm
  | cons a acts ih =>
    cases a with
    | queue q =>
      have hused := sqUsed_queue h q
      have hsum : sqUsed K + queues (.queue q :: acts) = sqUsed K + 1 + queues acts := by
        show sqUsed K + (queues acts + 1) = _
        omega
      rw [hsum, handleAll]
      by_cases hlt : sqUsed K < SQ_ENTRIES
      · rw [if_pos hlt, ih (K := K.perform (.queue q)) (Nat.le_succ_of_le h) (by omega), hused]
        rfl
      · rw [if_neg hlt, if_neg (by omega)]
    | close fd => exact ih (K := K.perform (.close fd)) h hroom

/-- What `handle_cqe` queues depends on the completion only. -/
theorem queues_handle (hl : IsFd listenFd) {server : Server} (h : EchoServer.Inv listenFd server)
    {k : Nat} {q : Sqe Int (BitVec 64)} {res : Int} (hk : server.kern.ops k = some ⟨q, .done res⟩) :
    queues ((program listenFd).handle server.app q.userData res).2 = demand (q.userData, res) := by
  have hok := h.ops k _ hk
  generalize ho : (⟨q, .done res⟩ : Op Int (BitVec 64)) = o at hok
  cases hok with
  | accept bound new =>
    cases ho
    have hop : decodeOp (acceptSqe listenFd).userData = OP_ACCEPT := decodeOp_encode isOp_accept hl
    rw [handle_accept hl, demand, if_pos hop]
    split <;> rfl
  | @recv fd c conn ph ok bound within sent rest =>
    cases ho
    have hop : decodeOp (recvSqe fd).userData = OP_RECV := decodeOp_encode isOp_recv ok.isFd
    have hne : OP_RECV ≠ OP_ACCEPT := by decide
    rw [handle_recv ok.isFd ok.client, demand, hop, if_neg hne]
    by_cases hres : res ≤ 0
    · rw [if_pos hres, if_neg (Int.not_lt.2 hres)]
      rfl
    · rw [if_neg hres, if_pos (Int.not_le.1 hres)]
      rfl
  | @send fd c conn ph ok bound within more len rest =>
    cases ho
    have hop : decodeOp (sendSqe fd c.sendOffset (c.sendLen - c.sendOffset)).userData = OP_SEND :=
      decodeOp_encode isOp_send ok.isFd
    have hne : OP_SEND ≠ OP_ACCEPT := by decide
    rw [handle_send ok.isFd ok.client, demand, hop, if_neg hne]
    by_cases hres : res ≤ 0
    · rw [if_pos hres, if_neg (Int.not_lt.2 hres)]
      rfl
    · rw [if_neg hres, if_pos (Int.not_le.1 hres)]
      split <;> rfl

/-- Inside a batch the slots in use are those that the batch has asked for. -/
structure Inv (listenFd : Int) (s : State) : Prop where
  server : EchoServer.Inv listenFd s.server
  alive : s.pc ≠ .failed
  room : sqUsed s.server.kern ≤ SQ_ENTRIES
  slots : ∀ ks, s.pc = .batch ks → sqUsed s.server.kern = demandAll s.handled

theorem demandAll_snoc (cs : List (BitVec 64 × Int)) (c : BitVec 64 × Int) :
    demandAll (cs ++ [c]) = demandAll cs + demand c := by
  simp [demandAll]

theorem completion_eq_some {k : Nat} {c : BitVec 64 × Int} (h : completion K k = some c) :
    ∃ q, K.ops k = some ⟨q, .done c.2⟩ ∧ q.userData = c.1 := by
  unfold completion at h
  split at h
  · rename_i q res hk
    cases h
    exact ⟨q, hk, rfl⟩
  · cases h

/-- **One turn of the loop**: the exception comes when the batch asks for one request too many. -/
theorem handleStep_eq {k : Nat} {ks : List Nat} {q : Sqe Int (BitVec 64)} {res : Int}
    (hl : IsFd listenFd) (h : Inv listenFd s) (hpc : s.pc = .batch (k :: ks))
    (hk : s.server.kern.ops k = some ⟨q, .done res⟩) :
    handleStep listenFd s = some
      (if demandAll (s.handled ++ [(q.userData, res)]) ≤ SQ_ENTRIES then
        ⟨⟨((program listenFd).handle s.server.app q.userData res).1,
          (s.server.kern.setOp k none).performAll
            ((program listenFd).handle s.server.app q.userData res).2⟩,
          .batch ks, s.handled ++ [(q.userData, res)]⟩
      else { s with pc := .failed, handled := s.handled ++ [(q.userData, res)] }) := by
  have hc : completion s.server.kern k = some (q.userData, res) := by
    simp only [completion, hk]
  have hall := handleAll_eq (K := s.server.kern.setOp k none) h.server.wf.submitted_le h.room
    ((program listenFd).handle s.server.app q.userData res).2
  have hused : sqUsed (s.server.kern.setOp k none) = demandAll s.handled := h.slots _ hpc
  rw [hused, queues_handle hl h.server hk, ← demandAll_snoc] at hall
  simp only [handleStep, hpc, hc, hall]
  split <;> rename_i heq <;> split at heq
  · cases heq
    rw [if_pos ‹_›]
  · cases heq
  · cases heq
  · rw [if_neg ‹_›]

/-- A turn that finds its slots. -/
theorem Inv.handled {k : Nat} {ks : List Nat} {q : Sqe Int (BitVec 64)} {res : Int}
    (hl : IsFd listenFd) (h : Inv listenFd s) (hpc : s.pc = .batch (k :: ks))
    (hk : s.server.kern.ops k = some ⟨q, .done res⟩)
    (hfit : demandAll (s.handled ++ [(q.userData, res)]) ≤ SQ_ENTRIES) :
    Inv listenFd ⟨⟨((program listenFd).handle s.server.app q.userData res).1,
      (s.server.kern.setOp k none).performAll
        ((program listenFd).handle s.server.app q.userData res).2⟩,
      .batch ks, s.handled ++ [(q.userData, res)]⟩ := by
  have hused := sqUsed_performAll (K := s.server.kern.setOp k none) h.server.wf.submitted_le
    ((program listenFd).handle s.server.app q.userData res).2
  have hbefore : sqUsed (s.server.kern.setOp k none) = demandAll s.handled := h.slots _ hpc
  rw [hbefore, queues_handle hl h.server hk, ← demandAll_snoc] at hused
  exact ⟨EchoServer.step_inv hl h.server (step_complete hk), by rintro ⟨⟩, hused ▸ hfit,
    fun _ _ => hused⟩

theorem handleStep_inv (hl : IsFd listenFd) (h : Inv listenFd s)
    (hs : handleStep listenFd s = some s') :
    if demandAll (s.handled ++ s.next) ≤ SQ_ENTRIES then Inv listenFd s' else s'.pc = .failed := by
  cases hpc : s.pc with
  | wait => simp [handleStep, hpc] at hs
  | failed => exact absurd hpc h.alive
  | batch ready =>
    cases ready with
    | nil =>
      simp only [handleStep, hpc] at hs
      cases hs
      have hslots := h.slots [] hpc
      have hnext : s.next = [] := by simp only [State.next, hpc]
      rw [hnext, List.append_nil, if_pos (hslots ▸ h.room)]
      exact ⟨h.server, by rintro ⟨⟩, h.room, by rintro _ ⟨⟩⟩
    | cons k ks =>
      cases hc : completion s.server.kern k with
      | none => simp [handleStep, hpc, hc] at hs
      | some c =>
        obtain ⟨q, hk, hud⟩ := completion_eq_some hc
        have hnext : s.next = [(q.userData, c.2)] := by
          simp [State.next, hpc, hc, hud]
        rw [handleStep_eq hl h hpc hk] at hs
        cases hs
        rw [hnext]
        by_cases hfit : demandAll (s.handled ++ [(q.userData, c.2)]) ≤ SQ_ENTRIES
        · rw [if_pos hfit, if_pos hfit]
          exact h.handled hl hpc hk hfit
        · rw [if_neg hfit, if_neg hfit]

theorem step_inv (hl : IsFd listenFd) {e : Ev} (h : Inv listenFd s)
    (hs : step listenFd s e = some s') : if BatchFits s e then Inv listenFd s' else s'.pc = .failed := by
  cases e with
  | kernel e =>
    rw [if_pos (show BatchFits s (.kernel e) from trivial)]
    simp only [step] at hs
    split at hs
    · rename_i hturn
      obtain ⟨server, hserver, rfl⟩ := Option.map_eq_some_iff.1 hs
      have hinv := EchoServer.step_inv hl h.server hserver
      cases e with
      | submit =>
        obtain ⟨K, hK, rfl⟩ := Option.map_eq_some_iff.1 hserver
        obtain ⟨q, -, hrest, -⟩ := Kernel.submit_ops hK
        have hroom := h.room
        refine ⟨hinv, h.alive, ?_, fun ks hpc => ?_⟩
        · unfold sqUsed at hroom ⊢
          rw [hrest]
          show s.server.kern.nextOp - (s.server.kern.submitted + 1) ≤ SQ_ENTRIES
          omega
        · cases hpc.symm.trans hturn
      | exec k res data =>
        have hused : sqUsed server.kern = sqUsed s.server.kern := by
          simp only [Uring.step] at hserver
          split at hserver
          · split at hserver
            · cases hserver
              obtain ⟨hnext, hsubmitted⟩ := transfer_counters (program listenFd)
                { s.server with kern := s.server.kern.setOp k _ } _ _ res data
              unfold sqUsed
              rw [hnext, hsubmitted]
              rfl
            · cases hserver
          · cases hserver
        exact ⟨hinv, h.alive, hused ▸ h.room, fun ks hpc => hused ▸ h.slots ks hpc⟩
      | complete k => exact hturn.elim
    · cases hs
  | ready ks =>
    rw [if_pos (show BatchFits s (.ready ks) from trivial)]
    simp only [step] at hs
    split at hs
    · rename_i hready
      cases hs
      exact ⟨h.server, by rintro ⟨⟩, h.room, fun _ _ => hready.2.1⟩
    · cases hs
  | handle => exact handleStep_inv hl h hs

theorem init_inv (listenFd : Int) : Inv listenFd (machine listenFd).init :=
  ⟨EchoServer.init_inv, by rintro ⟨⟩, (by decide : 1 ≤ SQ_ENTRIES), by rintro _ ⟨⟩⟩

end Slots

/-- **When load alone terminates the server.**  In every run, with any number of clients and of
completions in a batch: `get_sqe` never throws exactly if the completions of no batch ask for more
than 4096 requests, an accepted connection for two, any other accept for one, and a receive or a
send for one if its result is positive. -/
theorem batches_iff {listenFd : Int} (hl : IsFd listenFd) {es : List Ev} {s : State}
    (hs : (machine listenFd).run es = some s) :
    (machine listenFd).Always (fun s => s.pc ≠ .failed) (machine listenFd).init es ↔
      (machine listenFd).Meets BatchFits (machine listenFd).init es := by
  refine Machine.always_iff_meets (I := Inv listenFd) (fun _ h => h.alive) ?_ ?_
    (init_inv listenFd) hs
  · intro s e s' h hstep hfit
    have hinv := step_inv hl h hstep
    rwa [if_pos hfit] at hinv
  · intro s e s' h hstep hfit
    have hfailed := step_inv hl h hstep
    rw [if_neg hfit] at hfailed
    exact fun hne => hne hfailed

/-- One client is accepted and its two bytes are echoed. -/
def oneClient : List Ev :=
  [.kernel .submit, .kernel (.exec 0 5 []), .ready [0], .handle, .handle, .kernel .submit,
    .kernel .submit, .kernel (.exec 1 2 [104, 105]), .ready [1], .handle, .handle, .kernel .submit,
    .kernel (.exec 3 2 [])]

theorem batches_oneClient :
    (machine 3).Always (fun s => s.pc ≠ .failed) (machine 3).init oneClient := by
  obtain ⟨s, hs⟩ : ∃ s, (machine 3).run oneClient = some s := ⟨_, rfl⟩
  exact (batches_iff (by unfold IsFd; decide) hs).2 (by decide +kernel)

/-! ## A crowd -/

section Crowd

variable {listenFd : Int} {s s' : State}

/-- The turns over completions that ask for one request each. -/
theorem exec_handles (hl : IsFd listenFd) (ks rest : List Nat) (h : Inv listenFd s)
    (hpc : s.pc = .batch (ks ++ rest)) (hnodup : (ks ++ rest).Nodup)
    (hdone : ∀ k ∈ ks ++ rest, ∃ q res, s.server.kern.ops k = some ⟨q, .done res⟩ ∧
      demand (q.userData, res) = 1)
    (hfit : demandAll s.handled + ks.length ≤ SQ_ENTRIES) :
    ∃ s', (machine listenFd).exec s (List.replicate ks.length .handle) = some s' ∧
      Inv listenFd s' ∧ s'.pc = .batch rest ∧
      demandAll s'.handled = demandAll s.handled + ks.length ∧
      ∀ k ∈ rest, s'.server.kern.ops k = s.server.kern.ops k := by
  induction ks generalizing s with
  | nil => exact ⟨s, rfl, h, hpc, rfl, fun _ _ => rfl⟩
  | cons k ks ih =>
    obtain ⟨q, res, hk, hdemand⟩ := hdone k List.mem_cons_self
    simp only [List.length_cons] at hfit
    have hhandled : demandAll (s.handled ++ [(q.userData, res)]) = demandAll s.handled + 1 := by
      rw [demandAll_snoc, hdemand]
    have hfits : demandAll (s.handled ++ [(q.userData, res)]) ≤ SQ_ENTRIES := by omega
    have hstep := handleStep_eq hl h hpc hk
    rw [if_pos hfits] at hstep
    have hsame : ∀ k' ∈ ks ++ rest, ((s.server.kern.setOp k none).performAll
        ((program listenFd).handle s.server.app q.userData res).2).ops k' =
          s.server.kern.ops k' := by
      intro k' hk'
      have hne : k' ≠ k := by
        rintro rfl
        exact (List.nodup_cons.1 hnodup).1 hk'
      obtain ⟨q', res', hdone', -⟩ := hdone k' (List.mem_cons_of_mem _ hk')
      refine (Kernel.performAll_ops_lt (K := s.server.kern.setOp k none)
        (h.server.wf.lt hdone')).trans ?_
      exact Function.update_of_ne hne _ _
    obtain ⟨s', hs', hinv, hpc', hsum, hrest⟩ := ih (h.handled hl hpc hk hfits) rfl
      (List.nodup_cons.1 hnodup).2
      (fun k' hk' => by
        obtain ⟨q', res', hdone', hdemand'⟩ := hdone k' (List.mem_cons_of_mem _ hk')
        exact ⟨q', res', (hsame k' hk').trans hdone', hdemand'⟩)
      (by show demandAll (s.handled ++ [(q.userData, res)]) + ks.length ≤ SQ_ENTRIES; omega)
    refine ⟨s', Machine.exec_cons.2 ⟨_, hstep, hs'⟩, hinv, hpc', ?_, fun k' hk' => ?_⟩
    · rw [hsum, hhandled, List.length_cons]
      omega
    · exact (hrest k' hk').trans (hsame k' (List.mem_append_right _ hk'))

/-- `n` clients are connected and the server waits for them. -/
structure Waiting (n : Nat) (s : State) : Prop where
  inv : Inv 3 s
  pc : s.pc = .wait
  nextOp : s.server.kern.nextOp = 2 * n + 1
  submitted : s.server.kern.submitted = 2 * n + 1
  accept : ∃ c, s.server.kern.ops (2 * n) = some ⟨acceptSqe 3, .armed (some c)⟩
  recv : ∀ i < n, ∃ c, s.server.kern.ops (2 * i + 1) = some ⟨recvSqe (4 + i), .armed (some c)⟩
  free : ∀ fd, 4 + (n : Int) ≤ fd → s.server.kern.net.fds fd = none

/-- The requests for client `n` and for the next accept are queued. -/
structure Greeted (n : Nat) (s : State) : Prop where
  inv : Inv 3 s
  pc : s.pc = .wait
  nextOp : s.server.kern.nextOp = 2 * n + 3
  submitted : s.server.kern.submitted = 2 * n + 1
  accept : s.server.kern.ops (2 * n + 2) = some ⟨acceptSqe 3, .queued⟩
  client : s.server.kern.ops (2 * n + 1) = some ⟨recvSqe (4 + n), .queued⟩
  recv : ∀ i < n, ∃ c, s.server.kern.ops (2 * i + 1) = some ⟨recvSqe (4 + i), .armed (some c)⟩
  file : s.server.kern.net.fds (4 + n) ≠ none
  free : ∀ fd, 4 + (n : Int) < fd → s.server.kern.net.fds fd = none

theorem isFd_listener : IsFd 3 := by
  unfold IsFd
  decide

/-- Client `n` connects. -/
def greet (n : Nat) : List Ev := [.kernel (.exec (2 * n) (4 + n) []), .ready [2 * n], .handle, .handle]

theorem exec_greet {n : Nat} (h : Waiting n s) (hn : n < 2 ^ 16) :
    ∃ s', (machine 3).exec s (greet n) = some s' ∧ Greeted n s' := by
  obtain ⟨c, hc⟩ := h.accept
  have hfree := h.free (4 + n) (Int.le_refl _)
  let K : ServerKernel :=
    { s.server.kern.setOp (2 * n) (some ⟨acceptSqe 3, .done (4 + n)⟩) with
      net := s.server.kern.net.accept (4 + n) }
  have hmay : KernelMay s.server.kern.net (acceptSqe 3) (some c) (4 + n) [] :=
    ⟨rfl, Or.inr ⟨hfree, by omega⟩⟩
  have h1 : step 3 s (.kernel (.exec (2 * n) (4 + n) [])) =
      some ⟨⟨s.server.app, K⟩, s.pc, s.handled⟩ := by
    have h0 : (0 : Int) ≤ 4 + n := by omega
    have hturn : KernelTurn s.pc (.exec (2 * n) (4 + n) []) := h.inv.alive
    simp only [step, if_pos hturn, step_exec hc, if_pos hmay, Option.map_some]
    simp only [transfer, acceptSqe, if_pos h0]
    rfl
  have i1 := step_inv isFd_listener h.inv h1
  rw [if_pos (show BatchFits s (.kernel _) from trivial)] at i1
  have hdone : K.ops (2 * n) = some ⟨acceptSqe 3, .done (4 + n)⟩ := Function.update_self ..
  have hempty : sqUsed K = 0 := by
    show s.server.kern.nextOp - s.server.kern.submitted = 0
    rw [h.nextOp, h.submitted]
    omega
  have h2 : step 3 ⟨⟨s.server.app, K⟩, s.pc, s.handled⟩ (.ready [2 * n]) =
      some ⟨⟨s.server.app, K⟩, .batch [2 * n], []⟩ := by
    simp [step, h.pc, hempty, completion, hdone, CQ_ENTRIES]
  have i2 := step_inv isFd_listener i1 h2
  rw [if_pos (show BatchFits _ (.ready _) from trivial)] at i2
  let fd : Int := 4 + n
  have hfd : 0 ≤ fd := by
    show (0 : Int) ≤ 4 + n
    omega
  have hfits : demandAll ([] ++ [((acceptSqe 3).userData, fd)]) ≤ SQ_ENTRIES := by
    have hop : decodeOp (acceptSqe 3).userData = OP_ACCEPT :=
      decodeOp_encode isOp_accept isFd_listener
    rw [demandAll_snoc, demand, if_pos hop, if_pos hfd]
    decide
  let K3 : ServerKernel :=
    (K.setOp (2 * n) none).performAll [.queue (recvSqe fd), .queue (acceptSqe 3)]
  have h3 : step 3 ⟨⟨s.server.app, K⟩, .batch [2 * n], []⟩ .handle = some
      ⟨⟨Function.update s.server.app fd (some (Client.new fd)), K3⟩, .batch [],
        [((acceptSqe 3).userData, fd)]⟩ := by
    refine (handleStep_eq isFd_listener i2 rfl hdone).trans ?_
    rw [if_pos hfits, handle_accept isFd_listener, if_pos hfd]
    rfl
  have i3 := i2.handled isFd_listener rfl hdone hfits
  rw [handle_accept isFd_listener, if_pos hfd] at i3
  have hops : K3.ops = Function.update (Function.update (Function.update K.ops (2 * n) none)
      (2 * n + 1) (some ⟨recvSqe fd, .queued⟩)) (2 * n + 2) (some ⟨acceptSqe 3, .queued⟩) := by
    show Function.update (Function.update (Function.update K.ops (2 * n) none)
      s.server.kern.nextOp _) (s.server.kern.nextOp + 1) _ = _
    rw [h.nextOp]
  refine ⟨⟨⟨Function.update s.server.app fd (some (Client.new fd)), K3⟩, .wait,
    [((acceptSqe 3).userData, fd)]⟩, ?_, ?_⟩
  · apply Machine.exec_cons.2
    exact ⟨_, h1, Machine.exec_cons.2 ⟨_, h2, Machine.exec_cons.2 ⟨_, h3, rfl⟩⟩⟩
  · have i4 : Inv 3 ⟨⟨Function.update s.server.app fd (some (Client.new fd)), K3⟩, .wait,
        [((acceptSqe 3).userData, fd)]⟩ :=
      ⟨i3.server, by rintro ⟨⟩, i3.room, by rintro _ ⟨⟩⟩
    refine ⟨i4, rfl, ?_, h.submitted, ?_, ?_, ?_, ?_, ?_⟩
    · exact congrArg (· + 2) h.nextOp
    · exact (congrFun hops _).trans (Function.update_self ..)
    · refine (congrFun hops _).trans ?_
      rw [Function.update_of_ne (by omega), Function.update_self]
    · intro i hi
      obtain ⟨c', hc'⟩ := h.recv i hi
      refine ⟨c', (congrFun hops _).trans ?_⟩
      rw [Function.update_of_ne (by omega), Function.update_of_ne (by omega),
        Function.update_of_ne (by omega)]
      exact (Function.update_of_ne (by omega) _ _).trans hc'
    · show Function.update s.server.kern.net.fds (4 + (n : Int)) _ (4 + n) ≠ none
      rw [Function.update_self]
      exact Option.some_ne_none _
    · intro fd' hfd'
      show Function.update s.server.kern.net.fds (4 + (n : Int)) _ fd' = none
      rw [Function.update_of_ne (by omega)]
      exact h.free fd' (by omega)

theorem step_submit {q : Sqe Int (BitVec 64)} (h : Inv listenFd s) (hl : IsFd listenFd)
    (hpc : s.pc = .wait) (hq : s.server.kern.ops s.server.kern.submitted = some ⟨q, .queued⟩)
    (hcancel : q.prep.isCancel = false) :
    ∃ K : ServerKernel, step listenFd s (.kernel .submit) =
        some { s with server := { s.server with kern := K } } ∧
      Inv listenFd { s with server := { s.server with kern := K } } ∧
      K = { s.server.kern with
        ops := Function.update s.server.kern.ops s.server.kern.submitted
          (some ⟨q, .armed (s.server.kern.net.fds q.fd)⟩)
        submitted := s.server.kern.submitted + 1 } := by
  have hstep : step listenFd s (.kernel .submit) = some { s with server := { s.server with kern :=
      { s.server.kern with
        ops := Function.update s.server.kern.ops s.server.kern.submitted
          (some ⟨q, .armed (s.server.kern.net.fds q.fd)⟩)
        submitted := s.server.kern.submitted + 1 } } } := by
    have hturn : KernelTurn s.pc .submit := hpc
    simp only [step, if_pos hturn, Uring.step, Kernel.submit_of_queued hq hcancel, Option.map_some]
  have hinv := step_inv hl h hstep
  rw [if_pos (show BatchFits s (.kernel _) from trivial)] at hinv
  exact ⟨_, hstep, hinv, rfl⟩

theorem exec_submits {n : Nat} (h : Greeted n s) :
    ∃ s', (machine 3).exec s [.kernel .submit, .kernel .submit] = some s' ∧ Waiting (n + 1) s' := by
  obtain ⟨c, hfile⟩ := Option.ne_none_iff_exists'.1 h.file
  obtain ⟨c', hlisten⟩ := Option.ne_none_iff_exists'.1 h.inv.server.listen
  have hq : s.server.kern.ops s.server.kern.submitted = some ⟨recvSqe (4 + n), .queued⟩ := by
    rw [h.submitted]
    exact h.client
  obtain ⟨K, h1, i1, hK⟩ := step_submit h.inv isFd_listener h.pc hq rfl
  have hnext : K.ops K.submitted = some ⟨acceptSqe 3, .queued⟩ := by
    rw [hK]
    show Function.update s.server.kern.ops s.server.kern.submitted _ (s.server.kern.submitted + 1) = _
    rw [Function.update_of_ne (by omega), h.submitted]
    exact h.accept
  obtain ⟨K', h2, i2, hK'⟩ := step_submit i1 isFd_listener h.pc hnext rfl
  have hops : K'.ops = Function.update (Function.update s.server.kern.ops (2 * n + 1)
      (some ⟨recvSqe (4 + n), .armed (some c)⟩)) (2 * n + 2)
      (some ⟨acceptSqe 3, .armed (some c')⟩) := by
    rw [hK', hK]
    show Function.update (Function.update s.server.kern.ops s.server.kern.submitted
      (some ⟨_, .armed (s.server.kern.net.fds (4 + n))⟩)) (s.server.kern.submitted + 1)
      (some ⟨_, .armed (s.server.kern.net.fds 3)⟩) = _
    rw [h.submitted, hfile, hlisten]
  refine ⟨_, Machine.exec_cons.2 ⟨_, h1, Machine.exec_cons.2 ⟨_, h2, rfl⟩⟩, ?_⟩
  refine ⟨i2, h.pc, ?_, ?_, ?_, ?_, ?_⟩
  · rw [hK', hK]
    show s.server.kern.nextOp = 2 * (n + 1) + 1
    rw [h.nextOp]
    omega
  · rw [hK', hK]
    show s.server.kern.submitted + 1 + 1 = 2 * (n + 1) + 1
    rw [h.submitted]
    omega
  · exact ⟨c', (congrFun hops _).trans (Function.update_self ..)⟩
  · intro i hi
    by_cases hin : i = n
    · subst hin
      refine ⟨c, (congrFun hops _).trans ?_⟩
      rw [Function.update_of_ne (by omega), Function.update_self]
    · obtain ⟨c'', hc''⟩ := h.recv i (by omega)
      refine ⟨c'', (congrFun hops _).trans ?_⟩
      rw [Function.update_of_ne (by omega), Function.update_of_ne (by omega)]
      exact hc''
  · intro fd hfd
    rw [hK', hK]
    exact h.free fd (by omega)

/-- The first `n` clients connect, one after another. -/
def connect : Nat → List Ev
  | 0 => [.kernel .submit]
  | n + 1 => connect n ++ (greet n ++ [.kernel .submit, .kernel .submit])

theorem run_connect : ∀ {n : Nat}, n ≤ 2 ^ 16 →
    ∃ s, (machine 3).run (connect n) = some s ∧ Waiting n s
  | 0, _ => by
    obtain ⟨K, h1, i1, hK⟩ := step_submit (init_inv 3) isFd_listener rfl
      (show (machine 3).init.server.kern.ops 0 = some ⟨acceptSqe 3, .queued⟩ from rfl) rfl
    refine ⟨_, Machine.exec_cons.2 ⟨_, h1, rfl⟩, i1, rfl, ?_, ?_, ?_, ?_, ?_⟩
    · rw [hK]; rfl
    · rw [hK]; rfl
    · exact ⟨0, by rw [hK]; rfl⟩
    · exact fun i hi => absurd hi (Nat.not_lt_zero i)
    · intro fd hfd
      rw [hK]
      have hne : fd ≠ 3 := by
        rintro rfl
        exact absurd hfd (by decide)
      show (if fd ∈ [3] then some _ else none) = none
      simp [hne]
  | n + 1, hn => by
    obtain ⟨s, hs, h⟩ := run_connect (Nat.le_of_succ_le hn)
    obtain ⟨t, ht, hgreeted⟩ := exec_greet h hn
    obtain ⟨u, hu, hwaiting⟩ := exec_submits hgreeted
    exact ⟨u, Machine.exec_append.2 ⟨s, hs, Machine.exec_append.2 ⟨t, ht, hu⟩⟩, hwaiting⟩

/-- Of the `n` clients that are connected, the first `m` have sent a byte. -/
structure Talking (n m : Nat) (s : State) : Prop where
  inv : Inv 3 s
  pc : s.pc = .wait
  empty : sqUsed s.server.kern = 0
  done : ∀ i < m, s.server.kern.ops (2 * i + 1) = some ⟨recvSqe (4 + i), .done 1⟩
  armed : ∀ i, m ≤ i → i < n →
    ∃ c, s.server.kern.ops (2 * i + 1) = some ⟨recvSqe (4 + i), .armed (some c)⟩

/-- The first `m` clients send a byte each. -/
def talk (m : Nat) : List Ev := (List.range m).map fun i => .kernel (.exec (2 * i + 1) 1 [65])

theorem exec_talk {n : Nat} (h : Waiting n s) : ∀ {m : Nat}, m ≤ n →
    ∃ s', (machine 3).exec s (talk m) = some s' ∧ Talking n m s'
  | 0, _ => by
    refine ⟨s, rfl, h.inv, h.pc, ?_, fun i hi => absurd hi (Nat.not_lt_zero i), fun i _ => h.recv i⟩
    rw [sqUsed, h.nextOp, h.submitted, Nat.sub_self]
  | m + 1, hm => by
    obtain ⟨t, ht, htalking⟩ := exec_talk h (Nat.le_of_succ_le hm)
    obtain ⟨c, hc⟩ := htalking.armed m (Nat.le_refl m) hm
    have hmay : KernelMay t.server.kern.net (recvSqe (4 + m)) (some c) 1 [65] :=
      Or.inr ⟨rfl, by show 1 ≤ CLIENT_BUF_SIZE; decide⟩
    let K : ServerKernel := t.server.kern.setOp (2 * m + 1) (some ⟨recvSqe (4 + m), .done 1⟩)
    have hstep : step 3 t (.kernel (.exec (2 * m + 1) 1 [65])) = some { t with
        server := transfer (program 3) ⟨t.server.app, K⟩ (recvSqe (4 + m)) (some c) 1 [65] } := by
      have hturn : KernelTurn t.pc (.exec (2 * m + 1) 1 [65]) := htalking.inv.alive
      simp only [step, if_pos hturn, step_exec hc, if_pos hmay, Option.map_some]
      rfl
    have hinv := step_inv isFd_listener htalking.inv hstep
    rw [if_pos (show BatchFits t (.kernel _) from trivial)] at hinv
    refine ⟨_, ?_, hinv, htalking.pc, ?_, ?_, ?_⟩
    · rw [talk, List.range_succ, List.map_append]
      exact Machine.exec_append.2 ⟨t, ht, Machine.exec_cons.2 ⟨_, hstep, rfl⟩⟩
    · exact htalking.empty
    · intro i hi
      rw [transfer_ops]
      show Function.update t.server.kern.ops (2 * m + 1) _ (2 * i + 1) = _
      by_cases him : i = m
      · subst him
        exact Function.update_self ..
      · rw [Function.update_of_ne (by omega)]
        exact htalking.done i (by omega)
    · intro i hmi hin
      rw [transfer_ops]
      show ∃ c, Function.update t.server.kern.ops (2 * m + 1) _ (2 * i + 1) = _
      rw [Function.update_of_ne (by omega)]
      exact htalking.armed i (by omega) hin

/-- 4097 clients connect, each sends a byte, and one batch has all the completions. -/
def crowd : List Ev :=
  connect 4097 ++ (talk 4097 ++ .ready ((List.range 4097).map fun i => 2 * i + 1) ::
    List.replicate 4097 .handle)

/-- **Load alone terminates the server.** -/
theorem crowd_fails : ∃ s, (machine 3).run crowd = some s ∧ s.pc = .failed := by
  obtain ⟨s, hs, hwaiting⟩ := run_connect (n := 4097) (by decide)
  obtain ⟨t, ht, h⟩ := exec_talk hwaiting (Nat.le_refl _)
  let ks := (List.range 4096).map fun i => 2 * i + 1
  let ready := (List.range 4097).map fun i => 2 * i + 1
  have hready : ready = ks ++ [8193] := by
    show (List.range (4096 + 1)).map _ = _
    rw [List.range_succ, List.map_append]
    rfl
  have hnodup : ready.Nodup := by
    refine List.Nodup.map (fun i j hij => ?_) List.nodup_range
    have hij' : 2 * i + 1 = 2 * j + 1 := hij
    omega
  have hdone : ∀ k ∈ ready, ∃ q res, t.server.kern.ops k = some ⟨q, .done res⟩ ∧
      demand (q.userData, res) = 1 := by
    intro k hk
    obtain ⟨i, hi, rfl⟩ := List.mem_map.1 hk
    have hlt := List.mem_range.1 hi
    refine ⟨recvSqe (4 + i), 1, h.done i hlt, ?_⟩
    have hfd : IsFd (4 + i) := ⟨by omega, by omega⟩
    have hop : decodeOp (recvSqe (4 + i)).userData = OP_RECV := decodeOp_encode isOp_recv hfd
    have hne : OP_RECV ≠ OP_ACCEPT := by decide
    rw [demand, hop, if_neg hne]
    rfl
  have hstep : step 3 t (.ready ready) = some { t with pc := .batch ready, handled := [] } := by
    refine if_pos ⟨h.pc, h.empty, ?_, ?_, hnodup, ?_⟩
    · rw [hready]
      simp
    · simp [ready, CQ_ENTRIES]
    · intro k hk
      obtain ⟨q, res, hk, -⟩ := hdone k hk
      simp [completion, hk]
  have hinv := step_inv isFd_listener h.inv hstep
  rw [if_pos (show BatchFits t (.ready _) from trivial)] at hinv
  obtain ⟨u, hu, hinv', hpc, hsum, hlast⟩ := exec_handles isFd_listener ks [8193] hinv
    (congrArg Pc.batch hready) (hready ▸ hnodup) (hready ▸ hdone)
    (by simp [ks, demandAll, SQ_ENTRIES])
  obtain ⟨q, res, hk, hdemand⟩ := hdone 8193 (by rw [hready]; simp)
  have hfull := handleStep_eq isFd_listener hinv' hpc ((hlast 8193 List.mem_cons_self).trans hk)
  have hover : ¬demandAll (u.handled ++ [(q.userData, res)]) ≤ SQ_ENTRIES := by
    have hbatch : demandAll u.handled = 4096 := by
      rw [hsum]
      simp [ks, demandAll]
    rw [demandAll_snoc, hbatch, hdemand]
    decide
  rw [if_neg hover] at hfull
  have hturns : List.replicate 4097 Ev.handle = List.replicate ks.length .handle ++ [.handle] := by
    have hlength : ks.length = 4096 := by simp [ks]
    rw [hlength, ← List.replicate_succ']
  have hthrow : (machine 3).exec u [.handle] = some
      { u with pc := .failed, handled := u.handled ++ [(q.userData, res)] } :=
    Machine.exec_cons.2 ⟨_, hfull, rfl⟩
  have hhandle := Machine.exec_append.2 ⟨u, hu, hthrow⟩
  rw [← hturns] at hhandle
  exact ⟨_, Machine.exec_append.2 ⟨s, hs, Machine.exec_append.2 ⟨t, ht, Machine.exec_cons.2
    ⟨_, hstep, hhandle⟩⟩⟩, rfl⟩

end Crowd

end AdvCpp.Uring.BatchLoop
