import AdvCpp.Uring.BufferServers

/-!
# Connection isolation in the multi-shot server

An event carries a descriptor number, and several requests of one connection can be outstanding.
As long as every request that is submitted and every completion that is handled belongs to a
connection the server has not closed, each of them acts on its own connection; a completion of a
closed connection acts on whatever the number names by then.

* `Isolated` — requests, bytes, closes and clients belong to one connection each.
* `OnOpen` — the condition on the steps.
* `multishot_isolated` — the runs that meet it are isolated; `multishot_crossed` is one that does
  not.
-/

namespace AdvCpp.Uring.BufferSelect

open AdvCpp.Lib

variable {ρ : Type} {V : Variant ρ} {s s' : State ρ} {K K' : Kernel} {k : Nat} {o : Op}
  {q : Sqe} {c : Nat} {fd : Int}

def Prep.isAccept : Prep → Bool
  | .accept _ => true
  | _ => false

/-- Connection `c` is among the closed ones. -/
def IsClosed (closed : List (Option Nat × Option Nat)) (c : Nat) : Prop :=
  ∃ x ∈ closed, x.2 = some c

instance (closed : List (Option Nat × Option Nat)) (c : Nat) : Decidable (IsClosed closed c) := by
  unfold IsClosed
  exact inferInstance

/-- What isolation of the connections means. -/
structure Isolated (s : State ρ) : Prop where
  /-- A request acts on the connection whose completion caused it. -/
  armed : ∀ k o file, s.kern.ops k = some o → o.sqe.prep.isAccept = false →
    o.phase.file = some file → ∃ c, o.conn = some c ∧ file = some c
  /-- Only bytes received on a connection are sent on it. -/
  sent : ∀ c, ∀ b ∈ s.kern.net.tx c, b.src = some c
  /-- A completion closes the connection its request was armed on, and none is closed twice. -/
  closes : ∃ cs : List Nat, cs.Nodup ∧ s.kern.closed = cs.map fun c => (some c, some c)
  /-- The clients are the descriptors of the accepted connections that are not closed. -/
  clients : ∀ fd, fd ∈ s.app.clients ↔ ∃ c ∈ s.kern.accepted, s.kern.net.fds fd = some c

/-- The completion of a send that takes what is left of the buffer and re-arms nothing. -/
def Finishes (V : Variant ρ) (s : State ρ) (ev : Nat) (res : Int) : Prop :=
  match s.app.heap ev with
  | some (.send fd _ len offset r) =>
    0 < res ∧ len ≤ offset + res.toNat ∧ (V.rearm r && decide (fd ∈ s.app.clients)) = false
  | _ => False

instance (V : Variant ρ) (s : State ρ) (ev : Nat) (res : Int) : Decidable (Finishes V s ev res) := by
  unfold Finishes
  split <;> exact inferInstance

/-- A request that is submitted and a completion that is handled belong to a connection that is not
closed; only the end of a buffer may come later. -/
def OnOpen (V : Variant ρ) (s : State ρ) : Ev → Prop
  | .submit =>
    match s.kern.ops s.kern.submitted with
    | some ⟨q, some c, _, _⟩ => q.prep.isAccept = true ∨ ¬IsClosed s.kern.closed c
    | _ => True
  | .exec _ _ _ _ => True
  | .complete k =>
    match s.kern.ops k with
    | some o =>
      match o.pop with
      | some (⟨res, _, some c⟩, _, _) => ¬IsClosed s.kern.closed c ∨ Finishes V s o.sqe.userData res
      | _ => True
    | none => True

instance (V : Variant ρ) (s : State ρ) (e : Ev) : Decidable (OnOpen V s e) := by
  unfold OnOpen
  cases e with
  | submit => dsimp only; split <;> exact inferInstance
  | exec => exact inferInstance
  | complete k =>
    dsimp only
    split
    · split <;> exact inferInstance
    · exact inferInstance

/-! ## The invariant -/

/-- The bytes of a region were received on `c`. -/
def From (mem : Nat → Byte) (c : Option Nat) (addr n : Nat) : Prop :=
  ∀ b ∈ peek mem addr n, b.src = c

section Belonging

variable (net : Net Byte) (mem : Nat → Byte) (closed : List (Option Nat × Option Nat))

/-- A receive or a send belongs to one connection, which its descriptor names until it is closed;
so do its completions, and the bytes it has received or will send. -/
structure OwnConn (o : Op) (c : Nat) : Prop where
  conn : o.conn = some c
  lt : c < net.next
  fd : ¬IsClosed closed c → net.fds o.sqe.fd = some c
  file : ∀ file, o.phase.file = some file → file = some c
  shots : ∀ sh ∈ o.posted, sh.conn = some c ∧
    ∀ bid, sh.buffer = some bid → From mem (some c) (bid * BUF_SIZE) sh.res.toNat
  bytes : ∀ addr n, o.sqe.prep = .send addr n → From mem (some c) addr n

/-- A completion of an accept brings a connection that its descriptor names. -/
def NewConn (sh : Shot) : Prop :=
  if 0 ≤ sh.res then
    ∃ c, sh.conn = some c ∧ c < net.next ∧ (¬IsClosed closed c → net.fds sh.res = some c)
  else sh.conn = none

end Belonging

/-- Everything that is outstanding belongs to one connection. -/
structure Sep (s : State ρ) : Prop where
  client : ∀ k o, s.kern.ops k = some o → o.sqe.prep.isAccept = false →
    ∃ c, OwnConn s.kern.net s.kern.mem s.kern.closed o c
  accepts : ∀ k o, s.kern.ops k = some o → o.sqe.prep.isAccept = true →
    ∀ sh ∈ o.posted, NewConn s.kern.net s.kern.closed sh
  sent : ∀ c, ∀ b ∈ s.kern.net.tx c, b.src = some c
  closes : ∃ cs : List Nat, cs.Nodup ∧ s.kern.closed = cs.map fun c => (some c, some c)
  gone : ∀ c, IsClosed s.kern.closed c → c < s.kern.net.next ∧ ∀ fd, s.kern.net.fds fd ≠ some c
  clients : ∀ fd, fd ∈ s.app.clients ↔ ∃ c ∈ s.kern.accepted, s.kern.net.fds fd = some c
  accepted_lt : ∀ c ∈ s.kern.accepted, c < s.kern.net.next

theorem Sep.isolated (h : Sep s) : Isolated s where
  armed := by
    intro k o file hk hp hfile
    obtain ⟨c, hc⟩ := h.client k o hk hp
    exact ⟨c, hc.conn, hc.file file hfile⟩
  sent := h.sent
  closes := h.closes
  clients := h.clients

/-! ## Primitives of the program -/

theorem Sep.newEvent (h : Sep s) (e : Event ρ) : Sep (s.newEvent e) := { h with }

theorem Sep.setEvent (h : Sep s) (p : Nat) (e : Event ρ) : Sep (s.setEvent p e) := { h with }

theorem Sep.recycleBuf (h : Sep s) (bid : Nat) : Sep (recycleBuf s bid) := { h with }

theorem Sep.delete (h : Sep s) (p : Nat) : Sep (s.delete p) := by
  unfold State.delete
  split <;> exact { h with }

/-- A request for the connection of the completion that is handled. -/
theorem Sep.queue (h : Sep s)
    (hq : q.prep.isAccept = false → ∃ c, s.kern.cur = some c ∧ c < s.kern.net.next ∧
      (¬IsClosed s.kern.closed c → s.kern.net.fds q.fd = some c) ∧
      ∀ addr n, q.prep = .send addr n → From s.kern.mem (some c) addr n) :
    Sep (s.queue q) :=
  { h with
    client := by
      refine forall_update ?_ fun k o _ => h.client k o
      intro o ho hp
      cases ho
      obtain ⟨c, hcur, hlt, hfd, hbytes⟩ := hq hp
      exact ⟨c, hcur, hlt, hfd, by rintro _ ⟨⟩, by rintro _ ⟨⟩, hbytes⟩
    accepts := by
      refine forall_update ?_ fun k o _ => h.accepts k o
      rintro _ ⟨⟩ hp sh ⟨⟩ }

/-- **A connection is closed by its own completion**, and its client erased. -/
theorem Sep.closeFd (h : Sep s) (hnet : s.kern.net.Ok) (hcur : s.kern.cur = some c)
    (hopen : ¬IsClosed s.kern.closed c) (hfd : s.kern.net.fds fd = some c) :
    Sep ((s.closeFd fd).eraseClient fd) := by
  have hclosed : ∀ c', IsClosed ((s.kern.cur, s.kern.net.fds fd) :: s.kern.closed) c' ↔
      c' = c ∨ IsClosed s.kern.closed c' := by
    intro c'
    unfold IsClosed
    rw [hfd]
    simp only [List.exists_mem_cons_iff, Option.some.injEq]
    exact or_congr_left eq_comm
  -- a connection that is still open is behind another descriptor
  have hkeep : ∀ fd' c', (¬IsClosed s.kern.closed c' → s.kern.net.fds fd' = some c') →
      ¬IsClosed ((s.kern.cur, s.kern.net.fds fd) :: s.kern.closed) c' →
      (s.kern.net.close fd).fds fd' = some c' := by
    intro fd' c' hold hnew
    rw [hclosed, not_or] at hnew
    have hfd' := hold hnew.2
    have hne : fd' ≠ fd := by
      rintro rfl
      exact hnew.1 (Option.some.inj (hfd'.symm.trans hfd))
    exact (Function.update_of_ne hne _ _).trans hfd'
  exact
    { client := by
        intro k o hk hp
        obtain ⟨c', hc'⟩ := h.client k o hk hp
        exact ⟨c', hc'.conn, hc'.lt, hkeep _ _ hc'.fd, hc'.file, hc'.shots, hc'.bytes⟩
      accepts := by
        intro k o hk hp sh hsh
        have hn := h.accepts k o hk hp sh hsh
        unfold NewConn at hn ⊢
        split at hn
        · rename_i hres
          obtain ⟨c', hconn, hlt, hfd'⟩ := hn
          rw [if_pos hres]
          exact ⟨c', hconn, hlt, hkeep _ _ hfd'⟩
        · rename_i hres
          rw [if_neg hres]
          exact hn
      sent := h.sent
      closes := by
        obtain ⟨cs, hnodup, hcs⟩ := h.closes
        refine ⟨c :: cs, List.nodup_cons.2 ⟨fun hmem => hopen ?_, hnodup⟩, ?_⟩
        · exact ⟨(some c, some c), by rw [hcs]; exact List.mem_map_of_mem hmem, rfl⟩
        · show (s.kern.cur, s.kern.net.fds fd) :: s.kern.closed = _
          rw [hcur, hfd, hcs, List.map_cons]
      gone := by
        intro c' hc'
        rcases (hclosed c').1 hc' with rfl | hc'
        · refine ⟨hnet.lt hfd, fun fd' hfd' => ?_⟩
          by_cases he : fd' = fd
          · subst he
            simp [State.closeFd, State.eraseClient, Net.close] at hfd'
          · have hfd'' : s.kern.net.fds fd' = some c' :=
              (Function.update_of_ne he _ _).symm.trans hfd'
            exact he (hnet.inj hfd'' hfd)
        · refine ⟨(h.gone c' hc').1, fun fd' hfd' => ?_⟩
          by_cases he : fd' = fd
          · subst he
            simp [State.closeFd, State.eraseClient, Net.close] at hfd'
          · exact (h.gone c' hc').2 fd' ((Function.update_of_ne he _ _).symm.trans hfd')
      clients := by
        intro fd'
        have hold := h.clients fd'
        simp only [State.closeFd, State.eraseClient, Net.close, List.mem_filter, decide_eq_true_eq]
        by_cases he : fd' = fd
        · subst he
          simp
        · simp [he, hold]
      accepted_lt := h.accepted_lt }

/-- **A new connection becomes a client.** -/
theorem Sep.insertClient (h : Sep s) (hnet : s.kern.net.Ok) (hcur : s.kern.cur = some c)
    (hfd : s.kern.net.fds fd = some c) : Sep (s.insertClient fd) :=
  { h with
    clients := by
      intro fd'
      have hold := h.clients fd'
      simp only [State.insertClient, List.mem_insert_iff, hcur, Option.toList_some,
        List.singleton_append, List.exists_mem_cons_iff, hold]
      refine or_congr_left ⟨fun he => he ▸ hfd, fun hfd' => hnet.inj hfd' hfd⟩
    accepted_lt := by
      intro c' hc'
      simp only [State.insertClient, hcur, Option.toList_some, List.singleton_append,
        List.mem_cons] at hc'
      rcases hc' with rfl | hc'
      · exact hnet.lt hfd
      · exact h.accepted_lt c' hc' }

theorem Sep.queueRecv (h : Sep s) (hcur : s.kern.cur = some c) (hlt : c < s.kern.net.next)
    (hfd : s.kern.net.fds fd = some c) (ms : Bool) : Sep (queueRecv ms s fd) :=
  (h.queue fun _ => ⟨c, hcur, hlt, fun _ => hfd, by rintro _ _ ⟨⟩⟩).newEvent _

theorem Sep.queueAccept (h : Sep s) (ms : Bool) (listenFd : Int) : Sep (queueAccept ms s listenFd) :=
  (h.queue (by rintro ⟨⟩)).newEvent _

theorem Sep.queueSend {p bid len offset : Nat} {r : ρ} (h : Sep s)
    (hp : s.app.heap p = some (.send fd bid len offset r)) (hcur : s.kern.cur = some c)
    (hlt : c < s.kern.net.next) (hfd : s.kern.net.fds fd = some c)
    (hbytes : From s.kern.mem (some c) (bid * BUF_SIZE + offset) (len - offset)) :
    Sep (queueSend s p) := by
  simp only [BufferSelect.queueSend, hp]
  refine h.queue fun _ => ⟨c, hcur, hlt, fun _ => hfd, ?_⟩
  intro addr n hprep
  cases hprep
  exact hbytes

/-- **A completion is taken.** -/
theorem Sep.pop {sh : Shot} {more : Bool} {r : Option Op} (h : Sep s)
    (hk : s.kern.ops k = some o) (hpop : o.pop = some (sh, more, r)) (cur : Option Nat) :
    Sep { s with kern := { s.kern.setOp k r with cur := cur } } := by
  have hr : ∀ o', r = some o' →
      o'.sqe = o.sqe ∧ o'.conn = o.conn ∧ o'.phase = o.phase ∧ ∀ sh ∈ o'.posted, sh ∈ o.posted := by
    intro o' ho'
    rcases Op.pop_cases hpop with ⟨-, shots, hs, rfl⟩ | ⟨-, -, -, rfl⟩
    · cases ho'
      refine ⟨rfl, rfl, rfl, fun sh' hsh' => ?_⟩
      rw [Op.posted, hs]
      exact List.mem_cons_of_mem _ hsh'
    · cases ho'
  exact
    { h with
      client := by
        refine forall_update ?_ fun k o _ => h.client k o
        intro o' ho' hp
        obtain ⟨hsqe, hconn, hphase, hposted⟩ := hr o' ho'
        obtain ⟨c, hc⟩ := h.client k o hk (hsqe ▸ hp)
        exact ⟨c, hconn.trans hc.conn, hc.lt, hsqe ▸ hc.fd, hphase ▸ hc.file,
          fun sh hsh => hc.shots sh (hposted sh hsh), hsqe ▸ hc.bytes⟩
      accepts := by
        refine forall_update ?_ fun k o _ => h.accepts k o
        intro o' ho' hp sh hsh
        obtain ⟨hsqe, -, -, hposted⟩ := hr o' ho'
        exact h.accepts k o hk (hsqe ▸ hp) sh (hposted sh hsh) }

/-! ## One turn of the event loop -/

theorem From.drop {mem : Nat → Byte} {conn : Option Nat} {addr n : Nat} (h : From mem conn addr n)
    (m : Nat) : From mem conn (addr + m) (n - m) := by
  intro b hb
  rw [← peek_drop] at hb
  exact h b (List.mem_of_mem_drop hb)

theorem From.take {mem : Nat → Byte} {conn : Option Nat} {addr n m : Nat}
    (h : From mem conn addr n) (hm : m ≤ n) : From mem conn addr m := by
  intro b hb
  rw [← peek_take hm] at hb
  exact h b (List.mem_of_mem_take hb)

/-- A new connection is entered in the client table, and its `recv` queued. -/
theorem serve_accept_sep {listenFd fd : Int} {p : Nat} {res : Int} {more : Bool}
    {buffer : Option Nat} (h : Sep s) (hnet : s.kern.net.Ok)
    (he : s.app.heap p = some (.accept fd))
    (hopen : ∀ c, s.kern.cur = some c → ¬IsClosed s.kern.closed c ∨ Finishes V s p res)
    (hnew : NewConn s.kern.net s.kern.closed ⟨res, buffer, s.kern.cur⟩) :
    Sep (serve V listenFd s p ⟨res, more, buffer⟩) := by
  have h₁ : Sep (if 0 ≤ res then BufferSelect.queueRecv V.multishot (s.insertClient res) res
      else s) := by
    unfold NewConn at hnew
    split at hnew
    · rename_i hres
      obtain ⟨c, hcur, hlt, hfd⟩ := hnew
      have hopen' := (hopen c hcur).resolve_right (by simp [Finishes, he])
      rw [if_pos hres]
      exact (h.insertClient hnet hcur (hfd hopen')).queueRecv hcur hlt (hfd hopen') _
    · rename_i hres
      rw [if_neg hres]
      exact h
  simp only [serve, he]
  split
  · exact h₁
  · exact (h₁.queueAccept _ _).delete _

/-- What was received is sent to the connection that sent it, or the connection is closed. -/
theorem serve_recv_sep {listenFd fd : Int} {p c : Nat} {res : Int} {more : Bool}
    {buffer : Option Nat} (h : Sep s) (hnet : s.kern.net.Ok)
    (he : s.app.heap p = some (.recv fd)) (hcur : s.kern.cur = some c)
    (hlt : c < s.kern.net.next) (hopen : ¬IsClosed s.kern.closed c)
    (hfd : s.kern.net.fds fd = some c)
    (hbuf : ∀ bid, buffer = some bid → From s.kern.mem (some c) (bid * BUF_SIZE) res.toNat) :
    Sep (serve V listenFd s p ⟨res, more, buffer⟩) := by
  have hfin : ∀ s₁ : State ρ, Sep s₁ →
      Sep (if (V.multishot && more) then s₁ else s₁.delete p) := by
    intro s₁ h₁
    split
    · exact h₁
    · exact h₁.delete p
  simp only [serve, he]
  refine hfin _ ?_
  split
  · exact h.queueRecv hcur hlt hfd _
  · split
    · exact h.closeFd hnet hcur hopen hfd
    · split
      · exact h.closeFd hnet hcur hopen hfd
      · rename_i bid
        refine (h.newEvent _).queueSend (Function.update_self ..) hcur hlt hfd ?_
        show From s.kern.mem (some c) (bid * BUF_SIZE + 0) (res.toNat - 0)
        rw [Nat.add_zero, Nat.sub_zero]
        exact hbuf bid rfl

/-- What is left of a buffer goes to the same connection. -/
theorem serve_send_sep {listenFd fd : Int} {p c bid len offset : Nat} {r : ρ} {res : Int}
    {more : Bool} {buffer : Option Nat} (h : Sep s) (hnet : s.kern.net.Ok)
    (he : s.app.heap p = some (.send fd bid len offset r)) (hcur : s.kern.cur = some c)
    (hlt : c < s.kern.net.next)
    (hopen : ¬IsClosed s.kern.closed c ∨ Finishes V s p res)
    (hfd : ¬IsClosed s.kern.closed c → s.kern.net.fds fd = some c)
    (hbytes : From s.kern.mem (some c) (bid * BUF_SIZE + offset) (len - offset)) :
    Sep (serve V listenFd s p ⟨res, more, buffer⟩) := by
  simp only [Finishes, he] at hopen
  simp only [serve, he]
  split
  · rename_i hres
    have hopen' := hopen.resolve_right (by omega)
    exact ((h.recycleBuf bid).closeFd hnet hcur hopen' (hfd hopen')).delete p
  · split
    · rename_i hres hpart
      have hopen' := hopen.resolve_right (by omega)
      refine (h.setEvent p _).queueSend (Function.update_self ..) hcur hlt (hfd hopen') ?_
      have hdrop := hbytes.drop res.toNat
      rwa [Nat.add_assoc, Nat.sub_sub] at hdrop
    · refine Sep.delete ?_ p
      have h₂ := (h.setEvent p (.send fd bid len (offset + res.toNat) r)).recycleBuf bid
      split
      · rename_i hre
        have hre : (V.rearm r && decide (fd ∈ s.app.clients)) = true := hre
        have hopen' := hopen.resolve_right fun hf =>
          Bool.false_ne_true (hf.2.2.symm.trans hre)
        exact h₂.queueRecv hcur hlt (hfd hopen') _
      · exact h₂

/-- **A completion of an open connection acts on that connection.** -/
theorem serve_sep {listenFd : Int} {p : Nat} {e : Event ρ} {res : Int} {more : Bool}
    {buffer : Option Nat} (h : Sep s) (hnet : s.kern.net.Ok) (he : s.app.heap p = some e)
    (ht : Tied V e q) (hopen : ∀ c, s.kern.cur = some c → ¬IsClosed s.kern.closed c ∨
      Finishes V s p res)
    (hacc : q.prep.isAccept = true → NewConn s.kern.net s.kern.closed ⟨res, buffer, s.kern.cur⟩)
    (hcli : q.prep.isAccept = false → ∃ c, s.kern.cur = some c ∧ c < s.kern.net.next ∧
      (¬IsClosed s.kern.closed c → s.kern.net.fds q.fd = some c) ∧
      (∀ bid, buffer = some bid → From s.kern.mem (some c) (bid * BUF_SIZE) res.toNat) ∧
      ∀ addr n, q.prep = .send addr n → From s.kern.mem (some c) addr n) :
    Sep (serve V listenFd s p ⟨res, more, buffer⟩) := by
  cases e with
  | accept fd => exact serve_accept_sep h hnet he hopen (hacc (by rw [ht.2]; rfl))
  | recv fd =>
    obtain ⟨c, hcur, hlt, hfd, hbuf, -⟩ := hcli (by rw [ht.2]; rfl)
    rw [ht.1] at hfd
    have hopen' := (hopen c hcur).resolve_right (by simp [Finishes, he])
    exact serve_recv_sep h hnet he hcur hlt hopen' (hfd hopen') hbuf
  | send fd bid len offset r =>
    obtain ⟨hqfd, hprep, -⟩ := ht
    obtain ⟨c, hcur, hlt, hfd, -, hbytes⟩ := hcli (by rw [hprep]; rfl)
    rw [hqfd] at hfd
    exact serve_send_sep h hnet he hcur hlt (hopen c hcur) hfd (hbytes _ _ hprep)

/-! ## The kernel's steps -/

theorem Sep.submit (h : Sep s) (hok : OnOpen V s .submit) (hs : s.kern.submit = some K') :
    Sep { s with kern := K' } := by
  obtain ⟨q, conn, shots, hk, rfl⟩ := Kernel.submit_cases hs
  simp only [OnOpen, hk] at hok
  exact
    { h with
      client := by
        refine forall_update ?_ fun k o _ => h.client k o
        intro o' ho' hp
        cases ho'
        obtain ⟨c, hc⟩ := h.client _ _ hk hp
        obtain rfl : conn = some c := hc.conn
        have hopen : ¬IsClosed s.kern.closed c :=
          hok.resolve_left (fun ha => Bool.false_ne_true (hp.symm.trans ha))
        refine ⟨c, rfl, hc.lt, hc.fd, fun file hfile => ?_, hc.shots, hc.bytes⟩
        cases hfile
        exact hc.fd hopen
      accepts := by
        have hacc := h.accepts _ _ hk
        refine forall_update ?_ fun k o _ => h.accepts k o
        intro o' ho'
        cases ho'
        exact hacc }

/-- **A completion is posted.** -/
theorem Sep.post {file : Option Nat} (more : Bool) (sh : Shot) (h : Sep s)
    (hk : s.kern.ops k = some o) (hp : o.phase = .armed file)
    (hacc : o.sqe.prep.isAccept = true → NewConn s.kern.net s.kern.closed sh)
    (hcli : ∀ c, file = some c → o.sqe.prep.isAccept = false → sh.conn = some c ∧
      ∀ bid, sh.buffer = some bid → From s.kern.mem (some c) (bid * BUF_SIZE) sh.res.toNat) :
    Sep { s with kern := s.kern.post k o file more sh } := by
  exact
    { h with
      client := by
        refine forall_update ?_ fun k o _ => h.client k o
        intro o' ho' hp'
        obtain ⟨hsqe, hconn, hfile, hposted⟩ := Op.post_eq hp (Option.some.inj ho').symm
        rw [hsqe] at hp'
        obtain ⟨c, hc⟩ := h.client k o hk hp'
        have hfc : file = some c := hc.file file (by rw [hp]; rfl)
        refine ⟨c, hconn.trans hc.conn, hc.lt, hsqe ▸ hc.fd, hfile ▸ hc.file, ?_, hsqe ▸ hc.bytes⟩
        intro sh' hsh'
        rw [hposted, List.mem_append, List.mem_singleton] at hsh'
        rcases hsh' with hsh' | rfl
        · exact hc.shots sh' hsh'
        · exact hcli c hfc hp'
      accepts := by
        refine forall_update ?_ fun k o _ => h.accepts k o
        intro o' ho' hp' sh' hsh'
        obtain ⟨hsqe, -, -, hposted⟩ := Op.post_eq hp (Option.some.inj ho').symm
        rw [hsqe] at hp'
        rw [hposted, List.mem_append, List.mem_singleton] at hsh'
        rcases hsh' with hsh' | rfl
        · exact h.accepts k o hk hp' sh' hsh'
        · exact hacc hp' }

/-- A descriptor number that is not open names a new connection. -/
theorem Sep.accept (h : Sep s) {res : Int} (hfree : s.kern.net.fds res = none) :
    Sep { s with kern := { s.kern with net := s.kern.net.accept res } } := by
  have hne : ∀ fd' c', s.kern.net.fds fd' = some c' → (s.kern.net.accept res).fds fd' = some c' := by
    intro fd' c' hfd'
    have hr : fd' ≠ res := by
      rintro rfl
      rw [hfree] at hfd'
      cases hfd'
    exact (Function.update_of_ne hr _ _).trans hfd'
  have hold : ∀ fd' c', c' < s.kern.net.next →
      ((s.kern.net.accept res).fds fd' = some c' ↔ s.kern.net.fds fd' = some c') := by
    intro fd' c' hlt
    refine ⟨fun hfd' => ?_, hne fd' c'⟩
    by_cases hr : fd' = res
    · subst hr
      simp only [Net.accept, Function.update_self, Option.some.injEq] at hfd'
      omega
    · exact (Function.update_of_ne hr _ _).symm.trans hfd'
  exact
    { client := by
        intro k o hk hp
        obtain ⟨c, hc⟩ := h.client k o hk hp
        exact ⟨c, hc.conn, Nat.lt_succ_of_lt hc.lt, fun hopen => hne _ _ (hc.fd hopen), hc.file,
          hc.shots, hc.bytes⟩
      accepts := by
        intro k o hk hp sh hsh
        have hn := h.accepts k o hk hp sh hsh
        unfold NewConn at hn ⊢
        split at hn
        · rename_i hres
          obtain ⟨c, hconn, hlt, hfd⟩ := hn
          rw [if_pos hres]
          exact ⟨c, hconn, Nat.lt_succ_of_lt hlt, fun hopen => hne _ _ (hfd hopen)⟩
        · rename_i hres
          rw [if_neg hres]
          exact hn
      sent := h.sent
      closes := h.closes
      gone := by
        intro c hc
        have hg := h.gone c hc
        exact ⟨Nat.lt_succ_of_lt hg.1, fun fd' hfd' => hg.2 fd' ((hold fd' c hg.1).1 hfd')⟩
      clients := by
        intro fd'
        rw [h.clients fd']
        exact exists_congr fun c => and_congr_right fun hc =>
          (hold fd' c (h.accepted_lt c hc)).symm
      accepted_lt := fun c hc => Nat.lt_succ_of_lt (h.accepted_lt c hc) }

/-- Data is stored in a buffer that no completion and no `send` reads. -/
theorem Sep.store {c : Nat} {b : Buf} {br : CounterRing Buf} {data : List Byte} (h : Sep s)
    (hI : Inv V none [] s) (hb : CounterRing.take NUM_BUFS s.kern.br = some (b, br))
    (hfit : data.length ≤ b.len) :
    Sep { s with kern := { s.kern with
      br := br
      mem := poke s.kern.mem b.addr data
      net := s.kern.net.receive c data
      handed := b.bid :: s.kern.handed } } :=
  { h with
    client := fun k' o' hk' hp' => by
      obtain ⟨c', hc'⟩ := h.client k' o' hk' hp'
      refine ⟨c', hc'.conn, hc'.lt, hc'.fd, hc'.file, fun sh hsh => ?_, fun addr n hprep => ?_⟩
      · refine ⟨(hc'.shots sh hsh).1, fun bid hbid => ?_⟩
        obtain ⟨hout, hin⟩ := hI.shot_inBuf hk' hsh hbid
        have hfrom := (hc'.shots sh hsh).2 bid hbid
        unfold From at hfrom ⊢
        rwa [hI.peek_handOut hb hfit hout hin]
      · obtain ⟨-, bid, -, -, -, -, hout, hin⟩ := hI.send_inBuf hk' hprep
        have hfrom := hc'.bytes addr n hprep
        unfold From at hfrom ⊢
        rwa [hI.peek_handOut hb hfit hout hin] }

/-- The buffer a completion hands over holds what its connection sent. -/
theorem Inv.from_stored {c n : Nat} {b : Buf} {br : CounterRing Buf} {data : List UInt8}
    (hI : Inv V none [] s) (hb : CounterRing.take NUM_BUFS s.kern.br = some (b, br))
    (hlen : n = data.length) :
    From (poke s.kern.mem b.addr (data.map (⟨·, some c⟩))) (some c) (b.bid * BUF_SIZE) n := by
  intro x hx
  have hmem : b ∈ s.kern.br.contents NUM_BUFS := by
    rw [CounterRing.contents_take (by decide) hb]
    exact List.mem_cons_self
  have hlen' : n = (data.map (⟨·, some c⟩ : UInt8 → Byte)).length := by
    rw [hlen, List.length_map]
  rw [hlen', ← (hI.ring b hmem).1, peek_poke_self] at hx
  obtain ⟨v, -, rfl⟩ := List.mem_map.1 hx
  rfl

/-- What a connection is sent came from it. -/
theorem Sep.transmit {c addr n : Nat} (h : Sep s) (hbytes : From s.kern.mem (some c) addr n) :
    Sep { s with kern := { s.kern with
      net := s.kern.net.transmit c (peek s.kern.mem addr n) } } :=
  { h with
    client := fun k o hk hp => by
      obtain ⟨c', hc'⟩ := h.client k o hk hp
      exact ⟨c', hc'.conn, hc'.lt, hc'.fd, hc'.file, hc'.shots, hc'.bytes⟩
    sent := fun c' b hb' => by
      by_cases hc' : c' = c
      · subst hc'
        simp only [Net.transmit, Function.update_self, List.mem_append] at hb'
        rcases hb' with hb' | hb'
        · exact h.sent c' b hb'
        · exact hbytes b hb'
      · simp only [Net.transmit, Function.update_of_ne hc'] at hb'
        exact h.sent c' b hb' }

/-- The kernel stores data in a buffer nobody reads, and sends what belongs to the connection. -/
theorem Sep.exec {res : Int} {more : Bool} {data : List UInt8} (h : Sep s) (hI : Inv V none [] s)
    (hs : s.kern.exec k res more data = some K') : Sep { s with kern := K' } := by
  obtain ⟨q, conn, file, shots, hk, -, hout⟩ := Kernel.exec_cases hs
  have hfile : ∀ c, file = some c → q.prep.isAccept = false →
      OwnConn s.kern.net s.kern.mem s.kern.closed ⟨q, conn, .armed file, shots⟩ c := by
    intro c hf hp
    obtain ⟨c', hc'⟩ := h.client k _ hk hp
    have := hc'.file file rfl
    obtain rfl : c' = c := Option.some.inj (this.symm.trans hf)
    exact hc'
  cases hout with
  | noFile hres =>
    refine h.post more _ hk rfl (fun _ => ?_) (by rintro _ ⟨⟩)
    exact (if_neg (Int.not_le.2 hres)).mpr rfl
  | refused hp hres =>
    have hacc : q.prep.isAccept = true := by rw [hp]; rfl
    refine h.post more _ hk rfl (fun _ => ?_) fun c _ hf => ?_
    · exact (if_neg (Int.not_le.2 hres)).mpr rfl
    · exact absurd (hacc.symm.trans hf) Bool.false_ne_true.symm
  | @accepted c _ hp hres hlt hfree =>
    have hacc : q.prep.isAccept = true := by rw [hp]; rfl
    refine (h.accept hfree).post more ⟨res, none, some s.kern.net.next⟩ hk rfl (fun _ => ?_)
      fun c _ hf => ?_
    · exact (if_pos hres).mpr ⟨s.kern.net.next, rfl, Nat.lt_succ_self _,
        fun _ => Function.update_self ..⟩
    · exact absurd (hacc.symm.trans hf) Bool.false_ne_true.symm
  | @empty c _ hp hres =>
    have hcli : q.prep.isAccept = false := by rw [hp]; rfl
    refine h.post more _ hk rfl (fun ha => ?_) fun c' hc' _ => ⟨hc', by rintro _ ⟨⟩⟩
    exact absurd (hcli.symm.trans ha) Bool.false_ne_true
  | @received c _ b br _ hp hne hlen hb hfit =>
    have hcli : q.prep.isAccept = false := by rw [hp]; rfl
    have hfit' : (data.map (⟨·, some c⟩ : UInt8 → Byte)).length ≤ b.len := by
      rwa [List.length_map]
    refine (h.store (c := c) hI hb hfit').post more ⟨res, some b.bid, some c⟩ hk rfl
      (fun ha => ?_) fun c' hc' _ => ⟨hc', fun bid hbid => ?_⟩
    · exact absurd (hcli.symm.trans ha) Bool.false_ne_true
    · cases hc'
      cases hbid
      exact hI.from_stored hb (by rw [hlen, Int.toNat_natCast])
  | @sent c addr len hp hres =>
    have hcli : q.prep.isAccept = false := by rw [hp]; rfl
    have hown := hfile c rfl hcli
    have hbytes := (hown.bytes addr len hp).take (m := res.toNat) (by omega)
    refine (h.transmit hbytes).post more ⟨res, none, some c⟩ hk rfl (fun ha => ?_)
      fun c' hc' _ => ⟨hc', by rintro _ ⟨⟩⟩
    exact absurd (hcli.symm.trans ha) Bool.false_ne_true

theorem Op.pop_mem {sh : Shot} {more : Bool} {r : Option Op} (h : o.pop = some (sh, more, r)) :
    sh ∈ o.posted := by
  rcases Op.pop_cases h with ⟨-, shots, hs, -⟩ | ⟨-, hs, ⟨file, hp⟩, -⟩
  · rw [Op.posted, hs]
    exact List.mem_cons_self
  · rw [Op.posted, hs, hp]
    exact List.mem_cons_self

/-- **A step that meets the condition keeps the connections separate.** -/
theorem step_sep {listenFd : Int} {e : Ev} (hI : Inv V none [] s) (h : Sep s) (hok : OnOpen V s e)
    (hs : step (serve V listenFd) s e = some s') : Sep s' := by
  cases e with
  | submit =>
    obtain ⟨K, hK, rfl⟩ := Option.map_eq_some_iff.1 hs
    exact h.submit hok hK
  | exec k res more data =>
    obtain ⟨K, hK, rfl⟩ := Option.map_eq_some_iff.1 hs
    exact h.exec hI hK
  | complete k =>
    simp only [step, Option.bind_eq_some_iff, Option.map_eq_some_iff] at hs
    obtain ⟨o, hk, ⟨sh, more, r⟩, hpop, rfl⟩ := hs
    obtain ⟨e, he, ht⟩ := hI.event hk
    refine serve_sep (h.pop hk hpop sh.conn) hI.net he ht (fun c hc => ?_) (fun ha => ?_)
      fun ha => ?_
    · obtain ⟨res, buffer, conn⟩ := sh
      obtain rfl : conn = some c := hc
      simp only [OnOpen, hk, hpop] at hok
      exact hok
    · exact h.accepts k o hk ha sh (Op.pop_mem hpop)
    · obtain ⟨c, hc⟩ := h.client k o hk ha
      have hshot := hc.shots sh (Op.pop_mem hpop)
      exact ⟨c, hshot.1, hc.lt, hc.fd, hshot.2, hc.bytes⟩

theorem init_sep (listenFd : Int) :
    Sep (queueAccept V.multishot (State.boot listenFd) listenFd : State ρ) := by
  refine Sep.queueAccept ?_ _ _
  exact
    { client := by rintro _ _ ⟨⟩
      accepts := by rintro _ _ ⟨⟩
      sent := by rintro _ _ ⟨⟩
      closes := ⟨[], List.nodup_nil, rfl⟩
      gone := by rintro _ ⟨_, ⟨⟩, _⟩
      clients := fun fd => iff_of_false List.not_mem_nil (by rintro ⟨_, ⟨⟩, _⟩)
      accepted_lt := by rintro _ ⟨⟩ }

/-- The runs whose steps all meet the condition keep the connections separate. -/
theorem machine_sep {listenFd : Int} {es : List Ev}
    (hok : (machine V (serve V) listenFd).Meets (OnOpen V) (machine V (serve V) listenFd).init es)
    (hs : (machine V (serve V) listenFd).run es = some s) : Inv V none [] s ∧ Sep s :=
  Machine.run_inv_of (M := machine V (serve V) listenFd) (I := fun s => Inv V none [] s ∧ Sep s)
    ⟨init_inv listenFd, init_sep listenFd⟩
    (fun _ _ _ h hok hs => ⟨step_inv h.1 hs, step_sep h.1 h.2 hok hs⟩) hok hs

end AdvCpp.Uring.BufferSelect

namespace AdvCpp.Uring.Multishot

open AdvCpp.Lib BufferSelect

/-- **Connection isolation** in the runs in which every request that is submitted and every
completion that is handled belongs to an open connection, or ends a buffer without re-arming. -/
theorem multishot_isolated {listenFd : Int} {es : List BufferSelect.Ev} {s : BufferSelect.State Bool}
    (hok : (server listenFd).Meets (OnOpen variant) (server listenFd).init es)
    (hs : (server listenFd).run es = some s) : Isolated s := by
  unfold server at hok hs
  rw [handleCqe_eq_serve] at hok hs
  exact (machine_sep hok hs).2.isolated

/-- Two clients one after the other on descriptor 5, the first one gone before the second comes. -/
def twoClients : List BufferSelect.Ev :=
  [.submit, .exec 0 5 true [], .complete 0, .submit, .exec 1 1 true [104], .complete 1, .submit,
    .exec 2 1 false [], .complete 2, .exec 1 0 false [], .complete 1, .exec 0 5 true [],
    .complete 0, .submit, .exec 3 1 true [105], .complete 3, .submit, .exec 4 1 false [],
    .complete 4]

theorem multishot_isolated_twoClients :
    ∃ s, (server 3).run twoClients = some s ∧ Isolated s := by
  have hrun : ((server 3).run twoClients).isSome = true := by
    unfold server BufferSelect.machine BufferSelect.State.boot
    rw [setupBufRing_eq]
    rfl
  have hok : (server 3).Meets (OnOpen variant) (server 3).init twoClients := by
    unfold server BufferSelect.machine BufferSelect.State.boot
    rw [setupBufRing_eq]
    decide +kernel
  obtain ⟨s, hs⟩ := Option.isSome_iff_exists.1 hrun
  exact ⟨s, hs, multishot_isolated hok hs⟩

/-- A send of the first client fails while its receive is still armed, and the second client gets
the descriptor that was closed for it. -/
def staleRecv : List BufferSelect.Ev :=
  [.submit, .exec 0 5 true [], .complete 0, .submit, .exec 1 1 true [104], .complete 1, .submit,
    .exec 2 (-32) false [], .complete 2, .exec 0 5 true [], .complete 0, .exec 1 1 true [65],
    .complete 1, .submit, .submit, .exec 4 1 false [], .complete 4, .exec 1 0 false [],
    .complete 1]

/-- **A byte of the first client is sent to the second one**, whose descriptor is then closed by a
completion of the first. -/
theorem multishot_crossed :
    ¬∀ (listenFd : Int) (es : List BufferSelect.Ev) (s : BufferSelect.State Bool),
      (server listenFd).run es = some s → Isolated s := by
  intro hall
  have hrun : ((server 3).run staleRecv).map (fun s => (s.kern.net.tx 2, s.kern.closed)) =
      some ([⟨65, some 1⟩], [(some 1, some 2), (some 1, some 1)]) := by
    unfold server BufferSelect.machine BufferSelect.State.boot
    rw [setupBufRing_eq]
    decide +kernel
  obtain ⟨s, hs, hval⟩ := Option.map_eq_some_iff.1 hrun
  have hsent := (hall 3 staleRecv s hs).sent 2 ⟨65, some 1⟩
  rw [(Prod.mk.inj hval).1] at hsent
  cases hsent (List.mem_singleton_self _)

end AdvCpp.Uring.Multishot
