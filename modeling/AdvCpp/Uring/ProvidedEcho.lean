import AdvCpp.Uring.MultishotFifo

/-!
# Connections of the provided-buffer server

`10_provided_buffers.cpp` has one completion for each request and one request for each client, so
every step meets the conditions under which the multi-shot server keeps its connections apart and
their bytes in order.

* `Solo` — one accept, one request for every open connection.
* `Good.kernelOrder`, `Good.onOpen`, `Good.inOrder` — the conditions hold at every step.
* `provided_echo` — what holds of the server after every schedule.
-/

namespace AdvCpp.Uring.BufferSelect

open AdvCpp.Lib ProvidedBuffers

/-- Whom a request is for. -/
inductive Owner where
  | acceptor
  | client (c : Nat)
  deriving DecidableEq

def own (o : Op) : Option Owner :=
  if o.sqe.prep.isAccept then some .acceptor else o.conn.map .client

/-- The acceptor, and the connections that have been accepted and not closed. -/
def Live (K : Kernel) : Owner → Prop
  | .acceptor => True
  | .client c => c ∈ K.accepted ∧ ¬IsClosed K.closed c

/-- **One request for the acceptor and for every open connection.** -/
structure Solo (s : State Unit) : Prop where
  excl : Exclusive s.kern.ops own (Live s.kern)
  closed : ∀ c, IsClosed s.kern.closed c → c ∈ s.kern.accepted

/-- The invariant with those that it rests on. -/
structure Good (s : State Unit) : Prop where
  inv : Inv variant none [] s
  sep : Sep s
  fifo : Fifo variant (fun _ => []) [] s
  solo : Solo s

section Facts

variable {s s' : State Unit} {k k' : Nat} {o o' : Op} {c : Nat} {live : Owner → Prop} {i : Owner}
  {q : Sqe} {listenFd : Int}

theorem own_client (ha : o.sqe.prep.isAccept = false) (hc : o.conn = some c) :
    own o = some (.client c) := by
  simp [own, ha, hc]

theorem own_acceptor (ha : o.sqe.prep.isAccept = true) : own o = some .acceptor := by
  simp [own, ha]

theorem isAccept_of_isSend (h : o.sqe.prep.isSend = true) : o.sqe.prep.isAccept = false := by
  cases hp : o.sqe.prep with
  | accept ms =>
    rw [hp] at h
    cases h
  | recv ms => rfl
  | send addr n => rfl

/-- The connection of a receive or a send is open. -/
theorem Good.open (h : Good s) (hk : s.kern.ops k = some o) (ha : o.sqe.prep.isAccept = false) :
    ∃ c, OwnConn s.kern.net s.kern.mem s.kern.closed o c ∧ c ∈ s.kern.accepted ∧
      ¬IsClosed s.kern.closed c := by
  obtain ⟨c, hc⟩ := h.sep.client k o hk ha
  exact ⟨c, hc, h.solo.excl.live_own hk (own_client ha hc.conn)⟩

/-- No other request of the connection. -/
theorem Good.unique (h : Good s) (hk : s.kern.ops k = some o) (ha : o.sqe.prep.isAccept = false)
    (hc : o.conn = some c) (hk' : s.kern.ops k' = some o') (ha' : o'.sqe.prep.isAccept = false)
    (hc' : o'.conn = some c) : k' = k :=
  h.solo.excl.inj hk' hk (own_client ha' hc') (own_client ha hc)

/-- The connection that a completion of the accept brings is new. -/
theorem Good.new (h : Good s) (hk : s.kern.ops k = some o) (ha : o.sqe.prep.isAccept = true)
    {sh : Shot} (hsh : sh ∈ o.posted) (hc : sh.conn = some c) :
    c ∉ s.kern.accepted ∧ ¬IsClosed s.kern.closed c := by
  have hnew : c ∈ gather Op.newConns s.kern.nextOp s.kern.ops := by
    refine mem_gather.2 ⟨k, o, h.inv.lt hk, hk, ?_⟩
    unfold Op.newConns
    split
    · exact List.mem_filterMap.2 ⟨sh, hsh, hc⟩
    · rename_i hp
      cases hprep : o.sqe.prep with
      | accept ms => exact absurd hprep (hp ms)
      | recv ms =>
        rw [hprep] at ha
        cases ha
      | send addr n =>
        rw [hprep] at ha
        cases ha
  have hnot : c ∉ s.kern.accepted := fun hacc =>
    (List.disjoint_of_nodup_append h.fifo.newConns) hnew hacc
  exact ⟨hnot, fun hcl => hnot (h.solo.closed c hcl)⟩

theorem waiting_conn (hw : o.waiting c ∨ o.short c) :
    o.sqe.prep.isAccept = false ∧ o.conn = some c := by
  obtain ⟨⟨fd, prep, ud⟩, conn, phase, shots⟩ := o
  cases prep with
  | accept ms => cases phase <;> exact hw.elim False.elim False.elim
  | recv ms => cases phase <;> exact hw.elim False.elim False.elim
  | send addr n =>
    cases phase with
    | queued => exact ⟨rfl, hw.elim id False.elim⟩
    | armed file => exact ⟨rfl, hw.elim id False.elim⟩
    | ended file sh => exact ⟨rfl, hw.elim False.elim And.left⟩

/-- Requests of this program have one completion. -/
theorem Good.single (h : Good s) (hk : s.kern.ops k = some o) : o.sqe.prep.multishot = false := by
  obtain ⟨e, -, ht⟩ := h.inv.event hk
  cases e with
  | accept fd => rw [ht.2]; rfl
  | recv fd => rw [ht.2]; rfl
  | send fd bid len offset r => rw [ht.2.1]; rfl

/-- A receive has at most one completion, and the sends of a connection are executed in order. -/
theorem Good.kernelOrder {e : Ev} (h : Good s) (hs : step (serve variant listenFd) s e = some s') :
    KernelOrder s e := by
  cases e with
  | submit => trivial
  | complete k => trivial
  | exec k res more data =>
    obtain ⟨K, hK, -⟩ := Option.map_eq_some_iff.1 hs
    obtain ⟨q, conn, file, shots, hk, hmore, -⟩ := Kernel.exec_cases hK
    have hlast : more = false := by
      cases more with
      | false => rfl
      | true => exact absurd (hmore rfl) (by rw [h.single hk]; exact Bool.false_ne_true)
    clear hmore
    unfold KernelOrder
    dsimp only
    rw [hk]
    obtain ⟨fd, prep, ud⟩ := q
    cases prep with
    | accept ms => trivial
    | recv ms => exact fun _ => hlast
    | send addr n =>
      intro k' hlt o' hk' hphase
      obtain ⟨c, hown, -⟩ := h.open hk rfl
      have hc := hown.file file rfl
      cases hsend : o'.sqe.prep.isSend with
      | false => rfl
      | true =>
        obtain ⟨c', hown', -⟩ := h.open hk' (isAccept_of_isSend hsend)
        have hc' := hown'.file file (by rw [hphase]; rfl)
        cases hc.symm.trans hc'
        have heq := h.unique hk rfl hown.conn hk' (isAccept_of_isSend hsend) hown'.conn
        exact absurd heq (Nat.ne_of_lt hlt)

/-- What is submitted or handled belongs to an open connection. -/
theorem Good.onOpen (h : Good s) (e : Ev) : OnOpen variant s e := by
  cases e with
  | submit =>
    unfold OnOpen
    dsimp only
    split
    · rename_i q c phase shots hk
      cases ha : q.prep.isAccept with
      | true => exact Or.inl rfl
      | false =>
        obtain ⟨c', hown, -, hopen⟩ := h.open hk ha
        cases hown.conn
        exact Or.inr hopen
    · trivial
  | exec k res more data => trivial
  | complete k =>
    unfold OnOpen
    dsimp only
    split
    · rename_i o hk
      split
      · rename_i res buffer c more r hpop
        have hmem := Op.pop_mem hpop
        refine Or.inl ?_
        cases ha : o.sqe.prep.isAccept with
        | true => exact (h.new hk ha hmem rfl).2
        | false =>
          obtain ⟨c', hown, -, hopen⟩ := h.open hk ha
          cases (hown.shots _ hmem).1
          exact hopen
      · trivial
    · trivial

/-- No other send of its connection waits behind a short one, and no receive does. -/
theorem Good.inOrder (h : Good s) (e : Ev) : InOrder s e := by
  cases e with
  | submit => trivial
  | exec k res more data =>
    unfold InOrder
    dsimp only
    split
    · rename_i fd addr n ud c phase shots hk
      intro _ k' _ hne o' hk' hw
      obtain ⟨ha', hc'⟩ := waiting_conn (Or.inl hw)
      exact hne (h.unique hk rfl rfl hk' ha' hc')
    · trivial
  | complete k =>
    unfold InOrder
    dsimp only
    split
    · rename_i o hk
      split
      · rename_i ms res buffer c more r hprep hpop
        intro _ k' _ o' hk' hshort
        have ha : o.sqe.prep.isAccept = false := by rw [hprep]; rfl
        obtain ⟨c', hown, -⟩ := h.open hk ha
        cases (hown.shots _ (Op.pop_mem hpop)).1
        obtain ⟨ha', hc'⟩ := waiting_conn (Or.inr hshort)
        cases h.unique hk ha hown.conn hk' ha' hc'
        cases hk.symm.trans hk'
        exact Op.not_open_recv hprep _ (Or.inr hshort)
      · trivial
    · trivial

/-! ## One turn of the event loop -/

theorem Solo.congr (h : Solo s) (hops : s'.kern.ops = s.kern.ops)
    (haccepted : s'.kern.accepted = s.kern.accepted) (hclosed : s'.kern.closed = s.kern.closed) :
    Solo s' where
  excl := by
    rw [hops]
    refine h.excl.congr fun i => ?_
    cases i with
    | acceptor => rfl
    | client c => simp only [Live, haccepted, hclosed]
  closed := fun c hc => haccepted ▸ h.closed c (hclosed ▸ hc)

theorem Solo.delete (h : Solo s) (p : Nat) : Solo (s.delete p) := by
  unfold State.delete
  split <;> exact h.congr rfl rfl rfl

/-- The state in which a completion with the connection `conn` is handled. -/
def taken (s : State Unit) (k : Nat) (conn : Option Nat) : State Unit :=
  { s with kern := { s.kern.setOp k none with cur := conn } }

/-- The next request of the same owner. -/
theorem Good.requeue (h : Good s) (hk : s.kern.ops k = some o) (ho : own o = some i)
    {conn : Option Nat} (hq : own ⟨q, conn, .queued, []⟩ = some i) :
    Solo ((taken s k conn).queue q) where
  excl := h.solo.excl.requeue hk ho (h.inv.fresh _ (Nat.le_refl _)) hq
  closed := h.solo.closed

/-- The connection is closed. -/
theorem Good.retire {fd : Int} (h : Good s) (hk : s.kern.ops k = some o)
    (ho : own o = some (.client c)) (hfd : s.kern.net.fds fd = some c) (hc : c ∈ s.kern.accepted)
    (conn : Option Nat) : Solo (((taken s k conn).closeFd fd).eraseClient fd) where
  excl := by
    refine (h.solo.excl.retire hk ho).congr fun j => ?_
    cases j with
    | acceptor => simp [Live]
    | client c' =>
      show c' ∈ s.kern.accepted ∧ ¬IsClosed ((conn, s.kern.net.fds fd) :: s.kern.closed) c' ↔ _
      simp only [Live, IsClosed, hfd, List.exists_mem_cons_iff, Option.some.injEq, not_or, ne_eq,
        Owner.client.injEq]
      rw [eq_comm (a := c)]
      tauto
  closed := by
    intro c' hc'
    have hcases : c = c' ∨ IsClosed s.kern.closed c' := by
      change IsClosed ((conn, s.kern.net.fds fd) :: s.kern.closed) c' at hc'
      simpa only [IsClosed, hfd, List.exists_mem_cons_iff, Option.some.injEq] using hc'
    rcases hcases with rfl | hold
    · exact hc
    · exact h.solo.closed c' hold

/-- A new connection gets its request before the accept is submitted again. -/
theorem Good.spawn {q' : Sqe} {res : Int} (h : Good s) (hk : s.kern.ops k = some o)
    (ho : own o = some .acceptor) (hq : q.prep.isAccept = false) (hq' : q'.prep.isAccept = true)
    (hc : c ∉ s.kern.accepted ∧ ¬IsClosed s.kern.closed c) :
    Solo (((((taken s k (some c)).insertClient res).queue q).newEvent (.recv res)).queue q') where
  excl := by
    have hfree : ∀ n, s.kern.nextOp ≤ n → Function.update s.kern.ops k none n = none := by
      intro n hn
      have hne : n ≠ k := Nat.ne_of_gt (Nat.lt_of_lt_of_le (h.inv.lt hk) hn)
      exact (Function.update_of_ne hne _ _).trans (h.inv.fresh n hn)
    have hfirst := (h.solo.excl.retire hk ho).spawn (b := ⟨q, some c, .queued, []⟩)
      (i := .client c) (hfree _ (Nat.le_refl _)) (own_client hq rfl) fun hl => hc.1 hl.1.1
    refine (hfirst.spawn (k := s.kern.nextOp + 1) (b := ⟨q', some c, .queued, []⟩) (i := .acceptor) ?_
      (own_acceptor hq') (by simp)).congr fun j => ?_
    · exact (Function.update_of_ne (Nat.succ_ne_self _) _ _).trans (hfree _ (Nat.le_succ _))
    · cases j with
      | acceptor => simp [Live]
      | client c' =>
        show c' ∈ c :: s.kern.accepted ∧ ¬IsClosed s.kern.closed c' ↔ _
        simp only [Live, List.mem_cons, ne_eq, reduceCtorEq, not_false_eq_true, and_true,
          Owner.client.injEq, or_false]
        by_cases hcc : c' = c
        · subst hcc
          simp [hc.2]
        · simp [hcc]
  closed := fun c' hc' => List.mem_cons_of_mem _ (h.solo.closed c' hc')

/-- **One turn.** -/
theorem Good.serve (h : Good s) (hk : s.kern.ops k = some o) {sh : Shot} (hsh : sh ∈ o.posted)
    (more : Bool) :
    Solo (serve variant listenFd (taken s k sh.conn) o.sqe.userData ⟨sh.res, more, sh.buffer⟩) := by
  obtain ⟨e, he, ht⟩ := h.inv.event hk
  have he' : (taken s k sh.conn).app.heap o.sqe.userData = some e := he
  have hmulti : (variant.multishot && more) = false := rfl
  cases e with
  | accept fd =>
    have ha : o.sqe.prep.isAccept = true := by rw [ht.2]; rfl
    simp only [BufferSelect.serve, he', hmulti, Bool.false_eq_true, if_false]
    refine Solo.delete ?_ _
    split
    · rename_i hres
      have hnew := h.sep.accepts k o hk ha sh hsh
      obtain ⟨c, hc, -⟩ := (if_pos hres).mp hnew
      rw [hc]
      exact (h.spawn hk (own_acceptor ha) rfl rfl (h.new hk ha hsh hc)).congr rfl rfl rfl
    · exact (h.requeue hk (own_acceptor ha) (own_acceptor rfl)).congr rfl rfl rfl
  | recv fd =>
    have ha : o.sqe.prep.isAccept = false := by rw [ht.2]; rfl
    obtain ⟨c, hown, hc, hopen⟩ := h.open hk ha
    have hfd : s.kern.net.fds fd = some c := ht.1 ▸ hown.fd hopen
    have hconn := (hown.shots sh hsh).1
    have hi := own_client ha hown.conn
    simp only [BufferSelect.serve, he', hmulti, Bool.false_eq_true, if_false]
    refine Solo.delete ?_ _
    split
    · exact (h.requeue hk hi (own_client rfl hconn)).congr rfl rfl rfl
    · split
      · exact h.retire hk hi hfd hc _
      · split
        · exact h.retire hk hi hfd hc _
        · rw [queueSend_newEvent]
          exact (h.requeue hk hi (own_client rfl hconn)).congr rfl rfl rfl
  | send fd bid len offset r =>
    have ha : o.sqe.prep.isAccept = false := by rw [ht.2.1]; rfl
    obtain ⟨c, hown, hc, hopen⟩ := h.open hk ha
    have hfd : s.kern.net.fds fd = some c := ht.1 ▸ hown.fd hopen
    have hconn := (hown.shots sh hsh).1
    have hi := own_client ha hown.conn
    have hclient : fd ∈ s.app.clients := (h.sep.clients fd).2 ⟨c, hc, hfd⟩
    simp only [BufferSelect.serve, he']
    split
    · refine Solo.delete ?_ _
      exact (h.retire hk hi hfd hc sh.conn).congr rfl rfl rfl
    · split
      · have hqueue : queueSend ((taken s k sh.conn).setEvent o.sqe.userData
            (.send fd bid len (offset + sh.res.toNat) r)) o.sqe.userData =
            ((taken s k sh.conn).setEvent o.sqe.userData
              (.send fd bid len (offset + sh.res.toNat) r)).queue
            ⟨fd, .send (bid * BUF_SIZE + (offset + sh.res.toNat)) (len - (offset + sh.res.toNat)),
              o.sqe.userData⟩ := by
          simp only [queueSend, State.setEvent, Function.update_self]
        rw [hqueue]
        exact (h.requeue hk hi (own_client rfl hconn)).congr rfl rfl rfl
      · have hre : (variant.rearm r && decide (fd ∈ s.app.clients)) = true := by
          simpa [variant] using hclient
        refine Solo.delete ?_ _
        rw [show (variant.rearm r && decide (fd ∈ (recycleBuf ((taken s k sh.conn).setEvent
          o.sqe.userData (.send fd bid len (offset + sh.res.toNat) r)) bid).app.clients)) = true
          from hre, if_pos rfl]
        exact (h.requeue hk hi (own_client rfl hconn)).congr rfl rfl rfl

/-! ## Runs -/

/-- A step that changes neither the owners of the requests nor the records. -/
theorem Solo.of_own (h : Solo s) (hown : ∀ k, (s'.kern.ops k).bind own = (s.kern.ops k).bind own)
    (haccepted : s'.kern.accepted = s.kern.accepted) (hclosed : s'.kern.closed = s.kern.closed) :
    Solo s' where
  excl := by
    refine (h.excl.of_own_eq hown).congr fun i => ?_
    cases i with
    | acceptor => rfl
    | client c => simp only [Live, haccepted, hclosed]
  closed := fun c hc => haccepted ▸ h.closed c (hclosed ▸ hc)

/-- An entry changes but keeps its owner. -/
theorem own_update {ops : Nat → Option Op} (hk : ops k = some o) (ho : own o' = own o) (k' : Nat) :
    (Function.update ops k (some o') k').bind own = (ops k').bind own := by
  by_cases he : k' = k
  · subst he
    rw [Function.update_self, hk]
    exact ho
  · rw [Function.update_of_ne he]

/-- The receive is always submitted again by the end of the send. -/
theorem rearm_mark (more : Bool) (h : (variant.multishot && more) = more) :
    variant.rearm (variant.mark (!more)) = !more := by
  rw [← h]
  rfl

theorem Good.step {e : Ev} (h : Good s)
    (hs : step (BufferSelect.serve variant listenFd) s e = some s') :
    Good s' := by
  have hopen := h.onOpen e
  refine ⟨step_inv h.inv hs, step_sep h.inv h.sep hopen hs,
    step_fifo rearm_mark h.inv h.sep h.fifo (h.kernelOrder hs) hopen (h.inOrder e) hs, ?_⟩
  cases e with
  | submit =>
    obtain ⟨K, hK, rfl⟩ := Option.map_eq_some_iff.1 hs
    obtain ⟨q, conn, shots, hk, rfl⟩ := Kernel.submit_cases hK
    exact h.solo.of_own (own_update hk rfl) rfl rfl
  | exec k res more data =>
    obtain ⟨K, hK, rfl⟩ := Option.map_eq_some_iff.1 hs
    obtain ⟨q, conn, file, shots, hk, -, hout⟩ := Kernel.exec_cases hK
    have hpost : ∀ sh : Shot, own (if more then
        (⟨q, conn, .armed file, shots ++ [sh]⟩ : Op) else ⟨q, conn, .ended file sh, shots⟩) =
        own ⟨q, conn, .armed file, shots⟩ := by
      intro sh
      split <;> rfl
    cases hout <;> exact h.solo.of_own (own_update hk (hpost _)) rfl rfl
  | complete k =>
    simp only [BufferSelect.step, Option.bind_eq_some_iff, Option.map_eq_some_iff] at hs
    obtain ⟨o, hk, ⟨sh, more, r⟩, hpop, rfl⟩ := hs
    have hlast : r = none := by
      rcases Op.pop_cases hpop with ⟨-, shots, hshots, -⟩ | ⟨-, -, -, hr⟩
      · have hmulti := h.inv.multi k o hk (by rw [hshots]; exact List.cons_ne_nil _ _)
        rw [h.single hk] at hmulti
        cases hmulti
      · exact hr
    subst hlast
    exact h.serve hk (Op.pop_mem hpop) more

theorem good_init (listenFd : Int) : Good (server listenFd).init where
  inv := init_inv listenFd
  sep := init_sep listenFd
  fifo := init_fifo listenFd
  solo :=
    { excl := by
        refine ((Exclusive.empty own).spawn (k := 0)
          (b := ⟨⟨listenFd, .accept false, 0⟩, none, .queued, []⟩) (i := .acceptor) rfl rfl
          id).congr fun i => ?_
        cases i with
        | acceptor => simp [Live]
        | client c => exact iff_of_false (by rintro ⟨⟨⟩, _⟩) (by simp)
      closed := by rintro _ ⟨_, ⟨⟩, _⟩ }

theorem run_good {es : List Ev} (h : (server listenFd).run es = some s) : Good s := by
  unfold server at h
  rw [handleCqe_eq_serve] at h
  exact Machine.run_inv (M := machine variant (serve variant) listenFd) (good_init listenFd)
    (fun _ _ _ hg hs => hg.step hs) h

end Facts

/-! ## The server as its clients see it -/

/-- What holds of the server after every schedule. -/
structure Served (s : State Unit) : Prop where
  oneAccept : ∃! k, ∃ o, s.kern.ops k = some o ∧ o.sqe.prep.isAccept = true
  oneForClient : ∀ fd ∈ s.app.clients,
    ∃! k, ∃ o, s.kern.ops k = some o ∧ o.sqe.prep.isAccept = false ∧ o.sqe.fd = fd
  noneForOthers : ∀ fd, fd ∉ s.app.clients → ∀ k o, s.kern.ops k = some o →
    o.sqe.prep.isAccept = false → o.sqe.fd ≠ fd
  /-- The descriptor of a request names the connection that it was submitted for. -/
  sameConn : ∀ k o, s.kern.ops k = some o → o.sqe.prep.isAccept = false →
    ∃ c, o.conn = some c ∧ s.kern.net.fds o.sqe.fd = some c ∧
      ∀ file, o.phase.file = some file → file = some c
  /-- An accepted connection is either behind the descriptor of a client, or has been closed, once
  and by a completion of its own. -/
  closedOnce : ∃ cs : List Nat, cs.Nodup ∧ s.kern.closed = cs.map (fun c => (some c, some c)) ∧
    ∀ c, (c ∈ s.kern.accepted ↔ c ∈ cs ∨ ∃ fd ∈ s.app.clients, s.kern.net.fds fd = some c) ∧
      ¬(c ∈ cs ∧ ∃ fd, s.kern.net.fds fd = some c)
  /-- Bytes are sent on the connection that they were received on, in the order of their arrival. -/
  echo : ∀ c, s.kern.net.tx c <+: s.kern.net.rx c ∧ ∀ b ∈ s.kern.net.tx c, b.src = some c

section Served

variable {s : State Unit} {k : Nat} {o : Op} {c : Nat}

theorem not_isAccept_of_own (ho : own o = some (.client c)) : o.sqe.prep.isAccept = false := by
  cases ha : o.sqe.prep.isAccept with
  | true => cases (own_acceptor ha).symm.trans ho
  | false => rfl

/-- A request is for the connection behind its descriptor. -/
theorem Good.behind (hg : Good s) (hk : s.kern.ops k = some o) (ha : o.sqe.prep.isAccept = false) :
    ∃ c, o.conn = some c ∧ s.kern.net.fds o.sqe.fd = some c ∧ c ∈ s.kern.accepted ∧
      ∀ file, o.phase.file = some file → file = some c := by
  obtain ⟨c, hown, hacc, hopen⟩ := hg.open hk ha
  exact ⟨c, hown.conn, hown.fd hopen, hacc, hown.file⟩

theorem Good.behind_own (hg : Good s) (hk : s.kern.ops k = some o)
    (ho : own o = some (.client c)) : s.kern.net.fds o.sqe.fd = some c := by
  have ha := not_isAccept_of_own ho
  obtain ⟨c', hc', hfd, -⟩ := hg.behind hk ha
  cases (own_client ha hc').symm.trans ho
  exact hfd

theorem Good.oneAccept (hg : Good s) :
    ∃! k, ∃ o, s.kern.ops k = some o ∧ o.sqe.prep.isAccept = true := by
  obtain ⟨k, ⟨o, hk, ho⟩, huniq⟩ := hg.solo.excl.existsUnique (i := .acceptor) trivial
  refine ⟨k, ⟨o, hk, ?_⟩, ?_⟩
  · cases ha : o.sqe.prep.isAccept with
    | true => rfl
    | false =>
      obtain ⟨c, hc, -⟩ := hg.behind hk ha
      cases (own_client ha hc).symm.trans ho
  · rintro k' ⟨o', hk', ha'⟩
    exact huniq k' ⟨o', hk', own_acceptor ha'⟩

theorem Good.oneForClient (hg : Good s) {fd : Int} (hfd : fd ∈ s.app.clients) :
    ∃! k, ∃ o, s.kern.ops k = some o ∧ o.sqe.prep.isAccept = false ∧ o.sqe.fd = fd := by
  obtain ⟨c, hacc, hc⟩ := (hg.sep.clients fd).1 hfd
  have hopen : ¬IsClosed s.kern.closed c := fun hcl => (hg.sep.gone c hcl).2 fd hc
  obtain ⟨k, ⟨o, hk, ho⟩, huniq⟩ := hg.solo.excl.existsUnique (i := .client c) ⟨hacc, hopen⟩
  refine ⟨k, ⟨o, hk, not_isAccept_of_own ho, hg.inv.net.inj (hg.behind_own hk ho) hc⟩, ?_⟩
  rintro k' ⟨o', hk', ha', rfl⟩
  obtain ⟨c', hc', hfd', -⟩ := hg.behind hk' ha'
  cases hfd'.symm.trans hc
  exact huniq k' ⟨o', hk', own_client ha' hc'⟩

theorem Good.closedOnce (hg : Good s) :
    ∃ cs : List Nat, cs.Nodup ∧ s.kern.closed = cs.map (fun c => (some c, some c)) ∧
      ∀ c, (c ∈ s.kern.accepted ↔ c ∈ cs ∨ ∃ fd ∈ s.app.clients, s.kern.net.fds fd = some c) ∧
        ¬(c ∈ cs ∧ ∃ fd, s.kern.net.fds fd = some c) := by
  obtain ⟨cs, hnodup, hcs⟩ := hg.sep.closes
  have hmem : ∀ c, IsClosed s.kern.closed c ↔ c ∈ cs := by
    intro c
    simp [IsClosed, hcs]
  refine ⟨cs, hnodup, hcs, fun c => ⟨⟨fun hacc => ?_, ?_⟩, ?_⟩⟩
  · by_cases hcl : c ∈ cs
    · exact Or.inl hcl
    · -- a connection that has not been closed has a request
      have hlive : Live s.kern (.client c) := ⟨hacc, fun h => hcl ((hmem c).1 h)⟩
      obtain ⟨k, o, hk, ho⟩ := (hg.solo.excl.live_iff _).1 hlive
      have hfd := hg.behind_own hk ho
      exact Or.inr ⟨o.sqe.fd, (hg.sep.clients _).2 ⟨c, hacc, hfd⟩, hfd⟩
  · rintro (hcl | ⟨fd, hfd, hc⟩)
    · exact hg.solo.closed c ((hmem c).2 hcl)
    · obtain ⟨c', hacc, hc'⟩ := (hg.sep.clients fd).1 hfd
      cases hc.symm.trans hc'
      exact hacc
  · rintro ⟨hcl, fd, hfd⟩
    exact (hg.sep.gone c ((hmem c).2 hcl)).2 fd hfd

theorem Good.served (hg : Good s) : Served s where
  oneAccept := hg.oneAccept
  oneForClient := fun fd hfd => hg.oneForClient hfd
  noneForOthers := fun fd hfd k o hk ha heq => by
    subst heq
    obtain ⟨c, -, hc, hacc, -⟩ := hg.behind hk ha
    exact hfd ((hg.sep.clients o.sqe.fd).2 ⟨c, hacc, hc⟩)
  sameConn := fun k o hk ha => by
    obtain ⟨c, hconn, hc, -, hfile⟩ := hg.behind hk ha
    exact ⟨c, hconn, hc, hfile⟩
  closedOnce := hg.closedOnce
  echo := fun c => ⟨(hg.fifo.stream c).isPrefix, hg.sep.sent c⟩

end Served

end AdvCpp.Uring.BufferSelect

namespace AdvCpp.Uring.ProvidedBuffers

open AdvCpp.Lib BufferSelect

/-- **One accept, one request for every client, one close for every connection, and an echo that is
a prefix of what was received.** -/
theorem provided_echo {listenFd : Int} {es : List BufferSelect.Ev} {s : BufferSelect.State Unit}
    (h : (server listenFd).run es = some s) : Served s :=
  (run_good h).served

/-- A receive without a buffer, two sends of one byte each, the end of the connection, and a second
client on the same descriptor. -/
def reusedFd : List BufferSelect.Ev :=
  [.submit, .exec 0 5 false [], .complete 0, .submit, .exec 1 (-105) false [], .complete 1, .submit,
    .submit, .exec 3 2 false [104, 105], .complete 3, .submit, .exec 4 1 false [], .complete 4,
    .submit, .exec 5 1 false [], .complete 5, .submit, .exec 6 0 false [], .complete 6,
    .exec 2 5 false [], .complete 2]

theorem provided_echo_reusedFd : ∃ s, (server 3).run reusedFd = some s ∧ Served s := by
  have hrun : ((server 3).run reusedFd).isSome = true := by
    unfold server BufferSelect.machine BufferSelect.State.boot
    rw [setupBufRing_eq]
    rfl
  obtain ⟨s, hs⟩ := Option.isSome_iff_exists.1 hrun
  exact ⟨s, hs, provided_echo hs⟩

end AdvCpp.Uring.ProvidedBuffers
