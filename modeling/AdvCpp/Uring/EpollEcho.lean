import AdvCpp.Lib.Bytes
import AdvCpp.Lib.Machine
import AdvCpp.Uring.Net

/-!
# The epoll echo server

`main` of `07_echo_server_epoll.cpp` from its first `epoll_wait` on: one thread, a map from
descriptors to clients, and an array of events that says which descriptors are ready.  A step is one
system call and what the program does until the next one; the results are the kernel's choice.  While
one batch of events is served, descriptors are closed and given out again.

* `machine` — every run of the server.
* `Inv`, `run_inv` — clients, interest list and events against the open descriptors.
* `epoll_events_current` — an event is served on the connection that it was about.
* `epollEcho_exact_iff` — when exactly every byte comes back.
-/

namespace AdvCpp.Uring.EpollEcho

open AdvCpp.Lib

def MAX_EVENTS : Nat := 256
def BUF_SIZE : Nat := 4096

structure Client where
  fd : Int
  buf : List UInt8
  deriving DecidableEq

/-- `Client{ fd }`: a zeroed buffer. -/
def Client.new (fd : Int) : Client := ⟨fd, List.replicate BUF_SIZE 0⟩

/-- The call that the program is at; `conn` is not the program's: it records the connection that the
event was about. -/
inductive Pc where
  | epollWait
  | event
  | accept
  | read (fd : Int) (conn : Nat)
  | write (fd : Int) (conn : Nat) (nr : Nat)
  | threw
  deriving DecidableEq

/-- `interest` is the interest list of `epfd`: the connection that is registered under a descriptor.
`events` are the events that are still to be served: `data.fd`, and the connection. -/
structure State where
  pc : Pc
  net : Net
  interest : Int → Option Nat
  clients : Int → Option Client
  events : List (Int × Nat)

/-- The results of the system calls, and the head of the loop over the events. -/
inductive Event where
  | ready (fds : List Int)
  | waitInterrupted
  | waitFailed
  | next
  | accepted (fd : Int) (added : Bool)
  | acceptFailed
  | read (data : List UInt8)
  | readAgain
  | readFailed
  | written (n : Nat)
  | writeFailed
  deriving DecidableEq

section Machine

variable (listenFd epfd : Int)

/-- `epoll_wait` returns at least one and at most `events.size()` registered descriptors, each once.
-/
def Ready (s : State) (fds : List Int) : Prop :=
  fds ≠ [] ∧ fds.length ≤ MAX_EVENTS ∧ fds.Nodup ∧ ∀ fd ∈ fds, s.interest fd ≠ none

instance (s : State) (fds : List Int) : Decidable (Ready s fds) := by
  unfold Ready
  exact inferInstance

/-- The events that `epoll_wait` stores. -/
def report (s : State) (fds : List Int) : State :=
  { s with pc := .event, events := fds.filterMap fun fd => (s.interest fd).map (Prod.mk fd) }

/-- The head of the loop over the events. -/
def next (s : State) : State :=
  match s.events with
  | [] => { s with pc := .epollWait }
  | (fd, conn) :: events =>
    if fd = listenFd then { s with pc := .accept, events := events }
    else
      match s.clients fd with
      | none => { s with events := events }
      | some _ => { s with pc := .read fd conn, events := events }

/-- `accept` returns a descriptor that was free; `EPOLL_CTL_ADD` may fail, and nobody looks. -/
def accepted (fd : Int) (added : Bool) (s : State) : State :=
  { s with
    net := s.net.accept fd, clients := Function.update s.clients fd (some (Client.new fd))
    interest := if added then Function.update s.interest fd (some s.net.next) else s.interest }

/-- `epoll_ctl(epfd, EPOLL_CTL_DEL, fd, nullptr); close(fd); clients.erase(it);` -/
def drop (fd : Int) (s : State) : State :=
  { s with
    pc := .event, net := s.net.close fd, clients := Function.update s.clients fd none
    interest := Function.update s.interest fd none }

/-- The bytes come from whatever the descriptor refers to now. -/
def receive (fd : Int) (conn : Nat) (data : List UInt8) (s : State) : State :=
  match s.clients fd, s.net.fds fd with
  | some c, some file =>
    { s with
      pc := .write fd conn data.length, net := s.net.receive file data
      clients := Function.update s.clients fd (some { c with buf := pwrite 0 c.buf 0 data }) }
  | _, _ => s

/-- What `write` finds in the buffer. -/
def State.chunk (s : State) (fd : Int) (nr : Nat) : List UInt8 :=
  match s.clients fd with
  | some c => pread c.buf 0 nr
  | none => []

def transmit (fd : Int) (nr n : Nat) (s : State) : State :=
  match s.net.fds fd with
  | some file => { s with pc := .event, net := s.net.transmit file ((s.chunk fd nr).take n) }
  | none => s

def step (s : State) (e : Event) : Option State :=
  match s.pc, e with
  | .epollWait, .ready fds => if Ready s fds then some (report s fds) else none
  | .epollWait, .waitInterrupted => some s
  | .epollWait, .waitFailed => some { s with pc := .threw }
  | .event, .next => some (next listenFd s)
  | .accept, .accepted fd added => if s.net.fds fd = none then some (accepted fd added s) else none
  -- no more pending, or an error: the inner loop ends
  | .accept, .acceptFailed => some { s with pc := .event }
  | .read fd conn, .read data =>
    if data.length ≤ BUF_SIZE then
      -- the peer has closed
      if data = [] then some (drop fd s) else some (receive fd conn data s)
    else none
  | .read _ _, .readAgain => some { s with pc := .event }
  | .read fd _, .readFailed => some (drop fd s)
  | .write fd _ nr, .written n => if n ≤ nr then some (transmit fd nr n s) else none
  | .write fd _ _, .writeFailed => some (drop fd s)
  | _, _ => none

/-- The listener and `epfd` are open, the listener is registered. -/
def init : State where
  pc := .epollWait
  net := Net.init [listenFd, epfd]
  interest := fun fd => if fd = listenFd then some 0 else none
  clients := fun _ => none
  events := []

def machine : Machine State Event := ⟨init listenFd epfd, step listenFd⟩

end Machine

/-! ## Descriptors -/

/-- What the call that the program is at says about its client. -/
def PcOk (listenFd : Int) (s : State) : Prop :=
  match s.pc with
  | .epollWait | .threw => s.events = []
  | .event | .accept => True
  | .read fd conn => fd ≠ listenFd ∧ s.net.fds fd = some conn ∧ s.clients fd ≠ none ∧
      fd ∉ s.events.map Prod.fst
  | .write fd conn nr => fd ≠ listenFd ∧ s.net.fds fd = some conn ∧ s.clients fd ≠ none ∧
      fd ∉ s.events.map Prod.fst ∧ nr ≤ BUF_SIZE

/-- **The invariant of the server.** -/
structure Inv (listenFd epfd : Int) (s : State) : Prop where
  net : s.net.Ok
  listen : s.net.fds listenFd ≠ none
  epoll : s.net.fds epfd ≠ none
  clients : ∀ fd, s.clients fd ≠ none ↔ fd ≠ listenFd ∧ fd ≠ epfd ∧ s.net.fds fd ≠ none
  client : ∀ fd c, s.clients fd = some c → c.fd = fd ∧ c.buf.length = BUF_SIZE
  interest : ∀ fd conn, s.interest fd = some conn → fd ≠ epfd ∧ s.net.fds fd = some conn
  once : (s.events.map Prod.fst).Nodup
  events : ∀ e ∈ s.events, e.1 ≠ epfd ∧ s.net.fds e.1 = some e.2
  pc : PcOk listenFd s

/-! ## What a step does -/

/-- Steps that only move the program. -/
inductive Turns : Pc → Pc → Prop where
  | interrupted : Turns .epollWait .epollWait
  | failed : Turns .epollWait .threw
  | noMore : Turns .accept .event
  | again (fd : Int) (conn : Nat) : Turns (.read fd conn) .event

/-- The client whose descriptor is closed. -/
inductive Drops (fd : Int) : Pc → Prop where
  | read (conn : Nat) : Drops fd (.read fd conn)
  | write (conn nr : Nat) : Drops fd (.write fd conn nr)

inductive Steps (listenFd : Int) (s : State) : Event → State → Prop where
  | ready {fds : List Int} (hpc : s.pc = .epollWait) (h : Ready s fds) :
      Steps listenFd s (.ready fds) (report s fds)
  | turn {e : Event} {pc : Pc} (h : Turns s.pc pc) : Steps listenFd s e { s with pc := pc }
  | next (hpc : s.pc = .event) : Steps listenFd s .next (next listenFd s)
  | accepted {fd : Int} {added : Bool} (hpc : s.pc = .accept) (h : s.net.fds fd = none) :
      Steps listenFd s (.accepted fd added) (accepted fd added s)
  | drop {e : Event} {fd : Int} (h : Drops fd s.pc) (he : ∀ n, e ≠ .written n) :
      Steps listenFd s e (drop fd s)
  | receive {fd : Int} {conn : Nat} {data : List UInt8} (hpc : s.pc = .read fd conn)
      (hne : data ≠ []) (hlen : data.length ≤ BUF_SIZE) :
      Steps listenFd s (.read data) (receive fd conn data s)
  | transmit {fd : Int} {conn nr n : Nat} (hpc : s.pc = .write fd conn nr) (hn : n ≤ nr) :
      Steps listenFd s (.written n) (transmit fd nr n s)

section Steps

variable {listenFd epfd : Int} {s s' : State} {e : Event}

theorem step_cases (hs : step listenFd s e = some s') : Steps listenFd s e s' := by
  unfold step at hs
  split at hs
  · rename_i fds hpc
    split at hs
    · cases hs
      exact .ready hpc ‹_›
    · cases hs
  · rename_i hpc
    cases hs
    exact .turn (hpc ▸ .interrupted : Turns s.pc s.pc)
  · rename_i hpc
    cases hs
    exact .turn (hpc ▸ .failed)
  · rename_i hpc
    cases hs
    exact .next hpc
  · rename_i fd added hpc
    split at hs
    · cases hs
      exact .accepted hpc ‹_›
    · cases hs
  · rename_i hpc
    cases hs
    exact .turn (hpc ▸ .noMore)
  · rename_i fd conn data hpc
    split at hs
    · split at hs
      · cases hs
        exact .drop (hpc ▸ .read conn) (by rintro _ ⟨⟩)
      · cases hs
        exact .receive hpc ‹_› ‹_›
    · cases hs
  · rename_i fd conn hpc
    cases hs
    exact .turn (hpc ▸ .again fd conn)
  · rename_i fd conn hpc
    cases hs
    exact .drop (hpc ▸ .read conn) (by rintro _ ⟨⟩)
  · rename_i fd conn nr n hpc
    split at hs
    · cases hs
      exact .transmit hpc ‹_›
    · cases hs
  · rename_i fd conn nr hpc
    cases hs
    exact .drop (hpc ▸ .write conn nr) (by rintro _ ⟨⟩)
  · cases hs

/-! ## Descriptors, step by step -/

theorem report_fst (fds : List Int) : ((report s fds).events.map Prod.fst).Sublist fds := by
  show ((fds.filterMap fun fd => (s.interest fd).map (Prod.mk fd)).map Prod.fst).Sublist fds
  induction fds with
  | nil => exact .slnil
  | cons fd fds ih =>
    rw [List.filterMap_cons]
    cases s.interest fd with
    | none => exact ih.cons fd
    | some conn => exact ih.cons_cons fd

theorem Inv.ready (h : Inv listenFd epfd s) {fds : List Int} (hr : Ready s fds) :
    Inv listenFd epfd (report s fds) where
  net := h.net
  listen := h.listen
  epoll := h.epoll
  clients := h.clients
  client := h.client
  interest := h.interest
  once := (report_fst fds).nodup hr.2.2.1
  events := by
    intro e he
    obtain ⟨fd, -, hfd⟩ := List.mem_filterMap.1 he
    obtain ⟨conn, hconn, rfl⟩ := Option.map_eq_some_iff.1 hfd
    exact h.interest fd conn hconn
  pc := trivial

theorem Inv.turn (h : Inv listenFd epfd s) {pc : Pc} (ht : Turns s.pc pc) :
    Inv listenFd epfd { s with pc := pc } := by
  refine ⟨h.net, h.listen, h.epoll, h.clients, h.client, h.interest, h.once, h.events, ?_⟩
  have hpc := h.pc
  unfold PcOk at hpc
  generalize s.pc = p at ht hpc
  cases ht with
  | interrupted => exact hpc
  | failed => exact hpc
  | noMore => trivial
  | again fd conn => trivial

theorem Inv.next (h : Inv listenFd epfd s) : Inv listenFd epfd (next listenFd s) := by
  have honce := h.once
  have hevents := h.events
  unfold EpollEcho.next
  cases hs : s.events with
  | nil =>
    exact ⟨h.net, h.listen, h.epoll, h.clients, h.client, h.interest, .nil, by rintro _ ⟨⟩, rfl⟩
  | cons e events =>
    obtain ⟨fd, conn⟩ := e
    rw [hs] at honce hevents
    obtain ⟨hnot, honce⟩ := List.nodup_cons.1 honce
    obtain ⟨⟨hne, hfile⟩, hevents⟩ := List.forall_mem_cons.1 hevents
    dsimp only
    by_cases hl : fd = listenFd
    · rw [if_pos hl]
      exact ⟨h.net, h.listen, h.epoll, h.clients, h.client, h.interest, honce, hevents, trivial⟩
    · rw [if_neg hl]
      -- an open descriptor that is neither the listener nor `epfd` has a client
      have hclient : s.clients fd ≠ none :=
        (h.clients fd).2 ⟨hl, hne, by rw [hfile]; exact Option.some_ne_none _⟩
      obtain ⟨c, hc⟩ := Option.ne_none_iff_exists'.1 hclient
      rw [hc]
      exact ⟨h.net, h.listen, h.epoll, h.clients, h.client, h.interest, honce, hevents,
        hl, hfile, hclient, hnot⟩

theorem Inv.accepted (h : Inv listenFd epfd s) {fd : Int} {added : Bool} (hfd : s.net.fds fd = none)
    (hpc : s.pc = .accept) : Inv listenFd epfd (accepted fd added s) := by
  have hl : listenFd ≠ fd := fun he => h.listen (he ▸ hfd)
  have he : epfd ≠ fd := fun he => h.epoll (he ▸ hfd)
  have hopen : ∀ fd', fd' ≠ fd → (s.net.accept fd).fds fd' = s.net.fds fd' :=
    fun fd' hne => Function.update_of_ne hne _ _
  have hself : (s.net.accept fd).fds fd = some s.net.next := Function.update_self _ _ _
  -- nothing that is open has the new number
  have hold : ∀ {fd' conn}, s.net.fds fd' = some conn → fd' ≠ fd := by
    rintro fd' conn hconn rfl
    rw [hfd] at hconn
    cases hconn
  refine
    { net := h.net.accept fd
      listen := by rw [EpollEcho.accepted, hopen _ hl]; exact h.listen
      epoll := by rw [EpollEcho.accepted, hopen _ he]; exact h.epoll
      clients := fun fd' => ?_
      client := fun fd' c hc => ?_
      interest := fun fd' conn hi => ?_
      once := h.once
      events := fun e hmem => ?_
      pc := ?_ }
  · by_cases hne : fd' = fd
    · subst hne
      simp only [EpollEcho.accepted, Function.update_self, hself]
      simp [hl.symm, he.symm]
    · simp only [EpollEcho.accepted, Function.update_of_ne hne, hopen fd' hne]
      exact h.clients fd'
  · by_cases hne : fd' = fd
    · subst hne
      simp only [EpollEcho.accepted, Function.update_self] at hc
      cases hc
      exact ⟨rfl, List.length_replicate⟩
    · simp only [EpollEcho.accepted, Function.update_of_ne hne] at hc
      exact h.client fd' c hc
  · have hstale : s.interest fd = none := by
      by_contra hsome
      obtain ⟨conn', hconn'⟩ := Option.ne_none_iff_exists'.1 hsome
      exact hold (h.interest fd conn' hconn').2 rfl
    by_cases hne : fd' = fd
    · subst hne
      cases added with
      | true =>
        simp only [EpollEcho.accepted, if_true, Function.update_self] at hi
        cases hi
        exact ⟨he.symm, hself⟩
      | false =>
        simp only [EpollEcho.accepted, Bool.false_eq_true, if_false, hstale] at hi
        cases hi
    · have hi' : s.interest fd' = some conn := by
        cases added with
        | true =>
          simp only [EpollEcho.accepted, if_true, Function.update_of_ne hne] at hi
          exact hi
        | false => exact hi
      obtain ⟨hep, hconn⟩ := h.interest fd' conn hi'
      exact ⟨hep, (hopen fd' hne).trans hconn⟩
  · obtain ⟨hep, hconn⟩ := h.events e hmem
    exact ⟨hep, (hopen _ (hold hconn)).trans hconn⟩
  · unfold PcOk EpollEcho.accepted
    rw [hpc]
    trivial

/-- A descriptor of a client is closed. -/
theorem Inv.drop (h : Inv listenFd epfd s) {fd : Int} (hd : Drops fd s.pc) :
    Inv listenFd epfd (drop fd s) := by
  -- the client exists, and no other event is about it
  obtain ⟨hl, hclient, hnot⟩ : fd ≠ listenFd ∧ s.clients fd ≠ none ∧ fd ∉ s.events.map Prod.fst := by
    have hpc := h.pc
    unfold PcOk at hpc
    generalize s.pc = p at hd hpc
    cases hd with
    | read conn => exact ⟨hpc.1, hpc.2.2.1, hpc.2.2.2⟩
    | write conn nr => exact ⟨hpc.1, hpc.2.2.1, hpc.2.2.2.1⟩
  obtain ⟨-, he, -⟩ := (h.clients fd).1 hclient
  have hopen : ∀ fd', fd' ≠ fd → (s.net.close fd).fds fd' = s.net.fds fd' :=
    fun fd' hne => Function.update_of_ne hne _ _
  have hself : (s.net.close fd).fds fd = none := Function.update_self _ _ _
  refine
    { net := h.net.close fd
      listen := by rw [EpollEcho.drop, hopen _ hl.symm]; exact h.listen
      epoll := by rw [EpollEcho.drop, hopen _ he.symm]; exact h.epoll
      clients := fun fd' => ?_
      client := fun fd' c hc => ?_
      interest := fun fd' conn hi => ?_
      once := h.once
      events := fun e hmem => ?_
      pc := trivial }
  · by_cases hne : fd' = fd
    · subst hne
      simp only [EpollEcho.drop, Function.update_self, hself]
      simp
    · simp only [EpollEcho.drop, Function.update_of_ne hne, hopen fd' hne]
      exact h.clients fd'
  · by_cases hne : fd' = fd
    · subst hne
      simp only [EpollEcho.drop, Function.update_self] at hc
      cases hc
    · simp only [EpollEcho.drop, Function.update_of_ne hne] at hc
      exact h.client fd' c hc
  · by_cases hne : fd' = fd
    · subst hne
      simp only [EpollEcho.drop, Function.update_self] at hi
      cases hi
    · simp only [EpollEcho.drop, Function.update_of_ne hne] at hi
      obtain ⟨hep, hconn⟩ := h.interest fd' conn hi
      exact ⟨hep, (hopen fd' hne).trans hconn⟩
  · obtain ⟨hep, hconn⟩ := h.events e hmem
    have hne : e.1 ≠ fd := by
      rintro rfl
      exact hnot (List.mem_map_of_mem hmem)
    exact ⟨hep, (hopen _ hne).trans hconn⟩

theorem length_pwrite_front {buf data : List UInt8} (hbuf : buf.length = BUF_SIZE)
    (hlen : data.length ≤ BUF_SIZE) : (pwrite 0 buf 0 data).length = BUF_SIZE := by
  rw [pwrite_front, List.length_append, List.length_drop]
  omega

theorem Inv.receive (h : Inv listenFd epfd s) {fd : Int} {conn : Nat} {data : List UInt8}
    (hpc : s.pc = .read fd conn) (hlen : data.length ≤ BUF_SIZE) :
    Inv listenFd epfd (receive fd conn data s) := by
  have hpcOk := h.pc
  unfold PcOk at hpcOk
  rw [hpc] at hpcOk
  obtain ⟨hl, hfile, hclient, hnot⟩ := hpcOk
  obtain ⟨c, hc⟩ := Option.ne_none_iff_exists'.1 hclient
  have hdom : ∀ fd', Function.update s.clients fd (some { c with buf := pwrite 0 c.buf 0 data }) fd' ≠
      none ↔ s.clients fd' ≠ none := by
    intro fd'
    by_cases hne : fd' = fd
    · subst hne
      rw [Function.update_self]
      exact iff_of_true (Option.some_ne_none _) hclient
    · rw [Function.update_of_ne hne]
  unfold EpollEcho.receive
  rw [hc, hfile]
  refine
    { net := h.net.receive (h.net.lt hfile) data
      listen := h.listen
      epoll := h.epoll
      clients := fun fd' => (hdom fd').trans (h.clients fd')
      client := fun fd' c' hc' => ?_
      interest := h.interest
      once := h.once
      events := h.events
      pc := ⟨hl, hfile, (hdom fd).2 hclient, hnot, hlen⟩ }
  by_cases hne : fd' = fd
  · subst hne
    simp only [Function.update_self] at hc'
    cases hc'
    obtain ⟨hfd, hbuf⟩ := h.client fd' c hc
    exact ⟨hfd, length_pwrite_front hbuf hlen⟩
  · simp only [Function.update_of_ne hne] at hc'
    exact h.client fd' c' hc'

theorem Inv.transmit (h : Inv listenFd epfd s) {fd : Int} {conn nr n : Nat}
    (hpc : s.pc = .write fd conn nr) : Inv listenFd epfd (transmit fd nr n s) := by
  have hpcOk := h.pc
  unfold PcOk at hpcOk
  rw [hpc] at hpcOk
  have hfile := hpcOk.2.1
  unfold EpollEcho.transmit
  rw [hfile]
  exact ⟨h.net.transmit (h.net.lt hfile) _, h.listen, h.epoll, h.clients, h.client, h.interest,
    h.once, h.events, trivial⟩

/-- **One step.** -/
theorem Inv.step (h : Inv listenFd epfd s) (hs : step listenFd s e = some s') :
    Inv listenFd epfd s' := by
  cases step_cases hs with
  | ready hpc hr => exact h.ready hr
  | turn ht => exact h.turn ht
  | next hpc => exact h.next
  | accepted hpc hfd => exact h.accepted hfd hpc
  | drop hd => exact h.drop hd
  | receive hpc hne hlen => exact h.receive hpc hlen
  | transmit hpc => exact h.transmit hpc

theorem init_inv (hne : listenFd ≠ epfd) : Inv listenFd epfd (init listenFd epfd) where
  net := Net.init_ok _
  listen := by simp [init, Net.init]
  epoll := by simp [init, Net.init]
  clients := by
    intro fd
    refine iff_of_false (fun h => h rfl) ?_
    rintro ⟨hl, he, hopen⟩
    exact hopen (if_neg (by simp [hl, he]))
  client := by rintro _ _ ⟨⟩
  interest := by
    intro fd conn hi
    simp only [init] at hi
    split at hi
    · rename_i hfd
      subst hfd
      cases hi
      refine ⟨hne, ?_⟩
      show (if fd ∈ [fd, epfd] then some ([fd, epfd].idxOf fd) else none) = some 0
      rw [if_pos List.mem_cons_self, List.idxOf_cons_self]
    · cases hi
  once := .nil
  events := by rintro _ ⟨⟩
  pc := rfl

theorem run_inv (hne : listenFd ≠ epfd) {es : List Event}
    (h : (machine listenFd epfd).run es = some s) : Inv listenFd epfd s :=
  Machine.run_inv (I := Inv listenFd epfd) (init_inv hne) (fun _ _ _ hI hs => hI.step hs) h

end Steps

/-! ## Events and connections -/

/-- **The events are up to date.** -/
structure Current (listenFd epfd : Int) (s : State) : Prop where
  /-- What is still to be served is about the connection that `epoll_wait` reported. -/
  events : ∀ fd conn, (fd, conn) ∈ s.events → s.net.fds fd = some conn
  /-- `clients.find(fd)` finds it. -/
  found : ∀ fd conn, (fd, conn) ∈ s.events → fd ≠ listenFd → ∃ c, s.clients fd = some c ∧ c.fd = fd
  read : ∀ fd conn, s.pc = .read fd conn → s.net.fds fd = some conn
  write : ∀ fd conn nr, s.pc = .write fd conn nr → s.net.fds fd = some conn
  /-- The clients are the open connections. -/
  clients : ∀ fd, s.clients fd ≠ none ↔ fd ≠ listenFd ∧ fd ≠ epfd ∧ s.net.fds fd ≠ none

theorem Inv.current {listenFd epfd : Int} {s : State} (h : Inv listenFd epfd s) :
    Current listenFd epfd s where
  events fd conn hmem := (h.events _ hmem).2
  found fd conn hmem hl := by
    obtain ⟨he, hfile⟩ := h.events _ hmem
    obtain ⟨c, hc⟩ := Option.ne_none_iff_exists'.1
      ((h.clients fd).2 ⟨hl, he, by rw [hfile]; exact Option.some_ne_none _⟩)
    exact ⟨c, hc, (h.client fd c hc).1⟩
  read fd conn hpc := by
    have hok := h.pc
    unfold PcOk at hok
    rw [hpc] at hok
    exact hok.2.1
  write fd conn nr hpc := by
    have hok := h.pc
    unfold PcOk at hok
    rw [hpc] at hok
    exact hok.2.1
  clients := h.clients

/-- **No event is stale.**  Descriptors are closed and given out again while a batch of events is
served, and yet in every state of every run each event that is still to be served, and each read and
write, is about the connection that `epoll_wait` reported; the client is always found, and the
clients are exactly the open connections, whether or not `EPOLL_CTL_ADD` worked. -/
theorem epoll_events_current {listenFd epfd : Int} (hne : listenFd ≠ epfd) {es : List Event}
    {s : State} (h : (machine listenFd epfd).run es = some s) : Current listenFd epfd s :=
  (run_inv hne h).current

/-- Descriptor 5 is closed and accepted again while an event for 6 waits. -/
theorem epoll_events_current_reuse : ∃ s,
    (machine 3 4).run [.ready [3], .next, .accepted 5 true, .accepted 6 true, .acceptFailed, .next,
      .ready [5, 3, 6], .next, .read [], .next, .accepted 5 true, .acceptFailed] = some s ∧
    s.events = [(6, 3)] ∧ s.net.fds 5 = some 4 ∧ Current 3 4 s := by
  obtain ⟨s, hs, hevents, hfive⟩ : ∃ s,
      (machine 3 4).run [.ready [3], .next, .accepted 5 true, .accepted 6 true, .acceptFailed, .next,
        .ready [5, 3, 6], .next, .read [], .next, .accepted 5 true, .acceptFailed] = some s ∧
      s.events = [(6, 3)] ∧ s.net.fds 5 = some 4 := ⟨_, rfl, rfl, rfl⟩
  exact ⟨s, hs, hevents, hfive, epoll_events_current (by decide) hs⟩

/-! ## Bytes -/

/-- Read from the connection and not written back yet. -/
def pending (s : State) (conn : Nat) : List UInt8 :=
  match s.pc with
  | .write fd conn' nr => if conn' = conn then s.chunk fd nr else []
  | _ => []

/-- **Echo**: what a client has sent and what it has got back. -/
structure Echoed (s : State) : Prop where
  /-- While the connection is open, nothing is missing. -/
  whole : ∀ fd conn, s.clients fd ≠ none → s.net.fds fd = some conn →
    s.net.rx conn = s.net.tx conn ++ pending s conn
  /-- Also afterwards, nothing was invented, reordered or left out in the middle. -/
  front : ∀ conn, s.net.tx conn <+: s.net.rx conn

/-- `write` takes all it is given: "for simplicity, assume full write". -/
def FullWrite (s : State) (e : Event) : Prop :=
  match s.pc, e with
  | .write _ _ nr, .written n => n = nr
  | _, _ => True

/-- Whatever `write` takes: bytes may be left out, and that is all. -/
def Subsequence (s : State) : Prop :=
  ∀ conn, (s.net.tx conn ++ pending s conn).Sublist (s.net.rx conn)

def Pc.writes : Pc → Bool
  | .write .. => true
  | _ => false

section Bytes

variable {listenFd epfd : Int} {s s' : State} {e : Event}

theorem pending_of_writes (h : s.pc.writes = false) (conn : Nat) : pending s conn = [] := by
  unfold pending
  split
  · rename_i fd conn' nr hpc
    rw [hpc] at h
    cases h
  · rfl

theorem Turns.writes {pc pc' : Pc} (h : Turns pc pc') : pc.writes = false ∧ pc'.writes = false := by
  cases h <;> exact ⟨rfl, rfl⟩

/-- The head of the loop over the events touches no connection. -/
theorem next_eq (listenFd : Int) (hpc : s.pc = .event) : ∃ pc events,
    next listenFd s = { s with pc := pc, events := events } ∧ pc.writes = false := by
  unfold next
  split
  · exact ⟨.epollWait, s.events, rfl, rfl⟩
  · rename_i fd conn events hs
    split
    · exact ⟨.accept, events, rfl, rfl⟩
    · split
      · exact ⟨s.pc, events, rfl, by rw [hpc]; rfl⟩
      · exact ⟨.read fd conn, events, rfl, rfl⟩

/-- The chunk that was read, in the buffer of its client. -/
theorem receive_eq (h : Inv listenFd epfd s) {fd : Int} {conn : Nat}
    (data : List UInt8) (hpc : s.pc = .read fd conn) :
    (receive fd conn data s).net = s.net.receive conn data ∧
      (receive fd conn data s).pc = .write fd conn data.length ∧
      (receive fd conn data s).chunk fd data.length = data := by
  have hok := h.pc
  unfold PcOk at hok
  rw [hpc] at hok
  obtain ⟨-, hfile, hclient, -⟩ := hok
  obtain ⟨c, hc⟩ := Option.ne_none_iff_exists'.1 hclient
  unfold receive
  rw [hc, hfile]
  refine ⟨rfl, rfl, ?_⟩
  simp only [State.chunk, Function.update_self]
  exact take_pwrite_front 0 c.buf data

theorem transmit_eq (h : Inv listenFd epfd s) {fd : Int} {conn nr : Nat}
    (hpc : s.pc = .write fd conn nr) (n : Nat) :
    transmit fd nr n s = { s with
      pc := .event, net := s.net.transmit conn ((s.chunk fd nr).take n) } ∧
      (s.chunk fd nr).length = nr := by
  have hok := h.pc
  unfold PcOk at hok
  rw [hpc] at hok
  obtain ⟨-, hfile, hclient, -, hnr⟩ := hok
  obtain ⟨c, hc⟩ := Option.ne_none_iff_exists'.1 hclient
  refine ⟨by rw [transmit, hfile], ?_⟩
  obtain ⟨-, hbuf⟩ := h.client fd c hc
  simp only [State.chunk, hc, pread_length]
  omega

theorem pending_write {fd : Int} {conn nr : Nat} (hpc : s.pc = .write fd conn nr) (conn' : Nat) :
    pending s conn' = if conn = conn' then s.chunk fd nr else [] := by
  unfold pending
  rw [hpc]

theorem pending_drop (fd : Int) (conn : Nat) : pending (drop fd s) conn = [] :=
  pending_of_writes rfl conn

/-- Steps that move no bytes, and leave nothing unwritten. -/
structure Quiet (s s' : State) : Prop where
  rx : s'.net.rx = s.net.rx
  tx : s'.net.tx = s.net.tx
  before : ∀ conn, pending s conn = []
  after : ∀ conn, pending s' conn = []

theorem quiet_next (hpc : s.pc = .event) : Quiet s (next listenFd s) := by
  obtain ⟨pc, events, heq, hw⟩ := next_eq listenFd hpc
  rw [heq]
  exact ⟨rfl, rfl, pending_of_writes (by rw [hpc]; rfl), pending_of_writes hw⟩

theorem quiet_accepted {fd : Int} {added : Bool} (hpc : s.pc = .accept) :
    Quiet s (accepted fd added s) := by
  have hw : s.pc.writes = false := by rw [hpc]; rfl
  exact ⟨rfl, rfl, pending_of_writes hw, pending_of_writes hw⟩

theorem quiet_ready {fds : List Int} (hpc : s.pc = .epollWait) : Quiet s (report s fds) :=
  ⟨rfl, rfl, pending_of_writes (by rw [hpc]; rfl), pending_of_writes rfl⟩

theorem quiet_turn {pc : Pc} (ht : Turns s.pc pc) : Quiet s { s with pc := pc } :=
  ⟨rfl, rfl, pending_of_writes ht.writes.1, pending_of_writes ht.writes.2⟩

theorem Subsequence.quiet (h : Subsequence s) (hq : Quiet s s') : Subsequence s' := by
  intro conn
  have hsub := h conn
  rw [hq.before] at hsub
  rw [hq.rx, hq.tx, hq.after]
  exact hsub

theorem Subsequence.step (hi : Inv listenFd epfd s) (h : Subsequence s)
    (hs : step listenFd s e = some s') : Subsequence s' := by
  cases step_cases hs with
  | ready hpc => exact h.quiet (quiet_ready hpc)
  | turn ht => exact h.quiet (quiet_turn ht)
  | next hpc => exact h.quiet (quiet_next hpc)
  | accepted hpc => exact h.quiet (quiet_accepted hpc)
  | @drop _ fd =>
    intro conn
    rw [pending_drop, List.append_nil]
    exact (List.sublist_append_left _ _).trans (h conn)
  | @receive fd conn data hpc =>
    obtain ⟨hnet, hpc', hchunk⟩ := receive_eq hi data hpc
    intro conn'
    have hsub := h conn'
    rw [pending_of_writes (by rw [hpc]; rfl), List.append_nil] at hsub
    rw [pending_write hpc', hchunk, hnet]
    show (s.net.tx conn' ++ _).Sublist (Function.update s.net.rx conn (s.net.rx conn ++ data) conn')
    by_cases hconn : conn = conn'
    · subst hconn
      rw [if_pos rfl, Function.update_self]
      exact hsub.append (.refl data)
    · rw [if_neg hconn, Function.update_of_ne (Ne.symm hconn), List.append_nil]
      exact hsub
  | @transmit fd conn nr n hpc =>
    rw [(transmit_eq hi hpc n).1]
    intro conn'
    have hsub := h conn'
    rw [pending_write hpc] at hsub
    rw [pending_of_writes rfl, List.append_nil]
    show (Function.update s.net.tx conn _ conn').Sublist (s.net.rx conn')
    by_cases hconn : conn = conn'
    · subst hconn
      rw [if_pos rfl] at hsub
      rw [Function.update_self]
      exact ((List.Sublist.refl _).append (List.take_sublist _ _)).trans hsub
    · rw [if_neg hconn, List.append_nil] at hsub
      rw [Function.update_of_ne (Ne.symm hconn)]
      exact hsub

/-- `hopen`: a connection that is open now was open before, or it is new. -/
theorem Echoed.quiet (h : Echoed s) (hq : Quiet s s')
    (hopen : ∀ fd conn, s'.clients fd ≠ none → s'.net.fds fd = some conn →
      (s.clients fd ≠ none ∧ s.net.fds fd = some conn) ∨ (s.net.rx conn = [] ∧ s.net.tx conn = [])) :
    Echoed s' where
  whole fd conn hclient hfile := by
    rw [hq.rx, hq.tx, hq.after, List.append_nil]
    rcases hopen fd conn hclient hfile with ⟨hclient, hfile⟩ | ⟨hrx, htx⟩
    · have hwhole := h.whole fd conn hclient hfile
      rw [hq.before, List.append_nil] at hwhole
      exact hwhole
    · rw [hrx, htx]
  front conn := by
    rw [hq.rx, hq.tx]
    exact h.front conn

theorem Echoed.accepted (hi : Inv listenFd epfd s) (h : Echoed s) {fd : Int} {added : Bool}
    (hpc : s.pc = .accept) : Echoed (accepted fd added s) := by
  refine h.quiet (quiet_accepted hpc) fun fd' conn hclient hfile => ?_
  by_cases hne : fd' = fd
  · subst hne
    have hnew : (s.net.accept fd').fds fd' = some s.net.next := Function.update_self _ _ _
    cases hfile.symm.trans hnew
    exact .inr (hi.net.fresh s.net.next (Nat.le_refl _))
  · have hsame : (s.net.accept fd).fds fd' = s.net.fds fd' := Function.update_of_ne hne _ _
    simp only [EpollEcho.accepted, Function.update_of_ne hne] at hclient
    exact .inl ⟨hclient, hsame.symm.trans hfile⟩

theorem Drops.pending (hi : Inv listenFd epfd s) {fd fd' : Int} {conn : Nat} (hd : Drops fd s.pc)
    (hne : fd' ≠ fd) (hfile : s.net.fds fd' = some conn) : EpollEcho.pending s conn = [] := by
  cases hpc : s.pc with
  | write fd'' conn' nr =>
    rw [hpc] at hd
    cases hd
    rw [pending_write hpc, if_neg]
    rintro rfl
    exact hne (hi.net.inj hfile (hi.current.write fd conn' nr hpc))
  | epollWait | event | accept | read | threw =>
    exact pending_of_writes (by rw [hpc]; rfl) conn

theorem Echoed.drop (hi : Inv listenFd epfd s) (h : Echoed s) {fd : Int} (hd : Drops fd s.pc) :
    Echoed (drop fd s) where
  whole fd' conn hclient hfile := by
    rw [pending_drop, List.append_nil]
    by_cases hne : fd' = fd
    · subst hne
      simp only [EpollEcho.drop, Function.update_self] at hclient
      exact absurd rfl hclient
    · have hsame : (s.net.close fd).fds fd' = s.net.fds fd' := Function.update_of_ne hne _ _
      simp only [EpollEcho.drop, Function.update_of_ne hne] at hclient
      have hfile' := hsame.symm.trans hfile
      have hwhole := h.whole fd' conn hclient hfile'
      rw [hd.pending hi hne hfile', List.append_nil] at hwhole
      exact hwhole
  front := h.front

/-- The clients are the same while one of them is read. -/
theorem receive_clients {fd : Int} {conn : Nat} {data : List UInt8} (fd' : Int) :
    (receive fd conn data s).clients fd' ≠ none → s.clients fd' ≠ none := by
  unfold receive
  split
  · rename_i c file hc hfile
    intro hne
    by_cases h : fd' = fd
    · subst h
      rw [hc]
      exact Option.some_ne_none _
    · rw [← Function.update_of_ne (f := s.clients) h]
      exact hne
  · exact id

theorem Echoed.receive (hi : Inv listenFd epfd s) (h : Echoed s) {fd : Int} {conn : Nat}
    {data : List UInt8} (hpc : s.pc = .read fd conn) : Echoed (receive fd conn data s) := by
  obtain ⟨hnet, hpc', hchunk⟩ := receive_eq hi data hpc
  have hbefore : ∀ conn, pending s conn = [] := pending_of_writes (by rw [hpc]; rfl)
  constructor
  · intro fd' conn' hclient hfile
    rw [hnet] at hfile ⊢
    have hwhole := h.whole fd' conn' (receive_clients fd' hclient) hfile
    rw [hbefore, List.append_nil] at hwhole
    rw [pending_write hpc', hchunk]
    show Function.update s.net.rx conn (s.net.rx conn ++ data) conn' = s.net.tx conn' ++ _
    by_cases hconn : conn = conn'
    · subst hconn
      rw [if_pos rfl, Function.update_self, hwhole]
    · rw [if_neg hconn, Function.update_of_ne (Ne.symm hconn), List.append_nil]
      exact hwhole
  · intro conn'
    rw [hnet]
    show s.net.tx conn' <+: Function.update s.net.rx conn (s.net.rx conn ++ data) conn'
    by_cases hconn : conn' = conn
    · subst hconn
      rw [Function.update_self]
      exact (h.front conn').trans (List.prefix_append _ _)
    · rw [Function.update_of_ne hconn]
      exact h.front conn'

/-- A write that takes everything. -/
theorem Echoed.transmit (hi : Inv listenFd epfd s) (h : Echoed s) {fd : Int} {conn nr : Nat}
    (hpc : s.pc = .write fd conn nr) : Echoed (transmit fd nr nr s) := by
  obtain ⟨heq, hlen⟩ := transmit_eq hi hpc nr
  have hok := hi.pc
  unfold PcOk at hok
  rw [hpc] at hok
  obtain ⟨-, hfile, hclient, -⟩ := hok
  have hwritten := h.whole fd conn hclient hfile
  rw [pending_write hpc, if_pos rfl] at hwritten
  rw [heq, List.take_of_length_le (Nat.le_of_eq hlen)]
  constructor
  · intro fd' conn' hclient' hfile'
    have hwhole := h.whole fd' conn' hclient' hfile'
    rw [pending_write hpc] at hwhole
    rw [pending_of_writes rfl, List.append_nil]
    show s.net.rx conn' = Function.update s.net.tx conn _ conn'
    by_cases hconn : conn = conn'
    · subst hconn
      rw [Function.update_self]
      exact hwritten
    · rw [if_neg hconn, List.append_nil] at hwhole
      rw [Function.update_of_ne (Ne.symm hconn)]
      exact hwhole
  · intro conn'
    show Function.update s.net.tx conn _ conn' <+: s.net.rx conn'
    by_cases hconn : conn' = conn
    · subst hconn
      rw [Function.update_self]
      exact hwritten ▸ List.prefix_refl _
    · rw [Function.update_of_ne hconn]
      exact h.front conn'

/-- A write that leaves something out. -/
theorem short_write (hi : Inv listenFd epfd s) (h : Echoed s) {fd : Int} {conn nr n : Nat}
    (hpc : s.pc = .write fd conn nr) (hn : n < nr) : ¬Echoed (transmit fd nr n s) := by
  obtain ⟨heq, hlen⟩ := transmit_eq hi hpc n
  have hok := hi.pc
  unfold PcOk at hok
  rw [hpc] at hok
  obtain ⟨-, hfile, hclient, -⟩ := hok
  have hwritten := h.whole fd conn hclient hfile
  rw [pending_write hpc, if_pos rfl] at hwritten
  rw [heq]
  intro hecho
  have hwhole := hecho.whole fd conn hclient hfile
  rw [pending_of_writes rfl, List.append_nil] at hwhole
  have hmissing : s.net.rx conn = s.net.tx conn ++ (s.chunk fd nr).take n :=
    hwhole.trans (Function.update_self _ _ _)
  have hlength := congrArg List.length (hwritten.symm.trans hmissing)
  rw [List.length_append, List.length_append, List.length_take, hlen] at hlength
  omega

theorem Echoed.step (hi : Inv listenFd epfd s) (h : Echoed s) (hs : step listenFd s e = some s')
    (hok : FullWrite s e) : Echoed s' := by
  cases step_cases hs with
  | ready hpc => exact h.quiet (quiet_ready hpc) fun _ _ hc hf => .inl ⟨hc, hf⟩
  | turn ht => exact h.quiet (quiet_turn ht) fun _ _ hc hf => .inl ⟨hc, hf⟩
  | next hpc =>
    refine h.quiet (quiet_next hpc) fun fd conn hc hf => .inl ?_
    obtain ⟨pc, events, heq, -⟩ := next_eq listenFd hpc
    rw [heq] at hc hf
    exact ⟨hc, hf⟩
  | accepted hpc => exact h.accepted hi hpc
  | drop hd => exact h.drop hi hd
  | receive hpc => exact h.receive hi hpc
  | transmit hpc hn =>
    unfold FullWrite at hok
    rw [hpc] at hok
    cases hok
    exact h.transmit hi hpc

/-- The step that does not meet the condition is a write that takes less. -/
theorem not_fullWrite (hi : Inv listenFd epfd s) (h : Echoed s) (hs : step listenFd s e = some s')
    (hok : ¬FullWrite s e) : ¬Echoed s' := by
  unfold FullWrite at hok
  split at hok
  · rename_i fd conn nr n hpc
    unfold EpollEcho.step at hs
    simp only [hpc] at hs
    split at hs
    · cases hs
      exact short_write hi h hpc (by omega)
    · cases hs
  · exact absurd trivial hok

/-- **When exactly every byte comes back.**  In every run, what a client gets is a subsequence of what
it has sent; and every open connection has got everything that has been read from it, and every
closed one a front part, in all states of the run if and only if every `write` took all it was given.
-/
theorem epollEcho_exact_iff (hne : listenFd ≠ epfd) {es : List Event}
    (h : (machine listenFd epfd).run es = some s) :
    (∀ conn, (s.net.tx conn).Sublist (s.net.rx conn)) ∧
      ((machine listenFd epfd).Always Echoed (init listenFd epfd) es ↔
        (machine listenFd epfd).Meets FullWrite (init listenFd epfd) es) := by
  constructor
  · have hinit : Subsequence (init listenFd epfd) := fun _ => .slnil
    have hsub : Inv listenFd epfd s ∧ Subsequence s := Machine.run_inv
      (I := fun s => Inv listenFd epfd s ∧ Subsequence s) ⟨init_inv hne, hinit⟩
      (fun _ _ _ hI hs => ⟨hI.1.step hs, hI.2.step hI.1 hs⟩) h
    exact fun conn => (List.sublist_append_left _ _).trans (hsub.2 conn)
  · have hinit : Echoed (init listenFd epfd) := ⟨fun _ _ _ _ => rfl, fun _ => List.prefix_refl _⟩
    exact Machine.always_iff_meets (I := fun s => Inv listenFd epfd s ∧ Echoed s) (fun _ hI => hI.2)
      (fun _ _ _ hI hs hok => ⟨hI.1.step hs, hI.2.step hI.1 hs hok⟩)
      (fun _ _ _ hI hs hok => not_fullWrite hI.1 hI.2 hs hok) ⟨init_inv hne, hinit⟩ h

/-- The last byte is left out: the client gets one byte of two. -/
theorem epollEcho_exact_iff_short : ∃ s,
    (machine 3 4).run [.ready [3], .next, .accepted 5 true, .acceptFailed, .next, .ready [5], .next,
      .read [104, 105], .written 1] = some s ∧ s.net.rx 2 = [104, 105] ∧ s.net.tx 2 = [104] ∧
    (s.net.tx 2).Sublist (s.net.rx 2) := by
  obtain ⟨s, hs, hrx, htx⟩ : ∃ s,
      (machine 3 4).run [.ready [3], .next, .accepted 5 true, .acceptFailed, .next, .ready [5], .next,
        .read [104, 105], .written 1] = some s ∧
      s.net.rx 2 = [104, 105] ∧ s.net.tx 2 = [104] := ⟨_, rfl, rfl, rfl⟩
  exact ⟨s, hs, hrx, htx, (epollEcho_exact_iff (by decide) hs).1 2⟩

end Bytes

end AdvCpp.Uring.EpollEcho
