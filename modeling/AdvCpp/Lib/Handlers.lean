import AdvCpp.Lib.Exclusive
import AdvCpp.Lib.Machine
import Mathlib.Data.Set.Insert

/-!
# Servers of coroutines

One coroutine for every client, one that accepts the clients, and an event loop that resumes the
coroutine whose operation has completed.  What a coroutine does for one client is a machine of its
own (`Handler`): it names its files, and they are nobody else's.  In the server a name is a variable
that holds a number; the kernel gives numbers out, takes them back at a `close` and gives them out
again, and an operation acts on the files that its numbers refer to when it is submitted.

* `machine` — every interleaving; `wrong` says that an operation or a `close` has reached somebody
  else's file, or that a coroutine was needed that is gone.
* `Holds` — the numbers of one client, `Holds.opened`, `Holds.closed` — how they change.
* `Inv.step` — what every step keeps.
* `run_sound` — nothing goes wrong, and what each coroutine does is a run of its own machine.
-/

namespace AdvCpp.Lib.Handlers

/-- A coroutine for one client, which is served through `client`.  `owned` and `closed` are the names
that it has opened and closed so far, `awaits` are those of the operation that it awaits. -/
structure Handler (σ ε δ : Type) where
  machine : Machine σ ε
  client : δ
  owned : σ → List δ
  closed : σ → List δ
  awaits : σ → Option (List δ)
  returned : σ → Bool

/-- What a number refers to. -/
inductive File (δ : Type) where
  | listener
  | own (c : Nat) (d : δ)
  deriving DecidableEq

inductive Phase (δ ρ : Type) where
  | queued
  | armed (files : List (Option (File δ)))
  | done (result : ρ)

/-- An operation of the accept loop, or of the coroutine of client `c`; `names` is what the numbers
`fds` are meant to be. -/
inductive Op (ε δ : Type) where
  | accept (fd : Int) (phase : Phase δ Int)
  | call (c : Nat) (names : List δ) (fds : List Int) (phase : Phase δ ε)

def Op.owner {ε δ : Type} : Op ε δ → Option Nat
  | .accept _ _ => none
  | .call c _ _ _ => some c

/-- A coroutine frame: where it is, and the numbers in its variables. -/
structure Frame (σ δ : Type) where
  state : σ
  number : δ → Int

/-- `table` are the open descriptors, `clients` counts the accepted clients and `started` their
coroutines; `seen` records what the calls of each coroutine have returned. -/
structure State (σ ε δ : Type) where
  table : Int → Option (File δ)
  clients : Nat
  started : Nat
  frames : Nat → Option (Frame σ δ)
  ops : Nat → Option (Op ε δ)
  nextOp : Nat
  seen : Nat → List ε
  wrong : Bool

/-- The kernel takes a queued operation, an operation completes, the event loop resumes a coroutine,
a coroutine makes a call that it does not await; `fds` are the numbers of the files it opens. -/
inductive Event (ε : Type) where
  | submit (k : Nat)
  | accepted (k : Nat) (res : Int)
  | completed (k : Nat) (e : ε)
  | reap (k : Nat) (fds : List Int)
  | call (c : Nat) (e : ε) (fds : List Int)

section Server

variable {σ ε δ : Type} [DecidableEq δ] (H : Handler σ ε δ)

namespace State

def setOp (s : State σ ε δ) (k : Nat) (o : Option (Op ε δ)) : State σ ε δ :=
  { s with ops := Function.update s.ops k o }

def queue (s : State σ ε δ) (o : Op ε δ) : State σ ε δ :=
  { s with ops := Function.update s.ops s.nextOp (some o), nextOp := s.nextOp + 1 }

/-- The table after client `c` has opened files. -/
def opened (table : Int → Option (File δ)) (c : Nat) : List (δ × Int) → Int → Option (File δ)
  | [] => table
  | n :: news => opened (Function.update table n.2 (some (.own c n.1))) c news

/-- The variables that hold the new numbers. -/
def assigned (number : δ → Int) : List (δ × Int) → δ → Int
  | [] => number
  | n :: news => assigned (Function.update number n.1 n.2) news

/-- `close` -/
def close (c : Nat) (number : δ → Int) (d : δ) (s : State σ ε δ) : State σ ε δ :=
  { s with
    table := Function.update s.table (number d) none
    wrong := s.wrong || decide (s.table (number d) ≠ some (.own c d)) }

def closeAll (c : Nat) (number : δ → Int) : List δ → State σ ε δ → State σ ε δ
  | [], s => s
  | d :: ds, s => closeAll c number ds (close c number d s)

end State

open State

/-- The coroutine has come to its next call, or to its end. -/
def await (s : State σ ε δ) (c : Nat) (f : Frame σ δ) : State σ ε δ :=
  if H.returned f.state then { s with frames := Function.update s.frames c none }
  else
    let s := { s with frames := Function.update s.frames c (some f) }
    match H.awaits f.state with
    | some names => s.queue (.call c names (names.map f.number) .queued)
    | none => s

/-- A call of a coroutine returns, and it goes on. -/
def advance (s : State σ ε δ) (c : Nat) (f : Frame σ δ) (e : ε) (fds : List Int) :
    Option (State σ ε δ) :=
  match H.machine.step f.state e with
  | none => none
  | some t =>
    let names := (H.owned t).drop (H.owned f.state).length
    let number := assigned f.number (names.zip fds)
    if fds.length = names.length ∧ fds.Nodup ∧ ∀ fd ∈ fds, s.table fd = none then
      let s := { s with
        table := opened s.table c (names.zip fds)
        seen := Function.update s.seen c (s.seen c ++ [e]) }
      let s := closeAll c number ((H.closed t).drop (H.closed f.state).length) s
      some (await H s c ⟨t, number⟩)
    else none

/-- The accept loop calls the coroutine of a new client. -/
def start (s : State σ ε δ) (fd : Int) : State σ ε δ :=
  await H { s with started := s.started + 1 } s.started ⟨H.machine.init, fun _ => fd⟩

def submit (s : State σ ε δ) (k : Nat) : Option (State σ ε δ) :=
  match s.ops k with
  | some (.accept fd .queued) =>
    some (s.setOp k (some (.accept fd (.armed [s.table fd]))))
  | some (.call c names fds .queued) =>
    some (s.setOp k (some (.call c names fds (.armed (fds.map s.table)))))
  | _ => none

/-- A client is accepted under a number that is free, or there is an error. -/
def accepted (s : State σ ε δ) (k : Nat) (res : Int) : Option (State σ ε δ) :=
  match s.ops k with
  | some (.accept fd (.armed files)) =>
    if files = [some .listener] then
      if res < 0 then some (s.setOp k (some (.accept fd (.done res))))
      else if s.table res = none then
        some { s with
          table := Function.update s.table res (some (.own s.clients H.client))
          clients := s.clients + 1
          ops := Function.update s.ops k (some (.accept fd (.done res))) }
      else none
    else some { s with wrong := true }
  | _ => none

def completed (s : State σ ε δ) (k : Nat) (e : ε) : Option (State σ ε δ) :=
  match s.ops k with
  | some (.call c names fds (.armed files)) =>
    if files = names.map fun d => some (.own c d) then
      match s.frames c with
      | some f =>
        if (H.machine.step f.state e).isSome then some (s.setOp k (some (.call c names fds (.done e))))
        else none
      | none => some { s with wrong := true }
    else some { s with wrong := true }
  | _ => none

def reap (s : State σ ε δ) (k : Nat) (fds : List Int) : Option (State σ ε δ) :=
  match s.ops k with
  | some (.accept fd (.done res)) =>
    if res < 0 then some ((s.setOp k none).queue (.accept fd .queued))
    else some ((start H (s.setOp k none) res).queue (.accept fd .queued))
  | some (.call c _ _ (.done e)) =>
    match s.frames c with
    | some f => advance H (s.setOp k none) c f e fds
    | none => some { s with wrong := true }
  | _ => none

def call (s : State σ ε δ) (c : Nat) (e : ε) (fds : List Int) : Option (State σ ε δ) :=
  match s.frames c with
  | some f => if (H.awaits f.state).isSome then none else advance H s c f e fds
  | none => none

def step (s : State σ ε δ) : Event ε → Option (State σ ε δ)
  | .submit k => submit s k
  | .accepted k res => accepted H s k res
  | .completed k e => completed H s k e
  | .reap k fds => reap H s k fds
  | .call c e fds => call H s c e fds

/-- The listener is open, and the accept loop has called its first accept. -/
def init (listenFd : Int) : State σ ε δ where
  table := Function.update (fun _ => none) listenFd (some .listener)
  clients := 0
  started := 0
  frames := fun _ => none
  ops := Function.update (fun _ => none) 0 (some (.accept listenFd .queued))
  nextOp := 1
  seen := fun _ => []
  wrong := false

def machine (listenFd : Int) : Machine (State σ ε δ) (Event ε) := ⟨init listenFd, step H⟩

end Server

/-! ## The numbers of one client -/

section Numbers

variable {σ ε δ : Type} {table table' table'' : Int → Option (File δ)}
  {number : δ → Int} {c : Nat} {names : Set δ} {d : δ} {fd : Int}

/-- The numbers of client `c` are those of its open names. -/
def Holds (table : Int → Option (File δ)) (c : Nat) (number : δ → Int) (names : Set δ) : Prop :=
  ∀ fd d, table fd = some (.own c d) ↔ d ∈ names ∧ number d = fd

/-- What is not client `c`'s is the same. -/
def Apart (c : Nat) (table table' : Int → Option (File δ)) : Prop :=
  ∀ fd x, (∀ d, x ≠ .own c d) → (table' fd = some x ↔ table fd = some x)

theorem Apart.refl (c : Nat) (table : Int → Option (File δ)) : Apart c table table :=
  fun _ _ _ => Iff.rfl

theorem Apart.trans (h : Apart c table table') (h' : Apart c table' table'') :
    Apart c table table'' :=
  fun fd x hx => (h' fd x hx).trans (h fd x hx)

theorem Apart.holds (h : Apart c table table') {c' : Nat} (hc : c' ≠ c)
    (hh : Holds table c' number names) : Holds table' c' number names := by
  intro fd d
  rw [h fd (.own c' d) (by rintro d' ⟨⟩; exact hc rfl)]
  exact hh fd d

/-- A number that changes, from and to nothing of anybody else. -/
theorem apart_update {o : Option (File δ)} (hold : ∀ x, table fd = some x → ∃ d, x = .own c d)
    (hnew : ∀ x, o = some x → ∃ d, x = .own c d) : Apart c table (Function.update table fd o) := by
  intro fd' x hx
  by_cases hfd : fd' = fd
  · subst hfd
    rw [Function.update_self]
    refine iff_of_false (fun h => ?_) (fun h => ?_)
    · obtain ⟨d, rfl⟩ := hnew x h
      exact hx d rfl
    · obtain ⟨d, rfl⟩ := hold x h
      exact hx d rfl
  · rw [Function.update_of_ne hfd]

/-- **A file is closed**: its number was its own. -/
theorem Holds.close (h : Holds table c number names) (hd : d ∈ names) :
    table (number d) = some (.own c d) ∧
      Holds (Function.update table (number d) none) c number (names \ {d}) := by
  have hown : table (number d) = some (.own c d) := (h _ _).2 ⟨hd, rfl⟩
  refine ⟨hown, fun fd' d' => ?_⟩
  rw [Set.mem_sdiff, Set.mem_singleton_iff, and_right_comm, ← h fd' d']
  by_cases hfd' : fd' = number d
  · subst hfd'
    rw [Function.update_self, hown]
    refine iff_of_false nofun ?_
    rintro ⟨heq, hne⟩
    cases heq
    exact hne rfl
  · rw [Function.update_of_ne hfd']
    refine ⟨fun htable => ⟨htable, ?_⟩, And.left⟩
    rintro rfl
    exact hfd' ((h fd' d').1 htable).2.symm

variable [DecidableEq δ]

/-- **A file is opened** under a free number. -/
theorem Holds.open (h : Holds table c number names) (hd : d ∉ names) (hfd : table fd = none) :
    Holds (Function.update table fd (some (.own c d))) c (Function.update number d fd)
      (insert d names) := by
  intro fd' d'
  by_cases hd' : d' = d
  · subst hd'
    rw [Function.update_self]
    by_cases hfd' : fd' = fd
    · subst hfd'
      simp
    · rw [Function.update_of_ne hfd']
      refine iff_of_false (fun htable => hd ((h fd' d').1 htable).1) ?_
      rintro ⟨-, rfl⟩
      exact hfd' rfl
  · rw [Function.update_of_ne hd', Set.mem_insert_iff, or_iff_right hd', ← h fd' d']
    by_cases hfd' : fd' = fd
    · subst hfd'
      rw [Function.update_self, hfd]
      refine iff_of_false ?_ nofun
      rintro ⟨⟩
      exact hd' rfl
    · rw [Function.update_of_ne hfd']

theorem Holds.opened (news : List (δ × Int)) (h : Holds table c number names)
    (hnames : (news.map Prod.fst).Nodup) (hnew : ∀ n ∈ news, n.1 ∉ names)
    (hfds : (news.map Prod.snd).Nodup) (hfree : ∀ n ∈ news, table n.2 = none) :
    Holds (State.opened table c news) c (State.assigned number news)
        (names ∪ {d | d ∈ news.map Prod.fst}) ∧
      Apart c table (State.opened table c news) := by
  induction news generalizing table number names with
  | nil =>
    have hset : names ∪ {d | d ∈ ([] : List (δ × Int)).map Prod.fst} = names := by simp
    rw [hset]
    exact ⟨h, Apart.refl c table⟩
  | cons n news ih =>
    rw [List.map_cons, List.nodup_cons] at hnames hfds
    have hfd := hfree n List.mem_cons_self
    have hnew' : ∀ m ∈ news, m.1 ∉ insert n.1 names := by
      rintro m hm (heq | hmem)
      · exact hnames.1 (heq ▸ List.mem_map_of_mem hm)
      · exact hnew m (List.mem_cons_of_mem _ hm) hmem
    have hfree' : ∀ m ∈ news, Function.update table n.2 (some (.own c n.1)) m.2 = none := by
      intro m hm
      have hne : m.2 ≠ n.2 := fun heq => hfds.1 (heq ▸ List.mem_map_of_mem hm)
      rw [Function.update_of_ne hne]
      exact hfree m (List.mem_cons_of_mem _ hm)
    have hset : insert n.1 names ∪ {d | d ∈ news.map Prod.fst} =
        names ∪ {d | d ∈ (n :: news).map Prod.fst} := by
      ext d
      simp only [Set.mem_union, Set.mem_insert_iff, Set.mem_ofPred_eq, List.map_cons, List.mem_cons]
      tauto
    have hupdate : Apart c table (Function.update table n.2 (some (.own c n.1))) := by
      refine apart_update (by simp [hfd]) ?_
      rintro _ ⟨⟩
      exact ⟨n.1, rfl⟩
    obtain ⟨hh, ha⟩ := ih (h.open (hnew n List.mem_cons_self) hfd) hnames.2 hnew' hfds.2 hfree'
    rw [hset] at hh
    exact ⟨hh, hupdate.trans ha⟩

/-- What `closeAll` does to the rest of the state. -/
theorem closeAll_eq (c : Nat) (number : δ → Int) (ds : List δ) (s : State σ ε δ) :
    State.closeAll c number ds s =
      { s with
        table := (State.closeAll c number ds s).table
        wrong := (State.closeAll c number ds s).wrong } := by
  induction ds generalizing s with
  | nil => rfl
  | cons d ds ih => exact ih (State.close c number d s)

theorem Holds.closed {ds : List δ} {s : State σ ε δ} (h : Holds s.table c number names)
    (hds : ds.Nodup) (hsub : ∀ d ∈ ds, d ∈ names) (hright : s.wrong = false) :
    Holds (State.closeAll c number ds s).table c number (names \ {d | d ∈ ds}) ∧
      Apart c s.table (State.closeAll c number ds s).table ∧
      (State.closeAll c number ds s).wrong = false := by
  induction ds generalizing s names with
  | nil =>
    have hset : names \ {d | d ∈ ([] : List δ)} = names := by
      ext x
      simp
    rw [hset]
    exact ⟨h, Apart.refl c s.table, hright⟩
  | cons d ds ih =>
    obtain ⟨hnot, hds⟩ := List.nodup_cons.1 hds
    obtain ⟨hown, hclose⟩ := h.close (hsub d List.mem_cons_self)
    have hright' : (State.close c number d s).wrong = false := by
      simp [State.close, hright, hown]
    have hsub' : ∀ x ∈ ds, x ∈ names \ {d} := by
      refine fun x hx => ⟨hsub x (List.mem_cons_of_mem _ hx), ?_⟩
      rintro rfl
      exact hnot hx
    have hset : (names \ {d}) \ {x | x ∈ ds} = names \ {x | x ∈ d :: ds} := by
      ext x
      simp only [Set.mem_sdiff, Set.mem_singleton_iff, Set.mem_ofPred_eq, List.mem_cons]
      tauto
    have hupdate : Apart c s.table (State.close c number d s).table := by
      refine apart_update (fun x hx => ?_) nofun
      rw [hown] at hx
      exact ⟨d, (Option.some.inj hx).symm⟩
    obtain ⟨hh, ha, hw⟩ := ih (s := State.close c number d s) hclose hds hsub' hright'
    rw [hset] at hh
    exact ⟨hh, hupdate.trans ha, hw⟩

end Numbers

/-! ## What a coroutine does with its own descriptors -/

section Inv

variable {σ ε δ : Type} {H : Handler σ ε δ}

/-- The names that are open. -/
def Handler.openNames (H : Handler σ ε δ) (t : σ) : Set δ := {d | d ∈ H.owned t ∧ d ∉ H.closed t}

/-- Names are opened once, only open names are used, each is closed once, and in the end all are. -/
structure Handler.Lawful (H : Handler σ ε δ) : Prop where
  init_owned : H.owned H.machine.init = [H.client]
  init_closed : H.closed H.machine.init = []
  init_running : H.returned H.machine.init = false
  nodup : ∀ {es t}, H.machine.run es = some t → (H.owned t).Nodup
  once : ∀ {es t}, H.machine.run es = some t → (H.closed t).Nodup
  subset : ∀ {es t}, H.machine.run es = some t → ∀ d ∈ H.closed t, d ∈ H.owned t
  uses : ∀ {es t names}, H.machine.run es = some t → H.awaits t = some names →
    ∀ d ∈ names, d ∈ H.openNames t
  releases : ∀ {es t}, H.machine.run es = some t → H.returned t = true →
    ∀ d ∈ H.owned t, d ∈ H.closed t
  grows : ∀ {es t e t'}, H.machine.run es = some t → H.machine.step t e = some t' →
    H.owned t <+: H.owned t' ∧ H.closed t <+: H.closed t'

/-! ## The invariant -/

/-- The coroutine of client `c` is at `f`. -/
structure FrameOk (H : Handler σ ε δ) (s : State σ ε δ) (c : Nat) (f : Frame σ δ) : Prop where
  lt : c < s.started
  run : H.machine.run (s.seen c) = some f.state
  running : H.returned f.state = false
  holds : Holds s.table c f.number (H.openNames f.state)

/-- A client has been accepted, and the accept loop does not know yet. -/
def Pending (listenFd : Int) (s : State σ ε δ) (fd : Int) : Prop :=
  0 ≤ fd ∧ ∃ k, s.ops k = some (.accept listenFd (.done fd))

/-- The coroutine of client `c` has returned, or has not been called. -/
structure GoneOk (H : Handler σ ε δ) (listenFd : Int) (s : State σ ε δ) (c : Nat) : Prop where
  returned : c < s.started → ∃ t, H.machine.run (s.seen c) = some t ∧ H.returned t = true
  unseen : s.started ≤ c → s.seen c = []
  table : ∀ fd d, s.table fd = some (.own c d) → Pending listenFd s fd ∧ c = s.started ∧ d = H.client

def AcceptOk (H : Handler σ ε δ) (s : State σ ε δ) : Phase δ Int → Prop
  | .queued => True
  | .armed files => files = [some .listener]
  | .done res => 0 ≤ res → s.clients = s.started + 1 ∧ s.table res = some (.own s.started H.client)

def CallOk (H : Handler σ ε δ) (c : Nat) (names : List δ) (f : Frame σ δ) : Phase δ ε → Prop
  | .queued => True
  | .armed files => files = names.map fun d => some (.own c d)
  | .done e => (H.machine.step f.state e).isSome

def OpOk (H : Handler σ ε δ) (listenFd : Int) (s : State σ ε δ) : Op ε δ → Prop
  | .accept fd phase => fd = listenFd ∧ AcceptOk H s phase
  | .call c names fds phase => ∃ f, s.frames c = some f ∧ H.awaits f.state = some names ∧
      fds = names.map f.number ∧ CallOk H c names f phase

/-- Who has an operation: the accept loop, and the coroutines that await one. -/
def Live (H : Handler σ ε δ) (s : State σ ε δ) : Option Nat → Prop
  | none => True
  | some c => ∃ f, s.frames c = some f ∧ (H.awaits f.state).isSome

/-- **The invariant of the server**, where `live` have an operation. -/
structure Inv (H : Handler σ ε δ) (listenFd : Int) (live : Option Nat → Prop) (s : State σ ε δ) :
    Prop where
  right : s.wrong = false
  frames : ∀ c f, s.frames c = some f → FrameOk H s c f
  gone : ∀ c, s.frames c = none → GoneOk H listenFd s c
  clients : s.clients = s.started ∨ ∃ fd, Pending listenFd s fd
  listener : s.table listenFd = some .listener
  excl : Exclusive s.ops (fun o => some o.owner) live
  ops : ∀ k o, s.ops k = some o → OpOk H listenFd s o
  fresh : ∀ k, s.nextOp ≤ k → s.ops k = none

/-- The same while the coroutine of client `c` runs and has come to `f`. -/
structure Running (H : Handler σ ε δ) (listenFd : Int) (live : Option Nat → Prop) (s : State σ ε δ)
    (c : Nat) (f : Frame σ δ) : Prop where
  right : s.wrong = false
  lt : c < s.started
  run : H.machine.run (s.seen c) = some f.state
  holds : Holds s.table c f.number (H.openNames f.state)
  frames : ∀ c' f', c' ≠ c → s.frames c' = some f' → FrameOk H s c' f'
  gone : ∀ c', c' ≠ c → s.frames c' = none → GoneOk H listenFd s c'
  clients : s.clients = s.started ∨ ∃ fd, Pending listenFd s fd
  listener : s.table listenFd = some .listener
  excl : Exclusive s.ops (fun o => some o.owner) live
  idle : ¬live (some c)
  ops : ∀ k o, s.ops k = some o → OpOk H listenFd s o
  fresh : ∀ k, s.nextOp ≤ k → s.ops k = none

/-! ## Operations -/

section Steps

variable {listenFd : Int} {live live' : Option Nat → Prop} {s s' : State σ ε δ} {k c : Nat} {o o' : Op ε δ}
  {f : Frame σ δ} {res : Int}

/-- The accept loop has at most one operation. -/
theorem Inv.accept_unique (h : Inv H listenFd live s) {fd : Int} {phase : Phase δ Int}
    (hk : s.ops k = some (.accept fd phase)) {fd' : Int} {phase' : Phase δ Int} {k' : Nat}
    (hk' : s.ops k' = some (.accept fd' phase')) : k' = k ∧ phase' = phase := by
  obtain rfl : k' = k := h.excl.inj hk' hk rfl rfl
  rw [hk] at hk'
  cases hk'
  exact ⟨rfl, rfl⟩

theorem GoneOk.mono (h : GoneOk H listenFd s c) {s' : State σ ε δ} (hstarted : s'.started = s.started)
    (hseen : s'.seen c = s.seen c)
    (htable : ∀ fd d, s'.table fd = some (.own c d) → s.table fd = some (.own c d))
    (hpending : ∀ fd, Pending listenFd s fd → Pending listenFd s' fd) : GoneOk H listenFd s' c := by
  refine ⟨fun hlt => ?_, fun hle => ?_, fun fd d hfd => ?_⟩
  · rw [hseen]
    exact h.returned (hstarted ▸ hlt)
  · rw [hseen]
    exact h.unseen (hstarted ▸ hle)
  · obtain ⟨hfd, hc, hd⟩ := h.table fd d (htable fd d hfd)
    exact ⟨hpending fd hfd, hstarted ▸ hc, hd⟩

/-- The operations change, but not that of a client that waits to be started. -/
theorem Pending.mono {fd : Int} (h : Pending listenFd s fd)
    (hk : ∀ fd, s.ops k ≠ some (.accept listenFd (.done fd)))
    (hops : ∀ k', k' ≠ k → s'.ops k' = s.ops k') : Pending listenFd s' fd := by
  obtain ⟨hfd, k', hk'⟩ := h
  refine ⟨hfd, k', ?_⟩
  rw [hops k' (by rintro rfl; exact hk fd hk')]
  exact hk'

/-- An operation goes to its next phase. -/
theorem Inv.setOp (h : Inv H listenFd live s) (hk : s.ops k = some o)
    (hdone : ∀ fd, o ≠ .accept listenFd (.done fd)) (howner : o'.owner = o.owner)
    (hok : OpOk H listenFd s o') : Inv H listenFd live (s.setOp k (some o')) := by
  have hpending : ∀ fd, Pending listenFd s fd → Pending listenFd (s.setOp k (some o')) fd :=
    fun fd hfd => hfd.mono (fun fd' he => hdone fd' (Option.some.inj (hk.symm.trans he)))
      (fun k' hk' => Function.update_of_ne hk' _ _)
  refine ⟨h.right, fun c f hf => ?_, fun c hc => ?_, ?_, h.listener, ?_, ?_, fun k' hk' => ?_⟩
  · obtain ⟨hlt, hrun, hrunning, hholds⟩ := h.frames c f hf
    exact ⟨hlt, hrun, hrunning, hholds⟩
  · exact (h.gone c hc).mono rfl rfl (fun _ _ => id) hpending
  · rcases h.clients with hc | ⟨fd, hfd⟩
    · exact Or.inl hc
    · exact Or.inr ⟨fd, hpending fd hfd⟩
  · exact h.excl.set hk (congrArg some howner)
  · exact forall_update (by rintro _ ⟨⟩; exact hok) fun k' o _ => h.ops k' o
  · have hne : k' ≠ k := by
      rintro rfl
      rw [h.fresh k' hk'] at hk
      cases hk
    exact (Function.update_of_ne hne _ _).trans (h.fresh k' hk')

theorem Inv.submit (hH : H.Lawful) (h : Inv H listenFd live s) (hs : submit s k = some s') :
    Inv H listenFd live s' ∧ s'.frames = s.frames := by
  unfold Handlers.submit at hs
  split at hs
  · rename_i fd hk
    cases hs
    obtain ⟨rfl, -⟩ := h.ops k _ hk
    refine ⟨h.setOp hk nofun rfl ⟨rfl, ?_⟩, rfl⟩
    show [s.table fd] = [some .listener]
    rw [h.listener]
  · rename_i c names fds hk
    cases hs
    obtain ⟨f, hf, hawaits, rfl, -⟩ := h.ops k _ hk
    refine ⟨h.setOp hk nofun rfl ⟨f, hf, hawaits, rfl, ?_⟩, rfl⟩
    -- the names are open, so their numbers are the client's
    have hframe := h.frames c f hf
    show (names.map f.number).map s.table = names.map fun d => some (.own c d)
    rw [List.map_map]
    refine List.map_congr_left fun d hd => ?_
    exact (hframe.holds _ d).2 ⟨hH.uses hframe.run hawaits d hd, rfl⟩
  · cases hs

/-! ## A coroutine runs -/

/-- The operation of the coroutine, or the one of the accept loop, has been taken from the table. -/
theorem pending_clear (hk : s.ops k = some o)
    (ho : o.owner ≠ none) {fd : Int} (hfd : Pending listenFd s fd) :
    Pending listenFd (s.setOp k none) fd := by
  refine hfd.mono (fun fd' he => ?_) fun k' hk' => Function.update_of_ne hk' _ _
  rw [hk] at he
  cases he
  exact ho rfl

/-- **A coroutine is resumed.** -/
theorem Inv.resume (h : Inv H listenFd live s) {names : List δ} {fds : List Int}
    {phase : Phase δ ε} (hk : s.ops k = some (.call c names fds phase)) (hf : s.frames c = some f) :
    Running H listenFd (fun i => live i ∧ i ≠ some c) (s.setOp k none) c f := by
  obtain ⟨hlt, hrun, -, hholds⟩ := h.frames c f hf
  have hpending : ∀ fd, Pending listenFd s fd → Pending listenFd (s.setOp k none) fd :=
    fun fd => pending_clear hk nofun
  refine ⟨h.right, hlt, hrun, hholds, fun c' f' _ hf' => ?_, fun c' _ hc' => ?_, ?_, h.listener,
    h.excl.retire hk rfl, fun hi => hi.2 rfl, ?_, fun k' hk' => ?_⟩
  · obtain ⟨hlt, hrun, hrunning, hholds⟩ := h.frames c' f' hf'
    exact ⟨hlt, hrun, hrunning, hholds⟩
  · exact (h.gone c' hc').mono rfl rfl (fun _ _ => id) hpending
  · rcases h.clients with hc | ⟨fd, hfd⟩
    · exact Or.inl hc
    · exact Or.inr ⟨fd, hpending fd hfd⟩
  · exact forall_update (P := fun _ o => OpOk H listenFd s o) (o := none) nofun
      fun k' o _ => h.ops k' o
  · by_cases hne : k' = k
    · rw [hne]
      exact Function.update_self ..
    · exact (Function.update_of_ne hne _ _).trans (h.fresh k' hk')

/-- A coroutine that does not await an operation. -/
theorem Inv.running (h : Inv H listenFd live s) (hf : s.frames c = some f) (hidle : ¬live (some c)) :
    Running H listenFd live s c f := by
  obtain ⟨hlt, hrun, -, hholds⟩ := h.frames c f hf
  exact ⟨h.right, hlt, hrun, hholds, fun c' f' _ => h.frames c' f', fun c' _ => h.gone c', h.clients,
    h.listener, h.excl, hidle, h.ops, h.fresh⟩

/-- **A coroutine is called** for the client that has been accepted. -/
theorem Inv.start (hH : H.Lawful) (h : Inv H listenFd live s) {fd : Int}
    (hk : s.ops k = some (.accept fd (.done res))) (hres : 0 ≤ res) (hidle : ¬live (some s.started)) :
    Running H listenFd (fun i => live i ∧ i ≠ none) { s.setOp k none with started := s.started + 1 } s.started
      ⟨H.machine.init, fun _ => res⟩ := by
  obtain ⟨rfl, hdone⟩ := h.ops k _ hk
  obtain ⟨hclients, htable⟩ := hdone hres
  have hnone : s.frames s.started = none := by
    cases hf : s.frames s.started with
    | none => rfl
    | some f => exact absurd (h.frames _ f hf).lt (Nat.lt_irrefl _)
  have hgone := h.gone _ hnone
  have hfd : ∀ fd', Pending fd s fd' → fd' = res := by
    rintro fd' ⟨-, k', hk'⟩
    cases (h.accept_unique hk hk').2
    rfl
  have hopen : H.openNames H.machine.init = {H.client} := by
    ext d
    simp [Handler.openNames, hH.init_owned, hH.init_closed]
  refine ⟨h.right, Nat.lt_succ_self _, ?_, fun fd' d => ?_, fun c' f' _ hf' => ?_,
    fun c' hne hc' => ?_, Or.inl hclients, h.listener, h.excl.retire hk rfl, fun hi => hidle hi.1, ?_,
    fun k' hk' => ?_⟩
  · show H.machine.run (s.seen s.started) = some H.machine.init
    rw [hgone.unseen (Nat.le_refl _)]
    rfl
  · show s.table fd' = some (.own s.started d) ↔ d ∈ H.openNames H.machine.init ∧ res = fd'
    rw [hopen, Set.mem_singleton_iff]
    constructor
    · intro he
      obtain ⟨hpending, -, hd⟩ := hgone.table fd' d he
      exact ⟨hd, (hfd fd' hpending).symm⟩
    · rintro ⟨rfl, rfl⟩
      exact htable
  · obtain ⟨hlt, hrun, hrunning, hholds⟩ := h.frames c' f' hf'
    exact ⟨Nat.lt_succ_of_lt hlt, hrun, hrunning, hholds⟩
  · obtain ⟨hreturned, hunseen, hnone⟩ := h.gone c' hc'
    refine ⟨fun hlt => hreturned (Nat.lt_of_le_of_ne (Nat.le_of_lt_succ hlt) hne),
      fun hle => hunseen (Nat.le_of_succ_le hle), fun fd' d he => ?_⟩
    exact absurd (hnone fd' d he).2.1 hne
  · refine forall_update (P := fun _ o => OpOk H fd { s with started := s.started + 1 } o) (o := none) nofun
      fun k' o hne hk' => ?_
    cases o with
    | accept fd' phase => exact absurd (h.accept_unique hk hk').1 hne
    | call c names fds phase => exact h.ops k' _ hk'
  · by_cases hne : k' = k
    · rw [hne]
      exact Function.update_self ..
    · exact (Function.update_of_ne hne _ _).trans (h.fresh k' hk')

/-- The coroutine is suspended again, or it is gone. -/
theorem Running.stop (hH : H.Lawful) (h : Running H listenFd live s c f) :
    Inv H listenFd live
      { s with frames := Function.update s.frames c (if H.returned f.state then none else some f) } := by
  have hother : ∀ o : Option (Frame σ δ), ∀ c', c' ≠ c →
      Function.update s.frames c o c' = s.frames c' := fun o c' hne => Function.update_of_ne hne _ _
  refine ⟨h.right, fun c' f' hf' => ?_, fun c' hc' => ?_, h.clients, h.listener, h.excl,
    fun k o hk => ?_, h.fresh⟩
  · have hframe : FrameOk H s c' f' := by
      refine forall_update (P := FrameOk H s) (fun f' he => ?_) h.frames c' f' hf'
      by_cases hr : H.returned f.state = true
      · rw [if_pos hr] at he
        cases he
      · rw [if_neg hr] at he
        cases he
        exact ⟨h.lt, h.run, Bool.eq_false_iff.2 hr, h.holds⟩
    obtain ⟨hlt, hrun, hrunning, hholds⟩ := hframe
    exact ⟨hlt, hrun, hrunning, hholds⟩
  · by_cases hne : c' = c
    · subst hne
      have hr : H.returned f.state = true := by
        by_contra hr
        have hsome := (Function.update_self c' (if H.returned f.state then none else some f)
          s.frames).symm.trans hc'
        rw [if_neg hr] at hsome
        cases hsome
      refine ⟨fun _ => ⟨_, h.run, hr⟩, fun hle => absurd h.lt (Nat.not_lt.2 hle), fun fd d hfd => ?_⟩
      obtain ⟨⟨howned, hopen⟩, -⟩ := (h.holds fd d).1 hfd
      exact absurd (hH.releases h.run hr d howned) hopen
    · exact (h.gone c' hne ((hother _ c' hne).symm.trans hc')).mono rfl rfl (fun _ _ => id)
        fun _ => id
  · cases o with
    | accept fd phase => exact h.ops k _ hk
    | call c' names fds phase =>
      obtain ⟨f', hf', hrest⟩ := h.ops k _ hk
      have hne : c' ≠ c := by
        rintro rfl
        exact h.idle (h.excl.live_own hk rfl)
      exact ⟨f', (hother _ c' hne).trans hf', hrest⟩

/-- **The next operation** of somebody who has none. -/
theorem Inv.queue (h : Inv H listenFd live s) (hidle : ¬live o.owner) (hok : OpOk H listenFd s o) :
    Inv H listenFd (fun i => live i ∨ i = o.owner) (s.queue o) := by
  have hfree : s.ops s.nextOp = none := h.fresh _ (Nat.le_refl _)
  have hpending : ∀ fd, Pending listenFd s fd → Pending listenFd (s.queue o) fd := fun fd hfd =>
    hfd.mono (by simp [hfree]) fun k' hk' => Function.update_of_ne hk' _ _
  refine ⟨h.right, fun c f hf => ?_, fun c hc => ?_, ?_, h.listener, h.excl.spawn hfree rfl hidle, ?_,
    fun k' hk' => ?_⟩
  · obtain ⟨hlt, hrun, hrunning, hholds⟩ := h.frames c f hf
    exact ⟨hlt, hrun, hrunning, hholds⟩
  · exact (h.gone c hc).mono rfl rfl (fun _ _ => id) hpending
  · rcases h.clients with hc | ⟨fd, hfd⟩
    · exact Or.inl hc
    · exact Or.inr ⟨fd, hpending fd hfd⟩
  · exact forall_update (P := fun _ o => OpOk H listenFd s o) (by rintro _ ⟨⟩; exact hok)
      fun k' o _ => h.ops k' o
  · have hlt : s.nextOp < k' := hk'
    exact (Function.update_of_ne (Nat.ne_of_gt hlt) _ _).trans (h.fresh k' (Nat.le_of_lt hlt))

theorem Inv.congr (h : Inv H listenFd live s) (hl : ∀ i, live' i ↔ live i) :
    Inv H listenFd live' s :=
  { h with excl := h.excl.congr hl }

/-- **The coroutine goes on to its next operation, or returns.** -/
theorem Running.await (hH : H.Lawful) (h : Running H listenFd live s c f)
    (hl : ∀ i, i ≠ some c → (live i ↔ live' i))
    (hlive : live' (some c) ↔ H.returned f.state = false ∧ (H.awaits f.state).isSome) :
    Inv H listenFd live' (await H s c f) := by
  have hstop := h.stop hH
  have hself : ¬live' (some c) → ∀ i, live' i ↔ live i := by
    intro hnot i
    by_cases hi : i = some c
    · rw [hi]
      exact iff_of_false hnot h.idle
    · exact (hl i hi).symm
  unfold Handlers.await
  by_cases hr : H.returned f.state = true
  · rw [if_pos hr] at hstop ⊢
    refine hstop.congr (hself fun hc => ?_)
    rw [hr] at hlive
    cases (hlive.1 hc).1
  · rw [if_neg hr] at hstop ⊢
    dsimp only
    split
    · rename_i names hawaits
      have hok : OpOk H listenFd { s with frames := Function.update s.frames c (some f) }
          (.call c names (names.map f.number) .queued) :=
        ⟨f, Function.update_self .., hawaits, rfl, trivial⟩
      refine (hstop.queue (o := .call c names (names.map f.number) .queued) h.idle hok).congr
        fun i => ?_
      by_cases hi : i = some c
      · rw [hi, hlive, hawaits]
        exact iff_of_true ⟨Bool.eq_false_iff.2 hr, rfl⟩ (Or.inr rfl)
      · rw [← hl i hi]
        exact ⟨Or.inl, fun h => h.resolve_right hi⟩
    · rename_i hawaits
      refine hstop.congr (hself fun hc => ?_)
      rw [hawaits] at hlive
      cases (hlive.1 hc).2

theorem await_frames : (await H s c f).frames =
    Function.update s.frames c (if H.returned f.state then none else some f) := by
  unfold Handlers.await
  by_cases hr : H.returned f.state = true
  · rw [if_pos hr, if_pos hr]
  · rw [if_neg hr, if_neg hr]
    dsimp only
    split
    · rfl
    · rfl

theorem live_frames (h : s'.frames = s.frames) {i : Option Nat} : Live H s i ↔ Live H s' i := by
  cases i with
  | none => exact Iff.rfl
  | some c => rw [Live, Live, h]

/-- Who has an operation after one coroutine has gone on. -/
theorem live_update (h : s'.frames =
    Function.update s.frames c (if H.returned f.state then none else some f)) :
    (∀ i, i ≠ some c → (Live H s i ↔ Live H s' i)) ∧
      (Live H s' (some c) ↔ H.returned f.state = false ∧ (H.awaits f.state).isSome) := by
  constructor
  · intro i hi
    cases i with
    | none => exact Iff.rfl
    | some c' =>
      have hne : c' ≠ c := fun he => hi (congrArg some he)
      simp only [Live, h, Function.update_of_ne hne]
  · simp only [Live, h, Function.update_self]
    by_cases hr : H.returned f.state = true
    · simp [hr]
    · simp [hr]

theorem Running.goOn (hH : H.Lawful) (h : Running H listenFd live s c f)
    (hl : ∀ i, i ≠ some c → (live i ↔ Live H s i)) :
    Inv H listenFd (Live H (Handlers.await H s c f)) (Handlers.await H s c f) := by
  obtain ⟨hother, hself⟩ := live_update (H := H) (s := s) (f := f) await_frames
  exact h.await hH (fun i hi => (hl i hi).trans (hother i hi)) hself

/-- An error is taken from the table. -/
theorem Inv.acceptFailed (h : Inv H listenFd live s) {fd : Int}
    (hk : s.ops k = some (.accept fd (.done res))) (hres : res < 0) :
    Inv H listenFd (fun i => live i ∧ i ≠ none) (s.setOp k none) := by
  have hnone : ∀ fd', ¬Pending listenFd s fd' := by
    rintro fd' ⟨hfd', k', hk'⟩
    cases (h.accept_unique hk hk').2
    exact absurd hres (Int.not_lt.2 hfd')
  refine ⟨h.right, fun c f hf => ?_, fun c hc => ?_, ?_, h.listener, h.excl.retire hk rfl, ?_,
    fun k' hk' => ?_⟩
  · obtain ⟨hlt, hrun, hrunning, hholds⟩ := h.frames c f hf
    exact ⟨hlt, hrun, hrunning, hholds⟩
  · exact (h.gone c hc).mono rfl rfl (fun _ _ => id) fun fd' hfd' => absurd hfd' (hnone fd')
  · rcases h.clients with hc | ⟨fd', hfd'⟩
    · exact Or.inl hc
    · exact absurd hfd' (hnone fd')
  · exact forall_update (P := fun _ o => OpOk H listenFd s o) (o := none) nofun
      fun k' o _ => h.ops k' o
  · by_cases hne : k' = k
    · rw [hne]
      exact Function.update_self ..
    · exact (Function.update_of_ne hne _ _).trans (h.fresh k' hk')

/-- **The accept loop goes on** to its next operation. -/
theorem Inv.acceptNext (h : Inv H listenFd (fun i => Live H s i ∧ i ≠ none) s) :
    Inv H listenFd (Live H (s.queue (.accept listenFd .queued)))
      (s.queue (.accept listenFd .queued)) := by
  refine (h.queue (o := .accept listenFd .queued) (fun hi => hi.2 rfl) ⟨rfl, trivial⟩).congr
    fun i => ?_
  cases i with
  | none => exact iff_of_true trivial (Or.inr rfl)
  | some c => exact ⟨fun hi => Or.inl ⟨hi, nofun⟩, fun hi => (hi.resolve_right nofun).1⟩

/-- **A client that has been accepted gets a coroutine.** -/
theorem Inv.acceptDone (hH : H.Lawful) (h : Inv H listenFd (Live H s) s) {fd : Int}
    (hk : s.ops k = some (.accept fd (.done res))) (hres : 0 ≤ res) :
    Inv H listenFd (fun i => Live H (Handlers.start H (s.setOp k none) res) i ∧ i ≠ none)
      (Handlers.start H (s.setOp k none) res) := by
  have hidle : ¬Live H s (some s.started) := by
    rintro ⟨f, hf, -⟩
    exact absurd (h.frames _ f hf).lt (Nat.lt_irrefl _)
  obtain ⟨hother, hself⟩ := live_update (H := H) (s := { s.setOp k none with started := s.started + 1 })
    (c := s.started) (f := ⟨H.machine.init, fun _ => res⟩) await_frames
  refine (h.start hH hk hres hidle).await hH (fun i hi => and_congr_left' (hother i hi)) ?_
  rw [← hself]
  exact and_iff_left nofun

theorem init_inv (H : Handler σ ε δ) (listenFd : Int) :
    Inv H listenFd (Live H (init listenFd : State σ ε δ)) (init listenFd) := by
  have hops : ∀ k o, (init listenFd : State σ ε δ).ops k = some o → o = .accept listenFd .queued := by
    intro k o hk
    by_cases h0 : k = 0
    · simpa [init, h0, eq_comm] using hk
    · simp [init, Function.update_of_ne h0] at hk
  refine ⟨rfl, nofun, fun c _ => ⟨nofun, fun _ => rfl, fun fd d hfd => ?_⟩, Or.inl rfl, ?_, ?_,
    fun k o hk => ?_, fun k hk => ?_⟩
  · by_cases he : fd = listenFd
    · simp [init, he] at hfd
    · simp [init, Function.update_of_ne he] at hfd
  · simp [init]
  · refine ((Exclusive.empty (α := Op ε δ) fun o => some o.owner).spawn (k := 0)
      (b := .accept listenFd .queued) rfl rfl id).congr fun i => ?_
    cases i with
    | none => exact iff_of_true trivial (Or.inr rfl)
    | some c => exact iff_of_false nofun (by rintro (h | h) <;> cases h)
  · rw [hops k o hk]
    exact ⟨rfl, trivial⟩
  · have hne : k ≠ 0 := Nat.ne_of_gt hk
    simp [init, Function.update_of_ne hne]

/-! ## Every step -/

variable [DecidableEq δ]

theorem Inv.accepted (h : Inv H listenFd live s) (hs : accepted H s k res = some s') :
    Inv H listenFd live s' ∧ s'.frames = s.frames := by
  unfold Handlers.accepted at hs
  split at hs
  · rename_i fd files hk
    obtain ⟨rfl, hphase⟩ := h.ops k _ hk
    have hfiles : files = [some .listener] := hphase
    rw [if_pos hfiles] at hs
    by_cases hres : res < 0
    · rw [if_pos hres] at hs
      cases hs
      exact ⟨h.setOp hk nofun rfl ⟨rfl, fun hle => absurd hres (Int.not_lt.2 hle)⟩, rfl⟩
    · rw [if_neg hres] at hs
      obtain ⟨hfree, hs'⟩ := Option.ite_none_right_eq_some.1 hs
      obtain rfl := Option.some.inj hs'
      -- the accept loop waits for this operation, so all clients are started
      have hnone : ∀ fd', ¬Pending fd s fd' := by
        rintro fd' ⟨-, k', hk'⟩
        cases (h.accept_unique hk hk').2
      have hclients : s.clients = s.started := by
        rcases h.clients with hc | ⟨fd', hfd'⟩
        · exact hc
        · exact absurd hfd' (hnone fd')
      have hapart : Apart s.started s.table
          (Function.update s.table res (some (.own s.clients H.client))) := by
        refine apart_update (by simp [hfree]) ?_
        rintro _ ⟨⟩
        exact ⟨H.client, by rw [hclients]⟩
      refine ⟨⟨h.right, fun c f hf => ?_, fun c hc => ?_, ?_, ?_, ?_, ?_, fun k' hk' => ?_⟩, rfl⟩
      · obtain ⟨hlt, hrun, hrunning, hholds⟩ := h.frames c f hf
        exact ⟨hlt, hrun, hrunning, hapart.holds (Nat.ne_of_lt hlt) hholds⟩
      · obtain ⟨hreturned, hunseen, htable⟩ := h.gone c hc
        refine ⟨hreturned, hunseen, fun fd' d hfd' => ?_⟩
        by_cases he : fd' = res
        · subst he
          have hnew := (Function.update_self fd' (some (File.own s.clients H.client)) s.table).symm.trans hfd'
          cases hnew
          exact ⟨⟨Int.not_lt.1 hres, k, Function.update_self ..⟩, hclients, rfl⟩
        · have hold := (Function.update_of_ne he (some (File.own s.clients H.client)) s.table).symm.trans hfd'
          exact absurd (htable fd' d hold).1 (hnone fd')
      · exact Or.inr ⟨res, Int.not_lt.1 hres, k, Function.update_self ..⟩
      · exact (hapart fd .listener nofun).2 h.listener
      · exact h.excl.set hk rfl
      · refine forall_update ?_ fun k' o hne hk' => ?_
        · rintro _ ⟨⟩
          refine ⟨rfl, fun _ => ⟨congrArg (· + 1) hclients, ?_⟩⟩
          show Function.update s.table res (some (.own s.clients H.client)) res =
            some (.own s.started H.client)
          rw [Function.update_self, hclients]
        · cases o with
          | accept fd' phase => exact absurd (h.accept_unique hk hk').1 hne
          | call c names fds phase => exact h.ops k' _ hk'
      · have hne : k' ≠ k := by
          rintro rfl
          rw [h.fresh k' hk'] at hk
          cases hk
        exact (Function.update_of_ne hne _ _).trans (h.fresh k' hk')
  · cases hs

theorem Inv.completed {e : ε} (h : Inv H listenFd live s) (hs : completed H s k e = some s') :
    Inv H listenFd live s' ∧ s'.frames = s.frames := by
  unfold Handlers.completed at hs
  split at hs
  · rename_i c names fds files hk
    obtain ⟨f, hf, hawaits, hfds, hphase⟩ := h.ops k _ hk
    have hfiles : files = names.map fun d => some (.own c d) := hphase
    rw [if_pos hfiles, hf] at hs
    obtain ⟨hstep, hs'⟩ := Option.ite_none_right_eq_some.1 hs
    obtain rfl := Option.some.inj hs'
    exact ⟨h.setOp hk nofun rfl ⟨f, hf, hawaits, hfds, hstep⟩, rfl⟩
  · cases hs

/-- **The calls of one step** of a coroutine: what it opens it gets under free numbers, and what it
closes is its own. -/
theorem Running.calls (hH : H.Lawful) (h : Running H listenFd live s c f) {e : ε} {t : σ}
    (hstep : H.machine.step f.state e = some t) {names closing : List δ} {fds : List Int}
    (howned : H.owned t = H.owned f.state ++ names)
    (hclosed : H.closed t = H.closed f.state ++ closing) (hlen : fds.length = names.length)
    (hfds : fds.Nodup) (hfree : ∀ fd ∈ fds, s.table fd = none) :
    Running H listenFd live
      (State.closeAll c (State.assigned f.number (names.zip fds)) closing
        { s with
          table := State.opened s.table c (names.zip fds)
          seen := Function.update s.seen c (s.seen c ++ [e]) })
      c ⟨t, State.assigned f.number (names.zip fds)⟩ := by
  have hrun : H.machine.run (s.seen c ++ [e]) = some t := Machine.run_snoc.2 ⟨_, h.run, hstep⟩
  have hnodup := hH.nodup hrun
  rw [howned, List.nodup_append] at hnodup
  obtain ⟨-, hnames, hdisj⟩ := hnodup
  have honce := hH.once hrun
  rw [hclosed, List.nodup_append] at honce
  obtain ⟨-, hclosing, hapart⟩ := honce
  have hsub := hH.subset hrun
  have hold := hH.subset h.run
  have hfst : (names.zip fds).map Prod.fst = names := List.map_fst_zip (Nat.le_of_eq hlen.symm)
  have hsnd : (names.zip fds).map Prod.snd = fds := List.map_snd_zip (Nat.le_of_eq hlen)
  obtain ⟨hopen, hothers⟩ := h.holds.opened (names.zip fds) (by rwa [hfst])
    (fun n hn hmem => hdisj _ hmem.1 _ (hfst ▸ List.mem_map_of_mem hn) rfl) (by rwa [hsnd])
    (fun n hn => hfree _ (hsnd ▸ List.mem_map_of_mem hn))
  rw [hfst] at hopen
  have hmine : ∀ d ∈ closing, d ∈ H.openNames f.state ∪ {d | d ∈ names} := by
    intro d hd
    have howned' := hsub d (hclosed ▸ List.mem_append_right _ hd)
    rw [howned, List.mem_append] at howned'
    rcases howned' with hmem | hmem
    · exact Or.inl ⟨hmem, fun hc => hapart _ hc _ hd rfl⟩
    · exact Or.inr hmem
  have hset : (H.openNames f.state ∪ {d | d ∈ names}) \ {d | d ∈ closing} = H.openNames t := by
    ext d
    have hnew : d ∈ names → d ∉ H.closed f.state := fun hd hc => hdisj _ (hold d hc) _ hd rfl
    simp only [Handler.openNames, howned, hclosed, Set.mem_sdiff, Set.mem_union, Set.mem_ofPred_eq,
      List.mem_append]
    tauto
  obtain ⟨hholds, hothers', hright⟩ := Holds.closed
    (s := { s with
      table := State.opened s.table c (names.zip fds)
      seen := Function.update s.seen c (s.seen c ++ [e]) }) hopen hclosing hmine h.right
  rw [hset] at hholds
  have hall := hothers.trans hothers'
  rw [closeAll_eq]
  refine ⟨hright, h.lt, ?_, hholds, fun c' f' hne hf' => ?_, fun c' hne hc' => ?_, h.clients, ?_,
    h.excl, h.idle, fun k o hk => ?_, h.fresh⟩
  · show H.machine.run (Function.update s.seen c (s.seen c ++ [e]) c) = some t
    rw [Function.update_self]
    exact hrun
  · obtain ⟨hlt, hrun', hrunning, hh⟩ := h.frames c' f' hne hf'
    refine ⟨hlt, ?_, hrunning, hall.holds hne hh⟩
    show H.machine.run (Function.update s.seen c (s.seen c ++ [e]) c') = some f'.state
    rw [Function.update_of_ne hne]
    exact hrun'
  · refine (h.gone c' hne hc').mono rfl (Function.update_of_ne hne _ _) (fun fd d hfd => ?_)
      fun fd => id
    exact (hall fd (.own c' d) (by rintro d' ⟨⟩; exact hne rfl)).1 hfd
  · exact (hall listenFd .listener nofun).2 h.listener
  · cases o with
    | accept fd phase =>
      obtain ⟨rfl, hphase⟩ := h.ops k _ hk
      refine ⟨rfl, ?_⟩
      cases phase with
      | queued => trivial
      | armed files => exact hphase
      | done res =>
        intro hres
        obtain ⟨hclients, htable⟩ := hphase hres
        refine ⟨hclients, (hall res (.own s.started H.client) ?_).2 htable⟩
        rintro d ⟨⟩
        exact Nat.lt_irrefl _ h.lt
    | call c' names' fds' phase => exact h.ops k _ hk

/-- **A call returns, and the coroutine goes on.** -/
theorem Running.advance (hH : H.Lawful) (h : Running H listenFd live s c f)
    (hl : ∀ i, i ≠ some c → (live i ↔ Live H s i)) {e : ε} {fds : List Int}
    (hs : advance H s c f e fds = some s') : Inv H listenFd (Live H s') s' := by
  unfold Handlers.advance at hs
  split at hs
  · cases hs
  · rename_i t hstep
    obtain ⟨⟨hlen, hnodup, hfree⟩, hs'⟩ := Option.ite_none_right_eq_some.1 hs
    obtain rfl := Option.some.inj hs'
    obtain ⟨howned, hclosed⟩ := hH.grows h.run hstep
    have hcalls := h.calls hH hstep (List.prefix_iff_eq_append.1 howned).symm
      (List.prefix_iff_eq_append.1 hclosed).symm hlen hnodup hfree
    exact hcalls.goOn hH fun i hi => (hl i hi).trans (live_frames (by rw [closeAll_eq]))

/-- **Every step keeps the invariant.** -/
theorem Inv.step (hH : H.Lawful) (h : Inv H listenFd (Live H s) s) {e : Event ε}
    (hs : step H s e = some s') : Inv H listenFd (Live H s') s' := by
  cases e with
  | submit k =>
    obtain ⟨hinv, hframes⟩ := h.submit hH hs
    exact hinv.congr fun i => (live_frames hframes).symm
  | accepted k res =>
    obtain ⟨hinv, hframes⟩ := h.accepted hs
    exact hinv.congr fun i => (live_frames hframes).symm
  | completed k e =>
    obtain ⟨hinv, hframes⟩ := h.completed hs
    exact hinv.congr fun i => (live_frames hframes).symm
  | reap k fds =>
    change reap H s k fds = some s' at hs
    unfold Handlers.reap at hs
    split at hs
    · rename_i fd res hk
      obtain ⟨rfl, -⟩ := h.ops k _ hk
      split at hs
      · rename_i hres
        cases hs
        exact ((h.acceptFailed hk hres).congr fun i =>
          and_congr_left' (live_frames (s := s) rfl).symm).acceptNext
      · rename_i hres
        cases hs
        exact (h.acceptDone hH hk (Int.not_lt.1 hres)).acceptNext
    · rename_i c names fds' e hk
      obtain ⟨f, hf, -⟩ := h.ops k _ hk
      rw [hf] at hs
      exact (h.resume hk hf).advance hH (fun i hi => and_iff_left hi) hs
    · cases hs
  | call c e fds =>
    change call H s c e fds = some s' at hs
    unfold Handlers.call at hs
    split at hs
    · rename_i f hf
      split at hs
      · cases hs
      · rename_i hawaits
        refine Running.advance hH (h.running hf ?_) (fun i _ => Iff.rfl) hs
        rintro ⟨f', hf', hawaits'⟩
        rw [hf] at hf'
        cases hf'
        exact hawaits hawaits'
    · cases hs

theorem run_inv (hH : H.Lawful) {es : List (Event ε)} (h : (machine H listenFd).run es = some s) :
    Inv H listenFd (Live H s) s :=
  Machine.run_inv (I := fun s => Inv H listenFd (Live H s) s) (init_inv H listenFd)
    (fun _ _ _ hi hs => hi.step hH hs) h

/-! ## Every run -/

/-- **What holds after every run** of a server. -/
structure Sound (H : Handler σ ε δ) (s : State σ ε δ) : Prop where
  right : s.wrong = false
  /-- What a coroutine has done is a run of its own machine. -/
  execution : ∀ c < s.started, ∃ t, H.machine.run (s.seen c) = some t ∧
    match s.frames c with
    | some f => f.state = t ∧ H.returned t = false
    | none => H.returned t = true
  /-- A client's numbers are those of its open names. -/
  holds : ∀ c f, s.frames c = some f → Holds s.table c f.number (H.openNames f.state)
  /-- A coroutine that has returned has left nothing open. -/
  released : ∀ c < s.started, s.frames c = none → ∀ fd d, s.table fd ≠ some (.own c d)
  /-- Whoever waits has exactly one operation. -/
  single : ∀ c f, s.frames c = some f → (H.awaits f.state).isSome →
    ∃! k, ∃ o, s.ops k = some o ∧ o.owner = some c

theorem run_sound (hH : H.Lawful) {es : List (Event ε)} (h : (machine H listenFd).run es = some s) :
    Sound H s := by
  have hinv := run_inv hH h
  refine ⟨hinv.right, fun c hc => ?_, fun c f hf => (hinv.frames c f hf).holds,
    fun c hc hf fd d hfd => ?_, fun c f hf hawaits => ?_⟩
  · cases hf : s.frames c with
    | some f =>
      have hframe := hinv.frames c f hf
      exact ⟨f.state, hframe.run, rfl, hframe.running⟩
    | none =>
      obtain ⟨t, hrun, hreturned⟩ := (hinv.gone c hf).returned hc
      exact ⟨t, hrun, hreturned⟩
  · have heq := ((hinv.gone c hf).table fd d hfd).2.1
    exact Nat.lt_irrefl _ (heq ▸ hc)
  · obtain ⟨k, ⟨o, hk, ho⟩, hunique⟩ := hinv.excl.existsUnique (i := some c) ⟨f, hf, hawaits⟩
    refine ⟨k, ⟨o, hk, Option.some.inj ho⟩, ?_⟩
    rintro k' ⟨o', hk', ho'⟩
    exact hunique k' ⟨o', hk', congrArg some ho'⟩

end Steps

end Inv

end AdvCpp.Lib.Handlers
