import AdvCpp.Lib.Checked
import AdvCpp.Lib.Memory
import AdvCpp.Lib.Regions

/-!
# Programs over memory that another party may write

A `Shared` program reads and writes bytes, indexes vectors of its own, and may throw.  Another
party (a device) may change the memory before every access, so a program that reads twice may read
two values; `run` records the accesses.

* `Safe`, `Safe.run` — every access satisfies a condition, whatever the other party does.
* `safe_bind`, `safe_read`, `safe_write` — the rules, one for each construct.
* `NeverThrows`, `neverThrows_iff` — the program returns, whatever the other party does.
* `ReadOnly`, `ReadOnly.run_of_agree` — a program that only reads does not notice what the other
  party does elsewhere.
* `exec` — a run in which nobody else writes.
* `stores`, `peek_assign` — assignments to disjoint regions.
* `drive` — a run against registers, whose accesses have effects of their own; `drive_bind_ok`.
-/

namespace AdvCpp.Lib

/-- Bytes read or written, or the element `i` of a vector of `size` elements. -/
inductive Access where
  | read (r : Region)
  | write (r : Region)
  | index (i size : Nat)
  deriving DecidableEq

/-- Memory by address. -/
abbrev Mem := Nat → UInt8

inductive Shared (ε α : Type) where
  | ret (a : α)
  | throw (e : ε)
  | read (r : Region) (k : List UInt8 → Shared ε α)
  | write (a : Nat) (d : List UInt8) (k : Shared ε α)
  | index (i size : Nat) (k : Shared ε α)

namespace Shared

variable {ε α β : Type}

protected def bind (x : Shared ε α) (f : α → Shared ε β) : Shared ε β :=
  match x with
  | ret a => f a
  | throw e => throw e
  | read r k => read r fun d => (k d).bind f
  | write a d k => write a d (k.bind f)
  | index i size k => index i size (k.bind f)

instance : Monad (Shared ε) where
  pure := ret
  bind := Shared.bind

/-- The `n` bytes at `a`. -/
def load (a n : Nat) : Shared ε (List UInt8) := read ⟨a, n⟩ ret

def store (a : Nat) (d : List UInt8) : Shared ε Unit := write a d (ret ())

/-- The element `i` of a vector is about to be used. -/
def touch (i size : Nat) : Shared ε Unit := index i size (ret ())

/-- `if (!p) throw e;` -/
def ensure (p : Prop) [Decidable p] (e : ε) : Shared ε Unit := if p then ret () else throw e

/-! ## Runs -/

structure Outcome (ε α : Type) where
  result : Except ε α
  mem : Mem
  accesses : List Access

/-- A run; `dev t` is what the other party does to the memory before access number `t`. -/
def run (dev : Nat → Mem → Mem) (m : Mem) : Shared ε α → Outcome ε α
  | ret a => ⟨.ok a, m, []⟩
  | throw e => ⟨.error e, m, []⟩
  | read r k =>
    let m' := dev 0 m
    let o := run (fun t => dev (t + 1)) m' (k (peek m' r.offset r.size))
    { o with accesses := .read r :: o.accesses }
  | write a d k =>
    let o := run (fun t => dev (t + 1)) (poke (dev 0 m) a d) k
    { o with accesses := .write ⟨a, d.length⟩ :: o.accesses }
  | index i size k =>
    let o := run (fun t => dev (t + 1)) (dev 0 m) k
    { o with accesses := .index i size :: o.accesses }

@[simp] theorem run_pure (dev : Nat → Mem → Mem) (m : Mem) (a : α) :
    run dev m (pure a : Shared ε α) = ⟨.ok a, m, []⟩ := rfl

/-- A run in which nobody else writes. -/
def exec (m : Mem) (x : Shared ε α) : Except ε α × Mem :=
  ((run (fun _ m => m) m x).result, (run (fun _ m => m) m x).mem)

@[simp] theorem exec_pure (m : Mem) (a : α) : exec m (pure a : Shared ε α) = (.ok a, m) := rfl

@[simp] theorem exec_bind (m : Mem) (x : Shared ε α) (f : α → Shared ε β) :
    exec m (x >>= f) =
      match exec m x with
      | (.ok a, m') => exec m' (f a)
      | (.error e, m') => (.error e, m') := by
  show exec m (Shared.bind x f) = _
  induction x generalizing m with
  | ret a => rfl
  | throw e => rfl
  | read r k ih => exact ih _ m
  | write a d k ih => exact ih (poke m a d)
  | index i size k ih => exact ih m

@[simp] theorem exec_load (m : Mem) (a n : Nat) :
    exec m (load a n : Shared ε (List UInt8)) = (.ok (peek m a n), m) := rfl

@[simp] theorem exec_store (m : Mem) (a : Nat) (d : List UInt8) :
    exec m (store a d : Shared ε Unit) = (.ok (), poke m a d) := rfl

@[simp] theorem exec_touch (m : Mem) (i size : Nat) :
    exec m (touch i size : Shared ε Unit) = (.ok (), m) := rfl

theorem exec_ensure {p : Prop} [Decidable p] (h : p) (m : Mem) (e : ε) :
    exec m (ensure p e) = (.ok (), m) := by
  unfold ensure
  rw [if_pos h]
  rfl

/-- A first part that returned. -/
theorem exec_bind_ok {m m' : Mem} {x : Shared ε α} {a : α} (h : exec m x = (.ok a, m'))
    (f : α → Shared ε β) : exec m (x >>= f) = exec m' (f a) := by
  rw [exec_bind, h]

/-- A first part that threw. -/
theorem exec_bind_error {m m' : Mem} {x : Shared ε α} {e : ε} (h : exec m x = (.error e, m'))
    (f : α → Shared ε β) : exec m (x >>= f) = (.error e, m') := by
  rw [exec_bind, h]

/-- What is behind a failed check is not run. -/
theorem exec_ensure_bind_error {p : Prop} [Decidable p] (h : ¬ p) (m : Mem) (e : ε)
    (f : Unit → Shared ε β) : exec m (ensure p e >>= f) = (.error e, m) := by
  unfold ensure
  rw [if_neg h]
  rfl

/-! ## Registers -/

/-- Registers with a state: what a read returns, and what a read and a write do. -/
structure Registers (σ : Type) where
  load : σ → Region → List UInt8 × σ
  store : σ → Nat → List UInt8 → σ

/-- A run in which the registers answer. -/
def drive {σ : Type} (R : Registers σ) : Shared ε α → σ → Except ε α × σ
  | ret a, s => (.ok a, s)
  | throw e, s => (.error e, s)
  | read r k, s => drive R (k (R.load s r).1) (R.load s r).2
  | write a d k, s => drive R k (R.store s a d)
  | index _ _ k, s => drive R k s

/-- What may throw without an access. -/
def ofExcept : Except ε α → Shared ε α
  | .ok a => ret a
  | .error e => throw e

section Drive

variable {σ : Type} {R : Registers σ} {s s' : σ} {x : Shared ε α} {f : α → Shared ε β} {a : α} {e : ε}

theorem drive_pure : drive R (pure a : Shared ε α) s = (.ok a, s) := rfl

theorem drive_load {r : Region} :
    drive R (load r.offset r.size : Shared ε (List UInt8)) s =
      (.ok (R.load s r).1, (R.load s r).2) := rfl

theorem drive_store {a : Nat} {d : List UInt8} :
    drive R (store a d : Shared ε Unit) s = (.ok (), R.store s a d) := rfl

/-- What is behind a part that returned. -/
theorem drive_bind_ok (h : drive R x s = (.ok a, s')) : drive R (x >>= f) s = drive R (f a) s' := by
  show drive R (Shared.bind x f) s = _
  induction x generalizing s with
  | ret b =>
    cases h
    rfl
  | throw e => cases h
  | read r k ih => exact ih _ h
  | write a d k ih => exact ih h
  | index i size k ih => exact ih h

theorem drive_bind_error (h : drive R x s = (.error e, s')) :
    drive R (x >>= f) s = (.error e, s') := by
  show drive R (Shared.bind x f) s = _
  induction x generalizing s with
  | ret b => cases h
  | throw e =>
    cases h
    rfl
  | read r k ih => exact ih _ h
  | write a d k ih => exact ih h
  | index i size k ih => exact ih h

theorem drive_map_ok {g : α → β} (h : drive R x s = (.ok a, s')) :
    drive R (g <$> x) s = (.ok (g a), s') :=
  (drive_bind_ok (f := fun a => pure (g a)) h).trans rfl

theorem drive_ensure {p : Prop} [Decidable p] (h : p) (e : ε) :
    drive R (ensure p e) s = (.ok (), s) := by
  rw [ensure, if_pos h]
  rfl

theorem drive_ensure_error {p : Prop} [Decidable p] (h : ¬p) (e : ε) :
    drive R (ensure p e) s = (.error e, s) := by
  rw [ensure, if_neg h]
  rfl

end Drive

/-! ## Assignments -/

/-- An address and the bytes to store there. -/
abbrev Assign := Nat × List UInt8

def Assign.region (w : Assign) : Region := ⟨w.1, w.2.length⟩

/-- The memory after assignments, one after another. -/
def assign (m : Mem) (ws : List Assign) : Mem := ws.foldl (fun m w => poke m w.1 w.2) m

def stores : List Assign → Shared ε Unit
  | [] => pure ()
  | w :: ws => do
    store w.1 w.2
    stores ws

@[simp] theorem exec_stores (m : Mem) (ws : List Assign) :
    exec m (stores ws : Shared ε Unit) = (.ok (), assign m ws) := by
  induction ws generalizing m with
  | nil => rfl
  | cons w ws ih => exact (exec_bind_ok (exec_store m w.1 w.2) _).trans (ih _)

/-- A region that no assignment touches. -/
theorem peek_assign_of_disjoint {m : Mem} {ws : List Assign} {r : Region}
    (h : ∀ w ∈ ws, w.region.Disjoint r) : peek (assign m ws) r.offset r.size = peek m r.offset r.size := by
  induction ws generalizing m with
  | nil => rfl
  | cons w ws ih =>
    obtain ⟨hw, hrest⟩ := List.forall_mem_cons.1 h
    exact (ih hrest).trans (peek_poke_of_disjoint hw)

/-- **Assignments to disjoint regions** can all be read back. -/
theorem peek_assign {m : Mem} {ws : List Assign}
    (hws : (ws.map Assign.region).Pairwise Region.Disjoint) {a : Nat} {d : List UInt8}
    (h : (a, d) ∈ ws) : peek (assign m ws) a d.length = d := by
  induction ws generalizing m with
  | nil => cases h
  | cons w ws ih =>
    obtain ⟨hw, hrest⟩ := List.pairwise_cons.1 hws
    rcases List.mem_cons.1 h with rfl | h
    · have hleft : ∀ w ∈ ws, w.region.Disjoint ⟨a, d.length⟩ := fun w' hw' =>
        (hw _ (List.mem_map_of_mem hw')).symm
      exact (peek_assign_of_disjoint hleft).trans (peek_poke_self m a d)
    · exact ih hrest h

/-! ## Safety -/

/-- Every access satisfies `ok` and every result satisfies `Q`, whatever is read. -/
def Safe (ok : Access → Prop) (Q : α → Prop) : Shared ε α → Prop
  | ret a => Q a
  | throw _ => True
  | read r k => ok (.read r) ∧ ∀ d, d.length = r.size → Safe ok Q (k d)
  | write a d k => ok (.write ⟨a, d.length⟩) ∧ Safe ok Q k
  | index i size k => ok (.index i size) ∧ Safe ok Q k

section Safe

variable {ok ok' : Access → Prop} {P Q : α → Prop} {R : β → Prop} {x : Shared ε α}
  {f : α → Shared ε β}

/-- **Safe programs are safe against every other party.** -/
theorem Safe.run (h : Safe ok Q x) (dev : Nat → Mem → Mem) (m : Mem) :
    (∀ a ∈ (run dev m x).accesses, ok a) ∧ ∀ v, (run dev m x).result = .ok v → Q v := by
  induction x generalizing dev m with
  | ret a =>
    refine ⟨by rintro _ ⟨⟩, fun v hv => ?_⟩
    cases hv
    exact h
  | throw e => exact ⟨by rintro _ ⟨⟩, by rintro _ ⟨⟩⟩
  | read r k ih =>
    obtain ⟨hall, hres⟩ := ih _ (h.2 _ (peek_length (dev 0 m) _ _)) (fun t => dev (t + 1)) (dev 0 m)
    exact ⟨List.forall_mem_cons.2 ⟨h.1, hall⟩, hres⟩
  | write a d k ih =>
    obtain ⟨hall, hres⟩ := ih h.2 (fun t => dev (t + 1)) (poke (dev 0 m) a d)
    exact ⟨List.forall_mem_cons.2 ⟨h.1, hall⟩, hres⟩
  | index i size k ih =>
    obtain ⟨hall, hres⟩ := ih h.2 (fun t => dev (t + 1)) (dev 0 m)
    exact ⟨List.forall_mem_cons.2 ⟨h.1, hall⟩, hres⟩

/-- One program after another. -/
theorem safe_bind (hx : Safe ok P x) (hf : ∀ a, P a → Safe ok R (f a)) : Safe ok R (x >>= f) := by
  show Safe ok R (Shared.bind x f)
  induction x with
  | ret a => exact hf a hx
  | throw e => trivial
  | read r k ih => exact ⟨hx.1, fun d hd => ih d (hx.2 d hd)⟩
  | write a d k ih => exact ⟨hx.1, ih hx.2⟩
  | index i size k ih => exact ⟨hx.1, ih hx.2⟩

theorem safe_load {a n : Nat} (h : ok (.read ⟨a, n⟩)) :
    Safe ok (fun d => d.length = n) (load a n : Shared ε (List UInt8)) :=
  ⟨h, fun _ hd => hd⟩

theorem safe_store {a : Nat} {d : List UInt8} (h : ok (.write ⟨a, d.length⟩)) :
    Safe ok (fun _ => True) (store a d : Shared ε Unit) :=
  ⟨h, trivial⟩

theorem safe_touch {i size : Nat} (h : ok (.index i size)) :
    Safe ok (fun _ => True) (touch i size : Shared ε Unit) :=
  ⟨h, trivial⟩

theorem safe_ensure {p : Prop} [Decidable p] {e : ε} :
    Safe ok (fun _ => p) (ensure p e) := by
  unfold ensure
  split
  · assumption
  · trivial

theorem safe_forM {ι : Type} {l : List ι} {g : ι → Shared ε PUnit}
    (h : ∀ i ∈ l, Safe ok (fun _ => True) (g i)) : Safe ok (fun _ => True) (l.forM g) := by
  induction l with
  | nil => exact trivial
  | cons i l ih =>
    show Safe ok _ (g i >>= fun _ => l.forM g)
    exact safe_bind (h i List.mem_cons_self) fun _ _ => ih fun j hj => h j (List.mem_cons_of_mem i hj)

end Safe

/-! ## Programs that do not throw -/

/-- The program returns, whatever the other party does. -/
def NeverThrows (x : Shared ε α) : Prop := ∀ dev m, ∃ a, (run dev m x).result = .ok a

/-- The program returns, whatever is read. -/
def Returns : Shared ε α → Prop
  | ret _ => True
  | throw _ => False
  | read r k => ∀ d, d.length = r.size → Returns (k d)
  | write _ _ k => Returns k
  | index _ _ k => Returns k

section Returns

variable {x : Shared ε α} {f : α → Shared ε β}

/-- Only the memory at the first access counts. -/
theorem run_result_congr {dev dev' : Nat → Mem → Mem} {m m' : Mem} (h : dev 0 m = dev' 0 m')
    (hdev : ∀ t, dev (t + 1) = dev' (t + 1)) : (run dev m x).result = (run dev' m' x).result := by
  have htail : (fun t => dev (t + 1)) = fun t => dev' (t + 1) := funext hdev
  cases x with
  | ret a => rfl
  | throw e => rfl
  | read r k => simp only [run, h, htail]
  | write a d k => simp only [run, h, htail]
  | index i size k => simp only [run, h, htail]

theorem Returns.run (h : Returns x) : NeverThrows x := by
  induction x with
  | ret a => exact fun _ _ => ⟨a, rfl⟩
  | throw e => exact h.elim
  | read r k ih => exact fun dev m => ih _ (h _ (peek_length (dev 0 m) _ _)) (fun t => dev (t + 1)) _
  | write a d k ih => exact fun dev m => ih h (fun t => dev (t + 1)) _
  | index i size k ih => exact fun dev m => ih h (fun t => dev (t + 1)) _

/-- First `first`, and then what `dev` does, from `m` on. -/
def devAfter (first : Mem → Mem) (dev : Nat → Mem → Mem) (m : Mem) : Nat → Mem → Mem
  | 0 => first
  | 1 => fun _ => dev 0 m
  | t + 2 => dev (t + 1)

/-- **The rules for programs that return are complete.** -/
theorem neverThrows_iff : NeverThrows x ↔ Returns x := by
  refine ⟨fun h => ?_, Returns.run⟩
  induction x with
  | ret a => trivial
  | throw e =>
    obtain ⟨a, ha⟩ := h (fun _ m => m) fun _ => 0
    cases ha
  | read r k ih =>
    intro d hd
    refine ih d fun dev m => ?_
    obtain ⟨a, ha⟩ := h (devAfter (fun m => poke m r.offset d) dev m) m
    have hpeek : peek (poke m r.offset d) r.offset r.size = d := by
      rw [← hd]
      exact peek_poke_self m r.offset d
    refine ⟨a, Eq.trans ?_ ha⟩
    show (Shared.run dev m (k d)).result =
      (Shared.run _ _ (k (peek (poke m r.offset d) r.offset r.size))).result
    rw [hpeek]
    exact run_result_congr rfl fun _ => rfl
  | write a d k ih =>
    refine ih fun dev m => ?_
    obtain ⟨b, hb⟩ := h (devAfter id dev m) m
    refine ⟨b, Eq.trans ?_ hb⟩
    show (Shared.run dev m k).result = (Shared.run (fun t => devAfter id dev m (t + 1)) _ k).result
    exact run_result_congr rfl fun _ => rfl
  | index i size k ih =>
    refine ih fun dev m => ?_
    obtain ⟨b, hb⟩ := h (devAfter id dev m) m
    refine ⟨b, Eq.trans ?_ hb⟩
    show (Shared.run dev m k).result = (Shared.run (fun t => devAfter id dev m (t + 1)) _ k).result
    exact run_result_congr rfl fun _ => rfl

theorem returns_bind (hx : Returns x) (hf : ∀ a, Returns (f a)) : Returns (x >>= f) := by
  show Returns (Shared.bind x f)
  induction x with
  | ret a => exact hf a
  | throw e => exact hx.elim
  | read r k ih => exact fun d hd => ih d (hx d hd)
  | write a d k ih => exact ih hx
  | index i size k ih => exact ih hx

/-- Both parts of a program that returns do. -/
theorem Returns.parts (h : Returns (x >>= f)) : Returns x ∧ ∃ a, Returns (f a) := by
  replace h : Returns (Shared.bind x f) := h
  induction x with
  | ret a => exact ⟨trivial, a, h⟩
  | throw e => exact h.elim
  | read r k ih =>
    have hzero := ih (List.replicate r.size 0) (h _ List.length_replicate)
    exact ⟨fun d hd => (ih d (h d hd)).1, hzero.2⟩
  | write a d k ih => exact ih h
  | index i size k ih => exact ih h

theorem returns_map {g : α → β} : Returns (g <$> x) ↔ Returns x :=
  ⟨fun h => (Returns.parts (f := fun a => ret (g a)) h).1, fun h => returns_bind h fun _ => trivial⟩

theorem returns_load {a n : Nat} : Returns (load a n : Shared ε (List UInt8)) := fun _ _ => trivial

theorem returns_store {a : Nat} {d : List UInt8} : Returns (store a d : Shared ε Unit) := trivial

theorem returns_ensure {p : Prop} [Decidable p] {e : ε} : Returns (ensure p e) ↔ p := by
  unfold ensure
  split
  · exact iff_of_true trivial ‹_›
  · exact iff_of_false id ‹_›

theorem returns_forM {ι : Type} {l : List ι} {g : ι → Shared ε PUnit}
    (h : ∀ i ∈ l, Returns (g i)) : Returns (l.forM g) := by
  induction l with
  | nil => exact trivial
  | cons i l ih =>
    show Returns (g i >>= fun _ => l.forM g)
    exact returns_bind (h i List.mem_cons_self) fun _ => ih fun j hj => h j (List.mem_cons_of_mem i hj)

end Returns

/-! ## Programs that only read -/

/-- One program after another, and the other party goes on where it was. -/
theorem run_bind {dev : Nat → Mem → Mem} {m : Mem} {x : Shared ε α} {f : α → Shared ε β} {a : α}
    (h : (run dev m x).result = .ok a) :
    let o := run dev m x
    let o' := run (fun t => dev (t + o.accesses.length)) o.mem (f a)
    run dev m (x >>= f) = ⟨o'.result, o'.mem, o.accesses ++ o'.accesses⟩ := by
  show run dev m (Shared.bind x f) = _
  induction x generalizing dev m with
  | ret b =>
    cases h
    rfl
  | throw e => cases h
  | read r k ih => simp only [Shared.bind, run, ih _ h, List.cons_append, List.length_cons]; rfl
  | write a d k ih => simp only [Shared.bind, run, ih h, List.cons_append, List.length_cons]; rfl
  | index i size k ih => simp only [Shared.bind, run, ih h, List.cons_append, List.length_cons]; rfl

/-- The memory at access number `t` of a program that does not write. -/
def seen (dev : Nat → Mem → Mem) (m : Mem) : Nat → Mem
  | 0 => dev 0 m
  | t + 1 => dev (t + 1) (seen dev m t)

/-- The program only reads, and returns. -/
def ReadOnly : Shared ε α → Prop
  | ret _ => True
  | read r k => ∀ d, d.length = r.size → ReadOnly (k d)
  | throw _ | write _ _ _ | index _ _ _ => False

section ReadOnly

variable {x : Shared ε α} {f : α → Shared ε β} {dev : Nat → Mem → Mem} {m : Mem}

theorem seen_succ (t : Nat) : seen (fun t => dev (t + 1)) (dev 0 m) t = seen dev m (t + 1) := by
  induction t with
  | zero => rfl
  | succ t ih =>
    show dev (t + 1 + 1) _ = dev (t + 1 + 1) _
    rw [ih]

theorem readOnly_bind (hx : ReadOnly x) (hf : ∀ a, ReadOnly (f a)) : ReadOnly (x >>= f) := by
  show ReadOnly (Shared.bind x f)
  induction x with
  | ret a => exact hf a
  | throw e => exact hx.elim
  | read r k ih => exact fun d hd => ih d (hx d hd)
  | write a d k ih => exact hx.elim
  | index i size k ih => exact hx.elim

theorem readOnly_load {a n : Nat} : ReadOnly (load a n : Shared ε (List UInt8)) :=
  fun _ _ => trivial

theorem ReadOnly.returns (h : ReadOnly x) : Returns x := by
  induction x with
  | ret a => trivial
  | throw e => exact h
  | read r k ih => exact fun d hd => ih d (h d hd)
  | write a d k ih => exact h.elim
  | index i size k ih => exact h.elim

/-- What the next program sees. -/
theorem ReadOnly.seen_after (h : ReadOnly x) (t : Nat) :
    seen (fun t => dev (t + (run dev m x).accesses.length)) (run dev m x).mem t =
      seen dev m (t + (run dev m x).accesses.length) := by
  induction x generalizing dev m with
  | ret a => rfl
  | throw e => exact h.elim
  | read r k ih =>
    have hk := h _ (peek_length (dev 0 m) r.offset r.size)
    have hrest := @ih _ (fun t => dev (t + 1)) (dev 0 m) hk
    rw [seen_succ] at hrest
    exact hrest
  | write a d k ih => exact h.elim
  | index i size k ih => exact h.elim

/-- **The other party does not matter** where it leaves alone what the program reads. -/
theorem ReadOnly.run_of_agree {F : Mem} (h : ReadOnly x)
    (hagree : ∀ t r, .read r ∈ (run (fun _ m => m) F x).accesses →
      peek (seen dev m t) r.offset r.size = peek F r.offset r.size) :
    (run dev m x).result = (run (fun _ m => m) F x).result ∧
      (run dev m x).accesses = (run (fun _ m => m) F x).accesses := by
  induction x generalizing dev m with
  | ret a => exact ⟨rfl, rfl⟩
  | throw e => exact h.elim
  | read r k ih =>
    have hfirst : peek (dev 0 m) r.offset r.size = peek F r.offset r.size :=
      hagree 0 r List.mem_cons_self
    have hk := h _ (peek_length F r.offset r.size)
    obtain ⟨hres, hacc⟩ := @ih _ (fun t => dev (t + 1)) (dev 0 m) hk (by
      intro t r' hr'
      rw [seen_succ]
      exact hagree (t + 1) r' (List.mem_cons_of_mem _ hr'))
    simp only [run, hfirst]
    exact ⟨hres, by rw [hacc]⟩
  | write a d k ih => exact h.elim
  | index i size k ih => exact h.elim

end ReadOnly

end Shared

end AdvCpp.Lib
