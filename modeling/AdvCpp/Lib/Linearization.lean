import AdvCpp.Lib.Machine
import Mathlib.Logic.Function.Basic

/-!
# Linearizability by linearization points

A sequential object (`SeqSpec`) answers one operation at a time.  Its *atomic object* is the
machine in which every thread calls an operation, the operation takes effect in one step at some
moment between call and return (`lin`), and the thread then returns the answer fixed at that
moment.  A history of calls and returns is `Linearizable` if the atomic object has a schedule with
exactly these calls and returns.

* `linearizable_of_simulation` — a machine whose steps are matched by the atomic object has only
  linearizable histories.
* `atomic_legal` — the operations of an atomic schedule, in the order of their `lin` steps, are a
  sequential execution of the object.
-/

namespace AdvCpp.Lib

universe u v w x

/-- A sequential object: state, operations `O`, answers `R`. -/
structure SeqSpec (S : Type u) (O : Type v) (R : Type w) where
  init : S
  apply : S → O → S × R

/-- What a thread is doing with the object. -/
inductive Status (O : Type v) (R : Type w) where
  | idle
  | called (op : O)
  | answered (res : R)
  deriving DecidableEq

/-- The visible events of a history. -/
inductive Act (T : Type x) (O : Type v) (R : Type w) where
  | call (t : T) (op : O)
  | ret (t : T) (res : R)
  deriving DecidableEq

/-- The events of the atomic object. -/
inductive AtomicEv (T : Type x) (O : Type v) (R : Type w) where
  | act (a : Act T O R)
  | lin (t : T)

def AtomicEv.visible {T : Type x} {O : Type v} {R : Type w} : AtomicEv T O R → List (Act T O R)
  | .act a => [a]
  | .lin _ => []

namespace SeqSpec

variable {S : Type u} {O : Type v} {R : Type w} {T : Type x}

/-- Sequential execution: the object after the operations, each with the answer it gives. -/
def Legal (P : SeqSpec S O R) : S → List (T × O × R) → S → Prop
  | s, [], s' => s = s'
  | s, (_, op, res) :: ops, s' => (P.apply s op).2 = res ∧ Legal P (P.apply s op).1 ops s'

theorem Legal.snoc {P : SeqSpec S O R} {t : T} {op : O} :
    ∀ {ops : List (T × O × R)} {s s' : S}, P.Legal s ops s' →
      P.Legal s (ops ++ [(t, op, (P.apply s' op).2)]) (P.apply s' op).1
  | [], _, _, h => by cases h; exact ⟨rfl, rfl⟩
  | _ :: _, _, _, h => ⟨h.1, Legal.snoc h.2⟩

variable [DecidableEq T] [DecidableEq R]

/-- State of the atomic object: the object, every thread, and the operations that took effect. -/
structure Atomic (S : Type u) (O : Type v) (R : Type w) (T : Type x) where
  obj : S
  status : T → Status O R
  lins : List (T × O × R)

/-- The atomic object. -/
def atomic (P : SeqSpec S O R) (T : Type x) [DecidableEq T] :
    Machine (Atomic S O R T) (AtomicEv T O R) where
  init := ⟨P.init, fun _ => .idle, []⟩
  step s
    | .act (.call t op) =>
      match s.status t with
      | .idle => some { s with status := Function.update s.status t (.called op) }
      | _ => none
    | .lin t =>
      match s.status t with
      | .called op =>
        let (obj, res) := P.apply s.obj op
        some ⟨obj, Function.update s.status t (.answered res), s.lins ++ [(t, op, res)]⟩
      | _ => none
    | .act (.ret t res) =>
      match s.status t with
      | .answered res' =>
        if res = res' then some { s with status := Function.update s.status t .idle } else none
      | _ => none

/-- A history is linearizable if the atomic object can produce it. -/
def Linearizable (P : SeqSpec S O R) (H : List (Act T O R)) : Prop :=
  ∃ ds s, (P.atomic T).run ds = some s ∧ ds.flatMap AtomicEv.visible = H

/-- The operations of an atomic schedule take effect one after the other. -/
theorem atomic_legal (P : SeqSpec S O R) {ds : List (AtomicEv T O R)} {s : Atomic S O R T}
    (h : (P.atomic T).run ds = some s) : P.Legal P.init s.lins s.obj := by
  refine Machine.run_inv (M := P.atomic T) (I := fun s => P.Legal P.init s.lins s.obj) ?_ ?_ h
  · exact rfl
  intro s e s' hs hstep
  cases e with
  | act a =>
    cases a with
    | call t op =>
      simp only [atomic] at hstep
      split at hstep <;> cases hstep
      exact hs
    | ret t res =>
      simp only [atomic] at hstep
      split at hstep
      · split at hstep <;> cases hstep
        exact hs
      · cases hstep
  | lin t =>
    simp only [atomic] at hstep
    split at hstep <;> cases hstep
    exact hs.snoc

/-- **Linearization points.** If every step of a machine is matched by the atomic object, with the
same visible calls and returns, every history of the machine is linearizable. -/
theorem linearizable_of_simulation (P : SeqSpec S O R) {σ ε : Type*} {M : Machine σ ε}
    {vis : ε → List (Act T O R)} {Rel : σ → Atomic S O R T → Prop}
    (h0 : Rel M.init (P.atomic T).init)
    (hstep : ∀ s a e s', Rel s a → M.step s e = some s' →
      ∃ ds a', (P.atomic T).exec a ds = some a' ∧ Rel s' a' ∧
        ds.flatMap AtomicEv.visible = vis e)
    {es : List ε} {s : σ} (h : M.run es = some s) : P.Linearizable (es.flatMap vis) := by
  obtain ⟨ds, a, hrun, -, hvis⟩ := Machine.run_refines vis AtomicEv.visible h0 hstep h
  exact ⟨ds, a, hrun, hvis⟩

end SeqSpec

end AdvCpp.Lib
