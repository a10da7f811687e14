import AdvCpp.Lib.Machine

/-!
# Blocks of code with scoped objects

A block makes calls that take effect or throw, and declares objects.  However it is left, at its end
or by an exception from any call, the destructors of the objects that exist by then run, the last
declared first.

* `Block`, `Scoped` — code, and what its calls, constructors and destructors do to a state.
* `Scoped.machine` — every path through a block.
* `Scoped.wp` — what has to hold before a block: `Q` at its end, and `E` wherever it may throw.
* `Scoped.run_inv` — if the destructors keep `E`, it holds everywhere on every path.
-/

namespace AdvCpp.Lib

inductive Block (α ο : Type) where
  | skip
  | act (a : α)
  | declare (x : ο)
  | seq (p q : Block α ο)
  | branch (p q : Block α ο)
  | loop (p : Block α ο)

namespace Block

variable {α ο : Type}

/-- One after the other. -/
def steps (l : List (Block α ο)) : Block α ο := l.foldr seq skip

/-- The block only makes calls that satisfy `A`. -/
def calls (A : α → Bool) : Block α ο → Bool
  | skip => true
  | act a => A a
  | declare _ => false
  | seq p q | branch p q => p.calls A && q.calls A
  | loop p => p.calls A

end Block

/-- `none` is a call, or a constructor, that throws.  A destructor does not throw; the flag says
whether it swallowed an exception. -/
structure Scoped (α ο σ : Type) where
  perform : α → σ → Option σ
  construct : ο → σ → Option σ
  destroy : ο → Bool → σ → σ

/-- How a path goes on; a loop goes left for another turn. -/
inductive Turn where
  | go
  | throw
  | left
  | right
  deriving DecidableEq

/-- Inside the block what is left of it, then `none`; the objects, the last declared first. -/
structure Config (α ο σ : Type) where
  todo : Option (List (Block α ο))
  scope : List ο
  state : σ

/-- The block is left, and no object exists any more. -/
def Config.finished {α ο σ : Type} (c : Config α ο σ) : Prop := c.todo = none ∧ c.scope = []

namespace Scoped

variable {α ο σ : Type} (M : Scoped α ο σ)

/-- The next step inside the block. -/
def inside (c : Config α ο σ) : List (Block α ο) → Turn → Option (Config α ο σ)
  | [], .go => some { c with todo := none }
  | .skip :: l, .go => some { c with todo := some l }
  | .act a :: l, .go => (M.perform a c.state).map fun s => { c with todo := some l, state := s }
  | .declare x :: l, .go =>
    (M.construct x c.state).map fun s => ⟨some l, x :: c.scope, s⟩
  | .act _ :: _, .throw | .declare _ :: _, .throw => some { c with todo := none }
  | .seq p q :: l, .go => some { c with todo := some (p :: q :: l) }
  | .branch p _ :: l, .left => some { c with todo := some (p :: l) }
  | .branch _ q :: l, .right => some { c with todo := some (q :: l) }
  | .loop p :: l, .left => some { c with todo := some (p :: .loop p :: l) }
  | .loop _ :: l, .right => some { c with todo := some l }
  | _, _ => none

/-- The next destructor. -/
def unwind (c : Config α ο σ) : Turn → Option (Config α ο σ)
  | .go => c.scope.head?.map fun x => ⟨none, c.scope.tail, M.destroy x false c.state⟩
  | .throw => c.scope.head?.map fun x => ⟨none, c.scope.tail, M.destroy x true c.state⟩
  | _ => none

def step (c : Config α ο σ) (e : Turn) : Option (Config α ο σ) :=
  match c.todo with
  | some l => M.inside c l e
  | none => M.unwind c e

def machine (p : Block α ο) (s : σ) : Machine (Config α ο σ) Turn where
  init := ⟨some [p], [], s⟩
  step := M.step

/-! ## Weakest preconditions -/

section Wp

variable (E : List ο → σ → Prop)

def wp : Block α ο → (List ο → σ → Prop) → List ο → σ → Prop
  | .skip, Q => Q
  | .act a, Q => fun x s => E x s ∧ ∀ s', M.perform a s = some s' → Q x s'
  | .declare o, Q => fun x s => E x s ∧ ∀ s', M.construct o s = some s' → Q (o :: x) s'
  | .seq p q, Q => wp p (wp q Q)
  | .branch p q, Q => fun x s => wp p Q x s ∧ wp q Q x s
  | .loop p, Q => fun x s => ∃ I : List ο → σ → Prop, I x s ∧ ∀ x s, I x s → Q x s ∧ wp p I x s

/-- From `P` the block ends in `Q`, and throws only where `E` holds. -/
def Triple (P : List ο → σ → Prop) (p : Block α ο) (Q : List ο → σ → Prop) : Prop :=
  ∀ x s, P x s → M.wp E p Q x s

variable {M E} {P Q R I : List ο → σ → Prop} {p : Block α ο} {l : List (Block α ο)}

theorem wp_mono (h : ∀ x s, Q x s → R x s) {x : List ο} {s : σ} (hp : M.wp E p Q x s) :
    M.wp E p R x s := by
  induction p generalizing Q R x s with
  | skip => exact h x s hp
  | act a => exact ⟨hp.1, fun s' hs => h _ _ (hp.2 s' hs)⟩
  | declare o => exact ⟨hp.1, fun s' hs => h _ _ (hp.2 s' hs)⟩
  | seq p q ihp ihq => exact ihp (fun x s hq => ihq h hq) hp
  | branch p q ihp ihq => exact ⟨ihp h hp.1, ihq h hp.2⟩
  | loop p ih =>
    obtain ⟨I, hI, hloop⟩ := hp
    exact ⟨I, hI, fun x s hi => ⟨h x s (hloop x s hi).1, (hloop x s hi).2⟩⟩

/-- Where a block may start, an exception may be thrown. -/
theorem wp_throws (h : ∀ x s, Q x s → E x s) {x : List ο} {s : σ} (hp : M.wp E p Q x s) : E x s := by
  induction p generalizing Q x s with
  | skip => exact h x s hp
  | act a => exact hp.1
  | declare o => exact hp.1
  | seq p q ihp ihq => exact ihp (fun x s hq => ihq h hq) hp
  | branch p q ihp ihq => exact ihp h hp.1
  | loop p ih =>
    obtain ⟨I, hI, hloop⟩ := hp
    exact h x s (hloop x s hI).1

theorem Triple.nil : M.Triple E P (.steps []) P := fun _ _ h => h

theorem Triple.cons (hp : M.Triple E P p Q) (hl : M.Triple E Q (.steps l) R) :
    M.Triple E P (.steps (p :: l)) R := fun x s h => wp_mono hl (hp x s h)

theorem Triple.last (hp : M.Triple E P p Q) : M.Triple E P (.steps [p]) Q := hp.cons .nil

theorem Triple.act {a : α} (hE : ∀ x s, P x s → E x s)
    (h : ∀ x s s', P x s → M.perform a s = some s' → Q x s') : M.Triple E P (.act a) Q :=
  fun x s hP => ⟨hE x s hP, fun s' => h x s s' hP⟩

theorem Triple.declare {o : ο} (hE : ∀ x s, P x s → E x s)
    (h : ∀ x s s', P x s → M.construct o s = some s' → Q (o :: x) s') :
    M.Triple E P (.declare o) Q :=
  fun x s hP => ⟨hE x s hP, fun s' => h x s s' hP⟩

theorem Triple.post (h : ∀ x s, Q x s → R x s) (hp : M.Triple E P p Q) : M.Triple E P p R :=
  fun x s hP => wp_mono h (hp x s hP)

theorem Triple.frame {c : Prop} (hp : M.Triple E P p Q) :
    M.Triple E (fun x s => P x s ∧ c) p fun x s => Q x s ∧ c :=
  fun x s h => wp_mono (fun _ _ hQ => ⟨hQ, h.2⟩) (hp x s h.1)

theorem Triple.assume {c : Prop} (hp : c → M.Triple E P p Q) :
    M.Triple E (fun x s => P x s ∧ c) p Q := fun x s h => hp h.2 x s h.1

/-- **A block keeps what each of its calls keeps.** -/
theorem Triple.of_calls {A : α → Bool} (hE : ∀ x s, I x s → E x s)
    (hA : ∀ a, A a = true → ∀ x s s', I x s → M.perform a s = some s' → I x s')
    (hp : p.calls A = true) :
    M.Triple E I p I := by
  induction p with
  | skip => exact fun x s h => h
  | act a => exact .act hE fun x s s' => hA a hp x s s'
  | declare o => cases hp
  | seq p q ihp ihq =>
    obtain ⟨hp, hq⟩ := Bool.and_eq_true_iff.1 hp
    exact fun x s h => wp_mono (ihq hq) (ihp hp x s h)
  | branch p q ihp ihq =>
    obtain ⟨hp, hq⟩ := Bool.and_eq_true_iff.1 hp
    exact fun x s h => ⟨ihp hp x s h, ihq hq x s h⟩
  | loop p ih => exact fun x s h => ⟨I, h, fun x s hi => ⟨hi, ih hp x s hi⟩⟩

end Wp

/-! ## Every path -/

section Paths

variable (E : List ο → σ → Prop)

/-- What is left of the block can be run; the destructors only need `E`. -/
def Ready (c : Config α ο σ) : Prop :=
  match c.todo with
  | some l => M.wp E (.steps l) E c.scope c.state
  | none => E c.scope c.state

variable {M E} {c c' : Config α ο σ}

theorem Ready.throws (h : M.Ready E c) : E c.scope c.state := by
  unfold Ready at h
  split at h
  · exact wp_throws (fun _ _ hE => hE) h
  · exact h

theorem Ready.inside {l : List (Block α ο)} (h : M.wp E (.steps l) E c.scope c.state) {e : Turn}
    (hs : M.inside c l e = some c') : M.Ready E c' := by
  unfold Scoped.inside at hs
  split at hs
  case h_1 =>
    cases hs
    exact h
  case h_2 =>
    cases hs
    exact h
  case h_3 a l =>
    obtain ⟨s, hperform, rfl⟩ := Option.map_eq_some_iff.1 hs
    exact h.2 s hperform
  case h_4 o l =>
    obtain ⟨s, hconstruct, rfl⟩ := Option.map_eq_some_iff.1 hs
    exact h.2 s hconstruct
  case h_5 | h_6 =>
    cases hs
    exact h.1
  case h_7 =>
    cases hs
    exact h
  case h_8 =>
    cases hs
    exact h.1
  case h_9 =>
    cases hs
    exact h.2
  case h_10 p l =>
    cases hs
    obtain ⟨I, hI, hloop⟩ := h
    show M.wp E p (M.wp E (.steps (.loop p :: l)) E) c.scope c.state
    exact wp_mono (fun x s hi => ⟨I, hi, hloop⟩) (hloop _ _ hI).2
  case h_11 p l =>
    cases hs
    obtain ⟨I, hI, hloop⟩ := h
    exact (hloop _ _ hI).1
  case h_12 => cases hs

theorem Ready.unwind (hE : ∀ o b x s, E (o :: x) s → E x (M.destroy o b s))
    (h : E c.scope c.state) {e : Turn} (hs : M.unwind c e = some c') : M.Ready E c' := by
  obtain ⟨b, o, x, hscope, rfl⟩ :
      ∃ b o x, c.scope = o :: x ∧ c' = ⟨none, x, M.destroy o b c.state⟩ := by
    unfold Scoped.unwind at hs
    cases hscope : c.scope with
    | nil =>
      rw [hscope] at hs
      cases e <;> cases hs
    | cons o x =>
      rw [hscope] at hs
      cases e with
      | go => exact ⟨false, o, x, rfl, (Option.some.inj hs).symm⟩
      | throw => exact ⟨true, o, x, rfl, (Option.some.inj hs).symm⟩
      | left | right => cases hs
  rw [hscope] at h
  exact hE o b x c.state h

/-- **On every path**: what the block keeps until it may throw, and the destructors keep. -/
theorem run_inv {p : Block α ο} {s : σ} (hp : M.wp E p E [] s)
    (hE : ∀ o b x s, E (o :: x) s → E x (M.destroy o b s)) {es : List Turn}
    (h : (M.machine p s).run es = some c) : E c.scope c.state := by
  have hinit : M.Ready E (M.machine p s).init := hp
  have hready : M.Ready E c := by
    refine Machine.run_inv hinit (fun c e c' hc hs => ?_) h
    unfold Ready at hc
    change M.step c e = some c' at hs
    unfold Scoped.step at hs
    split at hc
    · rename_i htodo
      rw [htodo] at hs
      exact Ready.inside hc hs
    · rename_i htodo
      rw [htodo] at hs
      exact Ready.unwind hE hc hs
  exact hready.throws

end Paths

end Scoped

end AdvCpp.Lib
