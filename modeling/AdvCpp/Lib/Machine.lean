import Mathlib.Data.Option.Basic
import Mathlib.Data.List.Induction

/-!
# Machines, schedules and runs

A `Machine` is a state with a partial step function driven by events.  The events carry every
choice that is not the program's own (what the kernel completes next, how many bytes it moves,
which party moves), so a list of events is one interleaving and a statement about every list is
a statement about every interleaving and every length of run.

* `exec_inv`, `run_inv` — an invariant of one step is an invariant of every run.
* `run_inv_of` — the same for the runs whose steps all meet a side condition (`Meets`).
* `always_iff_meets` — when exactly a property holds in every state of a run.
* `run_rel` — a relation kept by two machines in lock step relates the two runs of every schedule.
* `run_refines` — a machine whose steps are matched by schedules of another one has, for each of
  its runs, a run of the other with the same visible events.
-/

namespace AdvCpp.Lib

universe u v w x

/-- States `σ`, events `ε`; `none` says that the event cannot happen in the state. -/
structure Machine (σ : Type u) (ε : Type v) where
  init : σ
  step : σ → ε → Option σ

namespace Machine

variable {σ : Type u} {ε : Type v} {τ : Type w} {δ : Type x}

/-- Run a schedule from a given state. -/
def exec (M : Machine σ ε) : σ → List ε → Option σ
  | s, [] => some s
  | s, e :: es => (M.step s e).bind fun s' => exec M s' es

/-- Run a schedule from the initial state. -/
def run (M : Machine σ ε) (es : List ε) : Option σ := M.exec M.init es

/-- Every step of the schedule meets `ok` in the state it starts from. -/
def Meets (M : Machine σ ε) (ok : σ → ε → Prop) : σ → List ε → Prop
  | _, [] => True
  | s, e :: es => ok s e ∧ ∀ s', M.step s e = some s' → Meets M ok s' es

/-- The condition can be checked along a given schedule. -/
instance decidableMeets (M : Machine σ ε) (ok : σ → ε → Prop) [∀ s e, Decidable (ok s e)] :
    ∀ (s : σ) (es : List ε), Decidable (M.Meets ok s es)
  | _, [] => isTrue trivial
  | s, e :: es =>
    match h : M.step s e with
    | some s' =>
      have := decidableMeets M ok s' es
      decidable_of_iff (ok s e ∧ M.Meets ok s' es) (by simp [Meets, h])
    | none => decidable_of_iff (ok s e) (by simp [Meets, h])

/-- Every state of the run from `s` on satisfies `P`. -/
def Always (M : Machine σ ε) (P : σ → Prop) : σ → List ε → Prop
  | s, [] => P s
  | s, e :: es => P s ∧ ∀ s', M.step s e = some s' → Always M P s' es

@[simp] theorem exec_nil (M : Machine σ ε) (s : σ) : M.exec s [] = some s := rfl

theorem exec_cons {M : Machine σ ε} {s t : σ} {e : ε} {es : List ε} :
    M.exec s (e :: es) = some t ↔ ∃ s', M.step s e = some s' ∧ M.exec s' es = some t := by
  simp [exec, Option.bind_eq_some_iff]

theorem exec_append {M : Machine σ ε} {s t : σ} {es fs : List ε} :
    M.exec s (es ++ fs) = some t ↔ ∃ s', M.exec s es = some s' ∧ M.exec s' fs = some t := by
  induction es generalizing s with
  | nil => simp
  | cons e es ih =>
    rw [List.cons_append, exec_cons]
    constructor
    · rintro ⟨u, hu, h⟩
      obtain ⟨v, hv, h⟩ := ih.1 h
      exact ⟨v, exec_cons.2 ⟨u, hu, hv⟩, h⟩
    · rintro ⟨v, hv, h⟩
      obtain ⟨u, hu, hv⟩ := exec_cons.1 hv
      exact ⟨u, hu, ih.2 ⟨v, hv, h⟩⟩

theorem run_snoc {M : Machine σ ε} {t : σ} {es : List ε} {e : ε} :
    M.run (es ++ [e]) = some t ↔ ∃ s, M.run es = some s ∧ M.step s e = some t := by
  rw [run, exec_append]
  constructor
  · rintro ⟨s, hs, h⟩
    obtain ⟨u, hu, h⟩ := exec_cons.1 h
    cases h
    exact ⟨s, hs, hu⟩
  · rintro ⟨s, hs, h⟩
    exact ⟨s, hs, exec_cons.2 ⟨t, h, rfl⟩⟩

/-! ## Invariants -/

theorem exec_inv {M : Machine σ ε} {I : σ → Prop}
    (hstep : ∀ s e s', I s → M.step s e = some s' → I s') :
    ∀ {es : List ε} {s t : σ}, I s → M.exec s es = some t → I t
  | [], _, _, hs, h => by cases h; exact hs
  | _ :: _, _, _, hs, h => by
    obtain ⟨s', h1, h2⟩ := exec_cons.1 h
    exact exec_inv hstep (hstep _ _ _ hs h1) h2

/-- **The invariant rule.** -/
theorem run_inv {M : Machine σ ε} {I : σ → Prop} (h0 : I M.init)
    (hstep : ∀ s e s', I s → M.step s e = some s' → I s')
    {es : List ε} {s : σ} (h : M.run es = some s) : I s :=
  exec_inv hstep h0 h

/-- The invariant rule for an invariant that also speaks of the schedule run so far. -/
theorem run_inv_hist {M : Machine σ ε} {I : List ε → σ → Prop} (h0 : I [] M.init)
    (hstep : ∀ es s e s', I es s → M.step s e = some s' → I (es ++ [e]) s')
    {es : List ε} {s : σ} (h : M.run es = some s) : I es s := by
  induction es using List.reverseRecOn generalizing s with
  | nil => cases h; exact h0
  | append_singleton es e ih =>
    obtain ⟨s₀, hs₀, hs⟩ := run_snoc.1 h
    exact hstep _ _ _ _ (ih hs₀) hs

theorem exec_inv_of {M : Machine σ ε} {ok : σ → ε → Prop} {I : σ → Prop}
    (hstep : ∀ s e s', I s → ok s e → M.step s e = some s' → I s') :
    ∀ {es : List ε} {s t : σ}, I s → M.Meets ok s es → M.exec s es = some t → I t
  | [], _, _, hs, _, h => by cases h; exact hs
  | _ :: _, _, _, hs, hm, h => by
    obtain ⟨s', h1, h2⟩ := exec_cons.1 h
    exact exec_inv_of hstep (hstep _ _ _ hs hm.1 h1) (hm.2 _ h1) h2

/-- **The invariant rule for the runs whose steps all meet a condition.** -/
theorem run_inv_of {M : Machine σ ε} {ok : σ → ε → Prop} {I : σ → Prop} (h0 : I M.init)
    (hstep : ∀ s e s', I s → ok s e → M.step s e = some s' → I s')
    {es : List ε} {s : σ} (hm : M.Meets ok M.init es) (h : M.run es = some s) : I s :=
  exec_inv_of hstep h0 hm h

/-- Two conditions on the steps of a run. -/
theorem Meets.and {M : Machine σ ε} {ok ok' : σ → ε → Prop} :
    ∀ {es : List ε} {s : σ}, M.Meets ok s es → M.Meets ok' s es →
      M.Meets (fun s e => ok s e ∧ ok' s e) s es
  | [], _, _, _ => trivial
  | _ :: _, _, h, h' => ⟨⟨h.1, h'.1⟩, fun s' hs => Meets.and (h.2 s' hs) (h'.2 s' hs)⟩

/-- One more step of a run. -/
theorem meets_snoc {M : Machine σ ε} {ok : σ → ε → Prop} {e : ε} :
    ∀ {es : List ε} {s t : σ}, M.exec s es = some t →
      (M.Meets ok s (es ++ [e]) ↔ M.Meets ok s es ∧ ok t e)
  | [], _, _, h => by
    cases h
    simp [Meets]
  | e' :: es, s, t, h => by
    obtain ⟨s', h1, h2⟩ := exec_cons.1 h
    have hrec : M.Meets ok s' (es ++ [e]) ↔ M.Meets ok s' es ∧ ok t e := meets_snoc h2
    have hhead : ∀ {Q : σ → Prop}, (∀ u, M.step s e' = some u → Q u) ↔ Q s' := by
      intro Q
      rw [h1]
      simp
    simp only [List.cons_append, Meets, hhead, hrec]
    tauto

/-- **The invariant rule for an invariant that also says whether all steps met the condition**, in the
runs whose steps meet `assume`. -/
theorem run_inv_meets_of {M : Machine σ ε} {assume ok : σ → ε → Prop} {I : Prop → σ → Prop}
    (h0 : I True M.init)
    (hstep : ∀ a s e s', I a s → assume s e → M.step s e = some s' → I (a ∧ ok s e) s')
    {es : List ε} {s : σ} (hm : M.Meets assume M.init es) (h : M.run es = some s) :
    I (M.Meets ok M.init es) s := by
  induction es using List.reverseRecOn generalizing s with
  | nil => cases h; exact h0
  | append_singleton es e ih =>
    obtain ⟨t, ht, hs⟩ := run_snoc.1 h
    rw [meets_snoc ht] at hm ⊢
    exact hstep _ _ _ _ (ih hm.1 ht) hm.2 hs

/-- A condition that every step meets. -/
theorem meets_of_forall {M : Machine σ ε} {ok : σ → ε → Prop} (h : ∀ s e, ok s e) :
    ∀ (es : List ε) (s : σ), M.Meets ok s es
  | [], _ => trivial
  | e :: es, s => ⟨h s e, fun s' _ => meets_of_forall h es s'⟩

/-- The same for all runs. -/
theorem run_inv_meets {M : Machine σ ε} {ok : σ → ε → Prop} {I : Prop → σ → Prop}
    (h0 : I True M.init)
    (hstep : ∀ a s e s', I a s → M.step s e = some s' → I (a ∧ ok s e) s')
    {es : List ε} {s : σ} (h : M.run es = some s) : I (M.Meets ok M.init es) s :=
  run_inv_meets_of h0 (fun a s e s' hI _ => hstep a s e s' hI)
    (meets_of_forall (fun _ _ => trivial) es M.init) h

/-- **Exactly when a property holds all along a run**: the invariant `I` implies it, steps that
meet `ok` keep the invariant, and a step that does not meet `ok` ends where the property fails. -/
theorem always_iff_meets {M : Machine σ ε} {ok : σ → ε → Prop} {I P : σ → Prop}
    (hP : ∀ s, I s → P s) (hok : ∀ s e s', I s → M.step s e = some s' → ok s e → I s')
    (hbad : ∀ s e s', I s → M.step s e = some s' → ¬ok s e → ¬P s') :
    ∀ {es : List ε} {s t : σ}, I s → M.exec s es = some t → (M.Always P s es ↔ M.Meets ok s es)
  | [], s, _, hs, _ => iff_of_true (hP s hs) trivial
  | e :: es, s, _, hs, h => by
    obtain ⟨s', h1, h2⟩ := exec_cons.1 h
    have hhead : ∀ {Q : σ → Prop}, (∀ u, M.step s e = some u → Q u) ↔ Q s' := by
      intro Q
      constructor
      · exact fun hall => hall s' h1
      · intro hQ u hu
        cases h1.symm.trans hu
        exact hQ
    simp only [Always, Meets, hhead]
    by_cases he : ok s e
    · rw [always_iff_meets hP hok hbad (hok s e s' hs h1 he) h2]
      exact and_congr_left' (iff_of_true (hP s hs) he)
    · refine iff_of_false (fun hall => ?_) (fun hm => he hm.1)
      refine hbad s e s' hs h1 he ?_
      cases es with
      | nil => exact hall.2
      | cons => exact hall.2.1

/-! ## Two machines -/

/-- Steps under guards that mean the same. -/
theorem rel_guard {R : σ → τ → Prop} {p q : Prop} [Decidable p] [Decidable q] {s : σ} {t : τ}
    (hpq : p ↔ q) (h : p → R s t) :
    Option.Rel R (if p then some s else none) (if q then some t else none) := by
  by_cases hp : p
  · rw [if_pos hp, if_pos (hpq.1 hp)]
    exact .some (h hp)
  · rw [if_neg hp, if_neg (mt hpq.2 hp)]
    exact .none

theorem exec_rel {M : Machine σ ε} {N : Machine τ ε} {R : σ → τ → Prop}
    (hstep : ∀ s t e, R s t → Option.Rel R (M.step s e) (N.step t e)) :
    ∀ (es : List ε) {s : σ} {t : τ}, R s t → Option.Rel R (M.exec s es) (N.exec t es)
  | [], _, _, h => .some h
  | e :: es, s, t, h => by
    simp only [exec]
    have := hstep s t e h
    revert this
    generalize M.step s e = o
    generalize N.step t e = o'
    intro hr
    cases hr with
    | some hr => exact exec_rel hstep es hr
    | none => exact .none

/-- **Lock step.** A relation kept by every event relates the two runs of every schedule, and
either both machines accept the schedule or neither does. -/
theorem run_rel {M : Machine σ ε} {N : Machine τ ε} {R : σ → τ → Prop} (h0 : R M.init N.init)
    (hstep : ∀ s t e, R s t → Option.Rel R (M.step s e) (N.step t e)) (es : List ε) :
    Option.Rel R (M.run es) (N.run es) :=
  exec_rel hstep es h0

/-- A machine that allows more has the runs of one that allows less. -/
theorem exec_mono {M N : Machine σ ε}
    (hstep : ∀ s e s', M.step s e = some s' → N.step s e = some s') :
    ∀ {es : List ε} {s t : σ}, M.exec s es = some t → N.exec s es = some t
  | [], _, _, h => h
  | _ :: _, _, _, h => by
    obtain ⟨s', h1, h2⟩ := exec_cons.1 h
    exact exec_cons.2 ⟨s', hstep _ _ _ h1, exec_mono hstep h2⟩

/-- **Refinement.** If every step of `M` is matched by a schedule of `N` with the same visible
events, every run of `M` is matched by a run of `N` with the same visible events. -/
theorem run_refines {M : Machine σ ε} {N : Machine τ δ} {R : σ → τ → Prop} {α : Type*}
    (vis : ε → List α) (vis' : δ → List α) (h0 : R M.init N.init)
    (hstep : ∀ s t e s', R s t → M.step s e = some s' →
      ∃ ds t', N.exec t ds = some t' ∧ R s' t' ∧ ds.flatMap vis' = vis e)
    {es : List ε} {s : σ} (h : M.run es = some s) :
    ∃ ds t, N.run ds = some t ∧ R s t ∧ ds.flatMap vis' = es.flatMap vis := by
  induction es using List.reverseRecOn generalizing s with
  | nil => cases h; exact ⟨[], N.init, rfl, h0, rfl⟩
  | append_singleton es e ih =>
    obtain ⟨s₀, hs₀, hs⟩ := run_snoc.1 h
    obtain ⟨ds, t, ht, hR, hv⟩ := ih hs₀
    obtain ⟨ds', t', ht', hR', hv'⟩ := hstep _ _ _ _ hR hs
    refine ⟨ds ++ ds', t', exec_append.2 ⟨t, ht, ht'⟩, hR', ?_⟩
    simp [hv, hv']

end Machine

end AdvCpp.Lib
