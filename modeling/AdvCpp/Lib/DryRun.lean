import Mathlib.Data.List.Infix
import Mathlib.Tactic.Common

/-!
# Tools with a dry run

A `Tool` looks at a system and writes to control files; without `yes` it only says what it would
write.  What a write does to the system is not known, and it may fail.

* `look`, `fail`, `throwIf`, `maybeWrite`, `whenYes` — what a tool is made of.
* `Gate` — a tool that asks for something before it does anything.
* `ActsBy` — the system changes by the writes only.
* `Announces` — the dry run changes nothing, and the run with `yes` writes what the dry run has
  announced, as far as it comes; what the dry run refuses is refused untouched.
* `Honest` — what that says of two runs.
* `Follows` — the same for what comes behind a write, when the system is no longer the same.
* `Follows.seq`, `Announces.seq`, … — the rules.
-/

namespace AdvCpp.Lib

/-- `writes` are the files written to, or announced, with the values. -/
structure Outcome (κ α : Type) where
  result : Except String α
  system : κ
  writes : List (String × String)

/-- A program that knows whether it may write. -/
def Tool (κ α : Type) : Type := Bool → κ → Outcome κ α

namespace Tool

variable {κ α β : Type}

def run (t : Tool κ α) (yes : Bool) (s : κ) : Outcome κ α := t yes s

instance : Monad (Tool κ) where
  pure a := fun _ s => ⟨.ok a, s, []⟩
  bind t k := fun yes s =>
    match (t yes s).result with
    | .error e => ⟨.error e, (t yes s).system, (t yes s).writes⟩
    | .ok a =>
      let o := k a yes (t yes s).system
      ⟨o.result, o.system, (t yes s).writes ++ o.writes⟩

/-- A look at the system, which may throw. -/
def look (f : κ → Except String α) : Tool κ α := fun _ s => ⟨f s, s, []⟩

def fail (e : String) : Tool κ α := fun _ s => ⟨.error e, s, []⟩

def throwIf (c : Prop) [Decidable c] (e : String) : Tool κ Unit := if c then fail e else pure ()

/-- `write` is what happens to the system. -/
def maybeWrite (write : κ → Except String Unit × κ) (file value : String) : Tool κ Unit :=
  fun yes s =>
    if yes then ⟨(write s).1, (write s).2, [(file, value)]⟩ else ⟨.ok (), s, [(file, value)]⟩

def whenYes (t : Tool κ Unit) : Tool κ Unit := fun yes s => if yes then t yes s else ⟨.ok (), s, []⟩

section Run

variable {yes : Bool} {s : κ} {t : Tool κ α} {k : α → Tool κ β} {a : α}

@[simp] theorem run_pure (a : α) : (pure a : Tool κ α).run yes s = ⟨.ok a, s, []⟩ := rfl

@[simp] theorem run_fail (e : String) : (fail e : Tool κ α).run yes s = ⟨.error e, s, []⟩ := rfl

theorem throwIf_ok {c : Prop} [Decidable c] {e : String}
    (h : ((throwIf c e : Tool κ Unit).run yes s).result = .ok ()) : ¬c := by
  intro hc
  rw [throwIf, if_pos hc] at h
  cases h

theorem run_bind_ok (h : (t.run yes s).result = .ok a) : (t >>= k).run yes s =
    ⟨((k a).run yes (t.run yes s).system).result, ((k a).run yes (t.run yes s).system).system,
      (t.run yes s).writes ++ ((k a).run yes (t.run yes s).system).writes⟩ := by
  change (t yes s).result = _ at h
  show (match (t yes s).result with | .error e => _ | .ok a => _) = _
  rw [h]
  rfl

theorem run_bind_error {e : String} (h : (t.run yes s).result = .error e) : (t >>= k).run yes s =
    ⟨.error e, (t.run yes s).system, (t.run yes s).writes⟩ := by
  change (t yes s).result = _ at h
  show (match (t yes s).result with | .error e => _ | .ok a => _) = _
  rw [h]
  rfl

theorem run_look_bind_ok {f : κ → Except String α} (h : f s = .ok a) :
    (look f >>= k).run yes s = (k a).run yes s := by
  rw [run_bind_ok (t := look f) h]
  rfl

theorem run_look_bind_error {f : κ → Except String α} {e : String} (h : f s = .error e) :
    (look f >>= k).run yes s = ⟨.error e, s, []⟩ :=
  run_bind_error (t := look f) h

@[simp] theorem run_whenYes_true (t : Tool κ Unit) : (whenYes t).run true s = t.run true s := rfl

@[simp] theorem run_whenYes_false (t : Tool κ Unit) : (whenYes t).run false s = ⟨.ok (), s, []⟩ :=
  rfl

/-- What a tool that succeeds has gone through. -/
theorem bind_result_ok {b : β} (h : ((t >>= k).run yes s).result = .ok b) :
    ∃ a, (t.run yes s).result = .ok a ∧
      ((k a).run yes (t.run yes s).system).result = .ok b ∧
      ((t >>= k).run yes s).system = ((k a).run yes (t.run yes s).system).system ∧
      ((t >>= k).run yes s).writes =
        (t.run yes s).writes ++ ((k a).run yes (t.run yes s).system).writes := by
  cases ha : (t.run yes s).result with
  | error e =>
    rw [run_bind_error ha] at h
    cases h
  | ok a =>
    rw [run_bind_ok ha] at h ⊢
    exact ⟨a, rfl, h, rfl, rfl⟩

end Run

/-! ## Gates -/

/-- From `s` the tool `t` is `u` where `p` holds, and refuses where it does not. -/
def Gate (p : Prop) (t u : Tool κ α) (s : κ) : Prop :=
  p ∧ (∀ yes, t.run yes s = u.run yes s) ∨ ¬p ∧ ∃ e, ∀ yes, t.run yes s = ⟨.error e, s, []⟩

section Gates

variable {s : κ} {p q : Prop} {k : α → Tool κ β} {u : Tool κ β}

theorem gate_refl (u : Tool κ β) : Gate True u u s := .inl ⟨trivial, fun _ => rfl⟩

theorem Gate.congr {t : Tool κ β} (hpq : p ↔ q) (h : Gate p t u s) : Gate q t u s := by
  rwa [← propext hpq]

theorem gate_throwIf (c : Prop) [Decidable c] (e : String) :
    Gate (¬c) (throwIf c e : Tool κ Unit) (pure ()) s := by
  by_cases hc : c
  · exact .inr ⟨not_not_intro hc, e, fun yes => by rw [throwIf, if_pos hc, run_fail]⟩
  · exact .inl ⟨hc, fun yes => by rw [throwIf, if_neg hc]⟩

/-- One gate behind the other. -/
theorem Gate.seq {t : Tool κ Unit} {k : Unit → Tool κ β} (h : Gate p t (pure ()) s)
    (hk : Gate q (k ()) u s) : Gate (p ∧ q) (t >>= k) u s := by
  obtain ⟨hp, ht⟩ | ⟨hp, e, ht⟩ := h
  · have hrun : ∀ yes, (t >>= k).run yes s = (k ()).run yes s := by
      intro yes
      rw [run_bind_ok (a := ()) (by rw [ht, run_pure]), ht]
      rfl
    obtain ⟨hq, hu⟩ | ⟨hq, e, hu⟩ := hk
    · exact .inl ⟨⟨hp, hq⟩, fun yes => (hrun yes).trans (hu yes)⟩
    · exact .inr ⟨fun h => hq h.2, e, fun yes => (hrun yes).trans (hu yes)⟩
  · refine .inr ⟨fun h => hp h.1, e, fun yes => ?_⟩
    rw [run_bind_error (e := e) (by rw [ht]), ht]

theorem Gate.look {f : κ → Except String α} {p : α → Prop}
    (h : ∀ a, f s = .ok a → Gate (p a) (k a) u s) :
    Gate (∃ a, f s = .ok a ∧ p a) (look f >>= k) u s := by
  cases hf : f s with
  | error e => exact .inr ⟨nofun, e, fun yes => run_look_bind_error hf⟩
  | ok a =>
    obtain ⟨hp, hu⟩ | ⟨hp, e, hu⟩ := h a hf
    · exact .inl ⟨⟨a, rfl, hp⟩, fun yes => (run_look_bind_ok hf).trans (hu yes)⟩
    · refine .inr ⟨?_, e, fun yes => (run_look_bind_ok hf).trans (hu yes)⟩
      rintro ⟨a', ha', hp'⟩
      cases ha'
      exact hp hp'

/-- What is written is written behind the gate. -/
theorem Gate.of_writes {t : Tool κ β} {yes : Bool} (h : Gate p t u s)
    (hw : (t.run yes s).writes ≠ []) : p := by
  obtain ⟨hp, -⟩ | ⟨-, e, ht⟩ := h
  · exact hp
  · rw [ht] at hw
    exact absurd rfl hw

theorem Gate.of_result {t : Tool κ β} {yes : Bool} {b : β} (h : Gate p t u s)
    (hb : (t.run yes s).result = .ok b) : p ∧ t.run yes s = u.run yes s := by
  obtain ⟨hp, ht⟩ | ⟨-, e, ht⟩ := h
  · exact ⟨hp, ht yes⟩
  · rw [ht] at hb
    cases hb

end Gates

/-! ## Effects -/

/-- With `yes` the system becomes what the writes make of it. -/
def ActsBy (effect : κ → String × String → κ) (t : Tool κ α) : Prop :=
  ∀ s, (t.run true s).system = (t.run true s).writes.foldl effect s

section Effects

variable {effect : κ → String × String → κ} {t : Tool κ α} {k : α → Tool κ β}

theorem actsBy_pure (a : α) : ActsBy effect (pure a) := fun _ => rfl

theorem actsBy_maybeWrite {write : κ → Except String Unit × κ} {file value : String}
    (h : ∀ s, (write s).2 = effect s (file, value)) : ActsBy effect (maybeWrite write file value) := h

theorem actsBy_whenYes {t : Tool κ Unit} (h : ActsBy effect t) : ActsBy effect (whenYes t) := h

theorem ActsBy.bind (h : ActsBy effect t) (hk : ∀ a, ActsBy effect (k a)) :
    ActsBy effect (t >>= k) := by
  intro s
  cases hr : (t.run true s).result with
  | error e =>
    rw [run_bind_error hr]
    exact h s
  | ok a =>
    rw [run_bind_ok hr, hk a, List.foldl_append, ← h s]

end Effects

/-! ## Dry runs -/

/-- The tool only looks, with `yes` and without. -/
def Silent (t : Tool κ α) : Prop := ∀ s, ∃ r, ∀ yes, t.run yes s = ⟨r, s, []⟩

/-- The dry run from `s` succeeds, and whatever has become of the system, the run with `yes` writes
what the dry run has announced, as far as it comes. -/
structure Follows (t : Tool κ α) (s : κ) : Prop where
  dry : ∃ a, (t.run false s).result = .ok a
  untouched : (t.run false s).system = s
  isPrefix : ∀ s', (t.run true s').writes <+: (t.run false s).writes
  whole : ∀ s' a, (t.run true s').result = .ok a → (t.run true s').writes = (t.run false s).writes

/-- **The dry run is honest**, from `s`. -/
structure Announces (t : Tool κ α) (s : κ) : Prop where
  untouched : (t.run false s).system = s
  isPrefix : (t.run true s).writes <+: (t.run false s).writes
  whole : ∀ a, (t.run true s).result = .ok a → (t.run true s).writes = (t.run false s).writes
  refused : ∀ e, (t.run false s).result = .error e →
    (t.run true s).result = .error e ∧ (t.run true s).system = s ∧ (t.run true s).writes = []

/-- A dry run and a run with `yes`, both from `s`. -/
structure Honest (effect : κ → String × String → κ) (s : κ) (dry real : Outcome κ α) : Prop where
  untouched : dry.system = s
  isPrefix : real.writes <+: dry.writes
  acts : real.system = real.writes.foldl effect s
  whole : ∀ a, real.result = .ok a → real.writes = dry.writes
  refused : ∀ e, dry.result = .error e → real.result = .error e ∧ real.writes = []

theorem Announces.honest {effect : κ → String × String → κ} {s : κ} {t : Tool κ α}
    (h : Announces t s) (ha : ActsBy effect t) : Honest effect s (t.run false s) (t.run true s) := by
  refine ⟨h.untouched, h.isPrefix, ha s, h.whole, fun e he => ?_⟩
  obtain ⟨hresult, -, hwrites⟩ := h.refused e he
  exact ⟨hresult, hwrites⟩

section Rules

variable {s : κ} {t : Tool κ Unit} {u : Unit → Tool κ β} {k : α → Tool κ β}

theorem silent_pure (a : α) : Silent (pure a : Tool κ α) := fun _ => ⟨_, fun _ => rfl⟩

theorem silent_fail (e : String) : Silent (fail e : Tool κ α) := fun _ => ⟨_, fun _ => rfl⟩

theorem silent_look (f : κ → Except String α) : Silent (look f) := fun s => ⟨f s, fun _ => rfl⟩

theorem silent_throwIf (c : Prop) [Decidable c] (e : String) :
    Silent (throwIf c e : Tool κ Unit) := by
  unfold throwIf
  split
  · exact silent_fail e
  · exact silent_pure ()

theorem Silent.bind {t : Tool κ α} (h : Silent t) (hk : ∀ a, Silent (k a)) :
    Silent (t >>= k) := by
  intro s
  obtain ⟨r, hr⟩ := h s
  cases r with
  | error e =>
    refine ⟨.error e, fun yes => ?_⟩
    rw [run_bind_error (e := e) (by rw [hr]), hr]
  | ok a =>
    obtain ⟨r, hr'⟩ := hk a s
    refine ⟨r, fun yes => ?_⟩
    rw [run_bind_ok (a := a) (by rw [hr]), hr, hr']
    rfl

/-- What a check that has succeeded leaves behind. -/
theorem Silent.system {t : Tool κ α} (h : Silent t) (yes : Bool) (s : κ) :
    (t.run yes s).system = s := by
  obtain ⟨r, hr⟩ := h s
  rw [hr]

theorem Silent.writes {t : Tool κ α} (h : Silent t) (yes : Bool) (s : κ) :
    (t.run yes s).writes = [] := by
  obtain ⟨r, hr⟩ := h s
  rw [hr]

/-- What is written is written behind the check. -/
theorem Silent.reached {t : Tool κ α} (h : Silent t) {yes : Bool}
    (hw : ((t >>= k).run yes s).writes ≠ []) :
    ∃ a, (t.run yes s).result = .ok a ∧ ((k a).run yes s).writes ≠ [] := by
  cases hr : (t.run yes s).result with
  | error e =>
    rw [run_bind_error hr] at hw
    exact absurd (h.writes yes s) hw
  | ok a =>
    rw [run_bind_ok hr, h.writes, h.system] at hw
    exact ⟨a, rfl, hw⟩

theorem Silent.actsBy {effect : κ → String × String → κ} {t : Tool κ α} (h : Silent t) :
    ActsBy effect t := by
  intro s
  rw [h.system, h.writes]
  rfl

theorem Gate.actsBy {effect : κ → String × String → κ} {p : κ → Prop} {t u : Tool κ α}
    (h : ∀ s, Gate (p s) t u s) (hu : ActsBy effect u) : ActsBy effect t := by
  intro s
  obtain ⟨-, ht⟩ | ⟨-, e, ht⟩ := h s
  · rw [ht, hu s]
  · rw [ht]
    rfl

theorem follows_pure (a : α) : Follows (pure a : Tool κ α) s :=
  ⟨⟨a, rfl⟩, rfl, fun _ => List.prefix_refl _, fun _ _ _ => rfl⟩

theorem follows_maybeWrite (write : κ → Except String Unit × κ) (file value : String) :
    Follows (maybeWrite write file value) s :=
  ⟨⟨(), rfl⟩, rfl, fun _ => List.prefix_refl _, fun _ _ _ => rfl⟩

/-- A check of what has been written. -/
theorem follows_whenYes (h : Silent t) : Follows (whenYes t) s := by
  refine ⟨⟨(), rfl⟩, rfl, fun s' => ?_, fun s' _ _ => ?_⟩
  · rw [run_whenYes_true, h.writes]
    exact List.nil_prefix
  · rw [run_whenYes_true, h.writes, run_whenYes_false]

/-- A check that the dry run passes. -/
theorem Silent.follows {t : Tool κ α} {a : α} (h : Silent t)
    (ha : (t.run false s).result = .ok a) : Follows t s := by
  refine ⟨⟨a, ha⟩, h.system false s, fun s' => ?_, fun s' _ _ => ?_⟩
  · rw [h.writes]
    exact List.nil_prefix
  · rw [h.writes, h.writes]

/-- **One thing after the other.** -/
theorem Follows.seq (h : Follows t s) (hu : Follows (u ()) s) : Follows (t >>= u) s := by
  obtain ⟨⟨⟩, hdry⟩ := h.dry
  have hrun := run_bind_ok (k := u) hdry
  rw [h.untouched] at hrun
  refine ⟨?_, ?_, fun s' => ?_, fun s' a ha => ?_⟩
  · rw [hrun]
    exact hu.dry
  · rw [hrun]
    exact hu.untouched
  · rw [hrun]
    cases hr : (t.run true s').result with
    | error e =>
      rw [run_bind_error hr]
      exact (h.isPrefix s').trans (List.prefix_append _ _)
    | ok a =>
      rw [run_bind_ok hr, h.whole s' a hr]
      exact (List.prefix_append_right_inj _).2 (hu.isPrefix _)
  · obtain ⟨a', hr, hb, -, hwrites⟩ := bind_result_ok ha
    rw [hwrites, hrun, h.whole s' a' hr, hu.whole _ _ hb]

theorem Follows.announces {t : Tool κ α} (h : Follows t s) : Announces t s := by
  refine ⟨h.untouched, h.isPrefix s, h.whole s, fun e he => ?_⟩
  obtain ⟨a, ha⟩ := h.dry
  rw [ha] at he
  cases he

theorem announces_fail (e : String) : Announces (fail e : Tool κ α) s :=
  ⟨rfl, List.prefix_refl _, fun _ _ => rfl, fun _ he => ⟨he, rfl, rfl⟩⟩

/-- What only looks may decide everything behind it. -/
theorem Announces.check {t : Tool κ α} (ht : Silent t)
    (h : ∀ a, (t.run false s).result = .ok a → Announces (k a) s) : Announces (t >>= k) s := by
  obtain ⟨r, ht⟩ := ht s
  rw [ht] at h
  cases hr : r with
  | ok a =>
    have hrun : ∀ yes, (t >>= k).run yes s = (k a).run yes s := by
      intro yes
      rw [run_bind_ok (a := a) (by rw [ht, hr]), ht]
      rfl
    obtain ⟨huntouched, hprefix, hwhole, hrefused⟩ := h a hr
    refine ⟨?_, ?_, ?_, ?_⟩
    · rwa [hrun]
    · rwa [hrun, hrun]
    · rwa [hrun, hrun]
    · rwa [hrun, hrun]
  | error e =>
    have hrun : ∀ yes, (t >>= k).run yes s = ⟨.error e, s, []⟩ := by
      intro yes
      rw [run_bind_error (e := e) (by rw [ht, hr]), ht]
    refine ⟨?_, ?_, ?_, ?_⟩
    · rw [hrun]
    · rw [hrun, hrun]
    · rw [hrun, hrun]
      exact fun _ _ => rfl
    · rw [hrun, hrun]
      exact fun _ he => ⟨he, rfl, rfl⟩

theorem Announces.look {f : κ → Except String α} (h : ∀ a, f s = .ok a → Announces (k a) s) :
    Announces (look f >>= k) s :=
  Announces.check (silent_look f) h

theorem Gate.announces {p : Prop} {t u : Tool κ α} (h : Gate p t u s) (hu : Announces u s) :
    Announces t s := by
  obtain ⟨-, ht⟩ | ⟨-, e, ht⟩ := h
  · obtain ⟨huntouched, hprefix, hwhole, hrefused⟩ := hu
    refine ⟨?_, ?_, ?_, ?_⟩
    · rwa [ht]
    · rwa [ht, ht]
    · rwa [ht, ht]
    · rwa [ht, ht]
  · refine ⟨?_, ?_, ?_, ?_⟩
    · rw [ht]
    · rw [ht, ht]
    · rw [ht, ht]
      exact fun _ _ => rfl
    · rw [ht, ht]
      exact fun _ he => ⟨he, rfl, rfl⟩

/-- **One thing after the other**, when the second is not refused once the first is not. -/
theorem Announces.seq (h : Announces t s)
    (hu : (t.run false s).result = .ok () → Follows (u ()) s) : Announces (t >>= u) s := by
  cases hdry : (t.run false s).result with
  | error e =>
    obtain ⟨hresult, hsystem, hwrites⟩ := h.refused e hdry
    refine ⟨?_, ?_, ?_, fun e' he' => ?_⟩
    · rw [run_bind_error hdry]
      exact h.untouched
    · rw [run_bind_error hdry, run_bind_error hresult]
      exact h.isPrefix
    · rw [run_bind_error hresult]
      nofun
    · rw [run_bind_error hdry] at he'
      cases he'
      rw [run_bind_error hresult]
      exact ⟨rfl, hsystem, hwrites⟩
  | ok a =>
    have hfollows := hu hdry
    have hrun := run_bind_ok (k := u) hdry
    rw [h.untouched] at hrun
    refine ⟨?_, ?_, fun b hb => ?_, fun e he => ?_⟩
    · rw [hrun]
      exact hfollows.untouched
    · rw [hrun]
      cases hr : (t.run true s).result with
      | error e =>
        rw [run_bind_error hr]
        exact h.isPrefix.trans (List.prefix_append _ _)
      | ok a' =>
        rw [run_bind_ok hr, h.whole a' hr]
        exact (List.prefix_append_right_inj _).2 (hfollows.isPrefix _)
    · obtain ⟨a', hr, hb', -, hwrites⟩ := bind_result_ok hb
      rw [hwrites, hrun, h.whole a' hr, hfollows.whole _ _ hb']
    · obtain ⟨b, hb⟩ := hfollows.dry
      rw [hrun, hb] at he
      cases he

end Rules

end Tool

end AdvCpp.Lib
