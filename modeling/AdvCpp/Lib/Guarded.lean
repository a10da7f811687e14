import AdvCpp.Lib.Endian
import AdvCpp.Lib.Shared

/-!
# Programs that own an object

A `Guarded` program accesses registers, may throw, and changes an object `γ` of its own on the way.
However it ends, the object is there as the last change left it, so that its destructor can act on
it: `scope`.

* `Reads` — programs that leave the registers alone.
* `loadNumber`, `storeNumber` — numbers behind a check of the range; `drive_loadNumber`, ….
* `RegisterFile` — registers by name, behind a base address; `reads_register`, `drive_register`.
* `Triple` — what holds before a program, when it returns and when it throws.
* `triple_bind`, `triple_lift`, `triple_each`, … — the rules, one for each construct.
* `drive_scope` — what holds after the destructor, on either way out.
-/

namespace AdvCpp.Lib

namespace Shared

variable {ε ε' α : Type}

/-- `try { x } catch`: what the program returned or threw. -/
def attempt : Shared ε α → Shared ε' (Except ε α)
  | ret a => ret (.ok a)
  | throw e => ret (.error e)
  | read r k => read r fun d => attempt (k d)
  | write a d k => write a d (attempt k)
  | index i size k => index i size (attempt k)

theorem drive_attempt {σ : Type} {R : Registers σ} {s : σ} {x : Shared ε α} :
    drive R (attempt x : Shared ε' (Except ε α)) s = (.ok (drive R x s).1, (drive R x s).2) := by
  induction x generalizing s with
  | ret a => rfl
  | throw e => rfl
  | read r k ih => exact ih _
  | write a d k ih => exact ih
  | index i size k ih => exact ih

/-! ## Programs that only look -/

/-- The program leaves the registers as they are; it returns `a` if `p` holds, and else throws. -/
def Reads {σ : Type} (R : Registers σ) (s : σ) (x : Shared ε α) (a : α) (p : Prop) : Prop :=
  (p ∧ drive R x s = (.ok a, s)) ∨ (¬p ∧ ∃ e, drive R x s = (.error e, s))

section Reads

variable {β σ : Type} {R : Registers σ} {s : σ} {x : Shared ε α} {f : α → Shared ε β} {a : α} {b : β}
  {p q : Prop}

theorem reads_pure (a : α) : Reads R s (pure a : Shared ε α) a True := .inl ⟨trivial, rfl⟩

theorem reads_ensure [Decidable p] (e : ε) : Reads R s (ensure p e) () p := by
  by_cases h : p
  · exact .inl ⟨h, drive_ensure h e⟩
  · exact .inr ⟨h, e, drive_ensure_error h e⟩

theorem reads_bind (hx : Reads R s x a p) (hf : Reads R s (f a) b q) :
    Reads R s (x >>= f) b (p ∧ q) := by
  obtain ⟨hp, hdrive⟩ | ⟨hp, e, hdrive⟩ := hx
  · obtain ⟨hq, hdrive'⟩ | ⟨hq, e, hdrive'⟩ := hf
    · exact .inl ⟨⟨hp, hq⟩, (drive_bind_ok hdrive).trans hdrive'⟩
    · exact .inr ⟨fun h => hq h.2, e, (drive_bind_ok hdrive).trans hdrive'⟩
  · exact .inr ⟨fun h => hp h.1, e, drive_bind_error hdrive⟩

theorem Reads.congr (h : Reads R s x a p) (hpq : p ↔ q) : Reads R s x a q := by
  rwa [Reads, ← hpq]

theorem Reads.map (h : Reads R s x a p) (g : α → β) : Reads R s (g <$> x) (g a) p :=
  (reads_bind (f := fun a => pure (g a)) h (reads_pure (g a))).congr (and_iff_left trivial)

/-- What is behind a look at the registers. -/
theorem drive_reads_bind {Q : Except ε β → σ → Prop} (hx : Reads R s x a p)
    (herror : ∀ e, Q (.error e) s) (hf : p → Q (Shared.drive R (f a) s).1 (Shared.drive R (f a) s).2) :
    Q (Shared.drive R (x >>= f) s).1 (Shared.drive R (x >>= f) s).2 := by
  obtain ⟨hp, hdrive⟩ | ⟨-, e, hdrive⟩ := hx
  · rw [drive_bind_ok hdrive]
    exact hf hp
  · rw [drive_bind_error hdrive]
    exact herror e

theorem drive_ofExcept_bind {Q : Except ε β → σ → Prop} {y : Except ε α}
    (herror : ∀ e, Q (.error e) s)
    (hf : ∀ a, y = .ok a → Q (Shared.drive R (f a) s).1 (Shared.drive R (f a) s).2) :
    Q (Shared.drive R (ofExcept y >>= f) s).1 (Shared.drive R (ofExcept y >>= f) s).2 := by
  cases y with
  | ok a => exact hf a rfl
  | error e => exact herror e

end Reads

/-! ## Numbers behind a check -/

/-- The number of `width` bytes at `a`, if that is in the range of `size` bytes. -/
def loadNumber (size width a : Nat) (e : ε) : Shared ε Nat := do
  ensure (a ≤ size ∧ width ≤ size - a) e
  let bytes ← load a width
  return leValue bytes

def storeNumber (size width a value : Nat) (e : ε) : Shared ε Unit := do
  ensure (a ≤ size ∧ width ≤ size - a) e
  store a (leBytes width value)

section Numbers

variable {σ τ : Type} {R : Registers σ} {s s' : σ} {size width a value : Nat} {e : ε}
  {x : Shared ε Nat} {p : Prop}

theorem range_iff : a ≤ size ∧ width ≤ size - a ↔ a + width ≤ size := by omega

theorem drive_loadNumber (h : a + width ≤ size) (hlt : value < 256 ^ width)
    (hload : R.load s ⟨a, width⟩ = (leBytes width value, s')) :
    drive R (loadNumber size width a e) s = (.ok value, s') := by
  have hbytes : drive R (load a width : Shared ε (List UInt8)) s =
      (.ok (leBytes width value), s') := by
    rw [drive_load (r := ⟨a, width⟩), hload]
  rw [loadNumber, drive_bind_ok (drive_ensure (range_iff.2 h) _), drive_bind_ok hbytes,
    leValue_leBytes_of_lt hlt, drive_pure]

theorem drive_loadNumber_error (h : ¬a + width ≤ size) :
    drive R (loadNumber size width a e) s = (.error e, s) :=
  drive_bind_error (drive_ensure_error (mt range_iff.1 h) _)

theorem drive_storeNumber (h : a + width ≤ size) :
    drive R (storeNumber size width a value e) s = (.ok (), R.store s a (leBytes width value)) := by
  rw [storeNumber, drive_bind_ok (drive_ensure (range_iff.2 h) _), drive_store]

theorem drive_storeNumber_error (h : ¬a + width ≤ size) :
    drive R (storeNumber size width a value e) s = (.error e, s) :=
  drive_bind_error (drive_ensure_error (mt range_iff.1 h) _)

/-- A register whose read has no effect. -/
theorem reads_loadNumber (hlt : value < 256 ^ width)
    (hload : R.load s ⟨a, width⟩ = (leBytes width value, s)) :
    Reads R s (loadNumber size width a e) value (a + width ≤ size) := by
  by_cases h : a + width ≤ size
  · exact .inl ⟨h, drive_loadNumber h hlt hload⟩
  · exact .inr ⟨h, e, drive_loadNumber_error h⟩

/-- A number as a value of another type. -/
theorem Reads.ofNat {ofNat : Nat → τ} {toNat : τ → Nat} {v : τ} (hofNat : ∀ v, ofNat (toNat v) = v)
    (h : Reads R s x (toNat v) p) : Reads R s (ofNat <$> x) v p := by
  have hmap := h.map ofNat
  rwa [hofNat] at hmap

end Numbers

end Shared

/-! ## Registers by name -/

/-- The registers `ρ`, each at an offset of its own; a read has no effect. -/
structure RegisterFile (ρ σ : Type) where
  offset : ρ → Nat
  decode : Nat → Option ρ
  decode_offset : ∀ q, decode (offset q) = some q
  get : σ → ρ → Nat
  set : σ → ρ → Nat → σ
  other : Region → List UInt8

namespace RegisterFile

variable {ρ σ : Type} (F : RegisterFile ρ σ) (base : Nat)

/-- The register at an address. -/
def named (a : Nat) : Option ρ := if base ≤ a then F.decode (a - base) else none

def registers : Shared.Registers σ where
  load s r :=
    match F.named base r.offset with
    | some q => (leBytes r.size (F.get s q), s)
    | none => (F.other r, s)
  store s a bytes :=
    match F.named base a with
    | some q => F.set s q (leValue bytes)
    | none => s

theorem named_offset (q : ρ) : F.named base (base + F.offset q) = some q := by
  rw [named, if_pos (Nat.le_add_right _ _), Nat.add_sub_cancel_left, F.decode_offset]

theorem load_register (s : σ) (q : ρ) (n : Nat) :
    (F.registers base).load s ⟨base + F.offset q, n⟩ = (leBytes n (F.get s q), s) := by
  simp only [registers, named_offset]

theorem store_register (s : σ) (q : ρ) (bytes : List UInt8) :
    (F.registers base).store s (base + F.offset q) bytes = F.set s q (leValue bytes) := by
  simp only [registers, named_offset]

section Numbers

variable {ε : Type} {F : RegisterFile ρ σ} {base size width value : Nat} {s : σ} {q : ρ} {e : ε}

theorem reads_register (hlt : F.get s q < 256 ^ width) :
    Shared.Reads (F.registers base) s (Shared.loadNumber size width (base + F.offset q) e)
      (F.get s q) (base + F.offset q + width ≤ size) :=
  Shared.reads_loadNumber hlt (F.load_register base s q width)

theorem drive_register (h : base + F.offset q + width ≤ size) (hlt : value < 256 ^ width) :
    Shared.drive (F.registers base) (Shared.storeNumber size width (base + F.offset q) value e) s =
      (.ok (), F.set s q value) := by
  rw [Shared.drive_storeNumber h, F.store_register, leValue_leBytes_of_lt hlt]

end Numbers

end RegisterFile

/-! ## Programs with an object -/

def Guarded (γ ε α : Type) := γ → Shared ε (γ × Except ε α)

namespace Guarded

variable {γ ε α β ι σ : Type}

protected def bind (x : Guarded γ ε α) (f : α → Guarded γ ε β) : Guarded γ ε β := fun g =>
  x g >>= fun
    | (g', .ok a) => f a g'
    | (g', .error e) => pure (g', .error e)

instance : Monad (Guarded γ ε) where
  pure a := fun g => pure (g, .ok a)
  bind := Guarded.bind

/-- What does not use the object. -/
def lift (x : Shared ε α) : Guarded γ ε α := fun g => (fun r => (g, r)) <$> x.attempt

def get : Guarded γ ε γ := fun g => pure (g, .ok g)

def change (f : γ → γ) : Guarded γ ε Unit := fun g => pure (f g, .ok ())

/-- The program for each element, and the results. -/
def each (f : ι → Guarded γ ε α) : List ι → Guarded γ ε (List α)
  | [] => pure []
  | i :: l => do
    let a ← f i
    let as ← each f l
    return a :: as

/-- The object lives as long as the program; the destructor swallows what it throws. -/
def scope (g : γ) (destroy : γ → Shared ε Unit) (x : Guarded γ ε α) : Shared ε α := do
  let (g', r) ← x g
  let _ ← ((destroy g').attempt : Shared ε (Except ε Unit))
  Shared.ofExcept r

/-! ## Triples -/

variable {R : Shared.Registers σ} {P P' : γ → σ → Prop} {Q Q' : α → γ → σ → Prop}
  {E E' T' : γ → σ → Prop} {T : β → γ → σ → Prop} {x : Guarded γ ε α} {f : α → Guarded γ ε β}

/-- From `P`, the program returns with `Q` or throws with `E`. -/
def Triple (R : Shared.Registers σ) (P : γ → σ → Prop) (x : Guarded γ ε α) (Q : α → γ → σ → Prop)
    (E : γ → σ → Prop) : Prop :=
  ∀ g s, P g s → ∃ g' r s', Shared.drive R (x g) s = (.ok (g', r), s') ∧
    match r with
    | .ok a => Q a g' s'
    | .error _ => E g' s'

theorem triple_pure (a : α) : Triple R (Q a) (pure a : Guarded γ ε α) Q E :=
  fun g s h => ⟨g, .ok a, s, rfl, h⟩

theorem triple_conseq (h : Triple R P x Q E) (hP : ∀ g s, P' g s → P g s)
    (hQ : ∀ a g s, Q a g s → Q' a g s) (hE : ∀ g s, E g s → E' g s) : Triple R P' x Q' E' := by
  intro g s hs
  obtain ⟨g', r, s', hdrive, hr⟩ := h g s (hP g s hs)
  refine ⟨g', r, s', hdrive, ?_⟩
  cases r with
  | ok a => exact hQ a g' s' hr
  | error e => exact hE g' s' hr

theorem triple_bind (hx : Triple R P x Q E) (hf : ∀ a, Triple R (Q a) (f a) T E) :
    Triple R P (x >>= f) T E := by
  intro g s hs
  obtain ⟨g', r, s', hdrive, hr⟩ := hx g s hs
  cases r with
  | ok a =>
    obtain ⟨g'', r', s'', hdrive', hr'⟩ := hf a g' s' hr
    exact ⟨g'', r', s'', (Shared.drive_bind_ok hdrive).trans hdrive', hr'⟩
  | error e => exact ⟨g', .error e, s', Shared.drive_bind_ok hdrive, hr⟩

theorem triple_lift {x : Shared ε α}
    (h : ∀ g s, P g s → match Shared.drive R x s with
      | (.ok a, s') => Q a g s'
      | (.error _, s') => E g s') : Triple R P (lift x : Guarded γ ε α) Q E := by
  intro g s hs
  refine ⟨g, (Shared.drive R x s).1, (Shared.drive R x s).2,
    Shared.drive_map_ok Shared.drive_attempt, ?_⟩
  have hx := h g s hs
  split at hx
  · next heq => rwa [heq]
  · next heq => rwa [heq]

/-- What only looks. -/
theorem triple_reads {x : Shared ε α} {val : σ → α} {p : Prop} (hx : ∀ s, Shared.Reads R s x (val s) p)
    (hQ : ∀ g s, P g s → p → Q (val s) g s) (hE : ∀ g s, P g s → E g s) :
    Triple R P (lift x : Guarded γ ε α) Q E := by
  refine triple_lift fun g s hs => ?_
  obtain ⟨hp, hdrive⟩ | ⟨-, e, hdrive⟩ := hx s
  · rw [hdrive]
    exact hQ g s hs hp
  · rw [hdrive]
    exact hE g s hs

theorem triple_ensure {p : Prop} [Decidable p] {e : ε} (hQ : ∀ g s, P g s → p → T' g s)
    (hE : ∀ g s, P g s → E g s) :
    Triple R P (lift (Shared.ensure p e) : Guarded γ ε Unit) (fun _ => T') E :=
  triple_reads (fun _ => Shared.reads_ensure e) hQ hE

theorem triple_ofExcept {y : Except ε α} (hQ : ∀ a g s, P g s → y = .ok a → Q a g s)
    (hE : ∀ g s, P g s → E g s) : Triple R P (lift (Shared.ofExcept y) : Guarded γ ε α) Q E := by
  cases y with
  | ok a => exact triple_lift fun g s hs => hQ a g s hs rfl
  | error e => exact triple_lift hE

theorem triple_get : Triple R P (get : Guarded γ ε γ) (fun a g s => a = g ∧ P g s) E :=
  fun g s h => ⟨g, .ok g, s, rfl, rfl, h⟩

theorem triple_change {Q : Unit → γ → σ → Prop} (c : γ → γ) :
    Triple R (fun g s => Q () (c g) s) (change c : Guarded γ ε Unit) Q E :=
  fun g s h => ⟨c g, .ok (), s, rfl, h⟩

/-- **A loop over a list**: `J` is about the elements that are done, and their results. -/
theorem triple_each {f : ι → Guarded γ ε α} {J : List ι → List α → γ → σ → Prop} {l : List ι}
    (h : ∀ done i rest, l = done ++ i :: rest → ∀ as,
      Triple R (J done as) (f i) (fun a => J (done ++ [i]) (as ++ [a])) E) :
    Triple R (J [] []) (each f l) (J l) E := by
  suffices hsuffix : ∀ rest done as, l = done ++ rest →
      Triple R (J done as) (each f rest) (fun bs => J l (as ++ bs)) E from hsuffix l [] [] rfl
  intro rest
  induction rest with
  | nil =>
    intro done as hl
    rw [List.append_nil] at hl
    subst hl
    refine triple_conseq (triple_pure []) (fun g s hJ => ?_) (fun _ _ _ hJ => hJ) fun _ _ he => he
    rwa [List.append_nil]
  | cons i rest ih =>
    intro done as hl
    refine triple_bind (h done i rest hl as) fun a => ?_
    have hrest := ih (done ++ [i]) (as ++ [a]) (by rw [hl, List.append_assoc]; rfl)
    refine triple_bind hrest fun bs => triple_conseq (triple_pure (a :: bs)) (fun g s hJ => ?_)
      (fun _ _ _ hJ => hJ) fun _ _ he => he
    rwa [List.append_assoc] at hJ

/-- **After the destructor.** -/
theorem drive_scope {destroy : γ → Shared ε Unit} {g : γ} {s : σ}
    {Q' : Except ε α → σ → Prop} (hx : Triple R P x Q E) (hP : P g s)
    (hok : ∀ a g' s', Q a g' s' → Q' (.ok a) (Shared.drive R (destroy g') s').2)
    (herror : ∀ e g' s', E g' s' → Q' (.error e) (Shared.drive R (destroy g') s').2) :
    Q' (Shared.drive R (scope g destroy x) s).1 (Shared.drive R (scope g destroy x) s).2 := by
  obtain ⟨g', r, s', hdrive, hr⟩ := hx g s hP
  have hscope : Shared.drive R (scope g destroy x) s = (r, (Shared.drive R (destroy g') s').2) := by
    rw [scope, Shared.drive_bind_ok hdrive, Shared.drive_bind_ok Shared.drive_attempt]
    cases r with
    | ok a => rfl
    | error e => rfl
  rw [hscope]
  cases r with
  | ok a => exact hok a g' s' hr
  | error e => exact herror e g' s' hr

end Guarded

end AdvCpp.Lib
