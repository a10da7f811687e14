import Mathlib.Logic.Function.Basic
import Mathlib.Data.List.Basic
import Mathlib.Tactic.Common

/-!
# Descriptors and connections

The sockets behind the descriptors of a process.  A descriptor number that is closed may be given
out again, a connection number never is.

* `Net.Ok` — no two open descriptors name one connection.
-/

namespace AdvCpp.Uring

/-- Connections are numbered.  `fds` is the table of open descriptors; `rx` and `tx` are the
bytes received from and sent to the peer of a connection; `τ` is what a byte is. -/
structure Net (τ : Type := UInt8) where
  fds : Int → Option Nat
  next : Nat
  rx : Nat → List τ
  tx : Nat → List τ

namespace Net

variable {τ : Type}

/-- A new connection under the descriptor `fd`. -/
def accept (n : Net τ) (fd : Int) : Net τ :=
  { n with fds := Function.update n.fds fd (some n.next), next := n.next + 1 }

def close (n : Net τ) (fd : Int) : Net τ := { n with fds := Function.update n.fds fd none }

def receive (n : Net τ) (c : Nat) (data : List τ) : Net τ :=
  { n with rx := Function.update n.rx c (n.rx c ++ data) }

def transmit (n : Net τ) (c : Nat) (data : List τ) : Net τ :=
  { n with tx := Function.update n.tx c (n.tx c ++ data) }

theorem receive_rx (n : Net τ) (c : Nat) (data : List τ) (c' : Nat) :
    (n.receive c data).rx c' = n.rx c' ++ if c' = c then data else [] := by
  by_cases hc : c' = c
  · subst hc
    rw [if_pos rfl]
    exact Function.update_self ..
  · rw [if_neg hc, List.append_nil]
    exact Function.update_of_ne hc _ _

/-- Descriptors of the program's own: each refers to a file of its own. -/
def init (fds : List Int) : Net τ :=
  ⟨fun fd => if fd ∈ fds then some (fds.idxOf fd) else none, fds.length, fun _ => [], fun _ => []⟩

/-- No two open descriptors name one connection, and a connection to come has no history. -/
structure Ok (n : Net τ) : Prop where
  lt : ∀ {fd : Int} {c : Nat}, n.fds fd = some c → c < n.next
  inj : ∀ {fd fd' : Int} {c : Nat}, n.fds fd = some c → n.fds fd' = some c → fd = fd'
  fresh : ∀ c, n.next ≤ c → n.rx c = [] ∧ n.tx c = []

theorem init_ok (fds : List Int) : (init fds : Net τ).Ok where
  lt := by
    intro fd c h
    simp only [init] at h
    split at h
    · rename_i hmem
      cases h
      exact List.idxOf_lt_length_of_mem hmem
    · cases h
  inj := by
    intro fd fd' c h h'
    simp only [init] at h h'
    split at h
    · rename_i hmem
      split at h'
      · rename_i hmem'
        cases h
        simp only [Option.some.injEq] at h'
        exact ((List.idxOf_inj hmem').1 h').symm
      · cases h'
    · cases h
  fresh := fun _ _ => ⟨rfl, rfl⟩

theorem Ok.accept {n : Net τ} (h : n.Ok) (fd : Int) : (n.accept fd).Ok where
  lt := by
    intro fd' c hc
    simp only [Net.accept] at hc ⊢
    by_cases he : fd' = fd
    · rw [he, Function.update_self] at hc
      cases hc
      omega
    · rw [Function.update_of_ne he] at hc
      have := h.lt hc
      omega
  inj := by
    intro fd₁ fd₂ c h₁ h₂
    simp only [Net.accept] at h₁ h₂
    by_cases he₁ : fd₁ = fd <;> by_cases he₂ : fd₂ = fd
    · rw [he₁, he₂]
    · rw [he₁, Function.update_self] at h₁
      rw [Function.update_of_ne he₂] at h₂
      cases h₁
      exact absurd (h.lt h₂) (Nat.lt_irrefl _)
    · rw [he₂, Function.update_self] at h₂
      rw [Function.update_of_ne he₁] at h₁
      cases h₂
      exact absurd (h.lt h₁) (Nat.lt_irrefl _)
    · rw [Function.update_of_ne he₁] at h₁
      rw [Function.update_of_ne he₂] at h₂
      exact h.inj h₁ h₂
  fresh := fun c hc => h.fresh c (Nat.le_of_succ_le hc)

theorem Ok.close {n : Net τ} (h : n.Ok) (fd : Int) : (n.close fd).Ok where
  lt := by
    intro fd' c hc
    simp only [Net.close] at hc
    by_cases he : fd' = fd
    · rw [he, Function.update_self] at hc
      cases hc
    · rw [Function.update_of_ne he] at hc
      exact h.lt hc
  inj := by
    intro fd₁ fd₂ c h₁ h₂
    simp only [Net.close] at h₁ h₂
    by_cases he₁ : fd₁ = fd
    · rw [he₁, Function.update_self] at h₁
      cases h₁
    · by_cases he₂ : fd₂ = fd
      · rw [he₂, Function.update_self] at h₂
        cases h₂
      · rw [Function.update_of_ne he₁] at h₁
        rw [Function.update_of_ne he₂] at h₂
        exact h.inj h₁ h₂
  fresh := h.fresh

theorem Ok.receive {n : Net τ} (h : n.Ok) {c : Nat} (hc : c < n.next) (data : List τ) :
    (n.receive c data).Ok where
  lt := h.lt
  inj := h.inj
  fresh := by
    intro c' hc'
    have hne : c' ≠ c := by
      rintro rfl
      exact absurd hc (Nat.not_lt.2 hc')
    exact ⟨(Function.update_of_ne hne _ _).trans (h.fresh c' hc').1, (h.fresh c' hc').2⟩

theorem Ok.transmit {n : Net τ} (h : n.Ok) {c : Nat} (hc : c < n.next) (data : List τ) :
    (n.transmit c data).Ok where
  lt := h.lt
  inj := h.inj
  fresh := by
    intro c' hc'
    have hne : c' ≠ c := by
      rintro rfl
      exact absurd hc (Nat.not_lt.2 hc')
    exact ⟨(h.fresh c' hc').1, (Function.update_of_ne hne _ _).trans (h.fresh c' hc').2⟩

end Net

/-- The result of a receive of at most `len` bytes. -/
theorem received_length {τ : Type} {res : Int} {data : List τ} {len : Nat}
    (h : (res < 0 ∧ data = []) ∨ (res = data.length ∧ data.length ≤ len)) :
    res.toNat = data.length ∧ res ≤ len ∧ data.length ≤ len := by
  rcases h with ⟨hneg, rfl⟩ | ⟨hres, hlen⟩
  · refine ⟨?_, ?_, Nat.zero_le _⟩
    · rw [List.length_nil]
      omega
    · omega
  · exact ⟨by omega, by omega, hlen⟩

end AdvCpp.Uring
