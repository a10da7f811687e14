import AdvCpp.Lib.Memory
import Mathlib.Data.List.Basic
import Mathlib.Data.UInt

/-!
# Numbers as bytes

`leBytes w n` is the number `n` in `w` bytes, the low byte first, and `leValue` reads it back;
`u8At`, …, `u64At` are the numbers that are stored in a memory.

* `leValue_leBytes` — reading back, up to what fits.
-/

namespace AdvCpp.Lib

def leBytes : Nat → Nat → List UInt8
  | 0, _ => []
  | w + 1, n => UInt8.ofNat n :: leBytes w (n / 256)

def leValue : List UInt8 → Nat
  | [] => 0
  | b :: bs => b.toNat + 256 * leValue bs

/-- The high byte first. -/
def beBytes (w n : Nat) : List UInt8 := (leBytes w n).reverse

def beValue (bs : List UInt8) : Nat := leValue bs.reverse

@[simp] theorem leBytes_length (w n : Nat) : (leBytes w n).length = w := by
  induction w generalizing n with
  | zero => rfl
  | succ w ih => exact congrArg (· + 1) (ih (n / 256))

@[simp] theorem beBytes_length (w n : Nat) : (beBytes w n).length = w := by
  simp [beBytes]

/-- **Reading back.** -/
theorem leValue_leBytes (w n : Nat) : leValue (leBytes w n) = n % 256 ^ w := by
  induction w generalizing n with
  | zero => exact (Nat.mod_one n).symm
  | succ w ih =>
    have hbyte : (UInt8.ofNat n).toNat = n % 256 := UInt8.toNat_ofNat'
    show (UInt8.ofNat n).toNat + 256 * leValue (leBytes w (n / 256)) = n % 256 ^ (w + 1)
    rw [hbyte, ih, Nat.pow_succ', Nat.mod_mul]

theorem leValue_leBytes_of_lt {w n : Nat} (h : n < 256 ^ w) : leValue (leBytes w n) = n := by
  rw [leValue_leBytes, Nat.mod_eq_of_lt h]

theorem beValue_beBytes_of_lt {w n : Nat} (h : n < 256 ^ w) : beValue (beBytes w n) = n := by
  rw [beValue, beBytes, List.reverse_reverse, leValue_leBytes_of_lt h]

/-! ## Numbers in a memory -/

def u8At (m : Nat → UInt8) (a : Nat) : UInt8 := UInt8.ofNat (leValue (peek m a 1))
def u16At (m : Nat → UInt8) (a : Nat) : UInt16 := UInt16.ofNat (leValue (peek m a 2))
def u32At (m : Nat → UInt8) (a : Nat) : UInt32 := UInt32.ofNat (leValue (peek m a 4))
def u64At (m : Nat → UInt8) (a : Nat) : UInt64 := UInt64.ofNat (leValue (peek m a 8))

end AdvCpp.Lib
