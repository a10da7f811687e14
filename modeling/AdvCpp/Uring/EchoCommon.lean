import Mathlib.Data.Nat.Bitwise
import Mathlib.Tactic.Common

/-!
# Operation encoding

`echo_common.hpp`: the operation in the upper 8 bits of `user_data` and the descriptor in the
lower 56 bits.

* `decodeOp_encode`, `decodeFd_encode` — decoding gives back what was encoded.
-/

namespace AdvCpp.Uring

def OP_ACCEPT : BitVec 64 := 1#64 <<< 56
def OP_RECV : BitVec 64 := 2#64 <<< 56
def OP_SEND : BitVec 64 := 3#64 <<< 56

def OP_MASK : BitVec 64 := 0xFF00000000000000#64
def FD_MASK : BitVec 64 := 0x00FFFFFFFFFFFFFF#64

/-- The cast of `int` to `__u64` extends the sign. -/
def encode (op : BitVec 64) (fd : Int) : BitVec 64 := op ||| BitVec.ofInt 64 fd

def decodeOp (ud : BitVec 64) : BitVec 64 := ud &&& OP_MASK

/-- The cast to `int` keeps the low 32 bits. -/
def decodeFd (ud : BitVec 64) : Int := ((ud &&& FD_MASK).setWidth 32).toInt

/-- Operation codes live in the upper 8 bits. -/
def IsOp (op : BitVec 64) : Prop := op &&& OP_MASK = op

theorem isOp_accept : IsOp OP_ACCEPT := by unfold IsOp; decide
theorem isOp_recv : IsOp OP_RECV := by unfold IsOp; decide
theorem isOp_send : IsOp OP_SEND := by unfold IsOp; decide

section Encode

variable {op : BitVec 64} {fd : Int}

/-- The values a descriptor can have. -/
def IsFd (fd : Int) : Prop := 0 ≤ fd ∧ fd < 2 ^ 31

theorem IsFd.and_mask (h : IsFd fd) : BitVec.ofInt 64 fd &&& FD_MASK = BitVec.ofInt 64 fd := by
  obtain ⟨n, rfl⟩ := Int.eq_ofNat_of_zero_le h.1
  have hn : n < 2 ^ 31 := by have := h.2; omega
  apply BitVec.eq_of_toNat_eq
  have hmask : FD_MASK.toNat = 2 ^ 56 - 1 := by decide
  rw [BitVec.toNat_and, hmask, BitVec.ofInt_natCast, BitVec.toNat_ofNat,
    Nat.and_two_pow_sub_one_eq_mod]
  omega

theorem IsOp.and_fdMask (h : IsOp op) : op &&& FD_MASK = 0#64 := by
  have hmasks : OP_MASK &&& FD_MASK = 0#64 := by decide
  rw [← h, BitVec.and_assoc, hmasks, BitVec.and_zero]

/-- **The operation comes back.** -/
theorem decodeOp_encode (hop : IsOp op) (hfd : IsFd fd) : decodeOp (encode op fd) = op := by
  have hmasks : FD_MASK &&& OP_MASK = 0#64 := by decide
  rw [decodeOp, encode, BitVec.and_or_distrib_right, hop, ← hfd.and_mask, BitVec.and_assoc, hmasks,
    BitVec.and_zero, BitVec.or_zero]

/-- **The descriptor comes back.** -/
theorem decodeFd_encode (hop : IsOp op) (hfd : IsFd fd) : decodeFd (encode op fd) = fd := by
  rw [decodeFd, encode, BitVec.and_or_distrib_right, hop.and_fdMask, BitVec.zero_or, hfd.and_mask]
  obtain ⟨n, rfl⟩ := Int.eq_ofNat_of_zero_le hfd.1
  have hn : n < 2 ^ 31 := by have := hfd.2; omega
  rw [BitVec.ofInt_natCast, BitVec.setWidth_ofNat_of_le (by omega), BitVec.toInt_eq_toNat_of_lt] <;>
    rw [BitVec.toNat_ofNat] <;> omega

end Encode

end AdvCpp.Uring
