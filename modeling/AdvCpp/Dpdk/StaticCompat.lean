import AdvCpp.Lib.Numeral
import Mathlib.Algebra.Ring.Int.Defs
import Mathlib.Algebra.Ring.Nat

/-!
# The number parsers of the static build

`dpdk_static_compat.cpp`: `__isoc23_strtol`, `__isoc23_strtoul` and `__isoc23_strtoull` over one
scanner, on a 64-bit target.  A string is the list of its bytes without the final zero, `*endptr` is
an offset, and `erange` says that `errno` has been set.

* `parseUnsignedCompat` and the three wrappers — translated.
* `C23` — what the standard says: the longest initial part of the expected form, and its value.
* `c23_iff` — the one result that `C23` allows.
* `isoc23_agree_iff` — on which strings and bases each function agrees with the standard.
-/

namespace AdvCpp.Dpdk.StaticCompat

open AdvCpp.Lib

/-! ## The source -/

def LONG_MAX : Nat := 2 ^ 63 - 1
def ULONG_MAX : Nat := 2 ^ 64 - 1
def ULLONG_MAX : Nat := 2 ^ 64 - 1

/-- Space, `\f`, `\n`, `\r`, `\t`, `\v`. -/
def asciiSpace (c : UInt8) : Bool :=
  c = 0x20 ∨ c = 0x0c ∨ c = 0x0a ∨ c = 0x0d ∨ c = 0x09 ∨ c = 0x0b

/-- `none` is the `-1` of the source. -/
def digitValue (c : UInt8) : Option Nat :=
  if '0'.toUInt8 ≤ c ∧ c ≤ '9'.toUInt8 then some (c.toNat - '0'.toUInt8.toNat)
  else if 'a'.toUInt8 ≤ c ∧ c ≤ 'z'.toUInt8 then some (c.toNat - 'a'.toUInt8.toNat + 10)
  else if 'A'.toUInt8 ≤ c ∧ c ≤ 'Z'.toUInt8 then some (c.toNat - 'A'.toUInt8.toNat + 10)
  else none

/-- `*negative`, and the rest behind the sign. -/
def skipSign : List UInt8 → Bool × List UInt8
  | c :: p =>
    if c = '+'.toUInt8 ∨ c = '-'.toUInt8 then (decide (c = '-'.toUInt8), p) else (false, c :: p)
  | [] => (false, [])

/-- `p[0] == '0' && (p[1] == lower || p[1] == upper)` -/
def marked (lower upper : Char) (p : List UInt8) : Prop :=
  p[0]? = some '0'.toUInt8 ∧ (p[1]? = some lower.toUInt8 ∨ p[1]? = some upper.toUInt8)

instance decidableMarked (lower upper : Char) (p : List UInt8) : Decidable (marked lower upper p) := by
  unfold marked
  exact inferInstance

/-- The base, and the rest behind `0x`. -/
def chooseBase (base : Nat) (p : List UInt8) : Nat × List UInt8 :=
  if base = 0 then
    if marked 'x' 'X' p then (16, p.drop 2)
    else if p[0]? = some '0'.toUInt8 then (8, p)
    else (10, p)
  else if base = 16 ∧ marked 'x' 'X' p then (base, p.drop 2)
  else (base, p)

/-- The loop over the digits: `value`, `overflow`, and the rest. -/
def scanDigits (base : Nat) : Nat → Bool → List UInt8 → Nat × Bool × List UInt8
  | value, overflow, [] => (value, overflow, [])
  | value, overflow, c :: p =>
    match digitValue c with
    | none => (value, overflow, c :: p)
    | some digit =>
      if base ≤ digit then (value, overflow, c :: p)
      else if (ULLONG_MAX - digit) / base < value then scanDigits base ULLONG_MAX true p
      else if ¬overflow then scanDigits base (value * base + digit) overflow p
      else scanDigits base value overflow p

structure Parsed where
  value : Nat
  stop : Nat
  negative : Bool
  erange : Bool
  deriving DecidableEq

def parseUnsignedCompat (nptr : List UInt8) (base : Nat) : Parsed :=
  let (negative, p) := skipSign (nptr.dropWhile asciiSpace)
  let (base, p) := chooseBase base p
  let digitsBegin := p
  let (value, overflow, p) := scanDigits base 0 false p
  if p.length = digitsBegin.length then ⟨0, 0, negative, false⟩
  else ⟨value, nptr.length - p.length, negative, overflow⟩

/-- What a conversion returns, stores and reports. -/
structure Result where
  value : Int
  stop : Nat
  erange : Bool
  deriving DecidableEq

def isoc23Strtol (nptr : List UInt8) (base : Nat) : Result :=
  let r := parseUnsignedCompat nptr base
  if r.negative then
    if LONG_MAX + 1 < r.value then ⟨-(LONG_MAX + 1), r.stop, true⟩
    else if r.value = LONG_MAX + 1 then ⟨-(LONG_MAX + 1), r.stop, r.erange⟩
    else ⟨-r.value, r.stop, r.erange⟩
  else if LONG_MAX < r.value then ⟨LONG_MAX, r.stop, true⟩
  else ⟨r.value, r.stop, r.erange⟩

def isoc23Strtoul (nptr : List UInt8) (base : Nat) : Result :=
  let r := parseUnsignedCompat nptr base
  let (value, erange) := if ULONG_MAX < r.value then (ULONG_MAX, true) else (r.value, r.erange)
  let result := value % 2 ^ 64
  ⟨if r.negative then ((2 ^ 64 - result) % 2 ^ 64 : Nat) else result, r.stop, erange⟩

/-- `~value + 1ULL` -/
def isoc23Strtoull (nptr : List UInt8) (base : Nat) : Result :=
  let r := parseUnsignedCompat nptr base
  ⟨if r.negative then ((2 ^ 64 - 1 - r.value + 1) % 2 ^ 64 : Nat) else r.value, r.stop, r.erange⟩

/-! ## The standard -/

/-- The values of the digits, and of the letters from `a` (or `A`) to `z` (or `Z`). -/
def ascribed (c : UInt8) : Option Nat :=
  (("0123456789abcdefghijklmnopqrstuvwxyz".toList.map Char.toUInt8).idxOf? c).or
    (("0123456789ABCDEFGHIJKLMNOPQRSTUVWXYZ".toList.map Char.toUInt8).idxOf? c)

/-- A digit or letter whose value is less than the radix. -/
def IsDigit (radix : Nat) (c : UInt8) : Bool := (ascribed c).any (· < radix)

def Digits (radix : Nat) (w : List UInt8) : Prop := w ≠ [] ∧ ∀ c ∈ w, IsDigit radix c

def valueOf (radix : Nat) (w : List UInt8) : Nat := horner radix (w.filterMap ascribed)

/-- The expected form without the sign, and its value: an integer with the radix `base`, with an
optional `0x` for 16 and an optional `0b` for 2; an integer constant for base 0. -/
inductive Numeral : Nat → List UInt8 → Nat → Prop where
  | plain {base : Nat} {w : List UInt8} (hb : 2 ≤ base) (hw : Digits base w) :
    Numeral base w (valueOf base w)
  | decimal {w : List UInt8} (hw : Digits 10 w) (h0 : w[0]? ≠ some '0'.toUInt8) :
    Numeral 0 w (valueOf 10 w)
  | octal {w : List UInt8} (hw : Digits 8 w) (h0 : w[0]? = some '0'.toUInt8) :
    Numeral 0 w (valueOf 8 w)
  | hex {base : Nat} {x : UInt8} {w : List UInt8} (hb : base = 0 ∨ base = 16)
    (hx : x = 'x'.toUInt8 ∨ x = 'X'.toUInt8) (hw : Digits 16 w) :
    Numeral base ('0'.toUInt8 :: x :: w) (valueOf 16 w)
  | binary {base : Nat} {x : UInt8} {w : List UInt8} (hb : base = 0 ∨ base = 2)
    (hx : x = 'b'.toUInt8 ∨ x = 'B'.toUInt8) (hw : Digits 2 w) :
    Numeral base ('0'.toUInt8 :: x :: w) (valueOf 2 w)

/-- The expected form: an optional sign, and whether it is a minus. -/
inductive Subject (base : Nat) : List UInt8 → Bool → Nat → Prop where
  | unsigned {w : List UInt8} {v : Nat} (h : Numeral base w v) : Subject base w false v
  | plus {w : List UInt8} {v : Nat} (h : Numeral base w v) : Subject base ('+'.toUInt8 :: w) false v
  | minus {w : List UInt8} {v : Nat} (h : Numeral base w v) : Subject base ('-'.toUInt8 :: w) true v

/-- The value returned and whether it is a range error, for a sign and a magnitude. -/
abbrev RangeRule := Bool → Nat → Int × Bool

/-- `long` -/
def longRule : RangeRule := fun negative magnitude =>
  let correct : Int := if negative then -magnitude else magnitude
  if correct < -2 ^ 63 then (-2 ^ 63, true)
  else if 2 ^ 63 - 1 < correct then (2 ^ 63 - 1, true)
  else (correct, false)

/-- `unsigned long` and `unsigned long long`: the negation is in the return type. -/
def ulongRule : RangeRule := fun negative magnitude =>
  if 2 ^ 64 ≤ magnitude then (2 ^ 64 - 1, true)
  else (if negative then ((2 ^ 64 - magnitude) % 2 ^ 64 : Nat) else magnitude, false)

/-- **The conversion of the standard**: white space, the subject sequence (the longest initial part
of the expected form), and the rest; without a subject sequence there is no conversion. -/
def C23 (rule : RangeRule) (base : Nat) (nptr : List UInt8) (r : Result) : Prop :=
  ∃ space rest, nptr = space ++ rest ∧ (∀ c ∈ space, asciiSpace c) ∧
    (∀ c, rest.head? = some c → asciiSpace c = false) ∧
    ((∃ w negative magnitude, Subject base w negative magnitude ∧
        LongestPrefix (fun w => ∃ negative magnitude, Subject base w negative magnitude) rest w ∧
        r = ⟨(rule negative magnitude).1, space.length + w.length, (rule negative magnitude).2⟩) ∨
      (∀ w, w <+: rest → ∀ negative magnitude, ¬Subject base w negative magnitude) ∧
        r = ⟨0, 0, false⟩)

/-! ## Digits -/

theorem digitValue_eq (c : UInt8) : digitValue c = ascribed c := by
  by_cases hnone : digitValue c = none
  · -- what is in one of the alphabets is in one of the ranges
    have hlower : ∀ x ∈ "0123456789abcdefghijklmnopqrstuvwxyz".toList.map Char.toUInt8,
        digitValue x ≠ none := by decide +kernel
    have hupper : ∀ x ∈ "0123456789ABCDEFGHIJKLMNOPQRSTUVWXYZ".toList.map Char.toUInt8,
        digitValue x ≠ none := by decide +kernel
    rw [hnone, eq_comm, ascribed, Option.or_eq_none_iff, List.idxOf?_eq_none_iff,
      List.idxOf?_eq_none_iff]
    exact ⟨fun hc => hlower c hc hnone, fun hc => hupper c hc hnone⟩
  · have hall : ∀ n : Fin 256, digitValue (UInt8.ofNat n) ≠ none →
        digitValue (UInt8.ofNat n) = ascribed (UInt8.ofNat n) := by decide +kernel
    have hc := hall ⟨c.toNat, c.toNat_lt⟩
    simp only [UInt8.ofNat_toNat] at hc
    exact hc hnone

/-- The digits at the beginning of `p`. -/
def digitsOf (radix : Nat) (p : List UInt8) : List UInt8 := p.takeWhile (IsDigit radix)

section Digits

variable {radix base n v : Nat} {p w : List UInt8}

theorem digitsOf_initial : digitsOf radix p <+: p := List.takeWhile_prefix _

theorem digitsOf_digits (h : digitsOf radix p ≠ []) : Digits radix (digitsOf radix p) :=
  ⟨h, fun _ hc => List.mem_takeWhile_imp hc⟩

theorem Digits.prefix_digitsOf (hw : Digits radix w) (h : w <+: p) : w <+: digitsOf radix p :=
  prefix_takeWhile h hw.2

/-- The loop over the digits computes the value up to `ULLONG_MAX`. -/
theorem scanDigits_eq (hbase : 2 ≤ base) (hmax : base ≤ 36) (v : Nat) (p : List UInt8) :
    scanDigits base (saturate ULLONG_MAX v).1 (saturate ULLONG_MAX v).2 p =
      let total := hornerFrom base v ((digitsOf base p).filterMap ascribed)
      ((saturate ULLONG_MAX total).1, (saturate ULLONG_MAX total).2, p.drop (digitsOf base p).length) := by
  induction p generalizing v with
  | nil => rfl
  | cons c p ih =>
    rw [scanDigits, digitValue_eq]
    cases hc : ascribed c with
    | none =>
      have hnone : digitsOf base (c :: p) = [] := by simp [digitsOf, IsDigit, hc]
      simp [hnone]
    | some digit =>
      by_cases hd : base ≤ digit
      · have hnone : digitsOf base (c :: p) = [] := by
          simp [digitsOf, IsDigit, hc, Nat.not_lt.2 hd]
        simp [hnone, hd]
      · have hcons : digitsOf base (c :: p) = c :: digitsOf base p := by
          simp [digitsOf, IsDigit, hc, Nat.not_le.1 hd]
        have hfit : digit ≤ ULLONG_MAX := by
          unfold ULLONG_MAX
          omega
        rw [hcons]
        simp only [hd, if_false, List.filterMap_cons, hc, hornerFrom_cons, List.length_cons,
          List.drop_succ_cons]
        rw [← ih (v * base + digit)]
        by_cases hv : v ≤ ULLONG_MAX
        · have hsat : saturate ULLONG_MAX v = (v, false) := if_pos hv
          simp only [hsat, div_lt_iff_lt_mul_add (show 0 < base by omega) hfit]
          by_cases hnext : ULLONG_MAX < v * base + digit
          · rw [if_pos hnext, saturate, if_neg (Nat.not_le.2 hnext)]
          · rw [if_neg hnext, saturate, if_pos (Nat.not_lt.1 hnext)]
            simp
        · -- the value stays at the bound
          have hsat : saturate ULLONG_MAX v = (ULLONG_MAX, true) := if_neg hv
          rw [saturate_above (show 0 < base by omega) (Nat.not_le.1 hv), hsat]
          simp

/-! ## The longest numeral -/

/-- The length and the value of the digits at the beginning. -/
def plain (radix : Nat) (p : List UInt8) : Option (Nat × Nat) :=
  let w := digitsOf radix p
  if w = [] then none else some (w.length, valueOf radix w)

/-- The same behind a mark of two characters. -/
def behindMark (radix : Nat) (p : List UInt8) : Option (Nat × Nat) :=
  (plain radix (p.drop 2)).map fun r => (r.1 + 2, r.2)

/-- The radix of a numeral without a mark. -/
def radixOf (base : Nat) (p : List UInt8) : Nat :=
  if base = 0 then if p[0]? = some '0'.toUInt8 then 8 else 10 else base

/-- A mark with a digit behind it. -/
def Hex (base : Nat) (p : List UInt8) : Prop :=
  (base = 0 ∨ base = 16) ∧ marked 'x' 'X' p ∧ digitsOf 16 (p.drop 2) ≠ []

def Binary (base : Nat) (p : List UInt8) : Prop :=
  (base = 0 ∨ base = 2) ∧ marked 'b' 'B' p ∧ digitsOf 2 (p.drop 2) ≠ []

instance decidableHex (base : Nat) (p : List UInt8) : Decidable (Hex base p) := by
  unfold Hex
  exact inferInstance

instance decidableBinary (base : Nat) (p : List UInt8) : Decidable (Binary base p) := by
  unfold Binary
  exact inferInstance

/-- Length and value of the longest numeral at the beginning of `p`. -/
def numeral (base : Nat) (p : List UInt8) : Option (Nat × Nat) :=
  if Hex base p then behindMark 16 p
  else if Binary base p then behindMark 2 p
  else plain (radixOf base p) p

theorem plain_sound (h : plain radix p = some (n, v)) :
    n ≤ p.length ∧ Digits radix (p.take n) ∧ v = valueOf radix (p.take n) := by
  simp only [plain] at h
  split at h
  · cases h
  · rename_i hne
    cases h
    have htake : p.take (digitsOf radix p).length = digitsOf radix p :=
      (List.prefix_iff_eq_take.1 digitsOf_initial).symm
    rw [htake]
    exact ⟨digitsOf_initial.length_le, digitsOf_digits hne, rfl⟩

/-- Nothing longer is made of digits. -/
theorem plain_complete (hw : Digits radix w) (h : w <+: p) :
    ∃ n v, plain radix p = some (n, v) ∧ w.length ≤ n ∧
      (n ≤ w.length → v = valueOf radix w) := by
  have hpre := hw.prefix_digitsOf h
  have hne : digitsOf radix p ≠ [] := by
    intro hnil
    rw [hnil, List.prefix_nil] at hpre
    exact hw.1 hpre
  refine ⟨_, _, if_neg hne, hpre.length_le, fun hle => ?_⟩
  rw [hpre.eq_of_length_le hle]

/-- A mark is two characters, of which the second is not a digit of the radix. -/
theorem marked_iff {lower upper : Char} :
    marked lower upper p ↔ ∃ x q, p = '0'.toUInt8 :: x :: q ∧
      (x = lower.toUInt8 ∨ x = upper.toUInt8) := by
  unfold marked
  match p with
  | [] => simp
  | [c] => simp
  | c :: x :: q => simp

/-- Digits end before a character that is not one. -/
theorem digits_length_le {c x : UInt8} {q : List UInt8} (hx : IsDigit radix x = false)
    (hw : Digits radix w) (h : w <+: c :: x :: q) : w.length ≤ 1 := by
  have hpre := hw.prefix_digitsOf h
  have hle : (digitsOf radix (c :: x :: q)).length ≤ 1 := by
    unfold digitsOf
    rw [List.takeWhile_cons]
    split
    · rw [List.takeWhile_cons_of_neg (by simp [hx])]
      simp
    · simp
  exact hpre.length_le.trans hle

theorem behindMark_sound (h : behindMark radix p = some (n, v)) :
    ∃ k, n = k + 2 ∧ plain radix (p.drop 2) = some (k, v) := by
  simp only [behindMark, Option.map_eq_some_iff] at h
  obtain ⟨⟨k, v'⟩, hplain, heq⟩ := h
  cases heq
  exact ⟨k, rfl, hplain⟩

theorem not_isDigit_x {x : UInt8} (hradix : radix ≤ 16)
    (hx : x = 'x'.toUInt8 ∨ x = 'X'.toUInt8) : IsDigit radix x = false := by
  have h33 : ascribed x = some 33 := by
    rcases hx with rfl | rfl
    · decide
    · decide
  simp [IsDigit, h33]
  omega

theorem not_isDigit_b {x : UInt8} (hradix : radix ≤ 11)
    (hx : x = 'b'.toUInt8 ∨ x = 'B'.toUInt8) : IsDigit radix x = false := by
  have h11 : ascribed x = some 11 := by
    rcases hx with rfl | rfl
    · decide
    · decide
  simp [IsDigit, h11]
  omega

/-- Only one mark. -/
theorem not_marked_b (h : marked 'x' 'X' p) : ¬marked 'b' 'B' p := by
  intro h'
  obtain ⟨x, q, rfl, hx⟩ := marked_iff.1 h
  obtain ⟨y, q', heq, hy⟩ := marked_iff.1 h'
  cases heq
  rcases hx with rfl | rfl
  · revert hy
    decide
  · revert hy
    decide

theorem getElem?_zero_of_prefix (hw : w ≠ []) (h : w <+: p) : p[0]? = w[0]? := by
  obtain ⟨t, rfl⟩ := h
  cases w with
  | nil => exact absurd rfl hw
  | cons c w => rfl

theorem numeral_sound (hbase : base = 0 ∨ 2 ≤ base) (h : numeral base p = some (n, v)) :
    n ≤ p.length ∧ Numeral base (p.take n) v := by
  unfold numeral at h
  split at h
  · rename_i hmark
    obtain ⟨hb, hmark, -⟩ := hmark
    obtain ⟨x, q, rfl, hx⟩ := marked_iff.1 hmark
    obtain ⟨k, rfl, hplain⟩ := behindMark_sound h
    obtain ⟨hle, hdigits, rfl⟩ := plain_sound hplain
    exact ⟨Nat.add_le_add_right hle 2, .hex hb hx hdigits⟩
  · split at h
    · rename_i hmark
      obtain ⟨hb, hmark, -⟩ := hmark
      obtain ⟨x, q, rfl, hx⟩ := marked_iff.1 hmark
      obtain ⟨k, rfl, hplain⟩ := behindMark_sound h
      obtain ⟨hle, hdigits, rfl⟩ := plain_sound hplain
      exact ⟨Nat.add_le_add_right hle 2, .binary hb hx hdigits⟩
    · obtain ⟨hle, hdigits, rfl⟩ := plain_sound h
      refine ⟨hle, ?_⟩
      have hhead := getElem?_zero_of_prefix hdigits.1 (List.take_prefix n p)
      rcases hbase with rfl | hbase
      · by_cases h0 : p[0]? = some '0'.toUInt8
        · have hradix : radixOf 0 p = 8 := by simp [radixOf, h0]
          rw [hradix] at hdigits ⊢
          exact .octal hdigits (hhead ▸ h0)
        · have hradix : radixOf 0 p = 10 := by simp [radixOf, h0]
          rw [hradix] at hdigits ⊢
          exact .decimal hdigits (hhead ▸ h0)
      · have hradix : radixOf base p = base := if_neg (by omega)
        rw [hradix] at hdigits ⊢
        exact .plain hbase hdigits

/-- Behind a mark there is more than the `0` before it. -/
theorem behindMark_complete {r : Nat} {lower upper : Char} (hmark : marked lower upper p)
    (hradix : ∀ x, x = lower.toUInt8 ∨ x = upper.toUInt8 → IsDigit radix x = false)
    (hne : digitsOf r (p.drop 2) ≠ []) (hw : Digits radix w) (h : w <+: p) :
    ∃ n v, behindMark r p = some (n, v) ∧ w.length < n := by
  obtain ⟨x, q, rfl, hx⟩ := marked_iff.1 hmark
  have hlen := digits_length_le (hradix x hx) hw h
  refine ⟨(digitsOf r q).length + 2, valueOf r (digitsOf r q), ?_, by omega⟩
  have hplain : plain r q = some ((digitsOf r q).length, valueOf r (digitsOf r q)) := if_neg hne
  simp [behindMark, hplain]

/-- A numeral without a mark. -/
theorem digits_complete (hw : Digits (radixOf base p) w) (h : w <+: p) :
    ∃ n v, numeral base p = some (n, v) ∧ w.length ≤ n ∧
      (n ≤ w.length → v = valueOf (radixOf base p) w) := by
  unfold numeral
  split
  · rename_i hmark
    have hradix : radixOf base p ≤ 16 := by
      rcases hmark.1 with rfl | rfl
      · unfold radixOf
        split
        · split <;> omega
        · omega
      · simp [radixOf]
    obtain ⟨n, v, heq, hlt⟩ :=
      behindMark_complete hmark.2.1 (fun _ hx => not_isDigit_x hradix hx) hmark.2.2 hw h
    exact ⟨n, v, heq, Nat.le_of_lt hlt, fun hle => absurd hle (Nat.not_le.2 hlt)⟩
  · split
    · rename_i hmark
      have hradix : radixOf base p ≤ 11 := by
        rcases hmark.1 with rfl | rfl
        · unfold radixOf
          split
          · split <;> omega
          · omega
        · simp [radixOf]
      obtain ⟨n, v, heq, hlt⟩ :=
        behindMark_complete hmark.2.1 (fun _ hx => not_isDigit_b hradix hx) hmark.2.2 hw h
      exact ⟨n, v, heq, Nat.le_of_lt hlt, fun hle => absurd hle (Nat.not_le.2 hlt)⟩
    · exact plain_complete hw h

/-- A numeral with a mark. -/
theorem mark_complete {r : Nat} {x : UInt8} (hw : Digits r w)
    (h : ('0'.toUInt8 :: x :: w) <+: p) :
    p[1]? = some x ∧ p[0]? = some '0'.toUInt8 ∧ digitsOf r (p.drop 2) ≠ [] ∧
      ∃ n v, behindMark r p = some (n, v) ∧ w.length + 2 ≤ n ∧
        (n ≤ w.length + 2 → v = valueOf r w) := by
  obtain ⟨t, rfl⟩ := h
  have hpre : w <+: w ++ t := List.prefix_append w t
  obtain ⟨k, v, hplain, hle, hval⟩ := plain_complete hw hpre
  have hne : digitsOf r (w ++ t) ≠ [] := by
    intro hnil
    simp [plain, hnil] at hplain
  refine ⟨rfl, rfl, hne, k + 2, v, ?_, Nat.add_le_add_right hle 2, fun h => hval (by omega)⟩
  simp [behindMark, hplain]

theorem numeral_complete (h : Numeral base w v) (hp : w <+: p) :
    ∃ n v', numeral base p = some (n, v') ∧ w.length ≤ n ∧ (n ≤ w.length → v' = v) := by
  cases h with
  | plain hb hw =>
    have hradix : radixOf base p = base := if_neg (by omega)
    rw [← hradix] at hw
    obtain ⟨n, v', heq, hle, hval⟩ := digits_complete hw hp
    rw [hradix] at hval
    exact ⟨n, v', heq, hle, hval⟩
  | decimal hw h0 =>
    rw [← getElem?_zero_of_prefix hw.1 hp] at h0
    have hradix : radixOf 0 p = 10 := by simp [radixOf, h0]
    rw [← hradix] at hw ⊢
    exact digits_complete hw hp
  | octal hw h0 =>
    rw [← getElem?_zero_of_prefix hw.1 hp] at h0
    have hradix : radixOf 0 p = 8 := by simp [radixOf, h0]
    rw [← hradix] at hw ⊢
    exact digits_complete hw hp
  | hex hb hx hw =>
    obtain ⟨h1, h0, hne, hcomplete⟩ := mark_complete hw hp
    have hmark : marked 'x' 'X' p := by
      refine ⟨h0, ?_⟩
      rw [h1]
      rcases hx with rfl | rfl
      · exact Or.inl rfl
      · exact Or.inr rfl
    rw [numeral, if_pos ⟨hb, hmark, hne⟩]
    exact hcomplete
  | binary hb hx hw =>
    obtain ⟨h1, h0, hne, hcomplete⟩ := mark_complete hw hp
    have hmark : marked 'b' 'B' p := by
      refine ⟨h0, ?_⟩
      rw [h1]
      rcases hx with rfl | rfl
      · exact Or.inl rfl
      · exact Or.inr rfl
    rw [numeral, if_neg (fun hhex => not_marked_b hhex.2.1 hmark), if_pos ⟨hb, hmark, hne⟩]
    exact hcomplete

end Digits

/-! ## The conversion as a function -/

def c23 (rule : RangeRule) (base : Nat) (nptr : List UInt8) : Result :=
  let (negative, p) := skipSign (nptr.dropWhile asciiSpace)
  match numeral base p with
  | none => ⟨0, 0, false⟩
  | some (n, v) => ⟨(rule negative v).1, nptr.length - p.length + n, (rule negative v).2⟩

section Conversion

variable {rule : RangeRule} {base : Nat} {nptr rest w u : List UInt8} {v : Nat}

theorem numeral_head (h : Numeral base w v) : ∃ c t, w = c :: t ∧ ascribed c ≠ none := by
  have hdigits : ∀ {radix : Nat} {w : List UInt8}, Digits radix w →
      ∃ c t, w = c :: t ∧ ascribed c ≠ none := by
    intro radix w ⟨hne, hall⟩
    cases w with
    | nil => exact absurd rfl hne
    | cons c t =>
      refine ⟨c, t, rfl, fun hnone => ?_⟩
      have hc := hall c List.mem_cons_self
      simp [IsDigit, hnone] at hc
  cases h with
  | plain _ hw => exact hdigits hw
  | decimal hw _ => exact hdigits hw
  | octal hw _ => exact hdigits hw
  | hex _ _ _ => exact ⟨_, _, rfl, by decide⟩
  | binary _ _ _ => exact ⟨_, _, rfl, by decide⟩

/-- What a hexadecimal digit is not. -/
theorem hexDigit_ne {c : UInt8} (hc : IsDigit 16 c) :
    asciiSpace c = false ∧ ¬(c = '+'.toUInt8 ∨ c = '-'.toUInt8) ∧ c ≠ 0 ∧
      ¬(c = 'x'.toUInt8 ∨ c = 'X'.toUInt8) := by
  have hall : ∀ n : Fin 256, (digitValue (UInt8.ofNat n)).any (· < 16) →
      asciiSpace (UInt8.ofNat n) = false ∧
        ¬(UInt8.ofNat n = '+'.toUInt8 ∨ UInt8.ofNat n = '-'.toUInt8) ∧ UInt8.ofNat n ≠ 0 ∧
        ¬(UInt8.ofNat n = 'x'.toUInt8 ∨ UInt8.ofNat n = 'X'.toUInt8) := by decide +kernel
  have h := hall ⟨c.toNat, c.toNat_lt⟩
  simp only [UInt8.ofNat_toNat, digitValue_eq] at h
  exact h hc

theorem skipSign_sign {c : UInt8} (q : List UInt8) (h : c = '+'.toUInt8 ∨ c = '-'.toUInt8) :
    skipSign (c :: q) = (decide (c = '-'.toUInt8), q) := if_pos h

theorem skipSign_other {c : UInt8} (q : List UInt8) (h : ¬(c = '+'.toUInt8 ∨ c = '-'.toUInt8)) :
    skipSign (c :: q) = (false, c :: q) := if_neg h

theorem skipSign_length : (skipSign rest).2.length ≤ rest.length := by
  cases rest with
  | nil => exact Nat.le_refl _
  | cons c q =>
    by_cases hc : c = '+'.toUInt8 ∨ c = '-'.toUInt8
    · rw [skipSign_sign q hc]
      exact Nat.le_succ _
    · rw [skipSign_other q hc]

/-- A numeral behind the sign is a subject sequence with it. -/
theorem subject_of_numeral (h : Numeral base u v) (hu : u <+: (skipSign rest).2) :
    ∃ w, w <+: rest ∧ Subject base w (skipSign rest).1 v ∧
      w.length = rest.length - (skipSign rest).2.length + u.length := by
  cases rest with
  | nil => exact ⟨u, hu, .unsigned h, by simp [skipSign]⟩
  | cons c q =>
    by_cases hc : c = '+'.toUInt8 ∨ c = '-'.toUInt8
    · rw [skipSign_sign q hc] at hu ⊢
      have hlen : (c :: u).length = (c :: q).length - q.length + u.length := by
        simp only [List.length_cons]
        omega
      refine ⟨c :: u, (List.prefix_cons_inj c).2 hu, ?_, hlen⟩
      rcases hc with rfl | rfl
      · exact .plus h
      · exact .minus h
    · rw [skipSign_other q hc] at hu ⊢
      exact ⟨u, hu, .unsigned h, by simp⟩

/-- A subject sequence has the sign, and a numeral behind it. -/
theorem numeral_of_subject {negative : Bool} (h : Subject base w negative v) (hw : w <+: rest) :
    negative = (skipSign rest).1 ∧ ∃ u, u <+: (skipSign rest).2 ∧ Numeral base u v ∧
      w.length = rest.length - (skipSign rest).2.length + u.length := by
  have hlen : ∀ (c : UInt8) (u q : List UInt8),
      (c :: u).length = (c :: q).length - q.length + u.length := by
    intro c u q
    simp only [List.length_cons]
    omega
  have hplus : skipSign ('+'.toUInt8 :: rest.tail) = (false, rest.tail) := by
    exact skipSign_sign _ (Or.inl rfl)
  have hminus : skipSign ('-'.toUInt8 :: rest.tail) = (true, rest.tail) := by
    exact skipSign_sign _ (Or.inr rfl)
  cases h with
  | unsigned h =>
    obtain ⟨c, t, rfl, hc⟩ := numeral_head h
    obtain ⟨t', rfl⟩ := hw
    have hsign : ¬(c = '+'.toUInt8 ∨ c = '-'.toUInt8) := by
      rintro (rfl | rfl)
      · exact hc (by decide)
      · exact hc (by decide)
    rw [List.cons_append, skipSign_other _ hsign]
    exact ⟨rfl, c :: t, List.prefix_append _ _, h, by simp⟩
  | plus h =>
    obtain ⟨t, rfl⟩ := hw
    simp only [List.cons_append, List.tail_cons] at hplus ⊢
    rw [hplus]
    exact ⟨rfl, _, List.prefix_append _ _, h, hlen _ _ _⟩
  | minus h =>
    obtain ⟨t, rfl⟩ := hw
    simp only [List.cons_append, List.tail_cons] at hminus ⊢
    rw [hminus]
    exact ⟨rfl, _, List.prefix_append _ _, h, hlen _ _ _⟩

/-- The longest subject sequence, when there is one. -/
theorem longest_subject (hbase : base = 0 ∨ 2 ≤ base) {n : Nat}
    (h : numeral base (skipSign rest).2 = some (n, v)) :
    ∃ w, Subject base w (skipSign rest).1 v ∧
      LongestPrefix (fun w => ∃ negative v, Subject base w negative v) rest w ∧
      w.length = rest.length - (skipSign rest).2.length + n := by
  obtain ⟨hle, hnum⟩ := numeral_sound hbase h
  obtain ⟨w, hw, hsubject, hlen⟩ := subject_of_numeral hnum (List.take_prefix n _)
  rw [List.length_take, Nat.min_eq_left hle] at hlen
  refine ⟨w, hsubject, ⟨hw, ⟨_, _, hsubject⟩, ?_⟩, hlen⟩
  intro w' hw' ⟨negative, v', h'⟩
  obtain ⟨-, u, hu, hnum', hlen'⟩ := numeral_of_subject h' hw'
  obtain ⟨n', v'', heq, hle', -⟩ := numeral_complete hnum' hu
  rw [h] at heq
  cases heq
  omega

/-- **The standard allows one result.** -/
theorem c23_iff (hbase : base = 0 ∨ 2 ≤ base) {r : Result} :
    C23 rule base nptr r ↔ r = c23 rule base nptr := by
  have hsplit : nptr = nptr.takeWhile asciiSpace ++ nptr.dropWhile asciiSpace :=
    List.takeWhile_append_dropWhile.symm
  have hoff : ∀ rest : List UInt8, nptr.dropWhile asciiSpace = rest →
      (nptr.takeWhile asciiSpace).length + (rest.length - (skipSign rest).2.length) =
        nptr.length - (skipSign rest).2.length := by
    rintro rest rfl
    have hle := @skipSign_length (nptr.dropWhile asciiSpace)
    have hlen := congrArg List.length hsplit
    rw [List.length_append] at hlen
    omega
  unfold c23
  constructor
  · rintro ⟨space, rest, heq, hspace, hrest, h⟩
    obtain ⟨htake, hdrop⟩ := takeWhile_dropWhile_unique hspace hrest
    rw [← heq] at htake hdrop
    have hoff := hoff rest hdrop
    rw [hdrop]
    rw [htake] at hoff
    simp only
    rcases h with ⟨w, negative, v, hsubject, hlongest, rfl⟩ | ⟨hnone, rfl⟩
    · obtain ⟨rfl, u, hu, hnum, hlen⟩ := numeral_of_subject hsubject hlongest.isPrefix
      obtain ⟨n, v', hn, hle, hval⟩ := numeral_complete hnum hu
      obtain ⟨w', hsubject', hlongest', hlen'⟩ := longest_subject hbase hn
      obtain rfl := hlongest.unique hlongest'
      obtain rfl := hval (by omega)
      rw [hn]
      simp only
      rw [hlen', ← Nat.add_assoc, hoff]
    · cases hn : numeral base (skipSign rest).2 with
      | none => rfl
      | some r =>
        obtain ⟨w, hsubject, hlongest, -⟩ := longest_subject hbase hn
        exact absurd hsubject (hnone w hlongest.isPrefix _ _)
  · rintro rfl
    have hhead : ∀ c, (nptr.dropWhile asciiSpace).head? = some c → asciiSpace c = false := by
      intro c hc
      have hnot := List.head?_dropWhile_not asciiSpace nptr
      rw [hc] at hnot
      simpa using hnot
    refine ⟨_, _, hsplit, fun c hc => List.mem_takeWhile_imp hc, hhead, ?_⟩
    simp only
    cases hn : numeral base (skipSign (nptr.dropWhile asciiSpace)).2 with
    | none =>
      refine Or.inr ⟨fun w hw negative v hsubject => ?_, rfl⟩
      obtain ⟨-, u, hu, hnum, -⟩ := numeral_of_subject hsubject hw
      obtain ⟨n, v', hsome, -⟩ := numeral_complete hnum hu
      rw [hn] at hsome
      cases hsome
    | some r =>
      obtain ⟨w, hsubject, hlongest, hlen⟩ := longest_subject hbase hn
      refine Or.inl ⟨w, _, _, hsubject, hlongest, ?_⟩
      rw [hlen, ← Nat.add_assoc, hoff _ rfl]

end Conversion

/-! ## Where the functions agree with the standard -/

/-- The sign, and the string behind white space and the sign. -/
def number (nptr : List UInt8) : Bool × List UInt8 := skipSign (nptr.dropWhile asciiSpace)

/-- `0x` without a hexadecimal digit behind it. -/
def BareHex (base : Nat) (nptr : List UInt8) : Prop :=
  (base = 0 ∨ base = 16) ∧ marked 'x' 'X' (number nptr).2 ∧
    digitsOf 16 ((number nptr).2.drop 2) = []

/-- `0b` with a binary digit behind it. -/
def BinaryPrefix (base : Nat) (nptr : List UInt8) : Prop := Binary base (number nptr).2

/-- A minus sign before a magnitude of 65 bits or more. -/
def NegativeOverflow (base : Nat) (nptr : List UInt8) : Prop :=
  (number nptr).1 ∧ ∃ n v, numeral base (number nptr).2 = some (n, v) ∧ 2 ^ 64 ≤ v

/-- What the scanner takes for a numeral. -/
def scanned (base : Nat) (p : List UInt8) : Option (Nat × Nat) :=
  let (radix, q) := chooseBase base p
  (plain radix q).map fun r => (p.length - q.length + r.1, r.2)

section Agree

variable {base n v : Nat} {nptr p : List UInt8} {rule : RangeRule} {f : Result}

theorem chooseBase_spec (hbase : base = 0 ∨ 2 ≤ base) (hmax : base ≤ 36) :
    2 ≤ (chooseBase base p).1 ∧ (chooseBase base p).1 ≤ 36 ∧
      (chooseBase base p).2.length ≤ p.length := by
  have hdrop : (p.drop 2).length ≤ p.length := by
    rw [List.length_drop]
    exact Nat.sub_le _ _
  unfold chooseBase
  split
  · split
    · exact ⟨Nat.le_add_left 2 14, Nat.le_add_left 16 20, hdrop⟩
    · split
      · exact ⟨Nat.le_add_left 2 6, Nat.le_add_left 8 28, Nat.le_refl _⟩
      · exact ⟨Nat.le_add_left 2 8, Nat.le_add_left 10 26, Nat.le_refl _⟩
  · have h2 : 2 ≤ base := by omega
    split
    · exact ⟨h2, hmax, hdrop⟩
    · exact ⟨h2, hmax, Nat.le_refl _⟩

/-- **What the scanner computes.** -/
theorem parseUnsignedCompat_eq (hbase : base = 0 ∨ 2 ≤ base) (hmax : base ≤ 36) :
    parseUnsignedCompat nptr base =
      match scanned base (number nptr).2 with
      | none => ⟨0, 0, (number nptr).1, false⟩
      | some (n, v) => ⟨(saturate ULLONG_MAX v).1, nptr.length - (number nptr).2.length + n,
          (number nptr).1, (saturate ULLONG_MAX v).2⟩ := by
  obtain ⟨h2, h36, hle⟩ := chooseBase_spec (p := (number nptr).2) hbase hmax
  have hscan := scanDigits_eq h2 h36 0 (chooseBase base (number nptr).2).2
  have hzero : saturate ULLONG_MAX 0 = (0, false) := if_pos (Nat.zero_le _)
  have hnumber : (number nptr).2.length ≤ nptr.length :=
    skipSign_length.trans (List.length_dropWhile_le _ _)
  have hsign : skipSign (nptr.dropWhile asciiSpace) = number nptr := rfl
  rw [hzero] at hscan
  simp only [parseUnsignedCompat, scanned, hsign, hscan]
  generalize (chooseBase base (number nptr).2).1 = radix at *
  generalize (chooseBase base (number nptr).2).2 = q at *
  have hdigits : (digitsOf radix q).length ≤ q.length := digitsOf_initial.length_le
  by_cases hnil : digitsOf radix q = []
  · simp [plain, hnil]
  · have hpos : 0 < (digitsOf radix q).length := List.length_pos_iff.2 hnil
    have hplain : plain radix q = some ((digitsOf radix q).length, valueOf radix (digitsOf radix q)) :=
      if_neg hnil
    rw [hplain, List.length_drop, if_neg (by omega)]
    simp only [Option.map_some]
    congr 1
    omega

/-- Without a mark, or with `0x` and a digit, the scanner takes the longest numeral. -/
theorem scanned_eq (hhex : ¬BareHex base nptr) (hbinary : ¬BinaryPrefix base nptr) :
    scanned base (number nptr).2 = numeral base (number nptr).2 := by
  unfold BareHex at hhex
  unfold BinaryPrefix at hbinary
  generalize (number nptr).2 = p at *
  rw [numeral, scanned]
  by_cases hmark : (base = 0 ∨ base = 16) ∧ marked 'x' 'X' p
  · have hne : digitsOf 16 (p.drop 2) ≠ [] := fun hnil => hhex ⟨hmark.1, hmark.2, hnil⟩
    have hchoose : chooseBase base p = (16, p.drop 2) := by
      rcases hmark with ⟨rfl | rfl, hx⟩
      · simp [chooseBase, hx]
      · simp [chooseBase, hx]
    obtain ⟨x, q, rfl, -⟩ := marked_iff.1 hmark.2
    have hlen : ('0'.toUInt8 :: x :: q).length - (('0'.toUInt8 :: x :: q).drop 2).length = 2 :=
      Nat.add_sub_cancel_left q.length 2
    rw [hchoose, if_pos ⟨hmark.1, hmark.2, hne⟩, behindMark]
    simp only [hlen, Nat.add_comm]
  · have hchoose : chooseBase base p = (radixOf base p, p) := by
      unfold chooseBase radixOf
      by_cases h0 : base = 0
      · rw [if_pos h0, if_pos h0, if_neg fun hx => hmark ⟨Or.inl h0, hx⟩]
        split <;> rfl
      · rw [if_neg h0, if_neg h0, if_neg fun hx => hmark ⟨Or.inr hx.1, hx.2⟩]
    rw [hchoose, if_neg fun h => hmark ⟨h.1, h.2.1⟩, if_neg hbinary]
    simp

/-- The `0` before a mark is a numeral of its own in a radix that the mark is not a digit of. -/
theorem plain_zero {radix : Nat} {x : UInt8} {q : List UInt8} (hradix : 0 < radix)
    (hx : IsDigit radix x = false) : plain radix ('0'.toUInt8 :: x :: q) = some (1, 0) := by
  have hzero : ascribed '0'.toUInt8 = some 0 := by decide
  have hdigit : IsDigit radix '0'.toUInt8 = true := by simp [IsDigit, hzero, hradix]
  have hdigits : digitsOf radix ('0'.toUInt8 :: x :: q) = ['0'.toUInt8] := by
    rw [digitsOf, List.takeWhile_cons_of_pos hdigit, List.takeWhile_cons_of_neg (by simp [hx])]
  simp only [plain, hdigits]
  rw [if_neg (List.cons_ne_nil _ _)]
  simp [valueOf, hzero, horner]

/-- The scanner skips the mark and finds nothing; the numeral is the `0`. -/
theorem scanned_bareHex (h : BareHex base nptr) :
    scanned base (number nptr).2 = none ∧ numeral base (number nptr).2 = some (1, 0) := by
  obtain ⟨hb, hmark, hnil⟩ := h
  generalize (number nptr).2 = p at *
  have hchoose : chooseBase base p = (16, p.drop 2) := by
    rcases hb with rfl | rfl
    · simp [chooseBase, hmark]
    · simp [chooseBase, hmark]
  refine ⟨by simp [scanned, hchoose, plain, hnil], ?_⟩
  rw [numeral, if_neg fun hhex => hhex.2.2 hnil, if_neg fun hbin => not_marked_b hmark hbin.2.1]
  obtain ⟨x, q, rfl, hx⟩ := marked_iff.1 hmark
  have hradix : 0 < radixOf base ('0'.toUInt8 :: x :: q) ∧
      radixOf base ('0'.toUInt8 :: x :: q) ≤ 16 := by
    rcases hb with rfl | rfl
    · simp [radixOf]
    · simp [radixOf]
  exact plain_zero hradix.1 (not_isDigit_x hradix.2 hx)

/-- The scanner stops at the mark; the numeral goes on behind it. -/
theorem scanned_binaryPrefix (h : BinaryPrefix base nptr) :
    scanned base (number nptr).2 = some (1, 0) ∧
      ∃ n v, numeral base (number nptr).2 = some (n, v) ∧ 2 ≤ n := by
  obtain ⟨hb, hmark, hne⟩ := h
  generalize (number nptr).2 = p at *
  have hx : ¬marked 'x' 'X' p := fun hx => not_marked_b hx hmark
  obtain ⟨b, q, rfl, hb'⟩ := marked_iff.1 hmark
  have hchoose : ∃ radix, chooseBase base ('0'.toUInt8 :: b :: q) = (radix, '0'.toUInt8 :: b :: q) ∧
      0 < radix ∧ radix ≤ 11 := by
    rcases hb with rfl | rfl
    · exact ⟨8, by simp [chooseBase, hx], by decide, by decide⟩
    · exact ⟨2, by simp [chooseBase], by decide, by decide⟩
  obtain ⟨radix, hchoose, hpos, hle⟩ := hchoose
  have hplain := @plain_zero radix b q hpos (not_isDigit_b hle hb')
  refine ⟨by simp [scanned, hchoose, hplain], ?_⟩
  have hdigits : plain 2 q = some ((digitsOf 2 q).length, valueOf 2 (digitsOf 2 q)) := if_neg hne
  refine ⟨(digitsOf 2 q).length + 2, valueOf 2 (digitsOf 2 q), ?_, Nat.le_add_left 2 _⟩
  rw [numeral, if_neg fun hhex => hx hhex.2.1, if_pos ⟨hb, hmark, hne⟩, behindMark]
  show (plain 2 q).map _ = _
  rw [hdigits]
  rfl

/-- A wrapper keeps the end pointer of the scanner, so it can only agree if the scanner has taken the
longest numeral. -/
theorem agrees_iff (hnone : scanned base (number nptr).2 = none → f = ⟨0, 0, false⟩)
    (hstop : ∀ n v, scanned base (number nptr).2 = some (n, v) →
      f.stop = nptr.length - (number nptr).2.length + n) :
    f = c23 rule base nptr ↔ ¬BareHex base nptr ∧ ¬BinaryPrefix base nptr ∧
      ∀ n v, numeral base (number nptr).2 = some (n, v) →
        f.value = (rule (number nptr).1 v).1 ∧ f.erange = (rule (number nptr).1 v).2 := by
  have hc23 : c23 rule base nptr = match numeral base (number nptr).2 with
      | none => ⟨0, 0, false⟩
      | some (n, v) => ⟨(rule (number nptr).1 v).1, nptr.length - (number nptr).2.length + n,
          (rule (number nptr).1 v).2⟩ := rfl
  rw [hc23]
  by_cases hhex : BareHex base nptr
  · obtain ⟨hscan, hnum⟩ := scanned_bareHex hhex
    refine iff_of_false (fun heq => ?_) (fun h => h.1 hhex)
    rw [hnum, hnone hscan, Result.mk.injEq] at heq
    omega
  by_cases hbinary : BinaryPrefix base nptr
  · obtain ⟨hscan, n, v, hnum, hn⟩ := scanned_binaryPrefix hbinary
    refine iff_of_false (fun heq => ?_) (fun h => h.2.1 hbinary)
    have hstop := hstop _ _ hscan
    rw [hnum] at heq
    rw [heq] at hstop
    simp only at hstop
    omega
  have hscan := scanned_eq hhex hbinary
  rw [hscan] at hnone hstop
  cases hnum : numeral base (number nptr).2 with
  | none => exact iff_of_true (hnone hnum) ⟨hhex, hbinary, by simp⟩
  | some r =>
    obtain ⟨n, v⟩ := r
    have hstop := hstop n v hnum
    constructor
    · intro heq
      refine ⟨hhex, hbinary, fun n' v' hsome => ?_⟩
      cases hsome
      rw [heq]
      exact ⟨rfl, rfl⟩
    · intro h
      obtain ⟨hvalue, herange⟩ := h.2.2 n v rfl
      cases f
      simp only at hvalue herange hstop
      rw [hvalue, herange, hstop]

/-! ### The three functions -/

theorem strtol_none (hbase : base = 0 ∨ 2 ≤ base) (hmax : base ≤ 36)
    (h : scanned base (number nptr).2 = none) : isoc23Strtol nptr base = ⟨0, 0, false⟩ := by
  rw [isoc23Strtol, parseUnsignedCompat_eq hbase hmax, h]
  cases (number nptr).1 with
  | false => rfl
  | true => rfl

/-- `long` has room for what is above `ULLONG_MAX` to be told apart. -/
theorem strtol_some (hbase : base = 0 ∨ 2 ≤ base) (hmax : base ≤ 36)
    (h : scanned base (number nptr).2 = some (n, v)) :
    isoc23Strtol nptr base = ⟨(longRule (number nptr).1 v).1,
      nptr.length - (number nptr).2.length + n, (longRule (number nptr).1 v).2⟩ := by
  rw [isoc23Strtol, parseUnsignedCompat_eq hbase hmax, h]
  have hLONG : LONG_MAX = 2 ^ 63 - 1 := rfl
  have hULLONG : ULLONG_MAX = 2 ^ 64 - 1 := rfl
  simp only [longRule]
  cases (number nptr).1 with
  | false =>
    simp only [Bool.false_eq_true, if_false]
    by_cases hv : v ≤ ULLONG_MAX
    · have hsat : saturate ULLONG_MAX v = (v, false) := if_pos hv
      rw [hsat]
      by_cases hlong : LONG_MAX < v
      · rw [if_pos hlong, if_neg (by omega), if_pos (by omega)]
        rfl
      · rw [if_neg hlong, if_neg (by omega), if_neg (by omega)]
    · have hsat : saturate ULLONG_MAX v = (ULLONG_MAX, true) := if_neg hv
      rw [hsat, if_pos (by decide), if_neg (by omega), if_pos (by omega)]
      rfl
  | true =>
    simp only [if_true]
    by_cases hv : v ≤ ULLONG_MAX
    · have hsat : saturate ULLONG_MAX v = (v, false) := if_pos hv
      rw [hsat]
      by_cases hlong : LONG_MAX + 1 < v
      · rw [if_pos hlong, if_pos (by omega)]
        rfl
      · rw [if_neg hlong, if_neg (show ¬(-(v : Int) < -2 ^ 63) by omega),
          if_neg (show ¬(2 ^ 63 - 1 < -(v : Int)) by omega)]
        by_cases hmin : v = LONG_MAX + 1
        · rw [if_pos hmin, hmin]
          rfl
        · rw [if_neg hmin]
    · have hsat : saturate ULLONG_MAX v = (ULLONG_MAX, true) := if_neg hv
      rw [hsat, if_pos (by decide), if_pos (by omega)]
      rfl

theorem strtol_agrees (hbase : base = 0 ∨ 2 ≤ base) (hmax : base ≤ 36) :
    isoc23Strtol nptr base = c23 longRule base nptr ↔
      ¬BareHex base nptr ∧ ¬BinaryPrefix base nptr := by
  rw [agrees_iff (strtol_none hbase hmax) fun n v h => by rw [strtol_some hbase hmax h]]
  constructor
  · exact fun h => ⟨h.1, h.2.1⟩
  · intro ⟨hhex, hbinary⟩
    refine ⟨hhex, hbinary, fun n v hnum => ?_⟩
    rw [strtol_some hbase hmax ((scanned_eq hhex hbinary).trans hnum)]
    exact ⟨rfl, rfl⟩

/-- What the two unsigned conversions make of the scanner's result. -/
def unsignedOf (negative : Bool) (v : Nat) : Int :=
  if negative then ((2 ^ 64 - (saturate ULLONG_MAX v).1) % 2 ^ 64 : Nat) else (saturate ULLONG_MAX v).1

/-- The unsigned conversions with a numeral. -/
def Unsigned (f : List UInt8 → Nat → Result) : Prop :=
  ∀ nptr base, base = 0 ∨ 2 ≤ base → base ≤ 36 →
    f nptr base = match scanned base (number nptr).2 with
      | none => ⟨0, 0, false⟩
      | some (n, v) => ⟨unsignedOf (number nptr).1 v, nptr.length - (number nptr).2.length + n,
          (saturate ULLONG_MAX v).2⟩

theorem saturate_lt : (saturate ULLONG_MAX v).1 < 2 ^ 64 := by
  unfold saturate ULLONG_MAX
  split <;> omega

theorem strtoul_unsigned : Unsigned isoc23Strtoul := by
  intro nptr base hbase hmax
  rw [isoc23Strtoul, parseUnsignedCompat_eq hbase hmax]
  cases scanned base (number nptr).2 with
  | none =>
    cases (number nptr).1 with
    | false => rfl
    | true => simp [ULONG_MAX]
  | some r =>
    obtain ⟨n, v⟩ := r
    have hlt := @saturate_lt v
    have hle : ¬ULONG_MAX < (saturate ULLONG_MAX v).1 := by
      unfold ULONG_MAX
      omega
    simp only [if_neg hle, Nat.mod_eq_of_lt hlt]
    rfl

theorem strtoull_unsigned : Unsigned isoc23Strtoull := by
  intro nptr base hbase hmax
  rw [isoc23Strtoull, parseUnsignedCompat_eq hbase hmax]
  cases scanned base (number nptr).2 with
  | none =>
    cases (number nptr).1 with
    | false => rfl
    | true => simp
  | some r =>
    obtain ⟨n, v⟩ := r
    have hlt := @saturate_lt v
    have hnot : 2 ^ 64 - 1 - (saturate ULLONG_MAX v).1 + 1 = 2 ^ 64 - (saturate ULLONG_MAX v).1 := by
      omega
    simp only [hnot]
    rfl

/-- A magnitude of 65 bits or more saturates; the negation then turns it into one. -/
theorem unsignedOf_iff (negative : Bool) (v : Nat) :
    unsignedOf negative v = (ulongRule negative v).1 ∧
        (saturate ULLONG_MAX v).2 = (ulongRule negative v).2 ↔
      ¬(negative ∧ 2 ^ 64 ≤ v) := by
  have hULLONG : ULLONG_MAX = 2 ^ 64 - 1 := rfl
  unfold unsignedOf ulongRule
  by_cases hv : v ≤ ULLONG_MAX
  · have hsat : saturate ULLONG_MAX v = (v, false) := if_pos hv
    rw [hsat, if_neg (show ¬2 ^ 64 ≤ v by omega)]
    exact iff_of_true ⟨rfl, rfl⟩ (by omega)
  · have hsat : saturate ULLONG_MAX v = (ULLONG_MAX, true) := if_neg hv
    rw [hsat, if_pos (show 2 ^ 64 ≤ v by omega)]
    cases negative with
    | false => exact iff_of_true ⟨rfl, rfl⟩ (by simp)
    | true =>
      refine iff_of_false (fun h => ?_) (fun h => h ⟨rfl, by omega⟩)
      exact absurd h.1 (by decide)

theorem Unsigned.agrees {conv : List UInt8 → Nat → Result} (hconv : Unsigned conv)
    (hbase : base = 0 ∨ 2 ≤ base) (hmax : base ≤ 36) :
    conv nptr base = c23 ulongRule base nptr ↔
      ¬BareHex base nptr ∧ ¬BinaryPrefix base nptr ∧ ¬NegativeOverflow base nptr := by
  have heq := hconv nptr base hbase hmax
  rw [agrees_iff (fun h => by rw [heq, h]) fun n v h => by rw [heq, h]]
  refine and_congr_right fun hhex => and_congr_right fun hbinary => ?_
  rw [scanned_eq hhex hbinary] at heq
  unfold NegativeOverflow
  constructor
  · rintro hall ⟨hneg, n, v, hnum, hbig⟩
    have hagree := hall n v hnum
    rw [heq, hnum] at hagree
    exact (unsignedOf_iff _ v).1 hagree ⟨hneg, hbig⟩
  · intro hnot n v hnum
    rw [heq, hnum]
    exact (unsignedOf_iff _ v).2 fun h => hnot ⟨h.1, n, v, hnum, h.2⟩

end Agree

/-- **Where the replacements agree with C23**: `strtol` exactly if the number has no `0b` mark with a
binary digit in base 0 or 2, and no `0x` without a hexadecimal digit in base 0 or 16; the unsigned
ones exactly if moreover a negative number has a magnitude below `2 ^ 64`. -/
theorem isoc23_agree_iff (base : Nat) (hbase : base = 0 ∨ 2 ≤ base ∧ base ≤ 36)
    (nptr : List UInt8) :
    (C23 longRule base nptr (isoc23Strtol nptr base) ↔
      ¬BareHex base nptr ∧ ¬BinaryPrefix base nptr) ∧
    (C23 ulongRule base nptr (isoc23Strtoul nptr base) ↔
      ¬BareHex base nptr ∧ ¬BinaryPrefix base nptr ∧ ¬NegativeOverflow base nptr) ∧
    (C23 ulongRule base nptr (isoc23Strtoull nptr base) ↔
      ¬BareHex base nptr ∧ ¬BinaryPrefix base nptr ∧ ¬NegativeOverflow base nptr) := by
  have h2 : base = 0 ∨ 2 ≤ base := hbase.imp_right And.left
  have h36 : base ≤ 36 := by omega
  rw [c23_iff h2, c23_iff h2, c23_iff h2]
  exact ⟨strtol_agrees h2 h36, strtoul_unsigned.agrees h2 h36, strtoull_unsigned.agrees h2 h36⟩

/-- ` -0x1f` in base 0. -/
theorem isoc23_agree_hex :
    C23 longRule 0 [0x20, 0x2d, 0x30, 0x78, 0x31, 0x66]
        (isoc23Strtol [0x20, 0x2d, 0x30, 0x78, 0x31, 0x66] 0) ↔
      ¬BareHex 0 [0x20, 0x2d, 0x30, 0x78, 0x31, 0x66] ∧
        ¬BinaryPrefix 0 [0x20, 0x2d, 0x30, 0x78, 0x31, 0x66] :=
  (isoc23_agree_iff 0 (Or.inl rfl) [0x20, 0x2d, 0x30, 0x78, 0x31, 0x66]).1

/-- `0xg` in base 16 is the number 0 and an `x`; `0b101` in base 2 is 5; `-18446744073709551616` is out
of the range of `unsigned long`. -/
theorem isoc23_disagree :
    (isoc23Strtol [0x30, 0x78, 0x67] 16 = ⟨0, 0, false⟩ ∧
      ¬C23 longRule 16 [0x30, 0x78, 0x67] (isoc23Strtol [0x30, 0x78, 0x67] 16)) ∧
    (isoc23Strtol [0x30, 0x62, 0x31, 0x30, 0x31] 2 = ⟨0, 1, false⟩ ∧
      ¬C23 longRule 2 [0x30, 0x62, 0x31, 0x30, 0x31]
        (isoc23Strtol [0x30, 0x62, 0x31, 0x30, 0x31] 2)) ∧
    isoc23Strtoul [0x2d, 0x31, 0x38, 0x34, 0x34, 0x36, 0x37, 0x34, 0x34, 0x30, 0x37, 0x33, 0x37, 0x30,
      0x39, 0x35, 0x35, 0x31, 0x36, 0x31, 0x36] 10 = ⟨1, 21, true⟩ ∧
    ¬C23 ulongRule 10 [0x2d, 0x31, 0x38, 0x34, 0x34, 0x36, 0x37, 0x34, 0x34, 0x30, 0x37, 0x33, 0x37,
        0x30, 0x39, 0x35, 0x35, 0x31, 0x36, 0x31, 0x36]
      (isoc23Strtoul [0x2d, 0x31, 0x38, 0x34, 0x34, 0x36, 0x37, 0x34, 0x34, 0x30, 0x37, 0x33, 0x37,
        0x30, 0x39, 0x35, 0x35, 0x31, 0x36, 0x31, 0x36] 10) := by
  rw [c23_iff (Or.inr (by decide)), c23_iff (Or.inr (by decide)), c23_iff (Or.inr (by decide))]
  decide +kernel

end AdvCpp.Dpdk.StaticCompat
