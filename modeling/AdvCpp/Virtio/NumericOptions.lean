import AdvCpp.Dpdk.StaticCompat
import AdvCpp.Lib.Checked

/-!
# Numbers on the command line

`parse_ull`, `parse_u16` and `parse_u32` of `virtio_net_vfio.hpp`, over `std::stoull` with base 0.
Whether the C library takes `0b` for a mark is a parameter.

* `strtoull`, `stoull` — the conversions of the library; `strtoull_c23` — the standard.
* `CNumeral` — the unsigned numerals of C.
* `parseUll_ok` — what `parse_ull` returns: white space, a sign and `0b` are taken as well.
* `numericOptions_exact_iff` — on which texts each function accepts the numerals that fit.
-/

namespace AdvCpp.Virtio.NumericOptions

open AdvCpp.Lib Dpdk.StaticCompat

/-! ## The library -/

/-- The longest numeral at the beginning, with `0b` or without. -/
def numeralOf (binary : Bool) (base : Nat) (p : List UInt8) : Option (Nat × Nat) :=
  if Hex base p then behindMark 16 p
  else if binary ∧ Binary base p then behindMark 2 p
  else plain (radixOf base p) p

/-- The value, the offset of `endptr` and `ERANGE`. -/
def strtoull (binary : Bool) (nptr : List UInt8) (base : Nat) : Result :=
  let (negative, p) := skipSign (nptr.dropWhile asciiSpace)
  match numeralOf binary base p with
  | none => ⟨0, 0, false⟩
  | some (n, v) => ⟨(ulongRule negative v).1, nptr.length - p.length + n, (ulongRule negative v).2⟩

def cStr (text : List UInt8) : List UInt8 := text.takeWhile (· ≠ 0)

/-- What is thrown; the two exceptions of the library carry the name of the function. -/
inductive Thrown where
  | invalidArgument
  | outOfRange
  | runtimeError (what : List UInt8)
  deriving DecidableEq

/-- The value, and `*idx`. -/
def stoull (binary : Bool) (str : List UInt8) (base : Nat) : Except Thrown (UInt64 × Nat) :=
  let r := strtoull binary (cStr str) base
  if r.stop = 0 then .error .invalidArgument
  else if r.erange then .error .outOfRange
  else .ok (UInt64.ofNat r.value.toNat, r.stop)

/-! ## The source -/

/-- `"invalid " + name + ": " + text` -/
def invalid (name : String) (text : List UInt8) : Thrown :=
  .runtimeError (bytesOf ("invalid " ++ name ++ ": ") ++ text)

def parseUll (binary : Bool) (text : List UInt8) (name : String) : Except Thrown UInt64 := do
  let (value, parsed) ← stoull binary text 0
  ensure (parsed = text.length) (invalid name text)
  return value

def parseU16 (binary : Bool) (text : List UInt8) (name : String) : Except Thrown UInt16 := do
  let value ← parseUll binary text name
  ensure (¬0xffff < value) (invalid name text)
  return value.toUInt16

def parseU32 (binary : Bool) (text : List UInt8) (name : String) : Except Thrown UInt32 := do
  let value ← parseUll binary text name
  ensure (¬0xffffffff < value) (invalid name text)
  return value.toUInt32

/-! ## Numerals -/

/-- An unsigned numeral of C, and its value. -/
inductive CNumeral : List UInt8 → Nat → Prop where
  | decimal {w : List UInt8} (hw : Digits 10 w) (h0 : w[0]? ≠ some '0'.toUInt8) :
    CNumeral w (valueOf 10 w)
  | octal {w : List UInt8} (hw : Digits 8 w) (h0 : w[0]? = some '0'.toUInt8) :
    CNumeral w (valueOf 8 w)
  | hex {x : UInt8} {w : List UInt8} (hx : x = 'x'.toUInt8 ∨ x = 'X'.toUInt8) (hw : Digits 16 w) :
    CNumeral ('0'.toUInt8 :: x :: w) (valueOf 16 w)

/-- The same for a library that takes `0b`. -/
inductive LibNumeral (binary : Bool) : List UInt8 → Nat → Prop where
  | ofC {w : List UInt8} {v : Nat} (h : CNumeral w v) : LibNumeral binary w v
  | binary {x : UInt8} {w : List UInt8} (hlib : binary = true)
    (hx : x = 'b'.toUInt8 ∨ x = 'B'.toUInt8) (hw : Digits 2 w) :
    LibNumeral binary ('0'.toUInt8 :: x :: w) (valueOf 2 w)

/-- White space, a sign or none, and the rest. -/
structure Split (text space sign body : List UInt8) : Prop where
  eq : text = space ++ (sign ++ body)
  space : ∀ c ∈ space, asciiSpace c
  sign : sign = [] ∨ sign = ['+'.toUInt8] ∨ sign = ['-'.toUInt8]

/-- The negation is modulo 2^64. -/
def signed (sign : List UInt8) (magnitude : Nat) : Nat :=
  if sign = ['-'.toUInt8] then (2 ^ 64 - magnitude) % 2 ^ 64 else magnitude

/-- What the conversion takes as a whole, and for which number. -/
def Accepted (binary : Bool) (text : List UInt8) (v : Nat) : Prop :=
  ∃ space sign body magnitude, Split text space sign body ∧ LibNumeral binary body magnitude ∧
    magnitude < 2 ^ 64 ∧ v = signed sign magnitude

/-- White space, a sign, or `0b` where the library takes it, and with it a number up to `max`. -/
def Slip (binary : Bool) (max : Nat) (text : List UInt8) : Prop :=
  ∃ space sign body magnitude, Split text space sign body ∧ LibNumeral binary body magnitude ∧
    magnitude < 2 ^ 64 ∧ signed sign magnitude ≤ max ∧
    (space ≠ [] ∨ sign ≠ [] ∨ ¬CNumeral body magnitude)

/-- A text is accepted if and only if it is a numeral that fits, and gives its value. -/
def Exact (max : Nat) (text : List UInt8) (r : Except Thrown Nat) : Prop :=
  ∀ v, r = .ok v ↔ CNumeral text v ∧ v ≤ max

section Numerals

variable {binary : Bool} {p w text space sign body : List UInt8} {n v magnitude : Nat}

theorem LibNumeral.toNumeral (h : LibNumeral binary w v) : Numeral 0 w v := by
  cases h with
  | ofC h =>
    cases h with
    | decimal hw h0 => exact .decimal hw h0
    | octal hw h0 => exact .octal hw h0
    | hex hx hw => exact .hex (Or.inl rfl) hx hw
  | binary _ hx hw => exact .binary (Or.inl rfl) hx hw

theorem CNumeral.not_binary (h : CNumeral w v) : ¬Binary 0 w := by
  rintro ⟨-, hmark, -⟩
  obtain ⟨x, q, rfl, hx⟩ := marked_iff.1 hmark
  cases h with
  | decimal _ h0 => exact h0 rfl
  | octal hw _ =>
    have hdigit := hw.2 x (List.mem_cons_of_mem _ List.mem_cons_self)
    rw [not_isDigit_b (by decide) hx] at hdigit
    cases hdigit
  | hex hx' _ => exact not_marked_b (marked_iff.2 ⟨x, q, rfl, hx'⟩) hmark

/-- What the library takes for a numeral is one. -/
theorem numeralOf_sound (h : numeralOf binary 0 p = some (n, v)) :
    n ≤ p.length ∧ LibNumeral binary (p.take n) v := by
  unfold numeralOf at h
  split at h
  · rename_i hmark
    obtain ⟨x, q, rfl, hx⟩ := marked_iff.1 hmark.2.1
    obtain ⟨k, rfl, hplain⟩ := behindMark_sound h
    obtain ⟨hle, hdigits, rfl⟩ := plain_sound hplain
    exact ⟨Nat.add_le_add_right hle 2, .ofC (.hex hx hdigits)⟩
  · split at h
    · rename_i hmark
      obtain ⟨hlib, hmark⟩ := hmark
      obtain ⟨x, q, rfl, hx⟩ := marked_iff.1 hmark.2.1
      obtain ⟨k, rfl, hplain⟩ := behindMark_sound h
      obtain ⟨hle, hdigits, rfl⟩ := plain_sound hplain
      exact ⟨Nat.add_le_add_right hle 2, .binary hlib hx hdigits⟩
    · obtain ⟨hle, hdigits, rfl⟩ := plain_sound h
      refine ⟨hle, .ofC ?_⟩
      have hhead := getElem?_zero_of_prefix hdigits.1 (List.take_prefix n p)
      by_cases h0 : p[0]? = some '0'.toUInt8
      · have hradix : radixOf 0 p = 8 := by simp [radixOf, h0]
        rw [hradix] at hdigits ⊢
        exact .octal hdigits (hhead ▸ h0)
      · have hradix : radixOf 0 p = 10 := by simp [radixOf, h0]
        rw [hradix] at hdigits ⊢
        exact .decimal hdigits (hhead ▸ h0)

theorem numeralOf_eq {base : Nat} (h : binary = true ∨ ¬Binary base p) :
    numeralOf binary base p = numeral base p := by
  unfold numeralOf numeral
  split
  · rfl
  · rcases h with rfl | h
    · simp
    · rw [if_neg fun hmark => h hmark.2, if_neg h]

/-- A numeral of the library is taken as a whole. -/
theorem numeralOf_complete (h : LibNumeral binary p v) :
    numeralOf binary 0 p = some (p.length, v) := by
  have heq : numeralOf binary 0 p = numeral 0 p := by
    cases h with
    | ofC h => exact numeralOf_eq (Or.inr h.not_binary)
    | binary hlib _ _ => exact numeralOf_eq (Or.inl hlib)
  obtain ⟨n, v', hnumeral, hle, hval⟩ := numeral_complete h.toNumeral (List.prefix_refl p)
  have hsound := (numeral_sound (Or.inl rfl) hnumeral).1
  rw [heq, hnumeral, hval hsound, Nat.le_antisymm hsound hle]

/-- The first byte is a digit. -/
theorem LibNumeral.head (h : LibNumeral binary w v) :
    ∃ c t, w = c :: t ∧ asciiSpace c = false ∧ ¬(c = '+'.toUInt8 ∨ c = '-'.toUInt8) ∧ c ≠ 0 := by
  obtain ⟨c, t, rfl, hc⟩ := numeral_head h.toNumeral
  have hall : ∀ n : Fin 256, digitValue (UInt8.ofNat n) ≠ none →
      asciiSpace (UInt8.ofNat n) = false ∧
        ¬(UInt8.ofNat n = '+'.toUInt8 ∨ UInt8.ofNat n = '-'.toUInt8) ∧ UInt8.ofNat n ≠ 0 := by
    decide +kernel
  have hdigit := hall ⟨c.toNat, c.toNat_lt⟩
  simp only [UInt8.ofNat_toNat, digitValue_eq] at hdigit
  exact ⟨c, t, rfl, hdigit hc⟩

theorem LibNumeral.ne_zero (h : LibNumeral binary w v) : ∀ c ∈ w, c ≠ 0 := by
  have hdigits : ∀ {radix : Nat} {w : List UInt8}, Digits radix w → ∀ c ∈ w, c ≠ 0 := by
    rintro radix w hw c hc rfl
    have hzero : ascribed 0 = none := by decide
    have hdigit := hw.2 0 hc
    simp [IsDigit, hzero] at hdigit
  -- behind a mark the digits are those of its radix
  have hmark : ∀ {x : UInt8} {w : List UInt8}, x ≠ 0 → (∀ c ∈ w, c ≠ 0) →
      ∀ c ∈ '0'.toUInt8 :: x :: w, c ≠ 0 := by
    intro x w hx hw c hc
    rcases List.mem_cons.1 hc with rfl | hc
    · decide
    · rcases List.mem_cons.1 hc with rfl | hc
      · exact hx
      · exact hw c hc
  cases h with
  | ofC h =>
    cases h with
    | decimal hw _ => exact hdigits hw
    | octal hw _ => exact hdigits hw
    | hex hx hw =>
      refine hmark ?_ (hdigits hw)
      rcases hx with rfl | rfl
      · decide
      · decide
  | binary _ hx hw =>
    refine hmark ?_ (hdigits hw)
    rcases hx with rfl | rfl
    · decide
    · decide

/-- What is behind white space and the sign, when it begins with a digit. -/
theorem Split.number_eq (h : Split text space sign body) (hbody : LibNumeral binary body v) :
    number text = (decide (sign = ['-'.toUInt8]), body) := by
  obtain ⟨c, t, rfl, hspace, hsign, -⟩ := hbody.head
  have hhead : ∀ c', (sign ++ c :: t).head? = some c' → asciiSpace c' = false := by
    intro c' hc'
    rcases h.sign with rfl | rfl | rfl
    · cases hc'
      exact hspace
    · cases hc'
      decide
    · cases hc'
      decide
  have hdrop := (takeWhile_dropWhile_unique h.space hhead).2
  rw [number, h.eq, hdrop]
  rcases h.sign with rfl | rfl | rfl
  · exact skipSign_other t hsign
  · exact skipSign_sign _ (Or.inl rfl)
  · exact skipSign_sign _ (Or.inr rfl)

theorem exists_split (text : List UInt8) :
    ∃ space sign, Split text space sign (number text).2 ∧
      (number text).1 = decide (sign = ['-'.toUInt8]) := by
  have heq : text = text.takeWhile asciiSpace ++ text.dropWhile asciiSpace :=
    List.takeWhile_append_dropWhile.symm
  have hspace : ∀ c ∈ text.takeWhile asciiSpace, asciiSpace c := fun c => List.mem_takeWhile_imp
  unfold number
  cases hrest : text.dropWhile asciiSpace with
  | nil =>
    rw [hrest] at heq
    exact ⟨_, [], ⟨heq, hspace, Or.inl rfl⟩, rfl⟩
  | cons c p =>
    rw [hrest] at heq
    by_cases hc : c = '+'.toUInt8 ∨ c = '-'.toUInt8
    · rw [skipSign_sign p hc]
      refine ⟨_, [c], ⟨heq, hspace, Or.inr ?_⟩, by simp⟩
      rcases hc with rfl | rfl
      · exact Or.inl rfl
      · exact Or.inr rfl
    · rw [skipSign_other p hc]
      exact ⟨_, [], ⟨heq, hspace, Or.inl rfl⟩, rfl⟩

theorem ulongRule_signed (hlt : magnitude < 2 ^ 64) :
    ulongRule (decide (sign = ['-'.toUInt8])) magnitude = (((signed sign magnitude : Nat) : Int), false) := by
  unfold ulongRule signed
  rw [if_neg (Nat.not_le.2 hlt)]
  by_cases hsign : sign = ['-'.toUInt8]
  · simp [hsign]
  · simp [hsign]

theorem signed_lt (hlt : magnitude < 2 ^ 64) : signed sign magnitude < 2 ^ 64 := by
  unfold signed
  split
  · exact Nat.mod_lt _ (by decide)
  · exact hlt

/-- With `0b`, the conversion is the one of the standard. -/
theorem strtoull_c23 {base : Nat} (hbase : base = 0 ∨ 2 ≤ base) (nptr : List UInt8) :
    C23 ulongRule base nptr (strtoull true nptr base) := by
  rw [c23_iff hbase]
  cases hnumeral : numeral base (skipSign (nptr.dropWhile asciiSpace)).2 with
  | none => simp only [strtoull, c23, numeralOf_eq (Or.inl rfl), hnumeral]
  | some r => simp only [strtoull, c23, numeralOf_eq (Or.inl rfl), hnumeral]

theorem strtoull_eq (nptr : List UInt8) :
    strtoull binary nptr 0 =
      match numeralOf binary 0 (number nptr).2 with
      | none => ⟨0, 0, false⟩
      | some (n, v) => ⟨(ulongRule (number nptr).1 v).1, nptr.length - (number nptr).2.length + n,
          (ulongRule (number nptr).1 v).2⟩ := rfl

end Numerals

section Parse

variable {binary : Bool} {text : List UInt8} {name : String} {max : Nat}

theorem Accepted.lt {v : Nat} (h : Accepted binary text v) : v < 2 ^ 64 := by
  obtain ⟨_, sign, _, _, -, -, hlt, rfl⟩ := h
  exact signed_lt hlt

/-- No zero byte ends the string early. -/
theorem Accepted.cStr_eq {v : Nat} (h : Accepted binary text v) : cStr text = text := by
  obtain ⟨space, sign, body, _, hsplit, hbody, -, -⟩ := h
  have hne : ∀ c ∈ text, c ≠ 0 := by
    intro c hc
    rw [hsplit.eq, List.mem_append, List.mem_append] at hc
    rcases hc with hc | hc | hc
    · rintro rfl
      have hspace := hsplit.space 0 hc
      revert hspace
      decide
    · rcases hsplit.sign with rfl | rfl | rfl
      · cases hc
      · rw [List.mem_singleton.1 hc]
        decide
      · rw [List.mem_singleton.1 hc]
        decide
    · exact hbody.ne_zero c hc
  exact List.takeWhile_eq_self_iff.2 fun c hc => decide_eq_true (hne c hc)

theorem stoull_whole {value : UInt64} :
    stoull binary text 0 = .ok (value, text.length) ↔ Accepted binary text value.toNat := by
  constructor
  · intro h
    rw [stoull, strtoull_eq] at h
    have hcstr : cStr text <+: text := List.takeWhile_prefix _
    cases hn : numeralOf binary 0 (number (cStr text)).2 with
    | none =>
      rw [hn] at h
      cases h
    | some r =>
      obtain ⟨n, v⟩ := r
      rw [hn] at h
      obtain ⟨hle, hsound⟩ := numeralOf_sound hn
      have hbehind : (number (cStr text)).2.length ≤ (cStr text).length :=
        skipSign_length.trans (List.dropWhile_suffix _).length_le
      simp only at h
      split at h
      · cases h
      · split at h
        · cases h
        · rename_i herange
          obtain ⟨hvalue, hstop⟩ := Prod.mk.inj (Except.ok.inj h)
          -- the whole text is before the zero byte, and the whole rest is the numeral
          have hlen := hcstr.length_le
          have hwhole : cStr text = text := hcstr.eq_of_length (by omega)
          rw [hwhole] at hsound hle hvalue hstop herange hbehind
          rw [List.take_of_length_le (by omega)] at hsound
          obtain ⟨space, sign, hsplit, hnegative⟩ := exists_split text
          have hlt : v < 2 ^ 64 := by
            by_contra hge
            exact herange (by rw [ulongRule, if_pos (Nat.not_lt.1 hge)])
          rw [hnegative, ulongRule_signed hlt] at hvalue
          refine ⟨space, sign, _, v, hsplit, hsound, hlt, ?_⟩
          rw [← hvalue]
          exact UInt64.toNat_ofNat_of_lt' (signed_lt hlt)
  · intro h
    have hcstr := h.cStr_eq
    obtain ⟨space, sign, body, v, hsplit, hbody, hlt, hvalue⟩ := h
    have hlen : text.length - body.length + body.length = text.length := by
      rw [hsplit.eq]
      simp only [List.length_append]
      omega
    have hne : text.length ≠ 0 := by
      obtain ⟨c, t, rfl, -⟩ := hbody.head
      rw [hsplit.eq]
      simp
    rw [stoull, strtoull_eq, hcstr, hsplit.number_eq hbody, numeralOf_complete hbody]
    simp only [ulongRule_signed hlt, hlen, hne, if_false, Int.toNat_natCast, ← hvalue,
      UInt64.ofNat_toNat]
    rfl

/-- **What `parse_ull` returns.** -/
theorem parseUll_ok {value : UInt64} :
    parseUll binary text name = .ok value ↔ Accepted binary text value.toNat := by
  rw [← stoull_whole]
  simp only [parseUll, bind_eq_ok, ensure_eq_ok]
  constructor
  · rintro ⟨⟨value', parsed⟩, hstoull, _, hparsed, heq⟩
    cases heq
    cases hparsed
    exact hstoull
  · intro h
    exact ⟨_, h, (), rfl, rfl⟩

theorem parseUll_toNat {v : Nat} :
    (parseUll binary text name).map UInt64.toNat = .ok v ↔
      Accepted binary text v ∧ v ≤ 2 ^ 64 - 1 := by
  rw [map_eq_ok]
  constructor
  · rintro ⟨value, hvalue, rfl⟩
    exact ⟨parseUll_ok.1 hvalue, Nat.le_of_lt_succ value.toNat_lt⟩
  · rintro ⟨h, -⟩
    have hlt := UInt64.toNat_ofNat_of_lt' h.lt
    exact ⟨UInt64.ofNat v, parseUll_ok.2 (hlt.symm ▸ h), hlt⟩

theorem parseU16_toNat {v : Nat} :
    (parseU16 binary text name).map UInt16.toNat = .ok v ↔
      Accepted binary text v ∧ v ≤ 2 ^ 16 - 1 := by
  simp only [map_eq_ok, parseU16, bind_eq_ok, ensure_eq_ok, UInt64.not_lt]
  constructor
  · rintro ⟨_, ⟨value, hvalue, _, hle, hport⟩, rfl⟩
    cases hport
    have hle16 : value.toNat ≤ 2 ^ 16 - 1 := hle
    rw [UInt64.toNat_toUInt16, Nat.mod_eq_of_lt (Nat.lt_of_le_pred (by decide) hle16)]
    exact ⟨parseUll_ok.1 hvalue, hle16⟩
  · rintro ⟨h, hle⟩
    have hlt := UInt64.toNat_ofNat_of_lt' h.lt
    refine ⟨_, ⟨UInt64.ofNat v, parseUll_ok.2 (hlt.symm ▸ h), (), ?_, rfl⟩, ?_⟩
    · rw [UInt64.le_iff_toNat_le, hlt]
      exact hle
    · rw [UInt64.toNat_toUInt16, hlt, Nat.mod_eq_of_lt (Nat.lt_of_le_pred (by decide) hle)]

theorem parseU32_toNat {v : Nat} :
    (parseU32 binary text name).map UInt32.toNat = .ok v ↔
      Accepted binary text v ∧ v ≤ 2 ^ 32 - 1 := by
  simp only [map_eq_ok, parseU32, bind_eq_ok, ensure_eq_ok, UInt64.not_lt]
  constructor
  · rintro ⟨_, ⟨value, hvalue, _, hle, hport⟩, rfl⟩
    cases hport
    have hle32 : value.toNat ≤ 2 ^ 32 - 1 := hle
    rw [UInt64.toNat_toUInt32, Nat.mod_eq_of_lt (Nat.lt_of_le_pred (by decide) hle32)]
    exact ⟨parseUll_ok.1 hvalue, hle32⟩
  · rintro ⟨h, hle⟩
    have hlt := UInt64.toNat_ofNat_of_lt' h.lt
    refine ⟨_, ⟨UInt64.ofNat v, parseUll_ok.2 (hlt.symm ▸ h), (), ?_, rfl⟩, ?_⟩
    · rw [UInt64.le_iff_toNat_le, hlt]
      exact hle
    · rw [UInt64.toNat_toUInt32, hlt, Nat.mod_eq_of_lt (Nat.lt_of_le_pred (by decide) hle)]

/-- A numeral of C is accepted for its value. -/
theorem CNumeral.accepted {v : Nat} (h : CNumeral text v) (hlt : v < 2 ^ 64) :
    Accepted binary text v :=
  ⟨[], [], text, v, ⟨rfl, by rintro _ ⟨⟩, Or.inl rfl⟩, .ofC h, hlt, rfl⟩

theorem exact_iff {r : Except Thrown Nat} (hmax : max < 2 ^ 64)
    (hr : ∀ v, r = .ok v ↔ Accepted binary text v ∧ v ≤ max) :
    Exact max text r ↔ ¬Slip binary max text := by
  constructor
  · rintro hexact ⟨space, sign, body, magnitude, hsplit, hbody, hlt, hle, hslip⟩
    have hok := (hr _).2 ⟨⟨space, sign, body, magnitude, hsplit, hbody, hlt, rfl⟩, hle⟩
    obtain ⟨hnumeral, -⟩ := (hexact _).1 hok
    -- a numeral has nothing before it
    have hwhole : Split text [] [] text := ⟨rfl, by rintro _ ⟨⟩, Or.inl rfl⟩
    have heq := hsplit.number_eq hbody
    have hlib : LibNumeral binary text _ := .ofC hnumeral
    rw [hwhole.number_eq hlib] at heq
    obtain rfl : text = body := (Prod.mk.inj heq).2
    obtain ⟨rfl, rfl⟩ : space = [] ∧ sign = [] := by
      have hlen := congrArg List.length hsplit.eq
      simp only [List.length_append] at hlen
      exact ⟨List.length_eq_zero_iff.1 (by omega), List.length_eq_zero_iff.1 (by omega)⟩
    rcases hslip with h | h | h
    · exact h rfl
    · exact h rfl
    · exact h hnumeral
  · intro hslip v
    rw [hr]
    refine and_congr_left fun hle => ⟨?_, fun h => h.accepted (Nat.lt_of_le_of_lt hle hmax)⟩
    rintro ⟨space, sign, body, magnitude, hsplit, hbody, hlt, rfl⟩
    by_contra hnot
    refine hslip ⟨space, sign, body, magnitude, hsplit, hbody, hlt, hle, ?_⟩
    by_contra hplain
    push Not at hplain
    obtain ⟨rfl, rfl, hnumeral⟩ := hplain
    rw [hsplit.eq] at hnot
    exact hnot hnumeral

/-- **On which texts the three functions accept the numerals that fit.** -/
theorem numericOptions_exact_iff (binary : Bool) (text : List UInt8) (name : String) :
    (Exact (2 ^ 64 - 1) text ((parseUll binary text name).map UInt64.toNat) ↔
        ¬Slip binary (2 ^ 64 - 1) text) ∧
      (Exact (2 ^ 16 - 1) text ((parseU16 binary text name).map UInt16.toNat) ↔
        ¬Slip binary (2 ^ 16 - 1) text) ∧
      (Exact (2 ^ 32 - 1) text ((parseU32 binary text name).map UInt32.toNat) ↔
        ¬Slip binary (2 ^ 32 - 1) text) :=
  ⟨exact_iff (by decide) fun _ => parseUll_toNat, exact_iff (by decide) fun _ => parseU16_toNat,
    exact_iff (by decide) fun _ => parseU32_toNat⟩

/-- -(2^64 - 1) is queue 1. -/
theorem parseU16_negative :
    ¬∃ binary, ∀ text name,
      Exact (2 ^ 16 - 1) text ((parseU16 binary text name).map UInt16.toNat) := by
  rintro ⟨binary, h⟩
  have hslip : Slip binary (2 ^ 16 - 1) (bytesOf "-18446744073709551615") := by
    refine ⟨[], bytesOf "-", bytesOf "18446744073709551615", 18446744073709551615,
      ⟨by decide, by rintro _ ⟨⟩, Or.inr (Or.inr (by decide))⟩, ?_, by decide, by decide,
      Or.inr (Or.inl (by decide))⟩
    have hvalue : valueOf 10 (bytesOf "18446744073709551615") = 18446744073709551615 := by
      decide +kernel
    rw [← hvalue]
    exact .ofC (.decimal ⟨by decide, by decide +kernel⟩ (by decide))
  exact (exact_iff (by decide) fun _ => parseU16_toNat).1 (h _ "queue") hslip

end Parse

end AdvCpp.Virtio.NumericOptions
