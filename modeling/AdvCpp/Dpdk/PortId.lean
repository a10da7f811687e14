import AdvCpp.Dpdk.StaticCompat
import AdvCpp.Lib.Checked

/-!
# Port ids on the command line

`parse_u64` and `parse_port_id` of `03_ethdev_info.cpp` and of `06_ethdev_start_stop.cpp`.  A text is
the list of its bytes; what is thrown is the text of the exception.

* `Info`, `StartStop` — the two copies, translated.
* `Denotes` — a decimal or hexadecimal numeral and its value.
* `parseU64_exact` — the later copy accepts the numerals below 2^64.
* `parsePortId_alike_iff` — on which texts the two copies read the same port id.
-/

namespace AdvCpp.Dpdk.PortId

open AdvCpp.Lib StaticCompat

/-! ## The source -/

/-- `"invalid " + name + ": " + text` -/
def invalid (name : String) (text : List UInt8) : List UInt8 :=
  bytesOf ("invalid " ++ name ++ ": ") ++ text

/-- `name + " is too large"` -/
def tooLarge (name : String) : List UInt8 := bytesOf (name ++ " is too large")

/-- `text.starts_with("0x") || text.starts_with("0X")` -/
def hexPrefixed (text : List UInt8) : Bool :=
  (bytesOf "0x").isPrefixOf text || (bytesOf "0X").isPrefixOf text

/-- `base`, and the text from `pos`. -/
def start (text : List UInt8) : Nat × List UInt8 :=
  if hexPrefixed text then (16, text.drop 2) else (10, text)

/-- `none` is the branch that throws.  No byte above 0x7f is in a range, whatever the sign of
`char`. -/
def digitOf (base : Nat) (c : UInt8) : Option Nat :=
  if '0'.toUInt8 ≤ c ∧ c ≤ '9'.toUInt8 then some (c.toNat - '0'.toUInt8.toNat)
  else if base = 16 ∧ 'a'.toUInt8 ≤ c ∧ c ≤ 'f'.toUInt8 then some (c.toNat - 'a'.toUInt8.toNat + 10)
  else if base = 16 ∧ 'A'.toUInt8 ≤ c ∧ c ≤ 'F'.toUInt8 then some (c.toNat - 'A'.toUInt8.toNat + 10)
  else none

namespace Info

/-- The loop of `parse_u64`; `value * base + digit` wraps. -/
def scan (name : String) (text : List UInt8) (base : Nat) :
    UInt64 → List UInt8 → Except (List UInt8) UInt64
  | value, [] => .ok value
  | value, c :: rest =>
    match digitOf base c with
    | none => .error (invalid name text)
    | some digit =>
      if base ≤ digit then .error (invalid name text)
      else scan name text base (value * UInt64.ofNat base + UInt64.ofNat digit) rest

def parseU64 (text : List UInt8) (name : String) : Except (List UInt8) UInt64 :=
  let (base, rest) := start text
  scan name text base 0 rest

def parsePortId (rteMaxEthports : Nat) (text : List UInt8) : Except (List UInt8) UInt16 := do
  let value ← parseU64 text "port"
  ensure (¬rteMaxEthports ≤ value.toNat) (bytesOf "port id is outside RTE_MAX_ETHPORTS")
  return value.toUInt16

end Info

namespace StartStop

/-- The loop of `parse_u64`, with the test before the multiplication. -/
def scan (name : String) (text : List UInt8) (base : Nat) :
    UInt64 → List UInt8 → Except (List UInt8) UInt64
  | value, [] => .ok value
  | value, c :: rest =>
    match digitOf base c with
    | none => .error (invalid name text)
    | some digit =>
      if base ≤ digit then .error (invalid name text)
      else if (0xffffffffffffffff - UInt64.ofNat digit) / UInt64.ofNat base < value then
        .error (tooLarge name)
      else scan name text base (value * UInt64.ofNat base + UInt64.ofNat digit) rest

def parseU64 (text : List UInt8) (name : String) : Except (List UInt8) UInt64 := do
  ensure (text ≠ []) (bytesOf ("empty " ++ name))
  let (base, rest) := start text
  ensure (¬(hexPrefixed text ∧ text.length = 2)) (invalid name text)
  scan name text base 0 rest

def parseU16 (text : List UInt8) (name : String) : Except (List UInt8) UInt16 := do
  let value ← parseU64 text name
  ensure (¬0xffff < value) (tooLarge name)
  return value.toUInt16

def parsePortId (rteMaxEthports : Nat) (text : List UInt8) : Except (List UInt8) UInt16 := do
  let port ← parseU16 text "port"
  ensure (¬rteMaxEthports ≤ port.toNat) (bytesOf "port id is outside RTE_MAX_ETHPORTS")
  return port

end StartStop

/-! ## Numerals -/

/-- A numeral of the two copies, and its value: decimal digits, or `0x` and hexadecimal digits. -/
inductive Denotes : List UInt8 → Nat → Prop where
  | decimal {w : List UInt8} (hw : Digits 10 w) : Denotes w (valueOf 10 w)
  | hex {x : UInt8} {w : List UInt8} (hx : x = 'x'.toUInt8 ∨ x = 'X'.toUInt8) (hw : Digits 16 w) :
    Denotes ('0'.toUInt8 :: x :: w) (valueOf 16 w)

/-- The texts on which the first copy goes on where the second one throws: digits behind the mark,
if any, but none at all or too many, and a value that is a port id modulo 2^64. -/
def Slip (rteMaxEthports : Nat) (text : List UInt8) : Prop :=
  (∀ c ∈ (start text).2, IsDigit (start text).1 c) ∧
    ((start text).2 = [] ∨ 2 ^ 64 ≤ valueOf (start text).1 (start text).2) ∧
    valueOf (start text).1 (start text).2 % 2 ^ 64 < rteMaxEthports

instance decidableSlip (rteMaxEthports : Nat) (text : List UInt8) :
    Decidable (Slip rteMaxEthports text) :=
  @instDecidableAnd _ _ (List.decidableBAll _ _) inferInstance

section Scan

variable {name : String} {text p : List UInt8} {base v : Nat}

theorem start_base : (start text).1 = 10 ∨ (start text).1 = 16 := by
  unfold start
  split
  · exact Or.inr rfl
  · exact Or.inl rfl

theorem digitOf_eq (hbase : base = 10 ∨ base = 16) (c : UInt8) :
    digitOf base c = if IsDigit base c then ascribed c else none := by
  have hall : ∀ n : Fin 256,
      digitOf 10 (UInt8.ofNat n) = (if (digitValue (UInt8.ofNat n)).any (· < 10) then
          digitValue (UInt8.ofNat n) else none) ∧
        digitOf 16 (UInt8.ofNat n) = if (digitValue (UInt8.ofNat n)).any (· < 16) then
          digitValue (UInt8.ofNat n) else none := by decide +kernel
  have hc := hall ⟨c.toNat, c.toNat_lt⟩
  simp only [UInt8.ofNat_toNat, digitValue_eq] at hc
  rcases hbase with rfl | rfl
  · exact hc.1
  · exact hc.2

theorem digitOf_digit (hbase : base = 10 ∨ base = 16) {c : UInt8} (hc : IsDigit base c) :
    ∃ digit, digitOf base c = some digit ∧ ascribed c = some digit ∧ digit < base := by
  have heq := digitOf_eq hbase c
  rw [if_pos hc] at heq
  obtain ⟨digit, hdigit, hlt⟩ := (Option.any_eq_true _ _).1 hc
  exact ⟨digit, heq.trans hdigit, hdigit, of_decide_eq_true hlt⟩

theorem digitOf_stray (hbase : base = 10 ∨ base = 16) {c : UInt8} (hc : ¬IsDigit base c) :
    digitOf base c = none := by
  rw [digitOf_eq hbase, if_neg hc]

/-- The wrapped multiplication and addition. -/
theorem ofNat_step (v base digit : Nat) :
    UInt64.ofNat v * UInt64.ofNat base + UInt64.ofNat digit = UInt64.ofNat (v * base + digit) := by
  rw [UInt64.ofNat_add, UInt64.ofNat_mul]

/-- **The first copy computes modulo 2^64.** -/
theorem Info.scan_digits (hbase : base = 10 ∨ base = 16) (v : Nat) (h : ∀ c ∈ p, IsDigit base c) :
    Info.scan name text base (UInt64.ofNat v) p =
      .ok (UInt64.ofNat (hornerFrom base v (p.filterMap ascribed))) := by
  induction p generalizing v with
  | nil => rfl
  | cons c p ih =>
    obtain ⟨digit, hdigit, hascribed, hlt⟩ := digitOf_digit hbase (h c List.mem_cons_self)
    simp only [Info.scan, hdigit, Nat.not_le.2 hlt, if_false, ofNat_step]
    rw [ih _ fun c hc => h c (List.mem_cons_of_mem _ hc), List.filterMap_cons_some hascribed,
      hornerFrom_cons]

theorem Info.scan_stray (hbase : base = 10 ∨ base = 16) (value : UInt64)
    (h : ∃ c ∈ p, ¬IsDigit base c) :
    Info.scan name text base value p = .error (invalid name text) := by
  induction p generalizing value with
  | nil =>
    obtain ⟨c, hc, -⟩ := h
    cases hc
  | cons c p ih =>
    by_cases hc : IsDigit base c
    · obtain ⟨digit, hdigit, -, hlt⟩ := digitOf_digit hbase hc
      simp only [Info.scan, hdigit, Nat.not_le.2 hlt, if_false]
      refine ih _ ?_
      obtain ⟨c', hmem, hstray⟩ := h
      rcases List.mem_cons.1 hmem with rfl | hmem
      · exact absurd hc hstray
      · exact ⟨c', hmem, hstray⟩
    · simp only [Info.scan, digitOf_stray hbase hc]

/-- The test before the multiplication is exact. -/
theorem overflow_iff (hbase : base = 10 ∨ base = 16) {digit : Nat} (hv : v < 2 ^ 64)
    (hdigit : digit < base) :
    (0xffffffffffffffff - UInt64.ofNat digit) / UInt64.ofNat base < UInt64.ofNat v ↔
      2 ^ 64 ≤ v * base + digit := by
  have hb : 0 < base := by omega
  have hdlt : digit < 2 ^ 64 := by omega
  have hblt : base < 2 ^ 64 := by omega
  have hle : UInt64.ofNat digit ≤ 0xffffffffffffffff := by
    rw [UInt64.le_iff_toNat_le, UInt64.toNat_ofNat_of_lt' hdlt]
    exact Nat.le_of_lt_succ hdlt
  rw [UInt64.lt_iff_toNat_lt, UInt64.toNat_div, UInt64.toNat_sub_of_le _ _ hle,
    UInt64.toNat_ofNat_of_lt' hdlt, UInt64.toNat_ofNat_of_lt' hblt, UInt64.toNat_ofNat_of_lt' hv]
  exact div_lt_iff_lt_mul_add hb (Nat.le_of_lt_succ hdlt)

/-- **The second copy computes the value, or finds that it is too large.** -/
theorem StartStop.scan_digits (hbase : base = 10 ∨ base = 16) (hv : v < 2 ^ 64)
    (h : ∀ c ∈ p, IsDigit base c) :
    StartStop.scan name text base (UInt64.ofNat v) p =
      if hornerFrom base v (p.filterMap ascribed) < 2 ^ 64 then
        .ok (UInt64.ofNat (hornerFrom base v (p.filterMap ascribed)))
      else .error (tooLarge name) := by
  induction p generalizing v with
  | nil => exact (if_pos hv).symm
  | cons c p ih =>
    obtain ⟨digit, hdigit, hascribed, hlt⟩ := digitOf_digit hbase (h c List.mem_cons_self)
    rw [List.filterMap_cons_some hascribed, hornerFrom_cons]
    simp only [StartStop.scan, hdigit, Nat.not_le.2 hlt, if_false, overflow_iff hbase hv hlt,
      ofNat_step]
    by_cases hnext : 2 ^ 64 ≤ v * base + digit
    · have hle := le_hornerFrom (show 0 < base by omega) (v * base + digit) (p.filterMap ascribed)
      rw [if_pos hnext, if_neg (by omega)]
    · rw [if_neg hnext]
      exact ih (Nat.not_le.1 hnext) fun c hc => h c (List.mem_cons_of_mem _ hc)

theorem StartStop.scan_stray (name : String) (text : List UInt8) (hbase : base = 10 ∨ base = 16)
    (value : UInt64) (h : ∃ c ∈ p, ¬IsDigit base c) :
    ∃ e, StartStop.scan name text base value p = .error e := by
  induction p generalizing value with
  | nil =>
    obtain ⟨c, hc, -⟩ := h
    cases hc
  | cons c p ih =>
    by_cases hc : IsDigit base c
    · obtain ⟨digit, hdigit, -, hlt⟩ := digitOf_digit hbase hc
      simp only [StartStop.scan, hdigit, Nat.not_le.2 hlt, if_false]
      split
      · exact ⟨_, rfl⟩
      · refine ih _ ?_
        obtain ⟨c', hmem, hstray⟩ := h
        rcases List.mem_cons.1 hmem with rfl | hmem
        · exact absurd hc hstray
        · exact ⟨c', hmem, hstray⟩
    · simp only [StartStop.scan, digitOf_stray hbase hc]
      exact ⟨_, rfl⟩

end Scan

section Parse

variable {name : String} {text : List UInt8} {v rteMaxEthports : Nat}

theorem hexPrefixed_iff :
    hexPrefixed text = true ↔
      ∃ x w, text = '0'.toUInt8 :: x :: w ∧ (x = 'x'.toUInt8 ∨ x = 'X'.toUInt8) := by
  have hlower : bytesOf "0x" = ['0'.toUInt8, 'x'.toUInt8] := by decide
  have hupper : bytesOf "0X" = ['0'.toUInt8, 'X'.toUInt8] := by decide
  rw [hexPrefixed, hlower, hupper]
  match text with
  | [] => simp
  | [c] => simp
  | c :: x :: w => grind

/-- The numerals are the digits behind the mark. -/
theorem denotes_iff :
    Denotes text v ↔
      Digits (start text).1 (start text).2 ∧ v = valueOf (start text).1 (start text).2 := by
  constructor
  · intro h
    cases h with
    | decimal hw =>
      have hmark : ¬hexPrefixed text := by
        intro hmark
        obtain ⟨x, w, rfl, hx⟩ := hexPrefixed_iff.1 hmark
        have hdigit := hw.2 x (List.mem_cons_of_mem _ List.mem_cons_self)
        rw [not_isDigit_x (by decide) hx] at hdigit
        cases hdigit
      rw [start, if_neg hmark]
      exact ⟨hw, rfl⟩
    | hex hx hw =>
      rw [start, if_pos (hexPrefixed_iff.2 ⟨_, _, rfl, hx⟩)]
      exact ⟨hw, rfl⟩
  · rintro ⟨hw, rfl⟩
    by_cases hmark : hexPrefixed text
    · obtain ⟨x, w, rfl, hx⟩ := hexPrefixed_iff.1 hmark
      rw [start, if_pos hmark] at hw ⊢
      exact .hex hx hw
    · rw [start, if_neg hmark] at hw ⊢
      exact .decimal hw

/-- The two checks before the loop: no text, and nothing behind the mark. -/
theorem StartStop.parseU64_nil (name : String) (h : (start text).2 = []) :
    ∃ e, StartStop.parseU64 text name = .error e := by
  by_cases hnil : text = []
  · rw [StartStop.parseU64, ensure_false (not_not.2 hnil)]
    exact ⟨_, rfl⟩
  · by_cases hmark : hexPrefixed text
    · rw [start, if_pos hmark] at h
      obtain ⟨x, w, rfl, -⟩ := hexPrefixed_iff.1 hmark
      have hw : w = [] := h
      subst hw
      rw [StartStop.parseU64, ensure_true hnil, ok_bind, ensure_false (not_not.2 ⟨hmark, rfl⟩)]
      exact ⟨_, rfl⟩
    · rw [start, if_neg hmark] at h
      exact absurd h hnil

theorem StartStop.parseU64_scan (h : (start text).2 ≠ []) :
    StartStop.parseU64 text name =
      StartStop.scan name text (start text).1 (UInt64.ofNat 0) (start text).2 := by
  have hnil : text ≠ [] := by
    rintro rfl
    exact h rfl
  have hbare : ¬(hexPrefixed text ∧ text.length = 2) := by
    rintro ⟨hmark, hlen⟩
    rw [start, if_pos hmark] at h
    exact h (List.drop_eq_nil_of_le (Nat.le_of_eq hlen))
  rw [StartStop.parseU64, ensure_true hnil, ok_bind, ensure_true hbare]
  rfl

/-- **What the second copy returns**: the value, when there are digits and it is below 2^64. -/
theorem StartStop.parseU64_eq (text : List UInt8) (name : String) :
    (∃ e, StartStop.parseU64 text name = .error e ∧
        ¬∃ v, v < 2 ^ 64 ∧ Denotes text v) ∨
      ∃ v, StartStop.parseU64 text name = .ok (UInt64.ofNat v) ∧ v < 2 ^ 64 ∧ Denotes text v := by
  by_cases hdigits : Digits (start text).1 (start text).2
  · rw [StartStop.parseU64_scan hdigits.1,
      StartStop.scan_digits start_base (by decide) hdigits.2]
    by_cases hlt : valueOf (start text).1 (start text).2 < 2 ^ 64
    · exact Or.inr ⟨_, if_pos hlt, hlt, denotes_iff.2 ⟨hdigits, rfl⟩⟩
    · refine Or.inl ⟨_, if_neg hlt, ?_⟩
      rintro ⟨v, hv, hden⟩
      rw [(denotes_iff.1 hden).2] at hv
      exact hlt hv
  · have hnone : ¬∃ v, v < 2 ^ 64 ∧ Denotes text v := by
      rintro ⟨v, -, hden⟩
      exact hdigits (denotes_iff.1 hden).1
    by_cases hnil : (start text).2 = []
    · obtain ⟨e, he⟩ := StartStop.parseU64_nil name hnil
      exact Or.inl ⟨e, he, hnone⟩
    · have hstray : ∃ c ∈ (start text).2, ¬IsDigit (start text).1 c := by
        by_contra hall
        push Not at hall
        exact hdigits ⟨hnil, hall⟩
      obtain ⟨e, he⟩ := StartStop.scan_stray name text start_base (UInt64.ofNat 0) hstray
      rw [StartStop.parseU64_scan hnil]
      exact Or.inl ⟨e, he, hnone⟩

theorem denotes_unique {v' : Nat} (h : Denotes text v) (h' : Denotes text v') : v = v' := by
  rw [(denotes_iff.1 h).2, (denotes_iff.1 h').2]

/-- **The second copy is exact.** -/
theorem parseU64_exact (text : List UInt8) (name : String) :
    (∀ v : UInt64, StartStop.parseU64 text name = .ok v ↔ Denotes text v.toNat) ∧
      ((∃ e, StartStop.parseU64 text name = .error e) ↔
        ∀ v, v ≤ 2 ^ 64 - 1 → ¬Denotes text v) := by
  rcases StartStop.parseU64_eq text name with ⟨e, he, hnone⟩ | ⟨v, hv, hlt, hden⟩
  · refine ⟨fun v => ?_, ?_⟩
    · rw [he]
      exact iff_of_false (by rintro ⟨⟩) fun h => hnone ⟨_, v.toNat_lt, h⟩
    · exact iff_of_true ⟨e, he⟩ fun v hle h => hnone ⟨v, by omega, h⟩
  · refine ⟨fun v' => ?_, ?_⟩
    · rw [hv]
      constructor
      · intro h
        cases h
        rw [UInt64.toNat_ofNat_of_lt' hlt]
        exact hden
      · intro h
        rw [denotes_unique hden h, UInt64.ofNat_toNat]
    · refine iff_of_false ?_ fun h => h v (by omega) hden
      rintro ⟨e, he⟩
      rw [hv] at he
      cases he

/-! ## The two copies -/

theorem Info.parseU64_ok {value : UInt64} :
    Info.parseU64 text name = .ok value ↔
      (∀ c ∈ (start text).2, IsDigit (start text).1 c) ∧
        value = UInt64.ofNat (valueOf (start text).1 (start text).2) := by
  have hscan : Info.parseU64 text name =
      Info.scan name text (start text).1 (UInt64.ofNat 0) (start text).2 := rfl
  rw [hscan]
  by_cases hall : ∀ c ∈ (start text).2, IsDigit (start text).1 c
  · rw [Info.scan_digits start_base 0 hall]
    constructor
    · intro h
      cases h
      exact ⟨hall, rfl⟩
    · rintro ⟨-, rfl⟩
      rfl
  · have hstray : ∃ c ∈ (start text).2, ¬IsDigit (start text).1 c := by
      push Not at hall
      exact hall
    rw [Info.scan_stray start_base _ hstray]
    exact iff_of_false (by rintro ⟨⟩) fun h => hall h.1

theorem Info.parsePortId_ok {port : UInt16} :
    Info.parsePortId rteMaxEthports text = .ok port ↔
      (∀ c ∈ (start text).2, IsDigit (start text).1 c) ∧
        valueOf (start text).1 (start text).2 % 2 ^ 64 < rteMaxEthports ∧
        port = UInt16.ofNat (valueOf (start text).1 (start text).2) := by
  simp only [Info.parsePortId, bind_eq_ok, Info.parseU64_ok, ensure_eq_ok, Nat.not_le]
  constructor
  · rintro ⟨_, ⟨hall, rfl⟩, _, hlt, heq⟩
    rw [UInt64.toNat_ofNat'] at hlt
    cases heq
    exact ⟨hall, hlt, UInt64.toUInt16_ofNat' _⟩
  · rintro ⟨hall, hlt, rfl⟩
    rw [← UInt64.toNat_ofNat'] at hlt
    exact ⟨_, ⟨hall, rfl⟩, (), hlt, congrArg Except.ok (UInt64.toUInt16_ofNat' _)⟩

/-- Up to 65535, the two range checks of the second copy are the one of the first. -/
theorem StartStop.parsePortId_ok (hmax : rteMaxEthports ≤ 65535) {port : UInt16} :
    StartStop.parsePortId rteMaxEthports text = .ok port ↔
      ∃ v, Denotes text v ∧ v < rteMaxEthports ∧ port = UInt16.ofNat v := by
  simp only [StartStop.parsePortId, StartStop.parseU16, bind_eq_ok, ensure_eq_ok, Nat.not_le,
    UInt64.not_lt]
  rcases StartStop.parseU64_eq text "port" with ⟨e, he, hnone⟩ | ⟨v, hv, hlt, hden⟩
  · rw [he]
    refine iff_of_false ?_ ?_
    · rintro ⟨_, ⟨_, ⟨⟩, -⟩, -⟩
    · rintro ⟨v, hden, hport, -⟩
      exact hnone ⟨v, by omega, hden⟩
  · rw [hv]
    constructor
    · rintro ⟨_, ⟨_, hval, _, hle, hport⟩, _, hrange, heq⟩
      cases hval
      cases hport
      cases heq
      rw [UInt64.le_iff_toNat_le, UInt64.toNat_ofNat_of_lt' hlt] at hle
      have hle16 : v ≤ 65535 := hle
      rw [UInt64.toUInt16_ofNat', UInt16.toNat_ofNat_of_lt' (show v < 2 ^ 16 by omega)] at hrange
      exact ⟨v, hden, hrange, UInt64.toUInt16_ofNat' _⟩
    · rintro ⟨v', hden', hport, rfl⟩
      obtain rfl := denotes_unique hden hden'
      have hle16 : UInt64.ofNat v ≤ 0xffff := by
        rw [UInt64.le_iff_toNat_le, UInt64.toNat_ofNat_of_lt' hlt]
        exact Nat.le_of_lt_succ (show v < 65536 by omega)
      refine ⟨UInt16.ofNat v, ⟨_, rfl, (), hle16, congrArg Except.ok (UInt64.toUInt16_ofNat' _)⟩, (), ?_,
        rfl⟩
      rw [UInt16.toNat_ofNat_of_lt' (show v < 2 ^ 16 by omega)]
      exact hport

/-- **Where the two copies read a text alike.** -/
theorem parsePortId_alike_iff (rteMaxEthports : Nat) (hmax : rteMaxEthports ≤ 65535)
    (text : List UInt8) :
    Alike (Info.parsePortId rteMaxEthports text) (StartStop.parsePortId rteMaxEthports text) ↔
      ¬Slip rteMaxEthports text := by
  rw [alike_iff]
  simp only [Info.parsePortId_ok, StartStop.parsePortId_ok hmax]
  constructor
  · rintro h ⟨hall, hslip, hlt⟩
    obtain ⟨v, hden, hv, -⟩ := (h _).1 ⟨hall, hlt, rfl⟩
    obtain ⟨hdigits, rfl⟩ := denotes_iff.1 hden
    rcases hslip with hnil | hwrap
    · exact hdigits.1 hnil
    · omega
  · intro hslip port
    constructor
    · rintro ⟨hall, hlt, rfl⟩
      have hne : (start text).2 ≠ [] := fun hnil => hslip ⟨hall, Or.inl hnil, hlt⟩
      have hfit : valueOf (start text).1 (start text).2 < 2 ^ 64 := by
        by_contra hwrap
        exact hslip ⟨hall, Or.inr (Nat.not_lt.1 hwrap), hlt⟩
      rw [Nat.mod_eq_of_lt hfit] at hlt
      exact ⟨_, denotes_iff.2 ⟨⟨hne, hall⟩, rfl⟩, hlt, rfl⟩
    · rintro ⟨v, hden, hv, rfl⟩
      obtain ⟨hdigits, rfl⟩ := denotes_iff.1 hden
      have hfit : valueOf (start text).1 (start text).2 < 2 ^ 64 := by omega
      rw [Nat.mod_eq_of_lt hfit]
      exact ⟨hdigits.2, hv, rfl⟩

/-- 31 is port 31; 2^64 + 1 is port 1, or an error. -/
theorem parsePortId_alike_iff_32 :
    Alike (Info.parsePortId 32 (bytesOf "0x1f")) (StartStop.parsePortId 32 (bytesOf "0x1f")) ∧
      ¬Alike (Info.parsePortId 32 (bytesOf "18446744073709551617"))
        (StartStop.parsePortId 32 (bytesOf "18446744073709551617")) :=
  ⟨(parsePortId_alike_iff 32 (by decide) _).2 (by decide +kernel),
    fun h => (parsePortId_alike_iff 32 (by decide) _).1 h (by decide +kernel)⟩

/-- The empty text is port 0, or an error. -/
theorem parsePortId_not_alike :
    ¬∀ rteMaxEthports ≤ 65535, ∀ text,
      Alike (Info.parsePortId rteMaxEthports text) (StartStop.parsePortId rteMaxEthports text) := by
  intro h
  have hinfo : Info.parsePortId 32 [] = .ok 0 := by decide
  have hstart : StartStop.parsePortId 32 [] = .error (bytesOf "empty port") := by decide
  rcases h 32 (by decide) [] with ⟨⟨e, he⟩, -⟩ | ⟨port, -, hport⟩
  · rw [hinfo] at he
    cases he
  · rw [hstart] at hport
    cases hport

end Parse

end AdvCpp.Dpdk.PortId
