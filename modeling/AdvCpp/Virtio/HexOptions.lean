import AdvCpp.Virtio.NumericOptions

/-!
# Addresses and payloads on the command line

`parse_mac` and `parse_hex_bytes` of `virtio_net_vfio.hpp` and of `raw_eth.py`.  A Python string of
ASCII characters is the list of their codes.

* `parseMac`, `parseHexBytes` — the C++ functions.
* `Py.parseMac`, `Py.parseHexBytes` — the Python functions, over `bytes.fromhex`.
* `Paired` — digits in pairs with white space around the pairs, which is what `fromhex` takes.
* `textParsers_alike_iff` — on which texts the two sides agree.
-/

namespace AdvCpp.Virtio.HexOptions

open AdvCpp.Lib Dpdk.StaticCompat NumericOptions

/-! ## The source -/

def isxdigit (c : UInt8) : Bool := IsDigit 16 c

def isspace (c : UInt8) : Bool := asciiSpace c

/-- `ch == ':' || ch == '-'` -/
def separator (ch : UInt8) : Bool := ch = ':'.toUInt8 ∨ ch = '-'.toUInt8

/-- The loop over the text, with the digits so far. -/
def collect (skip : UInt8 → Bool) (e : Thrown) :
    List UInt8 → List UInt8 → Except Thrown (List UInt8)
  | hex, [] => .ok hex
  | hex, ch :: text =>
    if skip ch then collect skip e hex text
    else if ¬isxdigit ch then .error e
    else collect skip e (hex ++ [ch]) text

/-- `std::stoul(hex.substr(i, 2), nullptr, 16)`; `unsigned long` has 64 bits. -/
def byteAt (binary : Bool) (hex : List UInt8) (i : Nat) : Except Thrown UInt8 := do
  let (value, _) ← stoull binary ((hex.drop i).take 2) 16
  return value.toUInt8

def parseMac (binary : Bool) (text : List UInt8) (name : String) : Except Thrown (List UInt8) := do
  let hex ← collect separator (invalid name text) [] text
  ensure (¬hex.length ≠ 12) (invalid name text)
  (List.range 6).mapM fun i => byteAt binary hex (i * 2)

def parseHexBytes (binary : Bool) (text : List UInt8) (name : String) :
    Except Thrown (List UInt8) := do
  let hex ← collect (fun ch => isspace ch || separator ch) (invalid name text) [] text
  ensure (¬hex.length % 2 ≠ 0)
    (.runtimeError (bytesOf ("invalid " ++ name ++ ": odd number of hex digits")))
  (List.range (hex.length / 2)).mapM fun i => byteAt binary hex (i * 2)

namespace Py

/-- `ValueError`; the text of `fromhex` is its own. -/
inductive ValueError where
  | text (what : List UInt8)
  | fromhex
  deriving DecidableEq

/-- `bytes.fromhex`: all ASCII white space before a pair is skipped, and none inside it. -/
def fromhex : List UInt8 → Except ValueError (List UInt8)
  | [] => .ok []
  | c :: p =>
    if isspace c then fromhex p
    else
      match p with
      | [] => .error .fromhex
      | c' :: p =>
        if isxdigit c ∧ isxdigit c' then do
          let rest ← fromhex p
          return UInt8.ofNat (valueOf 16 [c, c']) :: rest
        else .error .fromhex

/-- `str.lower` -/
def lower (c : UInt8) : UInt8 := if 'A'.toUInt8 ≤ c ∧ c ≤ 'Z'.toUInt8 then c + 32 else c

def invalidMac (text : List UInt8) : ValueError := .text (bytesOf "invalid MAC address: " ++ text)

def parseMac (text : List UInt8) : Except ValueError (List UInt8) := do
  let hexText := ((text.filter (· ≠ ':'.toUInt8)).filter (· ≠ '-'.toUInt8)).map lower
  ensure (¬hexText.length ≠ 12) (invalidMac text)
  (fromhex hexText).mapError fun _ => invalidMac text

def parseHexBytes (text : List UInt8) : Except ValueError (List UInt8) := do
  let hexText := text.filter fun ch => ch ∉ bytesOf " :-\n\t"
  ensure (¬hexText.length % 2 ≠ 0) (.text (bytesOf "hex payload has an odd number of digits"))
  fromhex hexText

end Py

/-! ## Pairs of digits -/

/-- Digits in pairs, with white space around the pairs. -/
inductive Paired : List UInt8 → Prop where
  | nil : Paired []
  | space {c : UInt8} {p : List UInt8} (hc : isspace c) (hp : Paired p) : Paired (c :: p)
  | pair {c c' : UInt8} {p : List UInt8} (hc : isxdigit c) (hc' : isxdigit c') (hp : Paired p) :
    Paired (c :: c' :: p)

/-- The bytes of the pairs. -/
def decode : List UInt8 → List UInt8
  | c :: c' :: p => UInt8.ofNat (valueOf 16 [c, c']) :: decode p
  | _ => []

/-- The text without the separators. -/
def macText (text : List UInt8) : List UInt8 := text.filter fun ch => !separator ch

/-- The text without what both sides skip. -/
def payloadText (text : List UInt8) : List UInt8 := text.filter fun ch => ch ∉ bytesOf " :-\n\t"

/-- Twelve characters with white space among them, and the digits in pairs. -/
def MacSlip (text : List UInt8) : Prop :=
  (macText text).length = 12 ∧ (∃ c ∈ macText text, isspace c) ∧ Paired (macText text)

/-- Digits, an even number of them, and `\r`, `\v` or `\f`: an odd number of these, or one inside a
pair. -/
def PayloadSlip (text : List UInt8) : Prop :=
  (∀ c ∈ payloadText text, isxdigit c ∨ isspace c) ∧
    (payloadText text).countP isxdigit % 2 = 0 ∧
    ((payloadText text).countP isspace % 2 ≠ 0 ∨ ¬Paired (payloadText text))

section Pairs

variable {p : List UInt8} {c c' : UInt8}

/-- What a digit is not. -/
theorem isxdigit_ne (hc : isxdigit c) :
    isspace c = false ∧ ¬(c = '+'.toUInt8 ∨ c = '-'.toUInt8) ∧ c ≠ 0 ∧
      ¬(c = 'x'.toUInt8 ∨ c = 'X'.toUInt8) := hexDigit_ne hc

/-- No digit is white space. -/
theorem not_isspace_of_isxdigit (hc : isxdigit c) : isspace c = false := (isxdigit_ne hc).1

theorem paired_of_digits : ∀ {p : List UInt8}, (∀ c ∈ p, isxdigit c) → p.length % 2 = 0 → Paired p
  | [], _, _ => .nil
  | [c], _, hlen => by simp at hlen
  | c :: c' :: p, hall, hlen => by
    have htail : ∀ x ∈ p, isxdigit x := fun x hx =>
      hall x (List.mem_cons_of_mem _ (List.mem_cons_of_mem _ hx))
    have heven : p.length % 2 = 0 := by
      simp only [List.length_cons] at hlen
      omega
    exact .pair (hall c List.mem_cons_self) (hall c' (List.mem_cons_of_mem _ List.mem_cons_self))
      (paired_of_digits htail heven)

/-- In pairs, the characters are digits and white space, and the number of the digits is even. -/
theorem Paired.digits (h : Paired p) :
    (∀ c ∈ p, isxdigit c ∨ isspace c) ∧ p.countP isxdigit % 2 = 0 := by
  induction h with
  | nil => exact ⟨by rintro _ ⟨⟩, rfl⟩
  | @space c p hc hp ih =>
    have hdigit : ¬isxdigit c := by
      intro hdigit
      rw [not_isspace_of_isxdigit hdigit] at hc
      cases hc
    rw [List.countP_cons_of_neg hdigit]
    refine ⟨fun x hx => ?_, ih.2⟩
    rcases List.mem_cons.1 hx with rfl | hx
    · exact Or.inr hc
    · exact ih.1 x hx
  | @pair c c' p hc hc' hp ih =>
    rw [List.countP_cons_of_pos hc, List.countP_cons_of_pos hc']
    refine ⟨fun x hx => ?_, by omega⟩
    rcases List.mem_cons.1 hx with rfl | hx
    · exact Or.inl hc
    · rcases List.mem_cons.1 hx with rfl | hx
      · exact Or.inl hc'
      · exact ih.1 x hx

end Pairs

/-! ## The C++ functions -/

section Cpp

variable {binary : Bool} {text hex : List UInt8} {name : String} {skip : UInt8 → Bool} {e : Thrown}

/-- The loop ends with the characters that are not skipped, when all of them are digits. -/
theorem collect_ok {result : List UInt8} :
    collect skip e hex text = .ok result ↔
      (∀ c ∈ text.filter fun ch => !skip ch, isxdigit c) ∧
        result = hex ++ text.filter fun ch => !skip ch := by
  induction text generalizing hex with
  | nil =>
    constructor
    · intro h
      cases h
      exact ⟨by rintro _ ⟨⟩, (List.append_nil _).symm⟩
    · rintro ⟨-, rfl⟩
      exact congrArg Except.ok (List.append_nil hex).symm
  | cons ch text ih =>
    rw [collect]
    by_cases hskip : skip ch
    · rw [if_pos hskip, ih, List.filter_cons_of_neg (by simp [hskip])]
    · rw [if_neg hskip, List.filter_cons_of_pos (by simp [hskip])]
      by_cases hdigit : isxdigit ch
      · rw [if_neg (not_not.2 hdigit), ih, List.forall_mem_cons, List.append_assoc]
        simp only [hdigit, true_and, List.singleton_append]
      · rw [if_pos hdigit]
        exact iff_of_false (by rintro ⟨⟩) fun h => hdigit (h.1 ch List.mem_cons_self)

theorem valueOf_pair_lt {c c' : UInt8} (hc : isxdigit c) (hc' : isxdigit c') :
    valueOf 16 [c, c'] < 256 := by
  obtain ⟨top, htop, hlt⟩ := (Option.any_eq_true _ _).1 hc
  obtain ⟨bot, hbot, hlt'⟩ := (Option.any_eq_true _ _).1 hc'
  have hval : valueOf 16 [c, c'] = (0 * 16 + top) * 16 + bot := by
    simp only [valueOf, List.filterMap_cons_some htop, List.filterMap_cons_some hbot,
      List.filterMap_nil, horner, hornerFrom_cons, hornerFrom_nil]
  have htop16 := of_decide_eq_true hlt
  have hbot16 := of_decide_eq_true hlt'
  omega

/-- Two digits are a number in base 16. -/
theorem stoull_pair {c c' : UInt8} (hc : isxdigit c) (hc' : isxdigit c') :
    stoull binary [c, c'] 16 = .ok (UInt64.ofNat (valueOf 16 [c, c']), 2) := by
  obtain ⟨hspace, hsign, hzero, -⟩ := isxdigit_ne hc
  obtain ⟨-, -, hzero', hx⟩ := isxdigit_ne hc'
  have hcstr : cStr [c, c'] = [c, c'] := by simp [cStr, hzero, hzero']
  change asciiSpace c = false at hspace
  have hdrop : [c, c'].dropWhile asciiSpace = [c, c'] :=
    List.dropWhile_cons_of_neg (by simp [hspace])
  have hdigits : digitsOf 16 [c, c'] = [c, c'] := by
    refine List.takeWhile_eq_self_iff.2 fun x hx => ?_
    rcases List.mem_cons.1 hx with rfl | hx
    · exact hc
    · rw [List.mem_singleton.1 hx]
      exact hc'
  have hnumeral : numeralOf binary 16 [c, c'] = some (2, valueOf 16 [c, c']) := by
    have hhex : ¬Hex 16 [c, c'] := by
      rintro ⟨-, ⟨-, hmark⟩, -⟩
      exact hx (hmark.imp (Option.some.inj) (Option.some.inj))
    have hbinary : ¬(binary = true ∧ Binary 16 [c, c']) := by
      rintro ⟨-, hbase, -⟩
      revert hbase
      decide
    rw [numeralOf, if_neg hhex, if_neg hbinary]
    have hradix : radixOf 16 [c, c'] = 16 := rfl
    rw [hradix, plain, hdigits]
    rfl
  have hlt : ¬2 ^ 64 ≤ valueOf 16 [c, c'] := by
    have hle := valueOf_pair_lt hc hc'
    omega
  rw [stoull, hcstr, strtoull, hdrop, skipSign_other _ hsign]
  simp only [hnumeral, ulongRule, if_neg hlt]
  rfl

theorem byteAt_pair {c c' : UInt8} (hc : isxdigit c) (hc' : isxdigit c') (p : List UInt8) :
    byteAt binary (c :: c' :: p) 0 = .ok (UInt8.ofNat (valueOf 16 [c, c'])) := by
  have htake : ((c :: c' :: p).drop 0).take 2 = [c, c'] := rfl
  rw [byteAt, htake, stoull_pair hc hc', ok_bind]
  exact congrArg Except.ok (UInt64.toUInt8_ofNat' _)

/-- The loop over the pairs. -/
theorem bytes_ok : ∀ {n : Nat} {hex : List UInt8}, (∀ c ∈ hex, isxdigit c) → hex.length = n * 2 →
    ((List.range n).mapM fun i => byteAt binary hex (i * 2)) = .ok (decode hex)
  | 0, hex, _, hlen => by
    obtain rfl := List.length_eq_zero_iff.1 hlen
    rfl
  | n + 1, c :: c' :: p, hall, hlen => by
    have htail : ∀ x ∈ p, isxdigit x := fun x hx =>
      hall x (List.mem_cons_of_mem _ (List.mem_cons_of_mem _ hx))
    have hlen' : p.length = n * 2 := by
      simp only [List.length_cons] at hlen
      omega
    have hstep : (fun i => byteAt binary (c :: c' :: p) (i * 2)) ∘ Nat.succ =
        fun i => byteAt binary p (i * 2) := by
      funext i
      simp [byteAt, Nat.succ_mul]
    rw [List.range_succ_eq_map, List.mapM_cons, List.mapM_map, hstep, bytes_ok htail hlen',
      Nat.zero_mul, byteAt_pair (hall c List.mem_cons_self)
        (hall c' (List.mem_cons_of_mem _ List.mem_cons_self))]
    rfl
  | n + 1, [_], _, hlen => by
    simp only [List.length_singleton] at hlen
    omega

theorem parseMac_ok {bytes : List UInt8} :
    parseMac binary text name = .ok bytes ↔
      (∀ c ∈ macText text, isxdigit c) ∧ (macText text).length = 12 ∧
        bytes = decode (macText text) := by
  simp only [parseMac, bind_eq_ok, collect_ok, ensure_eq_ok, not_not, List.nil_append]
  constructor
  · rintro ⟨hex, ⟨hall, rfl⟩, _, hlen, hbytes⟩
    rw [bytes_ok (n := 6) hall hlen] at hbytes
    cases hbytes
    exact ⟨hall, hlen, rfl⟩
  · rintro ⟨hall, hlen, rfl⟩
    exact ⟨_, ⟨hall, rfl⟩, (), hlen, bytes_ok (n := 6) hall hlen⟩

/-- What is neither white space nor a separator. -/
theorem filter_payload (text : List UInt8) :
    (text.filter fun ch => !(isspace ch || separator ch)) =
      (payloadText text).filter fun ch => !isspace ch := by
  have hall : ∀ n : Fin 256, (!(isspace (UInt8.ofNat n) || separator (UInt8.ofNat n))) =
      (!isspace (UInt8.ofNat n) && decide (UInt8.ofNat n ∉ bytesOf " :-\n\t")) := by
    decide +kernel
  rw [payloadText, List.filter_filter]
  refine List.filter_congr fun c _ => ?_
  have hc := hall ⟨c.toNat, c.toNat_lt⟩
  simp only [UInt8.ofNat_toNat] at hc
  exact hc

theorem parseHexBytes_ok {bytes : List UInt8} :
    parseHexBytes binary text name = .ok bytes ↔
      (∀ c ∈ (payloadText text).filter fun ch => !isspace ch, isxdigit c) ∧
        ((payloadText text).filter fun ch => !isspace ch).length % 2 = 0 ∧
        bytes = decode ((payloadText text).filter fun ch => !isspace ch) := by
  simp only [parseHexBytes, bind_eq_ok, collect_ok, ensure_eq_ok, not_not, List.nil_append,
    filter_payload]
  have hhalf : ∀ {n : Nat}, n % 2 = 0 → n = n / 2 * 2 := by
    intro n h
    omega
  constructor
  · rintro ⟨hex, ⟨hall, rfl⟩, _, heven, hbytes⟩
    rw [bytes_ok hall (hhalf heven)] at hbytes
    cases hbytes
    exact ⟨hall, heven, rfl⟩
  · rintro ⟨hall, heven, rfl⟩
    exact ⟨_, ⟨hall, rfl⟩, (), heven, bytes_ok hall (hhalf heven)⟩

end Cpp

/-! ## The Python functions -/

section Python

variable {text p : List UInt8}

theorem Py.fromhex_ok {bytes : List UInt8} :
    Py.fromhex p = .ok bytes ↔ Paired p ∧ bytes = decode (p.filter fun ch => !isspace ch) := by
  fun_induction Py.fromhex p generalizing bytes with
  | case1 =>
    constructor
    · intro h
      cases h
      exact ⟨.nil, rfl⟩
    · rintro ⟨-, rfl⟩
      rfl
  | case2 c p hc ih =>
    rw [ih, List.filter_cons_of_neg (by simp [hc])]
    refine and_congr_left fun _ => ⟨.space hc, fun h => ?_⟩
    cases h with
    | space _ hp => exact hp
    | pair hdigit _ _ =>
      rw [not_isspace_of_isxdigit hdigit] at hc
      cases hc
  | case3 c hc =>
    refine iff_of_false (by rintro ⟨⟩) ?_
    rintro ⟨h, -⟩
    cases h with
    | space hspace _ => exact hc hspace
  | case4 c hc c' p hdigits ih =>
    obtain ⟨hdigit, hdigit'⟩ := hdigits
    rw [List.filter_cons_of_pos (by simp [not_isspace_of_isxdigit hdigit]),
      List.filter_cons_of_pos (by simp [not_isspace_of_isxdigit hdigit']), decode, bind_eq_ok]
    constructor
    · rintro ⟨rest, hrest, heq⟩
      cases heq
      obtain ⟨hp, rfl⟩ := ih.1 hrest
      exact ⟨.pair hdigit hdigit' hp, rfl⟩
    · rintro ⟨h, rfl⟩
      cases h with
      | space hspace _ => exact absurd hspace hc
      | pair _ _ hp => exact ⟨_, ih.2 ⟨hp, rfl⟩, rfl⟩
  | case5 c hc c' p hdigits =>
    refine iff_of_false (by rintro ⟨⟩) ?_
    rintro ⟨h, -⟩
    cases h with
    | space hspace _ => exact hc hspace
    | pair hdigit hdigit' _ => exact hdigits ⟨hdigit, hdigit'⟩

/-- A letter and its capital are the same digit. -/
theorem Py.ascribed_lower (c : UInt8) :
    isspace (Py.lower c) = isspace c ∧ ascribed (Py.lower c) = ascribed c := by
  have hall : ∀ n : Fin 256, isspace (Py.lower (UInt8.ofNat n)) = isspace (UInt8.ofNat n) ∧
      digitValue (Py.lower (UInt8.ofNat n)) = digitValue (UInt8.ofNat n) := by decide +kernel
  have hc := hall ⟨c.toNat, c.toNat_lt⟩
  simp only [UInt8.ofNat_toNat, digitValue_eq] at hc
  exact hc

theorem Py.fromhex_lower (p : List UInt8) : Py.fromhex (p.map Py.lower) = Py.fromhex p := by
  have hdigit : ∀ c, isxdigit (Py.lower c) = isxdigit c := by
    intro c
    rw [isxdigit, isxdigit, IsDigit, IsDigit, (Py.ascribed_lower c).2]
  have hval : ∀ c c', valueOf 16 [Py.lower c, Py.lower c'] = valueOf 16 [c, c'] := by
    intro c c'
    simp only [valueOf, List.filterMap_cons, (Py.ascribed_lower _).2]
  fun_induction Py.fromhex p with
  | case1 => rfl
  | case2 c p hc ih =>
    rw [List.map_cons, Py.fromhex.eq_def]
    simp only [(Py.ascribed_lower c).1, hc, if_true, ih]
  | case3 c hc =>
    rw [List.map_cons, Py.fromhex.eq_def]
    simp only [(Py.ascribed_lower c).1, hc, List.map_nil]
    rfl
  | case4 c hc c' p hdigits ih =>
    rw [List.map_cons, List.map_cons, Py.fromhex, (Py.ascribed_lower c).1, if_neg hc]
    simp only [hdigit, hdigits, hval, ih]
    rfl
  | case5 c hc c' p hdigits =>
    rw [List.map_cons, List.map_cons, Py.fromhex, (Py.ascribed_lower c).1, if_neg hc]
    simp only [hdigit, hdigits, if_false]

theorem Py.parseMac_ok {bytes : List UInt8} :
    Py.parseMac text = .ok bytes ↔
      (macText text).length = 12 ∧ Paired (macText text) ∧
        bytes = decode ((macText text).filter fun ch => !isspace ch) := by
  have htext : (text.filter (· ≠ ':'.toUInt8)).filter (· ≠ '-'.toUInt8) = macText text := by
    rw [macText, List.filter_filter]
    refine List.filter_congr fun c _ => ?_
    simp [separator, Bool.and_comm]
  have hmap : ∀ x : Except Py.ValueError (List UInt8),
      (x.mapError fun _ => Py.invalidMac text) = .ok bytes ↔ x = .ok bytes := by
    rintro (e | bytes')
    · exact iff_of_false (by rintro ⟨⟩) (by rintro ⟨⟩)
    · exact Iff.rfl
  simp only [Py.parseMac, bind_eq_ok, ensure_eq_ok, not_not, htext, List.length_map, hmap,
    Py.fromhex_lower, Py.fromhex_ok, exists_and_left, exists_const]

theorem Py.parseHexBytes_ok {bytes : List UInt8} :
    Py.parseHexBytes text = .ok bytes ↔
      (payloadText text).length % 2 = 0 ∧ Paired (payloadText text) ∧
        bytes = decode ((payloadText text).filter fun ch => !isspace ch) := by
  have htext : (text.filter fun ch => ch ∉ bytesOf " :-\n\t") = payloadText text := rfl
  simp only [Py.parseHexBytes, bind_eq_ok, ensure_eq_ok, not_not, htext, Py.fromhex_ok,
    exists_and_left, exists_const]

end Python

/-! ## The two sides -/

section Agree

variable {binary : Bool} {text : List UInt8} {name : String}

/-- Without white space, the two sides take the same addresses. -/
theorem parseMac_alike_iff :
    Alike (parseMac binary text name) (Py.parseMac text) ↔ ¬MacSlip text := by
  simp only [alike_iff, parseMac_ok, Py.parseMac_ok]
  constructor
  · rintro h ⟨hlen, ⟨c, hc, hspace⟩, hpaired⟩
    have hdigit := ((h _).2 ⟨hlen, hpaired, rfl⟩).1 c hc
    rw [not_isspace_of_isxdigit hdigit] at hspace
    cases hspace
  · intro hslip bytes
    constructor
    · rintro ⟨hall, hlen, rfl⟩
      have hfilter : ((macText text).filter fun ch => !isspace ch) = macText text :=
        List.filter_eq_self.2 fun c hc => by simp [not_isspace_of_isxdigit (hall c hc)]
      rw [hfilter]
      exact ⟨hlen, paired_of_digits hall (by rw [hlen]), rfl⟩
    · rintro ⟨hlen, hpaired, rfl⟩
      have hnone : ∀ c ∈ macText text, ¬isspace c := fun c hc hspace =>
        hslip ⟨hlen, ⟨c, hc, hspace⟩, hpaired⟩
      have hfilter : ((macText text).filter fun ch => !isspace ch) = macText text :=
        List.filter_eq_self.2 fun c hc => by simp [hnone c hc]
      rw [hfilter]
      exact ⟨fun c hc => (hpaired.digits.1 c hc).resolve_right (hnone c hc), hlen, rfl⟩

/-- The characters that are not white space are the digits. -/
theorem countP_of_digits {p : List UInt8} (h : ∀ c ∈ p, isxdigit c ∨ isspace c) :
    (p.filter fun ch => !isspace ch).length = p.countP isxdigit ∧
      p.length = p.countP isxdigit + p.countP isspace := by
  induction p with
  | nil => exact ⟨rfl, rfl⟩
  | cons c p ih =>
    obtain ⟨hfilter, hlen⟩ := ih fun c hc => h c (List.mem_cons_of_mem _ hc)
    rcases h c List.mem_cons_self with hc | hc
    · have hspace := not_isspace_of_isxdigit hc
      rw [List.filter_cons_of_pos (by simp [hspace]), List.countP_cons_of_pos hc,
        List.countP_cons_of_neg (by simp [hspace]), List.length_cons, List.length_cons]
      omega
    · have hdigit : ¬isxdigit c := by
        intro hdigit
        rw [not_isspace_of_isxdigit hdigit] at hc
        cases hc
      rw [List.filter_cons_of_neg (by simp [hc]), List.countP_cons_of_neg hdigit,
        List.countP_cons_of_pos hc, List.length_cons]
      omega

theorem parseHexBytes_alike_iff :
    Alike (parseHexBytes binary text name) (Py.parseHexBytes text) ↔ ¬PayloadSlip text := by
  simp only [alike_iff, parseHexBytes_ok, Py.parseHexBytes_ok, List.mem_filter, Bool.not_eq_true']
  constructor
  · rintro h ⟨hall, heven, hslip⟩
    obtain ⟨hfilter, hlen⟩ := countP_of_digits hall
    have hdigits : ∀ c, c ∈ payloadText text ∧ isspace c = false → isxdigit c := by
      rintro c ⟨hc, hspace⟩
      exact (hall c hc).resolve_right (by simp [hspace])
    obtain ⟨hwhole, hpaired, -⟩ := (h _).1 ⟨hdigits, hfilter.symm ▸ heven, rfl⟩
    rcases hslip with hodd | hnot
    · omega
    · exact hnot hpaired
  · intro hslip bytes
    constructor
    · rintro ⟨hdigits, heven, rfl⟩
      have hall : ∀ c ∈ payloadText text, isxdigit c ∨ isspace c := by
        intro c hc
        cases hspace : isspace c with
        | true => exact Or.inr rfl
        | false => exact Or.inl (hdigits c ⟨hc, hspace⟩)
      obtain ⟨hfilter, hlen⟩ := countP_of_digits hall
      rw [hfilter] at heven
      have hgood : (payloadText text).countP isspace % 2 = 0 ∧ Paired (payloadText text) := by
        by_contra hnot
        exact hslip ⟨hall, heven, by tauto⟩
      exact ⟨by omega, hgood.2, rfl⟩
    · rintro ⟨hwhole, hpaired, rfl⟩
      obtain ⟨hall, heven⟩ := hpaired.digits
      obtain ⟨hfilter, -⟩ := countP_of_digits hall
      refine ⟨?_, by omega, rfl⟩
      rintro c ⟨hc, hspace⟩
      exact (hall c hc).resolve_right (by simp [hspace])

/-- **On which texts the C++ and the Python functions agree.** -/
theorem textParsers_alike_iff (binary : Bool) (text : List UInt8) (name : String) :
    (Alike (parseMac binary text name) (Py.parseMac text) ↔ ¬MacSlip text) ∧
      (Alike (parseHexBytes binary text name) (Py.parseHexBytes text) ↔ ¬PayloadSlip text) :=
  ⟨parseMac_alike_iff, parseHexBytes_alike_iff⟩

/-- An address with spaces for two of its colons has five bytes for Python, and a payload with a
carriage return is rejected by it. -/
theorem textParsers_not_alike :
    ¬(∀ binary text name, Alike (parseMac binary text name) (Py.parseMac text)) ∧
      ¬∀ binary text name, Alike (parseHexBytes binary text name) (Py.parseHexBytes text) := by
  constructor
  · intro h
    have hcpp : parseMac true (bytesOf "aa:bb cc dd:ee") "mac" =
        .error (invalid "mac" (bytesOf "aa:bb cc dd:ee")) := by decide +kernel
    have hpy : Py.parseMac (bytesOf "aa:bb cc dd:ee") = .ok [0xaa, 0xbb, 0xcc, 0xdd, 0xee] := by
      decide +kernel
    have hbytes := (alike_iff.1 (h true (bytesOf "aa:bb cc dd:ee") "mac") _).2 hpy
    rw [hcpp] at hbytes
    cases hbytes
  · intro h
    have hcpp : parseHexBytes true (bytesOf "aa\r") "payload" = .ok [0xaa] := by decide +kernel
    have hpy : Py.parseHexBytes (bytesOf "aa\r") =
        .error (.text (bytesOf "hex payload has an odd number of digits")) := by decide +kernel
    have hbytes := (alike_iff.1 (h true (bytesOf "aa\r") "payload") _).1 hcpp
    rw [hpy] at hbytes
    cases hbytes

end Agree

end AdvCpp.Virtio.HexOptions
