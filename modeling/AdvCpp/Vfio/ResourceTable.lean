import AdvCpp.Dpdk.StaticCompat
import AdvCpp.Lib.Checked

/-!
# The resource table of a PCI device

`/sys/bus/pci/devices/<BDF>/resource` has a line `<start> <end> <flags>` for each BAR.
`01_pci_enum.cpp` prints the BARs that are not empty, and `03_mmio.cpp` maps one that is present.

* `readBars`, `readBarResource` — the two readers, over `sscanf` and `>>`.
* `Bar.size`, `BarResource.size` — the two sizes.
* `barSizes_agree_iff` — for which lines they are the same, without wrapping.
-/

namespace AdvCpp.Vfio.ResourceTable

open AdvCpp.Lib Dpdk.StaticCompat

/-! ## The library -/

/-- What `%lx` and `>> std::hex` take: white space, a sign and a hexadecimal number, with `0x` or
without.  The sign, the magnitude, and the rest of the line. -/
def hexItem (s : List UInt8) : Option (Bool × Nat × List UInt8) :=
  let (negative, p) := skipSign (s.dropWhile asciiSpace)
  let number := if marked 'x' 'X' p then behindMark 16 p else plain 16 p
  number.map fun r => (negative, r.2, p.drop r.1)

/-- `%lx`; above the range the C library stores the largest number. -/
def scanLx (s : List UInt8) : Option (UInt64 × List UInt8) :=
  (hexItem s).map fun (negative, v, rest) => (UInt64.ofNat (ulongRule negative v).1.toNat, rest)

/-- `iss >> std::hex`; above the range the stream fails. -/
def extractHex (s : List UInt8) : Option (UInt64 × List UInt8) :=
  match hexItem s with
  | none => none
  | some (negative, v, rest) =>
    if (ulongRule negative v).2 then none
    else some (UInt64.ofNat (ulongRule negative v).1.toNat, rest)

/-! ## `01_pci_enum.cpp` -/

/-- `stop` is the `end` of the source. -/
structure Bar where
  start : UInt64
  stop : UInt64
  flags : UInt64
  deriving DecidableEq

namespace Bar

def size (b : Bar) : UInt64 := if b.stop ≠ 0 then b.stop - b.start + 1 else 0
def isIo (b : Bar) : Bool := b.flags &&& 0x01 ≠ 0
def is64bit (b : Bar) : Bool := (b.flags >>> 1) &&& 0x03 ≠ 0
def isPrefetchable (b : Bar) : Bool := b.flags &&& 0x08 ≠ 0

end Bar

/-- `sscanf(line.c_str(), "%lx %lx %lx", &b.start, &b.end, &b.flags)`, with `b` zero before it. -/
def scanBar (line : List UInt8) : Bar :=
  match scanLx (line.takeWhile (· ≠ 0)) with
  | none => ⟨0, 0, 0⟩
  | some (start, s) =>
    match scanLx s with
    | none => ⟨start, 0, 0⟩
    | some (stop, s) =>
      match scanLx s with
      | none => ⟨start, stop, 0⟩
      | some (flags, _) => ⟨start, stop, flags⟩

/-- The lines of a file that cannot be opened are none. -/
def readBars (file : Option (List (List UInt8))) : List Bar :=
  ((file.getD []).take 6).map scanBar

/-- `{:#x}` -/
def hex (n : UInt64) : String := "0x" ++ String.ofList (Nat.toDigits 16 n.toNat)

def barLine (i : Nat) (b : Bar) : String :=
  "    BAR" ++ toString i ++ ": " ++ hex b.start ++ "  size=" ++ toString b.size ++ "  " ++
    (if b.isIo then "I/O" else "mem") ++ (if b.isPrefetchable then " prefetch" else "") ++
      if b.is64bit then " 64-bit" else ""

/-- The BARs that `print_device` does not skip, with their indices. -/
def nonEmptyBars (file : Option (List (List UInt8))) : List (Nat × Bar) :=
  ((readBars file).zipIdx.map Prod.swap).filter fun p => p.2.size ≠ 0

def printBars (file : Option (List (List UInt8))) : List String :=
  (nonEmptyBars file).map fun p => barLine p.1 p.2

/-! ## `03_mmio.cpp` -/

structure BarResource where
  start : UInt64
  stop : UInt64
  flags : UInt64
  deriving DecidableEq

namespace BarResource

def size (r : BarResource) : UInt64 := if r.start ≤ r.stop then r.stop - r.start + 1 else 0
def isIo (r : BarResource) : Bool := r.flags &&& 0x01 ≠ 0

end BarResource

inductive MmioError where
  | badIndex
  | cannotOpen
  | missingBar (bar : Int)
  | cannotParse (bar : Int)
  | notPresent (bar : Int)
  | ioBar (bar : Int)
  | pastEnd (offset : UInt64) (bar : Int) (size : UInt64)
  deriving DecidableEq

/-- `e.what()`, for the path of the table. -/
def MmioError.what (resource : String) : MmioError → String
  | .badIndex => "BAR index must be 0..5"
  | .cannotOpen => "cannot open " ++ resource
  | .missingBar bar => "missing BAR" ++ toString bar ++ " in resource table"
  | .cannotParse bar => "cannot parse BAR" ++ toString bar ++ " resource line"
  | .notPresent bar => "BAR" ++ toString bar ++ " is not present"
  | .ioBar bar => "BAR" ++ toString bar ++ " is an I/O BAR; only memory BARs can be mmap'd"
  | .pastEnd offset bar size =>
    "offset " ++ hex offset ++ " is past BAR" ++ toString bar ++ " size " ++ hex size

/-- `iss >> std::hex >> r.start >> r.end >> r.flags` -/
def extractBar (line : List UInt8) : Option BarResource := do
  let (start, s) ← extractHex line
  let (stop, s) ← extractHex s
  let (flags, _) ← extractHex s
  return ⟨start, stop, flags⟩

def readBarResource (file : Option (List (List UInt8))) (bar : Int) :
    Except MmioError BarResource := do
  ensure (¬(bar < 0 ∨ 5 < bar)) .badIndex
  match file with
  | none => throw .cannotOpen
  | some lines =>
    match lines[bar.toNat]? with
    | none => throw (.missingBar bar)
    | some line =>
      match extractBar line with
      | none => throw (.cannotParse bar)
      | some r => return r

/-- `main` up to the mapping, which gets the size of what is returned. -/
def checkBar (file : Option (List (List UInt8))) (bar : Int) (offset : UInt64) :
    Except MmioError BarResource := do
  let barResource ← readBarResource file bar
  ensure (barResource.size ≠ 0) (.notPresent bar)
  ensure (¬barResource.isIo) (.ioBar bar)
  ensure (offset < barResource.size) (.pastEnd offset bar barResource.size)
  return barResource

/-! ## Lines -/

def space : UInt8 := ' '.toUInt8

/-- `<start> <end> <flags>`, all hexadecimal. -/
def ResourceLine (line : List UInt8) (start stop flags : UInt64) : Prop :=
  ∃ w₁ w₂ w₃, line = w₁ ++ space :: (w₂ ++ space :: w₃) ∧ Numeral 16 w₁ start.toNat ∧
    Numeral 16 w₂ stop.toNat ∧ Numeral 16 w₃ flags.toNat

section Lines

variable {w line rest : List UInt8} {v : Nat} {start stop flags : UInt64}

/-- The end of the line, or a space. -/
def Ended (rest : List UInt8) : Prop := rest = [] ∨ ∃ s, rest = space :: s

/-- Digits end where the number ends. -/
theorem plain_ended (hw : Digits 16 w) (hrest : Ended rest) :
    plain 16 (w ++ rest) = some (w.length, valueOf 16 w) := by
  have hhead : ∀ c, rest.head? = some c → IsDigit 16 c = false := by
    intro c hc
    rcases hrest with rfl | ⟨s, rfl⟩
    · cases hc
    · cases hc
      decide
  have hdigits : digitsOf 16 (w ++ rest) = w := (takeWhile_dropWhile_unique hw.2 hhead).1
  simp only [plain, hdigits, if_neg hw.1]

/-- Digits are not a mark. -/
theorem not_marked_of_digits (hw : Digits 16 w) (hrest : Ended rest) :
    ¬marked 'x' 'X' (w ++ rest) := by
  intro hmark
  obtain ⟨x, q, heq, hx⟩ := marked_iff.1 hmark
  match w, hw with
  | [c], _ =>
    obtain ⟨-, rfl⟩ := List.cons.inj heq
    rcases hrest with h | ⟨s, h⟩
    · cases h
    · obtain ⟨rfl, -⟩ := List.cons.inj h
      revert hx
      decide
  | c :: c' :: w, hw =>
    obtain ⟨-, h⟩ := List.cons.inj heq
    obtain ⟨rfl, -⟩ := List.cons.inj h
    exact (hexDigit_ne (hw.2 _ (List.mem_cons_of_mem _ List.mem_cons_self))).2.2.2 hx

/-- A number begins with a digit. -/
theorem numeral_digit (h : Numeral 16 w v) : ∃ c t, w = c :: t ∧ IsDigit 16 c := by
  cases h with
  | plain _ hw =>
    obtain ⟨hne, hall⟩ := hw
    obtain ⟨c, t, rfl⟩ := List.exists_cons_of_ne_nil hne
    exact ⟨c, t, rfl, hall c List.mem_cons_self⟩
  | hex _ _ _ => exact ⟨_, _, rfl, by decide⟩
  | binary hb _ _ => exact absurd hb (by decide)

theorem numeral_ne_zero (h : Numeral 16 w v) : ∀ c ∈ w, c ≠ 0 := by
  cases h with
  | plain _ hw => exact fun c hc => (hexDigit_ne (hw.2 c hc)).2.2.1
  | hex _ hx hw =>
    intro c hc
    rcases List.mem_cons.1 hc with rfl | hc
    · decide
    · rcases List.mem_cons.1 hc with rfl | hc
      · rcases hx with rfl | rfl
        · decide
        · decide
      · exact (hexDigit_ne (hw.2 c hc)).2.2.1
  | binary hb _ _ => exact absurd hb (by decide)

/-- **An item is the number in front**, and white space before it does not matter. -/
theorem hexItem_numeral (h : Numeral 16 w v) (hrest : Ended rest) :
    hexItem (w ++ rest) = some (false, v, rest) ∧
      hexItem (space :: (w ++ rest)) = some (false, v, rest) := by
  obtain ⟨c, t, hcons, hc⟩ := numeral_digit h
  obtain ⟨hspace, hsign, -⟩ := hexDigit_ne hc
  have hdrop : (w ++ rest).dropWhile asciiSpace = w ++ rest := by
    rw [hcons]
    exact List.dropWhile_cons_of_neg (by simp [hspace])
  have hskip : skipSign (w ++ rest) = (false, w ++ rest) := by
    rw [hcons]
    exact skipSign_other _ hsign
  have hitem : (if marked 'x' 'X' (w ++ rest) then behindMark 16 (w ++ rest)
      else plain 16 (w ++ rest)) = some (w.length, v) := by
    cases h with
    | plain _ hw => rw [if_neg (not_marked_of_digits hw hrest), plain_ended hw hrest]
    | @hex _ x w hb hx hw =>
      have hmark : marked 'x' 'X' ('0'.toUInt8 :: x :: w ++ rest) := marked_iff.2 ⟨x, _, rfl, hx⟩
      rw [if_pos hmark, behindMark]
      show (plain 16 (w ++ rest)).map _ = _
      rw [plain_ended hw hrest]
      rfl
    | binary hb _ _ => exact absurd hb (by decide)
  have heq : hexItem (w ++ rest) = some (false, v, rest) := by
    unfold hexItem
    rw [hdrop, hskip]
    dsimp only
    rw [hitem, Option.map_some, List.drop_left]
  exact ⟨heq, heq⟩

/-- Numbers of 64 bits are stored as they are. -/
theorem readers_numeral {n : UInt64} (h : Numeral 16 w n.toNat) (hrest : Ended rest) :
    (scanLx (w ++ rest) = some (n, rest) ∧ scanLx (space :: (w ++ rest)) = some (n, rest)) ∧
      extractHex (w ++ rest) = some (n, rest) ∧
      extractHex (space :: (w ++ rest)) = some (n, rest) := by
  obtain ⟨hitem, hitem'⟩ := hexItem_numeral h hrest
  have hrule : ulongRule false n.toNat = ((n.toNat : Int), false) :=
    if_neg (Nat.not_le.2 n.toNat_lt)
  simp [scanLx, extractHex, hitem, hitem', hrule]

theorem ResourceLine.ne_zero (h : ResourceLine line start stop flags) : ∀ c ∈ line, c ≠ 0 := by
  obtain ⟨w₁, w₂, w₃, rfl, h₁, h₂, h₃⟩ := h
  intro c hc
  simp only [List.mem_append, List.mem_cons] at hc
  rcases hc with hc | rfl | hc | rfl | hc
  · exact numeral_ne_zero h₁ c hc
  · decide
  · exact numeral_ne_zero h₂ c hc
  · decide
  · exact numeral_ne_zero h₃ c hc

/-- **Both programs read what the line says.** -/
theorem ResourceLine.read (h : ResourceLine line start stop flags) :
    scanBar line = ⟨start, stop, flags⟩ ∧ extractBar line = some ⟨start, stop, flags⟩ := by
  have hwhole : line.takeWhile (· ≠ 0) = line :=
    List.takeWhile_eq_self_iff.2 fun c hc => decide_eq_true (h.ne_zero c hc)
  obtain ⟨w₁, w₂, w₃, rfl, h₁, h₂, h₃⟩ := h
  have hspace : ∀ s, Ended (space :: s) := fun s => Or.inr ⟨s, rfl⟩
  have hfirst := readers_numeral h₁ (hspace (w₂ ++ space :: w₃))
  have hsecond := readers_numeral h₂ (hspace w₃)
  have hthird := readers_numeral h₃ (Or.inl rfl : Ended [])
  rw [List.append_nil] at hthird
  constructor
  · rw [scanBar, hwhole]
    simp only [hfirst.1.1, hsecond.1.2, hthird.1.2]
  · simp only [extractBar, hfirst.2.1, hsecond.2.2, hthird.2.2, Option.bind_eq_bind,
      Option.bind_some, Option.pure_def]

end Lines

/-! ## Sizes -/

/-- The result of a computation that does not wrap. -/
def Fits (x : Int) : Prop := 0 ≤ x ∧ x < 2 ^ 64

/-- `end - start` and `end - start + 1` fit. -/
def SizeFits (start stop : UInt64) : Prop :=
  Fits (stop.toNat - start.toNat) ∧ Fits (stop.toNat - start.toNat + 1)

def Bar.NoWrap (b : Bar) : Prop := b.stop ≠ 0 → SizeFits b.start b.stop

def BarResource.NoWrap (r : BarResource) : Prop := r.start ≤ r.stop → SizeFits r.start r.stop

/-- The two programs agree on the BAR of a line. -/
structure Agree (start stop flags : UInt64) : Prop where
  size : (Bar.mk start stop flags).size = (BarResource.mk start stop flags).size
  noWrap : (Bar.mk start stop flags).NoWrap ∧ (BarResource.mk start stop flags).NoWrap
  absent : start = 0 → stop = 0 → flags = 0 →
    (Bar.mk start stop flags).size = 0 ∧ (BarResource.mk start stop flags).size = 0
  rejected : ∀ (lines : List (List UInt8)) (bar : Nat) (line : List UInt8) (offset : UInt64),
    bar ≤ 5 → lines[bar]? = some line → ResourceLine line start stop flags →
    (checkBar (some lines) bar offset = .error (.notPresent bar) ↔
      ∀ b, (bar, b) ∉ nonEmptyBars (some lines))

/-- The end is not before the start, and the range is neither empty (zero) nor all there is; or only
the end is zero. -/
def Ordinary (start stop : UInt64) : Prop :=
  if stop = 0 then start ≠ 0
  else start ≤ stop ∧ ¬(start = 0 ∧ stop.toNat = 2 ^ 64 - 1)

section Sizes

variable {start stop flags : UInt64} {lines : List (List UInt8)} {bar : Nat} {line : List UInt8}

theorem sizeFits_iff :
    SizeFits start stop ↔ start ≤ stop ∧ ¬(start = 0 ∧ stop.toNat = 2 ^ 64 - 1) := by
  have hstart := start.toNat_lt
  have hstop := stop.toNat_lt
  rw [UInt64.le_iff_toNat_le, ← UInt64.toNat_inj, UInt64.toNat_zero]
  unfold SizeFits Fits
  omega

/-- **What `03_mmio` finds** at the index of a line. -/
theorem readBarResource_line (hbar : bar ≤ 5) (hline : lines[bar]? = some line)
    (h : ResourceLine line start stop flags) :
    readBarResource (some lines) bar = .ok ⟨start, stop, flags⟩ := by
  have hindex : ¬((bar : Int) < 0 ∨ 5 < (bar : Int)) := by omega
  simp only [readBarResource, ensure_true hindex, ok_bind, Int.toNat_natCast, hline, h.read.2]
  rfl

/-- **What `01_pci_enum` shows** at the index of a line. -/
theorem nonEmptyBars_line (hbar : bar ≤ 5) (hline : lines[bar]? = some line)
    (h : ResourceLine line start stop flags) :
    (∀ b, (bar, b) ∉ nonEmptyBars (some lines)) ↔ (Bar.mk start stop flags).size = 0 := by
  have hread : (readBars (some lines))[bar]? = some ⟨start, stop, flags⟩ := by
    have htake : (lines.take 6)[bar]? = some line := by
      rw [List.getElem?_take_of_lt (by omega), hline]
    rw [readBars, Option.getD_some, List.getElem?_map, htake, Option.map_some, h.read.1]
  have hmem : ∀ b, (bar, b) ∈ nonEmptyBars (some lines) ↔ b = ⟨start, stop, flags⟩ ∧ b.size ≠ 0 := by
    intro b
    simp only [nonEmptyBars, List.mem_filter, List.mem_map, Prod.exists, Prod.swap_prod_mk,
      List.mem_zipIdx_iff_getElem?, decide_eq_true_eq]
    constructor
    · rintro ⟨⟨b', i, hi, heq⟩, hsize⟩
      cases heq
      rw [hread] at hi
      exact ⟨(Option.some.inj hi).symm, hsize⟩
    · rintro ⟨rfl, hsize⟩
      exact ⟨⟨_, _, hread, rfl⟩, hsize⟩
  constructor
  · intro hall
    by_contra hsize
    exact hall _ ((hmem _).2 ⟨rfl, hsize⟩)
  · intro hsize b hb
    obtain ⟨rfl, hne⟩ := (hmem b).1 hb
    exact hne hsize

/-- **Which BARs are not present** for `03_mmio`. -/
theorem checkBar_notPresent (hbar : bar ≤ 5) (hline : lines[bar]? = some line)
    (h : ResourceLine line start stop flags) (offset : UInt64) :
    checkBar (some lines) bar offset = .error (.notPresent bar) ↔
      (BarResource.mk start stop flags).size = 0 := by
  rw [checkBar, readBarResource_line hbar hline h, ok_bind]
  by_cases hsize : (BarResource.mk start stop flags).size = 0
  · rw [ensure_false (not_not.2 hsize), error_bind]
    exact iff_of_true rfl hsize
  · rw [ensure_true hsize, ok_bind]
    refine iff_of_false (fun heq => ?_) hsize
    -- the other checks have messages of their own
    by_cases hio : ¬(BarResource.mk start stop flags).isIo = true
    · rw [ensure_true hio, ok_bind] at heq
      by_cases hoff : offset < (BarResource.mk start stop flags).size
      · rw [ensure_true hoff] at heq
        cases heq
      · rw [ensure_false hoff] at heq
        cases heq
    · rw [ensure_false hio] at heq
      cases heq

/-- **For which lines the two programs agree.** -/
theorem barSizes_agree_iff (start stop flags : UInt64) :
    Agree start stop flags ↔ Ordinary start stop := by
  unfold Ordinary
  constructor
  · intro h
    by_cases hstop : stop = 0
    · rw [if_pos hstop]
      rintro rfl
      subst hstop
      exact absurd h.size (by simp [Bar.size, BarResource.size])
    · rw [if_neg hstop, ← sizeFits_iff]
      exact h.noWrap.1 hstop
  · intro h
    have hfits : start ≤ stop ∨ stop ≠ 0 → SizeFits start stop := by
      intro hused
      by_cases hstop : stop = 0
      · rw [if_pos hstop] at h
        subst hstop
        rcases hused with hle | hne
        · exact absurd (UInt64.le_zero_iff.1 hle) h
        · exact absurd rfl hne
      · rw [if_neg hstop] at h
        exact sizeFits_iff.2 h
    have hsize : (Bar.mk start stop flags).size = (BarResource.mk start stop flags).size := by
      unfold Bar.size BarResource.size
      dsimp only
      by_cases hused : start ≤ stop ∨ stop ≠ 0
      · have hle := (sizeFits_iff.1 (hfits hused)).1
        rw [if_pos hle]
        refine if_pos fun hstop => ?_
        rw [if_pos hstop] at h
        rw [hstop] at hle
        exact h (UInt64.le_zero_iff.1 hle)
      · rw [if_neg fun hne => hused (Or.inr hne), if_neg fun hle => hused (Or.inl hle)]
    refine ⟨hsize, ⟨fun hne => hfits (Or.inr hne), fun hle => hfits (Or.inl hle)⟩, ?_, ?_⟩
    · intro hstart hstop
      rw [if_pos hstop] at h
      exact absurd hstart h
    · intro lines bar line offset hbar hline hread
      rw [checkBar_notPresent hbar hline hread, nonEmptyBars_line hbar hline hread, hsize]

/-- The BAR that is all zero: 03_mmio takes it for one byte. -/
theorem absent_bar_present : ¬Agree 0 0 0 := by
  intro h
  have hsize := (h.absent rfl rfl rfl).2
  revert hsize
  decide

end Sizes

end AdvCpp.Vfio.ResourceTable
