import AdvCpp.Lib.Machine

/-!
# The PCI command register

A `PciCommandGuard` remembers the PCI_COMMAND register of the device, lets the caller switch on bus
mastering, and writes the register back when it is destroyed.  The events are the calls of the
methods and the results of `pread` and `pwrite`, which can transfer one byte of the register at a
time and can fail at any byte.

* `put_first`, `put_second` — the register after bytes have been written.
* `step_inv` — what every step keeps.
* `command_restored_iff` — when the destructor leaves the register as the constructor found it.
-/

namespace AdvCpp.Vfio

open AdvCpp.Lib

def PCI_COMMAND_MEMORY : UInt16 := 2
def PCI_COMMAND_MASTER : UInt16 := 4

namespace PciCommand

/-- The methods, and the destructor. -/
inductive Op where
  | enableBusMastering
  | restore
  | destroy
  deriving DecidableEq

inductive Pc where
  /-- The caller's code. -/
  | idle
  /-- `pwrite_exact`, `done` bytes are written. -/
  | write (op : Op) (done : Nat)
  /-- `pread_exact`, `done` bytes are read into `bytes`. -/
  | readBack (op : Op) (done : Nat) (bytes : UInt16)
  | destroyed
  deriving DecidableEq

/-- The register, and the members `current_` and `restored_`. -/
structure State where
  pc : Pc
  reg : UInt16
  current : UInt16
  restored : Bool
  deriving DecidableEq

inductive Event where
  | call (op : Op)
  /-- A `pread` or `pwrite` returns -1 with EINTR, -1 with another error, or a number of bytes. -/
  | eintr
  | error
  | count (n : Nat)
  deriving DecidableEq

/-- The bits of the bytes `done`, …, `done + n - 1`. -/
def byteMask (done n : Nat) : UInt16 :=
  (if done = 0 ∧ 0 < n then 0x00ff else 0) ||| (if done < 2 ∧ 2 ≤ done + n then 0xff00 else 0)

/-- The register after the bits `mask` of `value` are written; the device keeps those that are
`writable`. -/
def put (writable mask reg value : UInt16) : UInt16 :=
  (reg &&& ~~~(writable &&& mask)) ||| (value &&& (writable &&& mask))

section Guard

variable (original writable : UInt16)

/-- What `enable_bus_mastering` asks for. -/
def wanted : UInt16 := original ||| PCI_COMMAND_MEMORY ||| PCI_COMMAND_MASTER

/-- What a method writes. -/
def value : Op → UInt16
  | .enableBusMastering => wanted original
  | .restore | .destroy => original

/-- Where `restore` or the destructor returns to. -/
def returned : Op → Pc
  | .destroy => .destroyed
  | .enableBusMastering | .restore => .idle

/-- The start of `restore`. -/
def beginRestore (op : Op) (s : State) : State :=
  if s.restored = true ∨ s.current = original then { s with pc := returned op, restored := true }
  else { s with pc := .write op 0 }

/-- An exception in a method leaves the scope of the guard, and one in the destructor is caught. -/
def throw (op : Op) (s : State) : State :=
  match op with
  | .destroy => { s with pc := .destroyed }
  | .enableBusMastering | .restore => beginRestore original .destroy s

/-- The rest of a method, with `current_` read back. -/
def finish (op : Op) (s : State) : State :=
  match op with
  | .enableBusMastering =>
    if s.current &&& PCI_COMMAND_MASTER = 0 then throw original op s
    else if s.current &&& PCI_COMMAND_MEMORY = 0 then throw original op s
    else { s with pc := .idle }
  | .restore | .destroy => { s with pc := returned op, restored := true }

def step (s : State) (e : Event) : Option State :=
  match s.pc, e with
  | .idle, .call .enableBusMastering =>
    if wanted original = s.current then some s
    else some { s with pc := .write .enableBusMastering 0 }
  | .idle, .call op => some (beginRestore original op s)
  | .write _ _, .eintr => some s
  | .write op _, .error => some (throw original op s)
  | .write op done, .count n =>
    if n = 0 then some (throw original op s)
    else if 2 < done + n then none
    else
      let s := { s with reg := put writable (byteMask done n) s.reg (value original op) }
      if done + n = 2 then some { s with pc := .readBack op 0 0 }
      else some { s with pc := .write op (done + n) }
  | .readBack _ _ _, .eintr => some s
  | .readBack op _ _, .error => some (throw original op s)
  | .readBack op done bytes, .count n =>
    if n = 0 then some (throw original op s)
    else if 2 < done + n then none
    else
      let bytes := bytes ||| (s.reg &&& byteMask done n)
      if done + n = 2 then some (finish original op { s with current := bytes })
      else some { s with pc := .readBack op (done + n) bytes }
  | _, _ => none

/-- A guard that has been constructed: the register has been read. -/
def init : State := ⟨.idle, original, original, false⟩

def machine : Machine State Event := ⟨init original, step original writable⟩

end Guard

/-! ## What is written -/

section Bits

variable {writable mask reg v v' : UInt16}

def bit (x : UInt16) (i : Nat) : Bool := x.toBitVec.getLsbD i

theorem eq_of_bits {x y : UInt16} (h : ∀ i < 16, bit x i = bit y i) : x = y :=
  UInt16.eq_of_toBitVec_eq (BitVec.eq_of_getLsbD_eq h)

/-- **A store**, bit by bit. -/
theorem put_bit {i : Nat} (hi : i < 16) :
    bit (put writable mask reg v) i = if bit writable i && bit mask i then bit v i else bit reg i := by
  have hput : bit (put writable mask reg v) i =
      (bit reg i && !(bit writable i && bit mask i) || bit v i && (bit writable i && bit mask i)) := by
    simp [bit, put, hi]
  rw [hput]
  cases bit writable i && bit mask i with
  | true => simp
  | false => simp

theorem bit_low : ∀ i < 16, bit 0x00ff i = decide (i < 8) := by decide
theorem bit_high : ∀ i < 16, bit 0xff00 i = decide (8 ≤ i) := by decide
theorem bit_both : ∀ i < 16, bit 0xffff i = true := by decide

/-- The high bytes are the same. -/
def SameHigh (x y : UInt16) : Prop := ∀ i < 16, 8 ≤ i → bit x i = bit y i

theorem put_low (h : SameHigh v reg) : put writable 0x00ff reg v = put writable 0xffff reg v := by
  refine eq_of_bits fun i hi => ?_
  rw [put_bit hi, put_bit hi, bit_low i hi, bit_both i hi]
  by_cases hle : 8 ≤ i
  · simp [h i hi hle]
  · simp [Nat.lt_of_not_le hle]

theorem put_high (h : SameHigh v reg) : put writable 0xff00 reg v = reg := by
  refine eq_of_bits fun i hi => ?_
  rw [put_bit hi, bit_high i hi]
  by_cases hle : 8 ≤ i
  · simp [h i hi hle]
  · simp [hle]

theorem put_put : put writable 0xffff (put writable 0xffff reg v) v' = put writable 0xffff reg v' := by
  refine eq_of_bits fun i hi => ?_
  rw [put_bit hi, put_bit hi, put_bit hi]
  split
  · rfl
  · rfl

theorem put_self : put writable mask reg reg = reg := by
  refine eq_of_bits fun i hi => ?_
  rw [put_bit hi]
  split
  · rfl
  · rfl

theorem SameHigh.put (h : SameHigh v reg) : SameHigh (put writable mask reg v) reg := by
  intro i hi hle
  rw [put_bit hi, h i hi hle]
  split
  · rfl
  · rfl

/-- Both halves of a value that is read in two parts. -/
theorem low_or_high (x : UInt16) : (x &&& 0x00ff) ||| (x &&& 0xff00) = x := by
  refine eq_of_bits fun i hi => ?_
  have hl := bit_low i hi
  have hh := bit_high i hi
  unfold bit at hl hh ⊢
  rw [UInt16.toBitVec_or, UInt16.toBitVec_and, UInt16.toBitVec_and, BitVec.getLsbD_or,
    BitVec.getLsbD_and, BitVec.getLsbD_and, hl, hh]
  by_cases hle : 8 ≤ i
  · simp [hle, Nat.not_lt.2 hle]
  · simp [hle, Nat.lt_of_not_le hle]

end Bits

section Kept

variable {original writable : UInt16}

/-- The bits that are switched on are in the low byte. -/
theorem value_sameHigh (op : Op) : SameHigh (value original op) original := by
  have htwo : ∀ i < 16, 8 ≤ i → bit PCI_COMMAND_MEMORY i = false := by decide
  have hfour : ∀ i < 16, 8 ≤ i → bit PCI_COMMAND_MASTER i = false := by decide
  cases op with
  | enableBusMastering =>
    intro i hi hle
    have h2 := htwo i hi hle
    have h4 := hfour i hi hle
    unfold bit at h2 h4 ⊢
    rw [value, wanted, UInt16.toBitVec_or, UInt16.toBitVec_or, BitVec.getLsbD_or,
      BitVec.getLsbD_or, h2, h4, Bool.or_false, Bool.or_false]
  | restore => exact fun _ _ _ => rfl
  | destroy => exact fun _ _ _ => rfl

/-- The register after the value of a method has been written. -/
def written (original writable : UInt16) (op : Op) : UInt16 :=
  put writable 0xffff original (value original op)

theorem written_restore : written original writable .restore = original := put_self

theorem written_destroy : written original writable .destroy = original := put_self

/-- What follows a first write, of one byte or of two. -/
theorem put_first {n : Nat} (hpos : 0 < n) (op op' : Op) :
    put writable (byteMask 0 n) (written original writable op) (value original op') =
      written original writable op' := by
  have hhigh : SameHigh (value original op') (written original writable op) := fun i hi hle =>
    (value_sameHigh op' i hi hle).trans ((value_sameHigh op).put i hi hle).symm
  by_cases hone : n = 1
  · subst hone
    have hmask : byteMask 0 1 = 0x00ff := rfl
    rw [hmask, put_low hhigh]
    exact put_put
  · have hmask : byteMask 0 n = 0xffff := by
      have htwo : 2 ≤ n := by omega
      simp [byteMask, hpos, htwo]
      rfl
    rw [hmask]
    exact put_put

/-- The second byte changes nothing. -/
theorem put_second (op op' : Op) :
    put writable (byteMask 1 1) (written original writable op) (value original op') =
      written original writable op := by
  refine put_high fun i hi hle => ?_
  exact (value_sameHigh op' i hi hle).trans ((value_sameHigh op).put i hi hle).symm

end Kept

/-! ## The invariant -/

section Invariant

variable (original writable : UInt16)

def Event.Fails (e : Event) : Prop := e = .error ∨ e = .count 0

instance (e : Event) : Decidable e.Fails := by
  unfold Event.Fails
  exact inferInstance

/-- Inside a method. -/
def InMethod (op : Op) (pc : Pc) : Prop :=
  (∃ done, pc = .write op done) ∨ ∃ done bytes, pc = .readBack op done bytes

def writesBack : Pc → Bool
  | .write .destroy _ => true
  | _ => false

/-- The write-back of the destructor does not fail. -/
def WriteBackOk (s : State) (e : Event) : Prop := writesBack s.pc = true → ¬e.Fails

instance (s : State) (e : Event) : Decidable (WriteBackOk s e) := by
  unfold WriteBackOk
  exact inferInstance

/-- `enable_bus_mastering` does not fail after it has changed the register and before it has read it
back, and does not change it after `restore`. -/
structure Tracked (s : State) (e : Event) : Prop where
  fails : InMethod .enableBusMastering s.pc → e.Fails → s.current = original → s.reg = original
  changes : ∀ done n, s.pc = .write .enableBusMastering done → e = .count n → 0 < n →
    s.restored = true → put writable (byteMask done n) s.reg (wanted original) = s.reg

/-- What the guard owes: if it will not write, the register is back exactly in the runs `a`. -/
def Owed (a : Prop) (s : State) : Prop := if s.restored = true then (a ↔ s.reg = original) else a

/-- The bytes of the register that have been read. -/
def BytesRead (s : State) (done : Nat) (bytes : UInt16) : Prop :=
  (done = 0 ∧ bytes = 0) ∨ (done = 1 ∧ bytes = s.reg &&& 0x00ff)

/-- The destructor, or `restore`, is about to write the register back. -/
def Restoring (a : Prop) (s : State) : Prop := a ∧ s.restored = false ∧ s.current ≠ original

/-- What holds inside a method. -/
def Running (a : Prop) (op : Op) (s : State) : Prop :=
  match op with
  | .enableBusMastering => Owed original a s
  | .restore | .destroy => Restoring original a s

/-- The invariant, where `a` says that all steps were `Tracked`. -/
def Inv (a : Prop) (s : State) : Prop :=
  (∃ op, s.reg = written original writable op) ∧
    match s.pc with
    | .idle => s.current = s.reg ∧ Owed original a s
    | .write op done =>
      Running original a op s ∧ (done = 0 ∨ done = 1 ∧ s.reg = written original writable op)
    | .readBack op done bytes =>
      Running original a op s ∧ BytesRead s done bytes ∧ s.reg = written original writable op
    | .destroyed => a ↔ s.reg = original

end Invariant

section Steps

variable {original writable : UInt16} {a : Prop} {s s' : State}

/-- **Reading back.**  What is still to be read ends at the register, or one byte is missing. -/
theorem BytesRead.read {done n : Nat} {bytes : UInt16} (h : BytesRead s done bytes) (hpos : 0 < n)
    (hle : done + n ≤ 2) :
    (done + n = 2 → bytes ||| (s.reg &&& byteMask done n) = s.reg) ∧
      (done + n ≠ 2 → BytesRead s (done + n) (bytes ||| (s.reg &&& byteMask done n))) := by
  obtain ⟨rfl, rfl⟩ | ⟨rfl, rfl⟩ := h
  · by_cases hone : n = 1
    · subst hone
      have hmask : byteMask 0 1 = 0x00ff := rfl
      simp [BytesRead, hmask]
    · obtain rfl : n = 2 := by omega
      have hmask : byteMask 0 2 = 0xffff := rfl
      have hall : s.reg &&& 0xffff = s.reg := UInt16.and_neg_one
      simp [hmask, hall]
  · obtain rfl : n = 1 := by omega
    have hmask : byteMask 1 1 = 0xff00 := rfl
    simp [hmask, low_or_high]

/-- **The start of `restore`.**  It returns at once, and what has happened is made good exactly if
`current_` is not `original_` in place of the register; or it writes the register back. -/
theorem beginRestore_cases (op : Op) (howed : Owed original a s) {b : Prop}
    (hb : b ↔ (s.current = original → s.reg = original)) :
    (beginRestore original op s = { s with pc := returned op, restored := true } ∧
        (a ∧ b ↔ s.reg = original)) ∨
      (beginRestore original op s = { s with pc := .write op 0 } ∧
        Restoring original (a ∧ b) s) := by
  unfold beginRestore
  by_cases hrestored : s.restored = true
  · rw [Owed, if_pos hrestored] at howed
    rw [if_pos (Or.inl hrestored)]
    exact Or.inl ⟨rfl, by tauto⟩
  · rw [Owed, if_neg hrestored] at howed
    by_cases hsame : s.current = original
    · rw [if_pos (Or.inr hsame)]
      exact Or.inl ⟨rfl, by tauto⟩
    · have hb' : b := hb.2 fun h => absurd h hsame
      rw [if_neg (by simp [hrestored, hsame])]
      exact Or.inr ⟨rfl, ⟨howed, hb'⟩, Bool.eq_false_iff.2 hrestored, hsame⟩

/-- **The destructor runs**, after a failure or at the end. -/
theorem beginRestore_inv (hreg : ∃ op, s.reg = written original writable op)
    (howed : Owed original a s) {b : Prop} (hb : b ↔ (s.current = original → s.reg = original)) :
    Inv original writable (a ∧ b) (beginRestore original .destroy s) := by
  obtain ⟨heq, hiff⟩ | ⟨heq, hrestoring⟩ := beginRestore_cases .destroy howed hb
  · rw [heq]
    exact ⟨hreg, hiff⟩
  · rw [heq]
    exact ⟨hreg, hrestoring, Or.inl rfl⟩

theorem Restoring.throw_inv (h : Restoring original a s)
    (hreg : ∃ op, s.reg = written original writable op) :
    Inv original writable a (beginRestore original .destroy s) := by
  have howed : Owed original a s := by
    rw [Owed, if_neg (by simp [h.2.1])]
    exact h.1
  have hinv := beginRestore_inv hreg howed (b := True) (by simp [h.2.2])
  rwa [and_true] at hinv

theorem tracked_of_not_enable {e : Event} (h : ¬InMethod .enableBusMastering s.pc) :
    Tracked original writable s e where
  fails := fun hmethod => absurd hmethod h
  changes := fun done _ hpc => absurd (Or.inl ⟨done, hpc⟩) h

theorem Inv.running {op : Op} (h : Inv original writable a s) (hop : InMethod op s.pc) :
    Running original a op s := by
  unfold Inv at h
  obtain ⟨done, hpc⟩ | ⟨done, bytes, hpc⟩ := hop
  · rw [hpc] at h
    exact h.2.1
  · rw [hpc] at h
    exact h.2.1

theorem not_enable_of_inMethod {op : Op} {pc : Pc} (hop : InMethod op pc)
    (hne : op ≠ .enableBusMastering) : ¬InMethod .enableBusMastering pc := by
  rintro (⟨done, rfl⟩ | ⟨done, bytes, rfl⟩)
  · obtain ⟨_, hpc⟩ | ⟨_, _, hpc⟩ := hop
    · cases hpc
      exact hne rfl
    · cases hpc
  · obtain ⟨_, hpc⟩ | ⟨_, _, hpc⟩ := hop
    · cases hpc
    · cases hpc
      exact hne rfl

theorem Inv.congr {b : Prop} (hab : a ↔ b) : Inv original writable a s ↔ Inv original writable b s := by
  rw [propext hab]

/-- **A failing call**, except in the write-back of the destructor. -/
theorem fails_inv {op : Op} {e : Event} (h : Inv original writable a s) (hop : InMethod op s.pc)
    (he : e.Fails) (hok : WriteBackOk s e) :
    Inv original writable (a ∧ Tracked original writable s e) (throw original op s) := by
  have hrunning := h.running hop
  by_cases henable : op = .enableBusMastering
  · subst henable
    refine beginRestore_inv h.1 hrunning ⟨fun htracked => htracked.fails hop he, fun hback => ?_⟩
    refine ⟨fun _ _ => hback, fun done n _ hn hpos => ?_⟩
    -- a failing call transfers nothing
    obtain rfl | rfl := he
    · cases hn
    · cases hn
      omega
  · have htracked : Tracked original writable s e :=
      tracked_of_not_enable (not_enable_of_inMethod hop henable)
    rw [Inv.congr (and_iff_left htracked)]
    cases op with
    | enableBusMastering => exact absurd rfl henable
    | restore => exact Restoring.throw_inv hrunning h.1
    | destroy =>
      obtain ⟨done, hpc⟩ | ⟨done, bytes, hpc⟩ := hop
      · exact absurd he (hok (by rw [hpc]; rfl))
      · unfold Inv at h
        rw [hpc] at h
        exact ⟨h.1, iff_of_true hrunning.1 (h.2.2.2.trans written_destroy)⟩

/-- **A call of a method**, or of the destructor. -/
theorem call_inv {op : Op} (h : Inv original writable a s) (hpc : s.pc = .idle)
    (hs : step original writable s (.call op) = some s') : Inv original writable a s' := by
  have hidle := h
  unfold Inv at hidle
  rw [hpc] at hidle
  obtain ⟨hreg, hcurrent, howed⟩ := hidle
  have hback : s.current = original → s.reg = original := fun hsame => hcurrent ▸ hsame
  simp only [step, hpc] at hs
  cases op with
  | enableBusMastering =>
    dsimp only at hs
    split at hs
    · cases hs
      exact h
    · cases hs
      exact ⟨hreg, howed, Or.inl rfl⟩
  | restore =>
    cases hs
    obtain ⟨heq, hiff⟩ | ⟨heq, hrestoring⟩ :=
      beginRestore_cases .restore howed (b := True) (by simpa using hback)
    · rw [heq]
      rw [and_true] at hiff
      exact ⟨hreg, hcurrent, hiff⟩
    · rw [heq]
      rw [and_true] at hrestoring
      exact ⟨hreg, hrestoring, Or.inl rfl⟩
  | destroy =>
    cases hs
    have hinv := beginRestore_inv hreg howed (b := True) (by simpa using hback)
    rwa [and_true] at hinv

/-- A write that a run may not contain unless it changes nothing. -/
theorem Owed.put {done n : Nat} (hreg : ∃ op, s.reg = written original writable op)
    (howed : Owed original a s) (hpc : s.pc = .write .enableBusMastering done) (hpos : 0 < n)
    {s' : State} (hreg' : s'.reg = put writable (byteMask done n) s.reg (wanted original))
    (hwritten : s'.reg = written original writable .enableBusMastering)
    (hrestored : s'.restored = s.restored) :
    Owed original (a ∧ Tracked original writable s (.count n)) s' := by
  have hfails : ¬(Event.count n).Fails := by simp [Event.Fails]; omega
  by_cases hsame : s'.reg = s.reg
  · have htracked : Tracked original writable s (.count n) := by
      refine ⟨fun _ hf => absurd hf hfails, fun done' n' hpc' hn _ _ => ?_⟩
      cases hpc.symm.trans hpc'
      cases hn
      exact hreg'.symm.trans hsame
    unfold Owed at howed ⊢
    rw [hrestored, hsame, and_iff_left htracked]
    exact howed
  · unfold Owed at howed ⊢
    rw [hrestored]
    by_cases hdone : s.restored = true
    · rw [if_pos hdone]
      refine iff_of_false (fun h => hsame ?_) fun h => hsame ?_
      · exact hreg'.trans (h.2.changes done n hpc rfl hpos hdone)
      · -- what was not switched on before the write would be switched on now
        obtain ⟨op, hop⟩ := hreg
        cases op with
        | enableBusMastering => exact hwritten.trans hop.symm
        | restore => exact h.trans (hop.trans written_restore).symm
        | destroy => exact h.trans (hop.trans written_destroy).symm
    · rw [if_neg hdone] at howed ⊢
      refine ⟨howed, fun _ hf => absurd hf hfails, fun _ _ _ _ _ h => absurd h hdone⟩

/-- **Bytes written.** -/
theorem write_inv {op : Op} {done n : Nat} (h : Inv original writable a s)
    (hpc : s.pc = .write op done) (hpos : 0 < n)
    (hs : step original writable s (.count n) = some s') :
    Inv original writable (a ∧ Tracked original writable s (.count n)) s' := by
  have hwrite := h
  unfold Inv at hwrite
  rw [hpc] at hwrite
  obtain ⟨hreg, hrunning, hdone⟩ := hwrite
  have hne : n ≠ 0 := by omega
  simp only [step, hpc, if_neg hne] at hs
  split at hs
  · cases hs
  · rename_i hle
    have hwritten : put writable (byteMask done n) s.reg (value original op) =
        written original writable op := by
      obtain rfl | ⟨rfl, hreg⟩ := hdone
      · obtain ⟨op', hop'⟩ := hreg
        rw [hop']
        exact put_first hpos op' op
      · obtain rfl : n = 1 := by omega
        rw [hreg]
        exact put_second op op
    have hrunning' : ∀ pc, Running original (a ∧ Tracked original writable s (.count n)) op
        { s with pc := pc, reg := put writable (byteMask done n) s.reg (value original op) } := by
      intro pc
      cases op with
      | enableBusMastering => exact Owed.put hreg hrunning hpc hpos rfl hwritten rfl
      | restore => exact ⟨⟨hrunning.1, tracked_of_not_enable (by simp [InMethod, hpc])⟩, hrunning.2⟩
      | destroy => exact ⟨⟨hrunning.1, tracked_of_not_enable (by simp [InMethod, hpc])⟩, hrunning.2⟩
    split at hs
    · cases hs
      exact ⟨⟨op, hwritten⟩, hrunning' _, Or.inl ⟨rfl, rfl⟩, hwritten⟩
    · cases hs
      exact ⟨⟨op, hwritten⟩, hrunning' _, Or.inr ⟨by omega, hwritten⟩⟩

/-- **The end of a method**, with the register read back. -/
theorem finish_inv {op : Op} (hreg : ∃ op, s.reg = written original writable op)
    (hrunning : Running original a op s) (hwritten : s.reg = written original writable op) :
    Inv original writable a (finish original op { s with current := s.reg }) := by
  cases op with
  | enableBusMastering =>
    have hthrow : Inv original writable a
        (throw original .enableBusMastering { s with current := s.reg }) := by
      have hinv := beginRestore_inv (s := { s with current := s.reg }) hreg hrunning (b := True)
        (by simp)
      rwa [and_true] at hinv
    unfold finish
    dsimp only
    split
    · exact hthrow
    · split
      · exact hthrow
      · exact ⟨hreg, rfl, hrunning⟩
  | restore =>
    refine ⟨hreg, rfl, ?_⟩
    show if true = true then (a ↔ s.reg = original) else a
    rw [if_pos rfl]
    exact iff_of_true hrunning.1 (hwritten.trans written_restore)
  | destroy => exact ⟨hreg, iff_of_true hrunning.1 (hwritten.trans written_destroy)⟩

/-- **Bytes read back.** -/
theorem readBack_inv {op : Op} {done n : Nat} {bytes : UInt16} (h : Inv original writable a s)
    (hpc : s.pc = .readBack op done bytes) (hpos : 0 < n)
    (hs : step original writable s (.count n) = some s') : Inv original writable a s' := by
  have hread := h
  unfold Inv at hread
  rw [hpc] at hread
  obtain ⟨hreg, hrunning, hbytes, hwritten⟩ := hread
  have hne : n ≠ 0 := by omega
  simp only [step, hpc, if_neg hne] at hs
  split at hs
  · cases hs
  · rename_i hle
    obtain ⟨hall, hpart⟩ := hbytes.read hpos (by omega)
    split at hs
    · rename_i htwo
      rw [hall htwo] at hs
      cases hs
      exact finish_inv hreg hrunning hwritten
    · rename_i htwo
      cases hs
      exact ⟨hreg, by cases op <;> exact hrunning, hpart htwo, hwritten⟩

theorem step_eintr {op : Op} (hop : InMethod op s.pc) : step original writable s .eintr = some s := by
  obtain ⟨done, hpc⟩ | ⟨done, bytes, hpc⟩ := hop
  · simp [step, hpc]
  · simp [step, hpc]

theorem step_fails {op : Op} {e : Event} (hop : InMethod op s.pc) (he : e.Fails) :
    step original writable s e = some (throw original op s) := by
  obtain ⟨done, hpc⟩ | ⟨done, bytes, hpc⟩ := hop
  · obtain rfl | rfl := he
    · simp [step, hpc]
    · simp [step, hpc]
  · obtain rfl | rfl := he
    · simp [step, hpc]
    · simp [step, hpc]

/-- A step that neither fails nor transfers bytes is `Tracked`. -/
theorem Inv.quiet {e : Event} (h : Inv original writable a s') (hcount : ∀ n, e ≠ .count n)
    (hfails : ¬e.Fails) : Inv original writable (a ∧ Tracked original writable s e) s' := by
  have htracked : Tracked original writable s e :=
    ⟨fun _ hf => absurd hf hfails, fun _ n _ he => absurd he (hcount n)⟩
  rwa [Inv.congr (and_iff_left htracked)]

/-- **A call of a method returns**: what is left is the case that it transfers bytes. -/
theorem inMethod_inv {op : Op} {e : Event} (h : Inv original writable a s) (hok : WriteBackOk s e)
    (hop : InMethod op s.pc) (hs : step original writable s e = some s')
    (hcount : ∀ n, 0 < n → step original writable s (.count n) = some s' →
      Inv original writable (a ∧ Tracked original writable s (.count n)) s') :
    Inv original writable (a ∧ Tracked original writable s e) s' := by
  by_cases hfails : e.Fails
  · cases (step_fails hop hfails).symm.trans hs
    exact fails_inv h hop hfails hok
  · cases e with
    | call op' => obtain ⟨done, hpc⟩ | ⟨done, bytes, hpc⟩ := hop <;> simp [step, hpc] at hs
    | eintr =>
      cases (step_eintr hop).symm.trans hs
      exact h.quiet (by simp) hfails
    | error => exact absurd (Or.inl rfl) hfails
    | count n =>
      refine hcount n (Nat.pos_of_ne_zero fun hzero => hfails ?_) hs
      rw [hzero]
      exact Or.inr rfl

/-- **What every step keeps.** -/
theorem step_inv {e : Event} (h : Inv original writable a s) (hok : WriteBackOk s e)
    (hs : step original writable s e = some s') :
    Inv original writable (a ∧ Tracked original writable s e) s' := by
  cases hpc : s.pc with
  | idle =>
    cases e with
    | call op => exact (call_inv h hpc hs).quiet (by simp) (by simp [Event.Fails])
    | eintr | error | count n => simp [step, hpc] at hs
  | write op done =>
    exact inMethod_inv h hok (Or.inl ⟨done, hpc⟩) hs fun n hpos hn => write_inv h hpc hpos hn
  | readBack op done bytes =>
    refine inMethod_inv h hok (Or.inr ⟨done, bytes, hpc⟩) hs fun n hpos hn => ?_
    have htracked : Tracked original writable s (.count n) := by
      refine ⟨fun _ hf => ?_, fun done' n' hpc' => ?_⟩
      · simp [Event.Fails, Nat.ne_of_gt hpos] at hf
      · rw [hpc] at hpc'
        cases hpc'
    rw [Inv.congr (and_iff_left htracked)]
    exact readBack_inv h hpc hpos hn
  | destroyed =>
    cases e with
    | call op | eintr | error | count n => simp [step, hpc] at hs

theorem init_inv : Inv original writable True (init original) :=
  ⟨⟨.restore, written_restore.symm⟩, rfl, trivial⟩

end Steps

/-- **When the register is put back.**  In a run whose write-back in the destructor succeeds, the
register is the original one exactly if all steps are `Tracked`. -/
theorem command_restored_iff {original writable : UInt16} {es : List Event} {s : State}
    (h : (machine original writable).run es = some s) (hs : s.pc = .destroyed)
    (hok : (machine original writable).Meets WriteBackOk (init original) es) :
    s.reg = original ↔
      (machine original writable).Meets (Tracked original writable) (init original) es := by
  have hinv := Machine.run_inv_meets_of (M := machine original writable) init_inv
    (fun a s e s' hI hw hstep => step_inv hI hw hstep) hok h
  unfold Inv at hinv
  rw [hs] at hinv
  exact hinv.2.symm

/-- Bus mastering is switched on and off again, and the guard is destroyed. -/
def quietRun : List Event :=
  [.call .enableBusMastering, .count 2, .count 1, .eintr, .count 1, .call .restore, .count 1, .count 1,
    .count 2, .call .destroy]

theorem command_restored_quietRun :
    (0x0103 : UInt16) = 0x0103 ↔
      (machine 0x0103 0x0547).Meets (Tracked 0x0103 0x0547) (init 0x0103) quietRun :=
  @command_restored_iff 0x0103 0x0547 quietRun ⟨.destroyed, 0x0103, 0x0103, true⟩ (by decide) rfl
    (by decide)

/-- **A failing read-back**: the register has been changed, and the guard does not know it. -/
theorem failed_readBack_keeps_bus_mastering :
    ¬∀ (original writable : UInt16) (es : List Event) (s : State),
      (machine original writable).run es = some s → s.pc = .destroyed →
      (machine original writable).Meets WriteBackOk (init original) es → s.reg = original := by
  intro h
  have hreg := h 0 0x0547 [.call .enableBusMastering, .count 2, .error] ⟨.destroyed, 6, 0, true⟩
    (by decide) rfl (by decide)
  revert hreg
  decide

end PciCommand

end AdvCpp.Vfio
