import AdvCpp.Lib.DryRun

/-!
# Devices in sysfs

What `04_bind_unbind.cpp` and `05_sriov_vfs.cpp` share: a kernel that shows a device and its driver
in sysfs and takes orders through control files, and a `main` that checks the device, reads the
options and acts.
-/

namespace AdvCpp.Vfio

open AdvCpp.Lib
open Tool

/-- What `read_first_line` meets; `cannotRead` with what had been read. -/
inductive ReadError where
  | cannotOpen
  | cannotRead (line : String)
  deriving DecidableEq

/-- How a `write_text` ends; the text is that of `errno`. -/
inductive WriteResult where
  | ok
  | openFailed (error : String)
  | writeFailed (error : String)
  | short
  | closeFailed (error : String)
  deriving DecidableEq

/-- The file system, as far as the tools look at it; `entries` are the names in a directory. -/
structure Sysfs (κ : Type) where
  isThere : String → κ → Except String Bool
  readSymlink : String → κ → Except String String
  weaklyCanonical : String → κ → Except String String
  firstLine : String → κ → Except ReadError String
  entries : String → κ → Except String (List String)
  write : String → String → κ → WriteResult × κ

/-! ## Paths -/

/-- `operator/` of a path -/
def join (path name : String) : String :=
  if name.toList.head? = some '/' then name
  else if path.toList.getLast? = some '/' ∨ path = "" then path ++ name
  else path ++ "/" ++ name

/-- `filename` -/
def filename (path : String) : String :=
  String.ofList (path.toList.reverse.takeWhile (· ≠ '/')).reverse

def isAbsolute (path : String) : Bool := path.toList.head? = some '/'

def normalizeBdf (bdf : String) : String :=
  if bdf.toList.count ':' = 1 then "0000:" ++ bdf else bdf

structure DriverInfo where
  bound : Bool := false
  name : String := "<unbound>"
  path : String := ""
  deriving DecidableEq

namespace Sysfs

variable {κ : Type} (K : Sysfs κ)

/-- Where a link in `dir` leads. -/
def resolve (dir target : String) (s : κ) : Except String String :=
  if isAbsolute target then .ok target else K.weaklyCanonical (join dir target) s

/-- `current_driver`; the parent of the link is the directory of the device. -/
def currentDriver (devDir : String) (s : κ) : Except String DriverInfo := do
  let driverLink := join devDir "driver"
  if ← K.isThere driverLink s then
    let target ← K.readSymlink driverLink s
    let path ← K.resolve devDir target s
    return ⟨true, filename target, path⟩
  else return {}

def writeText (controlFile value : String) (s : κ) : Except String Unit × κ :=
  let r := K.write controlFile value s
  match r.1 with
  | .ok => (.ok (), r.2)
  | .openFailed error => (.error ("cannot open " ++ controlFile ++ ": " ++ error), r.2)
  | .writeFailed error => (.error ("cannot write to " ++ controlFile ++ ": " ++ error), r.2)
  | .short => (.error ("short write to " ++ controlFile), r.2)
  | .closeFailed error => (.error ("cannot close " ++ controlFile ++ ": " ++ error), r.2)

def maybeWriteValue (controlFile value : String) : Tool κ Unit :=
  maybeWrite (K.writeText controlFile (value ++ "\n")) controlFile value

/-- What becomes of the system when a line is written. -/
def effect (s : κ) (w : String × String) : κ := (K.write w.1 (w.2 ++ "\n") s).2

variable {K}

theorem actsBy_maybeWriteValue (file value : String) :
    ActsBy K.effect (K.maybeWriteValue file value) := by
  refine actsBy_maybeWrite fun s => ?_
  unfold Sysfs.writeText Sysfs.effect
  dsimp only
  split <;> rfl

end Sysfs

/-! ## The command line -/

section Command

variable {κ F : Type} (K : Sysfs κ) (options : List String → Except String F) (yes valid : F → Bool)
  (operate : String → String → F → Tool κ Unit)

/-- `main`: the device, the options, the action; the error is what it prints before it returns 1, or
what ends it. -/
def command (args : List String) (s : κ) : Outcome κ Unit :=
  match args with
  | [] | [_] => ⟨.error "usage", s, []⟩
  | arg :: args =>
    let bdf := normalizeBdf arg
    let devDir := join "/sys/bus/pci/devices" bdf
    match K.isThere devDir s with
    | .error e => ⟨.error e, s, []⟩
    | .ok false => ⟨.error ("PCI device " ++ bdf ++ " does not exist"), s, []⟩
    | .ok true =>
      match options args with
      | .error e => ⟨.error e, s, []⟩
      | .ok f =>
        if valid f then (operate bdf devDir f).run (yes f) s else ⟨.error "usage", s, []⟩

/-- The same, once the options are read. -/
def entered (arg : String) (f : F) : Tool κ Unit := do
  let bdf := normalizeBdf arg
  let devDir := join "/sys/bus/pci/devices" bdf
  let found ← look (K.isThere devDir)
  if found then
    if valid f then operate bdf devDir f else fail "usage"
  else fail ("PCI device " ++ bdf ++ " does not exist")

variable {K options yes valid operate} {arg : String} {f : F} {s : κ}

theorem command_run {args : List String} (hne : args ≠ []) (hf : options args = .ok f) :
    command K options yes valid operate (arg :: args) s =
      (entered K valid operate arg f).run (yes f) s := by
  obtain ⟨a, args, rfl⟩ := List.exists_cons_of_ne_nil hne
  unfold command entered
  match hp : K.isThere (join "/sys/bus/pci/devices" (normalizeBdf arg)) s with
  | .error e =>
    rw [run_look_bind_error hp]
    simp only [hp]
  | .ok false =>
    rw [run_look_bind_ok hp]
    simp only [hp]
    rfl
  | .ok true =>
    rw [run_look_bind_ok hp, if_pos rfl]
    simp only [hp, hf]
    by_cases hvalid : valid f = true
    · rw [if_pos hvalid, if_pos hvalid]
    · rw [if_neg hvalid, if_neg hvalid]
      rfl

theorem announces_entered (h : ∀ bdf devDir, Announces (operate bdf devDir f) s) :
    Announces (entered K valid operate arg f) s := by
  refine Announces.look fun found _ => ?_
  split
  · split
    · exact h _ _
    · exact announces_fail _
  · exact announces_fail _

theorem actsBy_entered (h : ∀ bdf devDir, ActsBy K.effect (operate bdf devDir f)) :
    ActsBy K.effect (entered K valid operate arg f) := by
  refine (silent_look _).actsBy.bind fun found => ?_
  split
  · split
    · exact h _ _
    · exact (silent_fail _).actsBy
  · exact (silent_fail _).actsBy

/-- A run of `main` does nothing, or it is one of the action. -/
theorem entered_cases (K : Sysfs κ) (valid : F → Bool) (operate : String → String → F → Tool κ Unit)
    (arg : String) (f : F) (s : κ) (b : Bool) :
    (∃ e, (entered K valid operate arg f).run b s = ⟨.error e, s, []⟩) ∨
      valid f = true ∧ (entered K valid operate arg f).run b s =
        (operate (normalizeBdf arg) (join "/sys/bus/pci/devices" (normalizeBdf arg)) f).run b s := by
  unfold entered
  match hp : K.isThere (join "/sys/bus/pci/devices" (normalizeBdf arg)) s with
  | .error e => exact .inl ⟨e, run_look_bind_error hp⟩
  | .ok false =>
    rw [run_look_bind_ok hp]
    exact .inl ⟨_, rfl⟩
  | .ok true =>
    rw [run_look_bind_ok hp, if_pos rfl]
    by_cases hvalid : valid f = true
    · rw [if_pos hvalid]
      exact .inr ⟨hvalid, rfl⟩
    · rw [if_neg hvalid]
      exact .inl ⟨_, rfl⟩

end Command

end AdvCpp.Vfio
