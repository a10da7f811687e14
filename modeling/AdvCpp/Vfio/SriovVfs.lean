import Mathlib.Algebra.Ring.Nat
import Mathlib.Data.List.Nodup
import Mathlib.Data.List.TakeWhile
import AdvCpp.Lib.Checked
import AdvCpp.Vfio.Sysfs

/-!
# Virtual functions

`05_sriov_vfs.cpp`, over the same arbitrary kernel as binding and unbinding.

* `parseUnsigned`, `readSriovInfo`, `listVfs` — what is read.
* `setAutoprobe`, `createVfs`, `destroyVfs`, `operate` — translated; `parse`, `main` — the command
  line.
* `sriovVfs_honest` — the dry run announces what is written, nothing is written behind a guard that does
  not hold, and success means that the file reads back as ordered.
* `createVfs_succeeds_iff` — when the dry run of `--create` succeeds, and when the run with `--yes`
  does.
-/

namespace AdvCpp.Vfio.SriovVfs

open AdvCpp.Lib
open Tool

variable {κ : Type} (K : Sysfs κ)

/-! ## Numbers -/

/-- `from_chars`: the number in front, and what follows. -/
def fromChars (text : List Char) : Option (Nat × List Char) :=
  let digits := text.takeWhile Char.isDigit
  let value := Nat.ofDigitChars 10 digits 0
  if digits = [] ∨ 2 ^ 64 ≤ value then none else some (value, text.dropWhile Char.isDigit)

def parseUnsigned (text name : String) : Except String UInt32 :=
  match fromChars text.toList with
  | some (value, []) =>
    if value < 2 ^ 32 then .ok (UInt32.ofNat value) else .error ("invalid " ++ name ++ ": " ++ text)
  | _ => .error ("invalid " ++ name ++ ": " ++ text)

def readFirstLine (path : String) (s : κ) : Except String String :=
  match K.firstLine path s with
  | .ok line => .ok line
  | .error .cannotOpen => .error ("cannot open " ++ path)
  | .error (.cannotRead _) => .error ("cannot read " ++ path)

def readUnsigned (path : String) (s : κ) : Except String UInt32 := do
  parseUnsigned (← readFirstLine K path s) (filename path)

/-! ## What is read -/

structure SriovInfo where
  totalVfs : UInt32 := 0
  numVfs : UInt32 := 0
  autoprobeSupported : Bool := false
  autoprobe : UInt32 := 0
  deriving DecidableEq

def totalFile (pfDir : String) : String := join pfDir "sriov_totalvfs"

def numFile (pfDir : String) : String := join pfDir "sriov_numvfs"

def autoprobeFile (pfDir : String) : String := join pfDir "sriov_drivers_autoprobe"

/-- The second file is looked for only where the first is. -/
def exposesSriov (pfDir : String) (s : κ) : Except String Bool := do
  if ← K.isThere (totalFile pfDir) s then K.isThere (numFile pfDir) s else return false

def readSriovInfo (pfDir : String) (s : κ) : Except String SriovInfo := do
  if ← exposesSriov K pfDir s then
    let totalVfs ← readUnsigned K (totalFile pfDir) s
    let numVfs ← readUnsigned K (numFile pfDir) s
    if ← K.isThere (autoprobeFile pfDir) s then
      return ⟨totalVfs, numVfs, true, ← readUnsigned K (autoprobeFile pfDir) s⟩
    else return ⟨totalVfs, numVfs, false, 0⟩
  else .error (pfDir ++ " does not expose SR-IOV controls")

def currentDriverOverride (devDir : String) (s : κ) : Except String String := do
  let overrideFile := join devDir "driver_override"
  if ← K.isThere overrideFile s then
    let value ← readFirstLine K overrideFile s
    return if value = "" ∨ value = "(null)" then "<none>" else value
  else return "<unsupported>"

structure VfInfo where
  index : UInt32
  bdf : String
  path : String
  driver : DriverInfo
  driverOverride : String
  deriving DecidableEq

def parseVirtfnIndex (name : String) : Option UInt32 :=
  if "virtfn".toList <+: name.toList then
    let suffix := String.ofList (name.toList.drop 6)
    if suffix = "" then none else (parseUnsigned suffix "virtfn index").toOption
  else none

/-- What the loop of `list_vfs` makes of a link. -/
def readVf (pfDir : String) (s : κ) (link : String × UInt32) : Except String VfInfo := do
  let target ← K.readSymlink (join pfDir link.1) s
  let path ← K.resolve pfDir target s
  let driver ← K.currentDriver path s
  let driverOverride ← currentDriverOverride K path s
  return ⟨link.2, filename path, path, driver, driverOverride⟩

def virtfnLinks (names : List String) : List (String × UInt32) :=
  names.filterMap fun name => (parseVirtfnIndex name).map (name, ·)

def sortVfs (vfs : List VfInfo) : List VfInfo := vfs.mergeSort fun a b => a.index ≤ b.index

def listVfs (pfDir : String) (s : κ) : Except String (List VfInfo) := do
  let names ← K.entries pfDir s
  let vfs ← (virtfnLinks names).mapM (readVf K pfDir s)
  return sortVfs vfs

/-- What is shown. -/
def showPf (pfDir : String) : Tool κ (SriovInfo × DriverInfo × String × List VfInfo) := do
  let info ← look (readSriovInfo K pfDir)
  let driver ← look (K.currentDriver pfDir)
  let driverOverride ← look (currentDriverOverride K pfDir)
  let vfs ← look (listVfs K pfDir)
  return (info, driver, driverOverride, vfs)

/-! ## The list of functions -/

theorem mapM_readVf_perm {K : Sysfs κ} {pfDir : String} {s : κ} {links links' : List (String × UInt32)}
    {vfs : List VfInfo} (hperm : links.Perm links')
    (h : links.mapM (readVf K pfDir s) = .ok vfs) :
    ∃ vfs', links'.mapM (readVf K pfDir s) = .ok vfs' ∧ vfs.Perm vfs' := by
  induction hperm generalizing vfs with
  | nil => exact ⟨vfs, h, .refl _⟩
  | cons link _ ih =>
    rw [List.mapM_cons] at h ⊢
    obtain ⟨vf, hvf, h⟩ := bind_eq_ok.1 h
    obtain ⟨rest, hrest, h⟩ := bind_eq_ok.1 h
    cases h
    obtain ⟨rest', hrest', hperm⟩ := ih hrest
    exact ⟨vf :: rest', by rw [hvf, hrest']; rfl, hperm.cons vf⟩
  | swap link link' links =>
    rw [List.mapM_cons, List.mapM_cons] at h
    obtain ⟨vf', hvf', h⟩ := bind_eq_ok.1 h
    obtain ⟨_, h', h⟩ := bind_eq_ok.1 h
    obtain ⟨vf, hvf, h'⟩ := bind_eq_ok.1 h'
    obtain ⟨rest, hrest, h'⟩ := bind_eq_ok.1 h'
    cases h'
    cases h
    refine ⟨vf :: vf' :: rest, ?_, .swap _ _ _⟩
    rw [List.mapM_cons, List.mapM_cons, hvf, hvf', hrest]
    rfl
  | trans _ _ ih₁ ih₂ =>
    obtain ⟨vfs₁, h₁, hperm₁⟩ := ih₁ h
    obtain ⟨vfs₂, h₂, hperm₂⟩ := ih₂ h₁
    exact ⟨vfs₂, h₂, hperm₁.trans hperm₂⟩

theorem readVf_index {K : Sysfs κ} {pfDir : String} {s : κ} {link : String × UInt32} {vf : VfInfo}
    (h : readVf K pfDir s link = .ok vf) : vf.index = link.2 := by
  obtain ⟨_, -, h⟩ := bind_eq_ok.1 h
  obtain ⟨_, -, h⟩ := bind_eq_ok.1 h
  obtain ⟨_, -, h⟩ := bind_eq_ok.1 h
  obtain ⟨_, -, h⟩ := bind_eq_ok.1 h
  cases h
  rfl

theorem mapM_readVf_index {K : Sysfs κ} {pfDir : String} {s : κ} {links : List (String × UInt32)}
    {vfs : List VfInfo} (h : links.mapM (readVf K pfDir s) = .ok vfs) :
    vfs.map VfInfo.index = links.map Prod.snd := by
  induction links generalizing vfs with
  | nil =>
    cases h
    rfl
  | cons link links ih =>
    rw [List.mapM_cons] at h
    obtain ⟨vf, hvf, h⟩ := bind_eq_ok.1 h
    obtain ⟨rest, hrest, h⟩ := bind_eq_ok.1 h
    cases h
    rw [List.map_cons, List.map_cons, readVf_index hvf, ih hrest]

theorem pairwise_sortVfs (vfs : List VfInfo) :
    (sortVfs vfs).Pairwise fun a b => a.index ≤ b.index := by
  have h : (vfs.mergeSort fun a b => a.index ≤ b.index).Pairwise
      fun a b => decide (a.index ≤ b.index) = true := List.pairwise_mergeSort
    (fun a b c => by simpa using UInt32.le_trans)
    (fun a b => by simpa using UInt32.le_total a.index b.index) vfs
  rw [sortVfs]
  simpa only [decide_eq_true_eq] using h

/-- **What is listed** does not depend on the order of the directory: every `virtfn` link once, in
the order of the numbers. -/
theorem listVfs_order (K : Sysfs κ) (pfDir : String) (s : κ) (names names' : List String)
    (vfs : List VfInfo) (hnames : K.entries pfDir s = .ok names) (hperm : names.Perm names')
    (hdistinct : ((virtfnLinks names).map Prod.snd).Nodup) (h : listVfs K pfDir s = .ok vfs) :
    listVfs { K with entries := fun _ _ => .ok names' } pfDir s = .ok vfs ∧
    (vfs.map VfInfo.index).Pairwise (· < ·) ∧
    ∀ n, n ∈ vfs.map VfInfo.index ↔ ∃ name ∈ names, parseVirtfnIndex name = some n := by
  rw [listVfs, hnames, ok_bind] at h
  obtain ⟨read, hread, h⟩ := bind_eq_ok.1 h
  cases h
  have hindex : ((sortVfs read).map VfInfo.index).Perm ((virtfnLinks names).map Prod.snd) := by
    rw [← mapM_readVf_index hread]
    exact (List.mergeSort_perm _ _).map _
  have hlinks : (virtfnLinks names).Perm (virtfnLinks names') := hperm.filterMap _
  obtain ⟨read', hread', hreads⟩ := mapM_readVf_perm hlinks hread
  have hnodup : ((sortVfs read).map VfInfo.index).Nodup := hindex.nodup_iff.2 hdistinct
  have hsame : sortVfs read = sortVfs read' := by
    have hsorted : (sortVfs read).Perm (sortVfs read') :=
      (List.mergeSort_perm _ _).trans (hreads.trans (List.mergeSort_perm _ _).symm)
    refine List.Perm.eq_of_pairwise (fun a b ha hb hab hba => ?_) (pairwise_sortVfs read)
      (pairwise_sortVfs read') hsorted
    exact List.inj_on_of_nodup_map hnodup ha (hsorted.mem_iff.2 hb) (UInt32.le_antisymm hab hba)
  refine ⟨?_, ?_, fun n => ?_⟩
  · rw [listVfs, ok_bind]
    show (virtfnLinks names').mapM (readVf K pfDir s) >>= _ = _
    rw [hread', ok_bind, hsame]
    rfl
  · have hle : ((sortVfs read).map VfInfo.index).Pairwise (· ≤ ·) :=
      List.pairwise_map.2 (pairwise_sortVfs read)
    exact (hle.and hnodup).imp fun ⟨hle, hne⟩ => UInt32.lt_of_le_of_ne hle hne
  · rw [hindex.mem_iff]
    simp [virtfnLinks]

/-- A card with eight functions to give; the state is what `sriov_numvfs` says, and two
functions are shown. -/
def sriovCard : Sysfs String where
  isThere _ _ := .ok true
  readSymlink path _ := .ok (if filename path = "driver" then "/sys/bus/pci/drivers/mlx5_core"
    else if filename path = "virtfn0" then "../0000:c1:00.1" else "../0000:c1:00.2")
  weaklyCanonical path _ := .ok ("/sys/bus/pci/devices/" ++ filename path)
  firstLine path s := .ok (if filename path = "sriov_numvfs" then s else "8")
  entries _ _ := .ok ["virtfn1", "config", "virtfn0"]
  write file value s := ⟨.ok,
    if filename file = "sriov_numvfs" then String.ofList value.toList.dropLast else s⟩

theorem listVfs_order_two :
    listVfs { sriovCard with entries := fun _ _ => .ok ["config", "virtfn0", "virtfn1"] }
      "/sys/bus/pci/devices/0000:c1:00.0" "2" =
    listVfs sriovCard "/sys/bus/pci/devices/0000:c1:00.0" "2" := by
  have h : listVfs sriovCard "/sys/bus/pci/devices/0000:c1:00.0" "2" = .ok (sortVfs
      [⟨1, "0000:c1:00.2", "/sys/bus/pci/devices/0000:c1:00.2",
          ⟨true, "mlx5_core", "/sys/bus/pci/drivers/mlx5_core"⟩, "8"⟩,
        ⟨0, "0000:c1:00.1", "/sys/bus/pci/devices/0000:c1:00.1",
          ⟨true, "mlx5_core", "/sys/bus/pci/drivers/mlx5_core"⟩, "8"⟩]) := by
    rfl
  exact (listVfs_order sriovCard "/sys/bus/pci/devices/0000:c1:00.0" "2" _
    ["config", "virtfn0", "virtfn1"] _ rfl (by decide) (by decide) h).1.trans h.symm

/-! ## Orders -/

def requireNoVfs (info : SriovInfo) (operation : String) : Tool κ Unit :=
  throwIf (info.numVfs ≠ 0) (operation ++ " requires sriov_numvfs=0; destroy VFs first")

def requirePfDriverForVfCreation (pfDir : String) : Tool κ Unit := do
  let driver ← look (K.currentDriver pfDir)
  throwIf (driver.bound = false) "--create requires the PF vendor driver; PF is unbound"
  throwIf (driver.name = "vfio-pci") ("--create requires the PF vendor driver; PF is bound to " ++
    "vfio-pci. Create VFs with the PF vendor driver first, then bind VFs to vfio-pci")

/-- The file `name` is written and, if so, read back. -/
def order (pfDir name : String) (value : UInt32) : Tool κ Unit := do
  K.maybeWriteValue (join pfDir name) (toString value)
  whenYes do
    let actual ← look (readUnsigned K (join pfDir name))
    throwIf (actual ≠ value) (name ++ " did not change to " ++ toString value)

def setAutoprobe (pfDir : String) (value : UInt32) : Tool κ Unit := do
  throwIf (value > 1) "--set-autoprobe expects 0 or 1"
  let supported ← look (K.isThere (autoprobeFile pfDir))
  throwIf (supported = false) "sriov_drivers_autoprobe is not supported"
  let info ← look (readSriovInfo K pfDir)
  requireNoVfs info "--set-autoprobe"
  order K pfDir "sriov_drivers_autoprobe" value

def createVfs (pfDir : String) (requested : UInt32) : Tool κ Unit := do
  let info ← look (readSriovInfo K pfDir)
  requireNoVfs info "--create"
  throwIf (requested = 0) "--create expects N > 0; use --destroy for 0"
  throwIf (requested > info.totalVfs) ("requested " ++ toString requested ++
    " VFs, but sriov_totalvfs is " ++ toString info.totalVfs)
  requirePfDriverForVfCreation K pfDir
  order K pfDir "sriov_numvfs" requested

def destroyVfs (pfDir : String) : Tool κ Unit := do
  let info ← look (readSriovInfo K pfDir)
  if info.numVfs = 0 then return () else order K pfDir "sriov_numvfs" 0

/-- The options of `main`. -/
structure Flags where
  shows : Bool := false
  setAutoprobeRequested : Bool := false
  createRequested : Bool := false
  destroyRequested : Bool := false
  yes : Bool := false
  autoprobeValue : UInt32 := 0
  vfCount : UInt32 := 0
  deriving DecidableEq

/-- The loop over the options; a number that is none is thrown out of `main`. -/
def parse : List String → Flags → Except String Flags
  | [], f => .ok f
  | "--show" :: args, f => parse args { f with shows := true }
  | "--set-autoprobe" :: value :: args, f =>
    match parseUnsigned value "--set-autoprobe" with
    | .error e => .error e
    | .ok n => parse args { f with setAutoprobeRequested := true, autoprobeValue := n }
  | "--create" :: value :: args, f =>
    match parseUnsigned value "--create" with
    | .error e => .error e
    | .ok n => parse args { f with createRequested := true, vfCount := n }
  | "--destroy" :: args, f => parse args { f with destroyRequested := true }
  | "--dry-run" :: args, f => parse args { f with yes := false }
  | "--yes" :: args, f => parse args { f with yes := true }
  | _ :: _, _ => .error "usage"

def Flags.valid (f : Flags) : Bool :=
  f.shows.toNat + f.setAutoprobeRequested.toNat + f.createRequested.toNat +
    f.destroyRequested.toNat = 1

/-- The `try` block of `main`. -/
def operate (pfDir : String) (f : Flags) : Tool κ Unit :=
  if f.shows then do
    let _ ← showPf K pfDir
    return ()
  else if f.setAutoprobeRequested then setAutoprobe K pfDir f.autoprobeValue
  else if f.createRequested then createVfs K pfDir f.vfCount
  else if f.destroyRequested then destroyVfs K pfDir
  else return ()

def options (args : List String) : Except String Flags := parse args {}

def main (args : List String) (s : κ) : Outcome κ Unit :=
  command K options Flags.yes Flags.valid (fun _ => operate K) args s

/-! ## The guards -/

variable {K} {pfDir name : String} {value requested : UInt32} {f : Flags} {s : κ}

/-- What `set_autoprobe` asks for. -/
def MaySet (K : Sysfs κ) (pfDir : String) (value : UInt32) (s : κ) : Prop :=
  value ≤ 1 ∧ K.isThere (autoprobeFile pfDir) s = .ok true ∧
    ∃ info, readSriovInfo K pfDir s = .ok info ∧ info.numVfs = 0

/-- What `create_vfs` asks for. -/
def MayCreate (K : Sysfs κ) (pfDir : String) (requested : UInt32) (s : κ) : Prop :=
  (∃ info, readSriovInfo K pfDir s = .ok info ∧ info.numVfs = 0 ∧ 0 < requested ∧
    requested ≤ info.totalVfs) ∧
  ∃ d, K.currentDriver pfDir s = .ok d ∧ d.bound = true ∧ d.name ≠ "vfio-pci"

theorem gate_setAutoprobe :
    Gate (MaySet K pfDir value s) (setAutoprobe K pfDir value)
      (order K pfDir "sriov_drivers_autoprobe" value) s := by
  refine Gate.congr ?_ ((gate_throwIf _ _).seq (Gate.look fun _ _ => (gate_throwIf _ _).seq
    (Gate.look fun _ _ => (gate_throwIf _ _).seq (gate_refl _))))
  simp [MaySet]

theorem gate_createVfs :
    Gate (MayCreate K pfDir requested s) (createVfs K pfDir requested)
      (order K pfDir "sriov_numvfs" requested) s := by
  refine Gate.congr ?_ (Gate.look fun _ _ => (gate_throwIf _ _).seq ((gate_throwIf _ _).seq
    ((gate_throwIf _ _).seq ((Gate.look fun _ _ => (gate_throwIf _ _).seq
      (gate_throwIf _ _)).seq (gate_refl _)))))
  constructor
  · rintro ⟨info, hinfo, hnum, hzero, htotal, ⟨d, hd, hbound, hvendor⟩, -⟩
    exact ⟨⟨info, hinfo, not_not.1 hnum, UInt32.pos_iff_ne_zero.2 hzero, UInt32.not_lt.1 htotal⟩,
      d, hd, by simpa using hbound, hvendor⟩
  · rintro ⟨⟨info, hinfo, hnum, hpos, htotal⟩, d, hd, hbound, hvendor⟩
    exact ⟨info, hinfo, not_not.2 hnum, UInt32.pos_iff_ne_zero.1 hpos, UInt32.not_lt.2 htotal,
      ⟨d, hd, by simp [hbound], hvendor⟩, trivial⟩

/-! ## The dry run -/

theorem silent_showPf : Silent (showPf K pfDir) :=
  (silent_look _).bind fun _ => (silent_look _).bind fun _ => (silent_look _).bind fun _ =>
    (silent_look _).bind fun _ => silent_pure _

theorem follows_order : Follows (order K pfDir name value) s :=
  (follows_maybeWrite _ _ _).seq
    (follows_whenYes ((silent_look _).bind fun _ => silent_throwIf _ _))

theorem announces_operate : Announces (operate K pfDir f) s := by
  unfold operate
  split
  · exact Announces.check silent_showPf fun _ _ => (follows_pure ()).announces
  split
  · exact gate_setAutoprobe.announces follows_order.announces
  split
  · exact gate_createVfs.announces follows_order.announces
  split
  · refine Announces.look fun info _ => ?_
    split
    · exact (follows_pure ()).announces
    · exact follows_order.announces
  · exact (follows_pure ()).announces

theorem actsBy_order : ActsBy K.effect (order K pfDir name value) :=
  (Sysfs.actsBy_maybeWriteValue _ _).bind fun _ =>
    actsBy_whenYes ((silent_look _).bind fun _ => silent_throwIf _ _).actsBy

theorem actsBy_operate : ActsBy K.effect (operate K pfDir f) := by
  unfold operate
  split
  · exact silent_showPf.actsBy.bind fun _ => actsBy_pure _
  split
  · exact Gate.actsBy (fun _ => gate_setAutoprobe) actsBy_order
  split
  · exact Gate.actsBy (fun _ => gate_createVfs) actsBy_order
  split
  · refine (silent_look _).actsBy.bind fun info => ?_
    split
    · exact actsBy_pure _
    · exact actsBy_order
  · exact actsBy_pure _

/-! ## Success -/

theorem order_ok (h : ((order K pfDir name value).run true s).result = .ok ()) :
    readUnsigned K (join pfDir name) ((order K pfDir name value).run true s).system =
      .ok value := by
  obtain ⟨_, -, hverify, hsystem, -⟩ := bind_result_ok h
  rw [order, hsystem, run_whenYes_true,
    ((silent_look _).bind fun _ => silent_throwIf _ _).system]
  obtain ⟨actual, hactual, hsame, -⟩ := bind_result_ok hverify
  obtain rfl : actual = value := not_not.1 (throwIf_ok hsame)
  exact hactual

theorem readSriovInfo_num {info : SriovInfo} (h : readSriovInfo K pfDir s = .ok info) :
    readUnsigned K (numFile pfDir) s = .ok info.numVfs := by
  obtain ⟨exposed, -, h⟩ := bind_eq_ok.1 h
  cases exposed with
  | false => cases h
  | true =>
    rw [if_pos rfl] at h
    obtain ⟨totalVfs, -, h⟩ := bind_eq_ok.1 h
    obtain ⟨numVfs, hnum, h⟩ := bind_eq_ok.1 h
    obtain ⟨supported, -, h⟩ := bind_eq_ok.1 h
    cases supported with
    | false =>
      cases h
      exact hnum
    | true =>
      rw [if_pos rfl] at h
      obtain ⟨autoprobe, -, h⟩ := bind_eq_ok.1 h
      cases h
      exact hnum

/-- What the files say, when an action has succeeded. -/
structure Done (K : Sysfs κ) (pfDir : String) (f : Flags) (s : κ) : Prop where
  set : f.setAutoprobeRequested = true →
    readUnsigned K (autoprobeFile pfDir) s = .ok f.autoprobeValue
  created : f.createRequested = true → readUnsigned K (numFile pfDir) s = .ok f.vfCount
  destroyed : f.destroyRequested = true → readUnsigned K (numFile pfDir) s = .ok 0

/-- What holds where something is written. -/
structure Allowed (K : Sysfs κ) (pfDir : String) (f : Flags) (s : κ) : Prop where
  shows : f.shows = false
  set : f.setAutoprobeRequested = true → MaySet K pfDir f.autoprobeValue s
  created : f.createRequested = true → MayCreate K pfDir f.vfCount s

/-- One action at a time. -/
theorem Flags.valid_cases (h : f.valid = true) :
    (f.shows = true ∧ f.setAutoprobeRequested = false ∧ f.createRequested = false ∧
      f.destroyRequested = false) ∨
    (f.shows = false ∧ f.setAutoprobeRequested = true ∧ f.createRequested = false ∧
      f.destroyRequested = false) ∨
    (f.shows = false ∧ f.setAutoprobeRequested = false ∧ f.createRequested = true ∧
      f.destroyRequested = false) ∨
    (f.shows = false ∧ f.setAutoprobeRequested = false ∧ f.createRequested = false ∧
      f.destroyRequested = true) := by
  obtain ⟨shows, set, create, destroy, yes, value, count⟩ := f
  have hone := of_decide_eq_true h
  cases shows <;> cases set <;> cases create <;> cases destroy <;> simp_all

theorem destroyVfs_ok (h : ((destroyVfs K pfDir).run true s).result = .ok ()) :
    readUnsigned K (numFile pfDir) ((destroyVfs K pfDir).run true s).system = .ok 0 := by
  obtain ⟨info, hinfo, hrest, hsystem, -⟩ := bind_result_ok h
  rw [destroyVfs, hsystem]
  by_cases hnum : info.numVfs = 0
  · rw [if_pos hnum, run_pure, ← hnum]
    exact readSriovInfo_num hinfo
  · rw [if_neg hnum] at hrest ⊢
    exact order_ok hrest

theorem operate_done (hvalid : f.valid = true) (h : ((operate K pfDir f).run true s).result = .ok ()) :
    Done K pfDir f ((operate K pfDir f).run true s).system := by
  obtain ⟨hs, ha, hc, hd⟩ | ⟨hs, ha, hc, hd⟩ | ⟨hs, ha, hc, hd⟩ | ⟨hs, ha, hc, hd⟩ :=
    Flags.valid_cases hvalid
  · exact ⟨by simp [ha], by simp [hc], by simp [hd]⟩
  · have hop : operate K pfDir f = setAutoprobe K pfDir f.autoprobeValue := by
      simp [operate, hs, ha]
    rw [hop] at h ⊢
    obtain ⟨-, hrun⟩ := gate_setAutoprobe.of_result h
    rw [hrun] at h ⊢
    exact ⟨fun _ => order_ok h, by simp [hc], by simp [hd]⟩
  · have hop : operate K pfDir f = createVfs K pfDir f.vfCount := by simp [operate, hs, ha, hc]
    rw [hop] at h ⊢
    obtain ⟨-, hrun⟩ := gate_createVfs.of_result h
    rw [hrun] at h ⊢
    exact ⟨by simp [ha], fun _ => order_ok h, by simp [hd]⟩
  · have hop : operate K pfDir f = destroyVfs K pfDir := by simp [operate, hs, ha, hc, hd]
    rw [hop] at h ⊢
    exact ⟨by simp [ha], by simp [hc], fun _ => destroyVfs_ok h⟩

theorem operate_allowed (hvalid : f.valid = true)
    (h : ((operate K pfDir f).run true s).writes ≠ []) : Allowed K pfDir f s := by
  obtain ⟨hs, ha, hc, hd⟩ | ⟨hs, ha, hc, hd⟩ | ⟨hs, ha, hc, hd⟩ | ⟨hs, ha, hc, hd⟩ :=
    Flags.valid_cases hvalid
  · simp only [operate, hs, if_pos] at h
    obtain ⟨_, -, hw⟩ := silent_showPf.reached h
    exact absurd rfl hw
  · have hop : operate K pfDir f = setAutoprobe K pfDir f.autoprobeValue := by
      simp [operate, hs, ha]
    rw [hop] at h
    exact ⟨hs, fun _ => gate_setAutoprobe.of_writes h, by simp [hc]⟩
  · have hop : operate K pfDir f = createVfs K pfDir f.vfCount := by simp [operate, hs, ha, hc]
    rw [hop] at h
    exact ⟨hs, by simp [ha], fun _ => gate_createVfs.of_writes h⟩
  · exact ⟨hs, by simp [ha], by simp [hc]⟩

/-! ## The command line -/

theorem parse_append {args more : List String} {f g : Flags} (h : parse args f = .ok g) :
    parse (args ++ more) f = parse more g := by
  fun_induction parse args f with
  | case1 f =>
    cases h
    rfl
  | _ => simp_all [parse]

theorem main_run {arg option : String} {args : List String} {b : Bool}
    (hf : parse args {} = .ok f) (hoption : parse [option] f = .ok { f with yes := b }) :
    main K (arg :: (args ++ [option])) s =
      (entered K Flags.valid (fun _ => operate K) arg f).run b s := by
  have hoptions : options (args ++ [option]) = .ok { f with yes := b } := by
    rw [options, parse_append hf, hoption]
  have hne : args ++ [option] ≠ [] := by simp
  exact command_run hne hoptions

/-- **The dry run is honest**: it touches nothing; with `--yes` in place of `--dry-run` the system
becomes what the announced writes make of it, as far as they are made; a refusal by the dry run is
one before the first write.  What is written is written behind the guards, and success means that
the file reads back as ordered. -/
theorem sriovVfs_honest (K : Sysfs κ) (s : κ) (arg : String) (args : List String) (f : Flags)
    (hf : parse args {} = .ok f) :
    let dry := main K (arg :: (args ++ ["--dry-run"])) s
    let real := main K (arg :: (args ++ ["--yes"])) s
    let pfDir := join "/sys/bus/pci/devices" (normalizeBdf arg)
    Honest K.effect s dry real ∧
    (real.result = .ok () → Done K pfDir f real.system) ∧
    (real.writes ≠ [] → Allowed K pfDir f s) := by
  dsimp only
  rw [main_run (b := false) hf rfl, main_run (b := true) hf rfl]
  refine ⟨(announces_entered fun _ _ => announces_operate).honest
    (actsBy_entered fun _ _ => actsBy_operate), ?_⟩
  obtain ⟨e, hrun⟩ | ⟨hvalid, hrun⟩ := entered_cases K Flags.valid
    (fun _ => operate K) arg f s true
  · rw [hrun]
    exact ⟨nofun, fun hwrites => absurd rfl hwrites⟩
  · rw [hrun]
    exact ⟨operate_done hvalid, operate_allowed hvalid⟩

theorem sriovVfs_honest_create :
    let real := main sriovCard ["c1:00.0", "--create", "4", "--yes"] "0"
    real.result = .ok () ∧
    real.system = (main sriovCard ["c1:00.0", "--create", "4", "--dry-run"] "0").writes.foldl
      sriovCard.effect "0" := by
  intro real
  have hresult : real.result = .ok () := by decide
  obtain ⟨hhonest, -⟩ := sriovVfs_honest sriovCard "0" "c1:00.0" ["--create", "4"] _ rfl
  exact ⟨hresult, hhonest.acts.trans
    (congrArg (List.foldl sriovCard.effect _) (hhonest.whole () hresult))⟩

/-! ## A kernel that stores what it is told -/

theorem parseUnsigned_toString (n : UInt32) (name : String) :
    parseUnsigned (toString n) name = .ok n := by
  have hlist : (toString n).toList = Nat.toDigits 10 n.toNat := by
    show (Nat.repr n.toNat).toList = _
    exact Nat.toList_repr
  have hdigits : ∀ c ∈ Nat.toDigits 10 n.toNat, c.isDigit = true := fun c hc =>
    Nat.isDigit_of_mem_toDigits (by decide) (by decide) hc
  have hchars : fromChars (Nat.toDigits 10 n.toNat) = some (n.toNat, []) := by
    have htake := List.takeWhile_eq_self_iff.2 hdigits
    have hdrop := List.dropWhile_eq_nil_iff.2 hdigits
    have hlt : ¬2 ^ 64 ≤ n.toNat := by
      have := n.toNat_lt
      omega
    simp only [fromChars, htake, hdrop, Nat.ofDigitChars_ten_toDigits]
    rw [if_neg (not_or.2 ⟨Nat.toDigits_ne_nil, hlt⟩)]
  rw [parseUnsigned, hlist, hchars]
  simp [n.toNat_lt]

/-- The kernel takes the line, and shows it afterwards. -/
def Stores (K : Sysfs κ) (file text : String) (s : κ) : Prop :=
  (K.write file (text ++ "\n") s).1 = .ok ∧
    K.firstLine file (K.write file (text ++ "\n") s).2 = .ok text

/-- The kernel takes the number, and the file reads back as it. -/
def Accepts (K : Sysfs κ) (file : String) (value : UInt32) (s : κ) : Prop :=
  (K.write file (toString value ++ "\n") s).1 = .ok ∧
    readUnsigned K file (K.write file (toString value ++ "\n") s).2 = .ok value

theorem Stores.accepts {file : String} (h : Stores K file (toString value) s) :
    Accepts K file value s := by
  refine ⟨h.1, ?_⟩
  simp only [readUnsigned, readFirstLine, h.2, ok_bind, parseUnsigned_toString]

theorem writeText_ok_iff {file text : String} :
    (K.writeText file text s).1 = .ok () ↔ (K.write file text s).1 = .ok := by
  unfold Sysfs.writeText
  dsimp only
  split
  · rename_i hwrite
    exact iff_of_true rfl hwrite
  all_goals
    rename_i hwrite
    exact iff_of_false nofun (by rw [hwrite]; nofun)

theorem order_result_iff :
    ((order K pfDir name value).run true s).result = .ok () ↔
      Accepts K (join pfDir name) value s := by
  have hwrite : ((K.maybeWriteValue (join pfDir name) (toString value)).run true s).result =
      (K.writeText (join pfDir name) (toString value ++ "\n") s).1 := rfl
  have hsystem : ((K.maybeWriteValue (join pfDir name) (toString value)).run true s).system =
      (K.write (join pfDir name) (toString value ++ "\n") s).2 :=
    Sysfs.actsBy_maybeWriteValue _ _ s
  constructor
  · intro h
    obtain ⟨_, hok, hverify, -⟩ := bind_result_ok h
    obtain ⟨actual, hactual, hsame, -⟩ := bind_result_ok hverify
    obtain rfl : actual = value := not_not.1 (throwIf_ok hsame)
    rw [hsystem] at hactual
    exact ⟨writeText_ok_iff.1 (hwrite ▸ hok), hactual⟩
  · rintro ⟨hok, hreads⟩
    rw [order, run_bind_ok (hwrite.trans (writeText_ok_iff.2 hok)), run_whenYes_true, hsystem,
      run_look_bind_ok hreads]
    simp [throwIf]

/-- **The dry run decides**: on every kernel, the dry run of `--create` succeeds where the guards
hold; the run with `--yes` succeeds where they hold and the kernel accepts the number, which is the
same on a kernel that stores this line. -/
theorem createVfs_succeeds_iff (K : Sysfs κ) (pfDir : String) (requested : UInt32) (s : κ) :
    let dry := (createVfs K pfDir requested).run false s
    let real := (createVfs K pfDir requested).run true s
    (dry.result = .ok () ↔ MayCreate K pfDir requested s) ∧
    (real.result = .ok () ↔
      MayCreate K pfDir requested s ∧ Accepts K (numFile pfDir) requested s) ∧
    ((MayCreate K pfDir requested s → Stores K (numFile pfDir) (toString requested) s) →
      (real.result = .ok () ↔ dry.result = .ok ())) := by
  intro dry real
  have hgate : Gate (MayCreate K pfDir requested s) (createVfs K pfDir requested)
      (order K pfDir "sriov_numvfs" requested) s := gate_createVfs
  have hdry : dry.result = .ok () ↔ MayCreate K pfDir requested s := by
    obtain ⟨hmay, hrun⟩ | ⟨hmay, e, hrun⟩ := hgate
    · exact iff_of_true (by rw [show dry = _ from hrun false]; rfl) hmay
    · exact iff_of_false (by rw [show dry = _ from hrun false]; nofun) hmay
  have hreal : real.result = .ok () ↔
      MayCreate K pfDir requested s ∧ Accepts K (numFile pfDir) requested s := by
    obtain ⟨hmay, hrun⟩ | ⟨hmay, e, hrun⟩ := hgate
    · rw [show real = _ from hrun true, order_result_iff]
      exact (and_iff_right hmay).symm
    · exact iff_of_false (by rw [show real = _ from hrun true]; nofun) fun h => hmay h.1
  refine ⟨hdry, hreal, fun hstores => ?_⟩
  rw [hdry, hreal]
  exact and_iff_left_of_imp fun hmay => (hstores hmay).accepts

/-- What the kernel makes of a line for `sriov_numvfs` of a card with eight functions: no number and
no count above eight is taken, and none but 0 while there are functions. -/
def strictCard : Sysfs String :=
  { sriovCard with
    write := fun _ line s =>
      let text := String.ofList line.toList.dropLast
      match parseUnsigned text "sriov_numvfs" with
      | .error _ => ⟨.writeFailed "Invalid argument", s⟩
      | .ok count =>
        if 8 < count then ⟨.writeFailed "Numerical result out of range", s⟩
        else if s ≠ "0" ∧ count ≠ 0 ∧ s ≠ text then ⟨.writeFailed "Device or resource busy", s⟩
        else ⟨.ok, text⟩ }

theorem createVfs_succeeds_iff_four :
    ((createVfs strictCard "/sys/bus/pci/devices/0000:c1:00.0" 4).run true "0").result = .ok () ∧
    ((createVfs strictCard "/sys/bus/pci/devices/0000:c1:00.0" 9).run true "0").result ≠ .ok () := by
  constructor
  · have hmay : MayCreate strictCard "/sys/bus/pci/devices/0000:c1:00.0" 4 "0" :=
      ⟨⟨⟨8, 0, true, 8⟩, by decide, by decide, by decide, by decide⟩,
        ⟨true, "mlx5_core", _⟩, rfl, rfl, by decide⟩
    obtain ⟨hdry, -, hsame⟩ :=
      createVfs_succeeds_iff strictCard "/sys/bus/pci/devices/0000:c1:00.0" 4 "0"
    exact (hsame fun _ => by unfold Stores; decide).2 (hdry.2 hmay)
  · obtain ⟨-, hreal, -⟩ :=
      createVfs_succeeds_iff strictCard "/sys/bus/pci/devices/0000:c1:00.0" 9 "0"
    intro h
    obtain ⟨⟨hguards, -⟩, -⟩ := hreal.1 h
    obtain ⟨info, hinfo, -, -, htotal⟩ := hguards
    have hread : readSriovInfo strictCard "/sys/bus/pci/devices/0000:c1:00.0" "0" =
      .ok ⟨8, 0, true, 8⟩ := by decide
    cases hread.symm.trans hinfo
    exact absurd htotal (by decide)

end AdvCpp.Vfio.SriovVfs
