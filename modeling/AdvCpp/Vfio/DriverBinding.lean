import AdvCpp.Vfio.Sysfs

/-!
# Binding and unbinding drivers

`04_bind_unbind.cpp`.  What the kernel shows, and what becomes of it at a write, is arbitrary.

* `unbindCurrent`, `bindToDriver`, `operate` — translated; `parse`, `main` — the command line.
* `bindUnbind_honest` — the dry run announces what is written, a driver that is missing is found before
  the device is touched, and success means that the device is where it should be.
-/

namespace AdvCpp.Vfio.DriverBinding

open AdvCpp.Lib
open Tool

variable {κ : Type} (K : Sysfs κ)

/-- A file that cannot be opened has an empty line. -/
def readFirstLine (path : String) (s : κ) : String :=
  match K.firstLine path s with
  | .ok line => line
  | .error .cannotOpen => ""
  | .error (.cannotRead line) => line

def currentDriverOverride (devDir : String) (s : κ) : Except String String := do
  let overrideFile := join devDir "driver_override"
  if ← K.isThere overrideFile s then
    let value := readFirstLine K overrideFile s
    return if value = "" ∨ value = "(null)" then "<none>" else value
  else return "<unsupported>"

/-- What is shown: the driver and its override. -/
def showDevice (devDir : String) : Tool κ (DriverInfo × String) := do
  let driver ← look (K.currentDriver devDir)
  let driverOverride ← look (currentDriverOverride K devDir)
  return (driver, driverOverride)

def verifyUnbound (bdf devDir : String) : Tool κ Unit := do
  let driver ← look (K.currentDriver devDir)
  throwIf driver.bound (bdf ++ " is still bound to " ++ driver.name)

/-- What `verify_bound` throws. -/
def notBound (bdf : String) (driver : DriverInfo) (usedOverride : Bool) : String :=
  let current := if driver.bound then "bound to " ++ driver.name else "unbound"
  let message := bdf ++ " is still " ++ current ++ " after bind attempt"
  if usedOverride then message ++ "; check dmesg for vfio/IOMMU/probe errors."
  else message ++ "; the driver may not match this PCI ID. For vfio-pci, retry with --override or " ++
    "register the ID with new_id."

def verifyBound (bdf devDir targetDriver : String) (usedOverride : Bool) : Tool κ Unit := do
  let driver ← look (K.currentDriver devDir)
  if driver.bound ∧ driver.name = targetDriver then return ()
  else fail (notBound bdf driver usedOverride)

def unbindCurrent (bdf devDir : String) : Tool κ Unit := do
  let driver ← look (K.currentDriver devDir)
  if driver.bound then
    K.maybeWriteValue (join driver.path "unbind") bdf
    whenYes (verifyUnbound K bdf devDir)
  else return ()

def driverDir (targetDriver : String) : String := join "/sys/bus/pci/drivers" targetDriver

def requireDriverDir (targetDriver : String) : Tool κ Unit := do
  let found ← look (K.isThere (driverDir targetDriver))
  throwIf (found = false) ("driver " ++ targetDriver ++ " does not exist")

def setOverride (devDir targetDriver : String) (useOverride : Bool) : Tool κ Unit :=
  if useOverride then K.maybeWriteValue (join devDir "driver_override") targetDriver
  else return ()

def bindToDriver (bdf devDir targetDriver : String) (useOverride : Bool) : Tool κ Unit := do
  requireDriverDir K targetDriver
  setOverride K devDir targetDriver useOverride
  K.maybeWriteValue (join (driverDir targetDriver) "bind") bdf
  whenYes (verifyBound K bdf devDir targetDriver useOverride)

/-- The options of `main`. -/
structure Flags where
  shows : Bool := false
  unbind : Bool := false
  bind : Bool := false
  rebind : Bool := false
  yes : Bool := false
  useOverride : Bool := false
  targetDriver : String := ""
  deriving DecidableEq

/-- The loop over the options; `none` is `usage`. -/
def parse : List String → Flags → Option Flags
  | [], f => some f
  | "--show" :: args, f => parse args { f with shows := true }
  | "--unbind" :: args, f => parse args { f with unbind := true }
  | "--bind" :: driver :: args, f => parse args { f with bind := true, targetDriver := driver }
  | "--rebind" :: driver :: args, f => parse args { f with rebind := true, targetDriver := driver }
  | "--override" :: args, f => parse args { f with useOverride := true }
  | "--dry-run" :: args, f => parse args { f with yes := false }
  | "--yes" :: args, f => parse args { f with yes := true }
  | _ :: _, _ => none

/-- One action, and an override only where something is bound. -/
def Flags.valid (f : Flags) : Bool :=
  f.shows.toNat + f.unbind.toNat + f.bind.toNat + f.rebind.toNat = 1 ∧
    (f.useOverride → f.bind ∨ f.rebind)

/-- The `try` block of `main`. -/
def operate (bdf devDir : String) (f : Flags) : Tool κ Unit :=
  if f.shows then do
    let _ ← showDevice K devDir
    return ()
  else if f.unbind then unbindCurrent K bdf devDir
  else if f.rebind then do
    requireDriverDir K f.targetDriver
    unbindCurrent K bdf devDir
    bindToDriver K bdf devDir f.targetDriver f.useOverride
  else if f.bind then bindToDriver K bdf devDir f.targetDriver f.useOverride
  else return ()

def options (args : List String) : Except String Flags :=
  match parse args {} with
  | none => .error "usage"
  | some f => .ok f

def main (args : List String) (s : κ) : Outcome κ Unit :=
  command K options Flags.yes Flags.valid (operate K) args s

/-! ## The dry run -/

variable {K} {bdf devDir targetDriver : String} {f : Flags} {s : κ}

theorem silent_verifyUnbound : Silent (verifyUnbound K bdf devDir) :=
  (silent_look _).bind fun _ => silent_throwIf _ _

theorem silent_verifyBound {usedOverride : Bool} :
    Silent (verifyBound K bdf devDir targetDriver usedOverride) := by
  refine (silent_look _).bind fun driver => ?_
  split
  · exact silent_pure _
  · exact silent_fail _

theorem silent_showDevice : Silent (showDevice K devDir) :=
  (silent_look _).bind fun _ => (silent_look _).bind fun _ => silent_pure _

theorem silent_requireDriverDir : Silent (requireDriverDir K targetDriver) :=
  (silent_look _).bind fun _ => silent_throwIf _ _

theorem requireDriverDir_ok {yes : Bool}
    (h : ((requireDriverDir K targetDriver).run yes s).result = .ok ()) :
    K.isThere (driverDir targetDriver) s = .ok true := by
  obtain ⟨found, hfound, hrest, -⟩ := bind_result_ok h
  cases found with
  | true => exact hfound
  | false => cases hrest

theorem follows_setOverride {useOverride : Bool} :
    Follows (setOverride K devDir targetDriver useOverride) s := by
  unfold setOverride
  split
  · exact follows_maybeWrite _ _ _
  · exact follows_pure _

/-- Behind `require_driver_dir`. -/
theorem follows_orders {useOverride : Bool} :
    Follows (setOverride K devDir targetDriver useOverride >>= fun _ =>
      K.maybeWriteValue (join (driverDir targetDriver) "bind") bdf >>= fun _ =>
        whenYes (verifyBound K bdf devDir targetDriver useOverride)) s :=
  follows_setOverride.seq ((follows_maybeWrite _ _ _).seq (follows_whenYes silent_verifyBound))

theorem follows_bindToDriver {useOverride : Bool}
    (h : ((requireDriverDir K targetDriver).run false s).result = .ok ()) :
    Follows (bindToDriver K bdf devDir targetDriver useOverride) s :=
  (silent_requireDriverDir.follows h).seq follows_orders

theorem announces_unbindCurrent : Announces (unbindCurrent K bdf devDir) s := by
  refine Announces.look fun driver _ => ?_
  split
  · exact ((follows_maybeWrite _ _ _).seq (follows_whenYes silent_verifyUnbound)).announces
  · exact (follows_pure ()).announces

theorem announces_operate : Announces (operate K bdf devDir f) s := by
  unfold operate
  split
  · exact Announces.check silent_showDevice fun _ _ => (follows_pure ()).announces
  split
  · exact announces_unbindCurrent
  split
  · refine Announces.check silent_requireDriverDir fun _ h => ?_
    exact announces_unbindCurrent.seq fun _ => follows_bindToDriver h
  split
  · exact Announces.check silent_requireDriverDir fun _ _ => follows_orders.announces
  · exact (follows_pure ()).announces

/-! ## The effects -/

theorem actsBy_unbindCurrent : ActsBy K.effect (unbindCurrent K bdf devDir) := by
  refine (silent_look _).actsBy.bind fun driver => ?_
  split
  · exact (Sysfs.actsBy_maybeWriteValue _ _).bind fun _ =>
      actsBy_whenYes silent_verifyUnbound.actsBy
  · exact actsBy_pure _

theorem actsBy_bindToDriver {useOverride : Bool} :
    ActsBy K.effect (bindToDriver K bdf devDir targetDriver useOverride) := by
  refine silent_requireDriverDir.actsBy.bind fun _ => ActsBy.bind ?_ fun _ => ?_
  · unfold setOverride
    split
    · exact Sysfs.actsBy_maybeWriteValue _ _
    · exact actsBy_pure _
  · exact (Sysfs.actsBy_maybeWriteValue _ _).bind fun _ => actsBy_whenYes silent_verifyBound.actsBy

theorem actsBy_operate : ActsBy K.effect (operate K bdf devDir f) := by
  unfold operate
  split
  · exact silent_showDevice.actsBy.bind fun _ => actsBy_pure _
  split
  · exact actsBy_unbindCurrent
  split
  · exact silent_requireDriverDir.actsBy.bind fun _ =>
      actsBy_unbindCurrent.bind fun _ => actsBy_bindToDriver
  split
  · exact actsBy_bindToDriver
  · exact actsBy_pure _

/-! ## Success -/

theorem verifyUnbound_ok (h : ((verifyUnbound K bdf devDir).run true s).result = .ok ()) :
    ∃ d, K.currentDriver devDir s = .ok d ∧ d.bound = false := by
  obtain ⟨d, hd, hrest, -⟩ := bind_result_ok h
  exact ⟨d, hd, by simpa using throwIf_ok hrest⟩

theorem verifyBound_ok {usedOverride : Bool}
    (h : ((verifyBound K bdf devDir targetDriver usedOverride).run true s).result = .ok ()) :
    ∃ d, K.currentDriver devDir s = .ok d ∧ d.bound ∧ d.name = targetDriver := by
  obtain ⟨d, hd, hrest, -⟩ := bind_result_ok h
  by_cases hbound : d.bound ∧ d.name = targetDriver
  · exact ⟨d, hd, hbound⟩
  · rw [if_neg hbound] at hrest
    cases hrest

theorem unbindCurrent_ok (h : ((unbindCurrent K bdf devDir).run true s).result = .ok ()) :
    ∃ d, K.currentDriver devDir ((unbindCurrent K bdf devDir).run true s).system = .ok d ∧
      d.bound = false := by
  obtain ⟨d, hd, hrest, hsystem, -⟩ := bind_result_ok h
  rw [unbindCurrent, hsystem]
  by_cases hbound : d.bound = true
  · rw [if_pos hbound] at hrest ⊢
    obtain ⟨_, -, hverify, hsystem', -⟩ := bind_result_ok hrest
    rw [hsystem', run_whenYes_true, silent_verifyUnbound.system]
    exact verifyUnbound_ok hverify
  · rw [if_neg hbound]
    exact ⟨d, hd, by simpa using hbound⟩

theorem bindToDriver_ok {useOverride : Bool}
    (h : ((bindToDriver K bdf devDir targetDriver useOverride).run true s).result = .ok ()) :
    ∃ d, K.currentDriver devDir
        ((bindToDriver K bdf devDir targetDriver useOverride).run true s).system = .ok d ∧
      d.bound ∧ d.name = targetDriver := by
  obtain ⟨_, -, hrest, hsystem, -⟩ := bind_result_ok h
  obtain ⟨_, -, hrest, hsystem', -⟩ := bind_result_ok hrest
  obtain ⟨_, -, hverify, hsystem'', -⟩ := bind_result_ok hrest
  rw [bindToDriver, hsystem, hsystem', hsystem'', run_whenYes_true, silent_verifyBound.system]
  exact verifyBound_ok hverify

/-! ## The command line -/

theorem parse_append {args more : List String} {f g : Flags} (h : parse args f = some g) :
    parse (args ++ more) f = parse more g := by
  fun_induction parse args f with
  | case1 f =>
    cases h
    rfl
  | case9 f => cases h
  | _ => simp_all [parse]

theorem main_run {arg option : String} {args : List String} {b : Bool}
    (hf : parse args {} = some f) (hoption : parse [option] f = some { f with yes := b }) :
    main K (arg :: (args ++ [option])) s = (entered K Flags.valid (operate K) arg f).run b s := by
  have hoptions : options (args ++ [option]) = .ok { f with yes := b } := by
    rw [options, parse_append hf, hoption]
  exact command_run (by simp) hoptions

/-- One action at a time. -/
theorem Flags.valid_cases (h : f.valid = true) :
    (f.shows = true ∧ f.unbind = false ∧ f.bind = false ∧ f.rebind = false) ∨
    (f.shows = false ∧ f.unbind = true ∧ f.bind = false ∧ f.rebind = false) ∨
    (f.shows = false ∧ f.unbind = false ∧ f.bind = false ∧ f.rebind = true) ∨
    (f.shows = false ∧ f.unbind = false ∧ f.bind = true ∧ f.rebind = false) := by
  obtain ⟨shows, unbind, bind, rebind, yes, useOverride, targetDriver⟩ := f
  have hone := (of_decide_eq_true h).1
  cases shows <;> cases unbind <;> cases bind <;> cases rebind <;> simp_all

/-- Where the device is, when an action has succeeded. -/
structure Placed (K : Sysfs κ) (devDir : String) (f : Flags) (s : κ) : Prop where
  unbound : f.unbind = true → ∃ d, K.currentDriver devDir s = .ok d ∧ d.bound = false
  bound : f.bind = true ∨ f.rebind = true →
    ∃ d, K.currentDriver devDir s = .ok d ∧ d.bound ∧ d.name = f.targetDriver

theorem operate_ok (hvalid : f.valid = true)
    (h : ((operate K bdf devDir f).run true s).result = .ok ()) :
    Placed K devDir f ((operate K bdf devDir f).run true s).system := by
  obtain ⟨hs, hu, hb, hr⟩ | ⟨hs, hu, hb, hr⟩ | ⟨hs, hu, hb, hr⟩ | ⟨hs, hu, hb, hr⟩ :=
    Flags.valid_cases hvalid
  · exact ⟨by simp [hu], by simp [hb, hr]⟩
  · have hop : operate K bdf devDir f = unbindCurrent K bdf devDir := by simp [operate, hs, hu]
    rw [hop] at h ⊢
    exact ⟨fun _ => unbindCurrent_ok h, by simp [hb, hr]⟩
  · have hop : operate K bdf devDir f = (requireDriverDir K f.targetDriver >>= fun _ =>
        unbindCurrent K bdf devDir >>= fun _ =>
          bindToDriver K bdf devDir f.targetDriver f.useOverride) := by
      simp [operate, hs, hu, hr]
    rw [hop] at h ⊢
    obtain ⟨_, -, hrest, hsystem, -⟩ := bind_result_ok h
    obtain ⟨_, -, hbind, hsystem', -⟩ := bind_result_ok hrest
    rw [hsystem, hsystem']
    exact ⟨by simp [hu], fun _ => bindToDriver_ok hbind⟩
  · have hop : operate K bdf devDir f =
        bindToDriver K bdf devDir f.targetDriver f.useOverride := by
      simp [operate, hs, hu, hb, hr]
    rw [hop] at h ⊢
    exact ⟨by simp [hu], fun _ => bindToDriver_ok h⟩

theorem requireDriverDir_first {v : Unit → Tool κ Unit} {yes : Bool}
    (h : ((requireDriverDir K targetDriver >>= v).run yes s).writes ≠ []) :
    K.isThere (driverDir targetDriver) s = .ok true := by
  obtain ⟨_, hok, -⟩ := silent_requireDriverDir.reached h
  exact requireDriverDir_ok hok

/-- A device is not touched for a driver that is not there. -/
theorem operate_driver_dir {yes : Bool} (hvalid : f.valid = true)
    (h : ((operate K bdf devDir f).run yes s).writes ≠ [])
    (hf : f.bind = true ∨ f.rebind = true) :
    K.isThere (driverDir f.targetDriver) s = .ok true := by
  obtain ⟨-, -, hb, hr⟩ | ⟨-, -, hb, hr⟩ | ⟨hs, hu, -, hr⟩ | ⟨hs, hu, hb, hr⟩ :=
    Flags.valid_cases hvalid
  · simp [hb, hr] at hf
  · simp [hb, hr] at hf
  · simp only [operate, hs, hu, hr] at h
    exact requireDriverDir_first h
  · simp only [operate, hs, hu, hb, hr] at h
    exact requireDriverDir_first h

/-- **The dry run is honest**: it touches nothing; with `--yes` in place of `--dry-run` the system
becomes what the announced writes make of it, as far as they are made; a refusal by the dry run is
one before the first write.  Success means that all are made and that the device is where it was
to be, and no device leaves its driver for one that does not exist. -/
theorem bindUnbind_honest (K : Sysfs κ) (s : κ) (arg : String) (args : List String) (f : Flags)
    (hf : parse args {} = some f) :
    let dry := main K (arg :: (args ++ ["--dry-run"])) s
    let real := main K (arg :: (args ++ ["--yes"])) s
    Honest K.effect s dry real ∧
    (real.result = .ok () →
      Placed K (join "/sys/bus/pci/devices" (normalizeBdf arg)) f real.system) ∧
    (f.bind = true ∨ f.rebind = true → real.writes ≠ [] →
      K.isThere (driverDir f.targetDriver) s = .ok true) := by
  dsimp only
  rw [main_run (b := false) hf rfl, main_run (b := true) hf rfl]
  refine ⟨(announces_entered fun _ _ => announces_operate).honest
    (actsBy_entered fun _ _ => actsBy_operate), ?_⟩
  obtain ⟨e, hrun⟩ | ⟨hvalid, hrun⟩ := entered_cases K Flags.valid (operate K) arg f s
    true
  · rw [hrun]
    exact ⟨nofun, fun _ hwrites => absurd rfl hwrites⟩
  · rw [hrun]
    exact ⟨operate_ok hvalid, fun hbind hwrites => operate_driver_dir hvalid hwrites hbind⟩

/-- A card, and a kernel that moves it between two drivers; the state is its driver. -/
def virtioCard : Sysfs (Option String) where
  isThere path s := .ok (path ≠ "/sys/bus/pci/devices/0000:c1:02.7/driver" ∨ s.isSome)
  readSymlink _ s := .ok ("../../../bus/pci/drivers/" ++ s.getD "")
  weaklyCanonical _ s := .ok ("/sys/bus/pci/drivers/" ++ s.getD "")
  firstLine _ _ := .ok ""
  entries _ _ := .ok []
  write file _ s := ⟨.ok,
    if file = "/sys/bus/pci/drivers/vfio-pci/bind" then some "vfio-pci"
    else if file = "/sys/bus/pci/drivers/virtio-pci/unbind" then none else s⟩

theorem bindUnbind_honest_rebind :
    let real := main virtioCard ["c1:02.7", "--rebind", "vfio-pci", "--override", "--yes"]
      (some "virtio-pci")
    real.result = .ok () ∧
    real.system = (main virtioCard ["c1:02.7", "--rebind", "vfio-pci", "--override", "--dry-run"]
      (some "virtio-pci")).writes.foldl virtioCard.effect (some "virtio-pci") := by
  intro real
  have hresult : real.result = .ok () := by decide
  obtain ⟨hhonest, -⟩ := bindUnbind_honest virtioCard (some "virtio-pci") "c1:02.7"
    ["--rebind", "vfio-pci", "--override"] _ rfl
  exact ⟨hresult, hhonest.acts.trans
    (congrArg (List.foldl virtioCard.effect _) (hhonest.whole () hresult))⟩

end AdvCpp.Vfio.DriverBinding
