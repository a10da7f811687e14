import AdvCpp.Lib.Paths
import Mathlib.Data.UInt

/-!
# The request of the file server

`parse_path` of `13_file_server.cpp` takes the path out of a request line, and `client_handler` opens
it.

* `parsePath_cases` — what it accepts.
* `parsePath_confined_iff` — when the name that is opened is below the current directory.
-/

namespace AdvCpp.Uring

open AdvCpp.Lib

/-- The bytes of a string literal. -/
def ascii (s : String) : List UInt8 := s.toList.map fun c => UInt8.ofNat c.toNat

def space : UInt8 := 32
def slash : UInt8 := 47
def dot : UInt8 := 46

/-- `path.find("..") != npos`. -/
def HasDots (path : List UInt8) : Prop := [dot, dot] <:+: path

instance (path : List UInt8) : Decidable (HasDots path) := by
  unfold HasDots
  exact inferInstance

/-- `path.substr(1)` if there is a leading slash. -/
def stripSlash (path : List UInt8) : List UInt8 :=
  match path with
  | [] => []
  | c :: path => if c = slash then path else c :: path

/-- The file for an empty path. -/
def defaultPath (path : List UInt8) : List UInt8 := if path = [] then ascii "sample.txt" else path

/-- The rest of `parse_path`, from the text between the two spaces on. -/
def checkPath (target : List UInt8) : List UInt8 :=
  if HasDots (defaultPath (stripSlash target)) then [] else defaultPath (stripSlash target)

def parsePath (request : List UInt8) : List UInt8 :=
  if request.take 4 ≠ ascii "GET " then []
  else
    let rest := request.drop 4
    if space ∈ rest then checkPath (rest.takeWhile (· ≠ space)) else []

/-- `path.c_str()`, as `open` reads it. -/
def cString (path : List UInt8) : List UInt8 := path.takeWhile (· ≠ 0)

/-! ## What is opened -/

/-- The path is relative and has no two dots in a row, and so what is opened is below the current
directory. -/
structure Confined (path : List UInt8) : Prop where
  relative : path.head? ≠ some slash
  noDots : ¬HasDots path
  below : ∀ cwd, cwd <+: resolve slash dot cwd (cString path)

/-- A request line whose target starts with two slashes, and has no two dots in a row. -/
def DoubleSlash (request : List UInt8) : Prop :=
  ∃ target rest, request = ascii "GET //" ++ target ++ [space] ++ rest ∧ space ∉ target ∧
    ¬HasDots target

section ParsePath

variable {path target rest request : List UInt8}

theorem confined_iff (hdots : ¬HasDots path) : Confined path ↔ path.head? ≠ some slash := by
  refine ⟨Confined.relative, fun hrel => ⟨hrel, hdots, fun cwd => ?_⟩⟩
  have hprefix : cString path <+: path := List.takeWhile_prefix _
  refine prefix_resolve (fun hslash => hrel ?_) (fun hd => hdots (hd.trans hprefix.isInfix)) cwd
  obtain ⟨tail, htail⟩ := hprefix
  rw [← htail, List.head?_append, hslash]
  rfl

theorem hasDots_slash : HasDots (slash :: path) ↔ HasDots path := by
  unfold HasDots
  rw [List.infix_cons_iff]
  refine or_iff_right fun hprefix => ?_
  obtain ⟨hhead, -⟩ := List.cons_prefix_cons.1 hprefix
  cases hhead

theorem parsePath_get (h : space ∉ target) :
    parsePath (ascii "GET " ++ target ++ [space] ++ rest) = checkPath target := by
  have htake : (ascii "GET " ++ target ++ [space] ++ rest).take 4 = ascii "GET " := by
    rw [List.append_assoc, List.append_assoc]
    exact List.take_left' (by decide)
  have hdrop : (ascii "GET " ++ target ++ [space] ++ rest).drop 4 = target ++ space :: rest := by
    rw [List.append_assoc, List.append_assoc]
    exact List.drop_left' (by decide)
  have htarget : (target ++ space :: rest).takeWhile (· ≠ space) = target := by
    have hall : ∀ c ∈ target, decide (c ≠ space) = true := by
      intro c hc
      rw [decide_eq_true_eq]
      rintro rfl
      exact h hc
    rw [List.takeWhile_append_of_pos hall]
    simp
  have hmem : space ∈ target ++ space :: rest := by simp
  rw [parsePath, if_neg (not_not.2 htake), hdrop, if_pos hmem, htarget]

/-- **What `parse_path` accepts.** -/
theorem parsePath_cases (request : List UInt8) : parsePath request = [] ∨
    ∃ target rest, request = ascii "GET " ++ target ++ [space] ++ rest ∧ space ∉ target := by
  unfold parsePath
  by_cases hget : request.take 4 = ascii "GET "
  · by_cases hspace : space ∈ request.drop 4
    · obtain ⟨target, rest, heq, hnot⟩ := List.eq_append_cons_of_mem hspace
      refine Or.inr ⟨target, rest, ?_, hnot⟩
      rw [← hget, List.append_assoc, List.append_assoc, List.singleton_append, ← heq,
        List.take_append_drop]
    · rw [if_neg (not_not.2 hget), if_neg hspace]
      exact Or.inl rfl
  · rw [if_pos hget]
    exact Or.inl rfl

/-- A path that is accepted is not changed by what comes behind. -/
theorem parsePath_append (h : parsePath request ≠ []) (more : List UInt8) :
    parsePath (request ++ more) = parsePath request := by
  rcases parsePath_cases request with hnil | ⟨target, rest, rfl, hnot⟩
  · exact absurd hnil h
  · rw [parsePath_get hnot, List.append_assoc _ rest more, parsePath_get hnot]

/-- One byte is not a request. -/
theorem parsePath_singleton (c : UInt8) : parsePath [c] = [] := by
  refine if_pos fun heq => ?_
  have hlen : 1 = 4 := congrArg List.length heq
  cases hlen

theorem checkPath_noDots (h : checkPath target ≠ []) : ¬HasDots (checkPath target) := by
  unfold checkPath at h ⊢
  by_cases hdots : HasDots (defaultPath (stripSlash target))
  · rw [if_pos hdots] at h
    exact absurd rfl h
  · rw [if_neg hdots]
    exact hdots

/-- Only one slash is stripped. -/
theorem checkPath_doubleSlash (h : ¬HasDots target) :
    checkPath (slash :: slash :: target) = slash :: target := by
  have hstrip : defaultPath (stripSlash (slash :: slash :: target)) = slash :: target := rfl
  rw [checkPath, hstrip, if_neg (hasDots_slash.not.2 h)]

theorem doubleSlash_of_absolute (h : (checkPath target).head? = some slash) :
    ∃ t, target = slash :: slash :: t ∧ ¬HasDots t := by
  have hdots : ¬HasDots (checkPath target) := by
    refine checkPath_noDots fun hnil => ?_
    rw [hnil] at h
    cases h
  have hpath : checkPath target = defaultPath (stripSlash target) := by
    unfold checkPath at h ⊢
    by_cases hd : HasDots (defaultPath (stripSlash target))
    · rw [if_pos hd] at h
      cases h
    · rw [if_neg hd]
  rw [hpath] at h hdots
  cases target with
  | nil => exact absurd h (by decide)
  | cons c target =>
    by_cases hc : c = slash
    · subst hc
      cases target with
      | nil => exact absurd h (by decide)
      | cons c target =>
        obtain rfl : c = slash := Option.some.inj h
        exact ⟨target, rfl, hasDots_slash.not.1 hdots⟩
    · have hstrip : defaultPath (stripSlash (c :: target)) = c :: target := by
        rw [stripSlash, if_neg hc]
        rfl
      rw [hstrip] at h
      exact absurd (Option.some.inj h) hc

/-- **When a path is confined.**  What `parse_path` returns is a relative path below the current
directory, except for a request with two leading slashes. -/
theorem parsePath_confined_iff (request : List UInt8) :
    (parsePath request ≠ [] → Confined (parsePath request)) ↔ ¬DoubleSlash request := by
  constructor
  · rintro hconfined ⟨target, rest, heq, hspace, hdots⟩
    have hget : request = ascii "GET " ++ (slash :: slash :: target) ++ [space] ++ rest := heq
    have hnot : space ∉ slash :: slash :: target := by
      simp only [List.mem_cons, not_or]
      exact ⟨by decide, by decide, hspace⟩
    rw [hget, parsePath_get hnot, checkPath_doubleSlash hdots] at hconfined
    exact (hconfined (List.cons_ne_nil _ _)).relative rfl
  · intro hdouble hne
    obtain hnil | ⟨target, rest, heq, hspace⟩ := parsePath_cases request
    · exact absurd hnil hne
    · rw [heq, parsePath_get hspace] at hne ⊢
      refine (confined_iff (checkPath_noDots hne)).2 fun habsolute => hdouble ?_
      obtain ⟨t, rfl, hdots⟩ := doubleSlash_of_absolute habsolute
      refine ⟨t, rest, heq, fun hmem => hspace ?_, hdots⟩
      exact List.mem_cons_of_mem _ (List.mem_cons_of_mem _ hmem)

/-- **An absolute path.** -/
theorem parsePath_etc_passwd :
    ¬∀ request, parsePath request ≠ [] → Confined (parsePath request) := by
  intro h
  have hrel := (h (ascii "GET //etc/passwd HTTP/1.0\r\n\r\n") (by decide)).relative
  revert hrel
  decide

end ParsePath

end AdvCpp.Uring
