import Mathlib.Data.List.Infix
import Mathlib.Tactic.Common

/-!
# Path names

A path name is a list of letters, with `slash` between its components; `dot` and two dots name a
directory itself and its parent.  There are no symbolic links, and a directory is the list of the
names that lead to it from the root.

* `isInfix_of_mem_splitOn` — a component is a part of the path.
* `prefix_resolve` — a relative path without two dots in a row stays where it starts.
-/

namespace AdvCpp.Lib

variable {α : Type*} [DecidableEq α]

section Resolve

variable (slash dot : α)

/-- One component. -/
def follow (dir : List (List α)) (name : List α) : List (List α) :=
  if name = [] ∨ name = [dot] then dir
  else if name = [dot, dot] then dir.dropLast
  else dir ++ [name]

/-- What a path names in the directory `cwd`. -/
def resolve (cwd : List (List α)) (path : List α) : List (List α) :=
  (path.splitOn slash).foldl (follow dot) (if path.head? = some slash then [] else cwd)

end Resolve

section Confined

variable {slash dot : α} {path name : List α} {cwd dir : List (List α)}

omit [DecidableEq α] in
theorem isInfix_intercalate_of_mem {names : List (List α)} (h : name ∈ names) :
    name <:+: [slash].intercalate names := by
  induction names with
  | nil => cases h
  | cons n names ih =>
    cases names with
    | nil =>
      obtain rfl := List.mem_singleton.1 h
      simp [List.intercalate]
    | cons n' names =>
      rw [List.intercalate_cons_cons]
      obtain rfl | hmem := List.mem_cons.1 h
      · rw [List.append_assoc]
        exact (List.prefix_append _ _).isInfix
      · exact (ih hmem).trans (List.suffix_append _ _).isInfix

theorem isInfix_of_mem_splitOn (h : name ∈ path.splitOn slash) : name <:+: path := by
  have hinfix := @isInfix_intercalate_of_mem _ slash _ _ h
  rwa [List.intercalate_splitOn] at hinfix

theorem prefix_foldl_follow {names : List (List α)} (hnames : [dot, dot] ∉ names)
    (h : cwd <+: dir) : cwd <+: names.foldl (follow dot) dir := by
  induction names generalizing dir with
  | nil => exact h
  | cons n names ih =>
    obtain ⟨hn, hrest⟩ := List.ne_and_not_mem_of_not_mem_cons hnames
    refine ih hrest ?_
    unfold follow
    by_cases hself : n = [] ∨ n = [dot]
    · rw [if_pos hself]
      exact h
    · rw [if_neg hself, if_neg hn.symm]
      exact h.trans (List.prefix_append _ _)

/-- **A relative path without two dots** names something in the directory where it starts, or below
it. -/
theorem prefix_resolve (hrel : path.head? ≠ some slash) (hdots : ¬[dot, dot] <:+: path)
    (cwd : List (List α)) : cwd <+: resolve slash dot cwd path := by
  rw [resolve, if_neg hrel]
  exact prefix_foldl_follow (fun hmem => hdots (isInfix_of_mem_splitOn hmem)) (List.prefix_refl cwd)

end Confined

end AdvCpp.Lib
