import Unimported.Path.Basic

/-!
# Lexical normal form

A path can be evaluated on its text alone: from the root, each segment is entered and `..` leaves
the last one entered.  At the root `..` stays where it is.  Links play no part in this.

## Main definitions

* `Path.collapse` — evaluate segments on a stack.
* `Path.absolute` — a path from the root without `..`, given the current directory.
-/

namespace Unimported.Path

/-- Enter one more segment. -/
def enter (stack : List String) (segment : String) : List String :=
  if segment = ".." then stack.dropLast else stack ++ [segment]

/-- The segments that are left when each `..` has taken back the one before it. -/
def collapse (segments : List String) : List String := segments.foldl enter []

/-- A path from a root without `..`; `cwd` holds the segments of the current directory. -/
def absolute (cwd : List String) (p : Path) : Path :=
  match p.anchor with
  | .current => ⟨.root, collapse (cwd ++ p.segments)⟩
  | anchor => ⟨anchor, collapse p.segments⟩

@[simp] theorem collapse_nil : collapse [] = [] := rfl

theorem collapse_append_singleton (l : List String) (s : String) :
    collapse (l ++ [s]) = enter (collapse l) s := by
  simp [collapse]

theorem mem_enter {stack : List String} {s x : String} (h : x ∈ enter stack s) :
    x ∈ stack ∨ x = s ∧ s ≠ ".." := by
  unfold enter at h
  split at h
  · exact .inl ((List.dropLast_sublist stack).mem h)
  · rename_i hs
    rcases List.mem_append.1 h with h | h
    · exact .inl h
    · exact .inr ⟨List.mem_singleton.1 h, hs⟩

/-- Nothing is left to take back in a normal form. -/
theorem not_mem_collapse (l : List String) : ".." ∉ collapse l := by
  suffices h : ∀ stack : List String, ".." ∉ stack → ".." ∉ l.foldl enter stack from h [] (by simp)
  induction l with
  | nil => exact fun _ h => h
  | cons s l ih =>
    intro stack h
    refine ih (enter stack s) fun hm => ?_
    rcases mem_enter hm with hm | hm
    · exact h hm
    · exact hm.2 hm.1.symm

/-- Segments without `..` are already collapsed. -/
theorem collapse_of_not_mem {l : List String} (h : ".." ∉ l) : collapse l = l := by
  suffices e : ∀ stack : List String, l.foldl enter stack = stack ++ l by
    simpa [collapse] using e []
  induction l with
  | nil => simp
  | cons s l ih =>
    intro stack
    simp only [List.mem_cons, not_or] at h
    simp [ih h.2, enter, Ne.symm h.1]

theorem collapse_collapse (l : List String) : collapse (collapse l) = collapse l :=
  collapse_of_not_mem (not_mem_collapse l)

end Unimported.Path
