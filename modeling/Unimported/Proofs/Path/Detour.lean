import Unimported.Proofs.Path.Evaluated

/-!
# Detours

Steps from a directory can be told without the directory: they lead so many levels out of it and
from there down under some names.  Where they arrive is where they lead on any stack of names, as
long as a step out of the root is none.

## Main definitions

* `Path.Detour`, `Path.detour` — the levels that steps lead out, and the names that are left.
* `Path.Detour.arrive` — where a detour from a directory arrives.

## Main results

* `Path.foldl_enter_eq_arrive` — **steps lead where their detour arrives.**
-/

namespace Unimported.Path

/-- Where steps lead, told without where they start. -/
structure Detour where
  /-- How many levels the steps lead out. -/
  out : Nat
  /-- The names that are left after that. -/
  names : List String
  deriving DecidableEq, Repr, Inhabited

namespace Detour

/-- A detour with one more step. -/
def step (d : Detour) (s : String) : Detour :=
  if s = ".." then
    if d.names = [] then ⟨d.out + 1, []⟩ else ⟨d.out, d.names.dropLast⟩
  else ⟨d.out, d.names ++ [s]⟩

/-- The directories that a detour leaves in place. -/
def kept (d : Detour) (base : List String) : List String := base.take (base.length - d.out)

/-- Where a detour from a directory arrives. -/
def arrive (d : Detour) (base : List String) : List String := d.kept base ++ d.names

/-- One more step is taken from where the detour arrives. -/
theorem arrive_step (d : Detour) (s : String) (base : List String) :
    (d.step s).arrive base = enter (d.arrive base) s := by
  unfold step enter arrive kept
  by_cases hs : s = ".."
  · rw [if_pos hs, if_pos hs]
    by_cases hn : d.names = []
    · have hless : min (min (base.length - d.out) base.length - 1) (base.length - d.out) =
          base.length - (d.out + 1) := by omega
      rw [if_pos hn, hn, List.append_nil, List.append_nil, List.dropLast_eq_take,
        List.length_take, List.take_take, hless]
    · rw [if_neg hn, List.dropLast_append_of_ne_nil hn]
  · rw [if_neg hs, if_neg hs, List.append_assoc]

end Detour

/-- The detour of steps. -/
def detour (steps : List String) : Detour := steps.foldl Detour.step ⟨0, []⟩

/-- **Steps lead where their detour arrives.** -/
theorem foldl_enter_eq_arrive (base steps : List String) :
    steps.foldl enter base = (detour steps).arrive base := by
  have hsteps : ∀ d : Detour,
      steps.foldl enter (d.arrive base) = (steps.foldl Detour.step d).arrive base := by
    induction steps with
    | nil => exact fun d => rfl
    | cons s steps ih =>
      intro d
      rw [List.foldl_cons, List.foldl_cons, ← d.arrive_step, ih]
  have hstart : Detour.arrive ⟨0, []⟩ base = base := by
    simp [Detour.arrive, Detour.kept]
  have h := hsteps ⟨0, []⟩
  rwa [hstart] at h

/-- A detour that leads nowhere out leaves everything in place. -/
theorem Detour.arrive_of_out_eq_zero {d : Detour} (h : d.out = 0) (base : List String) :
    d.arrive base = base ++ d.names := by
  rw [arrive, kept, h, Nat.sub_zero, List.take_length]

end Unimported.Path
