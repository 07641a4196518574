/-!
# Written paths

A path that is taken as it is written keeps its dots and slashes.  It is cut behind its last slash:
what stands there is its last name, which is empty when the text ends in a slash, and what stands
before it leads to the directory that holds the name.

## Main definitions

* `Path.cut` — a text in two parts, the first of which ends in the last slash.
* `Path.front`, `Path.last` — the way to the last name, and the name.

## Main results

* `Path.cut_append` — nothing is lost by cutting.
* `Path.slash_not_mem_last` — a last name holds no slash.
-/

namespace Unimported.Path

/-- A text cut behind its last slash. -/
def cut (s : String) : String × String :=
  let cs := s.toList.reverse
  (String.ofList (cs.dropWhile (· != '/')).reverse,
    String.ofList (cs.takeWhile (· != '/')).reverse)

/-- What stands behind the last slash. -/
def last (s : String) : String := (cut s).2

/-- What stands before the last name, without the slashes at its end.  If these are all, they stay:
they name a root. -/
def front (s : String) : String :=
  let upTo := (cut s).1
  let trimmed := (upTo.toList.reverse.dropWhile (· = '/')).reverse
  if trimmed = [] then upTo else String.ofList trimmed

/-- Nothing is lost by cutting. -/
theorem cut_append (s : String) : (cut s).1 ++ (cut s).2 = s := by
  rw [← String.toList_inj]
  simp only [cut, String.toList_append, String.toList_ofList, ← List.reverse_append,
    List.takeWhile_append_dropWhile, List.reverse_reverse]

/-- A last name holds no slash. -/
theorem slash_not_mem_last (s : String) : '/' ∉ (last s).toList := by
  intro h
  simp only [last, cut, String.toList_ofList, List.mem_reverse] at h
  have := List.all_takeWhile (p := (· != '/')) (l := s.toList.reverse)
  exact absurd (List.all_eq_true.1 this _ h) (by decide)

example : (front "a//b", last "a//b") = ("a", "b") := by decide +kernel
example : (front "a/b/", last "a/b/") = ("a/b", "") := by decide +kernel
example : (front "//a", last "//a") = ("//", "a") := by decide +kernel
example : (front "a", last "a") = ("", "a") := by decide +kernel

end Unimported.Path
