import Unimported.Proofs.Path.Names
import Unimported.Proofs.Settings.Accepted
import Unimported.Survey.Category

/-!
# The directory of a category

A category is a directory below the source root, and it is compared by its text.  Its setting may
be written with slashes at its end; taken as a path, it names the directory all the same.

## Main results

* `Category.ofPath_child` — the category of a file that was found below the root.
* `Category.joinText_eq_child` — **the setting of a category with a file name behind it is the path
  of the file.**
-/

namespace Unimported.Category

open Path (IsName pieces isSegment)
open Settings (IsInside)

/-- The category of a file found below the root is that of its directory. -/
theorem ofPath_child (s : Settings) (root : Path) (way : List String) (name : String) :
    ofPath s root (Path.child ⟨root.anchor, root.segments ++ way⟩ name) =
      ofDirectory s (Path.relativeText way) := by
  have hrel : Path.relativeTo? ⟨root.anchor, root.segments ++ way⟩ root = some way := by
    simp [Path.relativeTo?]
  unfold ofPath
  rw [Path.parent_child, hrel]

theorem eq_of_ofDirectory_eq_hook {s : Settings} {dir : String} (h : ofDirectory s dir = hook) :
    dir = trimSlashes s.hooksDir := by
  unfold ofDirectory at h
  split at h
  · cases h
  · split at h
    · next hd => exact hd
    · split at h <;> cases h

theorem eq_of_ofDirectory_eq_component {s : Settings} {dir : String}
    (h : ofDirectory s dir = component) : dir = trimSlashes s.uiDir := by
  unfold ofDirectory at h
  split at h
  · cases h
  · split at h
    · cases h
    · split at h
      · next hd => exact hd
      · cases h

/-! ### Slashes at the end -/

theorem dropWhile_slash {cs : List Char} (h : cs.head? ≠ some '/') :
    cs.dropWhile (fun c => decide (c = '/')) = cs := by
  cases cs with
  | nil => rfl
  | cons c cs =>
    have hc : c ≠ '/' := fun hc => h (congrArg some hc)
    exact List.dropWhile_cons_of_neg (by simpa using hc)

/-- A name that does not start at a root loses slashes at its end only. -/
theorem exists_eq_trimSlashes_append {dir : String} (h : dir.toList.head? ≠ some '/') :
    ∃ slashes : List Char, (∀ c ∈ slashes, c = '/') ∧
      dir = trimSlashes dir ++ String.ofList slashes := by
  have hfront := dropWhile_slash h
  refine ⟨(dir.toList.reverse.takeWhile fun c => decide (c = '/')).reverse, ?_, ?_⟩
  · intro c hc
    have hall := List.all_eq_true.mp (List.all_takeWhile (p := fun c => decide (c = '/'))
      (l := dir.toList.reverse)) c (List.mem_reverse.mp hc)
    simpa using hall
  · rw [← String.toList_inj]
    unfold trimSlashes
    rw [hfront, String.toList_append, String.toList_ofList, String.toList_ofList,
      ← List.reverse_append, List.takeWhile_append_dropWhile, List.reverse_reverse]

/-- Slashes at the end add no segment. -/
theorem filter_pieces_append_slashes (s : String) (slashes : List Char)
    (h : ∀ c ∈ slashes, c = '/') :
    (pieces (s ++ String.ofList slashes)).filter isSegment = (pieces s).filter isSegment := by
  induction slashes generalizing s with
  | nil => simp
  | cons c cs ih =>
    obtain rfl := h c List.mem_cons_self
    -- the slash cuts off an empty piece, which is no segment
    have hstep : s ++ String.ofList ('/' :: cs) = (s ++ "/" ++ "") ++ String.ofList cs := by
      rw [← String.toList_inj]
      simp
    rw [hstep, ih _ fun d hd => h d (List.mem_cons_of_mem _ hd), Path.pieces_append,
      List.filter_append]
    have hnil : (pieces "").filter isSegment = [] := by decide +kernel
    rw [hnil, List.append_nil]

/-- A way is read back from its text, in which nothing at all is a dot. -/
theorem filter_pieces_relativeText {way : List String} (h : ∀ n ∈ way, IsName n) :
    (pieces (Path.relativeText way)).filter isSegment = way := by
  by_cases hne : way = []
  · subst hne
    decide +kernel
  · have htext : Path.relativeText way = Path.slashed way := by
      simp [Path.relativeText, Path.text, hne, Anchor.text]
    rw [htext, Path.pieces_slashed hne fun n hn => (h n hn).no_slash, Path.filter_isSegment h]

/-- **The setting of a category with a file name behind it is the path of the file.** -/
theorem joinText_eq_child {dir name : String} {way : List String} (root : Path)
    (hdir : IsInside dir) (hway : ∀ n ∈ way, IsName n) (hname : IsName name)
    (h : Path.relativeText way = trimSlashes dir) :
    root.joinText (dir ++ "/" ++ name) =
      Path.child ⟨root.anchor, root.segments ++ way⟩ name := by
  obtain ⟨slashes, hs, hd⟩ := exists_eq_trimSlashes_append hdir.head_ne_slash
  have hpieces : (pieces dir).filter isSegment = way := by
    rw [hd, filter_pieces_append_slashes _ _ hs, ← h, filter_pieces_relativeText hway]
  have hread : Path.ofString (dir ++ "/" ++ name) = ⟨.current, way ++ [name]⟩ := by
    refine Path.ofString_of_names ?_ ?_
    · rw [String.append_assoc, hdir.head_append]
      exact hdir.head_ne_slash
    · rw [Path.pieces_append, List.filter_append, hpieces,
        Path.pieces_of_not_mem hname.no_slash, Path.filter_isSegment (by simpa using hname)]
  rw [Path.joinText, hread, Path.join_current, Path.child, List.append_assoc]

end Unimported.Category
