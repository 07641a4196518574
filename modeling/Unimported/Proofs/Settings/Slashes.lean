import Unimported.Proofs.Survey.Category

/-!
# Directories with slashes at their end

A setting that names a directory may have slashes at its end.  It names the same directory: files
have the same category, and a file name behind it makes the same path.  Only the text is longer.

## Main definitions

* `Path.withSlashes` — a text with slashes at its end.
* `Settings.withSlashes` — settings whose directories of hooks, components and pages have them.

## Main results

* `Category.ofPath_withSlashes` — files have the same categories.
* `Path.joinText_withSlashes` — a file name behind the setting makes the same path.
* `Settings.WellTyped.withSlashes` — the settings are accepted again.
-/

namespace Unimported

open Settings (IsInside)

/-- A text with so many slashes at its end. -/
def Path.withSlashes (s : String) (n : Nat) : String := s ++ String.ofList (List.replicate n '/')

/-- Settings whose directories of hooks, components and pages have so many slashes at their end. -/
def Settings.withSlashes (s : Settings) (hooks ui pages : Nat) : Settings :=
  { s with
    hooksDir := Path.withSlashes s.hooksDir hooks
    uiDir := Path.withSlashes s.uiDir ui
    pagesDir := Path.withSlashes s.pagesDir pages }

variable {dir : String}

/-- Slashes in front are dropped. -/
theorem dropWhile_replicate_append (n : Nat) (cs : List Char) :
    (List.replicate n '/' ++ cs).dropWhile (fun c => decide (c = '/')) =
      cs.dropWhile fun c => decide (c = '/') :=
  List.dropWhile_append_of_pos fun c hc => by simpa using List.eq_of_mem_replicate hc

theorem toList_withSlashes (dir : String) (n : Nat) :
    (Path.withSlashes dir n).toList = dir.toList ++ List.replicate n '/' := by
  rw [Path.withSlashes, String.toList_append, String.toList_ofList]

/-! ### Categories -/

theorem Category.trimSlashes_withSlashes (h : IsInside dir) (n : Nat) :
    trimSlashes (Path.withSlashes dir n) = trimSlashes dir := by
  obtain ⟨c, cs, hcs⟩ := List.exists_cons_of_ne_nil h.toList_ne_nil
  have hc : c ≠ '/' := by
    have hhead := h.head_ne_slash
    rw [hcs] at hhead
    exact fun hc => hhead (congrArg some hc)
  have hfront : ∀ more : List Char, (c :: cs ++ more).dropWhile (fun d => decide (d = '/')) =
      c :: cs ++ more := fun more => List.dropWhile_cons_of_neg (by simpa using hc)
  have hkeep := hfront []
  rw [List.append_nil] at hkeep
  unfold trimSlashes
  rw [toList_withSlashes, hcs, hfront, hkeep, List.reverse_append, List.reverse_replicate,
    dropWhile_replicate_append]

/-- Directories with slashes at their end have the same categories. -/
theorem Category.ofDirectory_withSlashes {s : Settings} (hs : s.WellTyped) (hooks ui pages : Nat)
    (d : String) : ofDirectory (s.withSlashes hooks ui pages) d = ofDirectory s d := by
  have hpages := trimSlashes_withSlashes (hs.inside (f := .pagesDir) (by decide) rfl) pages
  have hhooks := trimSlashes_withSlashes hs.hooksDir hooks
  have hui := trimSlashes_withSlashes hs.uiDir ui
  unfold ofDirectory
  simp only [Settings.withSlashes, hpages, hhooks, hui]

/-- **Files have the same categories.** -/
theorem Category.ofPath_withSlashes {s : Settings} (hs : s.WellTyped) (hooks ui pages : Nat)
    (root p : Path) : ofPath (s.withSlashes hooks ui pages) root p = ofPath s root p := by
  unfold ofPath
  cases p.parent.relativeTo? root with
  | none => rfl
  | some segments => exact ofDirectory_withSlashes hs hooks ui pages _

/-- The last name of the directory of components is the same, too. -/
theorem Settings.uiLeaf_withSlashes (s : Settings) (hooks ui pages : Nat) :
    (s.withSlashes hooks ui pages).uiLeaf = s.uiLeaf := by
  unfold uiLeaf
  show String.ofList (((Path.withSlashes s.uiDir ui).toList.reverse.dropWhile _).takeWhile _).reverse
    = _
  rw [toList_withSlashes, List.reverse_append, List.reverse_replicate, dropWhile_replicate_append]

/-! ### Paths -/

/-- A checked name with slashes at its end passes the checks. -/
theorem Settings.IsInside.withSlashes (h : IsInside dir) (n : Nat) :
    IsInside (Path.withSlashes dir n) where
  not_blank := by
    have hb := h.not_blank
    unfold Text.allBlank at hb ⊢
    rw [toList_withSlashes, List.all_append, hb, Bool.false_and]
  relative := by
    obtain ⟨c, cs, hcs⟩ := List.exists_cons_of_ne_nil h.toList_ne_nil
    have hr := h.relative
    unfold Text.opens at hr ⊢
    rw [hcs] at hr
    rw [toList_withSlashes, hcs]
    exact hr
  no_backslash := by
    rw [toList_withSlashes, List.mem_append, not_or]
    exact ⟨h.no_backslash, fun hmem => absurd (List.eq_of_mem_replicate hmem) (by decide)⟩

/-- **A file name behind the setting makes the same path.** -/
theorem Path.joinText_withSlashes (root : Path) (h : IsInside dir) (n : Nat) (name : String) :
    root.joinText (withSlashes dir n ++ "/" ++ name) = root.joinText (dir ++ "/" ++ name) := by
  have hread : ∀ {d : String}, IsInside d → ofString (d ++ "/" ++ name) =
      ⟨.current, (pieces d).filter isSegment ++ (pieces name).filter isSegment⟩ := by
    intro d hd
    refine ofString_of_names ?_ ?_
    · rw [String.append_assoc, hd.head_append]
      exact hd.head_ne_slash
    · rw [pieces_append, List.filter_append]
  have hslashes : (pieces (withSlashes dir n)).filter isSegment = (pieces dir).filter isSegment :=
    Category.filter_pieces_append_slashes dir _ fun c hc => List.eq_of_mem_replicate hc
  rw [joinText, joinText, hread h, hread (h.withSlashes n), hslashes]

/-- **The settings are accepted again.** -/
theorem Settings.WellTyped.withSlashes {s : Settings} (hs : s.WellTyped) (hooks ui pages : Nat) :
    (s.withSlashes hooks ui pages).WellTyped := by
  refine hs.of_names (fun f hf name hv => ?_) rfl rfl rfl
  cases f with
  | hooksDir => exact Value.text.inj hv ▸ hs.hooksDir.withSlashes hooks
  | uiDir => exact Value.text.inj hv ▸ hs.uiDir.withSlashes ui
  | pagesDir => exact Value.text.inj hv ▸ (hs.inside (f := .pagesDir) hf rfl).withSlashes pages
  | _ => exact hs.inside hf hv

end Unimported
