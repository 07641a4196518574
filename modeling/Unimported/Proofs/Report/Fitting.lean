import Mathlib.Data.List.DropRight
import Mathlib.Data.List.TakeWhile
import Unimported.Report.Wrap

/-!
# Texts that fit are not wrapped

Wrapping cuts a text into words, lays these out on lines, and trims and cuts each line.  When a text
takes no more cells and has no more characters than the terminal is wide, none of this does
anything: the words are the whole text, they go on one line, and the line is not too long.

Cells alone do not suffice, nor do characters alone: a line of characters that take no cell loses
blanks at its end, and one of wide characters is broken.

## Main definitions

* `Report.Clean` — texts without tabs, line feeds and the characters that a terminal drops.

## Main results

* `Report.flatten_words` — no character is lost when a text is cut into words.
* `Report.fill_of_fits` — **words that fit go on one line.**
* `Report.printed_of_fits` — **a text that fits is printed as it is.**
-/

namespace Unimported.Report

open Text (isBlank trimEnd)

variable {width used : Nat} {cs line : List Char} {ws : List (List Char)}

/-! ### Words -/

/-- No character is lost when a text is cut into words, unless it is all blank. -/
theorem flatten_wordsFrom {fuel : Nat} (hfuel : cs.length ≤ fuel)
    (hcore : cs.dropWhile isBlank = [] → cs = []) : (wordsFrom fuel cs).flatten = cs := by
  induction fuel generalizing cs with
  | zero =>
    obtain rfl := List.length_eq_zero_iff.mp (Nat.le_zero.mp hfuel)
    rfl
  | succ fuel ih =>
    let rest := cs.dropWhile isBlank
    let after := rest.dropWhile fun c => !isBlank c
    have hcs : cs.takeWhile isBlank ++ rest = cs := List.takeWhile_append_dropWhile
    have hrest : (rest.takeWhile fun c => !isBlank c) ++ after = rest :=
      List.takeWhile_append_dropWhile
    have hafter : after.takeWhile isBlank ++ after.dropWhile isBlank = after :=
      List.takeWhile_append_dropWhile
    unfold wordsFrom
    show (if (rest.takeWhile fun c => !isBlank c).isEmpty then [] else
      (cs.takeWhile isBlank ++ (rest.takeWhile fun c => !isBlank c) ++ after.takeWhile isBlank) ::
        wordsFrom fuel (after.dropWhile isBlank)).flatten = cs
    split
    · next hempty =>
      -- what stands behind the blanks does not start with one, so nothing stands there
      have hnil : rest = [] := by
        cases hr : rest with
        | nil => rfl
        | cons c r =>
          have hc : isBlank c = false := by
            have hhead := List.head?_dropWhile_not isBlank cs
            rw [show cs.dropWhile isBlank = c :: r from hr] at hhead
            simpa using hhead
          rw [hr, List.takeWhile_cons_of_pos (by simp [hc])] at hempty
          cases hempty
      rw [hcore hnil]
      rfl
    · next hempty =>
      have hpos : 0 < (rest.takeWhile fun c => !isBlank c).length :=
        List.length_pos_iff.mpr fun h => hempty (List.isEmpty_iff.mpr h)
      have hlen : (after.dropWhile isBlank).length ≤ fuel := by
        have h₁ := congrArg List.length hcs
        have h₂ := congrArg List.length hrest
        have h₃ := congrArg List.length hafter
        rw [List.length_append] at h₁ h₂ h₃
        omega
      have hnext : (after.dropWhile isBlank).dropWhile isBlank = [] →
          after.dropWhile isBlank = [] := by
        rw [List.dropWhile_idempotent]
        exact id
      rw [List.flatten_cons, ih hlen hnext, List.append_assoc, List.append_assoc, hafter, hrest, hcs]

/-- A text of blanks has no words, and no other text. -/
theorem words_eq_nil : words cs = [] ↔ ∀ c ∈ cs, isBlank c = true := by
  constructor
  · intro h c hc
    refine Bool.of_not_eq_false fun hblank => ?_
    -- otherwise the words are the whole text
    have hflat : (words cs).flatten = cs := flatten_wordsFrom (Nat.le_refl _) fun hnil => by
      rw [List.dropWhile_eq_nil_iff.mp hnil c hc] at hblank
      cases hblank
    rw [h, List.flatten_nil] at hflat
    exact List.ne_nil_of_mem hc hflat.symm
  · intro h
    have hnil : cs.dropWhile isBlank = [] := List.dropWhile_eq_nil_iff.mpr h
    unfold words
    cases hlen : cs.length with
    | zero => rfl
    | succ fuel =>
      simp only [wordsFrom, hnil, List.takeWhile_nil, List.isEmpty_nil, if_true]

/-- **No character is lost when a text is cut into words.** -/
theorem flatten_words (h : words cs ≠ []) : (words cs).flatten = cs :=
  flatten_wordsFrom (Nat.le_refl _) fun hnil =>
    absurd (words_eq_nil.mpr (List.dropWhile_eq_nil_iff.mp hnil)) h

/-! ### Lines -/

theorem cells_trimEnd_le (cs : List Char) : cells (trimEnd cs) ≤ cells cs := by
  have hsuffix : cs.reverse.dropWhile isBlank <:+ cs.reverse := List.dropWhile_suffix isBlank
  obtain ⟨rest, hrest⟩ := List.reverse_prefix.mpr hsuffix
  rw [List.reverse_reverse] at hrest
  have hcells := congrArg cells hrest
  rw [cells_append] at hcells
  unfold trimEnd
  omega

/-- **Words that fit go on one line.** -/
theorem fill_of_fits (h : used + cells ws.flatten ≤ width) :
    fill width line used ws = [line ++ ws.flatten] := by
  induction ws generalizing line used with
  | nil =>
    rw [List.flatten_nil, List.append_nil]
    rfl
  | cons word ws ih =>
    rw [List.flatten_cons, cells_append] at h
    have hbare := cells_trimEnd_le word
    have hfits : used + cells (trimEnd word) ≤ width := by omega
    have hrest : used + cells word + cells ws.flatten ≤ width := by omega
    unfold fill
    simp only [hfits, if_true]
    rw [ih hrest, List.flatten_cons, List.append_assoc]

theorem trimExcess_of_length_le (h : line.length ≤ width) : trimExcess width line = line := by
  have hexcess : line.length - width = 0 := by omega
  show line.take (line.length - min (line.length - (trimEnd line).length) (line.length - width)) = line
  rw [hexcess, Nat.min_zero, Nat.sub_zero, List.take_length]

theorem fit_of_cells_le (h : cells line ≤ width) : fit width line = line := by
  unfold fit
  rw [if_neg (by omega)]

theorem expandTabs_of_not_mem (h : '\t' ∉ cs) : expandTabs used cs = cs := by
  induction cs generalizing used with
  | nil => rfl
  | cons c cs ih =>
    obtain ⟨hc, hcs⟩ := not_or.mp (mt List.mem_cons.mpr h)
    unfold expandTabs
    rw [if_neg (Ne.symm hc), ih hcs]

/-- A text that fits stays on one line. -/
theorem wrapLine_of_fits (htab : '\t' ∉ cs) (hcells : cells cs ≤ width) (hlen : cs.length ≤ width) :
    wrapLine width cs = [cs] := by
  have hone : [cs].map (fun line => fit width (trimExcess width line)) = [cs] := by
    rw [List.map_singleton, trimExcess_of_length_le hlen, fit_of_cells_le hcells]
  unfold wrapLine
  simp only [expandTabs_of_not_mem htab]
  split
  · exact hone
  · next hwords =>
    have hflat := flatten_words hwords
    rw [fill_of_fits (by rw [hflat]; omega), hflat]
    exact hone

/-! ### Printing -/

/-- Whether a character is printed where it stands: no tab, no line feed, and none that is dropped. -/
def isClean (c : Char) : Bool := c != '\t' && c != '\n' && !isDropped c

/-- A text without tabs, line feeds and the characters that a terminal drops. -/
def Clean (cs : List Char) : Prop := ∀ c ∈ cs, isClean c = true

theorem Clean.append {ds : List Char} (h : Clean cs) (h' : Clean ds) : Clean (cs ++ ds) := by
  intro c hc
  exact (List.mem_append.mp hc).elim (h c) (h' c)

theorem Clean.not_mem_tab (h : Clean cs) : '\t' ∉ cs := fun hmem => absurd (h _ hmem) (by decide)

theorem Clean.not_mem_newline (h : Clean cs) : '\n' ∉ cs := fun hmem => absurd (h _ hmem) (by decide)

theorem Clean.filter_eq (h : Clean cs) : (cs.filter fun c => !isDropped c) = cs := by
  apply List.filter_eq_self.mpr
  intro c hc
  exact (Bool.and_eq_true_iff.mp (h c hc)).2

theorem splitLines_of_not_mem (h : '\n' ∉ cs) : Text.splitLines cs = [cs] := by
  induction cs with
  | nil => rfl
  | cons c cs ih =>
    obtain ⟨hc, hcs⟩ := not_or.mp (mt List.mem_cons.mpr h)
    have hstep := Text.splitLines.eq_3 c cs fun he => hc he.symm
    rw [hstep, ih hcs]

/-- **A text that fits is printed as it is.** -/
theorem printed_of_fits (hwidth : width ≠ 0) (hclean : Clean cs) (hcells : cells cs ≤ width)
    (hlen : cs.length ≤ width) : printed width cs = cs ++ ['\n'] := by
  unfold printed
  rw [if_neg hwidth, hclean.filter_eq, splitLines_of_not_mem hclean.not_mem_newline,
    List.flatMap_singleton, wrapLine_of_fits hclean.not_mem_tab hcells hlen, List.flatMap_singleton]

end Unimported.Report
