import Unimported.Proofs.Report.Fitting

/-!
# Words are laid out on lines that fit

The words of a text are the whole text, and so are the lines on which they are laid out.  Each of
these fits without the blanks at its end: a word goes on a line only where it fits without the blanks
behind it, and a word that fits on no line is chopped into pieces that do.

## Main definitions

* `Report.Laid` — lines on which a text is laid out.

## Main results

* `Report.flatten_chopFrom`, `Report.cells_le_of_mem_chopFrom` — a chopped word.
* `Report.laid_fill` — **words are laid out on lines that fit.**
* `Report.exists_laid` — so is a text, before its lines are trimmed and cut.
-/

namespace Unimported.Report

open Text (isBlank trimEnd)

variable {width used : Nat} {cs line word piece text : List Char} {ws lines : List (List Char)}

/-! ### Chopping -/

theorem flatten_chopFrom : (chopFrom width piece used word).flatten = piece ++ word := by
  induction word generalizing piece used with
  | nil => simp [chopFrom]
  | cons c word ih =>
    unfold chopFrom
    split
    · rw [List.flatten_cons, ih, List.singleton_append]
    · rw [ih, List.append_assoc, List.singleton_append]

/-- Each piece of a chopped word fits. -/
theorem cells_le_of_mem_chopFrom (hwidth : 2 ≤ width) (hused : used = cells piece)
    (hfits : used ≤ width) : ∀ p ∈ chopFrom width piece used word, cells p ≤ width := by
  induction word generalizing piece used with
  | nil =>
    intro p hp
    obtain rfl := List.mem_singleton.mp hp
    omega
  | cons c word ih =>
    have hmost := cellWidth_le_two c
    unfold chopFrom
    split
    · intro p hp
      rcases List.mem_cons.mp hp with rfl | hp
      · omega
      · exact ih (by simp) (by omega) p hp
    · exact ih (by simp [hused]) (by omega)

theorem flatten_dropWhile_isEmpty (lines : List (List Char)) :
    (lines.dropWhile List.isEmpty).flatten = lines.flatten := by
  induction lines with
  | nil => rfl
  | cons line lines ih =>
    cases line with
    | nil => rw [List.dropWhile_cons_of_pos (by rfl), ih, List.flatten_cons, List.nil_append]
    | cons c line => rw [List.dropWhile_cons_of_neg (by simp)]

theorem flatten_dropLast_append (lines : List (List Char)) :
    lines.dropLast.flatten ++ lines.getLast?.getD [] = lines.flatten := by
  rcases List.eq_nil_or_concat lines with rfl | ⟨init, last, rfl⟩
  · rfl
  · simp

/-! ### Lines on which a text is laid out -/

/-- Lines on which a text is laid out: together they are the text, and each of them fits without the
blanks at its end. -/
structure Laid (width : Nat) (text : List Char) (lines : List (List Char)) : Prop where
  flatten_eq : lines.flatten = text
  fits : ∀ line ∈ lines, cells (trimEnd line) ≤ width

theorem Laid.append {text' : List Char} {lines' : List (List Char)} (h : Laid width text lines)
    (h' : Laid width text' lines') : Laid width (text ++ text') (lines ++ lines') where
  flatten_eq := by rw [List.flatten_append, h.flatten_eq, h'.flatten_eq]
  fits := fun line hl => (List.mem_append.mp hl).elim (h.fits line) (h'.fits line)

theorem Laid.cons (hfits : cells (trimEnd line) ≤ width) (h : Laid width text lines) :
    Laid width (line ++ text) (line :: lines) :=
  have hline : Laid width line [line] := ⟨by simp, by simpa using hfits⟩
  hline.append h

/-- The blanks at the end of a word are those at the end of a line that it goes on. -/
theorem cells_trimEnd_append_le (cs ds : List Char) :
    cells (trimEnd (cs ++ ds)) ≤ cells cs + cells (trimEnd ds) := by
  unfold trimEnd
  rw [List.reverse_append, List.dropWhile_append]
  split
  · next hempty =>
    have hnil := List.isEmpty_iff.mp hempty
    have hle := cells_trimEnd_le cs
    unfold trimEnd at hle
    rw [hnil]
    simpa using hle
  · rw [List.reverse_append, List.reverse_reverse, cells_append]

/-- The pieces of a word that is chopped, behind the line so far if there is one. -/
theorem laid_chop (hwidth : 2 ≤ width) (hfits : cells (trimEnd line) ≤ width) (word : List Char) :
    Laid width (line ++ word) (if line.isEmpty then (chop width word).dropWhile List.isEmpty
      else line :: chop width word) := by
  have hpieces : Laid width word (chop width word) := by
    refine ⟨flatten_chopFrom, fun p hp => (cells_trimEnd_le p).trans ?_⟩
    exact cells_le_of_mem_chopFrom hwidth rfl (Nat.zero_le _) p hp
  split
  · next hempty =>
    rw [List.isEmpty_iff.mp hempty, List.nil_append]
    refine ⟨(flatten_dropWhile_isEmpty _).trans hpieces.flatten_eq, fun p hp => ?_⟩
    exact hpieces.fits p ((List.dropWhile_sublist _).mem hp)
  · exact hpieces.cons hfits

/-- **Words are laid out on lines that fit**, behind a line that fits so far. -/
theorem laid_fill (hwidth : 2 ≤ width) (hused : used = cells line)
    (hfits : cells (trimEnd line) ≤ width) :
    Laid width (line ++ ws.flatten) (fill width line used ws) := by
  induction ws generalizing line used with
  | nil => exact ⟨by simp [fill], by simpa [fill] using hfits⟩
  | cons word ws ih =>
    unfold fill
    simp only
    rw [List.flatten_cons]
    split
    · -- the word goes on the line
      have hmore := cells_trimEnd_append_le line word
      rw [← List.append_assoc]
      exact ih (by rw [cells_append, hused]) (by omega)
    · split
      · -- the word is chopped
        have hlaid := laid_chop hwidth hfits word
        generalize (if line.isEmpty then (chop width word).dropWhile List.isEmpty
          else line :: chop width word) = chopped at hlaid ⊢
        have hlast : cells (trimEnd (chopped.getLast?.getD [])) ≤ width := by
          cases hl : chopped.getLast? with
          | none => exact Nat.zero_le _
          | some last => exact hlaid.fits last (List.mem_of_getLast? hl)
        have hinit : Laid width chopped.dropLast.flatten chopped.dropLast :=
          ⟨rfl, fun l hl => hlaid.fits l (List.dropLast_subset _ hl)⟩
        rw [← List.append_assoc, ← hlaid.flatten_eq, ← flatten_dropLast_append, List.append_assoc]
        exact hinit.append (ih rfl hlast)
      · -- the word starts a line
        next hshort =>
        exact (ih rfl (by omega)).cons hfits

/-- A text is laid out on lines before these are trimmed and cut. -/
theorem exists_laid (hwidth : 2 ≤ width) (cs : List Char) :
    ∃ lines, Laid width (expandTabs 0 cs) lines ∧
      wrapLine width cs = lines.map fun line => fit width (trimExcess width line) := by
  unfold wrapLine
  simp only
  split
  · next hwords =>
    refine ⟨[expandTabs 0 cs], ⟨by simp, ?_⟩, rfl⟩
    have hblank := words_eq_nil.mp hwords
    have hnil : trimEnd (expandTabs 0 cs) = [] := by
      unfold trimEnd
      rw [List.dropWhile_eq_nil_iff.mpr fun c hc => hblank c (List.mem_reverse.mp hc)]
      rfl
    simp [hnil]
  · next hwords =>
    refine ⟨_, ?_, rfl⟩
    have hempty : cells (trimEnd []) ≤ width := Nat.zero_le _
    have hlaid : Laid width ([] ++ (words (expandTabs 0 cs)).flatten)
        (fill width [] 0 (words (expandTabs 0 cs))) := laid_fill hwidth rfl hempty
    rwa [List.nil_append, flatten_words hwords] at hlaid

end Unimported.Report
