import Mathlib.Data.List.Chain
import Mathlib.Data.List.Infix
import Unimported.Proofs.Report.Cut
import Unimported.Proofs.Report.Laid
import Unimported.Proofs.Report.Verbatim

/-!
# Wrapping keeps the ink

A report is wrapped to any width of two cells or more.  The lines of the terminal show, one after the
other, the ink of the report, and none of them is wider than the terminal.  Only characters without
width may be missing, where they stand before a blank: the blank may make a line too wide, and such a
line is cut by its cells, in front of characters that take none.

## Main definitions

* `Report.Keeps`, `Report.Wrapped` — what one line shows of the ink, and what all of them show.
* `Report.Guarded` — texts in which no character without width stands before a blank.
* `Report.rows` — the lines of the terminal that a text takes.

## Main results

* `Report.wrapped_wrapLine`, `Report.wrapped_rows` — **the lines of the terminal show the ink of a
  text**, those of a guarded text all of it.
* `Report.text_wrapped` — **wrapping a report keeps its ink.**
-/

namespace Unimported.Report

open Text (isBlank splitLines)

variable {width used : Nat} {cs line part shown : List Char} {lines : List (List Char)} {c : Char}
  {sections : List Section}

/-! ### Guarded texts -/

/-- Whether the second character may stand behind the first one: no blank stands behind a character
without width, unless that is blank itself. -/
def Harmless (c d : Char) : Prop := cellWidth c = 0 → isBlank c = false → isBlank d = false

/-- A text in which no character without width stands before a blank. -/
def Guarded (cs : List Char) : Prop := cs.IsChain Harmless

theorem guarded_cons : Guarded (c :: cs) ↔ (∀ d ∈ cs.head?, Harmless c d) ∧ Guarded cs :=
  List.isChain_cons

/-- A part of a guarded text. -/
theorem Guarded.of_part (h : Guarded cs) (hpart : part <:+: cs) : Guarded part :=
  List.IsChain.infix h hpart

/-- Characters that are left out are of no account if they are blank. -/
theorem Guarded.filter {keep : Char → Bool} (hkeep : ∀ c ∈ cs, isBlank c = false → keep c = true)
    (h : Guarded cs) : Guarded (cs.filter keep) := by
  induction cs with
  | nil => exact h
  | cons c cs ih =>
    obtain ⟨hhead, hrest⟩ := guarded_cons.mp h
    have hguard := ih (fun d hd => hkeep d (List.mem_cons_of_mem c hd)) hrest
    by_cases hc : keep c = true
    · rw [List.filter_cons_of_pos hc, guarded_cons]
      refine ⟨fun d hd hzero hink => ?_, hguard⟩
      -- what stands behind the character is no blank, so it is not left out
      cases cs with
      | nil => cases hd
      | cons e cs =>
        have he := hhead e rfl hzero hink
        rw [List.filter_cons_of_pos (hkeep e (by simp) he)] at hd
        exact Option.some.inj hd ▸ he
    · rwa [List.filter_cons_of_neg hc]

/-- Spaces in front of a guarded text. -/
theorem Guarded.replicate_append (h : Guarded cs) (n : Nat) :
    Guarded (List.replicate n ' ' ++ cs) := by
  induction n with
  | zero => exact h
  | succ n ih =>
    rw [List.replicate_succ, List.cons_append, guarded_cons]
    exact ⟨fun d _ hzero => absurd hzero (by decide), ih⟩

/-! ### Tabs -/

/-- A tab becomes one space or more. -/
theorem exists_expandTabs_tab (used : Nat) (cs : List Char) :
    ∃ n, expandTabs used ('\t' :: cs) =
      List.replicate (n + 1) ' ' ++ expandTabs (used + (n + 1)) cs := by
  have hpos : tabSize - used % tabSize = tabSize - used % tabSize - 1 + 1 := by
    have hlt : used % tabSize < tabSize := Nat.mod_lt used (by decide)
    omega
  refine ⟨tabSize - used % tabSize - 1, ?_⟩
  rw [← hpos]
  rfl

theorem expandTabs_cons (hc : c ≠ '\t') :
    expandTabs used (c :: cs) = c :: expandTabs (used + cellWidth c) cs := if_neg hc

theorem ink_expandTabs : ink (expandTabs used cs) = ink cs := by
  induction cs generalizing used with
  | nil => rfl
  | cons c cs ih =>
    by_cases hc : c = '\t'
    · obtain ⟨n, hn⟩ := exists_expandTabs_tab used cs
      have hspaces : ink (List.replicate (n + 1) ' ') = [] :=
        ink_eq_nil.mpr fun d hd => List.eq_of_mem_replicate hd ▸ (by decide)
      rw [hc, hn, ink_append, hspaces, ih]
      rfl
    · rw [expandTabs_cons hc, ink_cons, ih, ← ink_cons]

theorem newline_not_mem_expandTabs (h : '\n' ∉ cs) : '\n' ∉ expandTabs used cs := by
  induction cs generalizing used with
  | nil => exact h
  | cons c cs ih =>
    obtain ⟨hne, hcs⟩ := not_or.mp (mt List.mem_cons.mpr h)
    by_cases hc : c = '\t'
    · obtain ⟨n, hn⟩ := exists_expandTabs_tab used cs
      rw [hc, hn]
      intro hmem
      rcases List.mem_append.mp hmem with hmem | hmem
      · exact absurd (List.eq_of_mem_replicate hmem) (by decide)
      · exact ih hcs hmem
    · rw [expandTabs_cons hc]
      exact fun hmem => (List.mem_cons.mp hmem).elim hne (ih hcs)

theorem Guarded.expandTabs (h : Guarded cs) : Guarded (expandTabs used cs) := by
  induction cs generalizing used with
  | nil => exact h
  | cons c cs ih =>
    obtain ⟨hhead, hrest⟩ := guarded_cons.mp h
    by_cases hc : c = '\t'
    · obtain ⟨n, hn⟩ := exists_expandTabs_tab used cs
      rw [hc, hn]
      exact (ih hrest).replicate_append (n + 1)
    · rw [expandTabs_cons hc, guarded_cons]
      refine ⟨fun d hd hzero hink => ?_, ih hrest⟩
      cases cs with
      | nil => cases hd
      | cons e cs =>
        have he := hhead e rfl hzero hink
        have hne : e ≠ '\t' := by
          rintro rfl
          exact absurd he (by decide)
        rw [expandTabs_cons hne] at hd
        exact Option.some.inj hd ▸ he

/-! ### Line feeds -/

/-- The parts of a text between line feeds hold none, and stand in the text; the first one stands at
its start. -/
theorem exists_splitLines (cs : List Char) :
    ∃ first parts, splitLines cs = first :: parts ∧ first <+: cs ∧
      ∀ p ∈ first :: parts, p <:+: cs ∧ '\n' ∉ p := by
  fun_induction splitLines cs with
  | case1 => exact ⟨[], [], rfl, List.nil_prefix, by simp⟩
  | case2 cs ih =>
    obtain ⟨first, parts, hsplit, -, hparts⟩ := ih
    refine ⟨[], splitLines cs, rfl, List.nil_prefix, fun p hp => ?_⟩
    rcases List.mem_cons.mp hp with rfl | hp
    · exact ⟨List.nil_prefix.isInfix, List.not_mem_nil⟩
    · obtain ⟨hwithin, hnewline⟩ := hparts p (hsplit ▸ hp)
      exact ⟨List.infix_cons hwithin, hnewline⟩
  | case3 c cs _ hnone ih =>
    obtain ⟨first, parts, hsplit, -⟩ := ih
    rw [hsplit] at hnone
    cases hnone
  | case4 c cs hc l ls hsome ih =>
    obtain ⟨first, parts, hsplit, hprefix, hparts⟩ := ih
    obtain ⟨rfl, rfl⟩ := List.cons.inj (hsome.symm.trans hsplit)
    have hfirst : c :: l <+: c :: cs := List.cons_prefix_cons.mpr ⟨rfl, hprefix⟩
    refine ⟨c :: l, ls, rfl, hfirst, fun p hp => ?_⟩
    rcases List.mem_cons.mp hp with rfl | hp
    · refine ⟨hfirst.isInfix, fun hmem => ?_⟩
      exact (List.mem_cons.mp hmem).elim (fun h => hc h.symm) (hparts l List.mem_cons_self).2
    · obtain ⟨hwithin, hnewline⟩ := hparts p (List.mem_cons_of_mem l hp)
      exact ⟨List.infix_cons hwithin, hnewline⟩

theorem flatMap_ink_splitLines (cs : List Char) : (splitLines cs).flatMap ink = ink cs := by
  fun_induction splitLines cs with
  | case1 => rfl
  | case2 cs ih =>
    rw [List.flatMap_cons, ih]
    rfl
  | case3 c cs _ hnone ih =>
    rw [hnone] at ih
    rw [ink_cons, ← ih]
    rfl
  | case4 c cs _ l ls hsome ih =>
    rw [hsome, List.flatMap_cons] at ih
    rw [List.flatMap_cons, ink_cons, ink_cons c cs, ← ih, List.append_assoc]

/-! ### What lines show -/

/-- A line of the terminal shows a part of the ink of a text.  It may lack characters without width
at the end of the part, if it takes all cells of the terminal and has fewer characters than cells,
also together with those that it lacks. -/
structure Keeps (width : Nat) (shown part : List Char) : Prop where
  cells_le : cells shown ≤ width
  newline_not_mem : '\n' ∉ shown
  shows : part = ink shown ∨ ∃ marks, marks ≠ [] ∧ (∀ c ∈ marks, cellWidth c = 0) ∧
    part = ink shown ++ marks ∧ cells shown = width ∧ shown.length + marks.length < width

/-- Lines of the terminal that show the ink of a text, each line the next part of it. -/
inductive Wrapped (width : Nat) : List Char → List (List Char) → Prop where
  /-- No lines. -/
  | nil : Wrapped width [] []
  /-- A line, and those below it. -/
  | cons {part shown rest : List Char} {lines : List (List Char)} : Keeps width shown part →
      Wrapped width rest lines → Wrapped width (part ++ rest) (shown :: lines)

theorem Wrapped.append {is js : List Char} {lines lines' : List (List Char)}
    (h : Wrapped width is lines) (h' : Wrapped width js lines') :
    Wrapped width (is ++ js) (lines ++ lines') := by
  induction h with
  | nil => exact h'
  | cons hkeeps _ ih =>
    rw [List.append_assoc, List.cons_append]
    exact .cons hkeeps ih

theorem Wrapped.flatMap {α : Type} {f : α → List Char} {g : α → List (List Char)} {as : List α}
    (h : ∀ a ∈ as, Wrapped width (f a) (g a)) : Wrapped width (as.flatMap f) (as.flatMap g) := by
  induction as with
  | nil => exact .nil
  | cons a as ih =>
    rw [List.flatMap_cons, List.flatMap_cons]
    exact (h a List.mem_cons_self).append (ih fun b hb => h b (List.mem_cons_of_mem a hb))

theorem Wrapped.cells_le {is : List Char} (h : Wrapped width is lines) :
    ∀ line ∈ lines, cells line ≤ width := by
  induction h with
  | nil => exact fun _ hl => by cases hl
  | cons hkeeps _ ih =>
    intro line hl
    rcases List.mem_cons.mp hl with rfl | hl
    · exact hkeeps.cells_le
    · exact ih line hl

/-- Lines show all characters that take a cell. -/
theorem Wrapped.filter_eq {is : List Char} (h : Wrapped width is lines) :
    (lines.flatMap ink).filter (fun c => cellWidth c != 0) = is.filter fun c => cellWidth c != 0 := by
  induction h with
  | nil => rfl
  | @cons part shown rest lines hkeeps _ ih =>
    rw [List.flatMap_cons, List.filter_append, List.filter_append, ih]
    rcases hkeeps.shows with hpart | ⟨marks, -, hzero, hpart, -⟩
    · rw [hpart]
    · have hmarks : marks.filter (fun c => cellWidth c != 0) = [] :=
        List.filter_eq_nil_iff.mpr fun c hc => by simp [hzero c hc]
      rw [hpart, List.filter_append, hmarks, List.append_nil]

/-- What is shown of a line keeps the ink of the line. -/
theorem Shows.keeps (h : Shows width line shown) (hnewline : '\n' ∉ shown) :
    Keeps width shown (ink line) := by
  cases h with
  | whole hcells hink => exact ⟨hcells, hnewline, .inl hink.symm⟩
  | @short marks blanks mark blank hline hzero hmark hblanks hcells hlen =>
    have hmarks : ink (marks ++ [mark]) ≠ [] := by
      intro hnil
      rw [ink_eq_nil.mp hnil mark (by simp)] at hmark
      cases hmark
    have hle : (ink (marks ++ [mark])).length ≤ (marks ++ [mark]).length := List.length_filter_le _ _
    refine ⟨hcells.le, hnewline, .inr ⟨ink (marks ++ [mark]), hmarks, fun c hc => ?_, ?_, hcells, ?_⟩⟩
    · exact hzero c (List.mem_filter.mp hc).1
    · rw [hline, ink_append, ink_append, ink_eq_nil.mpr hblanks, List.append_nil]
    · omega

/-- What is shown of a guarded line is all of its ink. -/
theorem Shows.ink_eq (h : Shows width line shown) (hguard : Guarded line) : ink shown = ink line := by
  cases h with
  | whole _ hink => exact hink
  | @short marks blanks mark blank hline hzero hmark hblanks =>
    -- the last of the characters that are missing stands before a blank
    rw [hline] at hguard
    have hharmless := (List.isChain_append.mp hguard).2.2 mark (by simp) blank rfl
    have hblank := hharmless (hzero mark (by simp)) hmark
    rw [hblanks blank List.mem_cons_self] at hblank
    cases hblank

/-! ### Texts on a terminal -/

/-- The lines of the terminal that a text takes. -/
def rows (width : Nat) (cs : List Char) : List (List Char) :=
  (splitLines (cs.filter fun c => !isDropped c)).flatMap (wrapLine width)

theorem printed_eq_rows (hwidth : width ≠ 0) (cs : List Char) :
    printed width cs = (rows width cs).flatMap fun line => line ++ ['\n'] := if_neg hwidth

/-- What a text without line feeds takes on the terminal. -/
theorem wrapped_wrapLine (hwidth : 2 ≤ width) (hnewline : '\n' ∉ cs) :
    Wrapped width (ink cs) (wrapLine width cs) ∧
      (Guarded cs → (wrapLine width cs).flatMap ink = ink cs) := by
  obtain ⟨lines, hlaid, hwrap⟩ := exists_laid hwidth cs
  have hpart : ∀ line ∈ lines, line <:+: expandTabs 0 cs := fun line hl =>
    hlaid.flatten_eq ▸ List.infix_of_mem_flatten hl
  have hshows : ∀ line ∈ lines, Shows width line (fit width (trimExcess width line)) :=
    fun line hl => shows_fit hwidth (hlaid.fits line hl)
  have htabs : ink (expandTabs 0 cs) = ink cs := ink_expandTabs
  have hink : ink cs = lines.flatMap ink := by
    rw [← htabs, ← hlaid.flatten_eq, ink, List.filter_flatten, List.flatMap_def]
    rfl
  rw [hwrap, hink]
  constructor
  · rw [← List.flatMap_singleton' (lines.map _), List.flatMap_map]
    refine .flatMap fun line hl => ?_
    have hfit : '\n' ∉ fit width (trimExcess width line) := by
      intro hmem
      rcases mem_or_eq_of_mem_fit hwidth _ hmem with hmem | hmem
      · exact newline_not_mem_expandTabs hnewline ((hpart line hl).subset hmem)
      · exact absurd hmem (by decide)
    have hkeeps := (hshows line hl).keeps hfit
    simpa using Wrapped.cons hkeeps .nil
  · intro hguard
    rw [List.flatMap_map]
    refine List.flatMap_congr fun line hl => ?_
    exact (hshows line hl).ink_eq (hguard.expandTabs.of_part (hpart line hl))

/-- A character that is kept or blank: neither the bell nor the backspace, which are dropped and are
no blanks. -/
def Audible (c : Char) : Prop := c ≠ '\x07' ∧ c ≠ '\x08'

instance : DecidablePred Audible := fun _ => inferInstanceAs (Decidable (_ ∧ _))

theorem audible_of_not_mem_special (c : Char) (h : c ∉ special) : Audible c := by
  simp only [special, List.mem_cons, not_or] at h
  exact ⟨h.2.2.2.1, h.2.2.2.2.1⟩

/-- All other characters that are dropped are blank. -/
theorem Audible.not_isDropped (h : Audible c) (hink : isBlank c = false) : (!isDropped c) = true := by
  obtain ⟨hbell, hback⟩ := h
  have hblanks : ['\x0b', '\x0c', '\r'].all isBlank = true := by decide
  have hother : c ∉ ['\x0b', '\x0c', '\r'] := fun hmem => by
    rw [List.all_eq_true.mp hblanks c hmem] at hink
    cases hink
  simp only [List.mem_cons, List.not_mem_nil, or_false, not_or] at hother
  simp [isDropped, hbell, hback, hother]

/-- **The lines of the terminal show the ink of a text**, those of a guarded text all of it. -/
theorem wrapped_rows (hwidth : 2 ≤ width) (h : ∀ c ∈ cs, Audible c) :
    Wrapped width (ink cs) (rows width cs) ∧
      (Guarded cs → (rows width cs).flatMap ink = ink cs) := by
  have hkept : ∀ c ∈ cs, isBlank c = false → (!isDropped c) = true := fun c hc =>
    (h c hc).not_isDropped
  have hink : ink cs = ink (cs.filter fun c => !isDropped c) := by
    rw [ink, ink, List.filter_filter]
    refine List.filter_congr fun c hc => ?_
    cases hb : isBlank c with
    | true => rfl
    | false => simp [hkept c hc hb]
  obtain ⟨first, parts, hsplit, -, hparts⟩ := exists_splitLines (cs.filter fun c => !isDropped c)
  have hpart : ∀ p ∈ splitLines (cs.filter fun c => !isDropped c), p <:+: _ ∧ '\n' ∉ p :=
    fun p hp => hparts p (hsplit ▸ hp)
  unfold rows
  rw [hink, ← flatMap_ink_splitLines]
  constructor
  · exact .flatMap fun p hp => (wrapped_wrapLine hwidth (hpart p hp).2).1
  · intro hguard
    rw [List.flatMap_assoc]
    refine List.flatMap_congr fun p hp => ?_
    obtain ⟨hwithin, hnewline⟩ := hpart p hp
    exact (wrapped_wrapLine hwidth hnewline).2 ((hguard.filter hkept).of_part hwithin)

/-! ### Reports -/

/-- The ink of the template of a report. -/
def templateInk (sections : List Section) : List Char :=
  (template sections).flatMap fun t => ink t.toList

/-- A report is what its lines say, printed. -/
theorem text_eq_printed (h : ∀ s ∈ sections, TextsOf (Sound Audible) s) :
    text width sections =
      String.ofList ((Report.lines sections).flatMap fun l => printed width l.plain) := by
  unfold text
  refine congrArg String.ofList (List.flatMap_congr fun l hl => ?_)
  rw [Line.printed, (marked_lines audible_of_not_mem_special h l hl).1.render_markup]

theorem ink_flatMap_newline (shown : List (List Char)) :
    ink (shown.flatMap fun line => line ++ ['\n']) = shown.flatMap ink := by
  have hnewline : ink ['\n'] = [] := by decide
  induction shown with
  | nil => rfl
  | cons line shown ih =>
    rw [List.flatMap_cons, ink_append, ink_append, hnewline, List.append_nil, ih, List.flatMap_cons]

/-- **Wrapping a report keeps its ink.**  No line is wider than the terminal, and the lines show the
ink of the template one part after the other.  All characters that take a cell are shown, and where
no character without width stands before a blank, all characters are. -/
theorem text_wrapped (hwidth : 2 ≤ width) (h : ∀ s ∈ sections, TextsOf (Sound Audible) s) :
    ∃ shown : List (List Char),
      (text width sections).toList = shown.flatMap (fun line => line ++ ['\n']) ∧
      (∀ line ∈ shown, cells line ≤ width) ∧
      Wrapped width (templateInk sections) shown ∧
      (ink (text width sections).toList).filter (fun c => cellWidth c != 0) =
        (templateInk sections).filter (fun c => cellWidth c != 0) ∧
      ((∀ t ∈ template sections, Guarded t.toList) →
        ink (text width sections).toList = templateInk sections) := by
  let shown := (Report.lines sections).flatMap fun l => rows width l.plain
  have htext : (text width sections).toList = shown.flatMap fun line => line ++ ['\n'] := by
    rw [text_eq_printed h, String.toList_ofList, List.flatMap_assoc]
    exact List.flatMap_congr fun l _ => printed_eq_rows (by omega) l.plain
  have htemplate : templateInk sections = (Report.lines sections).flatMap fun l => ink l.plain := by
    rw [templateInk, ← plain_lines, List.flatMap_map]
    simp only [String.toList_ofList]
  have hrows : ∀ l ∈ Report.lines sections, Wrapped width (ink l.plain) (rows width l.plain) ∧
      (Guarded l.plain → (rows width l.plain).flatMap ink = ink l.plain) := fun l hl =>
    wrapped_rows hwidth (marked_lines audible_of_not_mem_special h l hl).2
  have hwrapped : Wrapped width (templateInk sections) shown :=
    htemplate ▸ .flatMap fun l hl => (hrows l hl).1
  refine ⟨shown, htext, hwrapped.cells_le, hwrapped, ?_, fun hguard => ?_⟩
  · rw [htext, ink_flatMap_newline, hwrapped.filter_eq]
  · rw [htext, ink_flatMap_newline, htemplate, List.flatMap_assoc]
    refine List.flatMap_congr fun l hl => (hrows l hl).2 ?_
    have hmem : String.ofList l.plain ∈ template sections :=
      plain_lines sections ▸ List.mem_map_of_mem hl
    simpa using hguard _ hmem

/-- A section whose title has a character without width before a blank. -/
def accented : Section where
  check := "pages"
  title := "a世界\u0301 x"
  remarks := []
  candidates := []

theorem texts_accented : ∀ s ∈ [accented], TextsOf (Sound Audible) s := fun _ hs =>
  List.mem_singleton.mp hs ▸ ⟨by decide +kernel, by simp [accented], by simp [accented]⟩

theorem text_wrapped_accented :
    ∃ shown : List (List Char),
      (text 5 [accented]).toList = shown.flatMap (fun line => line ++ ['\n']) ∧
      (∀ line ∈ shown, cells line ≤ 5) ∧
      Wrapped 5 (templateInk [accented]) shown ∧
      (ink (text 5 [accented]).toList).filter (fun c => cellWidth c != 0) =
        (templateInk [accented]).filter (fun c => cellWidth c != 0) ∧
      ((∀ t ∈ template [accented], Guarded t.toList) →
        ink (text 5 [accented]).toList = templateInk [accented]) :=
  text_wrapped (by decide) texts_accented

/-- **A character without width may be lost**, where it stands at the end of a line that its blank
makes too wide. -/
theorem ink_not_kept :
    ¬ ∀ (width : Nat) (sections : List Section), 2 ≤ width →
      (∀ s ∈ sections, TextsOf (Sound Audible) s) →
      ink (text width sections).toList = templateInk sections ∧
        ∀ line ∈ splitLines (text width sections).toList, cells line ≤ width := by
  intro hall
  have h := (hall 5 [accented] (by decide) texts_accented).1
  rw [text_eq_printed texts_accented, String.toList_ofList] at h
  revert h
  decide +kernel

end Unimported.Report
