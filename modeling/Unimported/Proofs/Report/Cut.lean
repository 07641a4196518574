import Mathlib.Data.List.Infix
import Unimported.Report.Wrap

/-!
# Lines that are cut

A line that came out too long loses blanks at its end and is then cut to the width.  The place to cut
at is looked for between two positions, and a cut through a wide character leaves a blank.  Where the
line fits without the blanks at its end, only these are in the way, so only these are cut.  There is
one exception: characters without width at the end of the line take no cell, so the search may stop
in front of them.

## Main definitions

* `Report.ink` — the characters of a text that are not blank.
* `Report.Cut` — a line cut to a width.
* `Report.Shows` — what is shown of a line.

## Main results

* `Report.cut_cutBetween` — **the search ends at a place to cut at.**
* `Report.shows_fit` — **what is shown of a line that fits without the blanks at its end.**
-/

namespace Unimported.Report

open Text (isBlank trimEnd)

variable {width : Nat} {cs line : List Char} {c : Char}

/-! ### Ink and blanks -/

/-- The characters of a text that are not blank. -/
def ink (cs : List Char) : List Char := cs.filter fun c => !isBlank c

@[simp] theorem ink_nil : ink [] = [] := rfl

@[simp] theorem ink_append (cs ds : List Char) : ink (cs ++ ds) = ink cs ++ ink ds :=
  List.filter_append cs ds

theorem ink_cons (c : Char) (cs : List Char) : ink (c :: cs) = ink [c] ++ ink cs := ink_append [c] cs

theorem ink_eq_nil : ink cs = [] ↔ ∀ c ∈ cs, isBlank c = true := by
  simp [ink, List.filter_eq_nil_iff]

/-- Behind a trimmed text stood blanks. -/
theorem exists_trimEnd_append (cs : List Char) :
    ∃ blanks, cs = trimEnd cs ++ blanks ∧ ∀ c ∈ blanks, isBlank c = true := by
  refine ⟨(cs.reverse.takeWhile isBlank).reverse, ?_, fun c hc => ?_⟩
  · rw [trimEnd, ← List.reverse_append, List.takeWhile_append_dropWhile, List.reverse_reverse]
  · exact List.all_eq_true.mp List.all_takeWhile c (List.mem_reverse.mp hc)

/-- A trimmed text does not end in a blank. -/
theorem isBlank_getLast?_trimEnd (cs : List Char) :
    ∀ c ∈ (trimEnd cs).getLast?, isBlank c = false := by
  intro c hc
  have hhead := List.head?_dropWhile_not isBlank cs.reverse
  rw [trimEnd, List.getLast?_reverse] at hc
  rw [hc] at hhead
  exact Bool.eq_false_iff.mpr (by simpa using hhead)

theorem ink_trimEnd (cs : List Char) : ink (trimEnd cs) = ink cs := by
  obtain ⟨blanks, hcs, hblanks⟩ := exists_trimEnd_append cs
  conv => rhs; rw [hcs, ink_append, ink_eq_nil.mpr hblanks, List.append_nil]

/-! ### Places to cut at -/

/-- A line cut to a width. -/
inductive Cut (width : Nat) (line : List Char) : List Char → Prop where
  /-- Between two characters. -/
  | between {front back : List Char} : line = front ++ back → cells front = width →
      Cut width line front
  /-- Through a wide character. -/
  | through {front back : List Char} {c : Char} : line = front ++ c :: back → cellWidth c = 2 →
      cells front + 1 = width → Cut width line (front ++ [' '])

theorem Cut.cells_eq {shown : List Char} (h : Cut width line shown) : cells shown = width := by
  cases h with
  | between _ hcells => exact hcells
  | through _ _ hcells =>
    have hblank : cellWidth ' ' = 1 := by decide
    rw [cells_append, cells_cons, cells_nil, hblank]
    exact hcells

theorem Cut.mem_or_eq {shown : List Char} (h : Cut width line shown) :
    ∀ c ∈ shown, c ∈ line ∨ c = ' ' := by
  intro c hc
  cases h with
  | between hline _ => exact .inl (hline ▸ List.mem_append_left _ hc)
  | through hline _ _ =>
    rcases List.mem_append.mp hc with hc | hc
    · exact .inl (hline ▸ List.mem_append_left _ hc)
    · exact .inr (List.mem_singleton.mp hc)

/-- A position is passed over when it lies too far to the right, and a cut through the character there
does not help. -/
structure TooFar (width : Nat) (line : List Char) (position : Nat) : Prop where
  le_length : position ≤ line.length
  wide : width < cells (line.take (position + 1))
  not_through : position < line.length → ¬ (cells (line.take (position + 1)) = width + 1 ∧
    (line.take (position + 1)).getLast?.map cellWidth = some 2)

/-- Between a position that is not far enough and the next one, too far, there is no place to cut
at.  This does not happen, since no character takes more than two cells. -/
theorem TooFar.ne_succ {low : Nat} (hlow : cells (line.take (low + 1)) < width) :
    ¬ TooFar width line (low + 1) := by
  rintro ⟨hle, hwide, hthrough⟩
  rcases Nat.lt_or_ge (low + 1) line.length with hlt | hge
  · have htake : line.take (low + 1 + 1) = line.take (low + 1) ++ [line.get ⟨low + 1, hlt⟩] :=
      List.take_succ_eq_append_getElem hlt
    have hmost := cellWidth_le_two (line.get ⟨low + 1, hlt⟩)
    rw [htake, cells_append, cells_cons, cells_nil] at hwide
    refine hthrough hlt ⟨?_, ?_⟩
    · rw [htake, cells_append, cells_cons, cells_nil]
      omega
    · rw [htake, List.getLast?_concat, Option.map_some]
      exact congrArg some (by omega)
  · rw [List.take_of_length_le (by omega)] at hwide hlow
    omega

/-- **The search ends at a place to cut at.** -/
theorem cut_cutBetween {fuel low high : Nat} (hfuel : high - low ≤ fuel) (hlt : low < high)
    (hlow : cells (line.take (low + 1)) ≤ width) (hhigh : TooFar width line high) :
    Cut width line (cutBetween width line fuel low high) := by
  induction fuel generalizing low high with
  | zero => omega
  | succ fuel ih =>
    unfold cutBetween
    simp only
    generalize hmiddle : (low + high) / 2 = middle
    have hle := hhigh.le_length
    have hsplit : line = line.take (middle + 1) ++ line.drop (middle + 1) :=
      (List.take_append_drop _ _).symm
    split
    · next hthrough =>
      obtain ⟨hcells, hlast⟩ := hthrough
      obtain ⟨c, hc, hwidth⟩ := Option.map_eq_some_iff.mp hlast
      have hfront : line.take (middle + 1) = (line.take (middle + 1)).dropLast ++ [c] :=
        (List.dropLast_append_getLast? c hc).symm
      rw [hfront, cells_append, cells_cons, cells_nil] at hcells
      have hline : line = (line.take (middle + 1)).dropLast ++ c :: line.drop (middle + 1) := by
        rw [← List.singleton_append, ← List.append_assoc, ← hfront]
        exact hsplit
      exact .through hline hwidth (by omega)
    · next hthrough =>
      split
      · next hcells => exact .between hsplit hcells
      · next hne =>
        split
        · next hwide =>
          have hmoved : low < middle := by
            rcases Nat.lt_or_ge low middle with h | h
            · exact h
            · obtain rfl : middle = low := by omega
              omega
          exact ih (by omega) hmoved hlow ⟨by omega, hwide, fun _ => hthrough⟩
        · next hnarrow =>
          have hmoved : low < middle := by
            rcases Nat.lt_or_ge low middle with h | h
            · exact h
            · obtain rfl : middle = low := by omega
              obtain rfl : high = middle + 1 := by omega
              exact absurd hhigh (TooFar.ne_succ (by omega))
          exact ih (by omega) (by omega) (by omega) hhigh

theorem cut_fit (hwidth : 2 ≤ width) (hwide : width < cells line) :
    Cut width line (fit width line) := by
  unfold fit
  rw [if_pos hwide]
  have hlen : 0 < line.length := List.length_pos_iff.mpr fun hnil => by simp [hnil] at hwide
  refine cut_cutBetween (by omega) hlen ?_ ⟨Nat.le_refl _, ?_, fun h => absurd h (Nat.lt_irrefl _)⟩
  · obtain ⟨c, rest, rfl⟩ := List.exists_cons_of_length_pos hlen
    have hmost := cellWidth_le_two c
    rw [List.take_succ_cons, List.take_zero, cells_cons, cells_nil]
    omega
  · rw [List.take_of_length_le (by omega)]
    exact hwide

/-! ### What is shown of a line -/

theorem cellWidth_eq_zero_of_mem (h : cells cs = 0) : ∀ c ∈ cs, cellWidth c = 0 := by
  induction cs with
  | nil => exact fun c hc => by cases hc
  | cons d cs ih =>
    rw [cells_cons, Nat.add_eq_zero_iff] at h
    intro c hc
    rcases List.mem_cons.mp hc with rfl | hc
    · exact h.1
    · exact ih h.2 c hc

/-- Of the blanks at the end of a line, trimming leaves as many as there is room for. -/
theorem exists_trimExcess (width : Nat) (line : List Char) :
    ∃ kept lost, line = trimEnd line ++ (kept ++ lost) ∧
      trimExcess width line = trimEnd line ++ kept ∧ (∀ c ∈ kept ++ lost, isBlank c = true) ∧
      (kept = [] ∨ (trimEnd line).length + kept.length ≤ width) := by
  obtain ⟨blanks, hline, hblanks⟩ := exists_trimEnd_append line
  have hlen : line.length = (trimEnd line).length + blanks.length := by
    conv => lhs; rw [hline, List.length_append]
  let count := blanks.length - min blanks.length (line.length - width)
  refine ⟨blanks.take count, blanks.drop count, ?_, ?_, ?_, ?_⟩
  · rw [List.take_append_drop]
    exact hline
  · have hsub : line.length - (trimEnd line).length = blanks.length := by omega
    have hcount : line.length - min blanks.length (line.length - width) =
        (trimEnd line).length + count := by
      show _ = _ + (blanks.length - min blanks.length (line.length - width))
      omega
    show line.take (line.length - min (line.length - (trimEnd line).length) (line.length - width)) = _
    rw [hsub, hcount]
    rw [← List.take_length_add_append, ← hline]
  · rw [List.take_append_drop]
    exact hblanks
  · rw [List.take_eq_nil_iff, List.length_take]
    have hcount : count = blanks.length - min blanks.length (line.length - width) := rfl
    omega

/-- What is shown of a line. -/
inductive Shows (width : Nat) (line : List Char) : List Char → Prop where
  /-- All of its ink. -/
  | whole {shown : List Char} : cells shown ≤ width → ink shown = ink line → Shows width line shown
  /-- All but characters without width, of which the last one is not blank and stands before a blank.
  What is shown takes the width, with fewer characters than cells. -/
  | short {shown marks blanks : List Char} {mark blank : Char} :
      line = shown ++ (marks ++ [mark]) ++ blank :: blanks → (∀ c ∈ marks ++ [mark], cellWidth c = 0) →
      isBlank mark = false → (∀ c ∈ blank :: blanks, isBlank c = true) → cells shown = width →
      shown.length + (marks ++ [mark]).length < width → Shows width line shown

/-- A cut through blanks, behind a text that fits, takes no ink away, unless characters without width
are cut off the text. -/
theorem Cut.ink_eq_or {core blanks shown : List Char} (h : Cut width (core ++ blanks) shown)
    (hfits : cells core ≤ width) (hblanks : ∀ c ∈ blanks, isBlank c = true) :
    ink shown = ink core ∨ ∃ marks, marks ≠ [] ∧ cells marks = 0 ∧ core = shown ++ marks := by
  have hink : ∀ more, (∀ c ∈ more, isBlank c = true) → ink (core ++ more) = ink core := by
    intro more hmore
    rw [ink_append, ink_eq_nil.mpr hmore, List.append_nil]
  cases h with
  | between hsplit hcells =>
    rcases List.append_eq_append_iff.mp hsplit with ⟨more, rfl, rfl⟩ | ⟨marks, rfl, -⟩
    · exact .inl (hink more fun c hc => hblanks c (List.mem_append_left _ hc))
    · rw [cells_append] at hfits
      by_cases hmarks : marks = []
      · rw [hmarks, List.append_nil]
        exact .inl rfl
      · exact .inr ⟨marks, hmarks, by omega, rfl⟩
  | @through front back c hsplit hc hcells =>
    -- the character does not fit, so it is one of the blanks
    rcases List.append_eq_append_iff.mp hsplit with ⟨more, rfl, rfl⟩ | ⟨more, rfl, hmore⟩
    · rw [List.append_assoc]
      refine .inl (hink _ fun d hd => ?_)
      rcases List.mem_append.mp hd with hd | hd
      · exact hblanks d (List.mem_append_left _ hd)
      · rw [List.mem_singleton.mp hd]
        decide
    · cases more with
      | nil =>
        have hspace : ink [' '] = ink [] := by decide
        refine .inl ?_
        rw [ink_append, ink_append, hspace]
      | cons d more =>
        obtain ⟨rfl, -⟩ := List.cons.inj hmore
        rw [cells_append, cells_cons] at hfits
        omega

/-- **What is shown of a line that fits** without the blanks at its end. -/
theorem shows_fit (hwidth : 2 ≤ width) (hfits : cells (trimEnd line) ≤ width) :
    Shows width line (fit width (trimExcess width line)) := by
  obtain ⟨kept, lost, hline, htrim, hblanks, hroom⟩ := exists_trimExcess width line
  have hkept : ∀ c ∈ kept, isBlank c = true := fun c hc => hblanks c (List.mem_append_left lost hc)
  rw [htrim]
  by_cases hwide : width < cells (trimEnd line ++ kept)
  · have hcut := cut_fit hwidth hwide
    generalize fit width (trimEnd line ++ kept) = shown at hcut ⊢
    rcases hcut.ink_eq_or hfits hkept with hink | ⟨marks, hne, hzero, hcore⟩
    · exact .whole hcut.cells_eq.le (hink.trans (ink_trimEnd line))
    · obtain ⟨init, mark, rfl⟩ := (List.eq_nil_or_concat marks).resolve_left hne
      rw [List.concat_eq_append] at hcore hzero
      cases kept with
      | nil =>
        rw [List.append_nil] at hwide
        omega
      | cons blank kept =>
        have hmark : isBlank mark = false := isBlank_getLast?_trimEnd line mark (by simp [hcore])
        have hlen := congrArg List.length hcore
        have hfull := hroom.resolve_left (List.cons_ne_nil blank kept)
        rw [List.length_append] at hlen
        rw [List.length_cons] at hfull
        exact .short (hcore ▸ hline) (cellWidth_eq_zero_of_mem hzero) hmark hblanks hcut.cells_eq
          (by omega)
  · unfold fit
    rw [if_neg hwide]
    refine .whole (by omega) ?_
    rw [ink_append, ink_eq_nil.mpr hkept, List.append_nil, ink_trimEnd]

/-- Nothing new is shown but blanks. -/
theorem mem_or_eq_of_mem_fit (hwidth : 2 ≤ width) :
    ∀ c ∈ fit width (trimExcess width line), c ∈ line ∨ c = ' ' := by
  have htrim : ∀ c ∈ trimExcess width line, c ∈ line := fun c hc => List.mem_of_mem_take hc
  intro c hc
  by_cases hwide : width < cells (trimExcess width line)
  · exact ((cut_fit hwidth hwide).mem_or_eq c hc).imp_left (htrim c)
  · unfold fit at hc
    rw [if_neg hwide] at hc
    exact .inl (htrim c hc)

end Unimported.Report
