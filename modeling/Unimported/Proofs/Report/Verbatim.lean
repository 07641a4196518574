import Unimported.Proofs.Report.Escaped
import Unimported.Proofs.Report.Fitting

/-!
# The report says what it was given

File names may hold any brackets, as the routes of a framework do, and the lines of the report are
marked up.  Still the report prints every text from outside as it stands: no text is taken for a
tag, or makes one together with what stands next to it, and a line that fits on the terminal is not
broken.  So the report can be written down without tags and escapes, as a list of plain lines.

## Main definitions

* `Report.template` — the plain lines of a report.
* `Report.Ordinary` — texts without backslashes, tabs, and characters that end a line or are dropped.
* `Report.IsOrdinary` — sections all of whose texts are ordinary.
* `Report.Sound`, `Report.Line.Marked` — texts without backslashes, and lines that print what they
  say, all of whose characters are of a kind.

## Main results

* `Report.plainText_eq_template` — the report without styles is its template.
* `Report.styles_line` — the tags of a line are its own, and closed.
* `Report.text_eq_template` — **a report whose lines fit prints its template.**
-/

namespace Unimported.Report

variable {width : Nat} {sections : List Section} {t : String} {l : Line}

/-! ### The template -/

/-- The plain line of a remark. -/
def remarkText (r : Remark) : String :=
  match r.status with
  | .used => "   ok " ++ r.file ++ " - " ++ r.message
  | .unused => "   !! " ++ r.file ++ " - " ++ r.message
  | .info => "   -- " ++ r.message

/-- The plain lines of a section with its number. -/
def sectionTexts (s : Section × Nat) : List String :=
  "" :: (toString s.2 ++ ". " ++ s.1.title) :: s.1.remarks.map remarkText

/-- The plain lines of a candidate with its number. -/
def candidateTexts (c : Candidate × Nat) : List String :=
  [toString c.2 ++ ". " ++ c.1.file, "   Type: " ++ c.1.label, "   Reason: " ++ c.1.reason, ""]

/-- The plain lines of the summary: the candidates numbered through, or that there are none. -/
def summaryTexts : List Candidate → List String
  | [] => ["No unused files found! All files appear to be in use.", ""]
  | candidates => (candidates.zipIdx 1).flatMap candidateTexts

/-- The plain line of a rule. -/
def ruleText : String := "============================================================"

/-- The plain lines of the notes at the end. -/
def noteTexts : List String :=
  ["   - UI components from shadcn/ui are often unused until needed",
    "   - Some components might be used dynamically or conditionally",
    "   - Always verify before deleting any files!",
    "   - Check asset usage manually in component files"]

/-- The plain lines of a report. -/
def template (sections : List Section) : List String :=
  ["Analyzing Unused Frontend Files and Folders", ruleText] ++
    (sections.zipIdx 1).flatMap sectionTexts ++
    ["", ruleText, "", "Summary of Potentially Unused Files:", ""] ++
    summaryTexts (sections.flatMap Section.candidates) ++
    "Notes:" :: noteTexts

theorem plain_boldLine (t : String) : String.ofList (boldLine t).plain = t := by
  apply String.toList_inj.mp
  simp [boldLine, Line.plain, Piece.plain]

theorem plain_rule : String.ofList rule.plain = ruleText := by
  simp [rule, ruleText, ruleWidth, Line.plain, Piece.plain]

/-- A line of a text of the report and one from outside says both. -/
theorem plain_pair (label text : String) :
    String.ofList (Line.plain [.fixed label, .given text]) = label ++ text := by
  apply String.toList_inj.mp
  simp [Line.plain, Piece.plain]

/-- What numbered things say, each with its number. -/
theorem map_numbered {α β : Type} {lines : Nat → α → List Line} {f : Line → β}
    {texts : α × Nat → List β} (h : ∀ n a, (lines n a).map f = texts (a, n)) (as : List α) (n : Nat) :
    (numbered lines n as).map f = (as.zipIdx n).flatMap texts := by
  induction as generalizing n with
  | nil => rfl
  | cons a as ih =>
    show (lines n a ++ numbered lines (n + 1) as).map f = ((a, n) :: as.zipIdx (n + 1)).flatMap texts
    rw [List.map_append, h, ih, List.flatMap_cons]

theorem plain_remarkLine (r : Remark) : String.ofList (remarkLine r).plain = remarkText r := by
  apply String.toList_inj.mp
  unfold remarkLine remarkText
  cases r.status with
  | used => simp [statusStyle, Line.plain, Piece.plain]
  | unused => simp [statusStyle, Line.plain, Piece.plain]
  | info => simp [statusStyle, Line.plain, Piece.plain]

theorem plain_sectionLines (n : Nat) (s : Section) :
    (sectionLines n s).map (fun l => String.ofList l.plain) = sectionTexts (s, n) := by
  have htitle : String.ofList (Line.plain [.style "bold cyan", .fixed (toString n ++ ". "),
      .given s.title, .style "/bold cyan"]) = toString n ++ ". " ++ s.title := by
    apply String.toList_inj.mp
    simp [Line.plain, Piece.plain]
  have hremarks : (s.remarks.map remarkLine).map (fun l => String.ofList l.plain) =
      s.remarks.map remarkText := by
    rw [List.map_map]
    exact List.map_congr_left fun r _ => plain_remarkLine r
  unfold sectionLines sectionTexts
  rw [List.map_cons, List.map_cons, htitle, hremarks]
  rfl

theorem plain_candidateLines (n : Nat) (c : Candidate) :
    (candidateLines n c).map (fun l => String.ofList l.plain) = candidateTexts (c, n) := by
  have hfile : String.ofList (Line.plain [.fixed (toString n ++ ". "), .style "bold", .given c.file,
      .style "/bold"]) = toString n ++ ". " ++ c.file := by
    apply String.toList_inj.mp
    simp [Line.plain, Piece.plain]
  unfold candidateLines candidateTexts
  rw [List.map_cons, List.map_cons, List.map_cons, hfile, plain_pair, plain_pair]
  rfl

theorem plain_summaryLines (cs : List Candidate) :
    (summaryLines cs).map (fun l => String.ofList l.plain) = summaryTexts cs := by
  cases cs with
  | nil => decide
  | cons c cs => exact map_numbered plain_candidateLines (c :: cs) 1

/-- The lines of a report say what its template says. -/
theorem plain_lines (sections : List Section) :
    (lines sections).map (fun l => String.ofList l.plain) = template sections := by
  have hnotes : (notes.map fun n => [Piece.fixed "   - ", .given n]).map
      (fun l => String.ofList (Line.plain l)) = noteTexts := by decide
  unfold lines template
  simp only [List.map_append, List.map_cons, List.map_nil, map_numbered plain_sectionLines,
    plain_summaryLines, plain_boldLine, plain_rule, hnotes]
  rfl

/-- **The report without styles is its template.** -/
theorem plainText_eq_template (sections : List Section) :
    plainText sections = String.join ((template sections).map (· ++ "\n")) := by
  apply String.toList_inj.mp
  rw [plainText, String.toList_ofList, String.toList_join, ← plain_lines, List.map_map,
    List.flatMap_map]
  congr 1
  funext l
  simp

/-! ### Ordinary texts -/

/-- The characters that a report does not print as they stand. -/
def special : List Char := ['\\', '\t', '\n', '\x07', '\x08', '\x0b', '\x0c', '\r']

/-- A text without backslashes, tabs, and characters that end a line or are dropped. -/
def Ordinary (t : String) : Prop := ∀ c ∈ t.toList, c ∉ special

/-- All texts of a section that the report prints are ordinary. -/
structure IsOrdinary (s : Section) : Prop where
  /-- The title. -/
  title : Ordinary s.title
  /-- The files and the wording of the remarks. -/
  remarks : ∀ r ∈ s.remarks, Ordinary r.file ∧ Ordinary r.message
  /-- The files of the candidates, what they are and why. -/
  candidates : ∀ c ∈ s.candidates, Ordinary c.file ∧ Ordinary c.label ∧ Ordinary c.reason

/-- All texts of a section that the report prints are of a kind. -/
structure TextsOf (P : String → Prop) (s : Section) : Prop where
  /-- The title. -/
  title : P s.title
  /-- The files and the wording of the remarks. -/
  remarks : ∀ r ∈ s.remarks, P r.file ∧ P r.message
  /-- The files of the candidates, what they are and why. -/
  candidates : ∀ c ∈ s.candidates, P c.file ∧ P c.label ∧ P c.reason

/-- A text without backslashes all of whose characters are of a kind. -/
structure Sound (ok : Char → Prop) (t : String) : Prop where
  not_mem_backslash : '\\' ∉ t.toList
  ok : ∀ c ∈ t.toList, ok c

instance (ok : Char → Prop) [DecidablePred ok] (t : String) : Decidable (Sound ok t) :=
  have : Decidable (∀ c ∈ t.toList, ok c) := List.decidableBAll ok t.toList
  decidable_of_iff ('\\' ∉ t.toList ∧ ∀ c ∈ t.toList, ok c)
    ⟨fun ⟨h, h'⟩ => ⟨h, h'⟩, fun h => ⟨h.not_mem_backslash, h.ok⟩⟩

/-- A text of the report itself: an ordinary text without opening brackets. -/
def Inert (t : String) : Prop := ∀ c ∈ t.toList, c ∉ '[' :: special

instance (t : String) : Decidable (Ordinary t) :=
  List.decidableBAll (fun c => c ∉ special) t.toList

instance (t : String) : Decidable (Inert t) :=
  List.decidableBAll (fun c => c ∉ '[' :: special) t.toList

theorem Ordinary.sound {ok : Char → Prop} (hok : ∀ c, c ∉ special → ok c) (h : Ordinary t) :
    Sound ok t where
  not_mem_backslash := fun hc => h _ hc (by decide)
  ok := fun c hc => hok c (h c hc)

theorem IsOrdinary.texts {s : Section} {P : String → Prop} (hP : ∀ t, Ordinary t → P t)
    (h : IsOrdinary s) : TextsOf P s where
  title := hP _ h.title
  remarks := fun r hr => (h.remarks r hr).imp (hP _) (hP _)
  candidates := fun c hc => (h.candidates c hc).imp (hP _) (And.imp (hP _) (hP _))

theorem isClean_of_not_mem_special (c : Char) (h : c ∉ special) : isClean c = true := by
  simp only [special, List.mem_cons, not_or] at h
  simp [isClean, isDropped, h]

theorem Inert.ordinary (h : Inert t) : Ordinary t := fun c hc hspecial =>
  h c hc (List.mem_cons_of_mem '[' hspecial)

theorem Inert.not_mem_bracket (h : Inert t) : '[' ∉ t.toList := fun hc => h _ hc List.mem_cons_self

theorem Inert.append {u : String} (ht : Inert t) (hu : Inert u) : Inert (t ++ u) := by
  intro c hc
  rw [String.toList_append] at hc
  exact (List.mem_append.mp hc).elim (ht c) (hu c)

/-- No special character is a digit. -/
theorem inert_number (n : Nat) : Inert (toString n) := by
  intro c hc hspecial
  rw [Nat.toString_eq_repr, Nat.toList_repr] at hc
  have hdigit : c.isDigit = true := Nat.isDigit_of_mem_toDigits (by decide) (by decide) hc
  have hnot : ('[' :: special).all (fun d => !d.isDigit) = true := by decide
  have hother := List.all_eq_true.mp hnot c hspecial
  rw [hdigit] at hother
  cases hother

theorem inert_numbering (n : Nat) : Inert (toString n ++ ". ") := (inert_number n).append (by decide)

/-! ### The lines of a report -/

namespace Line

/-- A line that prints what it says if it fits: none of its texts can be taken for a tag, and all
characters are printed as they stand. -/
def Printable (l : Line) : Prop := l.WellMarked ∧ Clean l.plain

/-- A line none of whose texts can be taken for a tag, and all of whose characters are of a kind. -/
def Marked (ok : Char → Prop) (l : Line) : Prop := l.WellMarked ∧ ∀ c ∈ l.plain, ok c

section Marked

variable {ok : Char → Prop} {tag : String}

theorem Marked.nil : Marked ok [] := ⟨.nil, fun _ hc => by cases hc⟩

theorem Marked.style (htag : Markup.isTag tag.toList = true) (h : l.Marked ok) :
    Marked ok (.style tag :: l) := ⟨.style htag h.1, h.2⟩

theorem Marked.fixed (hok : ∀ c, c ∉ special → ok c) (ht : Inert t) (h : l.Marked ok) :
    Marked ok (.fixed t :: l) :=
  have hsound := ht.ordinary.sound hok
  ⟨.fixed ht.not_mem_bracket hsound.not_mem_backslash h.1,
    fun c hc => (List.mem_append.mp hc).elim (hsound.ok c) (h.2 c)⟩

theorem Marked.given (ht : Sound ok t) (hnext : ∀ p ∈ l.head?, ∃ tag, p = .style tag)
    (h : l.Marked ok) : Marked ok (.given t :: l) :=
  ⟨.given ht.not_mem_backslash hnext h.1,
    fun c hc => (List.mem_append.mp hc).elim (ht.ok c) (h.2 c)⟩

/-- A text from outside at the end of a line. -/
theorem Marked.last (ht : Sound ok t) : Marked ok [.given t] :=
  .given ht (fun _ hp => by cases hp) .nil

/-- A text from outside before a change of style. -/
theorem Marked.styled (ht : Sound ok t) (htag : Markup.isTag tag.toList = true) (h : l.Marked ok) :
    Marked ok (.given t :: .style tag :: l) :=
  .given ht (fun _ hp => ⟨tag, (Option.some.inj hp).symm⟩) (.style htag h)

end Marked

/-- A line that sets no style, or one that it closes. -/
def Closed (l : Line) : Prop := l.styles = [] ∨ ∃ style, l.styles = [style, '/' :: style]

end Line

open Line (Printable Marked Closed)

section Marked

variable {ok : Char → Prop} (hok : ∀ c, c ∉ special → ok c)

include hok

theorem marked_boldLine (ht : Inert t) : Marked ok (boldLine t) :=
  .style (by decide) (.fixed hok ht (.style (by decide) .nil))

theorem marked_remarkLine {r : Remark} (h : Sound ok r.file ∧ Sound ok r.message) :
    Marked ok (remarkLine r) := by
  obtain ⟨hfile, hmessage⟩ := h
  have hdash : Inert " - " := by decide
  unfold remarkLine
  cases r.status with
  | used =>
    exact .fixed hok (by decide) (.style (by decide) (.styled hfile (by decide)
      (.fixed hok hdash (.last hmessage))))
  | unused =>
    exact .fixed hok (by decide) (.style (by decide) (.styled hfile (by decide)
      (.fixed hok hdash (.last hmessage))))
  | info => exact .fixed hok (by decide) (.style (by decide) (.styled hmessage (by decide) .nil))

theorem marked_sectionLines {s : Section} (h : TextsOf (Sound ok) s) (n : Nat) :
    ∀ l ∈ sectionLines n s, Marked ok l := by
  intro l hl
  rcases List.mem_cons.mp hl with rfl | hl
  · exact .nil
  rcases List.mem_cons.mp hl with rfl | hl
  · exact .style (by decide) (.fixed hok (inert_numbering n) (.styled h.title (by decide) .nil))
  · obtain ⟨r, hr, rfl⟩ := List.mem_map.mp hl
    exact marked_remarkLine hok (h.remarks r hr)

theorem marked_candidateLines {c : Candidate}
    (h : Sound ok c.file ∧ Sound ok c.label ∧ Sound ok c.reason) (n : Nat) :
    ∀ l ∈ candidateLines n c, Marked ok l := by
  obtain ⟨hfile, hlabel, hreason⟩ := h
  intro l hl
  simp only [candidateLines, List.mem_cons, List.not_mem_nil, or_false] at hl
  rcases hl with rfl | rfl | rfl | rfl
  · exact .fixed hok (inert_numbering n) (.style (by decide) (.styled hfile (by decide) .nil))
  · exact .fixed hok (by decide) (.last hlabel)
  · exact .fixed hok (by decide) (.last hreason)
  · exact .nil

end Marked

theorem closed_remarkLine (r : Remark) : Closed (remarkLine r) := by
  unfold remarkLine
  cases r.status with
  | used => exact .inr ⟨"green".toList, rfl⟩
  | unused => exact .inr ⟨"yellow".toList, rfl⟩
  | info => exact .inr ⟨"cyan".toList, rfl⟩

theorem closed_sectionLines (s : Section) (n : Nat) : ∀ l ∈ sectionLines n s, Closed l := by
  intro l hl
  rcases List.mem_cons.mp hl with rfl | hl
  · exact .inl rfl
  rcases List.mem_cons.mp hl with rfl | hl
  · exact .inr ⟨"bold cyan".toList, rfl⟩
  · obtain ⟨r, -, rfl⟩ := List.mem_map.mp hl
    exact closed_remarkLine r

theorem closed_candidateLines (c : Candidate) (n : Nat) : ∀ l ∈ candidateLines n c, Closed l := by
  intro l hl
  simp only [candidateLines, List.mem_cons, List.not_mem_nil, or_false] at hl
  rcases hl with rfl | rfl | rfl | rfl
  · exact .inr ⟨"bold".toList, rfl⟩
  · exact .inl rfl
  · exact .inl rfl
  · exact .inl rfl

/-- What holds of the lines of each of the things that are numbered holds of all lines. -/
theorem forall_mem_numbered {α : Type} {lines : Nat → α → List Line} {P : Line → Prop} {as : List α}
    (h : ∀ a ∈ as, ∀ n, ∀ l ∈ lines n a, P l) (n : Nat) : ∀ l ∈ numbered lines n as, P l := by
  induction as generalizing n with
  | nil => exact fun l hl => by cases hl
  | cons a as ih =>
    intro l hl
    rcases List.mem_append.mp hl with hl | hl
    · exact h a List.mem_cons_self n l hl
    · exact ih (fun b hb => h b (List.mem_cons_of_mem a hb)) (n + 1) l hl

/-- What holds of the fixed lines, of those of the sections and of those of the candidates holds of
the report. -/
theorem forall_mem_lines {P : Line → Prop} (hblank : P blank) (hrule : P rule)
    (hbold : ∀ t, Inert t → P (boldLine t)) (hnote : ∀ t ∈ notes, P [.fixed "   - ", .given t])
    (hsuccess : P [.style "bold green", .fixed successText, .style "/bold green"])
    (hsections : ∀ s ∈ sections, ∀ n, ∀ l ∈ sectionLines n s, P l)
    (hcandidates : ∀ s ∈ sections, ∀ c ∈ s.candidates, ∀ n, ∀ l ∈ candidateLines n c, P l) :
    ∀ l ∈ lines sections, P l := by
  have hsummary : ∀ l ∈ summaryLines (sections.flatMap Section.candidates), P l := by
    unfold summaryLines
    split
    · intro l hl
      simp only [List.mem_cons, List.not_mem_nil, or_false] at hl
      rcases hl with rfl | rfl
      · exact hsuccess
      · exact hblank
    · refine forall_mem_numbered (fun c hc => ?_) 1
      obtain ⟨s, hs, hc⟩ := List.mem_flatMap.mp hc
      exact hcandidates s hs c hc
  intro l hl
  unfold lines at hl
  simp only [List.mem_append, List.mem_cons, List.not_mem_nil, or_false] at hl
  rcases hl with ((((rfl | rfl) | hl) | rfl | rfl | rfl | rfl | rfl) | hl) | rfl | hl
  · exact hbold _ (by decide +kernel)
  · exact hrule
  · exact forall_mem_numbered hsections 1 l hl
  · exact hblank
  · exact hrule
  · exact hblank
  · exact hbold _ (by decide +kernel)
  · exact hblank
  · exact hsummary l hl
  · exact hbold _ (by decide +kernel)
  · obtain ⟨t, ht, rfl⟩ := List.mem_map.mp hl
    exact hnote t ht

/-- The lines of a report are marked, if the texts that they are given are sound. -/
theorem marked_lines {ok : Char → Prop} (hok : ∀ c, c ∉ special → ok c)
    (h : ∀ s ∈ sections, TextsOf (Sound ok) s) : ∀ l ∈ lines sections, Marked ok l := by
  have hnotes : ∀ t ∈ notes, Ordinary t := by decide +kernel
  exact forall_mem_lines .nil (.fixed hok (by decide) .nil) (fun _ => marked_boldLine hok)
    (fun t ht => .fixed hok (by decide) (.last ((hnotes t ht).sound hok)))
    (.style (by decide) (.fixed hok (by decide) (.style (by decide) .nil)))
    (fun s hs => marked_sectionLines hok (h s hs))
    (fun s hs c hc => marked_candidateLines hok ((h s hs).candidates c hc))

theorem printable_lines (h : ∀ s ∈ sections, IsOrdinary s) : ∀ l ∈ lines sections, Printable l :=
  marked_lines isClean_of_not_mem_special fun s hs =>
    (h s hs).texts fun _ => Ordinary.sound isClean_of_not_mem_special

theorem closed_lines (sections : List Section) : ∀ l ∈ lines sections, Closed l :=
  forall_mem_lines (.inl rfl) (.inl rfl) (fun _ _ => .inr ⟨"bold".toList, rfl⟩)
    (fun _ _ => .inl rfl) (.inr ⟨"bold green".toList, rfl⟩) (fun s _ => closed_sectionLines s)
    (fun _ _ c _ => closed_candidateLines c)

/-! ### The report -/

/-- **The tags of a line are its own**: what its marked-up form sets is no style, or one that it
closes. -/
theorem styles_line (h : ∀ s ∈ sections, IsOrdinary s) :
    ∀ l ∈ lines sections, Markup.styles l.markup = [] ∨
      ∃ style, Markup.styles l.markup = [style, '/' :: style] := by
  intro l hl
  rw [(printable_lines h l hl).1.styles_markup]
  exact closed_lines sections l hl

/-- **A report whose lines fit prints its template.**  All texts are printed as they stand, whatever
brackets they hold, and no line closes a style that it has not set. -/
theorem text_eq_template (h : ∀ s ∈ sections, IsOrdinary s)
    (hfits : ∀ t ∈ template sections, cells t.toList ≤ width ∧ t.length ≤ width) :
    text width sections = String.join ((template sections).map (· ++ "\n")) ∧
      ∀ l ∈ lines sections, Markup.styles l.markup = [] ∨
        ∃ style, Markup.styles l.markup = [style, '/' :: style] := by
  have hwidth : width ≠ 0 := by
    have hrule := (hfits ruleText (by simp [template])).2
    have hlength : ruleText.length = 60 := by decide
    omega
  have hline : ∀ l ∈ lines sections, l.printed width = l.plain ++ ['\n'] := by
    intro l hl
    obtain ⟨hmarked, hclean⟩ := printable_lines h l hl
    have hmem : String.ofList l.plain ∈ template sections :=
      plain_lines sections ▸ List.mem_map_of_mem hl
    obtain ⟨hcells, hlength⟩ := hfits _ hmem
    rw [String.toList_ofList] at hcells
    rw [← String.length_toList, String.toList_ofList] at hlength
    unfold Line.printed
    rw [hmarked.render_markup, printed_of_fits hwidth hclean hcells hlength]
  refine ⟨?_, styles_line h⟩
  rw [← plainText_eq_template]
  unfold text plainText
  rw [List.flatMap_congr hline]

/-- A section whose files and texts look like tags, and like halves of them. -/
def bracketed : Section where
  check := "pages"
  title := "Pages [x"
  remarks := [⟨"[slug].tsx", .unused, "[[...x]] is not used"⟩, ⟨"[/bold]", .used, "[a"⟩,
    ⟨"[b]", .info, "[/cyan] and [cyan"⟩]
  candidates := [⟨"[slug].tsx", "[/bold", "[[...x]]"⟩, ⟨"[a", "page]", "[/]"⟩]

theorem text_bracketed :
    text 80 [bracketed] = String.join ((template [bracketed]).map (· ++ "\n")) ∧
      ∀ l ∈ lines [bracketed], Markup.styles l.markup = [] ∨
        ∃ style, Markup.styles l.markup = [style, '/' :: style] :=
  text_eq_template
    (fun _ hs => List.mem_singleton.mp hs ▸ ⟨by decide +kernel, by decide +kernel,
      by decide +kernel⟩) (by decide +kernel)

end Unimported.Report
