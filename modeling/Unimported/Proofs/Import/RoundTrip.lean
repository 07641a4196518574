import Unimported.Proofs.Import.Reader

/-!
# Reading a printed module

The specifiers of a printed module are those of its imports with a clause, in their order: nothing
else in it is taken for an import, and no import is passed over.

A reader that starts in a statement and looks for the word `from` is stopped by what comes next.
This is the invariant of the development: an ending with a module behind it is `Closed`, so that no
clause goes through it.  Lines and imports for their effect are `Quiet`, they hold no word `from`
that a clause could end in; re-exports do, but no word `import` in front of it.

## Main results

* `clause?_quiet` — no clause starts in a quiet text and goes on behind its end.
* `closed_ending` — the ending of a statement is closed, whatever module follows.
* `specifiers_print` — **reading a printed module gives its imports.**
-/

namespace Unimported.Import

open Text

/-! ### Reading on behind a statement -/

/-- An ending through which no clause goes. -/
structure Closed (cs : List Char) : Prop where
  /-- It starts with a semicolon or a line feed. -/
  head : ∃ d r, cs = d :: r ∧ (d = ';' ∨ d = '\n')
  /-- No clause that has come so far finds an end behind it. -/
  stop : ∀ w, clause? w cs = none

/-- There is no word `from` in the text that could end a clause: one with a blank before it, and a
blank or the end of the text behind it. -/
def Quiet (cs : List Char) : Prop :=
  ¬ ∃ before c after, cs = before ++ c :: (fromWord ++ after) ∧ isBlank c = true ∧
    ∀ d ∈ after.head?, isBlank d = true

theorem Quiet.of_append {pre suf : List Char} (h : Quiet (pre ++ suf)) : Quiet suf := by
  rintro ⟨before, c, after, rfl, hc, ha⟩
  exact h ⟨pre ++ before, c, after, by simp, hc, ha⟩

theorem quiet_of_not_hasWord {cs : List Char} (h : ¬ HasWord fromWord cs) : Quiet cs := by
  rintro ⟨before, c, after, rfl, hc, ha⟩
  refine h ⟨before ++ [c], after, by simp, ?_, ?_⟩
  · rw [endsInWord_concat, isWordChar_of_isBlank hc]
  · cases after with
    | nil => rfl
    | cons d after => exact isWordChar_of_isBlank (ha d rfl)

/-- The invariant of the search for a clause: `suf` is what is left of a quiet text. -/
theorem tail?_quiet {suf cs : List Char} (hs : Quiet suf) (hcs : Closed cs) :
    tail? (suf ++ cs) = none := by
  cases ht : tail? (suf ++ cs) with
  | none => rfl
  | some found =>
    obtain ⟨spec, rest⟩ := found
    obtain ⟨⟨⟨b, hne, hb⟩, ⟨b', hne', hb'⟩, q⟩, he, -⟩ := tail?_eq_some.mp ht
    replace he : suf ++ cs = b ++ fromWord ++ b' ++ (q.text ++ rest) := he.trans (by simp [Origin.text])
    obtain ⟨b, c, rfl⟩ := (List.eq_nil_or_concat b).resolve_left hne
    obtain ⟨e, b', rfl⟩ := List.exists_cons_of_ne_nil hne'
    obtain ⟨d, y, rfl, hd⟩ := hcs.head
    rw [List.concat_eq_append] at he hb
    have hdf : d ∉ fromWord := by rcases hd with rfl | rfl <;> decide
    have he' : suf ++ d :: y = (b ++ [c]) ++ fromWord ++ (e :: b' ++ (q.text ++ rest)) := by
      rw [he, List.append_assoc]
    rcases append_cons_eq_block hdf he' with ⟨k, rfl, hk⟩ | ⟨l, hl, -⟩
    · -- the word lies in the quiet text
      refine absurd ⟨b, c, k, by simp, hb c (by simp), ?_⟩ hs
      cases k with
      | nil => simp
      | cons f k =>
        obtain ⟨rfl, -⟩ := List.cons.inj hk
        simpa using hb' e List.mem_cons_self
    · -- the quiet text is blank up to its end, and the blanks behind it lead nowhere
      have hsuf : ∀ x ∈ suf, isBlank x = true := fun x hx => hb x (by rw [hl]; simp [hx])
      have hdb : isBlank d = true := hb d (by rw [hl]; simp)
      rw [tail?_append_blanks hsuf hdb,
        tail?_of_clause?_eq_none (hcs.stop false)] at ht
      cases ht

/-- **No clause starts in a quiet text and goes on behind its end.** -/
theorem clause?_quiet {suf cs : List Char} (hs : Quiet suf) (hcs : Closed cs) (w : Bool) :
    clause? w (suf ++ cs) = none := by
  induction suf generalizing w with
  | nil => exact hcs.stop w
  | cons c suf ih =>
    have ht : tail? (c :: (suf ++ cs)) = none := tail?_quiet hs hcs
    rw [List.cons_append, clause?_cons ht]
    split
    · rfl
    · exact ih (@Quiet.of_append [c] suf hs) _

/-- No span starts in a quiet text. -/
theorem spanAt?_quiet {suf cs : List Char} (hs : Quiet suf) (hcs : Closed cs) (w : Bool) :
    spanAt? w (suf ++ cs) = none := by
  unfold spanAt?
  split
  · rfl
  · rw [Option.bind_eq_none_iff]
    intro body hbody
    obtain ⟨d, y, rfl, hd⟩ := hcs.head
    have hdi : d ∉ importWord := by rcases hd with rfl | rfl <;> decide
    have he : suf ++ d :: y = [] ++ importWord ++ body := dropKeyword?_eq_some.mp hbody
    rcases append_cons_eq_block hdi he with ⟨k, rfl, rfl⟩ | ⟨l, hl, -⟩
    · exact span?_eq_none (clause?_quiet (Quiet.of_append hs) hcs false)
    · simp at hl

/-- The ending of a statement is closed when no clause comes out of its line feed. -/
theorem closed_ending_of {cs : List Char} (h : clause? false ('\n' :: cs) = none) (e : Ending) :
    Closed (e.text ++ cs) := by
  cases e with
  | lineFeed =>
    refine ⟨⟨'\n', cs, rfl, Or.inr rfl⟩, fun w => ?_⟩
    have hcs := clause?_eq_none_of_cons_blank (by decide) h
    show clause? w ('\n' :: cs) = none
    rw [clause?_cons (tail?_of_clause?_eq_none h)]
    split
    · rfl
    · exact hcs
  | semicolon =>
    refine ⟨⟨';', '\n' :: cs, rfl, Or.inl rfl⟩, fun w => ?_⟩
    show clause? w (';' :: '\n' :: cs) = none
    rw [clause?_cons (tail?_cons_of_not_blank (by decide)), if_pos (Or.inl rfl)]

/-! ### Passing over a statement -/

/-- A text in which no span starts is passed over; `pre` has been passed over already. -/
theorem specifiersFrom_skip {pre suf cs : List Char}
    (h : ∀ a b, suf = a ++ b → b ≠ [] → spanAt? (endsInWord (pre ++ a)) (b ++ cs) = none) :
    specifiersFrom (endsInWord pre) (suf ++ cs) = specifiersFrom (endsInWord (pre ++ suf)) cs := by
  induction suf generalizing pre with
  | nil => rw [List.nil_append, List.append_nil]
  | cons c suf ih =>
    have hc : spanAt? (endsInWord pre) (c :: (suf ++ cs)) = none := by
      simpa using h [] (c :: suf) rfl (by simp)
    rw [List.cons_append, specifiersFrom_cons hc, ← endsInWord_concat pre c, ih, List.append_assoc]
    · rfl
    · intro a b he hb
      rw [List.append_assoc, List.singleton_append]
      exact h (c :: a) b (by rw [he, List.cons_append]) hb

/-- An import for its effect is quiet: its blanks end in a quote, and its specifier has none. -/
theorem quiet_sideEffect {gap : Blanks} {q : Quoted} (hq : q.Solid) :
    Quiet (importWord ++ gap.chars ++ q.text) := by
  rintro ⟨before, c, after, he, hc, -⟩
  have hmem : q.quote ∉ c :: fromWord := by
    rw [List.mem_cons, not_or]
    refine ⟨?_, q.quote_not_mem.2⟩
    rintro rfl
    rw [q.isBlank_quote] at hc
    cases hc
  have he' : importWord ++ gap.chars ++ q.quote :: (q.chars ++ [q.quote]) =
      before ++ c :: fromWord ++ after := he.trans (by simp)
  rcases append_cons_eq_block hmem he' with ⟨r, hr, -⟩ | ⟨l, -, hl⟩
  · -- no `f` stands in the word `import` or among blanks
    have hf : 'f' ∈ importWord ++ gap.chars := by rw [hr]; simp [fromWord]
    rcases List.mem_append.mp hf with h | h
    · exact absurd h (by decide)
    · exact absurd (gap.blank 'f' h) (by decide)
  · have := hq.isBlank_eq_false (c := c) (by rw [hl]; simp)
    rw [hc] at this
    cases this

/-- The text of a re-export up to its specifier. -/
private def reExportFront (p : FromPart) : List Char :=
  exportWord ++ p.before.chars ++ p.clause.chars ++ p.between.chars ++ fromWord ++ p.after.chars

private theorem reExport_eq (p : FromPart) :
    exportWord ++ p.text =
      reExportFront p ++ p.source.quote :: (p.source.chars ++ [p.source.quote]) := by
  simp [reExportFront, FromPart.text, FromPart.tail, Quoted.text]

/-- A re-export holds the word `import` in its specifier at most. -/
private theorem not_hasWord_reExportFront (p : FromPart) :
    ¬ HasWord importWord (reExportFront p) := by
  have hne : importWord ≠ [] := by decide
  have hw : ∀ c ∈ importWord, isWordChar c = true := fun c hc =>
    isWordChar_of_mem_keywords (by simp [hc])
  intro h
  rw [← List.append_nil (reExportFront p)] at h
  rcases h.of_append_blanks hne hw p.after.nonempty p.after.blank with h | h
  · rcases h.of_append_blanks hne hw p.between.nonempty p.between.blank with h | h
    · rcases h.of_append_blanks hne hw p.before.nonempty p.before.blank with h | h
      · exact absurd h.isInfix (by decide)
      · exact p.clause.noImport h
    · exact absurd h.isInfix (by decide)
  · exact not_hasWord_nil hne h

/-- No span starts in a re-export: in front of its specifier the word `import` does not stand, and
in it no blank is behind it. -/
theorem spanAt?_reExport {p : FromPart} (hp : p.source.Solid) {cs : List Char} (hcs : Closed cs)
    {a b : List Char} (he : exportWord ++ p.text = a ++ b) :
    spanAt? (endsInWord a) (b ++ cs) = none := by
  unfold spanAt?
  split
  · rfl
  · next ha =>
    rw [Option.bind_eq_none_iff]
    intro body hbody
    obtain ⟨d, y, rfl, hd⟩ := hcs.head
    have hdi : d ∉ importWord := by rcases hd with rfl | rfl <;> decide
    have hb : b ++ d :: y = [] ++ importWord ++ body := dropKeyword?_eq_some.mp hbody
    rcases append_cons_eq_block hdi hb with ⟨r, rfl, rfl⟩ | ⟨l, hl, -⟩
    · rw [reExport_eq] at he
      cases r with
      | nil =>
        -- the last character is a quote, so it is not that of the word
        have hlast := congrArg List.getLast? he
        rcases p.source.isQuote with h | h <;>
          simp [importWord, h, List.getLast?_cons] at hlast
      | cons c r =>
        unfold span?
        rw [List.cons_append, List.takeWhile_cons_of_neg]
        intro hc
        have hq : p.source.quote ∉ importWord ++ [c] := by
          rw [List.mem_append, not_or, List.mem_singleton]
          refine ⟨p.source.quote_not_mem.1, ?_⟩
          rintro rfl
          rw [p.source.isBlank_quote] at hc
          cases hc
        have he' : reExportFront p ++ p.source.quote :: (p.source.chars ++ [p.source.quote]) =
            a ++ (importWord ++ [c]) ++ r := he.trans (by simp)
        rcases append_cons_eq_block hq he' with ⟨k, hk, -⟩ | ⟨l, -, hl⟩
        · refine not_hasWord_reExportFront p ⟨a, c :: k, by rw [hk]; simp, by simpa using ha, ?_⟩
          exact isWordChar_of_isBlank hc
        · have := hp.isBlank_eq_false (c := c) (by rw [hl]; simp)
          rw [hc] at this
          cases this
    · simp at hl

/-! ### Reading an import with a clause -/

/-- The part behind the clause of a statement. -/
def FromPart.origin (p : FromPart) : Origin := ⟨p.between, p.after, p.source⟩

/-- The part behind a clause is read. -/
theorem tail?_tail (p : FromPart) (cs : List Char) :
    tail? (p.tail ++ cs) = some (p.source.chars, cs) := tail?_text p.origin cs

/-- Whether a character is no quote. -/
private def isUnquoted (c : Char) : Bool := c != '\'' && c != '"'

/-- What stands in front of the first quote. -/
private theorem takeWhile_isUnquoted {cs r : List Char} {q : Char}
    (hcs : ∀ c ∈ cs, isUnquoted c = true) (hq : q = '\'' ∨ q = '"') :
    (cs ++ q :: r).takeWhile isUnquoted = cs := by
  rw [List.takeWhile_append_of_pos hcs, List.takeWhile_cons_of_neg, List.append_nil]
  rcases hq with rfl | rfl <;> decide

private theorem isUnquoted_of_isBlank {c : Char} (h : isBlank c = true) : isUnquoted c = true := by
  simp only [isUnquoted, Bool.and_eq_true, bne_iff_ne]
  constructor <;> rintro rfl <;> exact absurd h (by decide)

private theorem countP_blanks {b : List Char} (hb : ∀ c ∈ b, isBlank c = true) :
    b.countP (fun c => !isBlank c) = 0 := by
  rw [List.countP_eq_zero]
  intro c hc
  simp [hb c hc]

/-- No part of a clause is taken for what stands behind it.  Both readings would have to end at the
first quote, so beside `from` there would be no character but blanks. -/
theorem tail?_clause {p : FromPart} {pre suf : List Char} (hp : p.clause.chars = pre ++ suf)
    (hne : suf ≠ []) (cs : List Char) : tail? (suf ++ (p.tail ++ cs)) = none := by
  cases ht : tail? (suf ++ (p.tail ++ cs)) with
  | none => rfl
  | some found =>
    obtain ⟨spec, rest⟩ := found
    obtain ⟨⟨⟨b, _, hb⟩, ⟨b', _, hb'⟩, q⟩, he, -⟩ := tail?_eq_some.mp ht
    replace he : suf ++ (p.tail ++ cs) =
        b ++ fromWord ++ b' ++ q.quote :: (q.chars ++ [q.quote] ++ rest) :=
      he.trans (by simp [Origin.text, Quoted.text])
    have hfrom : ∀ c ∈ fromWord, isUnquoted c = true :=
      List.all_eq_true.mp (by decide)
    have hplain : ∀ c ∈ suf ++ p.between.chars ++ fromWord ++ p.after.chars,
        isUnquoted c = true := by
      intro c hc
      simp only [List.mem_append] at hc
      rcases hc with ((hc | hc) | hc) | hc
      · obtain ⟨h₁, h₂, -⟩ := p.clause.plain c (hp ▸ List.mem_append_right pre hc)
        simp [isUnquoted, h₁, h₂]
      · exact isUnquoted_of_isBlank (p.between.blank c hc)
      · exact hfrom c hc
      · exact isUnquoted_of_isBlank (p.after.blank c hc)
    have hplain' : ∀ c ∈ b ++ fromWord ++ b', isUnquoted c = true := by
      intro c hc
      simp only [List.mem_append] at hc
      rcases hc with (hc | hc) | hc
      · exact isUnquoted_of_isBlank (hb c hc)
      · exact hfrom c hc
      · exact isUnquoted_of_isBlank (hb' c hc)
    have hfirst : suf ++ p.between.chars ++ fromWord ++ p.after.chars = b ++ fromWord ++ b' := by
      rw [← takeWhile_isUnquoted hplain' q.isQuote, ← he, ← takeWhile_isUnquoted hplain p.source.isQuote
        (r := p.source.chars ++ [p.source.quote] ++ cs)]
      simp [FromPart.tail, Quoted.text]
    -- the clause ends in a character that is no blank, one more than there is room for
    obtain ⟨z, hz⟩ := Option.isSome_iff_exists.mp (List.getLast?_isSome.mpr hne)
    have hlast : isBlank z = false := by
      refine p.clause.last z ?_
      rw [hp, List.getLast?_append, hz]
      rfl
    have hpos : 0 < suf.countP fun c => !isBlank c :=
      List.countP_pos_iff.mpr ⟨z, List.mem_of_getLast? hz, by simp [hlast]⟩
    have hcount := congrArg (List.countP fun c => !isBlank c) hfirst
    simp only [List.countP_append, countP_blanks hb, countP_blanks hb',
      countP_blanks p.between.blank, countP_blanks p.after.blank] at hcount
    omega

/-- A clause is read up to what stands behind it. -/
theorem clause?_clause {p : FromPart} {pre suf : List Char} (hp : p.clause.chars = pre ++ suf)
    (cs : List Char) :
    clause? (endsInWord pre) (suf ++ (p.tail ++ cs)) = some (p.source.chars, cs) := by
  induction suf generalizing pre with
  | nil => exact clause?_of_tail? (tail?_tail p cs)
  | cons c suf ih =>
    have hc : c ≠ ';' := (p.clause.plain c (by rw [hp]; simp)).2.2
    have ht := tail?_clause hp (by simp) cs
    have hs : startsStatement (endsInWord pre) (c :: suf ++ (p.tail ++ cs)) = false :=
      startsStatement_of_not_hasWord (hp ▸ p.clause.noImport) (hp ▸ p.clause.noExport) p.origin cs
    -- neither an end nor a stop, so the character belongs to the clause
    rw [List.cons_append] at ht hs ⊢
    rw [clause?_cons ht, if_neg (by simp [hc, hs]), ← endsInWord_concat pre c]
    exact ih (by rw [hp, List.append_assoc, List.singleton_append])

/-- **An import with a clause is read.** -/
theorem spanAt?_importFrom (p : FromPart) (cs : List Char) :
    spanAt? false (importWord ++ p.text ++ cs) = some (p.source.chars, cs) := by
  have hkey : dropKeyword? importWord (importWord ++ p.text ++ cs) =
      some (p.before.chars ++ (p.clause.chars ++ (p.tail ++ cs))) := by
    rw [dropKeyword?_eq_some]
    simp [FromPart.text]
  have hhead : ∀ c ∈ (p.clause.chars ++ (p.tail ++ cs)).head?, isBlank c = false := by
    obtain ⟨z, zs, hz⟩ := List.exists_cons_of_ne_nil p.clause.nonempty
    have := p.clause.head
    rw [hz] at this ⊢
    exact this
  have hclause : clause? false (p.clause.chars ++ (p.tail ++ cs)) = some (p.source.chars, cs) :=
    @clause?_clause p [] _ (List.nil_append _).symm cs
  rw [spanAt?_false, hkey, Option.bind_some, span?_append p.before hhead, hclause, Option.some_or]

/-! ### Reading a module -/

/-- No clause goes on into a statement that starts with a keyword. -/
theorem clause?_keyword (keyword : List Char) (hk : keyword ∈ [importWord, exportWord])
    (gap : Blanks) (cs : List Char) :
    clause? false ('\n' :: (keyword ++ gap.chars ++ cs)) = none := by
  obtain ⟨d, b, hb⟩ := List.exists_cons_of_ne_nil gap.nonempty
  have hs : startsStatement false (keyword ++ gap.chars ++ cs) = true := by
    refine startsStatement_eq_true.mpr ⟨rfl, keyword, hk, gap.chars ++ cs, by simp, ?_⟩
    rw [hb]
    exact isWordChar_of_isBlank (gap.blank d (by rw [hb]; simp))
  obtain ⟨c, r, he, hc⟩ : ∃ c r, keyword ++ gap.chars ++ cs = c :: r ∧ (c = 'i' ∨ c = 'e') := by
    simp only [List.mem_cons, List.not_mem_nil, or_false] at hk
    rcases hk with rfl | rfl
    · exact ⟨'i', _, rfl, Or.inl rfl⟩
    · exact ⟨'e', _, rfl, Or.inr rfl⟩
  rw [he] at hs ⊢
  have hblank : isBlank c = false := by rcases hc with rfl | rfl <;> decide
  have htail : tail? ('\n' :: c :: r) = none := by rcases hc with rfl | rfl <;> rfl
  rw [clause?_cons htail]
  split
  · rfl
  · rw [show isWordChar '\n' = false by decide, clause?_cons (tail?_cons_of_not_blank hblank),
      if_pos (Or.inr hs)]

/-- **The ending of a statement is closed**, whatever module follows. -/
theorem closed_ending (e : Ending) (m : List (Statement × Ending)) :
    Closed (e.text ++ print m) := by
  refine closed_ending_of ?_ e
  induction m with
  | nil => decide
  | cons se m ih =>
    obtain ⟨s, e⟩ := se
    cases s with
    | importFrom p =>
      have := clause?_keyword importWord (by simp) p.before
        (p.clause.chars ++ p.tail ++ e.text ++ print m)
      simpa [print, Statement.text, FromPart.text] using this
    | sideEffect gap q hq =>
      have := clause?_keyword importWord (by simp) gap (q.text ++ e.text ++ print m)
      simpa [print, Statement.text] using this
    | reExport p hp =>
      have := clause?_keyword exportWord (by simp) p.before
        (p.clause.chars ++ p.tail ++ e.text ++ print m)
      simpa [print, Statement.text, FromPart.text] using this
    | line l =>
      have hquiet : Quiet ('\n' :: l.chars) := by
        have hw : ∀ c ∈ fromWord, isWordChar c = true := fun c hc =>
          isWordChar_of_mem_keywords (by simp [hc])
        refine quiet_of_not_hasWord fun h => ?_
        rcases HasWord.of_append_cons (x := []) (by decide) hw h with h | h
        · exact not_hasWord_nil (by decide) h
        · exact l.noFrom h
      have := clause?_quiet hquiet (closed_ending_of ih e) false
      simpa [print, Statement.text] using this

/-- A statement in which no span starts is passed over with its ending. -/
theorem specifiersFrom_statement {cs : List Char} (e : Ending) (m : List (Statement × Ending))
    (h : ∀ a b, cs = a ++ b → spanAt? (endsInWord a) (b ++ (e.text ++ print m)) = none) :
    specifiersFrom false (cs ++ (e.text ++ print m)) = specifiersFrom false (print m) := by
  have hskip := @specifiersFrom_skip [] cs (e.text ++ print m) fun a b he _ => h a b he
  rw [endsInWord_nil] at hskip
  rw [hskip, specifiersFrom_ending]

/-- **Reading a printed module gives its imports**: those with a clause, in their order. -/
theorem specifiers_print (m : List (Statement × Ending)) :
    specifiers (String.ofList (print m)) = m.filterMap fun s => s.1.imported? := by
  rw [specifiers, String.toList_ofList]
  induction m with
  | nil =>
    rw [print, specifiersFrom_nil]
    rfl
  | cons se m ih =>
    obtain ⟨s, e⟩ := se
    have hcs := closed_ending e m
    rw [print, List.append_assoc]
    cases s with
    | importFrom p =>
      rw [Statement.text, specifiersFrom_of_spanAt? (spanAt?_importFrom p _),
        specifiersFrom_ending, List.map_cons, ih]
      rfl
    | sideEffect gap q hq =>
      rw [specifiersFrom_statement, ih]
      · rfl
      · intro a b he
        have hquiet : Quiet (a ++ b) := by
          rw [← he]
          exact quiet_sideEffect hq
        exact spanAt?_quiet hquiet.of_append hcs _
    | reExport p hp =>
      rw [specifiersFrom_statement, ih]
      · rfl
      · intro a b he
        exact spanAt?_reExport hp hcs he
    | line l =>
      rw [specifiersFrom_statement, ih]
      · rfl
      · intro a b he
        have hquiet : Quiet (a ++ b) := by
          rw [← he]
          exact quiet_of_not_hasWord l.noFrom
        exact spanAt?_quiet hquiet.of_append hcs _

end Unimported.Import
