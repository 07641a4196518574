import Unimported.Proofs.Import.Reader

/-!
# The leftmost reading of a text

Import spans are told by their grammar alone: the word `import`, blanks, a clause, blanks, the word
`from`, blanks and a quoted specifier.  A text may hold many of them at one place, since a clause may
end in several places and blanks may be given to either side of an empty one.  A *reading* takes
spans from left to right that do not overlap, passes over none, and where several start prefers the
clause that ends first.

The reader follows the grammar character by character.  It finds a span where there is one, and the
one it finds is preferred; so the specifiers it gives are those of a reading.  All readings of a text
give the same ones.

## Main definitions

* `Span`, `Occurrence` — spans, and where they stand in a text.
* `Occurrence.Preferred` — the span that is taken among those that start at one place.
* `IsReading` — the spans of a text that are taken from a position on.

## Main results

* `exists_of_spanAt?_eq_some`, `isSome_spanAt?` — the reader finds a span just where one starts.
* `IsReading.unique` — all readings give the same specifiers.
* `specifiers_eq_reading` — **the specifiers of a text are those of its reading.**
-/

namespace Unimported.Import

open Text

/-! ### Spans -/

/-- An import span, by its grammar. -/
structure Span where
  /-- The blanks behind the word `import`. -/
  gap : Blanks
  /-- The clause, which may be empty.  There are blanks on both sides of it, so the whole words in it
  are those that start in it. -/
  clause : List Char
  /-- It holds no semicolon. -/
  noSemicolon : ';' ∉ clause
  /-- No whole word `import` starts in it. -/
  noImport : ¬ HasWord importWord clause
  /-- No whole word `export` starts in it. -/
  noExport : ¬ HasWord exportWord clause
  /-- What stands behind the clause. -/
  origin : Origin

namespace Span

variable {s s' : Span} {cs rest rest' : List Char}

/-- The text of a span up to the end of its clause. -/
def front (s : Span) : List Char := importWord ++ s.gap.chars ++ s.clause

/-- The text of a span. -/
def text (s : Span) : List Char := s.front ++ s.origin.text

/-- The specifier of a span. -/
def specifier (s : Span) : String := String.ofList s.origin.source.chars

/-- The clause starts at the first character behind the word `import` that is not blank. -/
def Snug (s : Span) : Prop := ∃ c ∈ s.clause.head?, isBlank c = false

/-- Behind all blanks stands the clause of a snug span. -/
theorem Snug.dropWhile (h : s.Snug) (cs : List Char) :
    (s.gap.chars ++ (s.clause ++ cs)).dropWhile isBlank = s.clause ++ cs := by
  obtain ⟨c, hc, hblank⟩ := h
  refine dropWhile_isBlank_append s.gap.blank fun d hd => ?_
  rw [List.head?_append, Option.mem_def.mp hc] at hd
  rwa [← Option.some.inj hd]

/-- Of two snug spans at one place the one with the shorter front has the shorter clause. -/
theorem Snug.exists_of_length_lt (h : s.Snug) (h' : s'.Snug)
    (heq : s.text ++ rest = s'.text ++ rest') (hlt : s'.front.length < s.front.length) :
    ∃ b, b ≠ [] ∧ s.clause = s'.clause ++ b ∧
      s'.origin.text ++ rest' = b ++ (s.origin.text ++ rest) := by
  have hbody : s.gap.chars ++ (s.clause ++ (s.origin.text ++ rest)) =
      s'.gap.chars ++ (s'.clause ++ (s'.origin.text ++ rest')) := by
    simpa [text, front] using heq
  have hclause : s.clause ++ (s.origin.text ++ rest) = s'.clause ++ (s'.origin.text ++ rest') := by
    rw [← h.dropWhile, hbody, h'.dropWhile]
  have hgap : s.gap.chars = s'.gap.chars := by
    rw [hclause] at hbody
    exact List.append_cancel_right hbody
  have hshorter : s'.clause.length < s.clause.length := by
    simp only [front, hgap, List.length_append] at hlt
    omega
  rcases List.append_eq_append_iff.mp hclause with ⟨b, hb, -⟩ | ⟨b, hb, hafter⟩
  · have := congrArg List.length hb
    rw [List.length_append] at this
    omega
  · refine ⟨b, ?_, hb, hafter⟩
    rintro rfl
    rw [hb, List.append_nil] at hshorter
    omega

end Span

/-! ### The search for a clause -/

variable {cs spec rest : List Char}

/-- What the search for the end of a clause tells about the text it passes over; `pre` has been passed
over before, and `after` stands behind. -/
def Passed (pre clause after : List Char) : Prop :=
  ∀ a b, clause = a ++ b → b ≠ [] → tail? (b ++ after) = none ∧ ';' ∉ b.head? ∧
    startsStatement (endsInWord (pre ++ a)) (b ++ after) = false

theorem Passed.nil {pre after : List Char} : Passed pre [] after := by
  intro a b he hb
  exact absurd (List.append_eq_nil_iff.mp he.symm).2 hb

/-- One more character is passed over. -/
theorem Passed.cons {pre clause after : List Char} {c : Char}
    (ht : tail? (c :: (clause ++ after)) = none)
    (hc : c ≠ ';') (hs : startsStatement (endsInWord pre) (c :: (clause ++ after)) = false)
    (h : Passed (pre ++ [c]) clause after) : Passed pre (c :: clause) after := by
  intro a b he hb
  cases a with
  | nil =>
    obtain rfl : c :: clause = b := he
    refine ⟨ht, fun hm => hc (Option.some.inj hm), ?_⟩
    rw [List.append_nil]
    exact hs
  | cons d a =>
    obtain ⟨rfl, hrest⟩ := List.cons.inj he
    rw [show pre ++ c :: a = pre ++ [c] ++ a by simp]
    exact h a b hrest hb

/-- **A clause that is found has been passed over**, and ends where what stands behind a clause
does. -/
theorem exists_of_clause?_eq_some {pre : List Char}
    (h : clause? (endsInWord pre) cs = some (spec, rest)) :
    ∃ clause, ∃ o : Origin, cs = clause ++ (o.text ++ rest) ∧ o.source.chars = spec ∧
      Passed pre clause (o.text ++ rest) := by
  induction cs generalizing pre with
  | nil => cases h
  | cons c cs ih =>
    cases ht : tail? (c :: cs) with
    | some found =>
      rw [clause?_of_tail? ht] at h
      obtain rfl := Option.some.inj h
      obtain ⟨o, ho, hspec⟩ := tail?_eq_some.mp ht
      exact ⟨[], o, ho, hspec, .nil⟩
    | none =>
      rw [clause?_cons ht] at h
      split at h
      · cases h
      · next hgo =>
        obtain ⟨hc, hs⟩ := not_or.mp hgo
        rw [← endsInWord_concat pre c] at h
        obtain ⟨clause, o, rfl, hspec, hpassed⟩ := ih h
        exact ⟨c :: clause, o, rfl, hspec, hpassed.cons ht hc (by simpa using hs)⟩

/-- **A clause is found** where a text without semicolons and keywords stands before what ends one. -/
theorem isSome_clause? {pre suf : List Char} (hsemicolon : ';' ∉ suf)
    (himport : ¬ HasWord importWord (pre ++ suf)) (hexport : ¬ HasWord exportWord (pre ++ suf))
    (o : Origin) (rest : List Char) :
    (clause? (endsInWord pre) (suf ++ (o.text ++ rest))).isSome = true := by
  induction suf generalizing pre with
  | nil =>
    rw [List.nil_append, clause?_of_tail? (tail?_text o rest)]
    rfl
  | cons c suf ih =>
    obtain ⟨hc, hsuf⟩ := not_or.mp (mt List.mem_cons.mpr hsemicolon)
    have hs := startsStatement_of_not_hasWord himport hexport o rest
    rw [List.cons_append] at hs ⊢
    cases ht : tail? (c :: (suf ++ (o.text ++ rest))) with
    | some found =>
      rw [clause?_of_tail? ht]
      rfl
    | none =>
      rw [clause?_cons ht, if_neg (by simp [Ne.symm hc, hs]), ← endsInWord_concat pre c]
      refine ih hsuf ?_ ?_
      · simpa using himport
      · simpa using hexport

/-- What has been passed over is a clause: it holds no semicolon. -/
theorem Passed.noSemicolon {pre clause after : List Char} (h : Passed pre clause after) :
    ';' ∉ clause := by
  intro hm
  obtain ⟨a, b, he⟩ := List.append_of_mem hm
  exact (h a (';' :: b) he (by simp)).2.1 rfl

/-- What has been passed over is a clause: no keyword stands in it. -/
theorem Passed.not_hasWord {keyword clause : List Char} {o : Origin}
    (hk : keyword ∈ [importWord, exportWord]) (h : Passed [] clause (o.text ++ rest)) :
    ¬ HasWord keyword clause := by
  rintro ⟨before, after, rfl, hbefore, hafter⟩
  have hne : keyword ++ after ≠ [] := by
    simp only [List.mem_cons, List.not_mem_nil, or_false] at hk
    rcases hk with rfl | rfl <;> simp [importWord, exportWord]
  have hpassed := (h before (keyword ++ after) (by simp) hne).2.2
  rw [List.nil_append, Bool.eq_false_iff] at hpassed
  refine hpassed (startsStatement_eq_true.mpr
    ⟨hbefore, keyword, hk, after ++ (o.text ++ rest), by simp, ?_⟩)
  cases after with
  | cons c after => exact hafter
  | nil =>
    obtain ⟨d, r, hd, hblank⟩ := o.exists_text_eq_cons
    rw [List.nil_append, hd, List.cons_append, startsInWord_cons, isWordChar_of_isBlank hblank]

/-! ### The search for a span -/

/-- A span is preferred at the front of a text: its clause starts behind all blanks and ends first
among those that do, or it is empty and there are no such clauses. -/
def Span.IsFirst (s : Span) (cs : List Char) : Prop :=
  (s.Snug ∧ ∀ s' : Span, s'.text <+: cs → s'.Snug → s.front.length ≤ s'.front.length) ∨
    s.clause = [] ∧ ∀ s' : Span, s'.text <+: cs → ¬ s'.Snug

/-- A snug span at the front of a text is one whose clause stands behind all blanks. -/
theorem Span.Snug.isSome_clause? {s : Span} (h : s.Snug) {b : Blanks}
    (hcs : ∀ c ∈ cs.head?, isBlank c = false) (hs : s.text <+: importWord ++ (b.chars ++ cs)) :
    (clause? false cs).isSome = true := by
  obtain ⟨rest, hrest⟩ := hs
  have hbody : s.gap.chars ++ (s.clause ++ (s.origin.text ++ rest)) = b.chars ++ cs := by
    simpa [Span.text, Span.front] using hrest
  have hclause := h.dropWhile (s.origin.text ++ rest)
  rw [hbody, dropWhile_isBlank_append b.blank hcs] at hclause
  rw [hclause]
  have himport : ¬ HasWord importWord ([] ++ s.clause) := s.noImport
  exact Import.isSome_clause? s.noSemicolon himport s.noExport s.origin rest

/-- **The span that is found is a span of the text**, and the preferred one. -/
theorem exists_of_spanAt?_eq_some (h : spanAt? false cs = some (spec, rest)) :
    ∃ s : Span, cs = s.text ++ rest ∧ s.origin.source.chars = spec ∧ s.IsFirst cs := by
  rw [spanAt?_false] at h
  obtain ⟨body, hbody, hspan⟩ := Option.bind_eq_some_iff.mp h
  obtain rfl := dropKeyword?_eq_some.mp hbody
  obtain ⟨b, after, rfl, hhead⟩ := exists_blanks_of_span?_eq_some hspan
  rw [span?_append b hhead] at hspan
  cases hclause : clause? false after with
  | some found =>
    rw [hclause, Option.some_or] at hspan
    obtain rfl := Option.some.inj hspan
    rw [← endsInWord_nil] at hclause
    obtain ⟨clause, o, rfl, hspec, hpassed⟩ := exists_of_clause?_eq_some hclause
    let s : Span := ⟨b, clause, hpassed.noSemicolon, hpassed.not_hasWord (by simp),
      hpassed.not_hasWord (by simp), o⟩
    have htext : importWord ++ (b.chars ++ (clause ++ (o.text ++ rest))) = s.text ++ rest := by
      simp [Span.text, Span.front, s]
    have hsnug : s.Snug := by
      cases hc : clause with
      | nil =>
        -- what stands behind an empty clause would start with one blank more
        obtain ⟨d, r, hd, hblank⟩ := o.exists_text_eq_cons
        rw [hc, List.nil_append, hd, List.cons_append] at hhead
        rw [hhead d rfl] at hblank
        cases hblank
      | cons c clause' =>
        rw [hc] at hhead
        exact ⟨c, by simp [s, hc], hhead c rfl⟩
    refine ⟨s, htext, hspec, Or.inl ⟨hsnug, ?_⟩⟩
    rintro s' ⟨rest', hrest'⟩ hsnug'
    refine Nat.le_of_not_lt fun hlt => ?_
    have hsame : s.text ++ rest = s'.text ++ rest' := by rw [hrest', htext]
    obtain ⟨tail, hne, hfront, htail⟩ := hsnug.exists_of_length_lt hsnug' hsame hlt
    have hnone := (hpassed s'.clause tail hfront hne).1
    rw [← htail, tail?_text] at hnone
    cases hnone
  | none =>
    rw [hclause, Option.none_or] at hspan
    obtain ⟨o, ho, hspec⟩ := tail?_eq_some.mp hspan
    obtain ⟨x, b', hb⟩ := List.exists_cons_of_ne_nil b.nonempty
    have hx : ∀ c ∈ [x], isBlank c = true := fun c hc => b.blank c (by
      rw [List.mem_singleton.mp hc, hb]
      exact List.mem_cons_self)
    refine ⟨⟨⟨[x], by simp, hx⟩, [], by simp, not_hasWord_nil (by decide),
      not_hasWord_nil (by decide), o⟩, ?_, hspec, Or.inr ⟨rfl, ?_⟩⟩
    · rw [hb, List.tail_cons] at ho
      simp [Span.text, Span.front, hb, ho]
    · intro s' hs' hsnug
      have hsome := hsnug.isSome_clause? hhead hs'
      rw [hclause] at hsome
      cases hsome

theorem endsInWord_of_isBlank {b : List Char} (hb : ∀ c ∈ b, isBlank c = true) :
    endsInWord b = false := by
  rcases List.eq_nil_or_concat b with rfl | ⟨b, c, rfl⟩
  · rfl
  · rw [List.concat_eq_append, endsInWord_concat]
    exact isWordChar_of_isBlank (hb c (by simp))

/-- An empty clause, or one of blanks, is found. -/
theorem isSome_span?_of_isBlank {b : Blanks} {clause : List Char}
    (hclause : ∀ c ∈ clause, isBlank c = true)
    (o : Origin) (rest : List Char) :
    (span? (b.chars ++ (clause ++ (o.text ++ rest)))).isSome = true := by
  obtain ⟨x, gap, hgap⟩ := List.exists_cons_of_ne_nil b.nonempty
  obtain ⟨d, r, hd, hblank⟩ := o.exists_text_eq_cons
  let blanks : Blanks := ⟨b.chars ++ clause ++ o.between.chars, by simp [hgap], by
    intro c hc
    simp only [List.mem_append] at hc
    rcases hc with (hc | hc) | hc
    · exact b.blank c hc
    · exact hclause c hc
    · exact o.between.blank c hc⟩
  let after := fromWord ++ (o.after.chars ++ (o.source.text ++ rest))
  have hbody : b.chars ++ (clause ++ (o.text ++ rest)) = blanks.chars ++ after := by
    simp [Origin.text, blanks, after]
  have hhead : ∀ c ∈ after.head?, isBlank c = false := by
    intro c hc
    obtain rfl := Option.some.inj hc
    decide
  -- but for the first one, all blanks can be told to what stands behind the clause
  have htail : tail? (blanks.chars.tail ++ after) = some (o.source.chars, rest) := by
    have hblanks : ∀ c ∈ gap ++ clause, isBlank c = true := by
      intro c hc
      rcases List.mem_append.mp hc with hc | hc
      · exact b.blank c (by simp [hgap, hc])
      · exact hclause c hc
    have hafter : blanks.chars.tail ++ after = (gap ++ clause) ++ (o.text ++ rest) := by
      simp [Origin.text, blanks, after, hgap]
    rw [hafter, ← tail?_text o rest, hd]
    exact tail?_append_blanks hblanks hblank
  rw [hbody, span?_append blanks hhead, htail, Option.isSome_or, Option.isSome_some, Bool.or_true]

/-- **A span is found where there is one.** -/
theorem isSome_spanAt? (s : Span) (rest : List Char) :
    (spanAt? false (s.text ++ rest)).isSome = true := by
  have htext : s.text ++ rest =
      importWord ++ (s.gap.chars ++ (s.clause ++ (s.origin.text ++ rest))) := by
    simp [Span.text, Span.front]
  rw [spanAt?_false, htext, dropKeyword?_eq_some.mpr rfl, Option.bind_some]
  obtain ⟨b, core, hclause, hb, hcore⟩ := exists_blanks_append s.clause
  cases core with
  | nil =>
    rw [hclause, List.append_nil]
    exact isSome_span?_of_isBlank hb s.origin rest
  | cons c core =>
    -- the blanks at the front of the clause count among those behind the word `import`
    let blanks : Blanks := ⟨s.gap.chars ++ b, by simp [s.gap.nonempty], by
      intro d hd
      exact (List.mem_append.mp hd).elim (s.gap.blank d) (hb d)⟩
    have hbody : s.gap.chars ++ (s.clause ++ (s.origin.text ++ rest)) =
        blanks.chars ++ (c :: core ++ (s.origin.text ++ rest)) := by
      simp [blanks, hclause]
    have hfound : (clause? (endsInWord b) (c :: core ++ (s.origin.text ++ rest))).isSome = true :=
      isSome_clause? (fun hm => s.noSemicolon (hclause ▸ List.mem_append_right b hm))
        (hclause ▸ s.noImport) (hclause ▸ s.noExport) s.origin rest
    rw [endsInWord_of_isBlank hb] at hfound
    have hhead : ∀ d ∈ (c :: core ++ (s.origin.text ++ rest)).head?, isBlank d = false := hcore
    rw [hbody, span?_append blanks hhead, Option.isSome_or, hfound, Bool.true_or]

/-! ### Spans in a text -/

/-- A span in a text: where it starts, and its parts. -/
structure Occurrence (text : List Char) where
  /-- Where it starts. -/
  start : Nat
  /-- Its parts. -/
  span : Span
  /-- They stand there. -/
  stands : span.text <+: text.drop start
  /-- The word `import` does not start within a word. -/
  boundary : endsInWord (text.take start) = false

namespace Occurrence

variable {text : List Char} {o p : Occurrence text}

/-- Where the clause ends. -/
def clauseEnd (o : Occurrence text) : Nat := o.start + o.span.front.length

/-- Where the span ends. -/
def finish (o : Occurrence text) : Nat := o.start + o.span.text.length

/-- Of the spans that start at one place, the one that is taken: among those whose clause starts at
the first character behind the word `import` that is not blank, the one whose clause ends first, and
if there are none, one with an empty clause. -/
def Preferred (o : Occurrence text) : Prop :=
  (o.span.Snug ∧ ∀ p : Occurrence text, p.start = o.start → p.span.Snug →
    o.clauseEnd ≤ p.clauseEnd) ∨
  o.span.clause = [] ∧ ∀ p : Occurrence text, p.start = o.start → ¬ p.span.Snug

theorem preferred_of_isFirst (h : o.span.IsFirst (text.drop o.start)) : o.Preferred := by
  have hstands : ∀ p : Occurrence text, p.start = o.start → p.span.text <+: text.drop o.start :=
    fun p hp => hp ▸ p.stands
  refine h.imp (fun ⟨hsnug, hfirst⟩ => ⟨hsnug, fun p hp hsnug' => ?_⟩)
    fun ⟨hempty, hnone⟩ => ⟨hempty, fun p hp => hnone p.span (hstands p hp)⟩
  have := hfirst p.span (hstands p hp) hsnug'
  unfold clauseEnd
  omega

theorem drop_start (o : Occurrence text) :
    text.drop o.start = o.span.text ++ text.drop o.finish := by
  obtain ⟨rest, hrest⟩ := o.stands
  rw [finish, ← List.drop_drop, ← hrest, List.drop_left]

theorem drop_clauseEnd (o : Occurrence text) :
    text.drop o.clauseEnd = o.span.origin.text ++ text.drop o.finish := by
  rw [clauseEnd, ← List.drop_drop, drop_start, Span.text, List.append_assoc, List.drop_left]

theorem length_text_pos (s : Span) : 0 < s.text.length := by
  simp only [Span.text, Span.front, importWord, List.length_append, List.length_cons]
  omega

theorem start_lt_finish (o : Occurrence text) : o.start < o.finish :=
  Nat.lt_add_of_pos_right (length_text_pos o.span)

theorem finish_le_length (o : Occurrence text) : o.finish ≤ text.length := by
  have hlength := congrArg List.length o.drop_start
  have hpos := length_text_pos o.span
  rw [List.length_append, List.length_drop, List.length_drop] at hlength
  unfold finish at hlength ⊢
  omega

/-- A span ends in a quote, so that a word can start behind it. -/
theorem endsInWord_take_finish (o : Occurrence text) : endsInWord (text.take o.finish) = false := by
  obtain ⟨rest, hrest⟩ := o.stands
  let q := o.span.origin.source
  have htake : text.take o.finish = text.take o.start ++ o.span.text := by
    rw [finish, List.take_add, ← hrest, List.take_left]
  have hlast : text.take o.start ++ o.span.text =
      (text.take o.start ++ o.span.front ++ o.span.origin.between.chars ++ fromWord ++
        o.span.origin.after.chars ++ q.quote :: q.chars) ++ [q.quote] := by
    simp [Span.text, Origin.text, Quoted.text, q]
  rw [htake, hlast, endsInWord_concat]
  rcases q.isQuote with h | h <;> rw [h] <;> decide

/-- Where a span starts, one is found. -/
theorem isSome_spanAt?_start (o : Occurrence text) :
    (spanAt? (endsInWord (text.take o.start)) (text.drop o.start)).isSome = true := by
  rw [o.boundary, o.drop_start]
  exact isSome_spanAt? o.span _

/-- What is read behind the clause, or behind the word `import` if the clause is empty, tells the
specifier and the end of a span. -/
theorem eq_of_tail?_eq {m n : Nat}
    (ho : tail? (text.drop m) = some (o.span.origin.source.chars, text.drop o.finish))
    (hp : tail? (text.drop n) = some (p.span.origin.source.chars, text.drop p.finish)) (h : m = n) :
    o.span.specifier = p.span.specifier ∧ o.finish = p.finish := by
  rw [h, hp] at ho
  obtain ⟨hchars, hdrop⟩ := Prod.mk.inj (Option.some.inj ho)
  have hlength := congrArg List.length hdrop
  rw [List.length_drop, List.length_drop] at hlength
  have := o.finish_le_length
  have := p.finish_le_length
  exact ⟨congrArg String.ofList hchars.symm, by omega⟩

theorem tail?_clauseEnd (o : Occurrence text) :
    tail? (text.drop o.clauseEnd) = some (o.span.origin.source.chars, text.drop o.finish) := by
  rw [drop_clauseEnd, tail?_text]

theorem tail?_importWord (h : o.span.clause = []) :
    tail? (text.drop (o.start + importWord.length)) =
      some (o.span.origin.source.chars, text.drop o.finish) := by
  obtain ⟨d, r, hd, hblank⟩ := o.span.origin.exists_text_eq_cons
  have hbody : o.span.text ++ text.drop o.finish =
      importWord ++ (o.span.gap.chars ++ (o.span.origin.text ++ text.drop o.finish)) := by
    simp [Span.text, Span.front, h]
  rw [← List.drop_drop, drop_start, hbody, List.drop_left, ← tail?_text, hd]
  exact tail?_append_blanks o.span.gap.blank hblank

/-- **Spans that are taken at one place** have the same specifier and the same end. -/
theorem Preferred.unique (ho : o.Preferred) (hp : p.Preferred) (h : o.start = p.start) :
    o.span.specifier = p.span.specifier ∧ o.finish = p.finish := by
  rcases ho with ⟨hsnug, hfirst⟩ | ⟨hempty, hnone⟩
  · rcases hp with ⟨hsnug', hfirst'⟩ | ⟨-, hnone'⟩
    · exact eq_of_tail?_eq o.tail?_clauseEnd p.tail?_clauseEnd
        (Nat.le_antisymm (hfirst p h.symm hsnug') (hfirst' o h hsnug))
    · exact absurd hsnug (hnone' o h)
  · rcases hp with ⟨hsnug', -⟩ | ⟨hempty', -⟩
    · exact absurd hsnug' (hnone p h.symm)
    · exact eq_of_tail?_eq (tail?_importWord hempty) (tail?_importWord hempty')
        (congrArg (· + importWord.length) h)

end Occurrence

/-! ### Readings -/

/-- The spans of a text that are taken from a position on: in order and disjoint, each preferred among
those that start where it does, and so that no span of the text starts outside of them. -/
structure IsReading (text : List Char) (pos : Nat) (os : List (Occurrence text)) : Prop where
  /-- They start at the position or behind it. -/
  behind : ∀ o ∈ os, pos ≤ o.start
  /-- Each ends before the next one starts. -/
  ordered : os.Pairwise fun o p => o.finish ≤ p.start
  /-- Every span of the text from the position on starts within one that is taken: none starts before
  the first, between two, or behind the last. -/
  complete : ∀ p : Occurrence text, pos ≤ p.start → ∃ o ∈ os, o.start ≤ p.start ∧ p.start < o.finish
  /-- Each is preferred among those that start at the same place. -/
  preferred : ∀ o ∈ os, o.Preferred

namespace IsReading

variable {text : List Char} {pos : Nat} {o : Occurrence text} {os ps : List (Occurrence text)}

/-- The first span that is taken is the first one of the text. -/
theorem start_le (h : IsReading text pos (o :: os)) {p : Occurrence text} (hp : pos ≤ p.start) :
    o.start ≤ p.start := by
  obtain ⟨q, hq, hle, -⟩ := h.complete p hp
  rcases List.mem_cons.mp hq with rfl | hq
  · exact hle
  · have hordered := List.rel_of_pairwise_cons h.ordered hq
    have := o.start_lt_finish
    omega

/-- Behind the first span the others are read. -/
theorem tail (h : IsReading text pos (o :: os)) : IsReading text o.finish os where
  behind p hp := List.rel_of_pairwise_cons h.ordered hp
  ordered := h.ordered.of_cons
  complete p hp := by
    have hpos := h.behind o List.mem_cons_self
    have hlt := o.start_lt_finish
    obtain ⟨q, hq, hle, hin⟩ := h.complete p (by omega)
    rcases List.mem_cons.mp hq with rfl | hq
    · omega
    · exact ⟨q, hq, hle, hin⟩
  preferred p hp := h.preferred p (List.mem_cons_of_mem o hp)

/-- A span at the position, and a reading from its end. -/
theorem cons (hstart : o.start = pos) (hpreferred : o.Preferred) (h : IsReading text o.finish os) :
    IsReading text pos (o :: os) where
  behind p hp := by
    rcases List.mem_cons.mp hp with rfl | hp
    · omega
    · have := h.behind p hp
      have := o.start_lt_finish
      omega
  ordered := List.pairwise_cons.mpr ⟨h.behind, h.ordered⟩
  complete p hp := by
    by_cases hin : p.start < o.finish
    · exact ⟨o, List.mem_cons_self, by omega, hin⟩
    · obtain ⟨q, hq, hwithin⟩ := h.complete p (by omega)
      exact ⟨q, List.mem_cons_of_mem o hq, hwithin⟩
  preferred p hp := by
    rcases List.mem_cons.mp hp with rfl | hp
    · exact hpreferred
    · exact h.preferred p hp

/-- A position where no span starts is passed over. -/
theorem skip (hnone : ∀ p : Occurrence text, p.start ≠ pos) (h : IsReading text (pos + 1) os) :
    IsReading text pos os where
  behind p hp := Nat.le_of_succ_le (h.behind p hp)
  ordered := h.ordered
  complete p hp := h.complete p (Nat.lt_of_le_of_ne hp (hnone p).symm)
  preferred := h.preferred

/-- **All readings give the same specifiers.** -/
theorem unique (hos : IsReading text pos os) (hps : IsReading text pos ps) :
    os.map (fun o => o.span.specifier) = ps.map fun p => p.span.specifier := by
  induction os generalizing pos ps with
  | nil =>
    cases ps with
    | nil => rfl
    | cons p ps =>
      obtain ⟨q, hq, -⟩ := hos.complete p (hps.behind p List.mem_cons_self)
      cases hq
  | cons o os ih =>
    cases ps with
    | nil =>
      obtain ⟨q, hq, -⟩ := hps.complete o (hos.behind o List.mem_cons_self)
      cases hq
    | cons p ps =>
      have hstart : o.start = p.start := Nat.le_antisymm
        (hos.start_le (hps.behind p List.mem_cons_self))
        (hps.start_le (hos.behind o List.mem_cons_self))
      obtain ⟨hspecifier, hfinish⟩ := (hos.preferred o List.mem_cons_self).unique
        (hps.preferred p List.mem_cons_self) hstart
      rw [List.map_cons, List.map_cons, hspecifier, ih hos.tail (hfinish ▸ hps.tail)]

end IsReading

/-! ### The specifiers of a text -/

/-- What is read from a position on are the specifiers of a reading from there. -/
theorem exists_isReading {text : List Char} {pos : Nat} (hpos : pos ≤ text.length) :
    ∃ os, IsReading text pos os ∧
      (specifiersFrom (endsInWord (text.take pos)) (text.drop pos)).map String.ofList =
        os.map fun o => o.span.specifier := by
  induction hn : text.length - pos using Nat.strongRecOn generalizing pos with
  | ind n ih =>
    cases hspan : spanAt? (endsInWord (text.take pos)) (text.drop pos) with
    | some found =>
      obtain ⟨spec, rest⟩ := found
      have hword : endsInWord (text.take pos) = false := by
        cases hw : endsInWord (text.take pos) with
        | false => rfl
        | true =>
          rw [hw] at hspan
          cases hspan
      obtain ⟨s, hs, hspec, hfirst⟩ := exists_of_spanAt?_eq_some (hword ▸ hspan)
      let o : Occurrence text := ⟨pos, s, ⟨rest, hs.symm⟩, hword⟩
      have hlt : pos < o.finish := o.start_lt_finish
      have hle := o.finish_le_length
      have hrest : rest = text.drop o.finish := List.append_cancel_left (hs.symm.trans o.drop_start)
      obtain ⟨os, hos, hmap⟩ := ih (text.length - o.finish) (by omega) hle rfl
      refine ⟨o :: os, hos.cons rfl (Occurrence.preferred_of_isFirst hfirst), ?_⟩
      rw [specifiersFrom_of_spanAt? hspan, hrest, ← o.endsInWord_take_finish, List.map_cons, hmap,
        ← hspec]
      rfl
    | none =>
      have hnone : ∀ p : Occurrence text, p.start ≠ pos := by
        rintro p rfl
        have hsome := p.isSome_spanAt?_start
        rw [hspan] at hsome
        cases hsome
      rcases Nat.eq_or_lt_of_le hpos with rfl | hlt
      · -- at the end of the text nothing is left
        have hnil : IsReading text text.length [] :=
          ⟨by simp, List.Pairwise.nil, fun p hp => by
            have := p.start_lt_finish
            have := p.finish_le_length
            omega, by simp⟩
        refine ⟨[], hnil, ?_⟩
        rw [List.drop_length, specifiersFrom_nil]
        rfl
      · obtain ⟨os, hos, hmap⟩ := ih (text.length - (pos + 1)) (by omega) hlt rfl
        refine ⟨os, hos.skip hnone, ?_⟩
        rw [List.take_succ_eq_append_getElem hlt, endsInWord_concat] at hmap
        rw [List.drop_eq_getElem_cons hlt] at hspan ⊢
        rw [specifiersFrom_cons hspan, hmap]

/-- **The specifiers of a text are those of its reading.**  There is a reading: spans in order and
disjoint, so that none starts outside of them, and each preferred among those that start where it
does.  Whatever reading is taken, its specifiers are the ones that are given. -/
theorem specifiers_eq_reading (text : String) :
    ∃ os, IsReading text.toList 0 os ∧ ∀ ps, IsReading text.toList 0 ps →
      specifiers text = ps.map fun p => p.span.specifier := by
  obtain ⟨os, hos, hmap⟩ := exists_isReading (Nat.zero_le text.toList.length)
  exact ⟨os, hos, fun ps hps => hmap.trans (hos.unique hps)⟩

-- an empty clause is taken only where no other one will do
example : specifiers "import  from 'x', a from 'y'" = ["y"] := by cbv

end Unimported.Import
