import Unimported.Proofs.Import.Statement

/-!
# The steps of the reader

What each step of reading a span finds, told on the text alone.  A step that finds something tells
how the text begins; a text that begins in this way is one in which the step finds it.

## Main definitions

* `Origin` — the part of a span behind its clause.

## Main results

* `dropBlanks?_eq_some`, `quotedSpecifier?_eq_some` — what blanks and quoted specifiers look like.
* `tail?_eq_some` — **what the part of a span behind its clause looks like.**
* `startsStatement_eq_true` — a statement starts where a keyword stands as a whole word.
* `span?_eq_none` — where no clause starts, no span goes on.
-/

namespace Unimported.Import

open Text

/-! ### Quotes and keywords -/

theorem Quoted.isBlank_quote (q : Quoted) : isBlank q.quote = false := by
  rcases q.isQuote with h | h <;> rw [h] <;> decide

/-- The keywords are made of word characters. -/
theorem isWordChar_of_mem_keywords {c : Char} (h : c ∈ importWord ++ exportWord ++ fromWord) :
    isWordChar c = true := by
  have hall : (importWord ++ exportWord ++ fromWord).all isWordChar = true := by decide
  exact List.all_eq_true.mp hall c h

/-- A quote is no letter of a keyword. -/
theorem Quoted.quote_not_mem (q : Quoted) : q.quote ∉ importWord ∧ q.quote ∉ fromWord := by
  rcases q.isQuote with h | h <;> rw [h] <;> decide

/-- Behind the opening quote of a specifier without blanks there is none up to its end. -/
theorem Quoted.Solid.isBlank_eq_false {q : Quoted} (hq : q.Solid) {c : Char}
    (hc : c ∈ q.chars ++ [q.quote]) : isBlank c = false := by
  rcases List.mem_append.mp hc with h | h
  · exact hq c h
  · rw [List.mem_singleton.mp h, q.isBlank_quote]

/-! ### Keywords, blanks and specifiers -/

theorem dropKeyword?_eq_some {keyword cs rest : List Char} :
    dropKeyword? keyword cs = some rest ↔ cs = keyword ++ rest := by
  unfold dropKeyword?
  split
  · next h =>
    obtain ⟨r, rfl⟩ := List.isPrefixOf_iff_prefix.mp h
    simp [eq_comm]
  · next h =>
    simp only [reduceCtorEq, false_iff]
    rintro rfl
    exact h (List.isPrefixOf_iff_prefix.mpr ⟨rest, rfl⟩)

theorem dropBlanks?_cons_blank {c : Char} {cs : List Char} (h : isBlank c = true) :
    dropBlanks? (c :: cs) = some (cs.dropWhile isBlank) := by
  simp [dropBlanks?, h]

theorem dropBlanks?_cons_of_not_blank {c : Char} {cs : List Char} (h : isBlank c = false) :
    dropBlanks? (c :: cs) = none := by
  simp [dropBlanks?, h]

/-- A text that does not start with a blank keeps all its characters. -/
theorem dropWhile_isBlank {cs : List Char} (h : ∀ c ∈ cs.head?, isBlank c = false) :
    cs.dropWhile isBlank = cs := by
  cases cs with
  | nil => rfl
  | cons c cs => simp [h c rfl]

/-- Blanks at the front are told from what stands behind them. -/
theorem dropWhile_isBlank_append {b cs : List Char} (hb : ∀ c ∈ b, isBlank c = true)
    (hcs : ∀ c ∈ cs.head?, isBlank c = false) : (b ++ cs).dropWhile isBlank = cs := by
  rw [List.dropWhile_append_of_pos hb, dropWhile_isBlank hcs]

/-- A text starts with blanks, maybe none, and goes on with another character or not at all. -/
theorem exists_blanks_append (cs : List Char) :
    ∃ b rest, cs = b ++ rest ∧ (∀ c ∈ b, isBlank c = true) ∧ ∀ c ∈ rest.head?, isBlank c = false := by
  refine ⟨cs.takeWhile isBlank, cs.dropWhile isBlank, ?_, ?_, ?_⟩
  · exact List.takeWhile_append_dropWhile.symm
  · exact List.all_eq_true.mp List.all_takeWhile
  · intro c hc
    have hhead := List.head?_dropWhile_not isBlank cs
    rw [Option.mem_def.mp hc] at hhead
    simpa using hhead

/-- **Blanks are dropped as a whole**, and there must be one. -/
theorem dropBlanks?_eq_some {cs rest : List Char} :
    dropBlanks? cs = some rest ↔
      ∃ b : Blanks, cs = b.chars ++ rest ∧ ∀ c ∈ rest.head?, isBlank c = false := by
  constructor
  · intro h
    obtain ⟨b, after, rfl, hb, hafter⟩ := exists_blanks_append cs
    cases b with
    | nil =>
      cases after with
      | nil => cases h
      | cons c after =>
        rw [List.nil_append, dropBlanks?_cons_of_not_blank (hafter c rfl)] at h
        cases h
    | cons c b =>
      rw [List.cons_append, dropBlanks?_cons_blank (hb c List.mem_cons_self),
        dropWhile_isBlank_append (fun d hd => hb d (List.mem_cons_of_mem c hd)) hafter] at h
      obtain rfl := Option.some.inj h
      exact ⟨⟨c :: b, by simp, hb⟩, rfl, hafter⟩
  · rintro ⟨b, rfl, hrest⟩
    obtain ⟨c, r, hb⟩ := List.exists_cons_of_ne_nil b.nonempty
    have hblank := b.blank
    rw [hb] at hblank ⊢
    rw [List.cons_append, dropBlanks?_cons_blank (hblank c List.mem_cons_self),
      dropWhile_isBlank_append (fun d hd => hblank d (List.mem_cons_of_mem c hd)) hrest]

/-- **What a quoted specifier looks like.** -/
theorem quotedSpecifier?_eq_some {cs spec rest : List Char} :
    quotedSpecifier? cs = some (spec, rest) ↔
      ∃ q : Quoted, cs = q.text ++ rest ∧ q.chars = spec := by
  constructor
  · intro h
    cases cs with
    | nil => simp [quotedSpecifier?] at h
    | cons quote cs =>
      simp only [quotedSpecifier?] at h
      split at h
      · next hquote =>
        split at h
        · next s ss close after htake hdrop =>
          split at h
          · next hclose =>
            obtain ⟨rfl, rfl⟩ := Prod.mk.inj (Option.some.inj h)
            have hplain : ∀ c ∈ s :: ss, isSpecifierChar c = true := by
              rw [← htake]
              exact List.all_eq_true.mp List.all_takeWhile
            refine ⟨⟨quote, hquote, s :: ss, by simp, hplain⟩, ?_, rfl⟩
            have hcs := List.takeWhile_append_dropWhile (p := isSpecifierChar) (l := cs)
            rw [htake, hdrop, hclose] at hcs
            simp [Quoted.text, ← hcs]
          · cases h
        · cases h
      · cases h
  · rintro ⟨q, rfl, rfl⟩
    have hq : isSpecifierChar q.quote = false := by
      rcases q.isQuote with h | h <;> rw [h] <;> decide
    have htake : (q.chars ++ q.quote :: rest).takeWhile isSpecifierChar = q.chars := by
      rw [List.takeWhile_append_of_pos q.plain]
      simp [hq]
    have hdrop : (q.chars ++ q.quote :: rest).dropWhile isSpecifierChar = q.quote :: rest := by
      rw [List.dropWhile_append_of_pos q.plain]
      simp [hq]
    obtain ⟨s, ss, hs⟩ := List.exists_cons_of_ne_nil q.nonempty
    have htext : q.text ++ rest = q.quote :: (q.chars ++ q.quote :: rest) := by simp [Quoted.text]
    rw [htext, quotedSpecifier?, if_pos q.isQuote, htake, hdrop, hs]
    simp

/-! ### The part behind the clause -/

/-- The part of a span behind its clause. -/
structure Origin where
  /-- Blanks in front of the word `from`. -/
  between : Blanks
  /-- Blanks behind it. -/
  after : Blanks
  /-- The module. -/
  source : Quoted

/-- The text of the part behind the clause. -/
def Origin.text (o : Origin) : List Char :=
  o.between.chars ++ fromWord ++ o.after.chars ++ o.source.text

/-- **What the part of a span behind its clause looks like**: blanks, `from`, blanks and a quoted
specifier. -/
theorem tail?_eq_some {cs spec rest : List Char} :
    tail? cs = some (spec, rest) ↔ ∃ o : Origin, cs = o.text ++ rest ∧ o.source.chars = spec := by
  simp only [tail?, Option.bind_eq_bind, Option.bind_eq_some_iff, dropBlanks?_eq_some,
    dropKeyword?_eq_some, quotedSpecifier?_eq_some]
  constructor
  · rintro ⟨_, ⟨b, rfl, -⟩, _, rfl, _, ⟨b', rfl, -⟩, q, rfl, rfl⟩
    exact ⟨⟨b, b', q⟩, by simp [Origin.text, fromWord], rfl⟩
  · rintro ⟨⟨b, b', q⟩, rfl, rfl⟩
    have hfrom : ∀ c ∈ (fromWord ++ (b'.chars ++ (q.text ++ rest))).head?, isBlank c = false := by
      intro c hc
      obtain rfl := Option.some.inj hc
      decide
    have hquote : ∀ c ∈ (q.text ++ rest).head?, isBlank c = false := by
      intro c hc
      obtain rfl := Option.some.inj hc
      exact q.isBlank_quote
    exact ⟨_, ⟨b, by simp [Origin.text], hfrom⟩, _, rfl, _, ⟨b', rfl, hquote⟩, q, rfl, rfl⟩

/-- It starts with a blank. -/
theorem Origin.exists_text_eq_cons (o : Origin) : ∃ d r, o.text = d :: r ∧ isBlank d = true := by
  obtain ⟨d, b, hb⟩ := List.exists_cons_of_ne_nil o.between.nonempty
  refine ⟨d, b ++ fromWord ++ o.after.chars ++ o.source.text, by simp [text, hb], ?_⟩
  exact o.between.blank d (by simp [hb])

theorem tail?_text (o : Origin) (rest : List Char) :
    tail? (o.text ++ rest) = some (o.source.chars, rest) :=
  tail?_eq_some.mpr ⟨o, rfl, rfl⟩

theorem tail?_cons_of_not_blank {c : Char} {cs : List Char} (h : isBlank c = false) :
    tail? (c :: cs) = none := by
  simp [tail?, dropBlanks?_cons_of_not_blank h]

/-- Blanks in front of a blank make no difference. -/
theorem tail?_append_blanks {b cs : List Char} {c : Char} (hb : ∀ d ∈ b, isBlank d = true)
    (hc : isBlank c = true) : tail? (b ++ c :: cs) = tail? (c :: cs) := by
  have hdrop : dropBlanks? (b ++ c :: cs) = dropBlanks? (c :: cs) := by
    cases b with
    | nil => rfl
    | cons d b =>
      rw [List.cons_append, dropBlanks?_cons_blank (hb d List.mem_cons_self),
        dropBlanks?_cons_blank hc,
        List.dropWhile_append_of_pos fun e he => hb e (List.mem_cons_of_mem d he),
        List.dropWhile_cons_of_pos hc]
  simp only [tail?, hdrop]

/-! ### Clauses -/

/-- **A statement starts where a keyword stands as a whole word.** -/
theorem startsStatement_eq_true {w : Bool} {cs : List Char} :
    startsStatement w cs = true ↔
      w = false ∧ ∃ keyword ∈ [importWord, exportWord], ∃ rest,
        cs = keyword ++ rest ∧ startsInWord rest = false := by
  simp only [startsStatement, Bool.and_eq_true, Bool.not_eq_true', List.any_eq_true]
  refine and_congr_right fun _ => exists_congr fun keyword => and_congr_right fun _ => ?_
  constructor
  · intro h
    split at h
    · cases h
    · next hk => exact ⟨[], dropKeyword?_eq_some.mp hk, rfl⟩
    · next c r hk => exact ⟨c :: r, dropKeyword?_eq_some.mp hk, by simpa using h⟩
  · rintro ⟨rest, hk, hr⟩
    rw [dropKeyword?_eq_some.mpr hk]
    cases rest with
    | nil => rfl
    | cons c rest => simpa using hr

/-- **No statement starts in a clause without the keywords**, whatever stands behind it. -/
theorem startsStatement_of_not_hasWord {pre suf : List Char}
    (himport : ¬ HasWord importWord (pre ++ suf)) (hexport : ¬ HasWord exportWord (pre ++ suf))
    (o : Origin) (cs : List Char) :
    startsStatement (endsInWord pre) (suf ++ (o.text ++ cs)) = false := by
  rw [Bool.eq_false_iff]
  intro h
  obtain ⟨hpre, keyword, hk, rest, he, hrest⟩ := startsStatement_eq_true.mp h
  obtain ⟨d, r, hd, hblank⟩ := o.exists_text_eq_cons
  have hdWord : isWordChar d = false := isWordChar_of_isBlank hblank
  have hword : ¬ HasWord keyword (pre ++ suf) ∧ d ∉ keyword := by
    simp only [List.mem_cons, List.not_mem_nil, or_false] at hk
    rcases hk with rfl | rfl
    · refine ⟨himport, fun hm => ?_⟩
      rw [isWordChar_of_mem_keywords (by simp [hm])] at hdWord
      cases hdWord
    · refine ⟨hexport, fun hm => ?_⟩
      rw [isWordChar_of_mem_keywords (by simp [hm])] at hdWord
      cases hdWord
  have he' : suf ++ d :: (r ++ cs) = [] ++ keyword ++ rest := by
    rw [List.nil_append, ← he, hd, List.cons_append]
  rcases append_cons_eq_block hword.2 he' with ⟨r', rfl, rfl⟩ | ⟨l, hl, -⟩
  · refine hword.1 ⟨pre, r', by simp, hpre, ?_⟩
    cases r' with
    | nil => rfl
    | cons c r' => exact hrest
  · simp at hl

theorem clause?_of_tail? {w : Bool} {cs : List Char} {found : List Char × List Char}
    (h : tail? cs = some found) : clause? w cs = some found := by
  unfold clause?
  rw [h]

theorem clause?_cons {w : Bool} {c : Char} {cs : List Char} (h : tail? (c :: cs) = none) :
    clause? w (c :: cs) =
      if c = ';' ∨ startsStatement w (c :: cs) = true then none else clause? (isWordChar c) cs := by
  rw [clause?, h]

theorem tail?_of_clause?_eq_none {w : Bool} {cs : List Char} (h : clause? w cs = none) :
    tail? cs = none := by
  cases ht : tail? cs with
  | none => rfl
  | some found => rw [clause?_of_tail? ht] at h; cases h

/-- A blank in front makes room for a clause, but ends none. -/
theorem clause?_eq_none_of_cons_blank {w : Bool} {c : Char} {cs : List Char}
    (hc : isBlank c = true) (h : clause? w (c :: cs) = none) : clause? false cs = none := by
  rw [clause?_cons (tail?_of_clause?_eq_none h), isWordChar_of_isBlank hc, if_neg] at h
  · exact h
  · rintro (rfl | hs)
    · exact absurd hc (by decide)
    · obtain ⟨-, keyword, hk, rest, he, -⟩ := startsStatement_eq_true.mp hs
      simp only [List.mem_cons, List.not_mem_nil, or_false] at hk
      rcases hk with rfl | rfl <;>
      · obtain ⟨rfl, -⟩ := List.cons.inj he
        exact absurd hc (by decide)

theorem clause?_dropWhile_eq_none {w : Bool} {c : Char} {cs : List Char}
    (hc : isBlank c = true) (h : clause? w (c :: cs) = none) :
    clause? false (cs.dropWhile isBlank) = none := by
  induction cs generalizing w c with
  | nil => exact clause?_eq_none_of_cons_blank hc h
  | cons d cs ih =>
    have hcs := clause?_eq_none_of_cons_blank hc h
    by_cases hd : isBlank d = true
    · rw [List.dropWhile_cons_of_pos hd]
      exact ih hd hcs
    · rw [List.dropWhile_cons_of_neg hd]
      exact hcs

/-! ### Spans -/

/-- Behind the blanks after the word `import` the clause starts; else the blanks but the first one
belong to what stands behind an empty clause. -/
theorem span?_append (b : Blanks) {cs : List Char} (hcs : ∀ c ∈ cs.head?, isBlank c = false) :
    span? (b.chars ++ cs) = (clause? false cs).or (tail? (b.chars.tail ++ cs)) := by
  have htake : cs.takeWhile isBlank = [] := by
    cases cs with
    | nil => rfl
    | cons c cs => exact List.takeWhile_cons_of_neg (by simp [hcs c rfl])
  obtain ⟨x, b', hb⟩ := List.exists_cons_of_ne_nil b.nonempty
  unfold span?
  rw [List.takeWhile_append_of_pos b.blank, dropWhile_isBlank_append b.blank hcs, htake,
    List.append_nil, hb]
  cases b' with
  | nil =>
    -- of a single blank nothing is left for an empty clause
    show clause? false cs = (clause? false cs).or (tail? cs)
    cases h : clause? false cs with
    | none => rw [tail?_of_clause?_eq_none h]; rfl
    | some found => rfl
  | cons y b' =>
    cases h : clause? false cs with
    | none => simp [h]
    | some found => simp [h]

theorem span?_of_not_blank {c : Char} {cs : List Char} (h : isBlank c = false) :
    span? (c :: cs) = none := by
  unfold span?
  rw [List.takeWhile_cons_of_neg (by simp [h])]

/-- Behind the word `import` of a span there are blanks. -/
theorem exists_blanks_of_span?_eq_some {cs : List Char} {found : List Char × List Char}
    (h : span? cs = some found) :
    ∃ b : Blanks, ∃ rest, cs = b.chars ++ rest ∧ ∀ c ∈ rest.head?, isBlank c = false := by
  obtain ⟨b, rest, rfl, hb, hrest⟩ := exists_blanks_append cs
  cases b with
  | cons c b => exact ⟨⟨c :: b, by simp, hb⟩, rest, rfl, hrest⟩
  | nil =>
    cases rest with
    | nil => cases h
    | cons c rest =>
      rw [List.nil_append, span?_of_not_blank (hrest c rfl)] at h
      cases h

/-- Where no clause starts, no span goes on behind the word `import` either. -/
theorem span?_eq_none {w : Bool} {cs : List Char} (h : clause? w cs = none) : span? cs = none := by
  cases cs with
  | nil => rfl
  | cons c cs =>
    unfold span?
    by_cases hc : isBlank c = true
    · have hbody := clause?_dropWhile_eq_none hc h
      have htail := tail?_of_clause?_eq_none (clause?_eq_none_of_cons_blank hc h)
      rw [List.takeWhile_cons_of_pos hc, List.dropWhile_cons_of_pos hc]
      split
      · rfl
      · exact hbody
      · next heq =>
        obtain ⟨-, rfl⟩ := List.cons.inj heq
        rw [hbody, List.takeWhile_append_dropWhile]
        exact htail
    · rw [List.takeWhile_cons_of_neg hc]

theorem spanAt?_false (cs : List Char) : spanAt? false cs = (dropKeyword? importWord cs).bind span? :=
  if_neg (by decide)

theorem specifiersFrom_of_spanAt? {w : Bool} {cs spec after : List Char}
    (h : spanAt? w cs = some (spec, after)) :
    specifiersFrom w cs = spec :: specifiersFrom false after := by
  rw [specifiersFrom]
  split
  · next h' =>
    rw [h] at h'
    obtain ⟨rfl, rfl⟩ := Prod.mk.inj (Option.some.inj h')
    rfl
  · next h' => rw [h] at h'; cases h'

theorem specifiersFrom_nil (w : Bool) : specifiersFrom w [] = [] := by
  rw [specifiersFrom]
  cases w <;> rfl

theorem specifiersFrom_cons {w : Bool} {c : Char} {cs : List Char}
    (h : spanAt? w (c :: cs) = none) :
    specifiersFrom w (c :: cs) = specifiersFrom (isWordChar c) cs := by
  rw [specifiersFrom]
  split
  · next h' => rw [h] at h'; cases h'
  · rfl

/-- An ending is passed over. -/
theorem specifiersFrom_ending (w : Bool) (e : Ending) (cs : List Char) :
    specifiersFrom w (e.text ++ cs) = specifiersFrom false cs := by
  have hspan (w : Bool) (d : Char) (r : List Char) (hd : d = ';' ∨ d = '\n') :
      spanAt? w (d :: r) = none := by
    unfold spanAt?
    split
    · rfl
    · rw [Option.bind_eq_none_iff]
      intro body hbody
      obtain ⟨rfl, -⟩ := List.cons.inj (dropKeyword?_eq_some.mp hbody)
      exact absurd hd (by decide)
  cases e with
  | lineFeed => exact specifiersFrom_cons (hspan w _ _ (Or.inr rfl))
  | semicolon =>
    show specifiersFrom w (';' :: '\n' :: cs) = _
    rw [specifiersFrom_cons (hspan w _ _ (Or.inl rfl)),
      specifiersFrom_cons (hspan _ _ _ (Or.inr rfl))]
    rfl

end Unimported.Import
