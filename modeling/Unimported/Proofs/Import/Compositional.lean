import Unimported.Proofs.Import.Reader

/-!
# Reading statement by statement

A semicolon at the end of a line parts a text: no span goes through it.  A clause holds no semicolon
and blanks are none; a specifier may hold one, but not the line feed behind it.  Nor does the parting
make a word whole or take one apart.  So each step of the reader finds in front of the parting what it
finds there without anything behind, whatever texts these are.

## Main definitions

* `parting` — a semicolon and a line feed in front of a text.
* `carry` — what a step finds, with more text behind it.

## Main results

* `tail?_parting`, `clause?_parting`, `spanAt?_parting` — each step stays in front of the parting.
* `specifiers_append` — **the specifiers of two statements are those of one and of the other.**
-/

namespace Unimported.Import

open Text

variable {cs b : List Char}

/-- A semicolon and a line feed in front of a text. -/
def parting (b : List Char) : List Char := ';' :: '\n' :: b

/-- What a step of the reader finds, when more text stands behind it. -/
def carry (cs : List Char) (found : List Char × List Char) : List Char × List Char :=
  (found.1, found.2 ++ cs)

/-! ### Keywords, blanks and specifiers -/

theorem dropKeyword?_append {keyword : List Char} {d : Char} (hd : d ∉ keyword) (cs b : List Char) :
    dropKeyword? keyword (cs ++ d :: b) = (dropKeyword? keyword cs).map (· ++ d :: b) := by
  cases hcs : dropKeyword? keyword cs with
  | some rest =>
    obtain rfl := dropKeyword?_eq_some.mp hcs
    rw [Option.map_some, dropKeyword?_eq_some, List.append_assoc]
  | none =>
    rw [Option.map_none, Option.eq_none_iff_forall_ne_some]
    intro rest hrest
    have he : cs ++ d :: b = [] ++ keyword ++ rest := dropKeyword?_eq_some.mp hrest
    rcases append_cons_eq_block hd he with ⟨r, rfl, -⟩ | ⟨l, hl, -⟩
    · rw [List.nil_append, dropKeyword?_eq_some.mpr rfl] at hcs
      cases hcs
    · simp at hl

theorem dropWhile_isBlank_parting (cs b : List Char) :
    (cs ++ parting b).dropWhile isBlank = cs.dropWhile isBlank ++ parting b := by
  have hstop : (parting b).dropWhile isBlank = parting b := List.dropWhile_cons_of_neg (by decide)
  rw [List.dropWhile_append, hstop]
  split
  · next hnil => rw [List.isEmpty_iff.mp hnil, List.nil_append]
  · rfl

theorem dropBlanks?_parting (cs b : List Char) :
    dropBlanks? (cs ++ parting b) = (dropBlanks? cs).map (· ++ parting b) := by
  cases cs with
  | nil => rfl
  | cons c cs =>
    by_cases hc : isBlank c = true
    · rw [List.cons_append, dropBlanks?_cons_blank hc, dropBlanks?_cons_blank hc,
        dropWhile_isBlank_parting, Option.map_some]
    · have hc : isBlank c = false := by simpa using hc
      rw [List.cons_append, dropBlanks?_cons_of_not_blank hc, dropBlanks?_cons_of_not_blank hc,
        Option.map_none]

/-- A specifier may hold the semicolon, but it would have to hold the line feed as well. -/
theorem quotedSpecifier?_parting (cs b : List Char) :
    quotedSpecifier? (cs ++ parting b) = (quotedSpecifier? cs).map (carry (parting b)) := by
  cases hcs : quotedSpecifier? cs with
  | some found =>
    obtain ⟨q, rfl, hq⟩ := quotedSpecifier?_eq_some.mp hcs
    rw [Option.map_some, carry, quotedSpecifier?_eq_some]
    exact ⟨q, by rw [List.append_assoc], hq⟩
  | none =>
    rw [Option.map_none, Option.eq_none_iff_forall_ne_some]
    rintro ⟨spec, rest⟩ hfound
    obtain ⟨q, he, -⟩ := quotedSpecifier?_eq_some.mp hfound
    have hquote : q.quote ≠ ';' ∧ q.quote ≠ '\n' := by
      rcases q.isQuote with h | h <;> rw [h] <;> decide
    have hline : '\n' ∉ q.text := by
      simp only [Quoted.text, List.mem_cons, List.mem_append, List.not_mem_nil, or_false, not_or]
      refine ⟨hquote.2.symm, fun hmem => ?_, hquote.2.symm⟩
      exact absurd (q.plain '\n' hmem) (by decide)
    have he' : (cs ++ [';']) ++ '\n' :: b = [] ++ q.text ++ rest := by
      rw [List.append_assoc]
      exact he
    rcases append_cons_eq_block hline he' with ⟨r, hr, -⟩ | ⟨l, hl, -⟩
    · -- the specifier ends in a quote, so the semicolon stands behind it
      rcases List.eq_nil_or_concat r with rfl | ⟨r, c, rfl⟩
      · have hlast := congrArg List.getLast? hr
        simp only [Quoted.text, List.nil_append, List.append_nil, List.getLast?_concat,
          ← List.cons_append] at hlast
        exact hquote.1 (Option.some.inj hlast).symm
      · rw [List.concat_eq_append, ← List.append_assoc] at hr
        obtain ⟨rfl, -⟩ := List.append_inj' hr rfl
        have hsome : quotedSpecifier? (q.text ++ r) = some (q.chars, r) :=
          quotedSpecifier?_eq_some.mpr ⟨q, rfl, rfl⟩
        rw [List.nil_append, hsome] at hcs
        cases hcs
    · simp at hl

/-! ### Clauses and spans -/

/-- **What stands behind a clause is read in front of the parting.** -/
theorem tail?_parting (cs b : List Char) :
    tail? (cs ++ parting b) = (tail? cs).map (carry (parting b)) := by
  have hfrom (cs : List Char) : dropKeyword? ['f', 'r', 'o', 'm'] (cs ++ parting b) =
      (dropKeyword? ['f', 'r', 'o', 'm'] cs).map (· ++ parting b) :=
    dropKeyword?_append (by decide) cs ('\n' :: b)
  unfold tail?
  simp only [Option.bind_eq_bind, dropBlanks?_parting, hfrom, quotedSpecifier?_parting,
    Option.bind_map, Option.map_bind, Function.comp_def]

theorem startsInWord_parting (cs b : List Char) :
    startsInWord (cs ++ parting b) = startsInWord cs := by
  cases cs with
  | nil =>
    show isWordChar ';' = false
    decide
  | cons c cs => rfl

/-- The keywords that start a statement stand where they stand without the parting. -/
theorem startsStatement_parting (w : Bool) (cs b : List Char) :
    startsStatement w (cs ++ parting b) = startsStatement w cs := by
  rw [Bool.eq_iff_iff, startsStatement_eq_true, startsStatement_eq_true]
  refine and_congr_right fun _ => exists_congr fun keyword => and_congr_right fun hk => ?_
  have hstop : ';' ∉ keyword := by
    simp only [List.mem_cons, List.not_mem_nil, or_false] at hk
    rcases hk with rfl | rfl <;> decide
  constructor
  · rintro ⟨rest, he, hrest⟩
    have he' : cs ++ ';' :: '\n' :: b = [] ++ keyword ++ rest := he
    rcases append_cons_eq_block hstop he' with ⟨r, hr, rfl⟩ | ⟨l, hl, -⟩
    · exact ⟨r, hr, startsInWord_parting r b ▸ hrest⟩
    · simp at hl
  · rintro ⟨rest, rfl, hrest⟩
    exact ⟨rest ++ parting b, List.append_assoc .., startsInWord_parting rest b ▸ hrest⟩

/-- **A clause is found in front of the parting**, or not at all. -/
theorem clause?_parting (w : Bool) (cs b : List Char) :
    clause? w (cs ++ parting b) = (clause? w cs).map (carry (parting b)) := by
  induction cs generalizing w with
  | nil =>
    -- the search stops at the semicolon
    show clause? w (';' :: '\n' :: b) = none
    rw [clause?_cons (tail?_cons_of_not_blank (by decide)), if_pos (Or.inl rfl)]
  | cons c cs ih =>
    have htail := tail?_parting (c :: cs) b
    cases ht : tail? (c :: cs) with
    | some found =>
      rw [ht, Option.map_some] at htail
      rw [clause?_of_tail? htail, clause?_of_tail? ht, Option.map_some]
    | none =>
      rw [ht, Option.map_none] at htail
      have hs := startsStatement_parting w (c :: cs) b
      rw [List.cons_append] at htail hs ⊢
      rw [clause?_cons htail, clause?_cons ht, hs, ih]
      split
      · rfl
      · rfl

theorem span?_parting (cs b : List Char) :
    span? (cs ++ parting b) = (span? cs).map (carry (parting b)) := by
  obtain ⟨gap, body, rfl, hgap, hbody⟩ := exists_blanks_append cs
  cases gap with
  | nil =>
    cases body with
    | nil => exact span?_of_not_blank (by decide)
    | cons c body =>
      have hc : isBlank c = false := hbody c rfl
      rw [List.nil_append, List.cons_append, span?_of_not_blank hc, span?_of_not_blank hc]
      rfl
  | cons g gap =>
    let blanks : Blanks := ⟨g :: gap, by simp, hgap⟩
    have hhead : ∀ c ∈ (body ++ parting b).head?, isBlank c = false := by
      cases body with
      | nil =>
        intro c hc
        obtain rfl := Option.some.inj hc
        decide
      | cons c body => exact hbody
    have hfront := span?_append blanks hbody
    have hboth := span?_append blanks hhead
    rw [← List.append_assoc blanks.chars, ← List.append_assoc blanks.chars.tail, clause?_parting,
      tail?_parting, ← Option.map_or, ← hfront] at hboth
    exact hboth

/-- **A span that starts in front of the parting ends there.** -/
theorem spanAt?_parting (w : Bool) (cs b : List Char) :
    spanAt? w (cs ++ parting b) = (spanAt? w cs).map (carry (parting b)) := by
  cases w with
  | true => rfl
  | false =>
    have himport : dropKeyword? importWord (cs ++ parting b) =
        (dropKeyword? importWord cs).map (· ++ parting b) :=
      dropKeyword?_append (by decide) cs ('\n' :: b)
    rw [spanAt?_false, spanAt?_false, himport, Option.bind_map, Option.map_bind]
    exact congrArg _ (funext fun body => span?_parting body b)

/-! ### Reading a text -/

theorem specifiersFrom_parting (w : Bool) (cs b : List Char) :
    specifiersFrom w (cs ++ parting b) = specifiersFrom w cs ++ specifiersFrom false b := by
  fun_induction specifiersFrom w cs with
  | case1 w cs spec after hspan ih =>
    have hboth := spanAt?_parting w cs b
    rw [hspan, Option.map_some] at hboth
    rw [specifiersFrom_of_spanAt? hboth, ih, List.cons_append]
  | case2 w hspan => exact specifiersFrom_ending w .semicolon b
  | case3 w c cs hspan ih =>
    have hboth := spanAt?_parting w (c :: cs) b
    rw [hspan, Option.map_none] at hboth
    rw [List.cons_append] at hboth ⊢
    rw [specifiersFrom_cons hboth, ih]

/-- **The specifiers of two statements are those of one and of the other**, whatever the two texts
hold: an import that is not ended, an open quote, a comment. -/
theorem specifiers_append (a b : String) :
    specifiers (a ++ ";\n" ++ b) = specifiers a ++ specifiers b := by
  have htext : (a ++ ";\n" ++ b).toList = a.toList ++ parting b.toList := by
    simp [parting]
  rw [specifiers, htext, specifiersFrom_parting, List.map_append]
  rfl

example : specifiers "import a from 'x;\nimport b from 'y'" = ["y"] := by cbv

end Unimported.Import
