import Unimported.Text.Blank
import Unimported.Text.WordChar

/-!
# Import spans

An *import span* of a text is the word `import`, blanks, a clause, blanks, the word `from`, blanks
and a specifier between two equal quotes.  The clause may cross lines, but it holds no semicolon
and no whole word `import` or `export`; the specifier is not empty and holds neither a quote nor a
line feed.  This is a reading of the text alone: spans inside comments and strings count, and
imports that are written otherwise do not.

Spans are taken from left to right and do not overlap.  From one start the clause begins at the
first character that is not blank and ends as early as it can; where no clause is found there, the
blanks after `import` may serve on both sides of an empty one.

## Main definitions

* `Import.tail?` — the part of a span after its clause.
* `Import.clause?` — the clause and what follows it.
* `Import.span?`, `Import.spanAt?` — the part of a span after the word `import`; the whole span.
* `Import.specifiers` — the specifiers of a text, in order.
-/

namespace Unimported.Import

open Text (isBlank isWordChar)

/-- Drop a keyword from the front of a text. -/
def dropKeyword? (keyword : List Char) (cs : List Char) : Option (List Char) :=
  if keyword.isPrefixOf cs then some (cs.drop keyword.length) else none

/-- Drop blanks from the front of a text; there must be one. -/
def dropBlanks? : List Char → Option (List Char)
  | [] => none
  | c :: cs => if isBlank c then some (cs.dropWhile isBlank) else none

/-- Whether a character may stand in a specifier. -/
def isSpecifierChar (c : Char) : Bool := c != '\'' && c != '"' && c != '\n'

/-- A quoted specifier, and the text after its closing quote. -/
def quotedSpecifier? : List Char → Option (List Char × List Char)
  | [] => none
  | quote :: cs =>
      if quote = '\'' ∨ quote = '"' then
        match cs.takeWhile isSpecifierChar, cs.dropWhile isSpecifierChar with
        | s :: ss, close :: rest => if close = quote then some (s :: ss, rest) else none
        | _, _ => none
      else none

/-- Blanks, the word `from`, blanks and a quoted specifier. -/
def tail? (cs : List Char) : Option (List Char × List Char) := do
  let cs ← dropBlanks? cs
  let cs ← dropKeyword? ['f', 'r', 'o', 'm'] cs
  let cs ← dropBlanks? cs
  quotedSpecifier? cs

/-- Whether a whole word `import` or `export` starts here; `inWord` tells whether the character
before belongs to a word. -/
def startsStatement (inWord : Bool) (cs : List Char) : Bool :=
  !inWord && [['i', 'm', 'p', 'o', 'r', 't'], ['e', 'x', 'p', 'o', 'r', 't']].any fun keyword =>
    match dropKeyword? keyword cs with
    | none => false
    | some [] => true
    | some (c :: _) => !isWordChar c

/-- The clause and what follows: the specifier, and the text after it. -/
def clause? (inWord : Bool) (cs : List Char) : Option (List Char × List Char) :=
  match tail? cs with
  | some found => some found
  | none =>
      match cs with
      | [] => none
      | c :: rest =>
          if c = ';' ∨ startsStatement inWord (c :: rest) then none
          else clause? (isWordChar c) rest

/-- The part of a span after the word `import`: the specifier, and the text after it. -/
def span? (cs : List Char) : Option (List Char × List Char) :=
  match cs.takeWhile isBlank, cs.dropWhile isBlank with
  | [], _ => none
  | [_], body => clause? false body
  | _ :: blanks, body =>
      match clause? false body with
      | some found => some found
      | none => tail? (blanks ++ body)

/-! ### Each step leaves a shorter text -/

theorem length_dropKeyword?_le {keyword cs rest : List Char}
    (h : dropKeyword? keyword cs = some rest) : rest.length ≤ cs.length := by
  unfold dropKeyword? at h
  split at h
  · cases h; simp
  · cases h

theorem length_dropWhile_le (p : Char → Bool) (cs : List Char) :
    (cs.dropWhile p).length ≤ cs.length :=
  (List.dropWhile_sublist p).length_le

theorem length_dropBlanks?_lt {cs rest : List Char} (h : dropBlanks? cs = some rest) :
    rest.length < cs.length := by
  cases cs with
  | nil => simp [dropBlanks?] at h
  | cons c cs =>
    simp only [dropBlanks?] at h
    split at h
    · cases h
      exact Nat.lt_succ_of_le (length_dropWhile_le _ _)
    · cases h

theorem length_quotedSpecifier?_lt {cs spec rest : List Char}
    (h : quotedSpecifier? cs = some (spec, rest)) : rest.length < cs.length := by
  cases cs with
  | nil => simp [quotedSpecifier?] at h
  | cons q cs =>
    simp only [quotedSpecifier?] at h
    split at h
    · split at h
      · rename_i hd
        split at h
        · cases h
          have := length_dropWhile_le isSpecifierChar cs
          rw [hd] at this
          simp only [List.length_cons] at this ⊢
          omega
        · cases h
      · cases h
    · cases h

theorem length_tail?_lt {cs spec rest : List Char} (h : tail? cs = some (spec, rest)) :
    rest.length < cs.length := by
  simp only [tail?, Option.bind_eq_bind, Option.bind_eq_some_iff] at h
  obtain ⟨c₁, h₁, c₂, h₂, c₃, h₃, h₄⟩ := h
  have := length_dropBlanks?_lt h₁
  have := length_dropKeyword?_le h₂
  have := length_dropBlanks?_lt h₃
  have := length_quotedSpecifier?_lt h₄
  omega

theorem length_clause?_lt {inWord : Bool} {cs spec rest : List Char}
    (h : clause? inWord cs = some (spec, rest)) : rest.length < cs.length := by
  fun_induction clause? inWord cs with
  | case1 _ _ _ ht => cases h; exact length_tail?_lt ht
  | case2 => cases h
  | case3 => cases h
  | case4 _ c cs _ _ ih => exact Nat.lt_succ_of_lt (ih h)

theorem length_span?_lt {cs spec rest : List Char} (h : span? cs = some (spec, rest)) :
    rest.length < cs.length := by
  have hlen : (cs.takeWhile isBlank).length + (cs.dropWhile isBlank).length = cs.length := by
    rw [← List.length_append, List.takeWhile_append_dropWhile]
  unfold span? at h
  generalize cs.takeWhile isBlank = blanks at h hlen
  generalize cs.dropWhile isBlank = body at h hlen
  match blanks, h with
  | [_], h =>
    have := length_clause?_lt h
    simp only [List.length_cons, List.length_nil] at hlen
    omega
  | _ :: b :: bs, h =>
    simp only [List.length_cons] at hlen
    simp only at h
    split at h
    · rename_i hc
      cases h
      have := length_clause?_lt hc
      omega
    · have := length_tail?_lt h
      simp only [List.length_append, List.length_cons] at this
      omega

/-- The span that starts at the front of a text: the specifier, and the text after it. -/
def spanAt? (inWord : Bool) (cs : List Char) : Option (List Char × List Char) :=
  if inWord then none else (dropKeyword? ['i', 'm', 'p', 'o', 'r', 't'] cs).bind span?

theorem length_spanAt?_lt {inWord : Bool} {cs spec rest : List Char}
    (h : spanAt? inWord cs = some (spec, rest)) : rest.length < cs.length := by
  unfold spanAt? at h
  split at h
  · cases h
  · obtain ⟨body, hb, hs⟩ := Option.bind_eq_some_iff.1 h
    exact Nat.lt_of_lt_of_le (length_span?_lt hs) (length_dropKeyword?_le hb)

/-! ### Reading a text -/

/-- The specifiers of a text; `inWord` tells whether the character before belongs to a word. -/
def specifiersFrom (inWord : Bool) (cs : List Char) : List (List Char) :=
  match _h : spanAt? inWord cs with
  | some (specifier, after) => specifier :: specifiersFrom false after
  | none =>
      match cs with
      | [] => []
      | c :: rest => specifiersFrom (isWordChar c) rest
termination_by cs.length
decreasing_by
  · exact length_spanAt?_lt _h
  · simp

/-- The specifiers of the import spans of a text, in order. -/
def specifiers (text : String) : List String :=
  (specifiersFrom false text.toList).map String.ofList

example : specifiers "import a from 'x'; import  from \"y\"\n" = ["x", "y"] := by cbv

end Unimported.Import
