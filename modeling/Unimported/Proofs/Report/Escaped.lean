import Unimported.Report.Template

/-!
# Marked-up lines print what they say

A text from outside is escaped by itself, but the line that it is put into is cut into tags as a
whole, so a bracket in the text might be closed outside of it.  This cannot happen if a text from
outside stands at the end of its line or before a change of style: the opening bracket of the style
ends every attempt to read a tag.  Texts with backslashes are left out, because a backslash counts
when a bracket comes to stand behind it.

## Main definitions

* `Markup.isTag` — what may stand between the brackets of a tag.
* `Markup.reading`, `Markup.styles` — what the tokens of a text print, and the styles they set.
* `Report.Line.WellMarked` — each text from outside stands at the end of its line or before a style.

## Main results

* `Markup.Plain.tokens_escape_append` — an escaped text is cut as it would be cut alone.
* `Markup.reading_escape_append` — **an escaped text prints as it stands.**
* `Report.Line.WellMarked.styles_markup` — **a marked-up line sets the styles it is made of.**
* `Report.Line.WellMarked.render_markup` — **a marked-up line prints what it says.**
-/

namespace Unimported.Report

namespace Markup

variable {c : Char} {cs body rest after run : List Char} {n : Nat} {ts : List Token}

/-! ### Cutting a text -/

/-- Whether a character is no bracket. -/
def isInner (c : Char) : Bool := c != ']' && c != '['

/-- Whether a text can stand between the brackets of a tag: it starts with a character that opens
tags, and holds no bracket. -/
def isTag : List Char → Bool
  | [] => false
  | c :: cs => opensTag c && cs.all isInner

theorem isInner_of_opensTag (h : opensTag c = true) : isInner c = true := by
  unfold isInner
  rw [Bool.and_eq_true, bne_iff_ne, bne_iff_ne]
  refine ⟨?_, ?_⟩
  · rintro rfl
    exact absurd h (by decide)
  · rintro rfl
    exact absurd h (by decide)

theorem isInner_of_isTag (h : isTag body = true) : ∀ x ∈ body, isInner x = true := by
  intro x hx
  cases body with
  | nil => cases h
  | cons c cs =>
    obtain ⟨hc, hcs⟩ := Bool.and_eq_true_iff.mp h
    rcases List.mem_cons.mp hx with rfl | hx
    · exact isInner_of_opensTag hc
    · exact List.all_eq_true.mp hcs x hx

/-- **A tag stands behind an opening bracket** just when its body and a closing bracket do. -/
theorem tagBody?_eq_some :
    tagBody? cs = some (body, rest) ↔ isTag body = true ∧ cs = body ++ ']' :: rest := by
  constructor
  · intro h
    cases cs with
    | nil => cases h
    | cons c cs =>
      simp only [tagBody?] at h
      split at h
      · next hc =>
        split at h
        · next hdrop =>
          obtain ⟨rfl, rfl⟩ := Prod.mk.inj (Option.some.inj h)
          refine ⟨Bool.and_eq_true_iff.mpr ⟨hc, List.all_takeWhile⟩, ?_⟩
          rw [List.cons_append, ← hdrop, List.takeWhile_append_dropWhile]
        · cases h
      · cases h
  · rintro ⟨htag, rfl⟩
    cases body with
    | nil => cases htag
    | cons c body =>
      obtain ⟨hc, hbody⟩ := Bool.and_eq_true_iff.mp htag
      have hinner : ∀ x ∈ body, (x != ']' && x != '[') = true := List.all_eq_true.mp hbody
      have htake : (body ++ ']' :: rest).takeWhile (fun x => x != ']' && x != '[') = body := by
        rw [List.takeWhile_append_of_pos (p := fun x => x != ']' && x != '[') hinner,
          List.takeWhile_cons_of_neg (by decide), List.append_nil]
      have hdrop : (body ++ ']' :: rest).dropWhile (fun x => x != ']' && x != '[') = ']' :: rest := by
        rw [List.dropWhile_append_of_pos (p := fun x => x != ']' && x != '[') hinner,
          List.dropWhile_cons_of_neg (by decide)]
      unfold tagBody?
      rw [List.cons_append]
      simp only [hc, if_true, hdrop, htake]

@[simp] theorem tokensFrom_nil : tokensFrom 0 [] = [] := by
  rw [tokensFrom.eq_def]
  rfl

/-- A character that opens no tag is cut off by itself. -/
theorem tokensFrom_char (hc : c ≠ '\\') (hopen : c = '[' → tagBody? cs = none) :
    tokensFrom 0 (c :: cs) = .char c :: tokensFrom 0 cs := by
  rw [tokensFrom.eq_def]
  simp only [hc, if_false]
  by_cases h : c = '['
  · subst h
    simp only [if_true]
    split
    · next htag =>
      rw [hopen rfl] at htag
      cases htag
    · rfl
  · simp only [h, if_false]
    rfl

/-- A tag is cut off with the backslashes before it. -/
theorem tokensFrom_tag (h : isTag body = true) :
    tokensFrom n ('[' :: (body ++ ']' :: cs)) = .tag n body :: tokensFrom 0 cs := by
  have htag : tagBody? (body ++ ']' :: cs) = some (body, cs) := tagBody?_eq_some.mpr ⟨h, rfl⟩
  rw [tokensFrom.eq_def]
  simp only [if_true, show ('[' : Char) ≠ '\\' by decide, if_false]
  split
  · next hfound =>
    rw [htag] at hfound
    obtain ⟨rfl, rfl⟩ := Prod.mk.inj (Option.some.inj hfound)
    rfl
  · next hnone =>
    rw [htag] at hnone
    cases hnone

theorem tokensFrom_backslash : tokensFrom n ('\\' :: cs) = tokensFrom (n + 1) cs := by
  rw [tokensFrom.eq_def]
  simp only [if_true]

/-- Texts without backslashes, as they are cut: into characters that open no tag, and tags. -/
inductive Plain : List Char → Prop where
  /-- The empty text. -/
  | nil : Plain []
  /-- A character that opens no tag. -/
  | char {c : Char} {cs : List Char} : c ≠ '\\' → (c = '[' → tagBody? cs = none) → Plain cs →
      Plain (c :: cs)
  /-- A tag. -/
  | tag {body cs : List Char} : isTag body = true → Plain cs → Plain ('[' :: (body ++ ']' :: cs))

theorem plain_of_not_mem (h : '\\' ∉ cs) : Plain cs := by
  induction hlen : cs.length using Nat.strongRecOn generalizing cs with
  | ind k ih =>
    cases cs with
    | nil => exact .nil
    | cons c cs =>
      rw [List.length_cons] at hlen
      obtain ⟨hc, hcs⟩ := not_or.mp (mt List.mem_cons.mpr h)
      have hrest : Plain cs := ih cs.length (by omega) hcs rfl
      cases htag : tagBody? cs with
      | none => exact .char (Ne.symm hc) (fun _ => htag) hrest
      | some found =>
        obtain ⟨body, after⟩ := found
        by_cases hopen : c = '['
        · -- the text goes on behind the tag, where it is shorter
          obtain ⟨hbody, rfl⟩ := tagBody?_eq_some.mp htag
          have hafter : '\\' ∉ after := fun hmem =>
            hcs (List.mem_append_right body (List.mem_cons_of_mem _ hmem))
          have hlt : after.length < k := by
            rw [List.length_append, List.length_cons] at hlen
            omega
          exact hopen ▸ .tag hbody (ih after.length hlt hafter rfl)
        · exact .char (Ne.symm hc) (fun he => absurd he hopen) hrest

/-! ### Cutting an escaped text -/

/-- The token that an escaped token is read as. -/
def escaped : Token → Token
  | .char c => .char c
  | .tag n body => .tag (2 * n + 1) body

/-- A text with all its tags escaped. -/
def shield (cs : List Char) : List Char := (tokens cs).flatMap escapeToken

@[simp] theorem shield_nil : shield [] = [] := by
  rw [shield, tokens, tokensFrom_nil, List.flatMap_nil]

theorem shield_char (hc : c ≠ '\\') (hopen : c = '[' → tagBody? cs = none) :
    shield (c :: cs) = c :: shield cs := by
  rw [shield, tokens, tokensFrom_char hc hopen, List.flatMap_cons]
  rfl

theorem shield_tag (h : isTag body = true) :
    shield ('[' :: (body ++ ']' :: cs)) = '\\' :: '[' :: (body ++ ']' :: shield cs) := by
  rw [shield, tokens, tokensFrom_tag h, List.flatMap_cons]
  show '\\' :: '[' :: (body ++ [']']) ++ shield cs = _
  simp

theorem closeBackslash_of_getLast? (h : cs.getLast? ≠ some '\\') : closeBackslash cs = cs := by
  unfold closeBackslash
  rw [List.getLast?_eq_head?_reverse] at h
  cases hrev : cs.reverse with
  | nil => rfl
  | cons c r =>
    rw [hrev, List.head?_cons] at h
    have hc : c ≠ '\\' := fun he => h (congrArg some he)
    split
    · next he => exact absurd (List.cons.inj he).1 hc
    · next he => exact absurd (List.cons.inj he).1 hc
    · rfl

/-- A text without backslashes that is escaped ends in none. -/
theorem Plain.getLast?_shield (h : Plain cs) : (shield cs).getLast? ≠ some '\\' := by
  induction h with
  | nil =>
    rw [shield_nil]
    exact fun he => by cases he
  | @char c cs hc hopen _ ih =>
    rw [shield_char hc hopen]
    cases hs : shield cs with
    | nil => exact fun he => hc (Option.some.inj he)
    | cons d ds =>
      rw [hs] at ih
      rwa [List.getLast?_cons_cons]
  | @tag body cs hbody _ ih =>
    have hfront : '\\' :: '[' :: (body ++ ']' :: shield cs) =
        ('\\' :: '[' :: (body ++ [']'])) ++ shield cs := by simp
    rw [shield_tag hbody, hfront, List.getLast?_append]
    cases hs : (shield cs).getLast? with
    | none =>
      have hlast : ('\\' :: '[' :: (body ++ [']'])).getLast? = some ']' := by
        rw [← List.cons_append, ← List.cons_append, List.getLast?_append]
        rfl
      rw [hlast]
      exact fun he => absurd (Option.some.inj he) (by decide)
    | some d => exact fun he => ih (hs.trans he)

theorem Plain.escape_eq_shield (h : Plain cs) : escape cs = shield cs :=
  closeBackslash_of_getLast? h.getLast?_shield

/-- What stands before the first bracket of an escaped text stood there before, if the bracket is a
closing one; behind the text comes nothing, or an opening bracket. -/
theorem Plain.eq_append_of_shield_append (h : Plain cs) (hrest : ∀ x ∈ rest.head?, x = '[')
    (hbody : ∀ x ∈ body, isInner x = true) (heq : shield cs ++ rest = body ++ ']' :: after) :
    ∃ after', cs = body ++ ']' :: after' := by
  induction h generalizing body with
  | nil =>
    rw [shield_nil, List.nil_append] at heq
    subst heq
    cases body with
    | nil => exact absurd (hrest ']' rfl) (by decide)
    | cons x body =>
      obtain rfl := hrest x rfl
      exact absurd (hbody '[' List.mem_cons_self) (by decide)
  | @char c cs hc hopen _ ih =>
    rw [shield_char hc hopen, List.cons_append] at heq
    cases body with
    | nil => exact ⟨cs, congrArg (· :: cs) (List.cons.inj heq).1⟩
    | cons x body =>
      obtain ⟨rfl, hmore⟩ := List.cons.inj heq
      obtain ⟨after', rfl⟩ := ih (fun y hy => hbody y (List.mem_cons_of_mem c hy)) hmore
      exact ⟨after', rfl⟩
  | tag htag _ _ =>
    -- the first bracket of an escaped tag is its opening one
    rw [shield_tag htag, List.cons_append, List.cons_append] at heq
    cases body with
    | nil => exact absurd (List.cons.inj heq).1 (by decide)
    | cons x body =>
      have heq := (List.cons.inj heq).2
      cases body with
      | nil => exact absurd (List.cons.inj heq).1 (by decide)
      | cons y body =>
        obtain rfl := (List.cons.inj heq).1
        exact absurd (hbody '[' (List.mem_cons_of_mem x List.mem_cons_self)) (by decide)

/-- A bracket that opens no tag opens none either when the text behind it is escaped. -/
theorem Plain.tagBody?_shield_append (h : Plain cs) (hrest : ∀ x ∈ rest.head?, x = '[')
    (hnone : tagBody? cs = none) : tagBody? (shield cs ++ rest) = none := by
  cases hfound : tagBody? (shield cs ++ rest) with
  | none => rfl
  | some found =>
    obtain ⟨body, after⟩ := found
    obtain ⟨htag, heq⟩ := tagBody?_eq_some.mp hfound
    obtain ⟨after', rfl⟩ := h.eq_append_of_shield_append hrest (isInner_of_isTag htag) heq
    rw [tagBody?_eq_some.mpr ⟨htag, rfl⟩] at hnone
    cases hnone

/-- **An escaped text is cut as it would be cut alone**, with nothing or an opening bracket behind
it. -/
theorem Plain.tokens_escape_append (h : Plain cs) (hrest : ∀ x ∈ rest.head?, x = '[') :
    tokens (escape cs ++ rest) = (tokens cs).map escaped ++ tokens rest := by
  rw [h.escape_eq_shield]
  unfold tokens
  induction h with
  | nil =>
    rw [shield_nil, tokensFrom_nil]
    rfl
  | @char c cs hc hopen hcs ih =>
    have hopen' : c = '[' → tagBody? (shield cs ++ rest) = none := fun hb =>
      hcs.tagBody?_shield_append hrest (hopen hb)
    rw [shield_char hc hopen, List.cons_append, tokensFrom_char hc hopen', ih,
      tokensFrom_char hc hopen]
    rfl
  | @tag body cs hbody _ ih =>
    rw [shield_tag hbody, tokensFrom_tag hbody]
    simp only [List.cons_append, List.append_assoc]
    rw [tokensFrom_backslash, tokensFrom_tag hbody, ih]
    rfl

/-! ### Printing tokens -/

theorem unescapeBrackets_append (h : '\\' ∉ run) (cs : List Char) :
    unescapeBrackets (run ++ cs) = run ++ unescapeBrackets cs := by
  induction run with
  | nil => rfl
  | cons c run ih =>
    obtain ⟨hc, hrun⟩ := not_or.mp (mt List.mem_cons.mpr h)
    have hstep : unescapeBrackets (c :: (run ++ cs)) = c :: unescapeBrackets (run ++ cs) :=
      unescapeBrackets.eq_3 c (run ++ cs) fun _ he _ => hc he.symm
    rw [List.cons_append, hstep, ih hrun]
    rfl

/-- Characters other than backslashes are printed at once. -/
theorem printTokens_append (h : '\\' ∉ run) (cs : List Char) (ts : List Token) :
    printTokens id (run ++ cs) ts = run ++ printTokens id cs ts := by
  induction ts generalizing cs with
  | nil => exact unescapeBrackets_append h cs
  | cons t ts ih =>
    cases t with
    | char c =>
      show printTokens id (run ++ cs ++ [c]) ts = run ++ printTokens id (cs ++ [c]) ts
      rw [List.append_assoc, ih]
    | tag n body =>
      show unescapeBrackets (run ++ cs) ++ _ ++ _ ++ _ = run ++ (unescapeBrackets cs ++ _ ++ _ ++ _)
      rw [unescapeBrackets_append h]
      simp only [List.append_assoc]

theorem printTokens_char (hc : c ≠ '\\') :
    printTokens id [] (.char c :: ts) = c :: printTokens id [] ts :=
  have hrun : '\\' ∉ [c] := fun h => hc (List.mem_singleton.mp h).symm
  printTokens_append hrun [] ts

/-- **Escaped tokens print the text** that they were cut from. -/
theorem Plain.printTokens_escaped (h : Plain cs) (ts : List Token) :
    printTokens id [] ((tokens cs).map escaped ++ ts) = cs ++ printTokens id [] ts := by
  unfold tokens
  induction h with
  | nil =>
    rw [tokensFrom_nil]
    rfl
  | @char c cs hc hopen _ ih =>
    rw [tokensFrom_char hc hopen, List.map_cons, List.cons_append]
    show printTokens id [] (.char c :: _) = c :: (cs ++ printTokens id [] ts)
    rw [printTokens_char hc, ih]
  | @tag body cs hbody _ ih =>
    rw [tokensFrom_tag hbody, List.map_cons, List.cons_append]
    show '[' :: (body ++ [']']) ++ printTokens id [] ((tokensFrom 0 cs).map escaped ++ ts) = _
    rw [ih]
    simp

/-- What the tokens of a text print. -/
def reading (cs : List Char) : List Char := printTokens id [] (tokens cs)

@[simp] theorem reading_nil : reading [] = [] := by
  rw [reading, tokens, tokensFrom_nil]
  rfl

/-- **An escaped text prints as it stands**, with nothing or an opening bracket behind it. -/
theorem reading_escape_append (hrest : ∀ x ∈ rest.head?, x = '[') (h : '\\' ∉ cs) :
    reading (escape cs ++ rest) = cs ++ reading rest := by
  have hplain := plain_of_not_mem h
  rw [reading, hplain.tokens_escape_append hrest, hplain.printTokens_escaped]
  rfl

/-- A tag prints nothing. -/
theorem reading_tag_append (h : isTag body = true) (rest : List Char) :
    reading ('[' :: (body ++ ']' :: rest)) = reading rest := by
  rw [reading, tokens, tokensFrom_tag h]
  rfl

/-- A text without opening brackets and backslashes prints as it stands. -/
theorem reading_append (hopen : '[' ∉ cs) (h : '\\' ∉ cs) (rest : List Char) :
    reading (cs ++ rest) = cs ++ reading rest := by
  induction cs with
  | nil => rfl
  | cons c cs ih =>
    obtain ⟨hc, hcs⟩ := not_or.mp (mt List.mem_cons.mpr h)
    obtain ⟨hbracket, hopen⟩ := not_or.mp (mt List.mem_cons.mpr hopen)
    rw [List.cons_append, reading, tokens,
      tokensFrom_char (Ne.symm hc) fun he => absurd he.symm hbracket, printTokens_char (Ne.symm hc)]
    exact congrArg (c :: ·) (ih hopen hcs)

/-! ### Styles -/

/-- The style that a token sets; an escaped tag sets none. -/
def Token.style? : Token → Option (List Char)
  | .char _ => none
  | .tag n body => if n % 2 = 1 then none else some body

/-- The styles that the tags of a text set. -/
def styles (cs : List Char) : List (List Char) := (tokens cs).filterMap Token.style?

@[simp] theorem styles_nil : styles [] = [] := by
  rw [styles, tokens, tokensFrom_nil]
  rfl

theorem style?_escaped (t : Token) : (escaped t).style? = none := by
  cases t with
  | char c => rfl
  | tag n body =>
    have hodd : (2 * n + 1) % 2 = 1 := by omega
    show (if (2 * n + 1) % 2 = 1 then none else some body) = none
    rw [if_pos hodd]

/-- **An escaped text sets no style**, with nothing or an opening bracket behind it. -/
theorem styles_escape_append (hrest : ∀ x ∈ rest.head?, x = '[') (h : '\\' ∉ cs) :
    styles (escape cs ++ rest) = styles rest := by
  have hnone : ((tokens cs).map escaped).filterMap Token.style? = [] := by
    apply List.filterMap_eq_nil_iff.mpr
    intro t ht
    obtain ⟨u, -, rfl⟩ := List.mem_map.mp ht
    exact style?_escaped u
  rw [styles, (plain_of_not_mem h).tokens_escape_append hrest, List.filterMap_append, hnone]
  rfl

/-- A tag sets its style. -/
theorem styles_tag_append (h : isTag body = true) (rest : List Char) :
    styles ('[' :: (body ++ ']' :: rest)) = body :: styles rest := by
  rw [styles, tokens, tokensFrom_tag h]
  rfl

/-- A text without opening brackets and backslashes sets no style. -/
theorem styles_append (hopen : '[' ∉ cs) (h : '\\' ∉ cs) (rest : List Char) :
    styles (cs ++ rest) = styles rest := by
  induction cs with
  | nil => rfl
  | cons c cs ih =>
    obtain ⟨hc, hcs⟩ := not_or.mp (mt List.mem_cons.mpr h)
    obtain ⟨hbracket, hopen⟩ := not_or.mp (mt List.mem_cons.mpr hopen)
    rw [List.cons_append, styles, tokens,
      tokensFrom_char (Ne.symm hc) fun he => absurd he.symm hbracket]
    exact ih hopen hcs

/-! ### Rendering -/

/-- Without an opening bracket, escaping adds no backslash. -/
theorem Plain.not_mem_escape (h : Plain cs) (hopen : '[' ∉ escape cs) : '\\' ∉ escape cs := by
  rw [h.escape_eq_shield] at hopen ⊢
  induction h with
  | nil =>
    rw [shield_nil]
    exact List.not_mem_nil
  | char hc hnone _ ih =>
    rw [shield_char hc hnone] at hopen ⊢
    intro hmem
    rcases List.mem_cons.mp hmem with he | hmem
    · exact hc he.symm
    · exact ih (fun hb => hopen (List.mem_cons_of_mem _ hb)) hmem
  | tag hbody _ _ =>
    rw [shield_tag hbody] at hopen
    exact absurd (List.mem_cons_of_mem _ List.mem_cons_self) hopen

/-- A text that holds no backslash unless it holds an opening bracket is rendered by its tokens. -/
theorem render_eq_reading (h : '[' ∉ cs → '\\' ∉ cs) : render cs = reading cs := by
  unfold render renderBy
  split
  · rfl
  · next hopen =>
    have hopen : '[' ∉ cs := fun hmem => hopen (List.contains_iff_mem.mpr hmem)
    have hread := reading_append hopen (h hopen) []
    rw [List.append_nil, reading_nil, List.append_nil] at hread
    exact hread.symm

end Markup

/-! ### Lines -/

namespace Line

open Markup (isTag reading)

/-- A line in which each text from outside stands at the end or before a change of style.  Texts hold
no backslash, and those of the report itself no opening bracket. -/
inductive WellMarked : Line → Prop where
  /-- The empty line. -/
  | nil : WellMarked []
  /-- A change of style. -/
  | style {tag : String} {l : Line} : isTag tag.toList = true → WellMarked l →
      WellMarked (.style tag :: l)
  /-- A text of the report itself. -/
  | fixed {text : String} {l : Line} : '[' ∉ text.toList → '\\' ∉ text.toList → WellMarked l →
      WellMarked (.fixed text :: l)
  /-- A text from outside. -/
  | given {text : String} {l : Line} : '\\' ∉ text.toList → (∀ p ∈ l.head?, ∃ tag, p = .style tag) →
      WellMarked l → WellMarked (.given text :: l)

variable {l : Line}

theorem markup_style_cons (tag : String) (l : Line) :
    markup (.style tag :: l) = '[' :: (tag.toList ++ ']' :: l.markup) := by
  simp [markup, Piece.markup]

/-- What stands behind a text from outside starts with an opening bracket. -/
theorem head?_markup (h : ∀ p ∈ l.head?, ∃ tag, p = .style tag) : ∀ x ∈ l.markup.head?, x = '[' := by
  cases l with
  | nil => exact fun x hx => by cases hx
  | cons p l =>
    obtain ⟨tag, rfl⟩ := h p rfl
    rw [markup_style_cons]
    exact fun x hx => (Option.some.inj hx).symm

/-- The tokens of a line print what the line says. -/
theorem WellMarked.reading_markup (h : WellMarked l) : reading l.markup = l.plain := by
  induction h with
  | nil => exact Markup.reading_nil
  | style htag _ ih => rw [markup_style_cons, Markup.reading_tag_append htag, ih]; rfl
  | @fixed text l hopen hplain _ ih =>
    show reading (text.toList ++ l.markup) = text.toList ++ l.plain
    rw [Markup.reading_append hopen hplain, ih]
  | @given text l hplain hnext _ ih =>
    show reading (Markup.escape text.toList ++ l.markup) = text.toList ++ l.plain
    rw [Markup.reading_escape_append (head?_markup hnext) hplain, ih]

/-- The styles of a line. -/
def styles (l : Line) : List (List Char) :=
  l.filterMap fun
    | .style tag => some tag.toList
    | .fixed _ | .given _ => none

/-- **A marked-up line sets the styles it is made of**, and no other. -/
theorem WellMarked.styles_markup (h : WellMarked l) : Markup.styles l.markup = l.styles := by
  induction h with
  | nil => exact Markup.styles_nil
  | style htag _ ih => rw [markup_style_cons, Markup.styles_tag_append htag, ih]; rfl
  | @fixed text l hopen hplain _ ih =>
    show Markup.styles (text.toList ++ l.markup) = l.styles
    rw [Markup.styles_append hopen hplain, ih]
  | @given text l hplain hnext _ ih =>
    show Markup.styles (Markup.escape text.toList ++ l.markup) = l.styles
    rw [Markup.styles_escape_append (head?_markup hnext) hplain, ih]

/-- A line holds backslashes only where it holds brackets. -/
theorem WellMarked.not_mem_markup (h : WellMarked l) (hopen : '[' ∉ l.markup) : '\\' ∉ l.markup := by
  induction h with
  | nil => exact List.not_mem_nil
  | style _ _ _ =>
    rw [markup_style_cons] at hopen
    exact absurd List.mem_cons_self hopen
  | fixed _ hplain _ ih =>
    obtain ⟨-, hrest⟩ := not_or.mp (mt List.mem_append.mpr hopen)
    exact fun hmem => (List.mem_append.mp hmem).elim hplain (ih hrest)
  | given hplain _ _ ih =>
    obtain ⟨hfirst, hrest⟩ := not_or.mp (mt List.mem_append.mpr hopen)
    exact fun hmem =>
      (List.mem_append.mp hmem).elim ((Markup.plain_of_not_mem hplain).not_mem_escape hfirst) (ih hrest)

/-- **A marked-up line prints what it says.** -/
theorem WellMarked.render_markup (h : WellMarked l) : Markup.render l.markup = l.plain := by
  rw [Markup.render_eq_reading h.not_mem_markup, h.reading_markup]

end Line

end Unimported.Report
