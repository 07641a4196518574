/-!
# Markup

A line of the report is marked up: a bracket that opens with a lower-case letter, `#`, `/` or `@`
and runs to the next closing bracket, with no other opening bracket between, is a tag.  Tags set
the style and print nothing.  Backslashes before a tag come in pairs, each of which prints one; an
odd one makes the tag print as it stands.  Text that comes from outside is *escaped* before it is
put into a line, so that it has no tags.

## Main definitions

* `Markup.Token`, `Markup.tokens` — a text cut into tags and other characters.
* `Markup.escape` — a text from outside, made safe.
* `Markup.renderBy`, `Markup.render` — what a marked-up line prints.
-/

namespace Unimported.Report.Markup

/-- A piece of marked-up text. -/
inductive Token where
  /-- A character outside of tags. -/
  | char (c : Char) : Token
  /-- A tag with the number of backslashes before it; the brackets are left out. -/
  | tag (backslashes : Nat) (body : List Char) : Token
  deriving DecidableEq, Repr

/-- Whether a bracket that opens with this character can be a tag. -/
def opensTag (c : Char) : Bool := ('a' ≤ c && c ≤ 'z') || c = '#' || c = '/' || c = '@'

/-- The body of the tag whose opening bracket stands just before, and the text after the tag. -/
def tagBody? : List Char → Option (List Char × List Char)
  | [] => none
  | c :: cs =>
      if opensTag c then
        match cs.dropWhile fun x => x != ']' && x != '[' with
        | ']' :: rest => some (c :: cs.takeWhile (fun x => x != ']' && x != '['), rest)
        | _ => none
      else none

theorem length_tagBody?_lt {cs body rest : List Char} (h : tagBody? cs = some (body, rest)) :
    rest.length < cs.length := by
  cases cs with
  | nil => simp [tagBody?] at h
  | cons c cs =>
    simp only [tagBody?] at h
    split at h
    · split at h
      · rename_i hd
        cases h
        have := (List.dropWhile_sublist (l := cs) fun x => x != ']' && x != '[').length_le
        rw [hd] at this
        simp only [List.length_cons] at this ⊢
        omega
      · cases h
    · cases h

/-- Cut a text into tags and other characters, after so many backslashes. -/
def tokensFrom (backslashes : Nat) (cs : List Char) : List Token :=
  match cs with
  | [] => List.replicate backslashes (.char '\\')
  | c :: rest =>
      if c = '\\' then tokensFrom (backslashes + 1) rest
      else if c = '[' then
        match _h : tagBody? rest with
        | some (body, after) => .tag backslashes body :: tokensFrom 0 after
        | none => List.replicate backslashes (.char '\\') ++ .char c :: tokensFrom 0 rest
      else List.replicate backslashes (.char '\\') ++ .char c :: tokensFrom 0 rest
termination_by cs.length
decreasing_by
  · simp
  · have := length_tagBody?_lt _h
    simp only [List.length_cons]
    omega
  · simp
  · simp

/-- Cut a text into tags and other characters. -/
def tokens (cs : List Char) : List Token := tokensFrom 0 cs

/-- So many backslashes. -/
def backslashes (n : Nat) : List Char := List.replicate n '\\'

/-- A token of a text from outside: a tag gets twice its backslashes and one more. -/
def escapeToken : Token → List Char
  | .char c => [c]
  | .tag n body => backslashes (2 * n + 1) ++ '[' :: body ++ [']']

/-- A text whose last character is a backslash that stands alone gets another one, so that it
does not reach into what follows. -/
def closeBackslash (cs : List Char) : List Char :=
  match cs.reverse with
  | '\\' :: '\\' :: _ => cs
  | '\\' :: _ => cs ++ ['\\']
  | _ => cs

/-- A text from outside, made safe to be put into a line. -/
def escape (cs : List Char) : List Char := closeBackslash ((tokens cs).flatMap escapeToken)

/-- A text between tags: a backslash before an opening bracket is dropped. -/
def unescapeBrackets : List Char → List Char
  | [] => []
  | '\\' :: '[' :: cs => '[' :: unescapeBrackets cs
  | c :: cs => c :: unescapeBrackets cs

/-- What tokens print, after the characters read since the last tag.  `say` tells how a text
between tags, or a tag that prints as it stands, is put down. -/
def printTokens (say : List Char → List Char) (run : List Char) : List Token → List Char
  | [] => say (unescapeBrackets run)
  | .char c :: ts => printTokens say (run ++ [c]) ts
  | .tag n body :: ts =>
      say (unescapeBrackets run) ++ backslashes (n / 2) ++
        (if n % 2 = 1 then say ('[' :: body ++ [']']) else []) ++ printTokens say [] ts

/-- What a marked-up line prints where texts are put down by `say`.  A line without an opening
bracket is one text. -/
def renderBy (say : List Char → List Char) (cs : List Char) : List Char :=
  if cs.contains '[' then printTokens say [] (tokens cs) else say cs

/-- What a marked-up line prints where texts are put down as they stand. -/
def render (cs : List Char) : List Char := renderBy id cs

end Unimported.Report.Markup
