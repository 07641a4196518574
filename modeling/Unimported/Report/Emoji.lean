import Unimported.Text.Blank

/-!
# Emoji

A terminal prints an emoji in the place of its *code*: a name between two colons, without blanks in
it.  The name may end in a variant, `-emoji` or `-text`, which puts a mark behind the emoji that
asks for a picture or for plain type.  A code whose name is not known is left as it stands, and the
colon at its end opens no other.

Which names are known and what they stand for is left to the terminal.

## Main definitions

* `Emoji.Known` — what a terminal knows.
* `Emoji.code?` — the code that a colon opens.
* `Emoji.replace` — a text with its codes replaced.

## Main results

* `Emoji.replace_noneKnown` — where no name is known, a text stays as it is.
-/

namespace Unimported.Report.Emoji

/-- What a terminal knows of emoji: what stands for a name as it is written. -/
abbrev Known := List Char → Option (List Char)

/-- A terminal that knows no emoji. -/
def noneKnown : Known := fun _ => none

/-- The code behind a colon, up to the next colon, and the text after it. -/
def code? (cs : List Char) : Option (List Char × List Char) :=
  match cs.dropWhile fun c => c != ':' && !Text.isBlank c with
  | ':' :: rest => some (cs.takeWhile (fun c => c != ':' && !Text.isBlank c), rest)
  | _ => none

theorem length_code?_lt {cs code rest : List Char} (h : code? cs = some (code, rest)) :
    rest.length < cs.length := by
  unfold code? at h
  split at h
  · next hd =>
    cases h
    have := (List.dropWhile_sublist (l := cs) fun c => c != ':' && !Text.isBlank c).length_le
    rw [hd] at this
    exact this
  · cases h

/-- The endings of a name that ask for a variant, each with the mark of the variant. -/
def variants : List (List Char × Char) :=
  [("-emoji".toList, '\uFE0F'), ("-text".toList, '\uFE0E')]

/-- What a code stands for. -/
def meaning? (known : Known) (code : List Char) : Option (List Char) :=
  match variants.find? fun v => v.1.isSuffixOf code with
  | some (ending, mark) => (known (code.take (code.length - ending.length))).map (· ++ [mark])
  | none => known code

/-- A text with its codes replaced by what they stand for. -/
def replace (known : Known) (cs : List Char) : List Char :=
  match cs with
  | [] => []
  | c :: rest =>
      if c = ':' then
        match _h : code? rest with
        | some (code, after) =>
            (meaning? known code).getD (':' :: code ++ [':']) ++ replace known after
        | none => c :: replace known rest
      else c :: replace known rest
termination_by cs.length
decreasing_by
  · have := length_code?_lt _h
    simp only [List.length_cons]
    omega
  · simp
  · simp

theorem eq_of_code? {cs code rest : List Char} (h : code? cs = some (code, rest)) :
    cs = code ++ ':' :: rest := by
  unfold code? at h
  split at h
  · next hd =>
    cases h
    rw [← hd]
    exact List.takeWhile_append_dropWhile.symm
  · cases h

/-- Where no name is known, a text stays as it is. -/
theorem replace_noneKnown (cs : List Char) : replace noneKnown cs = cs := by
  have hnone : ∀ code, meaning? noneKnown code = none := by
    intro code
    unfold meaning?
    split <;> rfl
  fun_induction replace noneKnown cs with
  | case1 => rfl
  | case2 rest code after hcode ih =>
    rw [hnone, ih, eq_of_code? hcode]
    simp
  | case3 rest hcode ih => rw [ih]
  | case4 c rest hc ih => rw [ih]

end Unimported.Report.Emoji
