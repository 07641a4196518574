import Unimported.Text.Blank
import Unimported.Text.WordChar

/-!
# Whole words

A word stands whole in a text when no word character stands next to it.  Whether it does is decided
on each side of a character that is no word character by what stands on this side alone.

## Main definitions

* `Text.HasWord word cs` — `word` stands in `cs` as a whole word.

## Main results

* `Text.isWordChar_of_isBlank` — no blank is a word character.
* `Text.HasWord.of_append_cons`, `Text.HasWord.of_append_blanks` — a whole word on two sides of
  a character that is no word character, or of blanks, stands on one of them.
-/

namespace Unimported.Text

/-! ### Blanks and word characters -/

/-- No range of the one table meets a range of the other. -/
private theorem wordChars_disjoint_blanks :
    (blanks.ranges.all fun r => wordChars.ranges.all fun q => r.2 < q.1 || q.2 < r.1) = true := by
  decide +kernel

/-- No blank is a word character. -/
theorem isWordChar_of_isBlank {c : Char} (h : isBlank c = true) : isWordChar c = false := by
  obtain ⟨r, hr, hlo, hhi⟩ := CodeRanges.contains_iff.mp h
  unfold isWordChar
  split
  · next hc =>
    have key : ∀ n : Fin 128, isBlank (Char.ofNat n) = true →
        ((Char.ofNat n).isAlphanum || (Char.ofNat n) == '_') = false := by decide
    simpa using key ⟨c.toNat, hc⟩ (by simpa using h)
  · next hc =>
    rw [Bool.eq_false_iff]
    intro hw
    obtain ⟨q, hq, hqlo, hqhi⟩ := CodeRanges.contains_iff.mp hw
    have hd := List.all_eq_true.mp (List.all_eq_true.mp wordChars_disjoint_blanks r hr) q hq
    simp only [Bool.or_eq_true, decide_eq_true_eq] at hd
    omega

/-! ### Whole words -/

/-- Whether a text ends in a word character. -/
def endsInWord (cs : List Char) : Bool := cs.getLast?.any isWordChar

/-- Whether a text starts with a word character. -/
def startsInWord (cs : List Char) : Bool := cs.head?.any isWordChar

/-- A word stands in a text, and no word character next to it. -/
def HasWord (word cs : List Char) : Prop :=
  ∃ before after, cs = before ++ word ++ after ∧
    endsInWord before = false ∧ startsInWord after = false

@[simp] theorem endsInWord_nil : endsInWord [] = false := rfl

@[simp] theorem endsInWord_concat (cs : List Char) (c : Char) :
    endsInWord (cs ++ [c]) = isWordChar c := by
  simp [endsInWord]

@[simp] theorem startsInWord_cons (c : Char) (cs : List Char) :
    startsInWord (c :: cs) = isWordChar c := rfl

/-- A block without a character stands on one side of it. -/
theorem append_cons_eq_block {x y before block after : List Char} {d : Char} (hd : d ∉ block)
    (h : x ++ d :: y = before ++ block ++ after) :
    (∃ r, x = before ++ block ++ r ∧ after = r ++ d :: y) ∨
      ∃ l, before = x ++ d :: l ∧ y = l ++ block ++ after := by
  rcases List.append_eq_append_iff.mp h with ⟨k, hk, ha⟩ | ⟨k, hk, ha⟩
  · -- the character comes after `x`, so inside `before`, or the block would hold it
    cases k with
    | nil =>
      rw [List.append_nil] at hk
      exact Or.inl ⟨[], by rw [hk, List.append_nil], by simpa using ha.symm⟩
    | cons e k =>
      rw [List.cons_append, List.cons.injEq] at ha
      obtain ⟨rfl, hy⟩ := ha
      rcases List.append_eq_append_iff.mp hk with ⟨m, hm, hb⟩ | ⟨m, hm, hb⟩
      · exact absurd (hb ▸ List.mem_append_right m List.mem_cons_self) hd
      · cases m with
        | nil =>
          rw [List.nil_append] at hb
          exact absurd (hb ▸ List.mem_cons_self) hd
        | cons f m =>
          rw [List.cons_append, List.cons.injEq] at hb
          obtain ⟨rfl, hk'⟩ := hb
          exact Or.inr ⟨m, hm, by rw [hy, hk']⟩
  · exact Or.inl ⟨k, hk, ha⟩

/-- **A whole word on two sides of a character that is no word character stands on one of them.** -/
theorem HasWord.of_append_cons {word x y : List Char} {d : Char} (hd : isWordChar d = false)
    (hw : ∀ c ∈ word, isWordChar c = true) (h : HasWord word (x ++ d :: y)) :
    HasWord word x ∨ HasWord word y := by
  obtain ⟨before, after, he, hb, ha⟩ := h
  have hmem : d ∉ word := fun hm => by rw [hw d hm] at hd; cases hd
  rcases append_cons_eq_block hmem he with ⟨r, rfl, rfl⟩ | ⟨l, rfl, rfl⟩
  · refine Or.inl ⟨before, r, rfl, hb, ?_⟩
    cases r with
    | nil => rfl
    | cons c r => exact ha
  · refine Or.inr ⟨l, after, rfl, ?_, ha⟩
    rcases List.eq_nil_or_concat l with rfl | ⟨l, c, rfl⟩
    · rfl
    · have hcat : x ++ d :: l.concat c = (x ++ d :: l) ++ [c] := by simp
      rw [hcat, endsInWord_concat] at hb
      rw [List.concat_eq_append, endsInWord_concat, hb]

theorem HasWord.isInfix {word cs : List Char} (h : HasWord word cs) : word <:+: cs := by
  obtain ⟨before, after, rfl, -, -⟩ := h
  exact ⟨before, after, rfl⟩

/-- A word does not stand in the empty text. -/
theorem not_hasWord_nil {word : List Char} (hne : word ≠ []) : ¬ HasWord word [] := by
  intro h
  exact hne (List.infix_nil.mp h.isInfix)

/-- A whole word on two sides of blanks stands on one of them. -/
theorem HasWord.of_append_blanks {word x y b : List Char} (hne : word ≠ [])
    (hw : ∀ c ∈ word, isWordChar c = true) (hb : b ≠ []) (hblank : ∀ c ∈ b, isBlank c = true)
    (h : HasWord word (x ++ b ++ y)) : HasWord word x ∨ HasWord word y := by
  induction b generalizing x with
  | nil => exact absurd rfl hb
  | cons d b ih =>
    have hd : isWordChar d = false := isWordChar_of_isBlank (hblank d List.mem_cons_self)
    rw [List.append_assoc, List.cons_append] at h
    rcases h.of_append_cons hd hw with h | h
    · exact Or.inl h
    · cases b with
      | nil => exact Or.inr h
      | cons e b =>
        refine (ih (x := []) (by simp) (fun c hc => hblank c (List.mem_cons_of_mem d hc)) h).imp ?_ id
        exact fun h => absurd h (not_hasWord_nil hne)

end Unimported.Text
