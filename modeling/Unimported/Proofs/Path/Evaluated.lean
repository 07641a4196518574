import Unimported.Path.Normal
import Unimported.Proofs.Path.Names

/-!
# Texts of paths, evaluated

A text is evaluated on a stack of names, piece by piece from the left.  An empty piece and a dot
leave the stack alone, two dots take back the last name, and whatever else is a name.  A text that
does not start with a slash is evaluated where the current directory is.  This is what the normal
form of a path amounts to, whether the path was read as a whole or joined from two texts.

## Main definitions

* `Path.push`, `Path.evaluate` — one piece, and all pieces of a text, on a stack of names.
* `Path.evaluated` — the names that a text leaves, seen from a current directory.

## Main results

* `Path.segments_absolute_ofString`, `Path.segments_absolute_joinText` — the normal form of a path,
  evaluated on texts.
* `Path.isStep_of_mem_evaluate` — what evaluation leaves are names.
-/

namespace Unimported.Path

/-- A stack of names with one more piece of a text. -/
def push (stack : List String) (piece : String) : List String :=
  if piece = "" ∨ piece = "." then stack
  else if piece = ".." then stack.dropLast
  else stack ++ [piece]

/-- The names that the pieces of a text leave on a stack. -/
def evaluate (stack : List String) (s : String) : List String := (pieces s).foldl push stack

/-- The names that a text leaves, from the root of all paths. -/
def evaluated (cwd : List String) (s : String) : List String :=
  evaluate (if s.toList.head? = some '/' then [] else cwd) s

/-- A piece that stands on a stack: it is a name, whatever characters it is made of. -/
structure IsStep (s : String) : Prop where
  isSegment : isSegment s = true
  ne_dots : s ≠ ".."
  no_slash : '/' ∉ s.toList

theorem IsName.isStep {s : String} (h : IsName s) : IsStep s := ⟨h.isSegment, h.ne_dots, h.no_slash⟩

/-! ### Evaluation and normal forms -/

theorem push_of_isSegment {piece : String} (h : isSegment piece = true) (stack : List String) :
    push stack piece = enter stack piece := by
  have hne : ¬ (piece = "" ∨ piece = ".") := by
    simp only [isSegment, Bool.and_eq_true, bne_iff_ne] at h
    exact fun hp => hp.elim h.1 h.2
  rw [push, if_neg hne, enter]

theorem push_of_not_isSegment {piece : String} (h : isSegment piece = false)
    (stack : List String) : push stack piece = stack := by
  have hskip : piece = "" ∨ piece = "." := by
    simpa [isSegment, Classical.or_iff_not_imp_left] using h
  rw [push, if_pos hskip]

/-- Pieces that name nothing may be dropped beforehand. -/
theorem foldl_push (stack ps : List String) :
    ps.foldl push stack = (ps.filter isSegment).foldl enter stack := by
  induction ps generalizing stack with
  | nil => rfl
  | cons piece ps ih =>
    by_cases h : isSegment piece = true
    · rw [List.filter_cons_of_pos h, List.foldl_cons, List.foldl_cons, push_of_isSegment h, ih]
    · rw [List.filter_cons_of_neg h, List.foldl_cons,
        push_of_not_isSegment (Bool.eq_false_iff.mpr h), ih]

/-- Names in front are the stack on which the rest is evaluated. -/
theorem collapse_append {front : List String} (h : ".." ∉ front) (back : List String) :
    collapse (front ++ back) = back.foldl enter front := by
  have hfront : front.foldl enter [] = front := collapse_of_not_mem h
  rw [collapse, List.foldl_append, hfront]

theorem anchorOf_of_head_slash {cs : List Char} (h : cs.head? = some '/') :
    anchorOf cs ≠ .current := by
  obtain ⟨c, rest, rfl⟩ : ∃ c rest, cs = c :: rest := by
    cases cs with
    | nil => cases h
    | cons c rest => exact ⟨c, rest, rfl⟩
  obtain rfl : c = '/' := Option.some.inj h
  unfold anchorOf
  split <;> simp_all

/-- **The normal form of a path that is read from a text.** -/
theorem segments_absolute_ofString {cwd : List String} (hcwd : ".." ∉ cwd) (s : String) :
    ((ofString s).absolute cwd).segments = evaluated cwd s := by
  unfold evaluated evaluate
  rw [foldl_push]
  by_cases hhead : s.toList.head? = some '/'
  · rw [if_pos hhead]
    have hanchor := anchorOf_of_head_slash hhead
    unfold ofString absolute
    split
    · next h => exact absurd h hanchor
    · rfl
  · rw [if_neg hhead]
    have hanchor := anchorOf_of_head hhead
    unfold ofString absolute
    rw [hanchor]
    exact collapse_append hcwd _

/-- **The normal form of a path that is joined from two texts**, the second of which starts at no
root. -/
theorem segments_absolute_joinText {cwd : List String} (hcwd : ".." ∉ cwd) (s t : String)
    (ht : t.toList.head? ≠ some '/') :
    (((ofString s).joinText t).absolute cwd).segments = evaluate (evaluated cwd s) t := by
  have hjoin : (ofString s).joinText t =
      ⟨(ofString s).anchor, (ofString s).segments ++ (pieces t).filter isSegment⟩ := by
    rw [joinText, ofString_of_names ht rfl, join_current]
  have hfirst := segments_absolute_ofString hcwd s
  unfold evaluate
  rw [foldl_push, ← hfirst, hjoin]
  unfold absolute
  cases (ofString s).anchor with
  | current => simp only [collapse, List.foldl_append]
  | root => simp only [collapse, List.foldl_append]
  | doubleRoot => simp only [collapse, List.foldl_append]

/-! ### What is left -/

/-- The parts between a character hold it no more, and no character is new. -/
theorem of_mem_splitOn {c : Char} {cs part : List Char} (h : part ∈ cs.splitOn c) :
    c ∉ part ∧ part ⊆ cs := by
  induction cs generalizing part with
  | nil =>
    rw [List.splitOn_nil, List.mem_singleton] at h
    simp [h]
  | cons d cs ih =>
    rw [List.splitOn_cons_eq_if_modifyHead] at h
    split at h
    · rcases List.mem_cons.mp h with rfl | h
      · simp
      · obtain ⟨hc, hsub⟩ := ih h
        exact ⟨hc, List.subset_cons_of_subset d hsub⟩
    · next hd =>
      -- the character is put in front of the first part, and it is not the one to cut at
      obtain ⟨first, rest, hsplit⟩ := List.exists_cons_of_ne_nil (List.splitOn_ne_nil c cs)
      rw [hsplit, List.modifyHead_cons] at h
      rcases List.mem_cons.mp h with rfl | h
      · obtain ⟨hc, hsub⟩ := ih (hsplit ▸ List.mem_cons_self)
        have hcd : c ≠ d := fun heq => hd (by simp [heq])
        exact ⟨by simp [hcd, hc], List.cons_subset_cons d hsub⟩
      · obtain ⟨hc, hsub⟩ := ih (hsplit ▸ List.mem_cons_of_mem first h)
        exact ⟨hc, List.subset_cons_of_subset d hsub⟩

theorem of_mem_pieces {s piece : String} (h : piece ∈ pieces s) :
    '/' ∉ piece.toList ∧ piece.toList ⊆ s.toList := by
  obtain ⟨part, hpart, rfl⟩ := List.mem_map.mp h
  rw [String.toList_ofList]
  exact of_mem_splitOn hpart

/-- What is left was on the stack, or it was entered. -/
theorem of_mem_foldl_enter {stack ps : List String} {n : String} (h : n ∈ ps.foldl enter stack) :
    n ∈ stack ∨ n ∈ ps ∧ n ≠ ".." := by
  induction ps generalizing stack with
  | nil => exact Or.inl h
  | cons piece ps ih =>
    rcases ih h with h | ⟨h, hne⟩
    · rcases mem_enter h with h | ⟨rfl, hne⟩
      · exact Or.inl h
      · exact Or.inr ⟨List.mem_cons_self, hne⟩
    · exact Or.inr ⟨List.mem_cons_of_mem piece h, hne⟩

/-- **What evaluation leaves** was on the stack, or it is a piece that is a name. -/
theorem of_mem_evaluate {stack : List String} {s n : String} (h : n ∈ evaluate stack s) :
    n ∈ stack ∨ n ∈ pieces s ∧ isSegment n = true ∧ n ≠ ".." := by
  unfold evaluate at h
  rw [foldl_push] at h
  refine (of_mem_foldl_enter h).imp id fun ⟨h, hne⟩ => ?_
  obtain ⟨hmem, hseg⟩ := List.mem_filter.mp h
  exact ⟨hmem, hseg, hne⟩

theorem isStep_of_mem_evaluate {stack : List String} (hstack : ∀ n ∈ stack, IsStep n)
    {s n : String} (h : n ∈ evaluate stack s) : IsStep n := by
  rcases of_mem_evaluate h with h | ⟨hmem, hseg, hne⟩
  · exact hstack n h
  · exact ⟨hseg, hne, (of_mem_pieces hmem).1⟩

/-- No character is new, either. -/
theorem not_mem_of_mem_evaluate {stack : List String} {c : Char}
    (hstack : ∀ n ∈ stack, c ∉ n.toList) {s n : String} (hs : c ∉ s.toList)
    (h : n ∈ evaluate stack s) : c ∉ n.toList := by
  rcases of_mem_evaluate h with h | ⟨hmem, -, -⟩
  · exact hstack n h
  · exact fun hc => hs ((of_mem_pieces hmem).2 hc)

/-- What holds of the names in the current directory holds of the stack to start with. -/
theorem forall_mem_evaluated {P : String → Prop} {cwd : List String} {s : String}
    (hcwd : ∀ n ∈ cwd, P n)
    (h : ∀ stack : List String, (∀ n ∈ stack, P n) → ∀ n ∈ evaluate stack s, P n) :
    ∀ n ∈ evaluated cwd s, P n := by
  refine h _ ?_
  split
  · simp
  · exact hcwd

end Unimported.Path
