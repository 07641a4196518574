import Unimported.Proofs.Import.Detour

/-!
# The alias and its relative spelling

What stands behind the alias is taken from the source root, and so is a specifier that starts with
`./` in the source root itself.  The alias keeps the text behind it as it is written, while a
relative specifier is evaluated.  Both lead to the same target just when the text is written in
normal form: an empty piece, a dot or two dots make the alias lead elsewhere, though the same module
is meant.

## Main results

* `Path.evaluate_of_isNormalText` — evaluation adds the pieces of a text in normal form.
* `Resolver.resolve_relative_below` — the target of a relative specifier that stays below an
  absolute source root.
* `Resolver.resolve_alias_eq_relative_iff` — **when the two ways of addressing agree.**
-/

namespace Unimported

namespace Path

variable {p : Path} {stack ps rest : List String} {s : String}

/-- The current directory plays no part in the normal form of a path from a root. -/
theorem absolute_of_anchor {anchor : Anchor} (h : anchor ≠ .current) (cwd segments : List String) :
    absolute cwd ⟨anchor, segments⟩ = ⟨anchor, collapse segments⟩ := by
  cases anchor with
  | current => exact absurd rfl h
  | root => rfl
  | doubleRoot => rfl

/-- A path with a name at its end leads somewhere below its start. -/
theorem collapse_ne_nil (hne : p.name ≠ "") (hdots : p.name ≠ "..") : collapse p.segments ≠ [] := by
  rcases List.eq_nil_or_concat p.segments with hnil | ⟨init, n, hn⟩
  · simp [name, hnil] at hne
  · rw [List.concat_eq_append] at hn
    have hname : n ≠ ".." := by simpa [name, hn] using hdots
    rw [hn, collapse_append_singleton, enter, if_neg hname]
    simp

theorem collapse_segments_ofString (s : String) : collapse (ofString s).segments = evaluate [] s :=
  (foldl_push [] (pieces s)).symm

/-- Segments with those of a text behind them, evaluated. -/
theorem collapse_append_segments (segments : List String) (s : String) :
    collapse (segments ++ (pieces s).filter isSegment) = evaluate (collapse segments) s := by
  rw [evaluate, foldl_push, collapse, collapse, List.foldl_append]

/-! ### Texts in normal form -/

/-- What stands on a stack above a certain height was there before, or it was entered. -/
theorem of_mem_drop_foldl_enter {k : Nat} {n : String} (h : n ∈ (ps.foldl enter stack).drop k) :
    n ∈ stack.drop k ∨ n ∈ ps := by
  induction ps generalizing stack with
  | nil => exact Or.inl h
  | cons piece ps ih =>
    rcases ih h with h | h
    · unfold enter at h
      split at h
      · rw [List.dropLast_eq_take, List.drop_take] at h
        exact Or.inl (List.mem_of_mem_take h)
      · rw [List.drop_append] at h
        rcases List.mem_append.mp h with h | h
        · exact Or.inl h
        · rw [List.mem_singleton.mp (List.mem_of_mem_drop h)]
          exact Or.inr List.mem_cons_self
    · exact Or.inr (List.mem_cons_of_mem piece h)

/-- What a text adds to a stack that it leaves in place are pieces of the text. -/
theorem mem_pieces_of_evaluate (h : stack ++ rest = evaluate stack s) :
    ∀ n ∈ rest, n ∈ pieces s := by
  intro n hn
  have hdrop : n ∈ (((pieces s).filter isSegment).foldl enter stack).drop stack.length := by
    rw [← foldl_push, ← evaluate, ← h, List.drop_left]
    exact hn
  refine (of_mem_drop_foldl_enter hdrop).elim (fun h => ?_) fun h => (List.mem_filter.mp h).1
  simp at h

/-- **Evaluation adds the pieces of a text in normal form** to the stack. -/
theorem evaluate_of_isNormalText (h : IsNormalText s) (stack : List String) :
    evaluate stack s = stack ++ pieces s := by
  have hnames : ∀ ps : List String, (∀ piece ∈ ps, piece ≠ "" ∧ piece ≠ "." ∧ piece ≠ "..") →
      ∀ stack, ps.foldl push stack = stack ++ ps := by
    intro ps
    induction ps with
    | nil => exact fun _ stack => (List.append_nil stack).symm
    | cons piece ps ih =>
      intro hps stack
      obtain ⟨hempty, hdot, hdots⟩ := hps piece List.mem_cons_self
      rw [List.foldl_cons, ih fun q hq => hps q (List.mem_cons_of_mem piece hq), push,
        if_neg (by simp [hempty, hdot]), if_neg hdots, List.append_assoc, List.singleton_append]
  exact hnames (pieces s) h stack

/-- Names with slashes between them are a text in normal form. -/
theorem isNormalText_slashed {names : List String} (hne : names ≠ []) (h : ∀ n ∈ names, IsStep n) :
    IsNormalText (slashed names) := by
  intro piece hpiece
  rw [pieces_slashed hne fun n hn => (h n hn).no_slash] at hpiece
  have hseg := (h piece hpiece).isSegment
  simp only [isSegment, Bool.and_eq_true, bne_iff_ne] at hseg
  exact ⟨hseg.1, hseg.2, (h piece hpiece).ne_dots⟩

/-- A dot and a slash in front of a text lead nowhere. -/
theorem evaluate_dot_slash (stack : List String) (s : String) :
    evaluate stack ("./" ++ s) = evaluate stack s := by
  have hsplit : "./" ++ s = "." ++ "/" ++ s := rfl
  have hdot : pieces "." = ["."] := by decide +kernel
  unfold evaluate
  rw [hsplit, pieces_append, hdot, List.singleton_append, List.foldl_cons]
  rfl

end Path

namespace Resolver

open Path (IsNormalText IsStep pieces slashed evaluate)

theorem rebase_append (name : String) (base rest : List String) :
    rebase name base (base ++ rest) = name ++ if rest = [] then "" else "/" ++ slashed rest := by
  unfold rebase
  by_cases hrest : rest = []
  · rw [hrest, List.append_nil, if_pos rfl, if_pos rfl, String.append_empty]
  · rw [if_neg (by simpa using hrest), if_pos (List.prefix_append base rest), List.drop_left,
      if_neg hrest, String.append_assoc]

section Below

variable {root s : String} (habs : (Path.ofString root).isAbsolute = true)
  (hne : (Path.ofString root).name ≠ "") (hdots : (Path.ofString root).name ≠ "..")

include habs hne hdots

/-- The text of a path below an absolute source root goes on behind that of the source root. -/
theorem normalText_below (cwd : List String) {rest : List String} (hhead : s.toList.head? ≠ some '/')
    (hplain : '\\' ∉ s.toList) (hrest : evaluate [] root ++ rest = evaluate (evaluate [] root) s) :
    normalText cwd ((Path.ofString root).joinText s) =
      normalText cwd (.ofString root) ++ if rest = [] then "" else "/" ++ slashed rest := by
  have hanchor : (Path.ofString root).anchor ≠ .current := by simpa [Path.isAbsolute] using habs
  have hroot : (Path.ofString root).absolute cwd =
      ⟨(Path.ofString root).anchor, evaluate [] root⟩ := by
    rw [← Path.collapse_segments_ofString]
    exact Path.absolute_of_anchor hanchor cwd _
  have hjoin : ((Path.ofString root).joinText s).absolute cwd =
      ⟨(Path.ofString root).anchor, evaluate [] root ++ rest⟩ := by
    rw [Path.joinText, Path.ofString_of_names hhead rfl, Path.join_current,
      Path.absolute_of_anchor hanchor, Path.collapse_append_segments,
      Path.collapse_segments_ofString, hrest]
  have hbase : evaluate [] root ≠ [] :=
    Path.collapse_segments_ofString root ▸ Path.collapse_ne_nil hne hdots
  have htext : ∀ names, Path.text ⟨(Path.ofString root).anchor, names⟩ =
      (Path.ofString root).anchor.text ++ slashed names := fun names => Path.text_of_anchor hanchor
  rw [normalText, normalText, hjoin, hroot, htext, htext]
  by_cases hr : rest = []
  · rw [if_pos hr, hr, List.append_nil, String.append_empty]
  · -- the names below the source root are pieces of the text, so they hold no backslash either
    have hclean : '\\' ∉ ("/" ++ slashed rest).toList := by
      rw [String.toList_append, List.mem_append]
      rintro (hmem | hmem)
      · revert hmem
        decide
      · rcases Path.mem_slashed hmem with h | ⟨n, hn, hc⟩
        · cases h
        · exact hplain ((Path.of_mem_pieces (Path.mem_pieces_of_evaluate hrest n hn)).2 hc)
    rw [if_neg hr, Path.slashed_append hbase hr, String.append_assoc, ← String.append_assoc,
      forwardSlashes_append, forwardSlashes_of_not_mem hclean]

/-- **The target of a relative specifier that stays below an absolute source root.** -/
theorem resolve_relative_below (cwd : List String) (hrel : isRelative s = true)
    (hplain : '\\' ∉ s.toList) (hinside : evaluate [] root <+: evaluate (evaluate [] root) s) :
    (ofRoot cwd (.ofString root)).resolve s (.ofString root) =
      some (rebase (Path.ofString root).name (evaluate [] root)
        (evaluate (evaluate [] root) s)) := by
  obtain ⟨rest, hrest⟩ := hinside
  have hpath := normalText_below habs hne hdots cwd (head_ne_slash_of_isRelative hrel) hplain hrest
  have htail : ∀ tail : String, tail = "" ∨ tail.toList.head? = some '/' →
      (ofRoot cwd (.ofString root)).targetOf (normalText cwd (.ofString root) ++ tail) =
        (Path.ofString root).name ++ tail :=
    fun tail => (ofRoot cwd (.ofString root)).targetOf_below
  unfold resolve
  rw [if_pos hrel]
  change some ((ofRoot cwd (.ofString root)).targetOf (normalText cwd _)) = _
  rw [hpath, htail _ (by split <;> simp), ← hrest, rebase_append]

end Below

/-- **The two ways of addressing agree just on texts in normal form.**  Below an absolute source
root with a name at its end, the alias with a text behind it leads to the name of the source root
and the text as it is written; from the source root itself, the text leads to the names that are
left when it is evaluated. -/
theorem resolve_alias_eq_relative_iff (cwd : List String) {root s : String} (origin : Path)
    (habs : (Path.ofString root).isAbsolute = true) (hne : (Path.ofString root).name ≠ "")
    (hdots : (Path.ofString root).name ≠ "..") (hplain : '\\' ∉ s.toList)
    (hinside : evaluate [] root <+: evaluate (evaluate [] root) s) :
    (ofRoot cwd (.ofString root)).resolve (aliasMark ++ s) origin =
        some ((Path.ofString root).name ++ "/" ++ s) ∧
      (ofRoot cwd (.ofString root)).resolve ("./" ++ s) (.ofString root) =
        some (rebase (Path.ofString root).name (evaluate [] root)
          (evaluate (evaluate [] root) s)) ∧
      ((ofRoot cwd (.ofString root)).resolve (aliasMark ++ s) origin =
        (ofRoot cwd (.ofString root)).resolve ("./" ++ s) (.ofString root) ↔ IsNormalText s) := by
  have hrel : isRelative ("./" ++ s) = true := by
    simp [isRelative, Text.opens_iff]
  have hplain' : '\\' ∉ ("./" ++ s).toList := by
    simpa using hplain
  have halias : (ofRoot cwd (.ofString root)).resolve (aliasMark ++ s) origin =
      some ((Path.ofString root).name ++ "/" ++ s) := resolve_alias _ s origin
  have hrelative := resolve_relative_below habs hne hdots cwd hrel hplain'
    (by rwa [Path.evaluate_dot_slash])
  rw [Path.evaluate_dot_slash] at hrelative
  refine ⟨halias, hrelative, ?_⟩
  obtain ⟨rest, hrest⟩ := hinside
  have hsteps : ∀ n ∈ rest, IsStep n := fun n hn =>
    Path.isStep_of_mem_evaluate (fun _ => Path.isStep_of_mem_evaluate (by simp))
      (hrest ▸ List.mem_append_right _ hn)
  rw [halias, hrelative, ← hrest, rebase_append, Option.some_inj, String.append_assoc,
    String.append_right_inj]
  constructor
  · intro h
    by_cases hr : rest = []
    · simp [hr] at h
    · rw [if_neg hr, String.append_right_inj] at h
      rw [h]
      exact Path.isNormalText_slashed hr hsteps
  · intro h
    rw [Path.evaluate_of_isNormalText h] at hrest
    obtain rfl : rest = pieces s := List.append_cancel_left hrest
    rw [if_neg (Path.pieces_ne_nil s), Path.slashed_pieces]

/-- Ways around below a source root. -/
theorem resolve_alias_ne_relative_around :
    (ofRoot ["tmp"] (.ofString "/p/src")).resolve "@/lib/../hooks//useA" (.ofString "/p/src/pages") =
        some "src/lib/../hooks//useA" ∧
      (ofRoot ["tmp"] (.ofString "/p/src")).resolve "./lib/../hooks//useA" (.ofString "/p/src") =
        some "src/hooks/useA" ∧
      (ofRoot ["tmp"] (.ofString "/p/src")).resolve "@/lib/../hooks//useA"
          (.ofString "/p/src/pages") ≠
        (ofRoot ["tmp"] (.ofString "/p/src")).resolve "./lib/../hooks//useA" (.ofString "/p/src") := by
  have habs : (Path.ofString "/p/src").isAbsolute = true := by decide +kernel
  have hplain : '\\' ∉ "lib/../hooks//useA".toList := by decide
  have hnormal : ¬ IsNormalText "lib/../hooks//useA" := by decide +kernel
  obtain ⟨halias, hrelative, hiff⟩ := resolve_alias_eq_relative_iff ["tmp"]
    (.ofString "/p/src/pages") habs (by decide +kernel) (by decide +kernel) hplain
    (by decide +kernel)
  refine ⟨halias.trans ?_, hrelative.trans ?_, fun h => hnormal (hiff.mp h)⟩
  · decide +kernel
  · decide +kernel

/-- **A doubled slash behind the alias leads elsewhere**, though it stays below the source root. -/
theorem not_eq_relative_doubled :
    ¬ ∀ (cwd : List String) (root s : String) (origin : Path),
      (Path.ofString root).isAbsolute = true → (Path.ofString root).name ≠ "" →
      (Path.ofString root).name ≠ ".." → s ≠ "" → s.toList.head? ≠ some '/' → '\\' ∉ s.toList →
      evaluate [] root <+: evaluate (evaluate [] root) s →
      (ofRoot cwd (.ofString root)).resolve (aliasMark ++ s) origin =
        (ofRoot cwd (.ofString root)).resolve ("./" ++ s) (.ofString root) := by
  intro hall
  have h := hall [] "/p/src" "hooks//useA" (.ofString "/p/src") (by decide +kernel)
    (by decide +kernel) (by decide +kernel) (by decide) (by decide) (by decide) (by decide +kernel)
  revert h
  decide +kernel

end Resolver

end Unimported
