import Unimported.Proofs.Import.Designates
import Unimported.Proofs.Path.Evaluated
import Unimported.Proofs.Path.Spelled

/-!
# The targets of relative specifiers

A resolver compares texts: whether a path is that of the source root, or starts with it and a slash.
What is meant are lists of names.  The two agree because names hold no slash: where a text goes on
behind the text of the source root with a slash, the names go on behind its names.

A path that starts at the double root is never below one that starts at the root, nor the other way
around, though the names may be the same.

## Main definitions

* `Resolver.rebase` — names below a base, written from the name of the base.

## Main results

* `Resolver.opens_text_iff` — the texts of paths and the names in them.
* `Resolver.targetOf_text`, `Resolver.targetOf_text_doubleRoot` — the target of a path.
* `Resolver.resolve_relative_exact` — **the target of a relative specifier, by names.**
-/

namespace Unimported.Resolver

open Path (IsStep IsName pieces slashed evaluate evaluated)

/-- Names written from the name of a base if they lie below it, and as they are if they do not. -/
def rebase (name : String) (base loc : List String) : String :=
  if loc = base then name
  else if base <+: loc then name ++ "/" ++ slashed (loc.drop base.length)
  else slashed loc

variable {base loc : List String}

/-! ### Texts and names -/

theorem text_root (loc : List String) : Path.text ⟨.root, loc⟩ = "" ++ "/" ++ slashed loc := by
  simp [Path.text, Anchor.text]

theorem text_doubleRoot (loc : List String) :
    Path.text ⟨.doubleRoot, loc⟩ = "//" ++ slashed loc := by
  simp [Path.text, Anchor.text]

/-- Below a base, the text goes on behind that of the base. -/
theorem text_root_append {rest : List String} (hbase : base ≠ []) (hrest : rest ≠ []) :
    Path.text ⟨.root, base ++ rest⟩ = Path.text ⟨.root, base⟩ ++ "/" ++ slashed rest := by
  rw [text_root, text_root, Path.slashed_append hbase hrest]
  simp only [String.append_assoc]

/-- **A text goes on behind that of a base just when the names do.** -/
theorem opens_text_iff (hne : base ≠ []) (hbase : ∀ n ∈ base, IsStep n)
    (hloc : ∀ n ∈ loc, IsStep n) :
    Text.opens (Path.text ⟨.root, base⟩ ++ "/") (Path.text ⟨.root, loc⟩) = true ↔
      ∃ rest, rest ≠ [] ∧ loc = base ++ rest := by
  rw [Text.opens_iff]
  constructor
  · rintro ⟨back, hback⟩
    have htext : Path.text ⟨.root, base⟩ ++ "/" ++ String.ofList back =
        Path.text ⟨.root, loc⟩ := by
      rw [← String.toList_inj, String.toList_append, String.toList_ofList]
      exact hback
    -- both texts are cut at their slashes, which gives back the names
    have hpieces := congrArg pieces htext
    rw [Path.pieces_append, text_root, text_root, Path.pieces_append, Path.pieces_append,
      Path.pieces_slashed hne fun n hn => (hbase n hn).no_slash, List.append_assoc] at hpieces
    have hsame : base ++ pieces (String.ofList back) = pieces (slashed loc) :=
      List.append_cancel_left hpieces
    have hlocne : loc ≠ [] := by
      rintro rfl
      have hlen := congrArg List.length hsame
      have hb := List.length_pos_iff.mpr hne
      have hp := List.length_pos_iff.mpr (Path.pieces_ne_nil (String.ofList back))
      have hone : (pieces (slashed [])).length = 1 := by decide +kernel
      rw [List.length_append, hone] at hlen
      omega
    rw [Path.pieces_slashed hlocne fun n hn => (hloc n hn).no_slash] at hsame
    exact ⟨_, Path.pieces_ne_nil _, hsame.symm⟩
  · rintro ⟨rest, hrest, rfl⟩
    refine ⟨(slashed rest).toList, ?_⟩
    rw [text_root_append hne hrest]
    simp only [String.toList_append]

theorem isSegment_of_isStep (h : ∀ n ∈ loc, IsStep n) :
    ∀ n ∈ loc, Path.isSegment n = true ∧ '/' ∉ n.toList :=
  fun n hn => ⟨(h n hn).isSegment, (h n hn).no_slash⟩

/-- The names of a path from the root are told by its text. -/
theorem text_root_inj (hbase : ∀ n ∈ base, IsStep n) (hloc : ∀ n ∈ loc, IsStep n)
    (h : Path.text ⟨.root, loc⟩ = Path.text ⟨.root, base⟩) : loc = base := by
  rw [text_root, text_root] at h
  have hslashed : slashed loc = slashed base := by
    rw [← String.toList_inj] at h ⊢
    simpa using h
  rw [← Path.filter_pieces_slashed (isSegment_of_isStep hloc), hslashed,
    Path.filter_pieces_slashed (isSegment_of_isStep hbase)]

/-- Without the slash at the front, the text of a path from the root is that of its names. -/
theorem dropWhile_text_root (hloc : ∀ n ∈ loc, IsStep n) :
    String.ofList ((Path.text ⟨.root, loc⟩).toList.dropWhile (· = '/')) = slashed loc := by
  have hhead := Path.head_slashed (isSegment_of_isStep hloc)
  rw [text_root, ← String.toList_inj, String.toList_ofList]
  cases hcs : (slashed loc).toList with
  | nil => simp [hcs]
  | cons c cs =>
    have hc : c ≠ '/' := by simpa [hcs] using hhead
    simp [hcs, hc]

/-! ### Targets -/

/-- **The target of a path**, when the source root is a path from the root. -/
theorem targetOf_text {r : Resolver} (hroot : r.rootText = Path.text ⟨.root, base⟩)
    (hne : base ≠ []) (hbase : ∀ n ∈ base, IsStep n) (hloc : ∀ n ∈ loc, IsStep n) :
    r.targetOf (Path.text ⟨.root, loc⟩) = rebase r.rootName base loc := by
  have hopens := opens_text_iff hne hbase hloc
  unfold targetOf rebase
  rw [hroot]
  by_cases heq : loc = base
  · rw [if_pos (congrArg (fun l => Path.text ⟨.root, l⟩) heq), if_pos heq]
  · rw [if_neg (fun h => heq (text_root_inj hbase hloc h)), if_neg heq]
    by_cases hprefix : base <+: loc
    · obtain ⟨rest, rfl⟩ := hprefix
      have hrest : rest ≠ [] := fun h => heq (by rw [h, List.append_nil])
      rw [if_pos (hopens.mpr ⟨rest, hrest, rfl⟩), if_pos ⟨rest, rfl⟩, List.drop_left,
        text_root_append hne hrest, ← String.toList_inj]
      simp [List.append_assoc]
    · have hclosed : ¬ Text.opens (Path.text ⟨.root, base⟩ ++ "/") (Path.text ⟨.root, loc⟩) = true :=
        fun h => by
          obtain ⟨rest, -, hrest⟩ := hopens.mp h
          exact hprefix ⟨rest, hrest.symm⟩
      rw [if_neg hclosed, if_neg hprefix, dropWhile_text_root hloc]

/-- **The target of a path**, when the source root is a path from the double root: nothing lies
below it. -/
theorem targetOf_text_doubleRoot {r : Resolver}
    (hroot : r.rootText = Path.text ⟨.doubleRoot, base⟩) (hloc : ∀ n ∈ loc, IsStep n) :
    r.targetOf (Path.text ⟨.root, loc⟩) = slashed loc := by
  -- the second character tells the two roots apart
  have hsecond : (Path.text ⟨.root, loc⟩).toList.tail.head? ≠ some '/' := by
    rw [text_root]
    simpa using Path.head_slashed (isSegment_of_isStep hloc)
  have hroot' : r.rootText.toList = '/' :: '/' :: (slashed base).toList := by
    rw [hroot, text_doubleRoot]
    simp
  have hne : Path.text ⟨.root, loc⟩ ≠ r.rootText := by
    intro h
    rw [h, hroot'] at hsecond
    exact hsecond rfl
  have hclosed : ¬ Text.opens (r.rootText ++ "/") (Path.text ⟨.root, loc⟩) = true := by
    rw [Text.opens_iff, String.toList_append, hroot']
    rintro ⟨back, hback⟩
    rw [← hback] at hsecond
    exact hsecond rfl
  unfold targetOf
  rw [if_neg hne, if_neg hclosed, dropWhile_text_root hloc]

/-! ### Specifiers -/

theorem head_ne_slash_of_isRelative {specifier : String} (h : isRelative specifier = true) :
    specifier.toList.head? ≠ some '/' := by
  unfold isRelative at h
  rw [Bool.or_eq_true, Text.opens_iff, Text.opens_iff] at h
  rcases h with ⟨back, hback⟩ | ⟨back, hback⟩
  · rw [← hback]
    simp
  · rw [← hback]
    simp

/-- The written normal form of a path whose names hold no backslash. -/
theorem normalText_eq {cwd : List String} {p : Path}
    (hplain : ∀ n ∈ (p.absolute cwd).segments, '\\' ∉ n.toList) :
    normalText cwd p = (p.absolute cwd).text := by
  refine forwardSlashes_of_not_mem fun hmem => ?_
  rw [Path.text_of_anchor (Path.anchor_absolute_ne_current cwd p), String.toList_append,
    List.mem_append] at hmem
  rcases hmem with hmem | hmem
  · revert hmem
    cases (p.absolute cwd).anchor <;> decide
  · rcases Path.mem_slashed hmem with h | ⟨n, hn, hc⟩
    · cases h
    · exact hplain n hn hc

/-- Of a path that does not start at the double root, the normal form starts at the root. -/
theorem absolute_of_anchor_ne {cwd : List String} {p : Path} (h : p.anchor ≠ .doubleRoot) :
    p.absolute cwd = ⟨.root, (p.absolute cwd).segments⟩ := by
  unfold Path.absolute
  cases ha : p.anchor with
  | current => rfl
  | root => rfl
  | doubleRoot => exact absurd ha h

section Evaluated

variable {cwd : List String}

/-- The current directory counts only where a path is relative. -/
theorem not_mem_evaluated {s : String} (hs : '\\' ∉ s.toList)
    (hstart : (Path.ofString s).isAbsolute = false → ∀ n ∈ cwd, '\\' ∉ n.toList) :
    ∀ n ∈ evaluated cwd s, '\\' ∉ n.toList := by
  refine fun n => Path.not_mem_of_mem_evaluate ?_ hs
  split
  · exact fun n hn => absurd hn List.not_mem_nil
  · next hhead =>
    refine hstart ?_
    have hanchor : (Path.ofString s).anchor = .current := Path.anchorOf_of_head hhead
    rw [Path.isAbsolute, hanchor]
    rfl

variable (hcwd : ∀ n ∈ cwd, IsName n)

include hcwd

theorem isStep_of_mem_evaluated (s : String) : ∀ n ∈ evaluated cwd s, IsStep n :=
  Path.forall_mem_evaluated (fun n hn => (hcwd n hn).isStep) fun _ h _ =>
    Path.isStep_of_mem_evaluate h

/-- Without backslashes, the written normal form is that of the normal form. -/
theorem normalText_ofString_eq_text {s : String} (hs : '\\' ∉ s.toList)
    (hstart : (Path.ofString s).isAbsolute = false → ∀ n ∈ cwd, '\\' ∉ n.toList) :
    normalText cwd (.ofString s) = ((Path.ofString s).absolute cwd).text := by
  refine normalText_eq ?_
  rw [Path.segments_absolute_ofString fun h => (hcwd _ h).ne_dots rfl]
  exact not_mem_evaluated hs hstart

theorem normalText_joinText_eq_text {s t : String} (hhead : t.toList.head? ≠ some '/')
    (hs : '\\' ∉ s.toList) (ht : '\\' ∉ t.toList)
    (hstart : (Path.ofString s).isAbsolute = false → ∀ n ∈ cwd, '\\' ∉ n.toList) :
    normalText cwd ((Path.ofString s).joinText t) =
      (((Path.ofString s).joinText t).absolute cwd).text := by
  refine normalText_eq ?_
  rw [Path.segments_absolute_joinText (fun h => (hcwd _ h).ne_dots rfl) s t hhead]
  exact fun n => Path.not_mem_of_mem_evaluate (not_mem_evaluated hs hstart) ht

/-- The written normal form of a path that is read from a text. -/
theorem normalText_ofString {s : String} (hs : '\\' ∉ s.toList)
    (hstart : (Path.ofString s).isAbsolute = false → ∀ n ∈ cwd, '\\' ∉ n.toList) :
    normalText cwd (.ofString s) =
      if (Path.ofString s).anchor = .doubleRoot then Path.text ⟨.doubleRoot, evaluated cwd s⟩
      else Path.text ⟨.root, evaluated cwd s⟩ := by
  have hsegments := Path.segments_absolute_ofString (fun h => (hcwd _ h).ne_dots rfl) s
  rw [normalText_ofString_eq_text hcwd hs hstart]
  split
  · next hdouble =>
    rw [← hsegments]
    unfold Path.absolute
    rw [hdouble]
  · next hsingle =>
    rw [absolute_of_anchor_ne hsingle, hsegments]

/-- The written normal form of a path that is joined from two texts, the first of which does not
start at the double root, and the second at no root. -/
theorem normalText_joinText {s t : String} (hanchor : (Path.ofString s).anchor ≠ .doubleRoot)
    (hhead : t.toList.head? ≠ some '/') (hs : '\\' ∉ s.toList) (ht : '\\' ∉ t.toList)
    (hstart : (Path.ofString s).isAbsolute = false → ∀ n ∈ cwd, '\\' ∉ n.toList) :
    normalText cwd ((Path.ofString s).joinText t) =
      Path.text ⟨.root, evaluate (evaluated cwd s) t⟩ := by
  have hjoined : ((Path.ofString s).joinText t).anchor ≠ .doubleRoot := by
    rwa [Path.joinText, Path.ofString_of_names hhead rfl, Path.join_current]
  rw [normalText_joinText_eq_text hcwd hhead hs ht hstart, absolute_of_anchor_ne hjoined,
    Path.segments_absolute_joinText (fun h => (hcwd _ h).ne_dots rfl) s t hhead]

/-- **The target of a relative specifier.**  The source root and the importing directory, with the
specifier behind it, are evaluated from the root of all paths.  The target is written from the name
of the source root when it lies at or below it, and in full when it does not; below a source root at
the double root lies nothing that starts at the root.  A backslash is read as a slash, so there must
be none in what these paths are made of. -/
theorem resolve_relative_exact {root origin specifier : String}
    (hplain : ∀ s ∈ [root, origin, specifier], '\\' ∉ s.toList)
    (hstart : ∀ s ∈ [root, origin], (Path.ofString s).isAbsolute = false →
      ∀ n ∈ cwd, '\\' ∉ n.toList)
    (hrel : isRelative specifier = true)
    (horigin : (Path.ofString origin).anchor ≠ .doubleRoot)
    (hroot : normalText cwd (.ofString root) ≠ "/") :
    (ofRoot cwd (.ofString root)).resolve specifier (.ofString origin) =
      some (if (Path.ofString root).anchor = .doubleRoot then
          slashed (evaluate (evaluated cwd origin) specifier)
        else rebase (Path.ofString root).name (evaluated cwd root)
          (evaluate (evaluated cwd origin) specifier)) := by
  have hbase := isStep_of_mem_evaluated hcwd root
  have hloc : ∀ n ∈ evaluate (evaluated cwd origin) specifier, IsStep n := fun n =>
    Path.isStep_of_mem_evaluate (isStep_of_mem_evaluated hcwd origin)
  have htarget := normalText_joinText hcwd horigin (head_ne_slash_of_isRelative hrel)
    (hplain origin (by simp)) (hplain specifier (by simp)) (hstart origin (by simp))
  have hroottext := normalText_ofString hcwd (hplain root (by simp)) (hstart root (by simp))
  unfold resolve
  rw [if_pos hrel]
  change some ((ofRoot cwd (.ofString root)).targetOf (normalText cwd _)) = _
  rw [htarget]
  refine congrArg some ?_
  split
  · next hdouble =>
    rw [if_pos hdouble] at hroottext
    exact targetOf_text_doubleRoot hroottext hloc
  · next hsingle =>
    rw [if_neg hsingle] at hroottext
    have hne : evaluated cwd root ≠ [] := by
      intro hnil
      rw [hroottext, hnil] at hroot
      exact hroot (by decide +kernel)
    exact targetOf_text hroottext hne hbase hloc

end Evaluated

/-- An import out of a page, seen from a relative source root. -/
theorem resolve_relative_exact_page :
    (ofRoot ["p"] (.ofString "src")).resolve "../hooks/./useA" (.ofString "/p/src/pages") =
      some "src/hooks/useA" := by
  refine (resolve_relative_exact (by decide) (by decide) (by decide +kernel) (by decide)
    (by decide +kernel) (by decide +kernel)).trans ?_
  decide +kernel

/-- **A source root at the double root is not rebased**, though the names lie below its names. -/
theorem not_rebased_doubleRoot :
    ¬ ∀ (cwd : List String) (root origin specifier : String), (∀ n ∈ cwd, IsName n) →
      (∀ s ∈ root :: origin :: specifier :: cwd, '\\' ∉ s.toList) →
      isRelative specifier = true → (Path.ofString origin).anchor ≠ .doubleRoot →
      normalText cwd (.ofString root) ≠ "/" →
      (ofRoot cwd (.ofString root)).resolve specifier (.ofString origin) =
        some (rebase (Path.ofString root).name (evaluated cwd root)
          (evaluate (evaluated cwd origin) specifier)) := by
  intro hall
  have h := hall [] "//a/b" "/a/b" "./c" (by decide) (by decide) (by decide) (by decide +kernel)
    (by decide +kernel)
  revert h
  decide +kernel

end Unimported.Resolver
