import Unimported.Proofs.Import.Detour

/-!
# Specifiers that designate a directory

A specifier designates a directory below the source root when it is the alias path of the directory,
or when it is relative to the importing directory and its normal form is the path of the directory.
Its target is the path of the directory, and nothing is added to it: what the directory holds, an
index among it, is not looked up.  A lone dot and two lone dots designate a directory as well, but
they have no target, because they do not start like a relative specifier.

## Main definitions

* `Resolver.DesignatesDirectory` — a specifier designates a directory.
* `Resolver.directoryTarget` — the path of a directory, written from the name of the source root.

## Main results

* `Path.exists_piece_of_infix` — what stands behind a slash stands at the front of a piece.
* `Resolver.targetOf_directory` — the target of the path of a directory.
* `Resolver.resolve_of_designatesDirectory` — **the target of a specifier that designates a
  directory.**
-/

namespace Unimported

open Settings (IsInside)

namespace Path

/-- **What stands behind a slash stands at the front of a piece**, and of one behind the first. -/
theorem exists_piece_of_infix {mark s : String} (hmark : '/' ∉ mark.toList)
    (h : '/' :: mark.toList <:+: s.toList) :
    ∃ piece ∈ (pieces s).tail, mark.toList <+: piece.toList := by
  obtain ⟨front, back, hs⟩ := h
  -- the mark goes on up to the next slash, or to the end of the text
  have hsplit : s = String.ofList front ++ "/" ++ (mark ++ String.ofList back) := by
    rw [← String.toList_inj, ← hs]
    simp
  have hback : ∃ piece rest, pieces (mark ++ String.ofList back) = piece :: rest ∧
      mark.toList <+: piece.toList := by
    by_cases hslash : '/' ∈ back
    · obtain ⟨before, after, hback, hbefore⟩ := List.eq_append_cons_of_mem hslash
      have hcut : mark ++ String.ofList back =
          mark ++ String.ofList before ++ "/" ++ String.ofList after := by
        rw [← String.toList_inj, hback]
        simp
      have hplain : '/' ∉ (mark ++ String.ofList before).toList := by
        simp [hmark, hbefore]
      refine ⟨mark ++ String.ofList before, pieces (String.ofList after), ?_, by simp⟩
      rw [hcut, pieces_append, pieces_of_not_mem hplain, List.singleton_append]
    · have hplain : '/' ∉ (mark ++ String.ofList back).toList := by
        simp [hmark, hslash]
      exact ⟨mark ++ String.ofList back, [], pieces_of_not_mem hplain, by simp⟩
  obtain ⟨piece, rest, hpieces, hprefix⟩ := hback
  refine ⟨piece, ?_, hprefix⟩
  rw [hsplit, pieces_append, hpieces, List.tail_append_of_ne_nil (pieces_ne_nil _)]
  exact List.mem_append_right _ List.mem_cons_self

end Path

namespace Resolver

open Path (IsNormalText pieces slashed)

/-- A specifier in a file of the directory `origin` designates the directory `dir` below a source
root. -/
def DesignatesDirectory (cwd : List String) (root : Path) (dir : String) (origin : Path)
    (specifier : String) : Prop :=
  ((isRelative specifier = true ∨ specifier = "." ∨ specifier = "..") ∧
    (origin.joinText specifier).absolute cwd = (root.absolute cwd).joinText dir) ∨
  specifier = aliasMark ++ dir

/-- The path of a directory below a source root, written from the name of the source root; the root
of all paths has none. -/
def directoryTarget (cwd : List String) (root : Path) (dir : String) : String :=
  if (root.absolute cwd).segments = [] then dir else root.name ++ "/" ++ dir

variable {cwd : List String} {root origin : Path} {dir specifier : String}

/-- From the root of all paths, which ends in a slash, nothing lies behind one more slash. -/
theorem targetOf_slashes {r : Resolver} {anchor : Anchor} (hanchor : anchor ≠ .current)
    (hroot : r.rootText = anchor.text) (hne : dir.toList ≠ []) (hhead : dir.toList.head? ≠ some '/') :
    r.targetOf (anchor.text ++ dir) = dir := by
  obtain ⟨c, cs, hcs⟩ := List.exists_cons_of_ne_nil hne
  have hc : c ≠ '/' := by
    simpa [hcs] using hhead
  have hsame : anchor.text ++ dir ≠ anchor.text := by
    intro h
    have hlen := congrArg (fun s : String => s.toList.length) h
    simp [hcs] at hlen
  have hbehind : Text.opens (anchor.text ++ "/") (anchor.text ++ dir) = false := by
    rw [Bool.eq_false_iff, Ne, Text.opens_iff, String.toList_append, String.toList_append,
      List.prefix_append_right_inj, hcs]
    exact fun h => hc (List.cons_prefix_cons.mp h).1.symm
  have hall : ∀ d ∈ anchor.text.toList, decide (d = '/') = true := by
    cases anchor with
    | current => exact absurd rfl hanchor
    | root => simp [Anchor.text]
    | doubleRoot => simp [Anchor.text]
  unfold targetOf
  rw [hroot, if_neg hsame, if_neg (by simp [hbehind]), String.toList_append,
    List.dropWhile_append_of_pos hall, ← String.toList_inj, hcs]
  simp [hc]

/-- **The target of the path of a directory.** -/
theorem targetOf_directory (hin : IsInside dir) (hnormal : IsNormalText dir) :
    (ofRoot cwd root).targetOf (forwardSlashes ((root.absolute cwd).joinText dir).text) =
      directoryTarget cwd root dir := by
  have hanchor := Path.anchor_absolute_ne_current cwd root
  have hclean := forwardSlashes_of_not_mem hin.no_backslash
  have hroot : (ofRoot cwd root).rootText = forwardSlashes (root.absolute cwd).text := rfl
  have htext : ((root.absolute cwd).joinText dir).text = (root.absolute cwd).anchor.text ++
      slashed ((root.absolute cwd).segments ++ pieces dir) := by
    rw [Path.joinText, Path.ofString_of_isNormalText hin hnormal, Path.join_current]
    exact Path.text_of_anchor hanchor
  unfold directoryTarget
  split
  · next hs =>
    have hslashes : forwardSlashes (root.absolute cwd).anchor.text =
        (root.absolute cwd).anchor.text := forwardSlashes_of_not_mem (by
      cases (root.absolute cwd).anchor <;> decide)
    have hnone : slashed [] = "" := by simp [slashed]
    rw [Path.text_of_anchor hanchor, hs, hnone, String.append_empty, hslashes] at hroot
    rw [htext, hs, List.nil_append, Path.slashed_pieces, forwardSlashes_append, hclean, hslashes]
    exact targetOf_slashes hanchor hroot hin.toList_ne_nil hin.head_ne_slash
  · next hs =>
    have hbelow : forwardSlashes ((root.absolute cwd).joinText dir).text =
        (ofRoot cwd root).rootText ++ ("/" ++ dir) := by
      have hslash : forwardSlashes "/" = "/" := by decide
      rw [hroot, htext, Path.slashed_append hs (Path.pieces_ne_nil dir), Path.slashed_pieces,
        Path.text_of_anchor hanchor]
      simp only [forwardSlashes_append, hclean, hslash, String.append_assoc]
    rw [hbelow, targetOf_below _ (Or.inr (by simp)), String.append_assoc]
    rfl

/-- **The target of a specifier that designates a directory** is the path of the directory, as it is
written from the name of the source root, with nothing behind it.  Lone dots have no target. -/
theorem resolve_of_designatesDirectory (hin : IsInside dir) (hnormal : IsNormalText dir)
    (h : DesignatesDirectory cwd root dir origin specifier) :
    (ofRoot cwd root).resolve specifier origin = some (root.name ++ "/" ++ dir) ∨
      (ofRoot cwd root).resolve specifier origin = some (directoryTarget cwd root dir) ∨
      (ofRoot cwd root).resolve specifier origin = none ∧ (specifier = "." ∨ specifier = "..") := by
  rcases h with ⟨hrel, heq⟩ | rfl
  · by_cases hslash : isRelative specifier = true
    · refine Or.inr (Or.inl ?_)
      unfold resolve
      rw [if_pos hslash, ← targetOf_directory hin hnormal, ← heq]
      rfl
    · have hdots := hrel.resolve_left hslash
      have halias : Text.opens aliasMark specifier = false := by
        rcases hdots with rfl | rfl <;> decide
      refine Or.inr (Or.inr ⟨?_, hdots⟩)
      unfold resolve
      rw [if_neg hslash, if_neg (by simp [halias])]
  · exact Or.inl (resolve_alias _ dir origin)

end Resolver

end Unimported
