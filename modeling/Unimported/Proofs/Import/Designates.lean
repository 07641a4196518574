import Unimported.Import.Resolver
import Unimported.Proofs.Path.Names
import Unimported.Proofs.Settings.Accepted

/-!
# Specifiers that designate a module

A specifier designates a module of a directory below the source root when it is the alias path of
the module, or when it is relative and its normal form is the path of the module.  Either way the
target ends in the directory and the module, with a slash between them: a root is cut off or a
slash at the front is dropped, but the end of the path stays as it is.

## Main definitions

* `Path.IsNormalText` — a text without empty names, `.` and `..`.
* `Resolver.Designates` — a specifier designates a module of a directory.

## Main results

* `Resolver.targetOf_append` — what stands at the end of a path stands at the end of its target.
* `Resolver.resolve_alias` — the target of a specifier behind the alias.
* `Resolver.resolve_of_designates` — **the target of a specifier that designates a module ends in
  the directory and the module.**
-/

namespace Unimported

open Settings (IsInside)

namespace Path

/-- A text whose pieces between slashes all name something; there is no slash at its end. -/
def IsNormalText (s : String) : Prop := ∀ piece ∈ pieces s, piece ≠ "" ∧ piece ≠ "." ∧ piece ≠ ".."

instance (s : String) : Decidable (IsNormalText s) :=
  inferInstanceAs (Decidable (∀ piece ∈ pieces s, piece ≠ "" ∧ piece ≠ "." ∧ piece ≠ ".."))

/-- There is no slash at the end. -/
theorem IsNormalText.last_ne_slash {s : String} (h : IsNormalText s) :
    s.toList.reverse.head? ≠ some '/' := by
  rw [List.head?_reverse]
  intro hlast
  obtain ⟨front, hfront⟩ := List.getLast?_eq_some_iff.mp hlast
  -- behind a slash at the end there would be an empty piece
  have hsplit : s = String.ofList front ++ "/" ++ "" := by
    rw [← String.toList_inj, hfront]
    simp
  have hempty : "" ∈ pieces s := by
    rw [hsplit, pieces_append]
    exact List.mem_append_right _ (by decide)
  exact (h "" hempty).1 rfl

theorem ofString_of_isNormalText {s : String} (hin : IsInside s) (h : IsNormalText s) :
    ofString s = ⟨.current, pieces s⟩ := by
  refine ofString_of_names hin.head_ne_slash (List.filter_eq_self.mpr fun piece hp => ?_)
  simp [isSegment, (h piece hp).1, (h piece hp).2.1]

theorem anchor_absolute_ne_current (cwd : List String) (p : Path) :
    (p.absolute cwd).anchor ≠ .current := by
  unfold absolute
  split
  · exact fun h => by cases h
  · next h => exact h

/-- The text of a path from a root. -/
theorem text_of_anchor {p : Path} (h : p.anchor ≠ .current) :
    p.text = p.anchor.text ++ slashed p.segments :=
  if_neg fun hp => h hp.1

end Path

namespace Resolver

open Path (IsNormalText pieces slashed)

/-- A specifier in a file of the directory `origin` designates a module of the directory `dir` below
a source root. -/
def Designates (cwd : List String) (root : Path) (dir module : String) (origin : Path)
    (specifier : String) : Prop :=
  (isRelative specifier = true ∧
    (origin.joinText specifier).absolute cwd =
      ((root.absolute cwd).joinText dir).child module) ∨
  specifier = aliasMark ++ dir ++ "/" ++ module

/-! ### Slashes in place of backslashes -/

theorem forwardSlashes_append (s t : String) :
    forwardSlashes (s ++ t) = forwardSlashes s ++ forwardSlashes t := by
  simp [forwardSlashes]

theorem forwardSlashes_of_not_mem {s : String} (h : '\\' ∉ s.toList) : forwardSlashes s = s := by
  unfold forwardSlashes
  rw [← String.toList_inj, String.toList_ofList]
  have hid : ∀ c ∈ s.toList, (if c = '\\' then '/' else c) = c := by
    intro c hc
    rw [if_neg]
    rintro rfl
    exact h hc
  rw [List.map_congr_left hid, List.map_id']

/-! ### Targets -/

/-- **What stands at the end of a path below the root stands at the end of its target.** -/
theorem targetOf_append (r : Resolver) (mid back : String) (hne : back ≠ "")
    (hback : back.toList.head? ≠ some '/') :
    ∃ front, r.targetOf (r.rootText ++ mid ++ back) = front ++ back := by
  obtain ⟨c, cs, hcs⟩ : ∃ c cs, back.toList = c :: cs :=
    List.exists_cons_of_ne_nil fun h => hne (String.toList_inj.mp h)
  unfold targetOf
  split
  · next heq =>
    -- the path is longer than the root
    have hlen := congrArg (fun s : String => s.toList.length) heq
    simp only [String.toList_append, List.length_append, hcs, List.length_cons] at hlen
    omega
  · split
    · refine ⟨r.rootName ++ mid, ?_⟩
      rw [← String.toList_inj]
      simp [List.append_assoc]
    · refine ⟨String.ofList ((r.rootText ++ mid).toList.dropWhile (· = '/')), ?_⟩
      have hc : c ≠ '/' := by simpa [hcs] using hback
      have happ : (r.rootText ++ mid ++ back).toList = (r.rootText ++ mid).toList ++ back.toList :=
        String.toList_append
      rw [← String.toList_inj, String.toList_ofList, happ, List.dropWhile_append]
      split
      · next hall =>
        rw [String.toList_append, String.toList_ofList, List.isEmpty_iff.mp hall]
        simp [hcs, hc]
      · simp

/-- The text of a path below a root ends in its last segments. -/
theorem text_append {root : Path} (hroot : root.anchor ≠ .current) (segments : List String)
    (hne : segments ≠ []) :
    ∃ mid, Path.text ⟨root.anchor, root.segments ++ segments⟩ =
      root.text ++ mid ++ slashed segments := by
  have htext : Path.text ⟨root.anchor, root.segments ++ segments⟩ =
      root.anchor.text ++ slashed (root.segments ++ segments) := Path.text_of_anchor hroot
  rw [htext, Path.text_of_anchor hroot]
  by_cases hs : root.segments = []
  · exact ⟨"", by simp [hs, slashed]⟩
  · exact ⟨"/", by rw [Path.slashed_append hs hne]; simp [String.append_assoc]⟩

theorem slashed_pieces_concat (dir module : String) :
    slashed (pieces dir ++ [module]) = dir ++ "/" ++ module := by
  rw [Path.slashed_append (Path.pieces_ne_nil dir) (by simp), Path.slashed_pieces,
    Path.slashed_singleton]

/-- **The target of a specifier behind the alias** is what stands there, behind the name of the source
root. -/
theorem resolve_alias (r : Resolver) (s : String) (origin : Path) :
    r.resolve (aliasMark ++ s) origin = some (r.rootName ++ "/" ++ s) := by
  have hrel : isRelative (aliasMark ++ s) = false := by
    simp [isRelative, Text.opens, aliasMark, List.isPrefixOf]
  have halias : Text.opens aliasMark (aliasMark ++ s) = true := by
    rw [Text.opens_iff]
    simp
  unfold resolve
  rw [if_neg (by simp [hrel]), if_pos halias, String.toList_append, List.drop_left,
    String.ofList_toList]

/-- **The target of a specifier that designates a module ends in the directory and the module.** -/
theorem resolve_of_designates {cwd : List String} {root origin : Path}
    {dir module specifier : String} (hin : IsInside dir) (hnormal : IsNormalText dir)
    (hmodule : '\\' ∉ module.toList) (h : Designates cwd root dir module origin specifier) :
    ∃ front, (ofRoot cwd root).resolve specifier origin =
      some (front ++ (dir ++ "/" ++ module)) := by
  rcases h with ⟨hrel, heq⟩ | rfl
  · have hback : (dir ++ "/" ++ module).toList.head? ≠ some '/' := by
      rw [String.append_assoc, hin.head_append]
      exact hin.head_ne_slash
    have hplain : '\\' ∉ (dir ++ "/" ++ module).toList := by
      simp [hin.no_backslash, hmodule]
    have hpath : ((root.absolute cwd).joinText dir).child module =
        ⟨(root.absolute cwd).anchor, (root.absolute cwd).segments ++ (pieces dir ++ [module])⟩ := by
      rw [Path.joinText, Path.ofString_of_isNormalText hin hnormal, Path.join_current, Path.child,
        List.append_assoc]
    obtain ⟨mid, htext⟩ := text_append (Path.anchor_absolute_ne_current cwd root)
      (pieces dir ++ [module]) (by simp)
    obtain ⟨front, htarget⟩ := targetOf_append (ofRoot cwd root) (forwardSlashes mid)
      (dir ++ "/" ++ module) (by simp) hback
    refine ⟨front, ?_⟩
    unfold resolve
    rw [if_pos hrel, ← htarget]
    show some ((ofRoot cwd root).targetOf (forwardSlashes _)) = _
    rw [show (ofRoot cwd root).cwd = cwd from rfl, heq, hpath, htext, forwardSlashes_append,
      forwardSlashes_append, slashed_pieces_concat, forwardSlashes_of_not_mem hplain]
    rfl
  · refine ⟨root.name ++ "/", ?_⟩
    have halias := resolve_alias (ofRoot cwd root) (dir ++ "/" ++ module) origin
    simp only [← String.append_assoc] at halias ⊢
    exact halias

end Resolver

end Unimported
