import Unimported.Proofs.Import.Alias

/-!
# Imports that leave the source root

What lies in the source root has a target that is written from the name of the source root, and so
has every import behind the alias.  A relative specifier that leaves the source root keeps its whole
path, without the slash in front.  The two kinds of targets are not kept apart: the first name of a
path may be that of the source root, and then the target looks like one of the source root, though
nothing in there is meant.

## Main definitions

* `Path.IsWithin` — paths at or below a base.
* `Resolver.IsNamedAfter` — targets that are written from a name.

## Main results

* `Resolver.targetOf_absolute` — the target of a path from any root.
* `Resolver.isNamedAfter_slashed` — names with slashes between them are written from the first.
* `Resolver.resolve_isNamedAfter_iff` — **which relative specifiers have a target that is written
  from the name of the source root.**
-/

namespace Unimported

/-- A path lies at a base or below it: it starts where the base starts, and its names go on behind
those of the base. -/
structure Path.IsWithin (base p : Path) : Prop where
  anchor : p.anchor = base.anchor
  names : base.segments <+: p.segments

instance (base p : Path) : Decidable (base.IsWithin p) :=
  decidable_of_iff (p.anchor = base.anchor ∧ base.segments <+: p.segments)
    ⟨fun h => ⟨h.1, h.2⟩, fun h => ⟨h.anchor, h.names⟩⟩

namespace Path

/-- A path that ends in a name ends in one that can stand on a stack. -/
theorem isStep_name_ofString {s : String} (hne : (ofString s).name ≠ "")
    (hdots : (ofString s).name ≠ "..") : IsStep (ofString s).name := by
  rcases List.eq_nil_or_concat (ofString s).segments with hnil | ⟨init, n, hn⟩
  · simp [name, hnil] at hne
  · rw [List.concat_eq_append] at hn
    have hname : (ofString s).name = n := by simp [name, hn]
    have hmem : n ∈ (ofString s).segments := by simp [hn]
    obtain ⟨hpiece, hsegment⟩ := List.mem_filter.mp hmem
    rw [hname] at hdots ⊢
    exact ⟨hsegment, hdots, (of_mem_pieces hpiece).1⟩

/-- The normal form of a path that ends in a name is not a root. -/
theorem segments_absolute_ne_nil (cwd : List String) {p : Path} (hne : p.name ≠ "")
    (hdots : p.name ≠ "..") : (p.absolute cwd).segments ≠ [] := by
  unfold absolute
  split
  · have hname : (⟨.current, cwd ++ p.segments⟩ : Path).name = p.name := by
      rcases List.eq_nil_or_concat p.segments with hnil | ⟨init, n, hn⟩
      · simp [name, hnil] at hne
      · simp [name, hn, ← List.append_assoc]
    exact collapse_ne_nil (hname ▸ hne) (hname ▸ hdots)
  · exact collapse_ne_nil hne hdots

end Path

namespace Resolver

open Path (IsStep IsName pieces slashed evaluate evaluated)

/-- A target is written from a name: it is the name, or it goes on behind it with a slash. -/
def IsNamedAfter (name target : String) : Prop :=
  target = name ∨ Text.opens (name ++ "/") target = true

instance (name target : String) : Decidable (IsNamedAfter name target) :=
  inferInstanceAs (Decidable (_ ∨ _))

variable {name : String} {base loc : List String}

/-! ### Targets of paths from any root -/

/-- One more slash in front of the source root and of a path makes no difference below it. -/
theorem targetOf_slash {r : Resolver} {rootText path : String} (h : r.rootText = "/" ++ rootText) :
    r.targetOf ("/" ++ path) = { r with rootText }.targetOf path := by
  have hopens :
      Text.opens ("/" ++ rootText ++ "/") ("/" ++ path) = Text.opens (rootText ++ "/") path := by
    rw [Bool.eq_iff_iff, Text.opens_iff, Text.opens_iff]
    simp
  unfold targetOf
  rw [h, hopens]
  simp

theorem text_doubleRoot_eq (loc : List String) :
    Path.text ⟨.doubleRoot, loc⟩ = "/" ++ Path.text ⟨.root, loc⟩ := by
  rw [text_doubleRoot, text_root, ← String.toList_inj]
  simp

/-- Nothing that starts at the double root lies below a source root that starts at the root. -/
theorem targetOf_text_of_root {r : Resolver} (hroot : r.rootText = Path.text ⟨.root, base⟩)
    (hne : base ≠ []) (hbase : ∀ n ∈ base, IsStep n) (hloc : ∀ n ∈ loc, IsStep n) :
    r.targetOf (Path.text ⟨.doubleRoot, loc⟩) = slashed loc := by
  -- the second character tells the two roots apart
  obtain ⟨c, cs, hcs⟩ : ∃ c cs, (slashed base).toList = c :: cs := by
    refine List.exists_cons_of_ne_nil fun hnil => ?_
    have hpieces := Path.pieces_slashed hne fun n hn => (hbase n hn).no_slash
    rw [String.toList_inj.mp (hnil.trans (String.toList_empty).symm)] at hpieces
    have hempty : ("" : String) ∈ base := hpieces ▸ by decide
    exact absurd (hbase _ hempty).isSegment (by decide)
  have hc : c ≠ '/' := by
    simpa [hcs] using Path.head_slashed (isSegment_of_isStep hbase)
  have hroot' : r.rootText.toList = '/' :: c :: cs := by
    rw [hroot, text_root]
    simp [hcs]
  have hpath : (Path.text ⟨.doubleRoot, loc⟩).toList = '/' :: '/' :: (slashed loc).toList := by
    rw [text_doubleRoot]
    simp
  have hother : Path.text ⟨.doubleRoot, loc⟩ ≠ r.rootText := by
    intro h
    rw [← String.toList_inj, hpath, hroot'] at h
    exact hc (List.cons.inj (List.cons.inj h).2).1.symm
  have hclosed : ¬ Text.opens (r.rootText ++ "/") (Path.text ⟨.doubleRoot, loc⟩) = true := by
    rw [Text.opens_iff, String.toList_append, hroot', hpath]
    intro h
    exact hc (List.cons_prefix_cons.mp (List.cons_prefix_cons.mp h).2).1
  unfold targetOf
  rw [if_neg hother, if_neg hclosed, text_doubleRoot_eq, ← dropWhile_text_root hloc]
  simp

/-- **The target of a path from any root.** -/
theorem targetOf_absolute {r : Resolver} {root p : Path} (hroot : r.rootText = root.text)
    (hrootAnchor : root.anchor ≠ .current) (hanchor : p.anchor ≠ .current)
    (hne : root.segments ≠ []) (hbase : ∀ n ∈ root.segments, IsStep n)
    (hloc : ∀ n ∈ p.segments, IsStep n) :
    r.targetOf p.text =
      if p.anchor = root.anchor then rebase r.rootName root.segments p.segments
      else slashed p.segments := by
  obtain ⟨rootAnchor, base⟩ := root
  obtain ⟨anchor, loc⟩ := p
  cases rootAnchor with
  | current => exact absurd rfl hrootAnchor
  | root =>
    cases anchor with
    | current => exact absurd rfl hanchor
    | root =>
      rw [if_pos rfl]
      exact targetOf_text hroot hne hbase hloc
    | doubleRoot =>
      rw [if_neg Anchor.noConfusion]
      exact targetOf_text_of_root hroot hne hbase hloc
  | doubleRoot =>
    cases anchor with
    | current => exact absurd rfl hanchor
    | root =>
      rw [if_neg Anchor.noConfusion]
      exact targetOf_text_doubleRoot hroot hloc
    | doubleRoot =>
      rw [text_doubleRoot_eq] at hroot
      rw [if_pos rfl, text_doubleRoot_eq, targetOf_slash hroot]
      exact targetOf_text rfl hne hbase hloc

/-! ### Targets that are written from a name -/

/-- **Names with slashes between them are written from the first of them.** -/
theorem isNamedAfter_slashed (hname : IsStep name) (hloc : ∀ n ∈ loc, IsStep n) :
    IsNamedAfter name (slashed loc) ↔ loc.head? = some name := by
  have hpieces : loc ≠ [] → pieces (slashed loc) = loc := fun hne =>
    Path.pieces_slashed hne fun n hn => (hloc n hn).no_slash
  have hself : pieces name = [name] := Path.pieces_of_not_mem hname.no_slash
  constructor
  · intro h
    have hne : loc ≠ [] := by
      rintro rfl
      have hnone : (slashed []).toList = [] := by simp [slashed]
      rcases h with h | h
      · have hempty : name = "" :=
          String.toList_inj.mp ((congrArg String.toList h).symm.trans hnone)
        exact absurd (hempty ▸ hname.isSegment) (by decide)
      · rw [Text.opens_iff, hnone, List.prefix_nil] at h
        simp at h
    rw [← hpieces hne]
    rcases h with h | h
    · rw [h, hself]
      rfl
    · obtain ⟨back, hback⟩ := Text.opens_iff.mp h
      have htext : slashed loc = name ++ "/" ++ String.ofList back := by
        rw [← String.toList_inj, ← hback]
        simp
      rw [htext, Path.pieces_append, hself]
      rfl
  · intro h
    obtain ⟨rest, rfl⟩ : ∃ rest, loc = name :: rest := by
      cases loc with
      | nil => cases h
      | cons n rest => exact ⟨rest, by rw [Option.some.inj h]⟩
    by_cases hrest : rest = []
    · exact Or.inl (by rw [hrest, Path.slashed_singleton])
    · refine Or.inr ?_
      have hslashed : slashed (name :: rest) = name ++ "/" ++ slashed rest := by
        have h := Path.slashed_append (List.cons_ne_nil name []) hrest
        rwa [Path.slashed_singleton, List.singleton_append] at h
      rw [hslashed, Text.opens_iff]
      simp

/-- What is rebased lies at or below the base, or its first name is that of the base. -/
theorem isNamedAfter_rebase (hname : IsStep name) (hloc : ∀ n ∈ loc, IsStep n) :
    IsNamedAfter name (rebase name base loc) ↔ base <+: loc ∨ loc.head? = some name := by
  by_cases hprefix : base <+: loc
  · obtain ⟨rest, rfl⟩ := hprefix
    rw [rebase_append]
    refine iff_of_true ?_ (Or.inl (List.prefix_append base rest))
    by_cases hrest : rest = []
    · exact Or.inl (by rw [if_pos hrest, String.append_empty])
    · refine Or.inr ?_
      rw [if_neg hrest, Text.opens_iff]
      simp
  · have hother : loc ≠ base := fun h => hprefix (h ▸ List.prefix_rfl)
    unfold rebase
    rw [if_neg hother, if_neg hprefix, isNamedAfter_slashed hname hloc, or_iff_right hprefix]

/-! ### Relative specifiers -/

section Plain

variable {cwd : List String}

variable (hcwd : ∀ n ∈ cwd, IsName n)

include hcwd

/-- **Which relative specifiers have a target that is written from the name of the source root**:
those whose path lies at or below the source root, and those that leave it for a path whose first
name is that of the source root.  A backslash is read as a slash, so there must be none in what these
paths are made of. -/
theorem resolve_isNamedAfter_iff {root origin specifier : String}
    (hplain : ∀ s ∈ [root, origin, specifier], '\\' ∉ s.toList)
    (hstart : ∀ s ∈ [root, origin], (Path.ofString s).isAbsolute = false →
      ∀ n ∈ cwd, '\\' ∉ n.toList)
    (hne : (Path.ofString root).name ≠ "") (hdots : (Path.ofString root).name ≠ "..")
    (hrel : isRelative specifier = true) :
    ∃ target,
      (ofRoot cwd (.ofString root)).resolve specifier (.ofString origin) = some target ∧
      (IsNamedAfter (Path.ofString root).name target ↔
        ((Path.ofString root).absolute cwd).IsWithin
            (((Path.ofString origin).joinText specifier).absolute cwd) ∨
          (((Path.ofString origin).joinText specifier).absolute cwd).segments.head? =
            some (Path.ofString root).name) := by
  have hcwddots : ".." ∉ cwd := fun h => (hcwd _ h).ne_dots rfl
  have hhead := head_ne_slash_of_isRelative hrel
  have hname := Path.isStep_name_ofString hne hdots
  have hbase : ∀ n ∈ ((Path.ofString root).absolute cwd).segments, IsStep n := by
    rw [Path.segments_absolute_ofString hcwddots]
    exact isStep_of_mem_evaluated hcwd root
  have hsteps : ∀ n ∈ (((Path.ofString origin).joinText specifier).absolute cwd).segments,
      IsStep n := by
    rw [Path.segments_absolute_joinText hcwddots origin specifier hhead]
    exact fun n => Path.isStep_of_mem_evaluate (isStep_of_mem_evaluated hcwd origin)
  have hroot : (ofRoot cwd (.ofString root)).rootText = ((Path.ofString root).absolute cwd).text :=
    normalText_ofString_eq_text hcwd (hplain root (by simp)) (hstart root (by simp))
  refine ⟨_, if_pos hrel, ?_⟩
  change IsNamedAfter _ ((ofRoot cwd (.ofString root)).targetOf (normalText cwd _)) ↔ _
  rw [normalText_joinText_eq_text hcwd hhead (hplain origin (by simp)) (hplain specifier (by simp))
      (hstart origin (by simp)),
    targetOf_absolute hroot (Path.anchor_absolute_ne_current cwd _)
      (Path.anchor_absolute_ne_current cwd _) (Path.segments_absolute_ne_nil cwd hne hdots) hbase
      hsteps]
  split
  · next hanchor =>
    exact (isNamedAfter_rebase hname hsteps).trans
      (or_congr_left ⟨fun h => ⟨hanchor, h⟩, fun h => h.names⟩)
  · next hanchor =>
    rw [isNamedAfter_slashed hname hsteps, or_iff_right fun h => hanchor h.anchor]

end Plain

/-- An import that leaves a source root, not for a folder of the same name. -/
theorem resolve_isNamedAfter_shared :
    ∃ target, (ofRoot ["p"] (.ofString "/p/src")).resolve "../../shared/src/theme"
        (.ofString "/p/src/pages") = some target ∧ ¬ IsNamedAfter "src" target := by
  obtain ⟨target, htarget, hiff⟩ := @resolve_isNamedAfter_iff ["p"] (by decide) "/p/src"
    "/p/src/pages" "../../shared/src/theme" (by decide) (by decide +kernel) (by decide +kernel)
    (by decide +kernel) (by decide)
  have hname : (Path.ofString "/p/src").name = "src" := by decide +kernel
  rw [hname] at hiff
  exact ⟨target, htarget, fun h => absurd (hiff.mp h) (by decide +kernel)⟩

/-- **An import that leaves the source root can land among its targets**: from `/p/src` it may lead
to `/src/x`, which has nothing to do with the source root but the name. -/
theorem not_isWithin_namesake :
    ¬ ∀ (cwd : List String) (root origin specifier : String), (∀ n ∈ cwd, IsName n) →
      (∀ s ∈ [root, origin, specifier], '\\' ∉ s.toList) →
      (∀ s ∈ [root, origin], (Path.ofString s).isAbsolute = false →
        ∀ n ∈ cwd, '\\' ∉ n.toList) →
      (Path.ofString root).isAbsolute = true → (Path.ofString root).name ≠ "" →
      (Path.ofString root).name ≠ ".." → isRelative specifier = true →
      ∃ target,
        (ofRoot cwd (.ofString root)).resolve specifier (.ofString origin) = some target ∧
        (IsNamedAfter (Path.ofString root).name target ↔
          ((Path.ofString root).absolute cwd).IsWithin
            (((Path.ofString origin).joinText specifier).absolute cwd)) := by
  intro hall
  obtain ⟨target, htarget, hiff⟩ := hall [] "/p/src" "/p/src" "../../src/x" (by decide) (by decide)
    (by decide +kernel) (by decide +kernel) (by decide +kernel) (by decide +kernel) (by decide)
  have hvalue : (ofRoot [] (.ofString "/p/src")).resolve "../../src/x" (.ofString "/p/src") =
      some "src/x" := by decide +kernel
  obtain rfl : "src/x" = target := Option.some.inj (hvalue.symm.trans htarget)
  exact absurd (hiff.mp (by decide +kernel)) (by decide +kernel)

end Resolver

end Unimported
