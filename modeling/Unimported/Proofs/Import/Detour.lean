import Unimported.Proofs.Import.Relative
import Unimported.Proofs.Path.Detour

/-!
# Specifiers that leave the source root

A relative specifier takes a detour: from the importing directory so many levels out, and then down
again.  If the detour stays below the source root, the target is told without the directories above
the source root.  If it leaves the source root, the target names some of them.

A module is mentioned by its directory and its name, with a slash between them.  The directories
above the source root can only add to what a target mentions where one of their names ends like the
directory of the module does.

## Main definitions

* `Resolver.Leaves` — a specifier leaves the source root.
* `Resolver.EndsAbove` — a name on the way to a directory ends in a mark.

## Main results

* `Resolver.resolve_of_not_leaves` — **a target below the source root does not depend on where the
  source root is.**
* `Resolver.infix_targetOf_iff` — what a target mentions, its path does.
* `Resolver.infix_resolve_iff` — **what a target mentions, the names of the detour do.**
* `Resolver.exists_mention` — what an import mentions at one place and at another.
-/

namespace Unimported

namespace Path

/-! ### Texts of ways -/

/-- Names with a slash behind each. -/
def shut : List String → String
  | [] => ""
  | n :: names => n ++ "/" ++ shut names

theorem shut_append (front back : List String) : shut (front ++ back) = shut front ++ shut back := by
  induction front with
  | nil => simp [shut]
  | cons n front ih =>
    rw [List.cons_append, shut, shut, ih]
    simp only [String.append_assoc]

/-- A slash stands at the end, if there is a name. -/
theorem shut_eq_slashed {names : List String} (h : names ≠ []) :
    shut names = slashed names ++ "/" := by
  induction names with
  | nil => exact absurd rfl h
  | cons n names ih =>
    by_cases hn : names = []
    · subst hn
      simp [shut]
    · rw [shut, ih hn, ← List.singleton_append, slashed_append (by simp) hn, slashed_singleton]
      simp only [String.append_assoc]

theorem slashed_append_eq_shut (front : List String) {back : List String} (h : back ≠ []) :
    slashed (front ++ back) = shut front ++ slashed back := by
  by_cases hf : front = []
  · subst hf
    simp [shut]
  · rw [slashed_append hf h, shut_eq_slashed hf]

end Path

namespace Resolver

open Path (slashed shut detour Detour pieces)

/-! ### Mentions and slashes -/

section Mentions

variable {mark rest before cs : List Char} {c : Char}

/-- A mark with a slash behind it does not begin in front of a text that ends in a slash, unless
it stands in there. -/
theorem infix_append_iff (hmark : '/' ∉ mark) (hend : before = [] ∨ before.getLast? = some '/')
    (hclean : ¬ mark ++ ['/'] <:+: before) (rest after : List Char) :
    mark ++ '/' :: rest <:+: before ++ after ↔ mark ++ '/' :: rest <:+: after := by
  refine ⟨?_, fun h => h.trans (List.suffix_append before after).isInfix⟩
  rintro ⟨x, y, h⟩
  -- no part of the mark stands at the end of the text in front
  have hpart : ∀ part, part ⊆ mark → before = x ++ part → part = [] := by
    intro part hsub hbefore
    rcases List.eq_nil_or_concat part with hnil | ⟨init, d, rfl⟩
    · exact hnil
    · have hlast : before.getLast? = some '/' := hend.resolve_left (by simp [hbefore])
      have hd : d = '/' := by simpa [hbefore] using hlast
      exact absurd (hsub (by simp [hd])) hmark
  have hsplit : x ++ mark ++ '/' :: (rest ++ y) = before ++ after := by
    rw [← h]
    simp
  rcases List.append_eq_append_iff.mp hsplit with ⟨part, hbefore, hafter⟩ | ⟨part, hfront, hafter⟩
  · cases part with
    | nil =>
      rw [List.append_nil] at hbefore
      obtain rfl := hpart mark (List.Subset.refl mark) hbefore
      exact ⟨[], y, hafter⟩
    | cons d part =>
      obtain ⟨rfl, -⟩ := List.cons.inj hafter
      exact absurd ⟨x, part, by simp [hbefore]⟩ hclean
  · rcases List.append_eq_append_iff.mp hfront with ⟨part', hbefore, hmark'⟩ | ⟨part', -, rfl⟩
    · have hsub : part' ⊆ mark := by
        rw [hmark']
        exact List.subset_append_left part' part
      obtain rfl := hpart part' hsub hbefore
      obtain rfl : mark = part := hmark'
      exact ⟨[], y, by simp [hafter]⟩
    · exact ⟨part', y, by simp [hafter]⟩

/-- Slashes at the front are of no account. -/
theorem infix_dropWhile_iff (hc : c ≠ '/') :
    c :: rest <:+: cs.dropWhile (· = '/') ↔ c :: rest <:+: cs := by
  induction cs with
  | nil => rfl
  | cons d cs ih =>
    by_cases hd : d = '/'
    · subst hd
      rw [List.dropWhile_cons_of_pos (by simp), ih, List.infix_cons_iff]
      refine ⟨Or.inr, fun h => h.resolve_left fun hp => ?_⟩
      exact hc (List.cons_prefix_cons.mp hp).1
    · rw [List.dropWhile_cons_of_neg (by simpa using hd)]

end Mentions

/-! ### Detours of specifiers -/

/-- The detour that a specifier in a directory below the source root of this name takes, seen from
the directory around the source root. -/
def detourOf (name : String) (dir : List String) (specifier : String) : Detour :=
  detour (name :: dir ++ (pieces specifier).filter Path.isSegment)

/-- A specifier in a directory below the source root of this name leaves the source root. -/
def Leaves (name : String) (dir : List String) (specifier : String) : Prop :=
  isRelative specifier = true ∧
    ¬ ((detourOf name dir specifier).out = 0 ∧
      (detourOf name dir specifier).names.head? = some name)

instance (name : String) (dir : List String) (specifier : String) :
    Decidable (Leaves name dir specifier) :=
  inferInstanceAs (Decidable (_ ∧ ¬ (_ ∧ _)))

/-- A name on the way to a directory ends in a mark; a backslash counts as a slash. -/
def EndsAbove (mark : String) (base : List String) : Prop :=
  (mark ++ "/").toList <:+: (forwardSlashes (shut base)).toList

instance (mark : String) (base : List String) : Decidable (EndsAbove mark base) :=
  decidable_of_iff (Text.occursIn (mark ++ "/") (forwardSlashes (shut base)) = true)
    Text.occursIn_iff

variable {name specifier : String} {dir base cwd : List String}

/-- The written normal form of a path that goes on from a directory. -/
theorem normalText_of_base (hbase : ".." ∉ base) (steps : List String) :
    normalText cwd ⟨.root, base ++ steps⟩ =
      "/" ++ forwardSlashes (slashed ((detour steps).arrive base)) := by
  have habsolute : Path.absolute cwd ⟨.root, base ++ steps⟩ =
      ⟨.root, (detour steps).arrive base⟩ := by
    rw [← Path.foldl_enter_eq_arrive, ← Path.collapse_append hbase]
    rfl
  have hslash : forwardSlashes "/" = "/" := by decide
  rw [normalText, habsolute, Path.text_of_anchor (by simp), forwardSlashes_append, Anchor.text,
    hslash]

/-- The text of a source root. -/
theorem rootText_ofRoot (hbase : ".." ∉ base) (hname : name ≠ "..") :
    (ofRoot cwd ⟨.root, base ++ [name]⟩).rootText =
      "/" ++ forwardSlashes (shut base) ++ forwardSlashes name := by
  have hdetour : detour [name] = ⟨0, [name]⟩ := by simp [detour, Detour.step, hname]
  rw [ofRoot, normalText_of_base hbase, hdetour, Path.Detour.arrive_of_out_eq_zero rfl,
    Path.slashed_append_eq_shut base (by simp), Path.slashed_singleton, forwardSlashes_append,
    ← String.append_assoc]

/-- The name of a source root. -/
theorem rootName_ofRoot : (ofRoot cwd ⟨.root, base ++ [name]⟩).rootName = name := by
  simp [ofRoot, Path.name]

/-- The target of a relative specifier is that of the place where its detour arrives. -/
theorem resolve_of_isRelative (hrel : isRelative specifier = true) (hbase : ".." ∉ base) :
    (ofRoot cwd ⟨.root, base ++ [name]⟩).resolve specifier (.under base (name :: dir)) =
      some ((ofRoot cwd ⟨.root, base ++ [name]⟩).targetOf
        ("/" ++ forwardSlashes (slashed ((detourOf name dir specifier).arrive base)))) := by
  have hjoin : (Path.under base (name :: dir)).joinText specifier =
      ⟨.root, base ++ (name :: dir ++ (pieces specifier).filter Path.isSegment)⟩ := by
    rw [Path.joinText, Path.ofString_of_names (head_ne_slash_of_isRelative hrel) rfl,
      Path.join_current, Path.under, List.append_assoc]
  unfold resolve
  rw [if_pos hrel, hjoin]
  exact congrArg (fun path => some (targetOf _ path)) (normalText_of_base hbase _)

/-! ### Targets below the source root -/

/-- **The two kinds of targets**: those that are told from the source root, and those that are told
in full. -/
theorem targetOf_cases (r : Resolver) (path : String) :
    (∃ tail, path = r.rootText ++ tail ∧ r.targetOf path = r.rootName ++ tail) ∨
      r.targetOf path = String.ofList (path.toList.dropWhile (· = '/')) := by
  unfold targetOf
  split
  · next h => exact Or.inl ⟨"", by simp [h], by simp⟩
  · split
    · next h =>
      obtain ⟨back, hback⟩ := Text.opens_iff.mp h
      refine Or.inl ⟨"/" ++ String.ofList back, ?_, ?_⟩
      · rw [← String.toList_inj, ← hback]
        simp
      · rw [← hback]
        simp
    · exact Or.inr rfl

/-- What lies below the source root is told from there. -/
theorem targetOf_below (r : Resolver) {tail : String}
    (htail : tail = "" ∨ tail.toList.head? = some '/') :
    r.targetOf (r.rootText ++ tail) = r.rootName ++ tail := by
  unfold targetOf
  rcases htail with rfl | htail
  · simp
  · obtain ⟨back, hback⟩ : ∃ back, tail = "/" ++ back := by
      cases hcs : tail.toList with
      | nil => simp [hcs] at htail
      | cons c cs =>
        rw [hcs] at htail
        refine ⟨String.ofList cs, ?_⟩
        rw [← String.toList_inj, hcs, Option.some.inj htail]
        simp
    have hne : r.rootText ++ tail ≠ r.rootText := by
      intro h
      have hlen := congrArg (fun s : String => s.toList.length) h
      simp [hback] at hlen
    have hopens : Text.opens (r.rootText ++ "/") (r.rootText ++ tail) = true := by
      rw [Text.opens_iff]
      exact ⟨back.toList, by simp [hback]⟩
    rw [if_neg hne, if_pos hopens, ← String.toList_inj]
    simp

/-- **A target below the source root does not depend on where the source root is.** -/
theorem resolve_of_not_leaves (h : ¬ Leaves name dir specifier) (hname : name ≠ "..")
    {base' cwd' : List String} (hbase : ".." ∉ base) (hbase' : ".." ∉ base') :
    (ofRoot cwd ⟨.root, base ++ [name]⟩).resolve specifier (.under base (name :: dir)) =
      (ofRoot cwd' ⟨.root, base' ++ [name]⟩).resolve specifier (.under base' (name :: dir)) := by
  by_cases hrel : isRelative specifier = true
  · obtain ⟨hout, hhead⟩ := Classical.not_not.mp fun hn => h ⟨hrel, hn⟩
    obtain ⟨rest, hrest⟩ := List.head?_eq_some_iff.mp hhead
    -- what stands behind the text of the source root is the same everywhere
    have htarget : ∀ cwd base, ".." ∉ base →
        (ofRoot cwd ⟨.root, base ++ [name]⟩).resolve specifier (.under base (name :: dir)) =
          some (name ++ if rest = [] then "" else "/" ++ forwardSlashes (slashed rest)) := by
      intro cwd base hbase
      have hslash : forwardSlashes "/" = "/" := by decide
      have hpath : "/" ++ forwardSlashes (slashed (base ++ name :: rest)) =
          (ofRoot cwd ⟨.root, base ++ [name]⟩).rootText ++
            if rest = [] then "" else "/" ++ forwardSlashes (slashed rest) := by
        rw [rootText_ofRoot hbase hname, Path.slashed_append_eq_shut base (by simp),
          forwardSlashes_append]
        by_cases hr : rest = []
        · subst hr
          simp [String.append_assoc]
        · rw [if_neg hr, ← List.singleton_append, Path.slashed_append (by simp) hr,
            Path.slashed_singleton, forwardSlashes_append, forwardSlashes_append, hslash]
          simp only [String.append_assoc]
      rw [resolve_of_isRelative hrel hbase, Path.Detour.arrive_of_out_eq_zero hout, hrest, hpath,
        targetOf_below, rootName_ofRoot]
      split
      · exact Or.inl rfl
      · exact Or.inr (by simp)
    rw [htarget cwd base hbase, htarget cwd' base' hbase']
  · unfold resolve
    rw [if_neg hrel, if_neg hrel, rootName_ofRoot, rootName_ofRoot]

example : ¬ Leaves "src" ["pages"] "../hooks/useA" := by decide +kernel

example : Leaves "src" ["pages"] "../../useB" := by decide +kernel

/-! ### What targets mention -/

section Mentions

variable {mark stem : String}

/-- The directories above add nothing to what is mentioned, unless one of their names ends in the
mark. -/
theorem infix_above_iff (hne : mark ≠ "") (hmark : '/' ∉ mark.toList)
    (hclean : ¬ EndsAbove mark base) (stem after : String) :
    (mark ++ "/" ++ stem).toList <:+: ("/" ++ forwardSlashes (shut base) ++ after).toList ↔
      (mark ++ "/" ++ stem).toList <:+: after.toList := by
  obtain ⟨c, cs, hcs⟩ := List.exists_cons_of_ne_nil fun h => hne (String.toList_inj.mp h)
  have hend : ('/' :: (forwardSlashes (shut base)).toList).getLast? = some '/' := by
    by_cases hb : base = []
    · subst hb
      decide
    · have hslash : forwardSlashes "/" = "/" := by decide
      rw [Path.shut_eq_slashed hb, forwardSlashes_append, hslash, String.toList_append]
      simp [List.getLast?_cons]
  have hbefore : ¬ mark.toList ++ ['/'] <:+: '/' :: (forwardSlashes (shut base)).toList := by
    rw [List.infix_cons_iff]
    rintro (h | h)
    · rw [hcs, List.cons_append] at h
      rw [hcs, (List.cons_prefix_cons.mp h).1] at hmark
      exact hmark List.mem_cons_self
    · exact hclean (by simpa [EndsAbove] using h)
  simpa using infix_append_iff hmark (Or.inr hend) hbefore stem.toList after.toList

/-- A name that ends in the mark is still one when there are more names behind it. -/
theorem EndsAbove.of_take {n : Nat} (h : EndsAbove mark (base.take n)) : EndsAbove mark base := by
  have hsplit : forwardSlashes (shut base) =
      forwardSlashes (shut (base.take n)) ++ forwardSlashes (shut (base.drop n)) := by
    rw [← forwardSlashes_append, ← Path.shut_append, List.take_append_drop]
  refine h.trans ?_
  rw [hsplit, String.toList_append]
  exact (List.prefix_append _ _).isInfix

/-- **What a target mentions, its path does**, if no directory above has a name that ends in the
mark. -/
theorem infix_targetOf_iff (hne : mark ≠ "") (hmark : '/' ∉ mark.toList)
    (hclean : ¬ EndsAbove mark base) (hbase : ".." ∉ base) (hname : name ≠ "..")
    (hplain : '\\' ∉ name.toList) (stem path : String) :
    (mark ++ "/" ++ stem).toList <:+:
        ((ofRoot cwd ⟨.root, base ++ [name]⟩).targetOf path).toList ↔
      (mark ++ "/" ++ stem).toList <:+: path.toList := by
  rcases targetOf_cases (ofRoot cwd ⟨.root, base ++ [name]⟩) path with ⟨tail, hpath, htarget⟩ | hfull
  · have hassoc : "/" ++ forwardSlashes (shut base) ++ name ++ tail =
        "/" ++ forwardSlashes (shut base) ++ (name ++ tail) := String.append_assoc
    rw [htarget, hpath, rootText_ofRoot hbase hname, rootName_ofRoot,
      forwardSlashes_of_not_mem hplain, hassoc]
    exact (infix_above_iff hne hmark hclean stem (name ++ tail)).symm
  · obtain ⟨c, cs, hcs⟩ := List.exists_cons_of_ne_nil fun h => hne (String.toList_inj.mp h)
    have hc : c ≠ '/' := by
      rintro rfl
      exact hmark (hcs ▸ List.mem_cons_self)
    rw [hfull, String.toList_ofList, String.append_assoc, String.toList_append, hcs]
    exact infix_dropWhile_iff hc

/-- **What a target mentions, the names of the detour do**, if no directory above has a name that
ends in the mark. -/
theorem infix_resolve_iff (cwd dir : List String) (hrel : isRelative specifier = true) (hne : mark ≠ "")
    (hmark : '/' ∉ mark.toList) (hclean : ¬ EndsAbove mark base) (hbase : ".." ∉ base)
    (hname : name ≠ "..") (hplain : '\\' ∉ name.toList) (stem : String) :
    ∃ target, (ofRoot cwd ⟨.root, base ++ [name]⟩).resolve specifier (.under base (name :: dir)) =
        some target ∧
      ((mark ++ "/" ++ stem).toList <:+: target.toList ↔ (mark ++ "/" ++ stem).toList <:+:
        (forwardSlashes (slashed (detourOf name dir specifier).names)).toList) := by
  refine ⟨_, resolve_of_isRelative hrel hbase, ?_⟩
  rw [infix_targetOf_iff hne hmark hclean hbase hname hplain]
  -- the names that the detour leaves in place are some of those above
  have hkept : ¬ EndsAbove mark ((detourOf name dir specifier).kept base) := fun h =>
    hclean h.of_take
  have habove := infix_above_iff hne hmark hkept stem
  rw [Path.Detour.arrive]
  by_cases hnames : (detourOf name dir specifier).names = []
  · have hnone : ¬ (mark ++ "/" ++ stem).toList <:+: [] := by simp
    have hprefix : ("/" ++ forwardSlashes (slashed ((detourOf name dir specifier).kept base))).toList <:+:
        ("/" ++ forwardSlashes (shut ((detourOf name dir specifier).kept base)) ++ "").toList := by
      by_cases hk : (detourOf name dir specifier).kept base = []
      · rw [hk]
        decide
      · rw [Path.shut_eq_slashed hk, forwardSlashes_append]
        exact ⟨[], (forwardSlashes "/").toList, by simp⟩
    rw [hnames, List.append_nil]
    exact iff_of_false (fun h => hnone ((habove "").mp (h.trans hprefix))) hnone
  · rw [Path.slashed_append_eq_shut _ hnames, forwardSlashes_append, ← String.append_assoc]
    exact habove _

/-- **What an import mentions, it mentions elsewhere as well**, if it stays below the source root or
no name above ends in the mark. -/
theorem exists_mention (cwd' : List String) {base' : List String} (hne : mark ≠ "") (hmark : '/' ∉ mark.toList)
    (hbase : ".." ∉ base) (hbase' : ".." ∉ base') (hname : name ≠ "..") (hplain : '\\' ∉ name.toList)
    (hclean : Leaves name dir specifier → ¬ EndsAbove mark base ∧ ¬ EndsAbove mark base')
    {target stem : String} (hin : (mark ++ "/" ++ stem).toList <:+: target.toList)
    (h : (ofRoot cwd ⟨.root, base ++ [name]⟩).resolve specifier (.under base (name :: dir)) =
      some target) :
    ∃ target', (ofRoot cwd' ⟨.root, base' ++ [name]⟩).resolve specifier
        (.under base' (name :: dir)) = some target' ∧
      (mark ++ "/" ++ stem).toList <:+: target'.toList := by
  by_cases hleaves : Leaves name dir specifier
  · obtain ⟨hclean₁, hclean₂⟩ := hclean hleaves
    obtain ⟨t₁, ht₁, hiff₁⟩ := infix_resolve_iff cwd dir hleaves.1 hne hmark
      hclean₁ hbase hname hplain stem
    obtain ⟨t₂, ht₂, hiff₂⟩ := infix_resolve_iff cwd' dir hleaves.1 hne hmark
      hclean₂ hbase' hname hplain stem
    obtain rfl : target = t₁ := Option.some.inj (h.symm.trans ht₁)
    exact ⟨t₂, ht₂, hiff₂.mpr (hiff₁.mp hin)⟩
  · refine ⟨target, ?_, hin⟩
    rw [← h]
    exact (resolve_of_not_leaves hleaves hname hbase hbase').symm

end Mentions

end Resolver

end Unimported
