import Unimported.Proofs.Tree.Linkless

/-!
# Through one link

A real location is followed and resolved without meeting a link.  Behind it a link may stand whose
target is written with names; if these go on to a real location, following the link leads there, and
resolving it gives that location.  But the path of a link may be too long to be asked about: then
resolving takes it for no link and leaves its name where it is.

## Main results

* `Tree.trace_append` — resolving goes on where the first pieces end.
* `Tree.steps_slashed`, `Tree.targetPieces_slashed` — targets that are written with names.
* `Tree.leadsIn_of_link`, `Tree.trace_of_link` — **following and resolving a link behind a real
  location.**
* `Tree.trace_of_isLongPath` — a link that is too far away to be seen.
-/

namespace Unimported.Tree

open Path (IsName)

variable {t : Tree} {cwd : Location} {links : Resolved}

/-! ### Resolving pieces one after the other -/

/-- Where the first pieces of a path end, the others go on. -/
theorem trace_append {longest : Option Nat} {onLink : Resolved → Path → List String → Progress}
    {links' : Resolved} {here mid : Path} {front back : List String}
    (h : t.trace longest cwd onLink links here front = .complete links' mid) :
    t.trace longest cwd onLink links here (front ++ back) =
      t.trace longest cwd onLink links' mid back := by
  induction front generalizing links here with
  | nil =>
    rw [trace] at h
    cases h
    rfl
  | cons piece front ih =>
    rw [trace] at h
    rw [List.cons_append, trace]
    split
    · next hskip =>
      rw [if_pos hskip] at h
      exact ih h
    · next hskip =>
      rw [if_neg hskip] at h
      split
      · next hup =>
        rw [if_pos hup] at h
        exact ih h
      · next hup =>
        rw [if_neg hup] at h
        simp only at h ⊢
        -- the same is met, link or not, as without the pieces behind
        split at h
        · split at h
          · cases h
          · next hz =>
            rw [if_neg hz]
            exact ih h
        · split at h
          · next hlong =>
            rw [if_pos hlong]
            exact ih h
          · next hlong =>
            rw [if_neg hlong]
            split at h
            · exact ih h
            · cases h
            · split at h
              · exact ih h
              · cases h
              · cases h
        · exact ih h

/-- A link under a path that is too long to be asked about is taken for no link. -/
theorem trace_of_isLongPath {longest : Option Nat}
    {onLink : Resolved → Path → List String → Progress} {here : Path} {piece target : String}
    (hp : IsPlain piece) (hn : t.node? (locationOf cwd (here.child piece)) = some (.link target))
    (hlong : AccessError.isLongPath longest (here.child piece).text = true) :
    t.trace longest cwd onLink links here [piece] = .complete links (here.child piece) := by
  rw [trace, if_neg fun h => hp.1 h.symm, if_neg hp.2]
  simp only [hn, if_pos hlong]
  rw [trace]

/-- A link that has not been met is resolved. -/
theorem trace_of_new {longest : Option Nat}
    {onLink : Resolved → Path → List String → Progress} {here found : Path}
    {piece target : String} {links' : Resolved} (hp : IsPlain piece)
    (hn : t.node? (locationOf cwd (here.child piece)) = some (.link target))
    (hshort : AccessError.isLongPath longest (here.child piece).text = false)
    (hdone : onLink [((here.child piece).text, none)] (targetFrom here target)
      (targetPieces target) = .complete links' found) :
    t.trace longest cwd onLink [] here [piece] =
      .complete (((here.child piece).text, some found) :: links') found := by
  rw [trace, if_neg fun h => hp.1 h.symm, if_neg hp.2]
  simp only [hn, hshort, Bool.false_eq_true, if_false, List.find?_nil, hdone]
  rw [trace]

/-! ### Targets that are written with names -/

/-- The pieces of a target that is written with names are its names. -/
theorem targetPieces_slashed {names : List String} (hne : names ≠ [])
    (h : ∀ s ∈ names, IsName s) : targetPieces (Path.slashed names) = names := by
  have hpieces := Path.pieces_slashed hne fun s hs => (h s hs).no_slash
  unfold targetPieces
  split
  · next pieces hempty =>
    rw [hpieces] at hempty
    exact absurd rfl (h "" (hempty ▸ List.mem_cons_self)).ne_empty
  · exact hpieces

/-- The steps of a target that is written with names are its names. -/
theorem steps_slashed {names : List String} (hne : names ≠ []) (h : ∀ s ∈ names, IsName s) :
    steps (Path.slashed names) = names := by
  have hpieces := Path.pieces_slashed hne fun s hs => (h s hs).no_slash
  have hnamed : segments (Path.slashed names) = names := by
    rw [segments, hpieces, List.filter_eq_self]
    exact fun s hs => by simpa using (h s hs).ne_empty
  unfold steps
  rw [hnamed, hpieces]
  exact if_neg fun hlast => (h "" (List.mem_of_getLast? hlast.2)).ne_empty rfl

/-- A target that is written with names starts where its link stands. -/
theorem stepsFrom_slashed {names : List String} (h : ∀ s ∈ names, IsName s) (here : Location) :
    stepsFrom here (Path.slashed names) = here :=
  if_neg (Path.head_slashed fun s hs => ⟨(h s hs).isSegment, (h s hs).no_slash⟩)

/-! ### A link behind a real location -/

/-- A link whose target is written with names leads from a real location to another. -/
theorem leadsIn_of_link {front back : Location} {name : String} (hfront : IsReal t front)
    (hd : t.hasDirectory front = true) (hname : IsName name)
    (hn : t.node? (front ++ [name]) = some (.link (Path.slashed back)))
    (hne : back ≠ []) (hback : IsReal t (front ++ back)) :
    LeadsIn t 1 [] (front ++ [name]) (front ++ back) := by
  have hnames : ∀ s ∈ back, IsName s := fun s hs => hback.isName s (List.mem_append_right _ hs)
  have hrest : LeadsIn t 0 (stepsFrom front (Path.slashed back))
      (steps (Path.slashed back) ++ []) (front ++ back) := by
    rw [stepsFrom_slashed hnames, steps_slashed hne hnames, List.append_nil]
    exact hback.leadsIn_append
  exact hfront.leadsIn.append (.link hd (isPlain_of_isName hname) hn hrest)

/-- A link that has not been met leads from a real location to another one. -/
theorem trace_of_link {longest : Option Nat} (depth : Nat) {front back : Location} {name : String}
    (hfront : IsReal t front) (hname : IsName name)
    (hn : t.node? (front ++ [name]) = some (.link (Path.slashed back)))
    (hshort : AccessError.isLongPath longest (Path.text ⟨.root, front ++ [name]⟩) = false)
    (hne : back ≠ []) (hback : IsReal t (front ++ back)) :
    ∃ links', t.trace longest cwd (t.traceAtMost longest cwd depth) [] ⟨.root, []⟩
      (front ++ [name]) = .complete links' ⟨.root, front ++ back⟩ := by
  have hnames : ∀ s ∈ back, IsName s := fun s hs => hback.isName s (List.mem_append_right _ hs)
  have hloc : locationOf cwd (Path.child ⟨.root, front⟩ name) = front ++ [name] := by
    refine Path.collapse_of_not_mem fun hdots => ?_
    rcases List.mem_append.mp hdots with hdots | hdots
    · exact (hfront.isName _ hdots).ne_dots rfl
    · exact hname.ne_dots (List.mem_singleton.mp hdots).symm
  have hfrom : targetFrom ⟨.root, front⟩ (Path.slashed back) = ⟨.root, front⟩ :=
    if_neg (Path.head_slashed fun s hs => ⟨(hnames s hs).isSegment, (hnames s hs).no_slash⟩)
  have hway := trace_of_isReal longest cwd (t.traceAtMost longest cwd depth) []
    (show IsReal t ([] ++ front) from hfront)
  have hdone : t.traceAtMost longest cwd depth [((Path.child ⟨.root, front⟩ name).text, none)]
      (targetFrom ⟨.root, front⟩ (Path.slashed back)) (targetPieces (Path.slashed back)) =
      .complete [((Path.child ⟨.root, front⟩ name).text, none)] ⟨.root, front ++ back⟩ := by
    rw [targetPieces_slashed hne hnames, hfrom]
    cases depth with
    | zero => exact trace_of_isReal longest cwd _ _ hback
    | succ depth => exact trace_of_isReal longest cwd _ _ hback
  exact ⟨_, (trace_append hway).trans
    (trace_of_new (isPlain_of_isName hname) (hloc ▸ hn) hshort hdone)⟩

end Unimported.Tree
