import Unimported.Proofs.Path.Evaluated
import Unimported.Proofs.Tree.Canonical

/-!
# Trees without links

Where no link stands, steps lead where they say: each name goes one level down and two dots go one
level up.  So the location that a path leads to is told by the path alone, and a canonical path is
the path evaluated on its names, however long paths may be.

## Main definitions

* `Tree.LinklessBelow`, `Tree.Linkless` — no link stands below a location, or anywhere.

## Main results

* `Tree.LeadsIn.eq_append` — below a location without links, names lead one level down each.
* `Tree.LeadsIn.eq_foldl_enter` — **in a tree without links, steps lead where they say.**
* `Tree.canonical_of_isReal` — a location that is reached without a link is its own canonical path.
* `Tree.canonical_unique_of_linkless` — what a canonical path is in all trees without links.
* `Tree.canonical_of_linkless` — canonical paths in a tree without links.
-/

namespace Unimported.Tree

open Path (IsName isSegment enter)

/-- No link stands at a location or below it. -/
def LinklessBelow (t : Tree) (base : Location) : Prop :=
  ∀ loc target, t.node? (base ++ loc) ≠ some (.link target)

/-- No link stands in a tree. -/
def Linkless (t : Tree) : Prop := ∀ loc target, t.node? loc ≠ some (.link target)

variable {t : Tree} {k : Nat} {here base found : Location} {path : List String}

theorem linkless_of_entries
    (h : (t.entries.all fun e => match e.node with | .link _ => false | _ => true) = true) :
    t.Linkless := by
  intro loc target hn
  by_cases hne : loc = []
  · rw [hne, node?_root] at hn
    cases hn
  · rw [node?, if_neg hne, entry?_eq, Option.map_eq_some_iff] at hn
    obtain ⟨e, he, hlink⟩ := hn
    have hplain := List.all_eq_true.mp h e (List.mem_of_find?_eq_some he)
    rw [hlink] at hplain
    cases hplain

/-! ### Where steps lead -/

theorem isSegment_of_isPlain {step : String} (h : IsPlain step) : isSegment step = true := by
  have hne := not_or.mp h.1
  simp [Path.isSegment, hne.1, hne.2]

theorem isPlain_of_isSegment {step : String} (h : isSegment step = true) (hup : step ≠ "..") :
    IsPlain step := by
  refine ⟨fun hskip => ?_, hup⟩
  rcases hskip with rfl | rfl
  · exact absurd h (by decide)
  · exact absurd h (by decide)

/-- **Below a location without links, names lead one level down each.** -/
theorem LeadsIn.eq_append (hlinks : t.LinklessBelow base) (hplain : ∀ s ∈ path, IsPlain s)
    (h : LeadsIn t k base path found) : k = 0 ∧ found = base ++ path := by
  have hbelow : ∀ rest : Location, ∀ {k here path found}, LeadsIn t k here path found →
      here = base ++ rest → (∀ s ∈ path, IsPlain s) → k = 0 ∧ found = here ++ path := by
    intro rest k here path found h
    induction h generalizing rest with
    | done => exact fun _ _ => ⟨rfl, (List.append_nil _).symm⟩
    | stay _ hs _ _ => exact fun _ hplain => absurd hs (hplain _ List.mem_cons_self).1
    | up _ _ _ => exact fun _ hplain => absurd rfl (hplain _ List.mem_cons_self).2
    | @down _ here _ step _ _ _ _ _ _ _ ih =>
      intro hhere hplain
      obtain ⟨hk, hfound⟩ := ih (rest ++ [step]) (by rw [hhere, List.append_assoc])
        fun s hs => hplain s (List.mem_cons_of_mem _ hs)
      exact ⟨hk, by rw [hfound, List.append_assoc, List.singleton_append]⟩
    | @link _ here _ step target _ _ _ hn _ _ =>
      intro hhere _
      rw [hhere, List.append_assoc] at hn
      exact absurd hn (hlinks _ target)
  exact hbelow [] h (List.append_nil base).symm hplain

/-- **In a tree without links, steps lead where they say.** -/
theorem LeadsIn.eq_foldl_enter (hlinks : t.Linkless) (h : LeadsIn t k here path found) :
    k = 0 ∧ found = (path.filter isSegment).foldl enter here := by
  induction h with
  | done => exact ⟨rfl, rfl⟩
  | @stay _ _ _ step _ _ hs _ ih =>
    have hdrop : isSegment step = false := by rcases hs with rfl | rfl <;> decide
    rw [List.filter_cons_of_neg (by simp [hdrop])]
    exact ih
  | up _ _ ih =>
    rw [List.filter_cons_of_pos (by decide)]
    exact ih
  | @down _ _ _ step _ _ _ hs _ _ _ ih =>
    rw [List.filter_cons_of_pos (isSegment_of_isPlain hs), List.foldl_cons, enter, if_neg hs.2]
    exact ih
  | @link _ _ _ _ target _ _ _ hn _ _ => exact absurd hn (hlinks _ target)

/-- What stands in a directory without links is where its name leads. -/
theorem LeadsIn.of_mem_names (hwf : t.WellFormed) (hlinks : t.LinklessBelow base)
    (hd : t.hasDirectory base = true) {n : String} (hn : n ∈ t.names base) :
    LeadsIn t 0 base [n] (base ++ [n]) := by
  obtain ⟨node, hnode⟩ := Option.isSome_iff_exists.mp (mem_names.mp hn)
  refine .down hd (isPlain_of_isName (hwf.isName_of_node? hnode)) hnode ?_ .done
  rintro target rfl
  exact hlinks [n] target hnode

theorem Linkless.below (h : t.Linkless) (base : Location) : t.LinklessBelow base :=
  fun loc => h (base ++ loc)

/-! ### Real locations -/

/-- On the way to a real location are real locations only. -/
theorem IsReal.above {loc : Location} (h : IsReal t found) (hp : loc <+: found) :
    IsReal t loc := by
  induction h with
  | root =>
    rw [List.prefix_nil.mp hp]
    exact .root
  | entry hdir hd hname hn hplain ih =>
    rcases List.prefix_concat_iff.mp hp with rfl | hp
    · exact .entry hdir hd hname hn hplain
    · exact ih hp

/-- A real location is where its names lead from any location above. -/
theorem IsReal.leadsIn_append (h : IsReal t (here ++ path)) :
    LeadsIn t 0 here path (here ++ path) := by
  obtain ⟨j, i, mid, hj, hi, hk⟩ := LeadsIn.split (p := here) h.leadsIn
  obtain ⟨-, rfl⟩ := hj.unique (h.above (List.prefix_append here path)).leadsIn
  obtain rfl : i = 0 := by omega
  exact hi

/-- A real location below the root is something in a directory that is no link. -/
theorem IsReal.of_concat {dir : Location} {name : String} (h : IsReal t (dir ++ [name])) :
    t.hasDirectory dir = true ∧ IsName name ∧
      ∃ n, t.node? (dir ++ [name]) = some n ∧ ∀ target, n ≠ .link target := by
  generalize hloc : dir ++ [name] = loc at h
  cases h with
  | root => exact absurd hloc (by simp)
  | entry _ hd hname hn hplain =>
    obtain ⟨rfl, hlast⟩ := List.append_inj' hloc rfl
    obtain rfl := (List.cons.inj hlast).1
    exact ⟨hd, hname, _, hn, hplain⟩

/-- On the way to a real location no link is met, however long paths may be. -/
theorem trace_of_isReal (longest : Option Nat) (cwd : Location)
    (onLink : Resolved → Path → List String → Progress) (links : Resolved)
    (h : IsReal t (here ++ path)) :
    t.trace longest cwd onLink links ⟨.root, here⟩ path = .complete links ⟨.root, here ++ path⟩ := by
  induction path generalizing here with
  | nil => rw [trace, List.append_nil]
  | cons name path ih =>
    have happend : here ++ name :: path = here ++ [name] ++ path := by simp
    rw [happend] at h ⊢
    have hthere := h.above (List.prefix_append _ _)
    obtain ⟨-, hname, n, hn, hplain⟩ := hthere.of_concat
    have hloc : locationOf cwd (Path.child ⟨.root, here⟩ name) = here ++ [name] :=
      Path.collapse_of_not_mem fun hdots => (hthere.isName _ hdots).ne_dots rfl
    have hstep : t.trace longest cwd onLink links ⟨.root, here⟩ (name :: path) =
        t.trace longest cwd onLink links ⟨.root, here ++ [name]⟩ path := by
      rw [trace, if_neg fun hskip => (isPlain_of_isName hname).1 hskip.symm, if_neg hname.ne_dots]
      cases n with
      | link target => exact absurd rfl (hplain target)
      | file bytes =>
        simp only [hloc, hn]
        rfl
      | directory =>
        simp only [hloc, hn]
        rfl
    rw [hstep, ih h]

/-- A canonical path is what tracing the path from the root ends with. -/
theorem canonical_of_trace {longest : Option Nat} {p last : Path} {links' : Resolved}
    (habs : p.isAbsolute = true)
    (h : t.traceAtMost longest cwd Fault.deepestNesting [] ⟨.root, []⟩ p.segments =
      .complete links' last) : t.canonical longest cwd p = .ok (last.absolute cwd) := by
  unfold canonical
  simp only [if_pos habs, h]

/-- **A real location is its own canonical path.** -/
theorem canonical_of_isReal (longest : Option Nat) (cwd : Location) (h : IsReal t found) :
    t.canonical longest cwd ⟨.root, found⟩ = .ok ⟨.root, found⟩ := by
  have hstart : IsReal t ([] ++ found) := h
  have hdone : t.traceAtMost longest cwd Fault.deepestNesting [] ⟨.root, []⟩ found =
      .complete [] ⟨.root, found⟩ := trace_of_isReal longest cwd _ [] hstart
  have hself : Path.absolute cwd ⟨.root, found⟩ = ⟨.root, found⟩ := by
    rw [Path.absolute, Path.collapse_of_not_mem fun hdots => (h.isName _ hdots).ne_dots rfl]
  rw [canonical_of_trace rfl hdone, hself]

/-! ### Canonical paths -/

/-- One step of making a path canonical, where no link can be met. -/
theorem trace_cons_of_linkless (hlinks : t.Linkless) (longest : Option Nat) (cwd : Location)
    (onLink : Resolved → Path → List String → Progress) (links : Resolved) (here : Path)
    (piece : String) (rest : List String) :
    t.trace longest cwd onLink links here (piece :: rest) =
      if piece = "" ∨ piece = "." then t.trace longest cwd onLink links here rest
      else if piece = ".." then t.trace longest cwd onLink links here.up rest
      else if t.node? (locationOf cwd (here.child piece)) = none ∧
          AccessError.holdsZero piece = true then .failed .zeroCharacter
      else t.trace longest cwd onLink links (here.child piece) rest := by
  rw [trace]
  cases hn : t.node? (locationOf cwd (here.child piece)) with
  | none => simp [hn]
  | some n =>
    cases n with
    | link target => exact absurd hn (hlinks _ target)
    | file bytes => simp [hn]
    | directory => simp [hn]

/-- What becomes of a path without links: its names and steps out are written down or taken back,
and nothing is remembered. -/
theorem trace_of_linkless (hlinks : t.Linkless) (longest : Option Nat) (cwd : Location)
    (onLink : Resolved → Path → List String → Progress) (links : Resolved) (here : Path) :
    t.trace longest cwd onLink links here path = .failed .zeroCharacter ∨
      ∃ last : Path, t.trace longest cwd onLink links here path = .complete links last ∧
        last.anchor = here.anchor ∧
        ∀ s ∈ last.segments, s ∈ here.segments ∨ s = ".." ∨ IsPlain s := by
  induction path generalizing here with
  | nil => exact Or.inr ⟨here, rfl, rfl, fun s hs => Or.inl hs⟩
  | cons piece rest ih =>
    -- wherever the rest starts, nothing new but names and steps out has been written
    have hgo : ∀ next : Path, next.anchor = here.anchor →
        (∀ s ∈ next.segments, s ∈ here.segments ∨ s = ".." ∨ IsPlain s) →
        t.trace longest cwd onLink links next rest = .failed .zeroCharacter ∨
          ∃ last : Path, t.trace longest cwd onLink links next rest = .complete links last ∧
            last.anchor = here.anchor ∧
            ∀ s ∈ last.segments, s ∈ here.segments ∨ s = ".." ∨ IsPlain s := by
      intro next hanchor hnext
      refine (ih next).imp id fun ⟨last, hdone, hlast, hsegments⟩ => ?_
      refine ⟨last, hdone, hlast.trans hanchor, fun s hs => ?_⟩
      rcases hsegments s hs with h | h
      · exact hnext s h
      · exact Or.inr h
    rw [trace_cons_of_linkless hlinks]
    split
    · exact hgo here rfl fun s hs => Or.inl hs
    · next hskip =>
      split
      · refine hgo here.up (Path.anchor_up here) fun s hs => ?_
        exact (Path.of_mem_segments_up hs).imp id Or.inl
      · next hup =>
        split
        · exact Or.inl rfl
        · refine hgo (here.child piece) rfl fun s hs => ?_
          rcases List.mem_append.mp hs with hs | hs
          · exact Or.inl hs
          · rw [List.mem_singleton.mp hs]
            exact Or.inr (Or.inr (isPlain_of_not_skipped hskip hup))

/-- Without links, the length of paths makes no difference. -/
theorem trace_longest (hlinks : t.Linkless) (longest : Option Nat) (cwd : Location)
    (onLink onLink' : Resolved → Path → List String → Progress) (links : Resolved) (here : Path) :
    t.trace longest cwd onLink links here path = t.trace none cwd onLink' links here path := by
  induction path generalizing here with
  | nil => rfl
  | cons piece rest ih =>
    rw [trace_cons_of_linkless hlinks, trace_cons_of_linkless hlinks, ih, ih, ih]

theorem canonical_longest (hlinks : t.Linkless) (longest : Option Nat) (cwd : Location) (p : Path) :
    t.canonical longest cwd p = t.canonical none cwd p := by
  have htrace : ∀ start : Path,
      t.traceAtMost longest cwd Fault.deepestNesting [] start p.segments =
        t.traceAtMost none cwd Fault.deepestNesting [] start p.segments := fun start =>
    trace_longest hlinks longest cwd _ _ [] start
  unfold canonical
  simp only [htrace]

/-- Without links, what a path becomes is told by the path, unless a name in it can be none. -/
theorem trace_cases_of_linkless {t' : Tree} (hlinks : t.Linkless) (hlinks' : t'.Linkless)
    (longest : Option Nat) (cwd : Location)
    (onLink onLink' : Resolved → Path → List String → Progress) (links : Resolved) (here : Path) :
    t.trace longest cwd onLink links here path = .failed .zeroCharacter ∨
      t'.trace longest cwd onLink' links here path = .failed .zeroCharacter ∨
      t.trace longest cwd onLink links here path = t'.trace longest cwd onLink' links here path := by
  induction path generalizing here with
  | nil => exact Or.inr (Or.inr rfl)
  | cons piece rest ih =>
    rw [trace_cons_of_linkless hlinks, trace_cons_of_linkless hlinks']
    split
    · exact ih here
    · split
      · exact ih here.up
      · split
        · exact Or.inl rfl
        · split
          · exact Or.inr (Or.inl rfl)
          · exact ih (here.child piece)

/-- **A path has one canonical form in all trees without links** in which it has one. -/
theorem canonical_unique_of_linkless {t' : Tree} (hlinks : t.Linkless) (hlinks' : t'.Linkless)
    {longest : Option Nat} {cwd : Location} {p q q' : Path}
    (h : t.canonical longest cwd p = .ok q) (h' : t'.canonical longest cwd p = .ok q') :
    q = q' := by
  have htrace : ∀ depth (start : Path),
      t.traceAtMost longest cwd depth [] start p.segments = .failed .zeroCharacter ∨
        t'.traceAtMost longest cwd depth [] start p.segments = .failed .zeroCharacter ∨
        t.traceAtMost longest cwd depth [] start p.segments =
          t'.traceAtMost longest cwd depth [] start p.segments := by
    intro depth start
    cases depth with
    | zero => exact trace_cases_of_linkless hlinks hlinks' longest cwd _ _ [] start
    | succ depth => exact trace_cases_of_linkless hlinks hlinks' longest cwd _ _ [] start
  unfold canonical at h h'
  simp only at h h'
  rcases htrace Fault.deepestNesting (if p.isAbsolute then ⟨.root, []⟩ else ⟨.current, []⟩) with
    hfailed | hfailed | hsame
  · rw [hfailed] at h
    cases h
  · rw [hfailed] at h'
    cases h'
  · rw [hsame] at h
    exact Except.ok.inj (h.symm.trans h')

/-- The absolute form of names and steps out starts at the root and is made of names. -/
theorem absolute_of_plain {cwd : Location} (hcwd : ∀ n ∈ cwd, IsPlain n) {p : Path}
    (hanchor : p.anchor ≠ .doubleRoot) (hp : ∀ s ∈ p.segments, s = ".." ∨ IsPlain s) :
    (p.absolute cwd).anchor = .root ∧ ∀ s ∈ (p.absolute cwd).segments, IsPlain s := by
  have hcollapse : ∀ l : List String, (∀ s ∈ l, s = ".." ∨ IsPlain s) →
      ∀ s ∈ Path.collapse l, IsPlain s := by
    intro l hl s hs
    rcases Path.of_mem_foldl_enter hs with h | ⟨h, hne⟩
    · exact (List.not_mem_nil h).elim
    · exact (hl s h).resolve_left hne
  unfold Path.absolute
  cases ha : p.anchor with
  | current =>
    refine ⟨rfl, hcollapse _ fun s hs => ?_⟩
    exact (List.mem_append.mp hs).elim (fun h => Or.inr (hcwd s h)) (hp s)
  | root => exact ⟨rfl, hcollapse _ hp⟩
  | doubleRoot => exact absurd ha hanchor

/-- **A canonical path in a tree without links** starts at the root and is made of names. -/
theorem canonical_of_linkless (hlinks : t.Linkless) {longest : Option Nat} {cwd : Location}
    (hcwd : ∀ n ∈ cwd, IsPlain n) {p q : Path} (h : t.canonical longest cwd p = .ok q) :
    q.anchor = .root ∧ ∀ s ∈ q.segments, IsPlain s := by
  -- the work begins at a path without segments, and how deep it may go makes no difference
  have htrace : ∀ depth (start : Path),
      t.traceAtMost longest cwd depth [] start p.segments = .failed .zeroCharacter ∨
        ∃ last : Path, t.traceAtMost longest cwd depth [] start p.segments = .complete [] last ∧
          last.anchor = start.anchor ∧
          ∀ s ∈ last.segments, s ∈ start.segments ∨ s = ".." ∨ IsPlain s := by
    intro depth start
    cases depth with
    | zero => exact trace_of_linkless hlinks longest cwd _ [] start
    | succ depth => exact trace_of_linkless hlinks longest cwd _ [] start
  obtain ⟨start, hstart, hanchor, hnil⟩ : ∃ start : Path,
      (if p.isAbsolute then ⟨.root, []⟩ else ⟨.current, []⟩) = start ∧
        start.anchor ≠ .doubleRoot ∧ start.segments = [] := by
    by_cases ha : p.isAbsolute = true
    · exact ⟨_, if_pos ha, by simp, rfl⟩
    · exact ⟨_, if_neg ha, by simp, rfl⟩
  unfold canonical at h
  simp only [hstart] at h
  rcases htrace Fault.deepestNesting start with hfailed | ⟨last, hdone, hlast, hsegments⟩
  · simp only [hfailed] at h
    cases h
  · simp only [hdone] at h
    obtain rfl := Except.ok.inj h
    refine absolute_of_plain hcwd (hlast ▸ hanchor) fun s hs => ?_
    have hs' := hsegments s hs
    rw [hnil] at hs'
    exact hs'.resolve_left List.not_mem_nil

end Unimported.Tree
