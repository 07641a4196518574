import Unimported.Proofs.Path.Spelled
import Unimported.Proofs.Tree.Leads

/-!
# Canonical paths lead where the path leads

Resolving keeps a path in writing and remembers the links it has met, while following knows
locations only and forgets every link at once.  Still the canonical form of a path that leads
somewhere is the location that it leads to, if no path on the way is too long to be asked about.

The invariant has two parts.  What is remembered of a link is where it leads (`Remembers`).  A link
that is still being resolved leads through more links than are left to be followed (`Room`): where
it leads is decided by way of what is being followed now, and a way through itself would be longer
than itself.  So no link is met again while it is being resolved, and the work always ends.

## Main definitions

* `Tree.known?` — what is known about a link.
* `Tree.Remembers`, `Tree.Room` — the two parts of the invariant.
* `Tree.Settles` — resolving ends where the steps lead and keeps the invariant.

## Main results

* `Tree.settles_trace`, `Tree.settles_traceAtMost` — one level of resolving, and all levels.
* `Tree.canonical_of_leadsIn` — **the canonical form of a path that leads somewhere.**
-/

namespace Unimported.Tree

open Path (isSegment pieces)

/-- What is known about the link of a name. -/
def known? (links : Resolved) (name : String) : Option (Option Path) :=
  (links.find? fun l => l.1 = name).map Prod.snd

/-- What is remembered of a link is where it leads. -/
def Remembers (t : Tree) (cwd : Location) (links : Resolved) : Prop :=
  ∀ there known : Path, there.Spelled → known? links there.text = some (some known) →
    known.Spelled ∧
      ∃ k, LeadsIn t k (locationOf cwd there.parent) [there.name] (locationOf cwd known)

/-- A link that is being resolved leads through more links than are left. -/
def Room (t : Tree) (cwd : Location) (left : Nat) (links : Resolved) : Prop :=
  ∀ there : Path, there.Spelled → known? links there.text = some none →
    ∀ k found, LeadsIn t k (locationOf cwd there.parent) [there.name] found → left < k

/-- No link is being resolved that was not before. -/
def Settled (links links' : Resolved) : Prop :=
  ∀ name, known? links' name = some none → known? links name = some none

/-- Resolving ends where the steps lead, through fewer links than a bound, and keeps the
invariant. -/
def Settles (t : Tree) (cwd : Location) (bound : Nat)
    (resolve : Resolved → Path → List String → Progress) : Prop :=
  ∀ {k : Nat} {links : Resolved} {here : Path} {path : List String} {found : Location},
    k < bound → here.Spelled → Remembers t cwd links → Room t cwd k links →
    LeadsIn t k (locationOf cwd here) (path.filter isSegment) found →
    ∃ links' last, resolve links here path = .complete links' last ∧ last.Spelled ∧
      locationOf cwd last = found ∧ Remembers t cwd links' ∧ Settled links links'

variable {t : Tree} {cwd : Location} {links : Resolved}

/-! ### What is known of links -/

theorem known?_cons_self (name : String) (v : Option Path) (links : Resolved) :
    known? ((name, v) :: links) name = some v := by
  simp [known?]

theorem known?_cons_of_ne {name name' : String} (h : name' ≠ name) (v : Option Path)
    (links : Resolved) : known? ((name, v) :: links) name' = known? links name' := by
  simp [known?, Ne.symm h]

theorem remembers_nil (t : Tree) (cwd : Location) : Remembers t cwd [] := by
  intro there known _ h
  cases (h : none = some (some known))

theorem room_nil (t : Tree) (cwd : Location) (left : Nat) : Room t cwd left [] := by
  intro there _ h
  cases (h : none = some none)

theorem Room.mono {left left' : Nat} (h : Room t cwd left links) (hle : left' ≤ left) :
    Room t cwd left' links :=
  fun there hs hp k found hk => Nat.lt_of_le_of_lt hle (h there hs hp k found hk)

/-- A link is met: it is remembered as one that is being resolved. -/
theorem Remembers.begin (h : Remembers t cwd links) (name : String) :
    Remembers t cwd ((name, none) :: links) := by
  intro there known hs hk
  by_cases hname : there.text = name
  · rw [hname, known?_cons_self] at hk
    cases hk
  · rw [known?_cons_of_ne hname] at hk
    exact h there known hs hk

theorem Room.begin {left k : Nat} {there : Path} {found : Location} (h : Room t cwd left links)
    (hs : there.Spelled) (hle : k ≤ left)
    (hlead : LeadsIn t (k + 1) (locationOf cwd there.parent) [there.name] found) :
    Room t cwd k ((there.text, none) :: links) := by
  intro there' hs' hp k' found' hlead'
  by_cases hname : there'.text = there.text
  · obtain rfl := hs'.text_inj hs hname
    have hk := (hlead.unique hlead').1
    omega
  · rw [known?_cons_of_ne hname] at hp
    exact Nat.lt_of_le_of_lt hle (h there' hs' hp k' found' hlead')

/-- A link is resolved: from now on it is remembered where it leads. -/
theorem Remembers.finish {k : Nat} {there known : Path} (h : Remembers t cwd links)
    (hs : there.Spelled) (hk : known.Spelled)
    (hlead : LeadsIn t k (locationOf cwd there.parent) [there.name] (locationOf cwd known)) :
    Remembers t cwd ((there.text, some known) :: links) := by
  intro there' known' hs' hp
  by_cases hname : there'.text = there.text
  · obtain rfl := hs'.text_inj hs hname
    rw [known?_cons_self] at hp
    obtain rfl := Option.some.inj (Option.some.inj hp)
    exact ⟨hk, k, hlead⟩
  · rw [known?_cons_of_ne hname] at hp
    exact h there' known' hs' hp

theorem Settled.finish {links' : Resolved} {name : String}
    (h : Settled ((name, none) :: links) links') (known : Path) :
    Settled links ((name, some known) :: links') := by
  intro name' hp
  by_cases hname : name' = name
  · rw [hname, known?_cons_self] at hp
    cases hp
  · rw [known?_cons_of_ne hname] at hp
    have hbefore := h name' hp
    rwa [known?_cons_of_ne hname] at hbefore

theorem Room.settled {left : Nat} {links' : Resolved} (h : Room t cwd left links)
    (hs : Settled links links') : Room t cwd left links' :=
  fun there hspelled hp => h there hspelled (hs _ hp)

theorem Settled.trans {links' links'' : Resolved} (h : Settled links links')
    (h' : Settled links' links'') : Settled links links'' :=
  fun name hp => h name (h' name hp)

/-! ### The targets of links -/

theorem filter_steps (target : String) :
    (steps target).filter isSegment = (pieces target).filter isSegment := by
  have hnamed : (segments target).filter isSegment = (pieces target).filter isSegment := by
    unfold segments
    rw [List.filter_filter]
    refine List.filter_congr fun s _ => ?_
    simp only [isSegment, Bool.and_eq_left_iff_imp]
    intro h
    simp only [Bool.and_eq_true] at h
    exact h.1
  unfold steps
  dsimp only
  split
  · rw [List.filter_append, hnamed]
    simp [isSegment]
  · exact hnamed

theorem filter_targetPieces (target : String) :
    (targetPieces target).filter isSegment = (pieces target).filter isSegment := by
  unfold targetPieces
  split
  · next h =>
    rw [h]
    simp [isSegment]
  · rfl

theorem locationOf_targetFrom (cwd : Location) (here : Path) (target : String) :
    locationOf cwd (targetFrom here target) = stepsFrom (locationOf cwd here) target := by
  unfold targetFrom stepsFrom
  split
  · rfl
  · rfl

theorem spelled_targetFrom {here : Path} (h : here.Spelled) (target : String) :
    (targetFrom here target).Spelled := by
  unfold targetFrom
  split
  · exact Path.spelled_root
  · exact h

/-- What a link leads to, its target leads to. -/
theorem LeadsIn.target {k : Nat} {here : Path} {piece target : String} {found : Location}
    (h : LeadsIn t k (locationOf cwd here) [piece] found)
    (hp : IsPlain piece)
    (hn : t.node? (locationOf cwd here ++ [piece]) = some (.link target)) :
    ∃ j, k = j + 1 ∧ LeadsIn t j (locationOf cwd (targetFrom here target))
      ((targetPieces target).filter isSegment) found := by
  cases h with
  | stay _ hs _ => exact absurd hs hp.1
  | up _ _ => exact absurd rfl hp.2
  | down _ _ hn' hplain _ =>
    rw [hn] at hn'
    exact absurd (Option.some.inj hn').symm (hplain target)
  | @link j _ _ _ target' _ _ _ hn' hrest =>
    rw [hn] at hn'
    obtain rfl : target = target' := by simpa using hn'
    rw [List.append_nil] at hrest
    refine ⟨j, rfl, ?_⟩
    rw [locationOf_targetFrom, filter_targetPieces, ← filter_steps]
    exact hrest.filter

/-! ### Resolving -/

theorem trace_skip {onLink : Resolved → Path → List String → Progress} {here : Path}
    {piece : String} {rest : List String} (h : piece = "" ∨ piece = ".") :
    t.trace none cwd onLink links here (piece :: rest) =
      t.trace none cwd onLink links here rest := by
  rw [trace, if_pos h]

theorem trace_up (onLink : Resolved → Path → List String → Progress) (here : Path)
    (rest : List String) :
    t.trace none cwd onLink links here (".." :: rest) =
      t.trace none cwd onLink links here.up rest := by
  rw [trace, if_neg (by decide), if_pos rfl]

/-- A step to something that is no link is written down. -/
theorem trace_down {onLink : Resolved → Path → List String → Progress} {here : Path}
    {piece : String} {rest : List String} {n : Node} (hp : IsPlain piece)
    (hn : t.node? (locationOf cwd (here.child piece)) = some n)
    (hplain : ∀ target, n ≠ .link target) :
    t.trace none cwd onLink links here (piece :: rest) =
      t.trace none cwd onLink links (here.child piece) rest := by
  rw [trace, if_neg fun h => hp.1 h.symm, if_neg hp.2]
  cases n with
  | link target => exact absurd rfl (hplain target)
  | file bytes => simp only [hn]
  | directory => simp only [hn]

/-- What becomes of a link depends on what is known about it. -/
theorem trace_link {onLink : Resolved → Path → List String → Progress} {here : Path}
    {piece target : String} {rest : List String} (hp : IsPlain piece)
    (hn : t.node? (locationOf cwd (here.child piece)) = some (.link target)) :
    t.trace none cwd onLink links here (piece :: rest) =
      match known? links (here.child piece).text with
      | some (some known) => t.trace none cwd onLink links known rest
      | some none => .stuck (asItStands (here.child piece) rest)
      | none =>
          match onLink (((here.child piece).text, none) :: links) (targetFrom here target)
              (targetPieces target) with
          | .complete links found =>
              t.trace none cwd onLink (((here.child piece).text, some found) :: links) found rest
          | .stuck found => .stuck (asItStands found rest)
          | .failed fault => .failed fault := by
  rw [trace, if_neg fun h => hp.1 h.symm, if_neg hp.2]
  simp only [hn, AccessError.isLongPath, Option.any_none, Bool.false_eq_true, if_false, known?]
  generalize links.find? (fun l => decide (l.1 = (here.child piece).text)) = met
  rcases met with _ | ⟨name, _ | known⟩
  · rfl
  · rfl
  · rfl

theorem isPlain_of_not_skipped {piece : String} (hskip : ¬ (piece = "" ∨ piece = "."))
    (hup : piece ≠ "..") : IsPlain piece :=
  ⟨fun h => hskip h.symm, hup⟩

/-- **One level of resolving**, when the links on the way are resolved as they should be. -/
theorem settles_trace (hwf : t.WellFormed) {bound : Nat}
    {onLink : Resolved → Path → List String → Progress} (hlink : Settles t cwd bound onLink) :
    Settles t cwd (bound + 1) (t.trace none cwd onLink) := by
  intro k links here path found hk hs hrem hroom hlead
  induction path generalizing k links here with
  | nil =>
    refine ⟨links, here, rfl, hs, ?_, hrem, fun _ h => h⟩
    cases hlead
    rfl
  | cons piece rest ih =>
    by_cases hskip : piece = "" ∨ piece = "."
    · have hdrop : isSegment piece = false := by rcases hskip with rfl | rfl <;> decide
      rw [List.filter_cons_of_neg (by simp [hdrop])] at hlead
      rw [trace_skip hskip]
      exact ih hk hs hrem hroom hlead
    · have hkeep : isSegment piece = true := by
        simp only [not_or] at hskip
        simp [isSegment, hskip.1, hskip.2]
      rw [List.filter_cons_of_pos hkeep] at hlead
      by_cases hup : piece = ".."
      · subst hup
        rw [trace_up]
        refine ih hk hs.up hrem hroom ?_
        rw [locationOf_up cwd hs]
        exact hlead.of_up
      · have hp := isPlain_of_not_skipped hskip hup
        have hname := hlead.isName hwf piece List.mem_cons_self hp
        have hchild := hs.child hname
        have hloc := locationOf_child cwd here hup
        obtain ⟨j, i, mid, hstep, hrest, rfl⟩ := LeadsIn.split (p := [piece]) hlead
        rcases hstep.of_single hp with ⟨n, hnode, hplain, rfl⟩ | ⟨target, hnode⟩
        · rw [trace_down hp (hloc ▸ hnode) hplain]
          refine ih (k := i) (by omega) hchild hrem (hroom.mono (by omega)) ?_
          rwa [hloc]
        · have hstep' : LeadsIn t j (locationOf cwd (here.child piece).parent)
              [(here.child piece).name] mid := by
            rwa [Path.parent_child, Path.name_child]
          rw [trace_link hp (hloc ▸ hnode)]
          split
          · next known hknown =>
            -- the link was resolved before
            obtain ⟨hks, j', hj'⟩ := hrem _ known hchild hknown
            obtain ⟨-, rfl⟩ := hstep'.unique hj'
            exact ih (k := i) (by omega) hks hrem (hroom.mono (by omega)) hrest
          · next hpending =>
            -- the link is being resolved, so it would lead through more links than there are
            have := hroom _ hchild hpending j mid hstep'
            omega
          · next hnew =>
            -- the link is resolved now, through one link less, and then the rest
            obtain ⟨j, rfl, htarget⟩ := hstep.target hp hnode
            obtain ⟨links₁, last₁, hdone, hlast, rfl, hrem₁, hset₁⟩ :=
              hlink (by omega) (spelled_targetFrom hs target) (hrem.begin _)
                (hroom.begin hchild (by omega) hstep') htarget
            rw [hdone]
            have hset := hset₁.finish last₁
            obtain ⟨links₂, last₂, hdone₂, hlast₂, hfound, hrem₂, hset₂⟩ :=
              ih (k := i) (by omega) hlast (hrem₁.finish hchild hlast hstep')
                ((hroom.mono (by omega)).settled hset) hrest
            exact ⟨links₂, last₂, hdone₂, hlast₂, hfound, hrem₂, hset.trans hset₂⟩

/-- **All levels of resolving**: so many levels suffice for as many links. -/
theorem settles_traceAtMost (hwf : t.WellFormed) (cwd : Location) (depth : Nat) :
    Settles t cwd (depth + 1) (t.traceAtMost none cwd depth) := by
  induction depth with
  | zero =>
    refine settles_trace hwf ?_
    intro k links here path found hk
    exact absurd hk (Nat.not_lt_zero k)
  | succ depth ih => exact settles_trace hwf ih

/-- **The canonical form of a path that leads somewhere** is the location that it leads to. -/
theorem canonical_of_leadsIn (hwf : t.WellFormed) (hcwd : IsReal t cwd) {p : Path} {k : Nat}
    {found : Location} (hk : k ≤ Fault.deepestNesting)
    (hlead : LeadsIn t k (if p.isAbsolute then [] else cwd) p.segments found) :
    t.canonical none cwd p = .ok ⟨.root, found⟩ := by
  have hstart : ∀ start : Path, start.Spelled →
      locationOf cwd start = (if p.isAbsolute then [] else cwd) →
      ∃ links last, t.traceAtMost none cwd Fault.deepestNesting [] start p.segments =
        .complete links last ∧ last.absolute cwd = ⟨.root, found⟩ := by
    intro start hs hloc
    obtain ⟨links, last, hdone, hlast, hfound, -, -⟩ :=
      settles_traceAtMost hwf cwd Fault.deepestNesting (Nat.lt_succ_of_le hk) hs
        (remembers_nil t cwd) (room_nil t cwd k) (hloc ▸ hlead.filter)
    exact ⟨links, last, hdone, by rw [absolute_of_spelled hlast cwd, hfound]⟩
  have hnames : ".." ∉ cwd := fun h => (hcwd.isName _ h).ne_dots rfl
  unfold canonical
  by_cases habs : p.isAbsolute = true
  · obtain ⟨links, last, hdone, hfound⟩ :=
      hstart ⟨.root, []⟩ Path.spelled_root (by rw [if_pos habs]; rfl)
    simp only [if_pos habs, hdone, hfound]
  · obtain ⟨links, last, hdone, hfound⟩ := hstart ⟨.current, []⟩ Path.spelled_current (by
      rw [if_neg habs, locationOf, Path.absolute, List.append_nil]
      exact Path.collapse_of_not_mem hnames)
    simp only [if_neg habs, hdone, hfound]

end Unimported.Tree
