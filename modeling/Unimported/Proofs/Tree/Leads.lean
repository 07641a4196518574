import Unimported.Proofs.Tree.Names
import Unimported.Tree.Follow

/-!
# Where steps lead

Following is bounded: after so many links it gives up.  Where steps lead is not a matter of the
bound, though.  They lead to one location, through one number of links, or nowhere; and following
finds the location just when the bound allows for the number.

## Main definitions

* `Tree.LeadsIn` — steps lead from a location to another, through so many links.
* `Tree.Leads` — through any number of links.
* `Tree.IsReal` — a location that is reached without a link.

## Main results

* `Tree.followAtMost_of_leadsIn` — what following gives when steps lead somewhere.
* `Tree.followAtMost_eq_ok` — following finds where steps lead, within the bound.
* `Tree.LeadsIn.unique` — steps lead to one location, through one number of links.
* `Tree.LeadsIn.split`, `Tree.LeadsIn.append` — steps one after the other.
* `Tree.LeadsIn.filter`, `Tree.LeadsIn.of_filter` — steps that lead nowhere else may be left out, and
  put in on the way to a directory.
* `Tree.LeadsIn.isReal` — steps lead to real locations only.
-/

namespace Unimported.Tree

open Path (IsName isSegment)

/-- A step that is a name, and neither empty nor one of the dots. -/
def IsPlain (step : String) : Prop := ¬ (step = "." ∨ step = "") ∧ step ≠ ".."

/-- Steps lead from a location to another, through so many links. -/
inductive LeadsIn (t : Tree) : Nat → Location → List String → Location → Prop where
  /-- Without steps, nothing is left. -/
  | done {here : Location} : LeadsIn t 0 here [] here
  /-- A step that leads nowhere else. -/
  | stay {k : Nat} {here found : Location} {step : String} {rest : List String} :
      t.hasDirectory here = true → step = "." ∨ step = "" → LeadsIn t k here rest found →
      LeadsIn t k here (step :: rest) found
  /-- A step out. -/
  | up {k : Nat} {here found : Location} {rest : List String} :
      t.hasDirectory here = true → LeadsIn t k here.dropLast rest found →
      LeadsIn t k here (".." :: rest) found
  /-- A step to something that is no link. -/
  | down {k : Nat} {here found : Location} {step : String} {rest : List String} {n : Node} :
      t.hasDirectory here = true → IsPlain step → t.node? (here ++ [step]) = some n →
      (∀ target, n ≠ .link target) → LeadsIn t k (here ++ [step]) rest found →
      LeadsIn t k here (step :: rest) found
  /-- A step to a link, from where the steps of its target go on. -/
  | link {k : Nat} {here found : Location} {step target : String} {rest : List String} :
      t.hasDirectory here = true → IsPlain step → t.node? (here ++ [step]) = some (.link target) →
      LeadsIn t k (stepsFrom here target) (steps target ++ rest) found →
      LeadsIn t (k + 1) here (step :: rest) found

/-- A location that is reached from the root without a link. -/
inductive IsReal (t : Tree) : Location → Prop where
  /-- The root. -/
  | root : IsReal t []
  /-- Something in a directory that is no link. -/
  | entry {dir : Location} {name : String} {n : Node} :
      IsReal t dir → t.hasDirectory dir = true → IsName name → t.node? (dir ++ [name]) = some n →
      (∀ target, n ≠ .link target) → IsReal t (dir ++ [name])

/-- Steps lead from a location to another, links followed. -/
def Leads (t : Tree) (here : Location) (path : List String) (found : Location) : Prop :=
  ∃ k, LeadsIn t k here path found

variable {t : Tree} {k : Nat} {here found : Location} {path : List String}

/-! ### Following -/

/-- One step of following. -/
theorem followAtMost_cons (t : Tree) (links : Nat) (here : Location) (step : String)
    (rest : List String) :
    t.followAtMost .find links here (step :: rest) =
      if !t.hasDirectory here then .error .notDirectory
      else if step = "." ∨ step = "" then t.followAtMost .find links here rest
      else if step = ".." then t.followAtMost .find links here.dropLast rest
      else
        match t.node? (here ++ [step]) with
        | none => .error (.ofName step)
        | some (.link target) =>
            match links with
            | 0 => .error .tooManyLinks
            | links + 1 =>
                t.followAtMost .find links (stepsFrom here target) (steps target ++ rest)
        | some _ => t.followAtMost .find links (here ++ [step]) rest := by
  cases hn : t.node? (here ++ [step]) with
  | none => cases links <;> simp [followAtMost, descend, hn]
  | some n => cases links <;> cases n <;> simp [followAtMost, descend, hn]

theorem followAtMost_nil (t : Tree) (links : Nat) (here : Location) :
    t.followAtMost .find links here [] = .ok here := by
  cases links <;> rfl

/-- **When steps lead somewhere**, following finds where if the links are not too many, and gives
up because of them if they are. -/
theorem followAtMost_of_leadsIn (h : LeadsIn t k here path found) (links : Nat) :
    t.followAtMost .find links here path =
      if k ≤ links then .ok found else .error .tooManyLinks := by
  induction h generalizing links with
  | done => rw [followAtMost_nil, if_pos (Nat.zero_le links)]
  | stay hd hs _ ih =>
    rw [followAtMost_cons, if_neg (by simp [hd]), if_pos hs]
    exact ih links
  | up hd _ ih =>
    rw [followAtMost_cons, if_neg (by simp [hd]), if_neg (by decide), if_pos rfl]
    exact ih links
  | @down _ _ _ _ _ n hd hp hn hlink _ ih =>
    rw [followAtMost_cons, if_neg (by simp [hd]), if_neg hp.1, if_neg hp.2, hn]
    cases n with
    | link target => exact absurd rfl (hlink target)
    | file bytes => exact ih links
    | directory => exact ih links
  | link hd hp hn _ ih =>
    rw [followAtMost_cons, if_neg (by simp [hd]), if_neg hp.1, if_neg hp.2, hn]
    cases links with
    | zero => simp
    | succ links => simpa using ih links

/-- Where a walk down a path goes, the steps lead, if this is so of the links on the way. -/
theorem exists_leadsIn_of_descend {links : Nat}
    {onLink : Location → List String → Except AccessError Location}
    (hlink : ∀ {here found path}, onLink here path = .ok found →
      ∃ k, k + 1 ≤ links ∧ LeadsIn t k here path found)
    (h : t.descend .find onLink here path = .ok found) :
    ∃ k, k ≤ links ∧ LeadsIn t k here path found := by
  induction path generalizing here with
  | nil => exact ⟨0, Nat.zero_le links, Except.ok.inj h ▸ .done⟩
  | cons step rest ih =>
    simp only [descend, reduceCtorEq, false_and, if_false] at h
    split at h
    · cases h
    · next hd =>
      have hd : t.hasDirectory here = true := by simpa using hd
      split at h
      · next hs =>
        obtain ⟨k, hk, hrest⟩ := ih h
        exact ⟨k, hk, .stay hd hs hrest⟩
      · next hs =>
        split at h
        · next hu =>
          obtain ⟨k, hk, hrest⟩ := ih h
          exact ⟨k, hk, hu ▸ .up hd hrest⟩
        · next hu =>
          split at h
          · cases h
          · next target hn =>
            obtain ⟨k, hk, hrest⟩ := hlink h
            exact ⟨k + 1, hk, .link hd ⟨hs, hu⟩ hn hrest⟩
          · next n hplain hn =>
            obtain ⟨k, hk, hrest⟩ := ih h
            exact ⟨k, hk, .down hd ⟨hs, hu⟩ hn hplain hrest⟩

/-- **Following finds where steps lead, within the bound.** -/
theorem followAtMost_eq_ok {links : Nat} :
    t.followAtMost .find links here path = .ok found ↔
      ∃ k, k ≤ links ∧ LeadsIn t k here path found := by
  constructor
  · intro h
    induction links generalizing here path found with
    | zero =>
      refine exists_leadsIn_of_descend (fun h => ?_) h
      cases h
    | succ links ih =>
      refine exists_leadsIn_of_descend (fun h => ?_) h
      obtain ⟨k, hk, hlead⟩ := ih h
      exact ⟨k, Nat.succ_le_succ hk, hlead⟩
  · rintro ⟨k, hk, h⟩
    rw [followAtMost_of_leadsIn h, if_pos hk]

/-- **Steps lead to one location, through one number of links.** -/
theorem LeadsIn.unique {k' : Nat} {found' : Location} (h : LeadsIn t k here path found)
    (h' : LeadsIn t k' here path found') : k = k' ∧ found = found' := by
  have heq := fun links => (followAtMost_of_leadsIn h links).symm.trans
    (followAtMost_of_leadsIn h' links)
  -- a bound that allows for both finds both
  have hfound := heq (max k k')
  rw [if_pos (Nat.le_max_left k k'), if_pos (Nat.le_max_right k k')] at hfound
  refine ⟨?_, Except.ok.inj hfound⟩
  -- a bound that allows for one of them only would tell them apart
  rcases Nat.lt_trichotomy k k' with hlt | heq' | hlt
  · have hk := heq k
    rw [if_pos (Nat.le_refl k), if_neg (Nat.not_le_of_lt hlt)] at hk
    cases hk
  · exact heq'
  · have hk := heq k'
    rw [if_pos (Nat.le_refl k'), if_neg (Nat.not_le_of_lt hlt)] at hk
    cases hk

theorem Leads.unique {found' : Location} (h : Leads t here path found)
    (h' : Leads t here path found') : found = found' := by
  obtain ⟨k, hk⟩ := h
  obtain ⟨k', hk'⟩ := h'
  exact (hk.unique hk').2

/-! ### Steps one after the other -/

/-- Steps lead through a location in between. -/
theorem LeadsIn.split {p q : List String} (h : LeadsIn t k here (p ++ q) found) :
    ∃ j i mid, LeadsIn t j here p mid ∧ LeadsIn t i mid q found ∧ k = j + i := by
  generalize hpath : p ++ q = path at h
  induction h generalizing p with
  | done =>
    obtain ⟨rfl, rfl⟩ := List.append_eq_nil_iff.mp hpath
    exact ⟨0, 0, _, .done, .done, rfl⟩
  | @stay k _ _ _ _ hd hs hrest ih =>
    rcases List.append_eq_cons_iff.mp hpath with ⟨rfl, rfl⟩ | ⟨p, rfl, rfl⟩
    · exact ⟨0, k, _, .done, .stay hd hs hrest, (Nat.zero_add k).symm⟩
    · obtain ⟨j, i, mid, hp, hq, hk⟩ := ih rfl
      exact ⟨j, i, mid, .stay hd hs hp, hq, hk⟩
  | @up k _ _ _ hd hrest ih =>
    rcases List.append_eq_cons_iff.mp hpath with ⟨rfl, rfl⟩ | ⟨p, rfl, rfl⟩
    · exact ⟨0, k, _, .done, .up hd hrest, (Nat.zero_add k).symm⟩
    · obtain ⟨j, i, mid, hp, hq, hk⟩ := ih rfl
      exact ⟨j, i, mid, .up hd hp, hq, hk⟩
  | @down k _ _ _ _ _ hd hs hn hplain hrest ih =>
    rcases List.append_eq_cons_iff.mp hpath with ⟨rfl, rfl⟩ | ⟨p, rfl, rfl⟩
    · exact ⟨0, k, _, .done, .down hd hs hn hplain hrest, (Nat.zero_add k).symm⟩
    · obtain ⟨j, i, mid, hp, hq, hk⟩ := ih rfl
      exact ⟨j, i, mid, .down hd hs hn hplain hp, hq, hk⟩
  | @link k here _ step target _ hd hs hn hrest ih =>
    rcases List.append_eq_cons_iff.mp hpath with ⟨rfl, rfl⟩ | ⟨p, rfl, rfl⟩
    · exact ⟨0, k + 1, _, .done, .link hd hs hn hrest, (Nat.zero_add _).symm⟩
    · -- the steps of the target come before what is left of the first steps
      obtain ⟨j, i, mid, hp, hq, hk⟩ := ih (p := steps target ++ p) (List.append_assoc _ _ _)
      exact ⟨j + 1, i, mid, .link hd hs hn hp, hq, by omega⟩

theorem LeadsIn.append {j i : Nat} {mid : Location} {p q : List String}
    (hp : LeadsIn t j here p mid) (hq : LeadsIn t i mid q found) :
    LeadsIn t (j + i) here (p ++ q) found := by
  induction hp with
  | done => rwa [Nat.zero_add]
  | stay hd hs _ ih => exact .stay hd hs (ih hq)
  | up hd _ ih => exact .up hd (ih hq)
  | down hd hs hn hplain _ ih => exact .down hd hs hn hplain (ih hq)
  | link hd hs hn _ ih =>
    rw [Nat.add_right_comm]
    exact .link hd hs hn (List.append_assoc _ _ _ ▸ ih hq)

theorem LeadsIn.of_up {rest : List String} (h : LeadsIn t k here (".." :: rest) found) :
    LeadsIn t k here.dropLast rest found := by
  cases h with
  | stay _ hs _ => exact absurd hs (by decide)
  | up _ hrest => exact hrest
  | down _ hs _ _ _ => exact absurd rfl hs.2
  | link _ hs _ _ => exact absurd rfl hs.2

/-- A single step leads to what stands there, or it is a link. -/
theorem LeadsIn.of_single {step : String} (hs : IsPlain step)
    (h : LeadsIn t k here [step] found) :
    (∃ n, t.node? (here ++ [step]) = some n ∧ (∀ target, n ≠ .link target) ∧
      found = here ++ [step]) ∨
    ∃ target, t.node? (here ++ [step]) = some (.link target) := by
  cases h with
  | stay _ h _ => exact absurd h hs.1
  | up _ _ => exact absurd rfl hs.2
  | down _ _ hn hplain hrest =>
    cases hrest
    exact Or.inl ⟨_, hn, hplain, rfl⟩
  | link _ _ hn _ => exact Or.inr ⟨_, hn⟩

/-- Steps that lead nowhere else may be left out behind some steps. -/
theorem LeadsIn.filter_append {p q : List String} (h : LeadsIn t k here (p ++ q) found) :
    LeadsIn t k here (p ++ q.filter isSegment) found := by
  generalize hpath : p ++ q = path at h
  have hkept : ∀ {step : String}, IsPlain step → isSegment step = true := by
    intro step hs
    simp only [IsPlain, not_or] at hs
    simp [isSegment, hs.1.1, hs.1.2]
  induction h generalizing p q with
  | done =>
    obtain ⟨rfl, rfl⟩ := List.append_eq_nil_iff.mp hpath
    exact .done
  | @stay _ _ _ step _ hd hs _ ih =>
    rcases List.append_eq_cons_iff.mp hpath with ⟨rfl, rfl⟩ | ⟨p, rfl, rfl⟩
    · have hdrop : isSegment step = false := by
        rcases hs with rfl | rfl <;> decide
      rw [List.filter_cons_of_neg (by simp [hdrop])]
      exact ih (p := []) rfl
    · exact .stay hd hs (ih rfl)
  | up hd _ ih =>
    rcases List.append_eq_cons_iff.mp hpath with ⟨rfl, rfl⟩ | ⟨p, rfl, rfl⟩
    · rw [List.filter_cons_of_pos (by decide)]
      exact .up hd (ih (p := []) rfl)
    · exact .up hd (ih rfl)
  | down hd hs hn hplain _ ih =>
    rcases List.append_eq_cons_iff.mp hpath with ⟨rfl, rfl⟩ | ⟨p, rfl, rfl⟩
    · rw [List.filter_cons_of_pos (hkept hs)]
      exact .down hd hs hn hplain (ih (p := []) rfl)
    · exact .down hd hs hn hplain (ih rfl)
  | @link _ _ _ _ target _ hd hs hn _ ih =>
    rcases List.append_eq_cons_iff.mp hpath with ⟨rfl, rfl⟩ | ⟨p, rfl, rfl⟩
    · rw [List.filter_cons_of_pos (hkept hs)]
      exact .link hd hs hn (ih rfl)
    · have hrest := ih (p := steps target ++ p) (List.append_assoc _ _ _)
      rw [List.append_assoc] at hrest
      exact .link hd hs hn hrest

/-- Steps that lead nowhere else may be left out. -/
theorem LeadsIn.filter (h : LeadsIn t k here path found) :
    LeadsIn t k here (path.filter isSegment) found :=
  filter_append (p := []) h

/-- What leads to a directory starts in one. -/
theorem LeadsIn.hasDirectory (h : LeadsIn t k here path found) (hd : t.hasDirectory found = true) :
    t.hasDirectory here = true := by
  cases h with
  | done => exact hd
  | stay hd _ _ => exact hd
  | up hd _ => exact hd
  | down hd _ _ _ _ => exact hd
  | link hd _ _ _ => exact hd

/-- Steps that lead nowhere else may be put in on the way to a directory. -/
theorem LeadsIn.of_filter (h : LeadsIn t k here (path.filter isSegment) found)
    (hd : t.hasDirectory found = true) : LeadsIn t k here path found := by
  induction path generalizing k here with
  | nil => exact h
  | cons step rest ih =>
    by_cases hstep : isSegment step = true
    · rw [List.filter_cons_of_pos hstep] at h
      obtain ⟨j, i, mid, hfirst, hrest, rfl⟩ := LeadsIn.split (p := [step]) h
      exact LeadsIn.append (p := [step]) hfirst (ih hrest)
    · rw [List.filter_cons_of_neg hstep] at h
      have hstay : step = "." ∨ step = "" := by
        simp only [isSegment, Bool.and_eq_true, bne_iff_ne] at hstep
        by_cases hempty : step = ""
        · exact Or.inr hempty
        · by_cases hdot : step = "."
          · exact Or.inl hdot
          · exact absurd ⟨hempty, hdot⟩ hstep
      exact .stay (h.hasDirectory hd) hstay (ih h)

/-! ### Names and real locations -/

theorem isPlain_of_isName {name : String} (h : IsName name) : IsPlain name :=
  ⟨fun hs => hs.elim h.ne_dot h.ne_empty, h.ne_dots⟩

/-- Steps that lead somewhere are names, or they are steps to no or to the next directory. -/
theorem LeadsIn.isName (hwf : t.WellFormed) (h : LeadsIn t k here path found) :
    ∀ step ∈ path, IsPlain step → IsName step := by
  induction h with
  | done => simp
  | stay _ hs _ ih =>
    intro step hmem hplain
    rcases List.mem_cons.mp hmem with rfl | hmem
    · exact absurd hs hplain.1
    · exact ih step hmem hplain
  | up _ _ ih =>
    intro step hmem hplain
    rcases List.mem_cons.mp hmem with rfl | hmem
    · exact absurd rfl hplain.2
    · exact ih step hmem hplain
  | down _ _ hn _ _ ih =>
    intro step hmem hplain
    rcases List.mem_cons.mp hmem with rfl | hmem
    · exact hwf.isName_of_node? hn
    · exact ih step hmem hplain
  | link _ _ hn _ ih =>
    intro step hmem hplain
    rcases List.mem_cons.mp hmem with rfl | hmem
    · exact hwf.isName_of_node? hn
    · exact ih step (List.mem_append_right _ hmem) hplain

theorem IsReal.dropLast {loc : Location} (h : IsReal t loc) : IsReal t loc.dropLast := by
  cases h with
  | root => exact .root
  | entry hdir _ _ _ _ =>
    rw [List.dropLast_concat]
    exact hdir

/-- Something stands at a real location. -/
theorem IsReal.exists_node {loc : Location} (h : IsReal t loc) : ∃ n, t.node? loc = some n := by
  cases h with
  | root => exact ⟨.directory, node?_root t⟩
  | entry _ _ _ hn _ => exact ⟨_, hn⟩

theorem IsReal.isName {loc : Location} (h : IsReal t loc) : ∀ name ∈ loc, IsName name := by
  induction h with
  | root => simp
  | entry _ _ hname _ _ ih =>
    intro name hmem
    rcases List.mem_append.mp hmem with hmem | hmem
    · exact ih name hmem
    · rwa [List.mem_singleton.mp hmem]

/-- A real location is where its names lead from the root, through no link. -/
theorem IsReal.leadsIn {loc : Location} (h : IsReal t loc) : LeadsIn t 0 [] loc loc := by
  induction h with
  | root => exact .done
  | entry _ hd hname hn hplain ih =>
    exact ih.append (.down hd (isPlain_of_isName hname) hn hplain .done)

/-- **Steps lead to real locations only.** -/
theorem LeadsIn.isReal (hwf : t.WellFormed) (hhere : IsReal t here)
    (h : LeadsIn t k here path found) : IsReal t found := by
  induction h with
  | done => exact hhere
  | stay _ _ _ ih => exact ih hhere
  | up _ _ ih => exact ih hhere.dropLast
  | down hd _ hn hplain _ ih =>
    exact ih (.entry hhere hd (hwf.isName_of_node? hn) hn hplain)
  | link _ _ _ _ ih =>
    refine ih ?_
    unfold stepsFrom
    split
    · exact .root
    · exact hhere

end Unimported.Tree
