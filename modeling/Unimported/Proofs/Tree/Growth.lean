import Mathlib.Data.List.Induction
import Unimported.Proofs.Tree.Linkless

/-!
# Trees that grow

A file that is put where nothing stands, with the directories on the way to it, leaves everything
as it was, and nothing else is new.  So a path leads where it led before, and what a path leads to
was there before, unless it is the file or one of the new directories.

The list of entries could hold something below a location where nothing stands.  It is nowhere to be
found as long as the directory around it is missing, and would come to light with the directory; in
a tree that is grown from the ground there is no such thing.

## Main definitions

* `Tree.Grounded` — everything in a tree stands in a directory.
* `Tree.Grows` — a tree with a new file, and with new directories.

## Main results

* `Tree.Grounded.isReal` — without links, everything in such a tree is at a real location.
* `Tree.grows_insert` — **inserting a file where nothing stands makes a tree grow.**
* `Tree.Grows.leadsIn` — where steps lead in a tree, they lead when it has grown.
* `Tree.Grows.isReal` — a real location stays one.
-/

namespace Unimported.Tree

open Path (IsName)

/-! ### Trees from the ground up -/

/-- Everything in the tree stands in a directory. -/
def Grounded (t : Tree) : Prop := ∀ e ∈ t.entries, t.hasDirectory e.place.dropLast = true

instance (t : Tree) : Decidable t.Grounded :=
  inferInstanceAs (Decidable (∀ e ∈ t.entries, t.hasDirectory e.place.dropLast = true))

variable {t t' : Tree} {loc x : Location}

/-- What stands somewhere stands in a directory. -/
theorem Grounded.hasDirectory (h : t.Grounded) {name : String} {n : Node}
    (hn : t.node? (x ++ [name]) = some n) : t.hasDirectory x = true := by
  obtain ⟨e, he, hplace⟩ := exists_entry_of_node? (by simp) hn
  have hdir := h e he
  rwa [hplace, List.dropLast_concat] at hdir

/-- Below a location where nothing stands, nothing stands. -/
theorem Grounded.node?_append (h : t.Grounded) (hnone : t.node? loc = none) (rest : Location) :
    t.node? (loc ++ rest) = none := by
  induction rest using List.reverseRecOn with
  | nil => rwa [List.append_nil]
  | append_singleton rest name ih =>
    rw [← List.append_assoc]
    cases hn : t.node? (loc ++ rest ++ [name]) with
    | none => rfl
    | some n =>
      have hdir := h.hasDirectory hn
      rw [Tree.hasDirectory, ih] at hdir
      cases hdir

/-- **Without links, everything in a tree is at a real location.** -/
theorem Grounded.isReal (h : t.Grounded) (hwf : t.WellFormed) (hlinks : t.Linkless) {n : Node}
    (hn : t.node? x = some n) : IsReal t x := by
  induction x using List.reverseRecOn generalizing n with
  | nil => exact .root
  | append_singleton x name ih =>
    have hdir := h.hasDirectory hn
    have hparent : t.node? x = some .directory := of_decide_eq_true hdir
    refine .entry (ih hparent) hdir (hwf.isName_of_node? hn) hn ?_
    rintro target rfl
    exact hlinks _ target hn

/-! ### Growing -/

/-- A tree has grown: what stood there stands there still, and all that is new is what stands at one
location, and directories. -/
structure Grows (t t' : Tree) (loc : Location) : Prop where
  kept : ∀ x n, t.node? x = some n → t'.node? x = some n
  new : ∀ x n, t'.node? x = some n → t.node? x = some n ∨ x = loc ∨ n = .directory

theorem Grows.refl (t : Tree) (loc : Location) : Grows t t loc :=
  ⟨fun _ _ h => h, fun _ _ h => Or.inl h⟩

theorem Grows.trans {t'' : Tree} (h : Grows t t' loc) (h' : Grows t' t'' loc) : Grows t t'' loc where
  kept := fun x n hn => h'.kept x n (h.kept x n hn)
  new := fun x n hn => (h'.new x n hn).elim (h.new x n) Or.inr

/-- One more entry stands where nothing stood before. -/
theorem node?_concat (entries : List Entry) (loc : Location) (n : Node) {x : Location}
    (hx : x ≠ []) :
    node? ⟨entries ++ [.of loc n]⟩ x =
      (node? ⟨entries⟩ x).or (if loc = x then some n else none) := by
  simp only [node?, if_neg hx, entry?_eq, List.find?_append]
  cases (List.find? (fun e => decide (e.place = x)) entries) with
  | some e => rfl
  | none =>
    by_cases h : loc = x
    · simp [Entry.of, h]
    · simp [Entry.of, h]

theorem grows_concat {entries : List Entry} {n : Node} {place : Location}
    (hnew : place = loc ∨ n = .directory) :
    Grows ⟨entries⟩ ⟨entries ++ [.of place n]⟩ loc where
  kept := by
    intro x m hm
    by_cases hx : x = []
    · rwa [hx] at hm ⊢
    · rw [node?_concat _ _ _ hx, hm]
      rfl
  new := by
    intro x m hm
    by_cases hx : x = []
    · rw [hx] at hm ⊢
      exact Or.inl hm
    · rw [node?_concat _ _ _ hx] at hm
      cases hold : node? ⟨entries⟩ x with
      | some m' =>
        rw [hold] at hm
        exact Or.inl hm
      | none =>
        rw [hold, Option.none_or] at hm
        split at hm
        · next hplace =>
          obtain rfl := Option.some.inj hm
          exact Or.inr (hnew.imp (fun h => hplace.symm.trans h) id)
        · cases hm

/-- Opening a directory makes a tree grow. -/
theorem grows_openDirectory (t : Tree) (loc place : Location) :
    Grows t (t.openDirectory place) loc := by
  unfold openDirectory
  split
  · exact .refl t loc
  · exact grows_concat (Or.inr rfl)

/-- Where nothing stands at a location or below it, nothing is taken away to make room. -/
theorem grows_set (hnone : ∀ rest, t.node? (loc ++ rest) = none) (n : Node) :
    Grows t (t.set loc n) loc := by
  have hsame : ∀ x, (t.erase loc).node? x = t.node? x := by
    intro x
    by_cases hx : x = []
    · rw [hx]
      rfl
    · rw [node?_erase hx]
      split
      · next hprefix =>
        obtain ⟨rest, rfl⟩ := List.isPrefixOf_iff_prefix.mp hprefix
        exact (hnone rest).symm
      · rfl
  have herase : Grows t (t.erase loc) loc :=
    ⟨fun x n hn => (hsame x).trans hn, fun x n hn => Or.inl ((hsame x).symm.trans hn)⟩
  exact herase.trans (grows_concat (Or.inl rfl))

/-- Opening the directories above a location leaves it empty, with all that is below it. -/
theorem node?_openDirectory_append (hnone : ∀ rest, t.node? (loc ++ rest) = none) {place : Location}
    (hshort : place.length < loc.length) (rest : Location) :
    (t.openDirectory place).node? (loc ++ rest) = none := by
  have hne : place ≠ loc ++ rest := by
    intro heq
    rw [heq, List.length_append] at hshort
    omega
  have hroot : loc ++ rest ≠ [] := by
    intro heq
    rw [(List.append_eq_nil_iff.mp heq).1] at hshort
    exact Nat.not_lt_zero _ hshort
  unfold openDirectory
  split
  · exact hnone rest
  · rw [node?_concat _ _ _ hroot, if_neg hne, Option.or_none]
    exact hnone rest

/-- **Inserting a file where nothing stands makes a tree grow**; so does inserting a link. -/
theorem grows_insert (hground : t.Grounded) (hnone : t.node? loc = none) {n : Node}
    (hn : n ≠ .directory) : Grows t (t.insert loc n) loc := by
  -- the directories are opened one by one, and the location stays empty
  have hopen : ∀ (places : List Location) (t : Tree), (∀ rest, t.node? (loc ++ rest) = none) →
      (∀ place ∈ places, place.length < loc.length) →
      Grows t (places.foldl openDirectory t) loc ∧
        ∀ rest, (places.foldl openDirectory t).node? (loc ++ rest) = none := by
    intro places
    induction places with
    | nil => exact fun t hempty _ => ⟨.refl t loc, hempty⟩
    | cons place places ih =>
      intro t hempty hshort
      have hplace := hshort place List.mem_cons_self
      obtain ⟨hgrows, hrest⟩ := ih (t.openDirectory place)
        (node?_openDirectory_append hempty hplace)
        fun place' hmem => hshort place' (List.mem_cons_of_mem _ hmem)
      exact ⟨(grows_openDirectory t loc place).trans hgrows, hrest⟩
  have hshort : ∀ place ∈ above loc, place.length < loc.length := by
    intro place hplace
    obtain ⟨i, hi, rfl⟩ := List.mem_map.mp hplace
    rw [List.length_take]
    exact Nat.lt_of_le_of_lt (Nat.min_le_left _ _) (List.mem_range.mp hi)
  obtain ⟨hgrows, hempty⟩ := hopen (above loc) t (hground.node?_append hnone) hshort
  unfold insert
  simp only [hn, false_and, if_false]
  exact hgrows.trans (grows_set hempty n)

/-! ### Paths in a tree that has grown -/

theorem Grows.hasDirectory (h : Grows t t' loc) (hx : t.hasDirectory x = true) :
    t'.hasDirectory x = true :=
  decide_eq_true (h.kept x _ (of_decide_eq_true hx))

/-- Where something stood, no directory stands unless it did before. -/
theorem Grows.hasDirectory_eq (h : Grows t t' loc) {n : Node} (hn : t.node? x = some n) :
    t'.hasDirectory x = t.hasDirectory x := by
  unfold Tree.hasDirectory
  rw [h.kept x n hn, hn]

/-- **Where steps lead in a tree, they lead when it has grown.** -/
theorem Grows.leadsIn (h : Grows t t' loc) {k : Nat} {here found : Location} {path : List String}
    (hlead : LeadsIn t k here path found) : LeadsIn t' k here path found := by
  induction hlead with
  | done => exact .done
  | stay hd hs _ ih => exact .stay (h.hasDirectory hd) hs ih
  | up hd _ ih => exact .up (h.hasDirectory hd) ih
  | down hd hs hn hplain _ ih => exact .down (h.hasDirectory hd) hs (h.kept _ _ hn) hplain ih
  | link hd hs hn _ ih => exact .link (h.hasDirectory hd) hs (h.kept _ _ hn) ih

/-- A real location stays one. -/
theorem Grows.isReal (h : Grows t t' loc) (hx : IsReal t x) : IsReal t' x := by
  induction hx with
  | root => exact .root
  | entry _ hd hname hn hplain ih => exact .entry ih (h.hasDirectory hd) hname (h.kept _ _ hn) hplain

/-- A tree without links has none when it has grown, unless the new thing is one. -/
theorem Grows.linkless (h : Grows t t' loc) (hlinks : t.Linkless)
    (hloc : ∀ target, t'.node? loc ≠ some (.link target)) : t'.Linkless := by
  intro x target hx
  rcases h.new x _ hx with hold | rfl | hdir
  · exact hlinks x target hold
  · exact hloc target hx
  · cases hdir

/-- A file that is put somewhere stands there. -/
theorem node?_insert_self (hne : loc ≠ []) {n : Node} (hn : n ≠ .directory) :
    (t.insert loc n).node? loc = some n := by
  unfold insert
  simp only [hn, false_and, if_false]
  exact node?_set_self hne

end Unimported.Tree
