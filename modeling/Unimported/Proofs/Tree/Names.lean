import Unimported.Proofs.Path.Names
import Unimported.Tree.Basic

/-!
# Trees of names

In the tree of a machine every entry has a name, and a name is never a text that paths use for
something else.  Changing a tree at a location made of names keeps it so.

* `Tree.WellFormed` — a tree whose locations are made of names.
* `Tree.WellFormed.isName_of_node?` — what stands in a directory has a name.
* `Tree.WellFormed.erase`, `Tree.WellFormed.insert` — a changed tree is made of names again.
-/

namespace Unimported

open Path (IsName)

namespace Tree

/-- Every location of the tree is made of names. -/
def WellFormed (t : Tree) : Prop := ∀ e ∈ t.entries, ∀ n ∈ e.place, IsName n

instance (t : Tree) : Decidable t.WellFormed :=
  inferInstanceAs (Decidable (∀ e ∈ t.entries, ∀ n ∈ e.place, IsName n))

theorem exists_entry_of_node? {t : Tree} {loc : Location} {n : Node} (hne : loc ≠ [])
    (h : t.node? loc = some n) : ∃ e ∈ t.entries, e.place = loc := by
  have hsome : (t.node? loc).isSome := by simp [h]
  simpa [node?, if_neg hne, entry?_eq] using hsome

/-- What stands at a location is told by the entries there. -/
theorem node?_eq_of_entries {t : Tree} {loc : Location} {n : Node} (hne : loc ≠ [])
    (hmem : ∃ e ∈ t.entries, e.place = loc) (hall : ∀ e ∈ t.entries, e.place = loc → e.node = n) :
    t.node? loc = some n := by
  rw [node?, if_neg hne, entry?_eq]
  cases hfind : t.entries.find? fun e => decide (e.place = loc) with
  | none =>
    obtain ⟨e, he, hplace⟩ := hmem
    exact absurd (decide_eq_true hplace) (List.find?_eq_none.mp hfind e he)
  | some e =>
    have hplace := List.find?_some hfind
    exact congrArg some (hall e (List.mem_of_find?_eq_some hfind) (of_decide_eq_true hplace))

/-- What stands in a directory has a name. -/
theorem WellFormed.isName_of_node? {t : Tree} (h : t.WellFormed) {loc : Location} {name : String}
    {n : Node} (hn : t.node? (loc ++ [name]) = some n) : IsName name := by
  obtain ⟨e, he, hp⟩ := exists_entry_of_node? (by simp) hn
  exact h e he name (by simp [hp])

theorem WellFormed.isName {t : Tree} (h : t.WellFormed) {loc : Location} {name : String}
    (hn : name ∈ t.names loc) : IsName name := by
  obtain ⟨n, hn⟩ := Option.isSome_iff_exists.mp (mem_names.mp hn)
  exact h.isName_of_node? hn

/-! ### Changes -/

theorem WellFormed.erase {t : Tree} (h : t.WellFormed) (loc : Location) :
    (t.erase loc).WellFormed := by
  intro e he
  exact h e (List.mem_filter.mp he).1

/-- One more entry at a location made of names. -/
theorem WellFormed.concat {entries : List Entry} (h : WellFormed ⟨entries⟩) {loc : Location}
    (hloc : ∀ n ∈ loc, IsName n) (n : Node) : WellFormed ⟨entries ++ [.of loc n]⟩ := by
  intro e he
  rcases List.mem_append.mp he with he | he
  · exact h e he
  · rw [List.mem_singleton.mp he]
    exact hloc

theorem WellFormed.openDirectory {t : Tree} (h : t.WellFormed) {loc : Location}
    (hloc : ∀ n ∈ loc, IsName n) : (t.openDirectory loc).WellFormed := by
  unfold Tree.openDirectory
  split
  · exact h
  · exact WellFormed.concat h hloc .directory

theorem WellFormed.set {t : Tree} (h : t.WellFormed) {loc : Location}
    (hloc : ∀ n ∈ loc, IsName n) (n : Node) : (t.set loc n).WellFormed :=
  WellFormed.concat (h.erase loc) hloc n

/-- **Inserting at a location made of names keeps a tree one of names.** -/
theorem WellFormed.insert {t : Tree} (h : t.WellFormed) {loc : Location}
    (hloc : ∀ n ∈ loc, IsName n) (n : Node) : (t.insert loc n).WellFormed := by
  have hopen : ∀ (above : List Location) (t : Tree), t.WellFormed →
      (∀ l ∈ above, ∀ n ∈ l, IsName n) → (above.foldl Tree.openDirectory t).WellFormed := by
    intro above
    induction above with
    | nil => exact fun t ht _ => ht
    | cons l above ih =>
      intro t ht hl
      exact ih _ (ht.openDirectory (hl l List.mem_cons_self)) fun k hk =>
        hl k (List.mem_cons_of_mem l hk)
  have habove : ∀ l ∈ above loc, ∀ n ∈ l, IsName n := by
    intro l hl n hn
    obtain ⟨i, -, rfl⟩ := List.mem_map.mp hl
    exact hloc n (List.mem_of_mem_take hn)
  have hway := hopen (above loc) t h habove
  unfold Tree.insert
  simp only
  split
  · exact hway
  · exact hway.set hloc n

end Tree

end Unimported
