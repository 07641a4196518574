/-!
# Sets of strings

A finite set of strings, kept as the list of its members in code point order.  The order is part
of the type, so two sets with the same members are equal values, whatever was inserted first.

## Main definitions

* `StringSet`, `StringSet.insert`, `StringSet.ofList`.

## Main results

* `StringSet.ext` — sets with the same members are equal.
* `StringSet.mem_insert`, `StringSet.mem_ofList` — what the operations hold.
-/

namespace Unimported

/-- A finite set of strings. -/
structure StringSet where
  /-- The members, in code point order. -/
  members : List String
  /-- Each member stands before all larger ones. -/
  ordered : members.Pairwise (· < ·) := by simp

namespace StringSet

/-- Put a string at its place in an ordered list. -/
def place (s : String) : List String → List String
  | [] => [s]
  | t :: ts => if s < t then s :: t :: ts else if s = t then t :: ts else t :: place s ts

theorem mem_place {s x : String} {ts : List String} : x ∈ place s ts ↔ x = s ∨ x ∈ ts := by
  induction ts with
  | nil => simp [place]
  | cons t ts ih =>
    simp only [place]
    split
    · simp
    · split
      · rename_i h; subst h; simp
      · simp only [List.mem_cons, ih]
        constructor
        · rintro (h | h | h) <;> simp [h]
        · rintro (h | h | h) <;> simp [h]

theorem ordered_place {s : String} {ts : List String} (h : ts.Pairwise (· < ·)) :
    (place s ts).Pairwise (· < ·) := by
  induction ts with
  | nil => simp [place]
  | cons t ts ih =>
    obtain ⟨ht, hts⟩ := List.pairwise_cons.1 h
    simp only [place]
    split
    · rename_i hst
      refine List.pairwise_cons.2 ⟨fun x hx => ?_, h⟩
      rcases List.mem_cons.1 hx with rfl | hx
      · exact hst
      · exact String.lt_trans hst (ht x hx)
    · split
      · exact h
      · rename_i hlt hne
        refine List.pairwise_cons.2 ⟨fun x hx => ?_, ih hts⟩
        rcases mem_place.1 hx with rfl | hx
        · rcases Std.Trichotomous.rel_or_eq_or_rel_swap (r := ((· < ·) : String → String → Prop))
            (a := t) (b := x) with h | h | h
          · exact h
          · exact absurd h.symm hne
          · exact absurd h hlt
        · exact ht x hx

theorem length_place_le (s : String) (ts : List String) : (place s ts).length ≤ ts.length + 1 := by
  induction ts with
  | nil => simp [place]
  | cons t ts ih =>
    simp only [place]
    split
    · simp
    · split
      · simp
      · simp only [List.length_cons]; omega

/-- The set without members. -/
def empty : StringSet := ⟨[], .nil⟩

/-- The set with one more member. -/
def insert (x : StringSet) (s : String) : StringSet := ⟨place s x.members, ordered_place x.ordered⟩

/-- The set of the strings of a list. -/
def ofList (l : List String) : StringSet := l.foldl insert empty

/-- How many members a set has. -/
def size (x : StringSet) : Nat := x.members.length

instance : Membership String StringSet := ⟨fun x s => s ∈ x.members⟩

instance (s : String) (x : StringSet) : Decidable (s ∈ x) :=
  inferInstanceAs (Decidable (s ∈ x.members))

@[simp] theorem mem_members {x : StringSet} {s : String} : s ∈ x.members ↔ s ∈ x := Iff.rfl

@[simp] theorem not_mem_empty (s : String) : ¬ s ∈ empty := by
  show s ∉ ([] : List String)
  simp

@[simp] theorem mem_insert {x : StringSet} {s t : String} : t ∈ x.insert s ↔ t = s ∨ t ∈ x :=
  mem_place

theorem mem_foldl_insert {l : List String} {x : StringSet} {s : String} :
    s ∈ l.foldl insert x ↔ s ∈ l ∨ s ∈ x := by
  induction l generalizing x with
  | nil => simp
  | cons t l ih => simp [ih, or_assoc, or_left_comm]

@[simp] theorem mem_ofList {l : List String} {s : String} : s ∈ ofList l ↔ s ∈ l := by
  simp [ofList, mem_foldl_insert]

theorem length_ofList_le (l : List String) : (ofList l).members.length ≤ l.length := by
  suffices h : ∀ x : StringSet,
      (l.foldl insert x).members.length ≤ x.members.length + l.length by
    exact Nat.le_trans (h empty) (by simp [empty])
  induction l with
  | nil => simp
  | cons t l ih =>
    intro x
    refine Nat.le_trans (ih (x.insert t)) ?_
    have := length_place_le t x.members
    simp only [insert, List.length_cons]
    omega

/-- Two ordered lists with the same members are equal. -/
theorem eq_of_ordered {l₁ l₂ : List String} (h₁ : l₁.Pairwise (· < ·)) (h₂ : l₂.Pairwise (· < ·))
    (h : ∀ s, s ∈ l₁ ↔ s ∈ l₂) : l₁ = l₂ := by
  induction l₁ generalizing l₂ with
  | nil =>
    cases l₂ with
    | nil => rfl
    | cons t ts => simpa using h t
  | cons s ss ih =>
    cases l₂ with
    | nil => simpa using h s
    | cons t ts =>
      obtain ⟨hs, hss⟩ := List.pairwise_cons.1 h₁
      obtain ⟨ht, hts⟩ := List.pairwise_cons.1 h₂
      have hst : s = t := by
        rcases List.mem_cons.1 ((h s).1 List.mem_cons_self) with e | hs'
        · exact e
        · rcases List.mem_cons.1 ((h t).2 List.mem_cons_self) with e | ht'
          · exact e.symm
          · exact absurd (String.lt_trans (ht s hs') (hs t ht')) (String.lt_irrefl t)
      subst hst
      congr 1
      refine ih hss hts fun x => ?_
      constructor
      · intro hx
        rcases List.mem_cons.1 ((h x).1 (List.mem_cons_of_mem _ hx)) with rfl | hx'
        · exact absurd (hs x hx) (String.lt_irrefl x)
        · exact hx'
      · intro hx
        rcases List.mem_cons.1 ((h x).2 (List.mem_cons_of_mem _ hx)) with rfl | hx'
        · exact absurd (ht x hx) (String.lt_irrefl x)
        · exact hx'

@[ext] theorem ext {x y : StringSet} (h : ∀ s, s ∈ x ↔ s ∈ y) : x = y := by
  have e : x.members = y.members := eq_of_ordered x.ordered y.ordered h
  cases x; cases y; cases e; rfl

end StringSet

end Unimported
