import Unimported.Value.Basic

/-!
# Tables

Named values in the order in which the names were first given.  Giving a name again replaces its
value and keeps its place.

## Main definitions

* `Table`, `Table.get?`, `Table.set`, `Table.merge`, `Table.ofList`.

## Main results

* `Table.get?_set`, `Table.get?_merge` — what stands under a name after a change.
* `Table.names_set` — a new name comes last, a known one keeps its place.
-/

namespace Unimported

/-- Named values in their order. -/
abbrev Table := List (String × Value)

namespace Table

/-- The value under a name. -/
def get? : Table → String → Option Value
  | [], _ => none
  | (k, v) :: rest, name => if k = name then some v else get? rest name

/-- Give a value to a name. -/
def set : Table → String → Value → Table
  | [], name, value => [(name, value)]
  | (k, v) :: rest, name, value =>
      if k = name then (k, value) :: rest else (k, v) :: set rest name value

/-- Give all values of the second table, in its order. -/
def merge (t u : Table) : Table := u.foldl (fun t e => set t e.1 e.2) t

/-- The table that arises from giving values one after another. -/
def ofList (entries : List (String × Value)) : Table := merge [] entries

/-- The names in their order. -/
def names (t : Table) : List String := t.map Prod.fst

@[simp] theorem get?_nil (name : String) : get? [] name = none := rfl

theorem get?_set (t : Table) (name other : String) (value : Value) :
    get? (set t name value) other = if name = other then some value else get? t other := by
  induction t with
  | nil => simp [set, get?]
  | cons e rest ih =>
    obtain ⟨k, v⟩ := e
    simp only [set]
    split
    · rename_i h
      subst h
      simp only [get?]
      split <;> simp_all
    · rename_i h
      simp only [get?, ih]
      split
      · rename_i hk
        subst hk
        simp [Ne.symm h]
      · rfl

theorem names_set (t : Table) (name : String) (value : Value) :
    names (set t name value) = if name ∈ names t then names t else names t ++ [name] := by
  induction t with
  | nil => simp [set, names]
  | cons e rest ih =>
    obtain ⟨k, v⟩ := e
    simp only [set]
    split
    · rename_i h
      subst h
      simp [names]
    · rename_i h
      simp only [names, List.map_cons, List.mem_cons] at ih ⊢
      rw [ih]
      have hk : ¬ name = k := fun e => h e.symm
      by_cases hm : name ∈ List.map Prod.fst rest <;> simp [hk, hm]

/-- The later table decides where it says something. -/
theorem get?_merge (t u : Table) (name : String) :
    get? (merge t u) name =
      (u.reverse.find? fun e => e.1 = name).elim (get? t name) fun e => some e.2 := by
  induction u generalizing t with
  | nil => simp [merge]
  | cons e rest ih =>
    have h := ih (set t e.1 e.2)
    simp only [merge, List.foldl_cons] at h ⊢
    rw [h, List.reverse_cons, List.find?_append]
    cases hf : rest.reverse.find? fun e => e.1 = name with
    | some x => simp
    | none =>
      simp only [Option.elim_none, Option.none_or, List.find?_cons, List.find?_nil, get?_set]
      by_cases he : e.1 = name <;> simp [he]

end Table

end Unimported
