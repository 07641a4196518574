import Unimported.Value.Table

/-!
# Tables that are put together

What is given in the second of two tables decides over the first.  As a table keeps the place of a
name that is given again, the names of both stand in the order in which each occurs for the first
time, so that a search for a name finds the same in both tables one behind the other.

## Main results

* `Table.nodup_merge`, `Table.nodup_ofList` — nothing is named twice.
* `Table.get?_merge_of_nodup` — **the second table decides where it says something.**
* `Table.find?_names_merge` — **names are searched in the first table and then in the second.**
-/

namespace Unimported.Table

variable {t u : Table} {name : String} {v : Value}

@[simp] theorem names_cons (e : String × Value) (t : Table) : names (e :: t) = e.1 :: names t := rfl

theorem get?_cons (e : String × Value) (t : Table) (name : String) :
    get? (e :: t) name = if e.1 = name then some e.2 else get? t name := rfl

theorem get?_eq_none_iff : get? t name = none ↔ name ∉ names t := by
  induction t with
  | nil => simp [names]
  | cons e t ih =>
    rw [get?_cons, names_cons, List.mem_cons, not_or, ← ih]
    by_cases h : e.1 = name
    · simp [h]
    · simp [h, Ne.symm h]

theorem mem_of_get? (h : get? t name = some v) : (name, v) ∈ t := by
  induction t with
  | nil => cases h
  | cons e t ih =>
    obtain ⟨k, w⟩ := e
    unfold get? at h
    split at h
    · next hk =>
      cases h
      rw [hk]
      exact List.mem_cons_self
    · exact List.mem_cons_of_mem _ (ih h)

/-- What stands in a table after a change stood there before, or it is what was given. -/
theorem mem_set {e : String × Value} (h : e ∈ set t name v) : e = (name, v) ∨ e ∈ t := by
  induction t with
  | nil => exact Or.inl (List.mem_singleton.mp h)
  | cons e' t ih =>
    obtain ⟨k, w⟩ := e'
    unfold set at h
    split at h
    · next hk =>
      rcases List.mem_cons.mp h with rfl | h
      · exact Or.inl (by rw [hk])
      · exact Or.inr (List.mem_cons_of_mem _ h)
    · rcases List.mem_cons.mp h with rfl | h
      · exact Or.inr List.mem_cons_self
      · exact (ih h).imp id (List.mem_cons_of_mem _)

/-! ### Nothing is named twice -/

theorem nodup_set (h : (names t).Nodup) : (names (set t name v)).Nodup := by
  rw [names_set]
  split
  · exact h
  · next hnew =>
    refine List.nodup_append.mpr ⟨h, by simp, fun a ha b hb => ?_⟩
    rw [List.mem_singleton.mp hb]
    rintro rfl
    exact hnew ha

theorem nodup_merge (h : (names t).Nodup) : (names (merge t u)).Nodup := by
  induction u generalizing t with
  | nil => exact h
  | cons e u ih => exact ih (nodup_set h)

theorem nodup_ofList (entries : List (String × Value)) : (names (ofList entries)).Nodup :=
  nodup_merge List.nodup_nil

/-! ### What is found -/

/-- **The second table decides where it says something.** -/
theorem get?_merge_of_nodup (t : Table) (hu : (names u).Nodup) (name : String) :
    get? (merge t u) name = (get? u name).or (get? t name) := by
  induction u generalizing t with
  | nil => rfl
  | cons e u ih =>
    obtain ⟨k, w⟩ := e
    obtain ⟨hk, hu⟩ := List.nodup_cons.mp hu
    show get? (merge (set t k w) u) name = _
    rw [ih (set t k w) hu, get?_set]
    by_cases h : k = name
    · subst h
      rw [get?_eq_none_iff.mpr hk]
      simp [get?]
    · simp [get?, h]

/-- **Names are searched in the first table and then in the second.** -/
theorem find?_names_merge (p : String → Bool) (t u : Table) :
    (names (merge t u)).find? p = (names t ++ names u).find? p := by
  induction u generalizing t with
  | nil => simp [merge, names]
  | cons e u ih =>
    obtain ⟨k, w⟩ := e
    show (names (merge (set t k w) u)).find? p = (names t ++ k :: names u).find? p
    rw [ih (set t k w), names_set]
    split
    · next hk =>
      -- a name that was given before is found there, or it is not searched
      rw [List.find?_append, List.find?_append, List.find?_cons]
      cases hp : p k with
      | false => rfl
      | true =>
        have hfound : ((names t).find? p).isSome = true := List.find?_isSome.mpr ⟨k, hk, hp⟩
        obtain ⟨n, hn⟩ := Option.isSome_iff_exists.mp hfound
        rw [hn]
        rfl
    · rw [List.append_assoc]
      rfl

/-! ### A part of a table -/

theorem get?_filter (p : String → Bool) (t : Table) (name : String) :
    get? (t.filter fun e => p e.1) name = if p name then get? t name else none := by
  induction t with
  | nil => simp [get?]
  | cons e t ih =>
    by_cases hname : e.1 = name
    · subst hname
      cases hp : p e.1 <;> simp [get?_cons, hp, ih]
    · cases hp : p e.1 <;> simp [get?_cons, hp, ih, hname]

theorem names_filter (p : String → Bool) (t : Table) :
    names (t.filter fun e => p e.1) = (names t).filter p := by
  rw [names, names, List.filter_map]
  rfl

/-- Values that are changed stand under the names that they had. -/
theorem get?_map (g : Value → Value) (t : Table) (name : String) :
    get? (t.map fun e => (e.1, g e.2)) name = (get? t name).map g := by
  induction t with
  | nil => rfl
  | cons e t ih =>
    rw [List.map_cons, get?_cons, get?_cons, ih]
    split <;> rfl

theorem names_map (g : Value → Value) (t : Table) :
    names (t.map fun e => (e.1, g e.2)) = names t := by
  rw [names, List.map_map]
  rfl

/-- The first entry with a name that is searched holds the value under this name. -/
theorem find?_entry (p : String → Bool) :
    t.find? (fun e => p e.1) = some (name, v) ↔
      (names t).find? p = some name ∧ get? t name = some v := by
  induction t with
  | nil => simp [names]
  | cons e t ih =>
    rw [names_cons, get?_cons, List.find?_cons, List.find?_cons]
    cases hp : p e.1 with
    | true =>
      simp only [Option.some.injEq]
      constructor
      · rintro rfl
        simp
      · rintro ⟨rfl, h⟩
        rw [if_pos rfl, Option.some.injEq] at h
        rw [← h]
    | false =>
      rw [ih]
      refine and_congr_right fun hname => ?_
      have hne : e.1 ≠ name := by
        rintro rfl
        have hfound := List.find?_some hname
        rw [hp] at hfound
        cases hfound
      rw [if_neg hne]

end Unimported.Table
