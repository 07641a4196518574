import Unimported.Path.Normal

/-!
# Names and the texts of paths

A name is what an entry of a directory can be called: nothing that stands for a directory itself or
for the one around it, and nothing with a slash or the zero character in it.  Names with slashes
between them are read back, so a path that is made of names is told by its text.

## Main definitions

* `Path.IsName` — a text that an entry can be called.
* `Path.under` — the path of a way below a directory.

## Main results

* `Path.pieces_slashed`, `Path.slashed_pieces` — cutting at slashes and putting them back.
* `Path.pieces_append` — a text with a slash in it is cut there.
* `Path.ofString_of_names` — names with slashes between them are read back.
-/

namespace Unimported.Path

/-- A text that an entry of a directory can be called. -/
structure IsName (s : String) : Prop where
  ne_empty : s ≠ ""
  ne_dot : s ≠ "."
  ne_dots : s ≠ ".."
  no_slash : '/' ∉ s.toList
  no_zero : '\x00' ∉ s.toList

instance (s : String) : Decidable (IsName s) :=
  decidable_of_iff (s ≠ "" ∧ s ≠ "." ∧ s ≠ ".." ∧ '/' ∉ s.toList ∧ '\x00' ∉ s.toList)
    ⟨fun ⟨h₁, h₂, h₃, h₄, h₅⟩ => ⟨h₁, h₂, h₃, h₄, h₅⟩, fun h => ⟨h.1, h.2, h.3, h.4, h.5⟩⟩

theorem IsName.isSegment {s : String} (h : IsName s) : isSegment s = true := by
  simp [Path.isSegment, h.ne_empty, h.ne_dot]

/-! ### Pieces between slashes -/

theorem toList_slashed (segments : List String) :
    (slashed segments).toList = ['/'].intercalate (segments.map String.toList) := by
  unfold slashed
  rw [String.toList_intercalate]
  rfl

theorem map_toList_pieces (s : String) : (pieces s).map String.toList = s.toList.splitOn '/' := by
  unfold pieces
  rw [List.map_map]
  conv => rhs; rw [← List.map_id (s.toList.splitOn '/')]
  exact List.map_congr_left fun cs _ => String.toList_ofList

theorem pieces_ne_nil (s : String) : pieces s ≠ [] := by
  simp [pieces, List.splitOn_ne_nil]

theorem pieces_slashed {segments : List String} (hne : segments ≠ [])
    (h : ∀ s ∈ segments, '/' ∉ s.toList) : pieces (slashed segments) = segments := by
  unfold pieces
  rw [toList_slashed, List.splitOn_intercalate '/' (by simpa using h) (by simpa using hne),
    List.map_map]
  simp

theorem slashed_pieces (s : String) : slashed (pieces s) = s := by
  rw [← String.toList_inj, toList_slashed, map_toList_pieces, List.intercalate_splitOn]

theorem pieces_append (s t : String) : pieces (s ++ "/" ++ t) = pieces s ++ pieces t := by
  have h : (s ++ "/" ++ t).toList = s.toList ++ '/' :: t.toList := by simp
  unfold pieces
  rw [h, List.splitOn_append_cons_self, List.map_append]

theorem pieces_of_not_mem {s : String} (h : '/' ∉ s.toList) : pieces s = [s] := by
  simp [pieces, List.splitOn_eq_singleton h]

theorem slashed_append {front back : List String} (hf : front ≠ []) (hb : back ≠ []) :
    slashed (front ++ back) = slashed front ++ "/" ++ slashed back :=
  String.intercalate_append_of_ne_nil hf hb

@[simp] theorem slashed_singleton (s : String) : slashed [s] = s := String.intercalate_singleton

/-- A character of segments with slashes between them is such a slash, or of a segment. -/
theorem mem_slashed {segments : List String} {c : Char} (h : c ∈ (slashed segments).toList) :
    c = '/' ∨ ∃ s ∈ segments, c ∈ s.toList := by
  rw [toList_slashed] at h
  induction segments with
  | nil => cases h
  | cons s rest ih =>
    cases rest with
    | nil =>
      refine Or.inr ⟨s, List.mem_cons_self, ?_⟩
      simpa using h
    | cons r rest =>
      rw [List.map_cons, List.map_cons, List.intercalate_cons_cons] at h
      rcases List.mem_append.mp h with h | h
      · rcases List.mem_append.mp h with h | h
        · exact Or.inr ⟨s, List.mem_cons_self, h⟩
        · exact Or.inl (List.mem_singleton.mp h)
      · rcases ih h with h | ⟨q, hq, hc⟩
        · exact Or.inl h
        · exact Or.inr ⟨q, List.mem_cons_of_mem s hq, hc⟩

/-! ### Ways below a directory -/

/-- The path of a way below a directory. -/
def under (base way : List String) : Path := ⟨.root, base ++ way⟩

theorem name_under (base : List String) {way : List String} (hne : way ≠ []) :
    (under base way).name = name ⟨.current, way⟩ := by
  obtain ⟨init, n, rfl⟩ := (List.eq_nil_or_concat way).resolve_left hne
  simp [name, under]

/-! ### Reading paths -/

theorem filter_isSegment {segments : List String} (h : ∀ s ∈ segments, IsName s) :
    segments.filter isSegment = segments :=
  List.filter_eq_self.mpr fun s hs => (h s hs).isSegment

theorem anchorOf_of_head {cs : List Char} (h : cs.head? ≠ some '/') : anchorOf cs = .current := by
  unfold anchorOf
  split <;> simp_all

/-- **Names with slashes between them are read back.** -/
theorem ofString_of_names {s : String} {segments : List String} (hhead : s.toList.head? ≠ some '/')
    (hp : (pieces s).filter isSegment = segments) : ofString s = ⟨.current, segments⟩ := by
  rw [ofString, anchorOf_of_head hhead, hp]

@[simp] theorem join_current (p : Path) (segments : List String) :
    p.join ⟨.current, segments⟩ = ⟨p.anchor, p.segments ++ segments⟩ := rfl

end Unimported.Path
