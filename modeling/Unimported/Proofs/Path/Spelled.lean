import Unimported.Proofs.Path.Names
import Unimported.Tree.Canonical

/-!
# Paths as resolving spells them

While a path is made canonical it is kept in writing: from the root, or from the current directory
with steps out of it at the front.  In this spelling a path is told by its text, and what is done
to the writing is done to the location that it names.

## Main definitions

* `Path.Spelled` — a path in this spelling.

## Main results

* `Path.Spelled.ofString_text` — a path in this spelling is read back from its text.
* `Tree.locationOf_child`, `Tree.locationOf_up` — writing a step, and taking it.
-/

namespace Unimported

namespace Path

/-- A path as resolving spells it: made of names and, unless it starts at the root, steps out. -/
structure Spelled (p : Path) : Prop where
  anchor : p.anchor ≠ .doubleRoot
  segments : ∀ s ∈ p.segments, s = ".." ∨ IsName s
  rooted : p.anchor = .root → ".." ∉ p.segments

theorem spelled_root : Spelled ⟨.root, []⟩ := ⟨by simp, by simp, by simp⟩

theorem spelled_current : Spelled ⟨.current, []⟩ := ⟨by simp, by simp, by simp⟩

theorem Spelled.child {p : Path} (h : p.Spelled) {n : String} (hn : IsName n) :
    (p.child n).Spelled where
  anchor := h.anchor
  segments := by
    intro s hs
    rcases List.mem_append.mp hs with hs | hs
    · exact h.segments s hs
    · rw [List.mem_singleton.mp hs]
      exact Or.inr hn
  rooted := by
    intro ha hs
    rcases List.mem_append.mp hs with hs | hs
    · exact h.rooted ha hs
    · exact hn.ne_dots (List.mem_singleton.mp hs).symm

theorem Spelled.parent {p : Path} (h : p.Spelled) : p.parent.Spelled where
  anchor := h.anchor
  segments := fun s hs => h.segments s ((List.dropLast_sublist _).mem hs)
  rooted := fun ha hs => h.rooted ha ((List.dropLast_sublist _).mem hs)

theorem Spelled.up {p : Path} (h : p.Spelled) : p.up.Spelled := by
  unfold Path.up
  split
  · refine ⟨by simp, ?_, by simp⟩
    intro s hs
    rcases List.mem_append.mp hs with hs | hs
    · exact h.segments s hs
    · exact Or.inl (List.mem_singleton.mp hs)
  · exact h.parent

theorem anchor_up (p : Path) : p.up.anchor = p.anchor := by
  unfold Path.up
  split
  · next h => exact h.1.symm
  · rfl

theorem of_mem_segments_up {p : Path} {s : String} (h : s ∈ p.up.segments) :
    s ∈ p.segments ∨ s = ".." := by
  unfold Path.up at h
  split at h
  · exact (List.mem_append.mp h).imp id List.mem_singleton.mp
  · exact Or.inl ((List.dropLast_sublist _).mem h)

/-! ### Reading the text back -/

theorem Spelled.isSegment {p : Path} (h : p.Spelled) :
    ∀ s ∈ p.segments, isSegment s = true ∧ '/' ∉ s.toList := by
  intro s hs
  rcases h.segments s hs with rfl | hn
  · decide
  · exact ⟨hn.isSegment, hn.no_slash⟩

/-- Segments with slashes between them do not start with one. -/
theorem head_slashed {segments : List String}
    (h : ∀ s ∈ segments, Path.isSegment s = true ∧ '/' ∉ s.toList) :
    (slashed segments).toList.head? ≠ some '/' := by
  cases segments with
  | nil => simp [slashed]
  | cons s rest =>
    obtain ⟨hs, hslash⟩ := h s List.mem_cons_self
    have hne : s.toList ≠ [] := by
      intro hnil
      have hempty : s = "" := String.toList_inj.mp hnil
      simp [hempty, Path.isSegment] at hs
    obtain ⟨c, cs, hcs⟩ := List.exists_cons_of_ne_nil hne
    have hc : c ≠ '/' := fun hc => hslash (by simp [hcs, hc])
    obtain ⟨tail, htail⟩ : ∃ tail, (slashed (s :: rest)).toList = c :: tail := by
      rw [toList_slashed, List.map_cons]
      cases rest with
      | nil => exact ⟨cs, by simp [hcs]⟩
      | cons r rest => exact ⟨_, by rw [List.map_cons, List.intercalate_cons_cons, hcs]; rfl⟩
    rw [htail]
    simpa using hc

theorem filter_pieces_slashed {segments : List String}
    (h : ∀ s ∈ segments, Path.isSegment s = true ∧ '/' ∉ s.toList) :
    (pieces (slashed segments)).filter Path.isSegment = segments := by
  by_cases hne : segments = []
  · subst hne
    decide +kernel
  · rw [pieces_slashed hne fun s hs => (h s hs).2]
    exact List.filter_eq_self.mpr fun s hs => (h s hs).1

/-- **A path in this spelling is read back from its text.** -/
theorem Spelled.ofString_text {p : Path} (h : p.Spelled) : ofString p.text = p := by
  obtain ⟨anchor, segments⟩ := p
  have hseg := h.isSegment
  have hhead := head_slashed hseg
  have hpieces := filter_pieces_slashed hseg
  cases anchor with
  | doubleRoot => exact absurd rfl h.anchor
  | current =>
    by_cases hne : segments = []
    · subst hne
      decide +kernel
    · have htext : text ⟨.current, segments⟩ = slashed segments := by
        simp [text, hne, Anchor.text]
      rw [htext]
      exact ofString_of_names hhead hpieces
  | root =>
    have htext : text ⟨.root, segments⟩ = "" ++ "/" ++ slashed segments := by
      simp [text, Anchor.text]
    -- no segment starts with a slash, so there is one slash at the front and not two
    have hanchor : anchorOf ("" ++ "/" ++ slashed segments).toList = .root := by
      have hcons : ("" ++ "/" ++ slashed segments).toList = '/' :: (slashed segments).toList := by
        simp
      rw [hcons]
      unfold anchorOf
      split <;> simp_all
    have hnil : (pieces "").filter Path.isSegment = [] := by decide +kernel
    rw [htext, ofString, hanchor, pieces_append, List.filter_append, hpieces, hnil, List.nil_append]

theorem Spelled.text_inj {p q : Path} (hp : p.Spelled) (hq : q.Spelled) (h : p.text = q.text) :
    p = q := by
  rw [← hp.ofString_text, h, hq.ofString_text]

end Path

namespace Tree

open Path (IsName Spelled collapse)

/-! ### Locations -/

theorem absolute_of_spelled {p : Path} (h : p.Spelled) (cwd : Location) :
    p.absolute cwd = ⟨.root, locationOf cwd p⟩ := by
  obtain ⟨anchor, segments⟩ := p
  cases anchor with
  | current => rfl
  | root => rfl
  | doubleRoot => exact absurd rfl h.anchor

/-- The segments that are written out from where a path starts. -/
theorem locationOf_eq (cwd : Location) (p : Path) :
    ∃ front, ∀ segments, locationOf cwd ⟨p.anchor, segments⟩ = collapse (front ++ segments) := by
  obtain ⟨anchor, segments⟩ := p
  cases anchor with
  | current => exact ⟨cwd, fun _ => rfl⟩
  | root => exact ⟨[], fun _ => rfl⟩
  | doubleRoot => exact ⟨[], fun _ => rfl⟩

/-- **Writing a step.** -/
theorem locationOf_child (cwd : Location) (p : Path) {n : String} (hn : n ≠ "..") :
    locationOf cwd (p.child n) = locationOf cwd p ++ [n] := by
  obtain ⟨front, hfront⟩ := locationOf_eq cwd p
  have hp := hfront p.segments
  have hc := hfront (p.segments ++ [n])
  rw [← List.append_assoc, Path.collapse_append_singleton, Path.enter, if_neg hn, ← hp] at hc
  exact hc

/-- **Writing a step out.** -/
theorem locationOf_up (cwd : Location) {p : Path} (h : p.Spelled) :
    locationOf cwd p.up = (locationOf cwd p).dropLast := by
  obtain ⟨front, hfront⟩ := locationOf_eq cwd p
  have hp := hfront p.segments
  unfold Path.up
  split
  · next hup =>
    obtain ⟨ha, -⟩ := hup
    have hc := hfront (p.segments ++ [".."])
    rw [ha, ← List.append_assoc, Path.collapse_append_singleton, Path.enter, if_pos rfl, ← hp] at hc
    exact hc
  · next hup =>
    -- the last segment, if there is one, is a name
    rcases List.eq_nil_or_concat p.segments with hnil | ⟨init, last, hlast⟩
    · have hroot : p.anchor = .root := by
        cases ha : p.anchor with
        | current => exact absurd ⟨ha, by simp [hnil]⟩ hup
        | root => rfl
        | doubleRoot => exact absurd ha h.anchor
      simp [locationOf, Path.absolute, Path.parent, hroot, hnil]
    · rw [List.concat_eq_append] at hlast
      have hname : last ≠ ".." := by
        intro hdots
        cases ha : p.anchor with
        | current => exact hup ⟨ha, by simp [hlast, hdots]⟩
        | root => exact h.rooted ha (by simp [hlast, hdots])
        | doubleRoot => exact h.anchor ha
      have hparent : p.parent = ⟨p.anchor, init⟩ := by
        rw [Path.parent, hlast, List.dropLast_concat]
      have hself : p = Path.child ⟨p.anchor, init⟩ last := by
        rw [Path.child, ← hlast]
      rw [hparent]
      conv => rhs; rw [hself]
      rw [locationOf_child cwd _ hname, List.dropLast_concat]

end Tree

end Unimported
