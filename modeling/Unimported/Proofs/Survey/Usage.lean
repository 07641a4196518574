import Unimported.Proofs.Outcome
import Unimported.Survey.Basic

/-!
# What puts a target into use

A target is in use when a source file that can be read has a specifier that resolves to it.  The
gathering goes through the files one by one and adds the targets of each; by induction it ends with
those of all files, so only which files there are matters, not in which order or how often.

A file that cannot be read is passed over.  Only a path that no file can have stops the gathering,
and then it is stopped whatever else is gathered.

## Main definitions

* `Usage.IsRead`, `Usage.PutsInUse` — files that are read, and the targets that they put into use.
* `Usage.CanBeAsked` — a file that does not stop the gathering.

## Main results

* `Usage.add_cases`, `Usage.addAll_cases` — what one file and what many files add.
* `Usage.mem_of_gather` — the targets in use are those that some file puts into use.
* `Usage.ofFiles_congr` — files with the same members put the same targets into use.
-/

namespace Unimported

namespace Source

/-- A file that cannot be read is passed over, unless its path is none at all. -/
theorem specifiers_eq_error {fs : FileSystem} {p : Path} {e : Failure}
    (h : specifiers fs p = .error e) : e = .fault .zeroCharacter := by
  unfold specifiers read at h
  cases hr : fs.read p with
  | ok bytes => simp [hr] at h
  | error reason =>
    rw [hr] at h
    cases reason <;> simp [AccessError.failure] at h
    exact h.symm

/-- A path that is not refused because of a zero character is one that a file can have. -/
theorem exists_specifiers_of_locate {fs : FileSystem} {p : Path}
    (h : fs.locate p ≠ .error .zeroCharacter) : ∃ specs, specifiers fs p = .ok specs := by
  cases hs : specifiers fs p with
  | ok specs => exact ⟨specs, rfl⟩
  | error e =>
    exfalso
    have hzero : fs.read p = .error .zeroCharacter := by
      unfold specifiers read at hs
      cases hr : fs.read p with
      | ok bytes => simp [hr] at hs
      | error reason =>
        rw [hr] at hs
        cases reason <;> simp [AccessError.failure] at hs ⊢
    unfold FileSystem.read at hzero
    split at hzero
    · cases hzero
    · split at hzero
      · next hlocate => exact h (Except.error.inj hzero ▸ hlocate)
      · split at hzero <;> cases hzero

/-- A path that leads somewhere is one that a file can have. -/
theorem exists_specifiers {fs : FileSystem} {p : Path} {real : Location}
    (h : fs.locate p = .ok real) : ∃ specs, specifiers fs p = .ok specs :=
  exists_specifiers_of_locate (by rw [h]; exact fun he => by cases he)

/-- What a file is known to import is what its text imports, if it has one. -/
theorem mem_specifiers {fs : FileSystem} {p : Path} {specs : List String}
    (h : specifiers fs p = .ok specs) (s : String) :
    s ∈ specs ↔ ∃ text, read fs p = .ok text ∧ s ∈ Import.specifiers text := by
  unfold specifiers at h
  cases hr : read fs p with
  | ok text =>
    rw [hr] at h
    obtain rfl := Except.ok.inj h
    simp
  | error e =>
    cases e with
    | problem problem =>
      rw [hr] at h
      obtain rfl := Except.ok.inj h
      simp
    | fault fault =>
      rw [hr] at h
      cases h

end Source

namespace Usage

variable {fs : FileSystem} {r : Resolver} {x : Extensions}

/-! ### Files and their targets -/

/-- A file is read for imports: its name ends in one of the extensions. -/
def IsRead (x : Extensions) (p : Path) : Prop := ∃ s ∈ x.suffixes, s.toList <:+ p.name.toList

/-- A file puts a target into use: it is read, and one of its specifiers resolves to the target. -/
def PutsInUse (fs : FileSystem) (r : Resolver) (x : Extensions) (p : Path) (target : String) :
    Prop :=
  IsRead x p ∧ ∃ text, Source.read fs p = .ok text ∧
    ∃ s ∈ Import.specifiers text, r.resolve s p.parent = some target

/-- A file does not stop the gathering: if it is read at all, it may be asked for its text. -/
def CanBeAsked (fs : FileSystem) (x : Extensions) (p : Path) : Prop :=
  IsRead x p → ∃ specs, Source.specifiers fs p = .ok specs

theorem isSource_eq_ok {p : Path} {b : Bool} :
    isSource x p.name = .ok b ↔ (b = true ↔ IsRead x p) := by
  have h : (x.suffixes.any fun s => Text.closes s p.name) = true ↔ IsRead x p := by
    simp [IsRead, Text.closes_iff]
  unfold isSource
  rw [Except.ok.injEq, ← h, Bool.eq_iff_iff]
  exact ⟨Iff.symm, Iff.symm⟩

theorem mem_targets {p : Path} {specs : List String} {target : String} :
    (∃ e ∈ specs.map (edge r p), e.target = some target) ↔
      ∃ s ∈ specs, r.resolve s p.parent = some target := by
  constructor
  · rintro ⟨e, he, htarget⟩
    obtain ⟨s, hs, rfl⟩ := List.mem_map.mp he
    exact ⟨s, hs, htarget⟩
  · rintro ⟨s, hs, htarget⟩
    exact ⟨edge r p s, List.mem_map_of_mem hs, htarget⟩

/-! ### Gathering -/

/-- **What one file adds**: its targets, unless it stops the gathering. -/
theorem add_cases (fs : FileSystem) (r : Resolver) (x : Extensions) (t : Tally) (p : Path) :
    (∃ t', (t.add fs r (isSource x) p).outcome = .ok t' ∧ CanBeAsked fs x p ∧
      ∀ target, target ∈ t'.used ↔ PutsInUse fs r x p target ∨ target ∈ t.used) ∨
    (t.add fs r (isSource x) p).outcome = .error (.fault .zeroCharacter) ∧
      ¬ CanBeAsked fs x p := by
  have hsource : ∀ b : Bool, (b = true ↔ IsRead x p) →
      (Traced.ofFault (isSource x p.name)).outcome = .ok b := fun b hb =>
    Outcome.ofFault_eq_ok.mpr (isSource_eq_ok.mpr hb)
  unfold Tally.add
  by_cases hread : IsRead x p
  · rw [Traced.outcome_bind, hsource true (by simpa using hread)]
    simp only [Except.bind, if_true, Traced.outcome_bind, edges, Source.outcome_imports]
    cases hs : Source.specifiers fs p with
    | error e =>
      -- a path that no file can have, and it was asked for
      rw [Source.specifiers_eq_error hs]
      refine Or.inr ⟨rfl, fun hask => ?_⟩
      obtain ⟨specs, hs'⟩ := hask hread
      rw [hs] at hs'
      cases hs'
    | ok specs =>
      refine Or.inl ⟨_, rfl, fun _ => ⟨specs, hs⟩, fun target => ?_⟩
      show target ∈ addEdges t.used (specs.map (edge r p)) ↔ _
      rw [mem_addEdges, mem_targets]
      refine or_congr ?_ Iff.rfl
      constructor
      · rintro ⟨s, hmem, htarget⟩
        obtain ⟨text, htext, hspec⟩ := (Source.mem_specifiers hs s).mp hmem
        exact ⟨hread, text, htext, s, hspec, htarget⟩
      · rintro ⟨-, text, htext, s, hspec, htarget⟩
        exact ⟨s, (Source.mem_specifiers hs s).mpr ⟨text, htext, hspec⟩, htarget⟩
  · rw [Traced.outcome_bind, hsource false (by simpa using hread)]
    refine Or.inl ⟨t, rfl, fun h => absurd h hread, fun target => ?_⟩
    exact ⟨Or.inr, fun h => h.resolve_left fun h => hread h.1⟩

/-- **What many files add**: the targets of all of them, unless one stops the gathering. -/
theorem addAll_cases (fs : FileSystem) (r : Resolver) (x : Extensions) (t : Tally)
    (files : List Path) :
    (∃ t', (t.addAll fs r (isSource x) files).outcome = .ok t' ∧
      (∀ p ∈ files, CanBeAsked fs x p) ∧
      ∀ target, target ∈ t'.used ↔ (∃ p ∈ files, PutsInUse fs r x p target) ∨ target ∈ t.used) ∨
    (t.addAll fs r (isSource x) files).outcome = .error (.fault .zeroCharacter) ∧
      ∃ p ∈ files, ¬ CanBeAsked fs x p := by
  induction files generalizing t with
  | nil => exact Or.inl ⟨t, rfl, by simp, by simp⟩
  | cons p files ih =>
    rw [Tally.addAll, Traced.outcome_bind]
    rcases add_cases fs r x t p with ⟨t₁, h₁, hask, hmem⟩ | ⟨h₁, hask⟩
    · rw [h₁]
      rcases ih t₁ with ⟨t₂, h₂, hall, hmem₂⟩ | ⟨h₂, q, hq, hqask⟩
      · refine Or.inl ⟨t₂, h₂, ?_, fun target => ?_⟩
        · intro q hq
          rcases List.mem_cons.mp hq with rfl | hq
          · exact hask
          · exact hall q hq
        · rw [hmem₂, hmem]
          simp only [List.mem_cons, or_and_right, exists_or, exists_eq_left]
          constructor
          · rintro (h | h | h)
            · exact Or.inl (Or.inr h)
            · exact Or.inl (Or.inl h)
            · exact Or.inr h
          · rintro ((h | h) | h)
            · exact Or.inr (Or.inl h)
            · exact Or.inl h
            · exact Or.inr (Or.inr h)
      · exact Or.inr ⟨h₂, q, List.mem_cons_of_mem p hq, hqask⟩
    · rw [h₁]
      exact Or.inr ⟨rfl, p, List.mem_cons_self, hask⟩

theorem outcome_close (t : Tally) : t.close.outcome = .ok t.used := rfl

/-- The outcome of a gathering, as that of going through the files. -/
theorem gather_cases (fs : FileSystem) (r : Resolver) (x : Extensions) (files : List Path) :
    (∃ used, (gather fs r (isSource x) files).outcome = .ok used ∧
      (∀ p ∈ files, CanBeAsked fs x p) ∧
      ∀ target, target ∈ used ↔ ∃ p ∈ files, PutsInUse fs r x p target) ∨
    (gather fs r (isSource x) files).outcome = .error (.fault .zeroCharacter) ∧
      ∃ p ∈ files, ¬ CanBeAsked fs x p := by
  unfold gather
  rw [Traced.outcome_bind]
  rcases addAll_cases fs r x {} files with ⟨t, h, hall, hmem⟩ | ⟨h, hex⟩
  · rw [h]
    refine Or.inl ⟨t.used, outcome_close t, hall, fun target => ?_⟩
    rw [hmem]
    simp
  · rw [h]
    exact Or.inr ⟨rfl, hex⟩

/-- **The targets in use are those that some file puts into use.** -/
theorem mem_of_gather {files : List Path} {used : StringSet}
    (h : (gather fs r (isSource x) files).outcome = .ok used) (target : String) :
    target ∈ used ↔ ∃ p ∈ files, PutsInUse fs r x p target := by
  rcases gather_cases fs r x files with ⟨used', h', -, hmem⟩ | ⟨h', -⟩
  · rw [h', Except.ok.injEq] at h
    exact h ▸ hmem target
  · rw [h'] at h
    cases h

/-- Files with the same members give the same outcome. -/
theorem gather_congr {files files' : List Path} (h : ∀ p, p ∈ files ↔ p ∈ files') :
    (gather fs r (isSource x) files).outcome = (gather fs r (isSource x) files').outcome := by
  rcases gather_cases fs r x files with ⟨u, hu, hall, hmem⟩ | ⟨hu, p, hp, hask⟩
  · rcases gather_cases fs r x files' with ⟨u', hu', -, hmem'⟩ | ⟨-, q, hq, hn⟩
    · have hsame : u = u' := StringSet.ext fun target => by simp only [hmem, hmem', h]
      rw [hu, hu', hsame]
    · exact absurd (hall q ((h q).mpr hq)) hn
  -- what stops the one gathering stops the other as well
  · rcases gather_cases fs r x files' with ⟨-, -, hall', -⟩ | ⟨hu', -⟩
    · exact absurd (hall' p ((h p).mp hp)) hask
    · rw [hu, hu']

/-- Files that can be asked for their texts do not stop the gathering. -/
theorem exists_gather {files : List Path} (h : ∀ p ∈ files, CanBeAsked fs x p) :
    ∃ used, (gather fs r (isSource x) files).outcome = .ok used := by
  rcases gather_cases fs r x files with ⟨used, hused, -⟩ | ⟨-, p, hp, hask⟩
  · exact ⟨used, hused⟩
  · exact absurd (h p hp) hask

/-- Files that are known to import the same give the same targets, wherever they are read. -/
theorem gather_congr_of_specifiers {fs' : FileSystem} {files : List Path}
    (h : ∀ p ∈ files, IsRead x p → Source.specifiers fs p = Source.specifiers fs' p) :
    (gather fs r (isSource x) files).outcome = (gather fs' r (isSource x) files).outcome := by
  have hadd : ∀ p ∈ files, ∀ t : Tally,
      (t.add fs r (isSource x) p).outcome = (t.add fs' r (isSource x) p).outcome := by
    intro p hp t
    unfold Tally.add
    refine Outcome.traced_bind_congr rfl fun b hb => ?_
    cases b with
    | false => rfl
    | true =>
      have hread : IsRead x p := (isSource_eq_ok.mp (Outcome.ofFault_eq_ok.mp hb)).mp rfl
      have hedges : (edges fs r p).outcome = (edges fs' r p).outcome := by
        unfold edges
        refine Outcome.traced_bind_congr ?_ fun _ _ => rfl
        rw [Source.outcome_imports, Source.outcome_imports, h p hp hread]
      exact Outcome.traced_bind_congr hedges fun _ _ => rfl
  have haddAll : ∀ t : Tally,
      (t.addAll fs r (isSource x) files).outcome = (t.addAll fs' r (isSource x) files).outcome := by
    clear h
    induction files with
    | nil => exact fun t => rfl
    | cons p files ih =>
      intro t
      refine Outcome.traced_bind_congr (hadd p List.mem_cons_self t) fun t' _ => ?_
      exact ih (fun q hq => hadd q (List.mem_cons_of_mem p hq)) t'
  exact Outcome.traced_bind_congr (haddAll {}) fun _ _ => rfl

/-! ### Extensions given as a value -/

theorem endsInOne_map_text (name : String) (suffixes : List String) :
    endsInOne name (suffixes.map Value.text) =
      .ok (suffixes.any fun s => Text.closes s name) := by
  induction suffixes with
  | nil => rfl
  | cons s suffixes ih =>
    rw [List.map_cons, endsInOne, ih, List.any_cons]
    cases Text.closes s name <;> rfl

/-- A sequence of extensions, given as a value, tells the same files apart. -/
theorem isSourceFor_texts (suffixes : List String) :
    isSourceFor (Value.texts suffixes) = .ok (isSource (.listed suffixes)) := by
  have hsource : (fun name => endsInOne name (suffixes.map Value.text)) =
      isSource (.listed suffixes) := by
    funext name
    exact endsInOne_map_text name suffixes
  rw [← hsource]
  rfl

theorem outcome_ofFiles (fs : FileSystem) (root : Path) (suffixes : List String)
    (files : List Path) :
    (ofFiles fs root (Value.texts suffixes) files).outcome =
      (gather fs (.ofRoot fs.cwd root) (isSource (.listed suffixes)) files).outcome := by
  unfold ofFiles
  rw [isSourceFor_texts, Traced.outcome_bind]
  rfl

/-- **Neither the order of the files nor how often each is given makes a difference.** -/
theorem ofFiles_congr (fs : FileSystem) (root : Path) (suffixes : List String)
    {files files' : List Path} (h : ∀ p, p ∈ files ↔ p ∈ files') :
    (ofFiles fs root (Value.texts suffixes) files).outcome =
      (ofFiles fs root (Value.texts suffixes) files').outcome := by
  rw [outcome_ofFiles, outcome_ofFiles]
  exact gather_congr h

end Usage

end Unimported
