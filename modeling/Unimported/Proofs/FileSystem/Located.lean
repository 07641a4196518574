import Unimported.FileSystem
import Unimported.Proofs.Tree.Canonical

/-!
# Locations behind paths

A path leads to a location when its segments do, from where it starts.  A machine finds the location
as long as its bounds allow for it: on the number of links, and on the length of names and paths.
A path that leads somewhere is refused for no other reason.

## Main definitions

* `FileSystem.ResolvesInFull` — the bound on the length of paths makes no difference to a path.

## Main results

* `FileSystem.locate_eq_ok` — what it means that a machine finds a location.
* `FileSystem.leads_of_locate_child` — an entry is found where it leads.
* `FileSystem.locate_child_of_leads` — an entry that leads somewhere is found, within the bounds.
* `FileSystem.resolve_of_locate` — **the canonical form of a path is the location behind it.**
-/

namespace Unimported.FileSystem

open Tree (Leads LeadsIn IsReal mostLinks)

variable {fs : FileSystem} {p dir : Path} {real found : Location} {n : String}

/-! ### Finding a location -/

/-- **What it means that a machine finds a location.** -/
theorem locate_eq_ok :
    fs.locate p = .ok real ↔
      (∃ k, k ≤ mostLinks ∧ LeadsIn fs.tree k (fs.start p) p.segments real) ∧
        fs.isTooLong p.text = false := by
  rw [← Tree.followAtMost_eq_ok]
  unfold locate judged Tree.follow
  constructor
  · intro h
    split at h
    · next found hfound =>
      split at h
      · cases h
      · next hlong => exact ⟨Except.ok.inj h ▸ hfound, by simpa using hlong⟩
    · cases h
  · rintro ⟨hfound, hlong⟩
    rw [hfound]
    simp [hlong]

theorem node?_of_locate (h : fs.locate p = .ok real) : fs.node? p = .ok (fs.tree.node? real) := by
  unfold node?
  rw [h]

/-- Nothing stands where nothing can be found, unless it cannot even be asked for. -/
theorem node?_of_error {e : AccessError} (h : fs.locate p = .error e) (he : e ≠ .nameTooLong) :
    fs.node? p = .ok none := by
  unfold node?
  rw [h]
  cases e with
  | nameTooLong => exact absurd rfl he
  | _ => rfl

theorem isDirectory_of_locate (h : fs.locate p = .ok real) :
    fs.isDirectory p = .ok (fs.tree.hasDirectory real) := by
  unfold isDirectory
  rw [node?_of_locate h]
  rfl

/-- What cannot be found is no directory, unless it cannot even be asked for. -/
theorem isDirectory_of_error {e : AccessError} (h : fs.locate p = .error e)
    (he : e ≠ .nameTooLong) : fs.isDirectory p = .ok false := by
  unfold isDirectory
  rw [node?_of_error h he]
  rfl

theorem isDirectory_of_nameTooLong (h : fs.locate p = .error .nameTooLong) :
    fs.isDirectory p = .error .nameTooLong := by
  unfold isDirectory node?
  rw [h]
  rfl

/-- Of what is not refused as too long it can be told whether it is a directory. -/
theorem exists_isDirectory (h : fs.locate p ≠ .error .nameTooLong) :
    ∃ b, fs.isDirectory p = .ok b := by
  cases hp : fs.locate p with
  | ok real => exact ⟨_, isDirectory_of_locate hp⟩
  | error e => exact ⟨false, isDirectory_of_error hp fun he => h (he ▸ hp)⟩

theorem isDirectory_eq_true :
    fs.isDirectory p = .ok true ↔ ∃ real, fs.locate p = .ok real ∧ fs.tree.hasDirectory real := by
  constructor
  · intro h
    cases hp : fs.locate p with
    | ok real =>
      rw [isDirectory_of_locate hp, Except.ok.injEq] at h
      exact ⟨real, rfl, h⟩
    | error e =>
      by_cases he : e = .nameTooLong
      · rw [isDirectory_of_nameTooLong (he ▸ hp)] at h
        cases h
      · rw [isDirectory_of_error hp he] at h
        cases h
  · rintro ⟨real, hp, hd⟩
    rw [isDirectory_of_locate hp, hd]

theorem isFile_of_locate (h : fs.locate p = .ok real) :
    fs.isFile p = .ok ((fs.tree.node? real).any Node.isFile) := by
  unfold isFile
  rw [node?_of_locate h]
  rfl

theorem isFile_of_error {e : AccessError} (h : fs.locate p = .error e)
    (he : e ≠ .nameTooLong) : fs.isFile p = .ok false := by
  unfold isFile
  rw [node?_of_error h he]
  rfl

theorem isFile_of_nameTooLong (h : fs.locate p = .error .nameTooLong) :
    fs.isFile p = .error .nameTooLong := by
  unfold isFile node?
  rw [h]
  rfl

theorem isFile_eq_true :
    fs.isFile p = .ok true ↔
      ∃ real bytes, fs.locate p = .ok real ∧ fs.tree.node? real = some (.file bytes) := by
  constructor
  · intro h
    cases hp : fs.locate p with
    | error e =>
      by_cases he : e = .nameTooLong
      · rw [isFile_of_nameTooLong (he ▸ hp)] at h
        cases h
      · rw [isFile_of_error hp he] at h
        cases h
    | ok real =>
      rw [isFile_of_locate hp, Except.ok.injEq] at h
      cases hn : fs.tree.node? real with
      | none =>
        rw [hn] at h
        cases h
      | some n =>
        rw [hn] at h
        cases n with
        | file bytes => exact ⟨real, bytes, rfl, hn⟩
        | directory => cases h
        | link target => cases h
  · rintro ⟨real, bytes, hp, hn⟩
    rw [isFile_of_locate hp, hn]
    rfl

/-- Of what is not refused as too long it can be told whether it is a file. -/
theorem exists_isFile (h : fs.locate p ≠ .error .nameTooLong) : ∃ b, fs.isFile p = .ok b := by
  cases hp : fs.locate p with
  | ok real => exact ⟨_, isFile_of_locate hp⟩
  | error e => exact ⟨false, isFile_of_error hp fun he => h (he ▸ hp)⟩

theorem isDenied_of_nil (h : fs.denied = []) (p : Path) : fs.isDenied p = false := by
  unfold isDenied
  rw [h]
  rfl

/-! ### Entries of a directory -/

/-- An entry is found where it leads. -/
theorem leads_of_locate_child (hdir : fs.locate dir = .ok real)
    (h : fs.locate (dir.child n) = .ok found) : Leads fs.tree real [n] found := by
  obtain ⟨⟨k, -, hk⟩, -⟩ := locate_eq_ok.mp h
  obtain ⟨⟨k', -, hk'⟩, -⟩ := locate_eq_ok.mp hdir
  obtain ⟨j, i, mid, hj, hi, -⟩ := LeadsIn.split (p := dir.segments) hk
  obtain ⟨-, rfl⟩ := hk'.unique hj
  exact ⟨i, hi⟩

/-- The text of a path holds no zero character if none of its segments does. -/
theorem holdsZero_text_of_segments (h : ∀ s ∈ p.segments, '\x00' ∉ s.toList) :
    AccessError.holdsZero p.text = false := by
  have hanchor : '\x00' ∉ p.anchor.text.toList := by cases p.anchor <;> decide
  unfold AccessError.holdsZero
  rw [Bool.eq_false_iff]
  intro hzero
  have hmem : '\x00' ∈ p.text.toList := by simpa using hzero
  unfold Path.text at hmem
  split at hmem
  · exact absurd hmem (by decide)
  · rw [String.toList_append, List.mem_append] at hmem
    rcases hmem with hmem | hmem
    · exact hanchor hmem
    · rcases Path.mem_slashed hmem with hc | ⟨s, hs, hc⟩
      · exact absurd hc (by decide)
      · exact h s hs hc

/-- Steps that lead somewhere hold no zero character, because no name does. -/
theorem no_zero_of_leadsIn {t : Tree} (hwf : t.WellFormed) {k : Nat} {here : Location}
    {path : List String} (h : LeadsIn t k here path found) : ∀ s ∈ path, '\x00' ∉ s.toList := by
  intro s hs
  by_cases hplain : Tree.IsPlain s
  · exact (h.isName hwf s hs hplain).no_zero
  · have hdots : s = "." ∨ s = "" ∨ s = ".." := by
      unfold Tree.IsPlain at hplain
      by_cases hup : s = ".."
      · exact Or.inr (Or.inr hup)
      · have hs : s = "." ∨ s = "" :=
          Classical.byContradiction fun hn => hplain ⟨hn, hup⟩
        exact hs.imp id Or.inl
    rcases hdots with rfl | rfl | rfl <;> decide

/-- The text of a path that leads somewhere holds no zero character. -/
theorem holdsZero_text (hwf : fs.tree.WellFormed) {k : Nat} {here : Location}
    (h : LeadsIn fs.tree k here p.segments found) : AccessError.holdsZero p.text = false :=
  holdsZero_text_of_segments (no_zero_of_leadsIn hwf h)

/-- Why a path leads nowhere is told by its steps, unless it is too long as a whole. -/
theorem locate_of_error {e : AccessError} (h : fs.tree.follow (fs.start p) p.segments = .error e)
    (hzero : ∀ s ∈ p.segments, '\x00' ∉ s.toList)
    (hlong : fs.isTooLong p.text = true → e = .nameTooLong) : fs.locate p = .error e := by
  unfold locate judged
  rw [h]
  simp only [AccessError.ofText?, holdsZero_text_of_segments hzero, Bool.false_eq_true, if_false]
  split
  · next hshort => rw [hlong hshort, Option.getD_some]
  · rfl

/-- Steps are not blamed for a zero character. -/
theorem descend_ne_zeroCharacter {t : Tree}
    {onLink : Location → List String → Except AccessError Location}
    (hlink : ∀ here path, onLink here path ≠ .error .zeroCharacter) (here : Location)
    (path : List String) : t.descend .find onLink here path ≠ .error .zeroCharacter := by
  induction path generalizing here with
  | nil => exact fun h => by cases h
  | cons step rest ih =>
    rw [Tree.descend]
    split
    · exact fun h => by cases h
    · split
      · exact fun h => by cases h
      · split
        · exact ih here
        · split
          · exact ih here.dropLast
          · split
            · intro h
              simp only [reduceCtorEq, false_and, if_false, AccessError.ofName] at h
              split at h <;> cases h
            · exact hlink _ _
            · exact ih (here ++ [step])

theorem follow_ne_zeroCharacter (t : Tree) (here : Location) (path : List String) :
    t.follow here path ≠ .error .zeroCharacter := by
  have hall : ∀ links here path, t.followAtMost .find links here path ≠ .error .zeroCharacter := by
    intro links
    induction links with
    | zero => exact descend_ne_zeroCharacter fun _ _ h => by cases h
    | succ links ih => exact descend_ne_zeroCharacter ih
  exact hall _ here path

/-- A path without the zero character is not refused because of one. -/
theorem locate_ne_zeroCharacter (hzero : ∀ s ∈ p.segments, '\x00' ∉ s.toList) :
    fs.locate p ≠ .error .zeroCharacter := by
  have htext := holdsZero_text_of_segments hzero
  unfold locate judged
  split
  · split
    · exact fun h => by cases h
    · exact fun h => by cases h
  · next e he =>
    simp only [AccessError.ofText?, htext, Bool.false_eq_true, if_false]
    split
    · exact fun h => by cases h
    · intro h
      have hsame : e = .zeroCharacter := Except.error.inj h
      exact follow_ne_zeroCharacter _ _ _ (hsame ▸ he)

/-- **An entry that leads somewhere is found**, unless a bound stands in the way. -/
theorem locate_child_of_leads (hwf : fs.tree.WellFormed) (hdir : fs.locate dir = .ok real)
    (h : Leads fs.tree real [n] found) (hshort : fs.locate (dir.child n) ≠ .error .nameTooLong)
    (hlinks : fs.locate (dir.child n) ≠ .error .tooManyLinks) :
    fs.locate (dir.child n) = .ok found := by
  obtain ⟨⟨j, -, hj⟩, -⟩ := locate_eq_ok.mp hdir
  obtain ⟨i, hi⟩ := h
  have hlead : LeadsIn fs.tree (j + i) (fs.start (dir.child n)) (dir.child n).segments found :=
    hj.append hi
  have hzero := holdsZero_text (p := dir.child n) hwf hlead
  have hfollow := Tree.followAtMost_of_leadsIn hlead mostLinks
  unfold locate judged Tree.follow at hshort hlinks ⊢
  rw [hfollow] at hshort hlinks ⊢
  by_cases hle : j + i ≤ mostLinks
  · -- the location is found, and only the length of the path could keep it back
    rw [if_pos hle] at hshort ⊢
    by_cases hlong : fs.isTooLong (dir.child n).text = true
    · exact absurd (if_pos hlong) hshort
    · exact if_neg hlong
  · -- the links are too many, which is told unless the path is too long to begin with
    rw [if_neg hle] at hshort hlinks
    by_cases hlong : fs.isTooLong (dir.child n).text = true
    · refine absurd ?_ hshort
      simp [AccessError.ofText?, hzero, show AccessError.isLongPath _ _ = true from hlong]
    · refine absurd ?_ hlinks
      simp [AccessError.ofText?, hzero,
        show AccessError.isLongPath _ _ = false by simpa [isTooLong] using hlong]

/-- The listing of a directory that is not denied. -/
theorem list_of_locate {p : Path} (hopen : fs.isDenied p = false) (hloc : fs.locate p = .ok real)
    (hd : fs.tree.hasDirectory real = true) : fs.list p = .ok ⟨p, real, fs.tree.names real⟩ := by
  unfold list
  rw [hopen, hloc]
  simp only [hd, Bool.false_eq_true, if_false, if_true]

/-! ### Canonical paths -/

/-- Where a path starts is a real location. -/
theorem isReal_start (hcwd : IsReal fs.tree fs.cwd) (p : Path) : IsReal fs.tree (fs.start p) := by
  unfold start
  split
  · exact .root
  · exact hcwd

/-- A path leads to real locations only. -/
theorem isReal_of_locate (hwf : fs.tree.WellFormed) (hcwd : IsReal fs.tree fs.cwd)
    (h : fs.locate p = .ok real) : IsReal fs.tree real := by
  obtain ⟨⟨k, -, hlead⟩, -⟩ := locate_eq_ok.mp h
  exact hlead.isReal hwf (isReal_start hcwd p)

/-- Where steps lead is found, if the path as a whole is not too long. -/
theorem locate_of_leadsIn {k : Nat} (hk : k ≤ mostLinks)
    (h : LeadsIn fs.tree k (fs.start p) p.segments found) :
    fs.locate p = .ok found ∨ fs.locate p = .error .nameTooLong := by
  unfold locate judged Tree.follow
  rw [Tree.followAtMost_of_leadsIn h, if_pos hk]
  by_cases hlong : fs.isTooLong p.text = true
  · exact Or.inr (if_pos hlong)
  · exact Or.inl (if_neg hlong)

theorem locate_of_isReal (h : IsReal fs.tree real) :
    fs.locate ⟨.root, real⟩ = .ok real ∨ fs.locate ⟨.root, real⟩ = .error .nameTooLong :=
  locate_of_leadsIn (Nat.zero_le _) h.leadsIn

/-- A canonical form that leads somewhere is taken as it is. -/
theorem resolve_of_canonical {q : Path} {k : Nat} (hk : k ≤ mostLinks)
    (hcanonical : fs.tree.canonical fs.longestPath fs.cwd p = .ok q)
    (h : LeadsIn fs.tree k (fs.start q) q.segments found) : fs.resolve p = .ok q := by
  unfold resolve
  rw [hcanonical]
  rcases locate_of_leadsIn hk h with h | h
  · simp only [bind, Except.bind, h]
  · simp only [bind, Except.bind, h]

/-- The bound on the length of paths makes no difference to the canonical form of a path. -/
def ResolvesInFull (fs : FileSystem) (p : Path) : Prop :=
  fs.tree.canonical fs.longestPath fs.cwd p = fs.tree.canonical none fs.cwd p

/-- Whether the same canonical form of a path is found with the bound and without. -/
def resolvesInFull (fs : FileSystem) (p : Path) : Bool :=
  match fs.tree.canonical fs.longestPath fs.cwd p, fs.tree.canonical none fs.cwd p with
  | .ok bounded, .ok unbounded => bounded = unbounded
  | _, _ => false

theorem resolvesInFull_of_eq_true (h : fs.resolvesInFull p = true) : fs.ResolvesInFull p := by
  unfold resolvesInFull at h
  unfold ResolvesInFull
  split at h
  · next bounded unbounded hbounded hunbounded =>
    rw [hbounded, hunbounded, of_decide_eq_true h]
  · cases h

/-- **The canonical form of a path is the location behind it**, if the bound on the length of paths
makes no difference. -/
theorem resolve_of_locate (hwf : fs.tree.WellFormed) (hcwd : IsReal fs.tree fs.cwd)
    (hfull : fs.ResolvesInFull p) (h : fs.locate p = .ok real) :
    fs.resolve p = .ok ⟨.root, real⟩ := by
  obtain ⟨⟨k, hk, hlead⟩, -⟩ := locate_eq_ok.mp h
  have hcanonical := Tree.canonical_of_leadsIn hwf hcwd
    (Nat.le_trans hk (by decide : mostLinks ≤ Fault.deepestNesting)) hlead
  have hreal : IsReal fs.tree real := hlead.isReal hwf (isReal_start hcwd p)
  exact resolve_of_canonical (Nat.zero_le _) (hfull.trans hcanonical) hreal.leadsIn

end Unimported.FileSystem
