import Unimported.Proofs.FileSystem.Linkless
import Unimported.Proofs.Tree.Shape

/-!
# Machines of the same shape

Whether something stands behind a path, and of what type it is, is a matter of the shape of the tree
alone: neither what files hold nor what is denied comes into it.  Only reading a file tells machines
of the same shape apart, and of two of them in particular: the one on which some files may not be
read, and the one on which they are empty.  The first gives no text where the second gives the empty
one.

## Main definitions

* `FileSystem.SameShape` — machines with trees of the same shape.
* `FileSystem.located` — the locations behind some paths.
* `FileSystem.AreFiles` — paths that lead to files.
* `FileSystem.emptied` — the machine on which the files behind some paths are empty.

## Main results

* `FileSystem.SameShape.locate`, `FileSystem.SameShape.resolve`, `FileSystem.SameShape.list` —
  **on machines of the same shape the same is found under the same paths.**
* `FileSystem.isDenied_deny_iff` — a file is denied by its location.
* `FileSystem.read_deny`, `FileSystem.read_emptied` — what is read where files are denied, and where
  they are empty.
-/

namespace Unimported.FileSystem

variable {fs fs' : FileSystem} {D : List Path} {p : Path} {loc : Location} {bytes : List UInt8}

/-- Two machines differ at most in what files hold and in what is denied. -/
structure SameShape (fs fs' : FileSystem) : Prop where
  tree : fs.tree.SameShape fs'.tree
  cwd : fs.cwd = fs'.cwd
  longestPath : fs.longestPath = fs'.longestPath
  deepest : fs.deepest = fs'.deepest

namespace SameShape

/-- **Paths lead to the same locations.** -/
theorem locate (h : SameShape fs fs') (p : Path) : fs.locate p = fs'.locate p := by
  unfold FileSystem.locate judged start isTooLong Tree.follow
  rw [h.cwd, h.longestPath, h.tree.followAtMost]

theorem isDirectory (h : SameShape fs fs') (p : Path) : fs.isDirectory p = fs'.isDirectory p := by
  have hlocate := h.locate p
  cases hp : fs'.locate p with
  | ok real =>
    rw [hp] at hlocate
    rw [isDirectory_of_locate hlocate, isDirectory_of_locate hp, h.tree.hasDirectory]
  | error e =>
    unfold FileSystem.isDirectory FileSystem.node?
    rw [hlocate, hp]
    cases e <;> rfl

theorem isFile (h : SameShape fs fs') (p : Path) : fs.isFile p = fs'.isFile p := by
  have hlocate := h.locate p
  cases hp : fs'.locate p with
  | ok real =>
    rw [hp] at hlocate
    rw [isFile_of_locate hlocate, isFile_of_locate hp]
    rcases h.tree.cases real with ⟨bytes, bytes', hn, hn'⟩ | heq
    · rw [hn, hn']
      rfl
    · rw [heq]
  | error e =>
    unfold FileSystem.isFile FileSystem.node?
    rw [hlocate, hp]
    cases e <;> rfl

/-- **Paths are resolved alike**, or not at all for the same reason. -/
theorem resolve (h : SameShape fs fs') (p : Path) : fs.resolve p = fs'.resolve p := by
  unfold FileSystem.resolve
  simp only [h.locate, h.longestPath, h.cwd, h.tree.canonical]

/-- **Directories are listed alike** where the same is denied. -/
theorem list (h : SameShape fs fs') (hopen : fs.isDenied p = fs'.isDenied p) :
    fs.list p = fs'.list p := by
  unfold FileSystem.list
  simp only [hopen, h.locate, h.tree.hasDirectory, h.tree.names]

end SameShape

/-! ### Files that are denied, and files that are empty -/

/-- The locations behind some paths. -/
def located (fs : FileSystem) (D : List Path) : List Location :=
  D.filterMap fun p => (fs.locate p).toOption

theorem mem_located : loc ∈ fs.located D ↔ ∃ p ∈ D, fs.locate p = .ok loc := by
  unfold located
  rw [List.mem_filterMap]
  constructor
  · rintro ⟨p, hp, hloc⟩
    exact ⟨p, hp, Outcome.eq_ok_of_toOption hloc⟩
  · rintro ⟨p, hp, hloc⟩
    exact ⟨p, hp, by rw [hloc]; rfl⟩

/-- Some paths from the root lead to files. -/
def AreFiles (fs : FileSystem) (D : List Path) : Prop :=
  ∀ p ∈ D, p.IsRooted ∧ fs.isFile p = .ok true

/-- The machine on which nothing is denied and the files behind some paths are empty. -/
def emptied (fs : FileSystem) (D : List Path) : FileSystem :=
  { fs.opened with tree := fs.tree.emptied (fs.located D) }

/-- **To deny files and to empty them leaves the same shape.** -/
theorem sameShape_emptied (fs : FileSystem) (D : List Path) :
    SameShape (fs.deny D) (fs.emptied D) :=
  ⟨Tree.sameShape_emptied fs.tree (fs.located D), rfl, rfl, rfl⟩

/-- **A file is denied by its location.** -/
theorem isDenied_deny_iff (hlinks : fs.tree.Linkless) (hD : fs.AreFiles D) (hp : p.IsRooted)
    (hloc : fs.locate p = .ok loc) : (fs.deny D).isDenied p = true ↔ loc ∈ fs.located D := by
  have habsolute := absolute_of_locate hlinks hp hloc
  have hdenied : (fs.deny D).isDenied p = true ↔ ∃ q ∈ D, q.absolute fs.cwd = p.absolute fs.cwd := by
    rw [isDenied, List.contains_iff_mem]
    exact List.mem_map
  rw [hdenied, mem_located]
  refine exists_congr fun q => and_congr_right fun hq => ?_
  obtain ⟨hrooted, hfile⟩ := hD q hq
  obtain ⟨found, -, hfound, -⟩ := isFile_eq_true.mp hfile
  rw [absolute_of_locate hlinks hrooted hfound, habsolute, hfound]
  simp

/-- No directory is denied where files are. -/
theorem isDenied_deny_of_isDirectory (hlinks : fs.tree.Linkless) (hD : fs.AreFiles D)
    (hp : p.IsRooted) (hdir : fs.isDirectory p = .ok true) : (fs.deny D).isDenied p = false := by
  obtain ⟨real, hreal, hd⟩ := isDirectory_eq_true.mp hdir
  rw [Bool.eq_false_iff]
  intro hdenied
  obtain ⟨q, hq, hfound⟩ := mem_located.mp ((isDenied_deny_iff hlinks hD hp hreal).mp hdenied)
  obtain ⟨found, bytes, hfound', hnode⟩ := isFile_eq_true.mp (hD q hq).2
  obtain rfl := Except.ok.inj (hfound.symm.trans hfound')
  rw [Tree.hasDirectory, hnode] at hd
  cases hd

/-- **What is read where files are denied.** -/
theorem read_deny (hlinks : fs.tree.Linkless) (hD : fs.AreFiles D) (hp : p.IsRooted)
    (hloc : fs.locate p = .ok loc) (hnode : fs.tree.node? loc = some (.file bytes)) :
    (fs.deny D).read p = if loc ∈ fs.located D then .error .denied else .ok bytes := by
  have hloc' : (fs.deny D).locate p = .ok loc := hloc
  have hnode' : (fs.deny D).tree.node? loc = some (.file bytes) := hnode
  unfold read
  rw [hloc']
  simp only [hnode', isDenied_deny_iff hlinks hD hp hloc]

/-- **What is read where they are empty.** -/
theorem read_emptied (hloc : fs.locate p = .ok loc)
    (hnode : fs.tree.node? loc = some (.file bytes)) :
    (fs.emptied D).read p = .ok (if loc ∈ fs.located D then [] else bytes) := by
  have hloc' : (fs.emptied D).locate p = .ok loc :=
    ((sameShape_emptied fs D).locate p).symm.trans hloc
  have hnode' : (fs.emptied D).tree.node? loc =
      some (.file (if loc ∈ fs.located D then [] else bytes)) := by
    show (fs.tree.emptied (fs.located D)).node? loc = _
    rw [Tree.node?_emptied, hnode, Option.map_some, Tree.emptiedNode]
    simp only [List.contains_iff_mem]
    split <;> rfl
  have hopen : (fs.emptied D).isDenied p = false := rfl
  unfold read
  rw [hopen, hloc']
  simp only [hnode', Bool.false_eq_true, if_false]

end Unimported.FileSystem
