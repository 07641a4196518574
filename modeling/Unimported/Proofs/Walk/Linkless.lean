import Unimported.Proofs.Walk.Denied

/-!
# Walks where no link stands

Where no link stands, a walk that ends has found the files that lie below its root under names that
are not passed by, and no others.  So whether a file is found is a matter of its own path, whatever
else there is.

## Main results

* `Walk.leadsIn_of_located` — a file below the root is reached from there by its way.
* `Walk.mem_files_iff_of_linkless` — **which files a walk finds.**
* `Walk.isFile_of_mem_files`, `Walk.mem_files_of_isFile` — what is found are files, and which files
  are found.
-/

namespace Unimported.Walk

open Path (IsName)
open Tree (IsReal LeadsIn)

variable {fs : FileSystem} {skip : List String} {root f : Path} {real found : Location}

/-- A way and a name behind it are names. -/
theorem IsWay.isPlain_concat {way : List String} (hway : IsWay skip way) {name : String}
    (hname : IsName name) : ∀ n ∈ way ++ [name], Tree.IsPlain n := by
  intro n hn
  apply Tree.isPlain_of_isName
  rcases List.mem_append.mp hn with hn | hn
  · exact (hway n hn).1
  · rwa [List.mem_singleton.mp hn]

/-- A file below the root is reached from there by its way. -/
theorem leadsIn_of_located (hlinks : fs.tree.Linkless) (hroot : fs.locate root = .ok real)
    {way : List String} (hway : IsWay skip way) {name : String} (hname : IsName name)
    (h : fs.locate (Path.child ⟨root.anchor, root.segments ++ way⟩ name) = .ok found) :
    LeadsIn fs.tree 0 real (way ++ [name]) found ∧ found = real ++ way ++ [name] := by
  rw [Path.child, List.append_assoc] at h
  obtain ⟨hlead, hfound⟩ :=
    FileSystem.leadsIn_of_locate_append hlinks hroot (hway.isPlain_concat hname) h
  exact ⟨hlead, by rw [hfound, List.append_assoc]⟩

/-- What a walk finds where no link stands lies below its root under names that are not passed by, and
it is there and no directory. -/
theorem exists_way_of_mem_files (hwf : fs.tree.WellFormed) (hlinks : fs.tree.Linkless)
    (hroot : fs.locate root = .ok real) (hstop : (ofRoot fs skip root).stopped = none)
    (hf : f ∈ (ofRoot fs skip root).files) :
    ∃ way name found, IsWay skip way ∧ IsName name ∧
      f = Path.child ⟨root.anchor, root.segments ++ way⟩ name ∧
      fs.locate f = .ok found ∧ fs.tree.hasDirectory found = false := by
  have hbounds := unhindered_of_stopped hlinks hroot hstop
  obtain ⟨l, hl, n, hn, rfl, hfile⟩ := (mem_files_iff hwf hroot hbounds hstop f).mp hf
  obtain ⟨⟨way, hway, hpath⟩, hlist⟩ := below_stages hwf skip root _ (Trail.mem_listings.mp hl)
  obtain ⟨hreal, hd, hnames, -⟩ := FileSystem.list_eq_ok hlist
  have hmem : n ∈ fs.tree.names l.real := hnames ▸ hn
  have hleads : fs.tree.Leads l.real [n] (l.real ++ [n]) :=
    ⟨0, LeadsIn.of_mem_names hwf (hlinks.below l.real) hd hmem⟩
  have hfound := FileSystem.locate_child_of_leads hwf hreal hleads (hbounds.short l hl n hn)
    fun h => hbounds.links l hl n hn h _ hleads
  refine ⟨way, n, _, hway, hwf.isName hmem, by rw [hpath], hfound, ?_⟩
  rw [Bool.eq_false_iff]
  exact fun hdir => hfile ⟨_, hleads, hdir⟩

/-- **The files that a walk finds where no link stands** lie below its root under names that are not
passed by, and they are there and no directories. -/
theorem mem_files_iff_of_linkless (hwf : fs.tree.WellFormed) (hlinks : fs.tree.Linkless)
    (hcwd : IsReal fs.tree fs.cwd) (hroot : fs.locate root = .ok real)
    (hstop : (ofRoot fs skip root).stopped = none) :
    f ∈ (ofRoot fs skip root).files ↔
      ∃ way name found, IsWay skip way ∧ IsName name ∧
        f = Path.child ⟨root.anchor, root.segments ++ way⟩ name ∧
        fs.locate f = .ok found ∧ fs.tree.hasDirectory found = false := by
  refine ⟨exists_way_of_mem_files hwf hlinks hroot hstop, ?_⟩
  have hbounds := unhindered_of_stopped hlinks hroot hstop
  rw [mem_files_iff hwf hroot hbounds hstop]
  rintro ⟨way, name, found, hway, hname, rfl, hfound, hfile⟩
  obtain ⟨hlead, rfl⟩ := leadsIn_of_located hlinks hroot hway hname hfound
  obtain ⟨j, i, mid, hj, hi, -⟩ := hlead.split
  have hmid : fs.tree.hasDirectory mid = true := by
    cases hi with
    | _ => assumption
  obtain ⟨-, rfl⟩ := hj.eq_append (hlinks.below real) fun n hn =>
    Tree.isPlain_of_isName (hway n hn).1
  -- the directory around the file is listed, and under this path
  obtain ⟨l, hl, hreal⟩ := (listed_iff_reached hwf hcwd hroot hbounds hstop _).mpr
    (reached_of_isWay hlinks hway hj hmid)
  obtain ⟨⟨way', hway', hpath⟩, hlist⟩ := below_stages hwf skip root _ (Trail.mem_listings.mp hl)
  obtain ⟨hlocate, -, hnames, -⟩ := FileSystem.list_eq_ok hlist
  rw [hpath] at hlocate
  obtain ⟨-, hsame⟩ := locate_of_isWay hlinks hroot hway' hlocate
  have hways : way' = way := List.append_cancel_left (hsame.symm.trans hreal)
  have hstands : (fs.tree.node? (real ++ way ++ [name])).isSome := by
    rcases hi.of_single (Tree.isPlain_of_isName hname) with ⟨n, hn, -, -⟩ | ⟨target, hn⟩
    · rw [hn]
      rfl
    · rw [hn]
      rfl
  refine ⟨l, hl, name, ?_, by rw [hpath, hways], ?_⟩
  · rw [hnames, hreal]
    exact Tree.mem_names.mpr hstands
  · rintro ⟨found, ⟨k, hk⟩, hdir⟩
    rw [hreal] at hk
    obtain ⟨-, rfl⟩ := hi.unique hk
    rw [hfile] at hdir
    cases hdir

/-- What a walk finds where no link stands is there, and it is no directory. -/
theorem exists_locate_of_mem_files (hwf : fs.tree.WellFormed) (hlinks : fs.tree.Linkless)
    (hroot : fs.locate root = .ok real) (hstop : (ofRoot fs skip root).stopped = none)
    (hf : f ∈ (ofRoot fs skip root).files) :
    ∃ found, fs.locate f = .ok found ∧ fs.tree.hasDirectory found = false := by
  obtain ⟨-, -, found, -, -, -, hfound, hfile⟩ :=
    exists_way_of_mem_files hwf hlinks hroot hstop hf
  exact ⟨found, hfound, hfile⟩

/-- **What a walk finds where no link stands are files.** -/
theorem isFile_of_mem_files (hwf : fs.tree.WellFormed) (hlinks : fs.tree.Linkless)
    (hcwd : IsReal fs.tree fs.cwd) (hroot : fs.locate root = .ok real)
    (hstop : (ofRoot fs skip root).stopped = none) (hf : f ∈ (ofRoot fs skip root).files) :
    fs.isFile f = .ok true := by
  obtain ⟨found, hfound, hfile⟩ := exists_locate_of_mem_files hwf hlinks hroot hstop hf
  obtain ⟨n, hn⟩ := (FileSystem.isReal_of_locate hwf hcwd hfound).exists_node
  cases n with
  | file bytes => exact FileSystem.isFile_eq_true.mpr ⟨found, bytes, hfound, hn⟩
  | directory =>
    rw [Tree.hasDirectory, hn] at hfile
    cases hfile
  | link target => exact absurd hn (hlinks found target)

/-- **A file below the root is found** if no name on the way to it is passed by. -/
theorem mem_files_of_isFile (hwf : fs.tree.WellFormed) (hlinks : fs.tree.Linkless)
    (hcwd : IsReal fs.tree fs.cwd) (hdir : fs.isDirectory root = .ok true)
    (hstop : (ofRoot fs skip root).stopped = none) {names : List String}
    (hnames : ∀ n ∈ names, Tree.IsPlain n ∧ isPassedBy skip n = false)
    (h : fs.isFile ⟨root.anchor, root.segments ++ names⟩ = .ok true) :
    ⟨root.anchor, root.segments ++ names⟩ ∈ (ofRoot fs skip root).files := by
  obtain ⟨real, hroot, hd⟩ := FileSystem.isDirectory_eq_true.mp hdir
  obtain ⟨found, bytes, hfound, hfile⟩ := FileSystem.isFile_eq_true.mp h
  obtain ⟨⟨k, -, hlead⟩, -⟩ := FileSystem.locate_eq_ok.mp hfound
  have hisName : ∀ n ∈ names, IsName n := fun n hn =>
    hlead.isName hwf n (List.mem_append_right _ hn) (hnames n hn).1
  rcases List.eq_nil_or_concat names with rfl | ⟨way, name, rfl⟩
  · -- without names, it is the root that is asked for
    rw [List.append_nil] at hfound
    obtain rfl := Except.ok.inj (hroot.symm.trans hfound)
    rw [Tree.hasDirectory, hfile] at hd
    cases hd
  · rw [List.concat_eq_append] at hfound hnames hisName ⊢
    have hchild : (⟨root.anchor, root.segments ++ (way ++ [name])⟩ : Path) =
        Path.child ⟨root.anchor, root.segments ++ way⟩ name := by
      rw [Path.child, List.append_assoc]
    refine (mem_files_iff_of_linkless hwf hlinks hcwd hroot hstop).mpr ⟨way, name, found,
      fun n hn => ?_, hisName name (by simp), hchild, hfound, by rw [Tree.hasDirectory, hfile]; rfl⟩
    exact ⟨hisName n (List.mem_append_left _ hn), (hnames n (List.mem_append_left _ hn)).2⟩

end Unimported.Walk
