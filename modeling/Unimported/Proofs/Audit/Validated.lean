import Unimported.Proofs.Audit.Failures
import Unimported.Settings.Load

/-!
# Audits with settings that were validated

Settings are validated when they are loaded, so that an audit need not doubt them.  The names are:
each is a text, not blank, and no absolute path.  Two other values are let through that an audit
cannot work with.  What is to be skipped is not looked at, and it is gone through item by item
and put into a set; and extensions may be given as a table, whose names are extensions, but which is
no ending of a file name as a whole.  The first stops every audit, the second those that find a file
to try it on.  Any other settings that are loaded give a result, as long as nothing is denied or
refused as too long, and no directory lies too deep for the walk.

## Main results

* `Settings.exists_ofTable_of_load` — settings that are loaded were built from a table.
* `Audit.ofSettings_of_skipNames` — names to skip that are no set of texts stop an audit.
* `Audit.mismatched_iff` — extensions that are no ending stop it when there is a file to try them on.
* `Audit.validated_exact` — **what validation lets through, and when it stops an audit.**
-/

namespace Unimported

open Outcome
open Tree (IsReal)

/-- Settings that are loaded were built from a table of values. -/
theorem Settings.exists_ofTable_of_load {fs : FileSystem} {place file : Option Path}
    {overrides : List (String × Value)} {s : Settings}
    (h : Settings.load fs place file overrides = .ok s) : ∃ t, Settings.ofTable t = .ok s := by
  unfold Settings.load at h
  obtain ⟨project, -, h⟩ := bind_eq_ok.mp h
  obtain ⟨named, -, h⟩ := bind_eq_ok.mp h
  unfold Settings.combine at h
  simp only at h
  split at h
  · cases h
  · exact ⟨_, h⟩

namespace Audit

variable {fs : FileSystem} {s : Settings} {skip : List String} {root real source : Path}

/-! ### What is to be skipped -/

/-- What is to be skipped stops an audit if it cannot be put into a set. -/
theorem ofSettings_of_skipNames {f : Fault} (hroot : fs.resolve root = .ok real)
    (hdir : fs.isDirectory (sourceRoot real s) = .ok true)
    (hskip : Walk.skipNames s.skipDirs = .error f) (checks : List Check) :
    (ofSettings fs root s checks).outcome = .error (.fault f) := by
  have htraverse : (Walk.traverse fs s.skipDirs (sourceRoot real s)).outcome =
      .error (.fault f) := by
    unfold Walk.traverse Walk.trail
    rw [hskip]
    rfl
  rw [outcome_ofSettings hroot hdir]
  exact outcome_ofSource_eq_error (traced_bind_eq_error htraverse)

/-! ### Extensions -/

/-- The files of a category, asked for with extensions that are no ending, are none. -/
theorem ofCategory_eq_nil {v : Survey} {c : Category} {x : Extensions} {found : List SourceFile}
    (hx : x.ending? = none) (h : v.filesIn c x = .ok found) : v.ofCategory c = [] := by
  cases hfiles : v.ofCategory c with
  | nil => rfl
  | cons f files =>
    have herror : v.filesIn c x = .error .notSuffix :=
      Extensions.select_eq_error.mpr ⟨rfl, hx, by rw [hfiles]; exact List.cons_ne_nil f files⟩
    rw [h] at herror
    cases herror

/-- **An audit that returns tried no extensions in vain.** -/
theorem not_mismatched_of_ofSource (hskip : Walk.skipNames s.skipDirs = .ok skip) {a : Audit}
    (h : (ofSource fs source s Check.all).outcome = .ok a) :
    ¬ Mismatched s source (Walk.ofRoot fs skip source).files := by
  obtain ⟨v, hv, hsections, -, -, hscanned⟩ := exists_survey h
  obtain ⟨-, hfiles⟩ := files_of_make hskip hv
  rintro (⟨hx, hne⟩ | ⟨hx, f, hf, hpage⟩)
  · have herror : s.sourceExtensions.select SourceFile.name v.files = .error .notSuffix := by
      refine Extensions.select_eq_error.mpr ⟨rfl, hx, fun hnil => hne ?_⟩
      rw [hfiles] at hnil
      exact List.map_eq_nil_iff.mp hnil
    rw [herror] at hscanned
    cases hscanned
  · obtain ⟨sec, -, hrun⟩ := exists_section hsections .pages (Check.mem_all _)
    obtain ⟨pages, hpages, -⟩ := traced_bind_eq_ok.mp hrun
    have hnone := ofCategory_eq_nil hx (ofFault_eq_ok.mp hpages)
    have hmem : SourceFile.ofPath s source f ∈ v.ofCategory .page := by
      refine List.mem_filter.mpr ⟨?_, decide_eq_true hpage⟩
      rw [hfiles]
      exact List.mem_map_of_mem hf
    rw [hnone] at hmem
    cases hmem

/-- **Extensions that are no ending stop an audit** when there is a file to try them on, and nothing
else does when nothing is denied. -/
theorem mismatched_iff (hwf : fs.tree.WellFormed) (hcwd : IsReal fs.tree fs.cwd)
    (hdenied : fs.denied = []) (hdir : fs.isDirectory source = .ok true)
    (hskip : Walk.skipNames s.skipDirs = .ok skip) (hbounds : InBounds fs s skip source) :
    (Mismatched s source (Walk.ofRoot fs skip source).files ∧
      (ofSource fs source s Check.all).outcome = .error (.fault .notSuffix)) ∨
    (¬ Mismatched s source (Walk.ofRoot fs skip source).files ∧
      ∃ a, (ofSource fs source s Check.all).outcome = .ok a) := by
  have hfails := failsOnly_ofSource hwf hcwd hdir hskip hbounds Check.all
  cases houtcome : (ofSource fs source s Check.all).outcome with
  | ok a => exact Or.inr ⟨not_mismatched_of_ofSource hskip houtcome, a, rfl⟩
  | error e =>
    rcases hfails e houtcome with ⟨dir, -, hden, -⟩ | ⟨rfl, hmismatch⟩
    · rw [FileSystem.isDenied_of_nil hdenied] at hden
      cases hden
    · exact Or.inl ⟨hmismatch, rfl⟩

/-- **What validation lets through, and when it stops an audit.**  Names were checked.  What is to be
skipped was not, and a fault tells if it cannot be put into a set; extensions that are no ending were
let through, and a fault tells if there is a file to try them on; otherwise there is a result. -/
theorem validated_exact {place file : Option Path} {overrides : List (String × Value)}
    (hload : Settings.load fs place file overrides = .ok s) (hwf : fs.tree.WellFormed)
    (hlinks : fs.tree.Linkless) (hdenied : fs.denied = []) (hcwd : IsReal fs.tree fs.cwd)
    (hroot : fs.resolve root = .ok real) (hdir : fs.isDirectory (sourceRoot real s) = .ok true)
    (hnames : ∀ name ∈ s.asked,
      fs.locate ((sourceRoot real s).joinText name) ≠ .error .nameTooLong)
    (hentries : ∀ skip, Walk.skipNames s.skipDirs = .ok skip →
      ∀ l ∈ (Walk.ofRoot fs skip (sourceRoot real s)).listings, ∀ n ∈ l.names,
        fs.locate (l.path.child n) ≠ .error .nameTooLong)
    (hshallow : ∀ skip, Walk.skipNames s.skipDirs = .ok skip →
      ∀ dir, Walk.ComesTo fs skip (sourceRoot real s) dir →
        dir.segments.length ≤ (sourceRoot real s).segments.length + fs.deepest) :
    (∀ f ∈ Settings.nameFields, ∃ name, s.value f = .text name ∧ Settings.IsInside name) ∧
    (∀ f, Walk.skipNames s.skipDirs = .error f →
      (ofSettings fs root s Check.all).outcome = .error (.fault f)) ∧
    ∀ skip, Walk.skipNames s.skipDirs = .ok skip →
      (Mismatched s (sourceRoot real s) (Walk.ofRoot fs skip (sourceRoot real s)).files ∧
        (ofSettings fs root s Check.all).outcome = .error (.fault .notSuffix)) ∨
      (¬ Mismatched s (sourceRoot real s) (Walk.ofRoot fs skip (sourceRoot real s)).files ∧
        ∃ a, (ofSettings fs root s Check.all).outcome = .ok a) := by
  obtain ⟨t, ht⟩ := Settings.exists_ofTable_of_load hload
  refine ⟨Settings.exists_inside_of_ofTable ht,
    fun f hskip => ofSettings_of_skipNames hroot hdir hskip Check.all, fun skip hskip => ?_⟩
  have hbounds : InBounds fs s skip (sourceRoot real s) := {
    root := by
      intro hlong
      rw [FileSystem.isDirectory_of_nameTooLong hlong] at hdir
      cases hdir
    walk := ⟨fun dir _ => Tree.canonical_longest hlinks _ _ dir, hshallow skip hskip,
      hentries skip hskip⟩
    names := hnames }
  rw [outcome_ofSettings hroot hdir]
  exact mismatched_iff hwf hcwd hdenied hdir hskip hbounds

/-- A project with a page. -/
def paged : FileSystem where
  tree := ⟨[.of ["src"] .directory, .of ["src", "App.tsx"] (.file []),
    .of ["src", "pages"] .directory, .of ["src", "pages", "Home.tsx"] (.file [])]⟩
  cwd := []

/-- Settings whose page extensions are the names of a table. -/
def tabled : Settings := { Settings.default with pageExtensions := .keyed [(".tsx", .null)] }

/-- They are accepted, and the page stops the audit. -/
theorem mismatched_paged :
    Settings.load paged none none [("page_extensions", .table [(".tsx", .null)])] = .ok tabled ∧
      Mismatched tabled ⟨.root, ["src"]⟩ (Walk.ofRoot paged ["node_modules"] ⟨.root, ["src"]⟩).files ∧
      (ofSettings paged ⟨.current, []⟩ tabled Check.all).outcome = .error (.fault .notSuffix) := by
  have hload : Settings.load paged none none [("page_extensions", .table [(".tsx", .null)])] =
      .ok tabled := rfl
  have hroot : paged.resolve ⟨.current, []⟩ = .ok ⟨.root, []⟩ :=
    eq_ok_of_toOption (by decide +kernel)
  have hsource : sourceRoot ⟨.root, []⟩ tabled = ⟨.root, ["src"]⟩ := by decide +kernel
  have hdir : paged.isDirectory (sourceRoot ⟨.root, []⟩ tabled) = .ok true :=
    eq_ok_of_toOption (by decide +kernel)
  have hwalk : ∀ skip, Walk.skipNames tabled.skipDirs = .ok skip →
      Walk.InBounds paged skip (sourceRoot ⟨.root, []⟩ tabled) := by
    intro skip hskip
    obtain rfl : ["node_modules"] = skip := Except.ok.inj hskip
    rw [hsource]
    exact Walk.inBounds_of_staysInBounds (by decide +kernel)
  obtain ⟨-, -, hexact⟩ := validated_exact hload (by decide +kernel)
    (Tree.linkless_of_entries (by decide)) rfl .root hroot hdir
    (fits_of_isFile (by decide +kernel)) (fun skip hskip => (hwalk skip hskip).short)
    (fun skip hskip => (hwalk skip hskip).shallow)
  have hmismatch : Mismatched tabled ⟨.root, ["src"]⟩
      (Walk.ofRoot paged ["node_modules"] ⟨.root, ["src"]⟩).files :=
    Or.inr ⟨rfl, ⟨.root, ["src", "pages", "Home.tsx"]⟩, by decide +kernel, by decide +kernel⟩
  rcases hexact ["node_modules"] rfl with ⟨-, houtcome⟩ | ⟨hnot, -⟩
  · exact ⟨hload, hmismatch, houtcome⟩
  · exact absurd (hsource.symm ▸ hmismatch) hnot

/-- A project whose settings file gives a number for the names to skip. -/
def numbered : FileSystem where
  tree := ⟨[.of ["src"] .directory, .of ["src", "App.tsx"] (.file []),
    .of ["ui-sweep.toml"] (.file (Text.Utf8.encode "skip_dirs = 5\n".toList))]⟩
  cwd := []

/-- **Settings that are loaded need not be ones that an audit can work with.** -/
theorem not_adequate_numbered :
    ¬ ∀ (fs : FileSystem) (place : Option Path) (s : Settings) (root real : Path),
      Settings.load fs place none [] = .ok s → fs.tree.WellFormed → fs.tree.Linkless →
      fs.denied = [] → IsReal fs.tree fs.cwd → fs.resolve root = .ok real →
      fs.isDirectory (sourceRoot real s) = .ok true →
      (∃ a, (ofSettings fs root s Check.all).outcome = .ok a) ∨
        ∃ p, (ofSettings fs root s Check.all).outcome = .error (.problem p) := by
  intro hall
  obtain ⟨s, hload, hs⟩ : ∃ s, Settings.load numbered (some ⟨.current, []⟩) none [] = .ok s ∧
      (reason? (Walk.skipNames s.skipDirs), s.sourceDir) = (some .notItems, "src") :=
    exists_ok_of_map (by decide +kernel)
  obtain ⟨hskip, hsourceDir⟩ := Prod.mk.inj hs
  have hroot : numbered.resolve ⟨.current, []⟩ = .ok ⟨.root, []⟩ :=
    eq_ok_of_toOption (by decide +kernel)
  have hdir : numbered.isDirectory (sourceRoot ⟨.root, []⟩ s) = .ok true := by
    rw [sourceRoot, hsourceDir]
    exact eq_ok_of_toOption (by decide +kernel)
  have hfault := ofSettings_of_skipNames hroot hdir (eq_error_of_reason? hskip) Check.all
  rcases hall numbered (some ⟨.current, []⟩) s ⟨.current, []⟩ _ hload (by decide +kernel)
    (Tree.linkless_of_entries (by decide)) rfl .root hroot hdir with ⟨a, ha⟩ | ⟨p, hp⟩
  · rw [hfault] at ha
    cases ha
  · rw [hfault] at hp
    cases hp

end Audit

end Unimported
