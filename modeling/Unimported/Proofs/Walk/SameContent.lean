import Unimported.Proofs.FileSystem.SameContent
import Unimported.Proofs.Walk.Denied

/-!
# Walks below directories with the same content

A walk asks what stands at the ends of its errands, and by their canonical paths whether it has been
there before.  Below two directories with the same content the answers are the same, so two walks go
the same ways in the same order, each below its own directory; if a directory on the way is denied,
it stops both.

## Main definitions

* `Walk.Errand.under` — an errand for what lies below a directory.
* `Walk.LeadBelow` — ways that lead somewhere below two directories.
* `Walk.WalkedAlike` — two walks found and listed the same, each below its own directory.

## Main results

* `Walk.walkedAlike` — walks that do the same and are not stopped.
* `Walk.ofRoot_sameContent` — **walks from directories with the same content find the same**, or they
  are stopped by the same directory.
-/

namespace Unimported.Walk

open FileSystem (SameContent)
open Path (IsName)
open Tree (IsReal)

/-- An errand for what lies below a directory; of its path the names count. -/
def Errand.under (base : Location) : Errand → Errand
  | .enter dir => .enter (.under base dir.segments)
  | .look entry => .look (.under base entry.segments)

/-- Ways that lead somewhere below both of two directories. -/
def LeadBelow (fs₁ fs₂ : FileSystem) (base₁ base₂ : Location) (ways : List (List String)) : Prop :=
  ∀ way ∈ ways, way ≠ [] ∧ fs₁.locate (.under base₁ way) = .ok (base₁ ++ way) ∧
    fs₂.locate (.under base₂ way) = .ok (base₂ ++ way)

/-- Two walks found and listed the same, each below its own directory: there are ways that lead to
the files of the one and to those of the other, and ways to the directories. -/
structure WalkedAlike (fs₁ fs₂ : FileSystem) (base₁ base₂ : Location) (t₁ t₂ : Trail) : Prop where
  files : ∃ ways, LeadBelow fs₁ fs₂ base₁ base₂ ways ∧
    t₁.files = ways.map (Path.under base₁) ∧ t₂.files = ways.map (Path.under base₂)
  listings : ∃ dirs : List (List String), (∀ dir ∈ dirs, ∀ n ∈ dir, IsName n) ∧
    t₁.listings.map Listing.path = dirs.map (Path.under base₁) ∧
    t₂.listings.map Listing.path = dirs.map (Path.under base₂)

section

variable {fs fs₁ fs₂ : FileSystem} {base base₁ base₂ : Location} {skip : List String}
  {deepest deepest₁ deepest₂ : Nat} {seen : List Path} {way : List String}

theorem LeadBelow.symm {ways : List (List String)} (h : LeadBelow fs₁ fs₂ base₁ base₂ ways) :
    LeadBelow fs₂ fs₁ base₂ base₁ ways := fun way hway =>
  ⟨(h way hway).1, (h way hway).2.2, (h way hway).2.1⟩

theorem walkedAlike_nil : WalkedAlike fs₁ fs₂ base₁ base₂ ⟨[], none⟩ ⟨[], none⟩ where
  files := ⟨[], fun _ h => (List.not_mem_nil h).elim, rfl, rfl⟩
  listings := ⟨[], fun _ h => (List.not_mem_nil h).elim, rfl, rfl⟩

/-- One more file below both directories. -/
theorem WalkedAlike.found {t₁ t₂ : Trail} (h : WalkedAlike fs₁ fs₂ base₁ base₂ t₁ t₂)
    (hne : way ≠ []) (h₁ : fs₁.locate (.under base₁ way) = .ok (base₁ ++ way))
    (h₂ : fs₂.locate (.under base₂ way) = .ok (base₂ ++ way)) :
    WalkedAlike fs₁ fs₂ base₁ base₂ (t₁.cons (.found (.under base₁ way)))
      (t₂.cons (.found (.under base₂ way))) where
  files := by
    obtain ⟨ways, hways, hfiles₁, hfiles₂⟩ := h.files
    refine ⟨way :: ways, fun w hw => ?_, ?_, ?_⟩
    · rcases List.mem_cons.mp hw with rfl | hw
      · exact ⟨hne, h₁, h₂⟩
      · exact hways w hw
    · exact congrArg (List.cons _) hfiles₁
    · exact congrArg (List.cons _) hfiles₂
  listings := h.listings

/-- One more directory below both directories. -/
theorem WalkedAlike.listed {t₁ t₂ : Trail} (h : WalkedAlike fs₁ fs₂ base₁ base₂ t₁ t₂)
    (hway : ∀ n ∈ way, IsName n) (real₁ real₂ names : List String) :
    WalkedAlike fs₁ fs₂ base₁ base₂ (t₁.cons (.listed ⟨.under base₁ way, real₁, names⟩))
      (t₂.cons (.listed ⟨.under base₂ way, real₂, names⟩)) where
  files := h.files
  listings := by
    obtain ⟨dirs, hdirs, hlistings₁, hlistings₂⟩ := h.listings
    refine ⟨way :: dirs, fun dir hdir => ?_, ?_, ?_⟩
    · rcases List.mem_cons.mp hdir with rfl | hdir
      · exact hway
      · exact hdirs dir hdir
    · exact congrArg (List.cons _) hlistings₁
    · exact congrArg (List.cons _) hlistings₂

/-! ### What a walk asks -/

/-- An entry whose path is too long stops a walk. -/
theorem locate_ne_of_stopped {entry : Path} {rest : List Errand}
    (h : (walk fs skip deepest seen (.look entry :: rest)).stopped = none) :
    fs.locate entry ≠ .error .nameTooLong := by
  intro hlong
  rw [walk_look, FileSystem.isDirectory_of_nameTooLong hlong] at h
  cases h

/-- A directory that a walk enters without being stopped is told by its canonical path. -/
theorem identify_of_stopped (hreal : IsReal fs.tree (base ++ way)) {rest : List Errand}
    (h : (walk fs skip deepest seen (.enter (.under base way) :: rest)).stopped = none) :
    identify fs deepest (.under base way) = .ok (.under base way) := by
  cases hi : identify fs deepest (.under base way) with
  | error fault =>
    rw [walk_enter_fault hi] at h
    cases h
  | ok real =>
    have hsame := (identify_eq_ok.mp hi).2.symm.trans (FileSystem.resolve_of_isReal hreal)
    rw [Except.ok.inj hsame]
    rfl

/-- An entry at the end of a way below a directory without links is a real location. -/
theorem isReal_of_mem_names (h : fs.LiesPlain base) (hreal : IsReal fs.tree (base ++ way))
    (hd : fs.tree.hasDirectory (base ++ way) = true) {n : String}
    (hn : n ∈ fs.tree.names (base ++ way)) : IsReal fs.tree (base ++ (way ++ [n])) := by
  have hlead := Tree.LeadsIn.of_mem_names h.wellFormed (h.under hreal).linkless hd hn
  have hentry := hlead.isReal h.wellFormed hreal
  rwa [List.append_assoc] at hentry

/-- What is listed at the end of a way below a directory. -/
theorem eq_of_list (h : fs.LiesPlain base) (hreal : IsReal fs.tree (base ++ way)) {l : Listing}
    (hl : fs.list (.under base way) = .ok l) :
    l = ⟨.under base way, base ++ way, fs.tree.names (base ++ way)⟩ := by
  obtain ⟨hloc, -, hnames, hpath⟩ := FileSystem.list_eq_ok hl
  have hway : ∀ n ∈ way, IsName n := fun n hn => hreal.isName n (List.mem_append_right base hn)
  obtain ⟨hplace, -⟩ := h.eq_of_locate hway hloc
  rw [← hplace, ← hnames, ← hpath]

/-- A directory that a walk enters for the first time is listed, if the walk is not stopped. -/
theorem list_of_stopped (h : fs.LiesPlain base) (hreal : IsReal fs.tree (base ++ way))
    {rest : List Errand} (hs : .under base way ∉ seen)
    (hstop : (walk fs skip deepest seen (.enter (.under base way) :: rest)).stopped = none) :
    fs.list (.under base way) =
      .ok ⟨.under base way, base ++ way, fs.tree.names (base ++ way)⟩ := by
  cases hl : fs.list (.under base way) with
  | error e =>
    rw [walk_enter_unlistable (identify_of_stopped hreal hstop) hs hl] at hstop
    cases hstop
  | ok l => rw [eq_of_list h hreal hl]

/-- Whether a directory was seen is told by the way to it. -/
theorem under_mem_map {ways : List (List String)} :
    Path.under base way ∈ ways.map (Path.under base) ↔ way ∈ ways := by
  rw [List.mem_map]
  constructor
  · rintro ⟨w, hw, heq⟩
    rwa [← List.append_cancel_left (congrArg Path.segments heq)]
  · exact fun hw => ⟨way, hw, rfl⟩

/-- The errands for names at the end of a way. -/
def inside (way names : List String) : List Errand :=
  names.map fun n => .look ⟨.current, way ++ [n]⟩

/-- What is to be done once a directory below another has been listed. -/
theorem errands_append_under (base way names : List String) (real : Location)
    (todo : List Errand) :
    errands ⟨.under base way, real, names⟩ ++ todo.map (Errand.under base) =
      (inside way names ++ todo).map (Errand.under base) := by
  rw [List.map_append, errands, inside, List.map_map]
  refine congrArg (· ++ _) (List.map_congr_left fun n _ => ?_)
  show Errand.look ⟨.root, base ++ way ++ [n]⟩ = .look ⟨.root, base ++ (way ++ [n])⟩
  rw [List.append_assoc]

/-- The next errand is to look at an entry below a directory. -/
theorem look_of_eq_map {entry : Path} {rest todo : List Errand}
    (h : .look entry :: rest = todo.map (Errand.under base)) :
    ∃ p todo', todo = .look p :: todo' ∧ entry = .under base p.segments ∧
      rest = todo'.map (Errand.under base) := by
  obtain ⟨e, todo', rfl, he, hrest⟩ := List.map_eq_cons_iff.mp h.symm
  cases e with
  | look p => exact ⟨p, todo', rfl, (Errand.look.inj he).symm, hrest.symm⟩
  | enter p => cases he

/-- The next errand is to enter a directory below another. -/
theorem enter_of_eq_map {dir : Path} {rest todo : List Errand}
    (h : .enter dir :: rest = todo.map (Errand.under base)) :
    ∃ p todo', todo = .enter p :: todo' ∧ dir = .under base p.segments ∧
      rest = todo'.map (Errand.under base) := by
  obtain ⟨e, todo', rfl, he, hrest⟩ := List.map_eq_cons_iff.mp h.symm
  cases e with
  | look p => cases he
  | enter p => exact ⟨p, todo', rfl, (Errand.enter.inj he).symm, hrest.symm⟩

/-- An entry that the one walk looks at is found by both, and to both it is the same. -/
theorem looked (h : SameContent fs₁ fs₂ base₁ base₂) (hreal : IsReal fs₁.tree (base₁ ++ way))
    {b : Bool} (hd : fs₁.isDirectory (.under base₁ way) = .ok b) {rest : List Errand}
    (h₂ : (walk fs₂ skip deepest seen (.look (.under base₂ way) :: rest)).stopped = none) :
    fs₁.locate (.under base₁ way) = .ok (base₁ ++ way) ∧
      fs₂.locate (.under base₂ way) = .ok (base₂ ++ way) ∧
      fs₂.isDirectory (.under base₂ way) = .ok b := by
  have hshort₁ : fs₁.locate (.under base₁ way) ≠ .error .nameTooLong := by
    intro hlong
    rw [FileSystem.isDirectory_of_nameTooLong hlong] at hd
    cases hd
  have hshort₂ : fs₂.locate (.under base₂ way) ≠ .error .nameTooLong := locate_ne_of_stopped h₂
  have hway : ∀ n ∈ way, IsName n := fun n hn => hreal.isName n (List.mem_append_right base₁ hn)
  refine ⟨FileSystem.locate_under hreal hshort₁,
    FileSystem.locate_under (h.isReal hreal) hshort₂, ?_⟩
  rw [← h.isDirectory hway hshort₁ hshort₂, hd]

/-! ### Walks -/

/-- **Walks below directories with the same content find the same**, if neither is stopped.  What
is still to be done are the same errands, and the same directories have been seen. -/
theorem walkedAlike (h : SameContent fs₁ fs₂ base₁ base₂) {seen₁ : List Path}
    {todo₁ : List Errand} {ways : List (List String)} {todo : List Errand}
    (hseen : seen₁ = ways.map (Path.under base₁)) (htodo : todo₁ = todo.map (Errand.under base₁))
    (hreal : ∀ e ∈ todo, IsReal fs₁.tree (base₁ ++ e.path.segments))
    (hnames : ∀ entry, .look entry ∈ todo → entry.segments ≠ [])
    (h₁ : (walk fs₁ skip deepest₁ seen₁ todo₁).stopped = none)
    (h₂ : (walk fs₂ skip deepest₂ (ways.map (Path.under base₂))
      (todo.map (Errand.under base₂))).stopped = none) :
    WalkedAlike fs₁ fs₂ base₁ base₂ (walk fs₁ skip deepest₁ seen₁ todo₁)
      (walk fs₂ skip deepest₂ (ways.map (Path.under base₂)) (todo.map (Errand.under base₂))) := by
  fun_induction walk fs₁ skip deepest₁ seen₁ todo₁ generalizing ways todo with
  | case1 =>
    obtain rfl := List.map_eq_nil_iff.mp htodo.symm
    rw [List.map_nil, walk]
    exact walkedAlike_nil
  | case2 => cases h₁
  | case3 seen₁ entry rest hd hp ih =>
    obtain ⟨p, todo, rfl, rfl, rfl⟩ := look_of_eq_map htodo
    have hhead : IsReal fs₁.tree (base₁ ++ p.segments) := hreal _ List.mem_cons_self
    have htail := fun e he => hreal e (List.mem_cons_of_mem _ he)
    have hne := hnames p List.mem_cons_self
    obtain ⟨-, -, hd₂⟩ := looked h hhead hd h₂
    rw [Path.name_under base₁ hne, ← Path.name_under base₂ hne] at hp
    rw [List.map_cons, Errand.under, walk_look, hd₂] at h₂ ⊢
    simp only [hp, if_true] at h₂ ⊢
    exact ih hseen rfl htail (fun q hq => hnames q (List.mem_cons_of_mem _ hq)) h₁ h₂
  | case4 seen₁ entry rest hd hp ih =>
    obtain ⟨p, todo, rfl, rfl, rfl⟩ := look_of_eq_map htodo
    have hhead : IsReal fs₁.tree (base₁ ++ p.segments) := hreal _ List.mem_cons_self
    have htail := fun e he => hreal e (List.mem_cons_of_mem _ he)
    have hne := hnames p List.mem_cons_self
    obtain ⟨-, -, hd₂⟩ := looked h hhead hd h₂
    rw [Path.name_under base₁ hne, ← Path.name_under base₂ hne] at hp
    rw [List.map_cons, Errand.under, walk_look, hd₂] at h₂ ⊢
    simp only [hp] at h₂ ⊢
    -- the same path is entered now
    have hall : ∀ e ∈ Errand.enter p :: todo, IsReal fs₁.tree (base₁ ++ e.path.segments) :=
      List.forall_mem_cons.mpr ⟨hhead, htail⟩
    refine ih hseen rfl hall (fun q hq => ?_) h₁ h₂
    rcases List.mem_cons.mp hq with hq | hq
    · cases hq
    · exact hnames q (List.mem_cons_of_mem _ hq)
  | case5 seen₁ entry rest hd ih =>
    obtain ⟨p, todo, rfl, rfl, rfl⟩ := look_of_eq_map htodo
    have hhead : IsReal fs₁.tree (base₁ ++ p.segments) := hreal _ List.mem_cons_self
    have htail := fun e he => hreal e (List.mem_cons_of_mem _ he)
    obtain ⟨hloc₁, hloc₂, hd₂⟩ := looked h hhead hd h₂
    rw [List.map_cons, Errand.under, walk_look, hd₂] at h₂ ⊢
    have hrest := ih hseen rfl htail (fun q hq => hnames q (List.mem_cons_of_mem _ hq)) h₁ h₂
    exact hrest.found (hnames p List.mem_cons_self) hloc₁ hloc₂
  | case6 => cases h₁
  | case7 seen₁ dir rest real hi hs ih =>
    obtain ⟨p, todo, rfl, rfl, rfl⟩ := enter_of_eq_map htodo
    have hhead : IsReal fs₁.tree (base₁ ++ p.segments) := hreal _ List.mem_cons_self
    have htail := fun e he => hreal e (List.mem_cons_of_mem _ he)
    subst hseen
    -- the other directory has been seen as well
    obtain rfl := Except.ok.inj
      ((FileSystem.resolve_of_isReal hhead).symm.trans (identify_eq_ok.mp hi).2)
    have hs₂ : Path.under base₂ p.segments ∈ ways.map (Path.under base₂) :=
      under_mem_map.mpr (under_mem_map.mp hs)
    have hi₂ := identify_of_stopped (h.isReal hhead) h₂
    rw [List.map_cons, Errand.under, walk_enter_seen hi₂ hs₂] at h₂ ⊢
    exact ih rfl rfl htail (fun q hq => hnames q (List.mem_cons_of_mem _ hq)) h₁ h₂
  | case8 => cases h₁
  | case9 seen₁ dir rest real hi hs l hl ih =>
    obtain ⟨p, todo, rfl, rfl, rfl⟩ := enter_of_eq_map htodo
    have hhead : IsReal fs₁.tree (base₁ ++ p.segments) := hreal _ List.mem_cons_self
    have htail := fun e he => hreal e (List.mem_cons_of_mem _ he)
    subst hseen
    obtain rfl := Except.ok.inj
      ((FileSystem.resolve_of_isReal hhead).symm.trans (identify_eq_ok.mp hi).2)
    have hway : ∀ n ∈ p.segments, IsName n := fun n hn =>
      hhead.isName n (List.mem_append_right base₁ hn)
    have hs₂ : Path.under base₂ p.segments ∉ ways.map (Path.under base₂) := fun hmem =>
      hs (under_mem_map.mpr (under_mem_map.mp hmem))
    have hi₂ := identify_of_stopped (h.isReal hhead) h₂
    obtain rfl := eq_of_list h.left hhead hl
    have hl₂ := list_of_stopped h.right (h.isReal hhead) hs₂ h₂
    obtain ⟨-, hd₁, -, -⟩ := FileSystem.list_eq_ok hl
    -- the entries have the same names, so what is to be done next is the same again
    have hnext : walk fs₂ skip deepest₂ (ways.map (Path.under base₂))
          (.enter (.under base₂ p.segments) :: todo.map (Errand.under base₂)) =
        (walk fs₂ skip deepest₂ ((p.segments :: ways).map (Path.under base₂))
          ((inside p.segments (fs₁.tree.names (base₁ ++ p.segments)) ++ todo).map
            (Errand.under base₂))).cons (.listed ⟨.under base₂ p.segments, base₂ ++ p.segments,
              fs₁.tree.names (base₁ ++ p.segments)⟩) := by
      rw [walk_enter_listed hi₂ hs₂ hl₂, ← h.names,
        ← errands_append_under base₂ _ _ (base₂ ++ p.segments)]
      rfl
    rw [List.map_cons, Errand.under, hnext] at h₂ ⊢
    have hseen : Path.under base₁ p.segments :: ways.map (Path.under base₁) =
        (p.segments :: ways).map (Path.under base₁) := rfl
    refine (ih hseen (errands_append_under ..) (fun e he => ?_) (fun q hq => ?_) h₁
      h₂).listed hway _ _ _
    · rcases List.mem_append.mp he with he | he
      · obtain ⟨n, hn, rfl⟩ := List.mem_map.mp he
        exact isReal_of_mem_names h.left hhead hd₁ hn
      · exact htail e he
    · rcases List.mem_append.mp hq with hq | hq
      · obtain ⟨n, -, hq⟩ := List.mem_map.mp hq
        rw [← Errand.look.inj hq]
        simp
      · exact hnames q (List.mem_cons_of_mem _ hq)

/-- When nothing is denied, a walk from a directory without links that fits is not stopped. -/
theorem opened_stopped_of_liesPlain (h : fs.LiesPlain base)
    (hd : fs.isDirectory ⟨.root, base⟩ = .ok true) (hfits : Fits fs skip ⟨.root, base⟩) :
    (ofRoot fs.opened skip ⟨.root, base⟩).stopped = none := by
  have henter : ∀ way, IsReal fs.tree (base ++ way) → IsWay skip way →
      fs.isDirectory (.under base way) = .ok true →
      Enterable fs.opened (base.length + fs.deepest) (.under base way) := by
    intro way hreal hway hdir
    exact ⟨hdir, _, identify_eq_ok.mpr
      ⟨hfits.shallow _ ⟨way, hway, rfl, hdir⟩, FileSystem.resolve_of_isReal hreal⟩⟩
  refine stopped_eq_none (fun _ _ => rfl) (fun e he => ?_) fun l hl e he => ?_
  · have hstart : IsReal fs.tree (base ++ []) := (List.append_nil base).symm ▸ h.real
    have hself : Path.under base [] = ⟨.root, base⟩ := by rw [Path.under, List.append_nil]
    have hroot := henter [] hstart (fun n hn => (List.not_mem_nil hn).elim) (hself ▸ hd)
    rw [List.mem_singleton.mp he]
    rwa [hself] at hroot
  · obtain ⟨n, hn, rfl⟩ := List.mem_map.mp he
    obtain ⟨hvisible, hloc, hdir, hnames⟩ := visible_of_mem_listings h.wellFormed hl
    obtain ⟨way, hway, hpath, -⟩ := id hvisible
    have hpath : l.path = .under base way := hpath
    rw [hpath] at hloc
    obtain ⟨hplace, hreal⟩ := h.eq_of_locate (fun x hx => (hway x hx).1) hloc
    rw [hnames, hplace] at hn
    rw [hplace] at hdir hreal
    have hentry := isReal_of_mem_names h hreal hdir hn
    have hchild : l.path.child n = .under base (way ++ [n]) := by
      rw [hpath, Path.child, Path.under, Path.under, List.append_assoc]
    have hfound := FileSystem.locate_under hentry
      (hchild ▸ hfits.short l.path hvisible _ (hpath ▸ hloc) n (hplace ▸ hn))
    rw [hchild]
    refine ⟨⟨_, FileSystem.isDirectory_of_locate hfound⟩, fun hd' hp => henter _ hentry ?_ hd'⟩
    intro x hx
    rcases List.mem_append.mp hx with hx | hx
    · exact hway x hx
    · rw [List.mem_singleton.mp hx]
      refine ⟨h.wellFormed.isName hn, ?_⟩
      rwa [← hchild, Path.name_child] at hp

/-- When nothing is denied and nothing is too long, walks from directories with the same content find
and list the same. -/
theorem walkedAlike_opened (h : SameContent fs₁ fs₂ base₁ base₂)
    (hd₁ : fs₁.isDirectory ⟨.root, base₁⟩ = .ok true)
    (hd₂ : fs₂.isDirectory ⟨.root, base₂⟩ = .ok true) (hfits₁ : Fits fs₁ skip ⟨.root, base₁⟩)
    (hfits₂ : Fits fs₂ skip ⟨.root, base₂⟩) :
    WalkedAlike fs₁ fs₂ base₁ base₂ (ofRoot fs₁.opened skip ⟨.root, base₁⟩)
      (ofRoot fs₂.opened skip ⟨.root, base₂⟩) := by
  have hstop₁ := opened_stopped_of_liesPlain h.left hd₁ hfits₁
  have hstop₂ := opened_stopped_of_liesPlain h.right hd₂ hfits₂
  have hroot : ∀ base : Location, [Errand.enter ⟨.root, base⟩] =
      [Errand.enter ⟨.current, []⟩].map (Errand.under base) := fun base => by
    simp [Errand.under, Path.under]
  have hstart : IsReal fs₁.tree (base₁ ++ []) := by
    rw [List.append_nil]
    exact h.left.real
  unfold ofRoot at hstop₁ hstop₂ ⊢
  rw [hroot base₂] at hstop₂ ⊢
  have hseen : [] = List.map (Path.under base₁) [] := rfl
  obtain ⟨hfiles, hlistings⟩ := walkedAlike h.opened hseen (hroot base₁)
    (fun e he => by rwa [List.mem_singleton.mp he]) (fun q hq => by cases List.mem_singleton.mp hq)
    hstop₁ hstop₂
  exact ⟨hfiles, hlistings⟩

/-- The directory that stops a walk is the first that is denied, of those that are listed when
nothing is. -/
theorem stopped_ofRoot {root : Path} (hopened : (ofRoot fs.opened skip root).stopped = none)
    {dirs : List (List String)}
    (hdirs : (ofRoot fs.opened skip root).listings.map Listing.path = dirs.map (Path.under base)) :
    (ofRoot fs skip root).stopped = (dirs.find? fun dir => fs.isDenied (.under base dir)).map
      fun dir => unlistable (.under base dir) .denied := by
  have hpaths : ∀ listings : List Listing,
      (listings.find? fun l => fs.isDenied l.path).map (fun l => unlistable l.path .denied) =
        ((listings.map Listing.path).find? fs.isDenied).map fun dir => unlistable dir .denied :=
    fun listings => by
      rw [List.find?_map, Option.map_map]
      rfl
  have hstop : (ofRoot fs skip root).stopped = _ := stopped_eq_find hopened
  rw [hstop, hpaths]
  show (((ofRoot fs.opened skip root).listings.map Listing.path).find? fs.isDenied).map _ = _
  rw [hdirs, List.find?_map, Option.map_map]
  rfl

/-- **Walks from directories with the same content find the same, or they are stopped by the same
directory**, if nothing is too long for either. -/
theorem ofRoot_sameContent (h : SameContent fs₁ fs₂ base₁ base₂)
    (hd₁ : fs₁.isDirectory ⟨.root, base₁⟩ = .ok true)
    (hd₂ : fs₂.isDirectory ⟨.root, base₂⟩ = .ok true) (hfits₁ : Fits fs₁ skip ⟨.root, base₁⟩)
    (hfits₂ : Fits fs₂ skip ⟨.root, base₂⟩) :
    (∃ ways, LeadBelow fs₁ fs₂ base₁ base₂ ways ∧
      (ofRoot fs₁ skip ⟨.root, base₁⟩).stopped = none ∧
      (ofRoot fs₂ skip ⟨.root, base₂⟩).stopped = none ∧
      (ofRoot fs₁ skip ⟨.root, base₁⟩).files = ways.map (Path.under base₁) ∧
      (ofRoot fs₂ skip ⟨.root, base₂⟩).files = ways.map (Path.under base₂)) ∨
    ∃ dir, (∀ n ∈ dir, IsName n) ∧ fs₁.isDenied (.under base₁ dir) = true ∧
      (ofRoot fs₁ skip ⟨.root, base₁⟩).stopped = some (unlistable (.under base₁ dir) .denied) ∧
      (ofRoot fs₂ skip ⟨.root, base₂⟩).stopped = some (unlistable (.under base₂ dir) .denied) := by
  obtain ⟨⟨ways, hways, hfiles₁, hfiles₂⟩, dirs, hnames, hdirs₁, hdirs₂⟩ :=
    walkedAlike_opened h hd₁ hd₂ hfits₁ hfits₂
  have hstop₁ := stopped_ofRoot (opened_stopped_of_liesPlain h.left hd₁ hfits₁) hdirs₁
  have hstop₂ := stopped_ofRoot (opened_stopped_of_liesPlain h.right hd₂ hfits₂) hdirs₂
  have hsame : dirs.find? (fun dir => fs₁.isDenied (.under base₁ dir)) =
      dirs.find? fun dir => fs₂.isDenied (.under base₂ dir) := by
    rw [← List.head?_filter, ← List.head?_filter]
    exact congrArg _ (List.filter_congr fun dir hdir => h.denied dir (hnames dir hdir))
  cases hfind : dirs.find? fun dir => fs₁.isDenied (.under base₁ dir) with
  | none =>
    rw [hfind] at hstop₁
    rw [← hsame, hfind] at hstop₂
    have hall₁ : ofRoot fs₁.opened skip _ = ofRoot fs₁ skip _ := eq_opened_of_stopped hstop₁
    have hall₂ : ofRoot fs₂.opened skip _ = ofRoot fs₂ skip _ := eq_opened_of_stopped hstop₂
    exact Or.inl ⟨ways, hways, hstop₁, hstop₂, hall₁ ▸ hfiles₁, hall₂ ▸ hfiles₂⟩
  | some dir =>
    rw [hfind] at hstop₁
    rw [← hsame, hfind] at hstop₂
    have hdenied : fs₁.isDenied (.under base₁ dir) = true :=
      List.find?_some (p := fun dir => fs₁.isDenied (.under base₁ dir)) hfind
    exact Or.inr ⟨dir, hnames dir (List.mem_of_find?_eq_some hfind), hdenied, hstop₁, hstop₂⟩

end

end Unimported.Walk
