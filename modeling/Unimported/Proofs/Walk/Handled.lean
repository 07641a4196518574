import Unimported.Proofs.FileSystem.Located
import Unimported.Proofs.Walk.Stages

/-!
# What a walk has done when it ends

A walk that is not stopped has handled every errand: those it began with, and those it found in the
directories it listed.  A directory was listed, or one with the same canonical path had been listed
before.  An entry was found to be a file, or it was passed by, or it is a directory that was listed.
Because the walk only ever adds to what was listed, what is handled stays handled; this carries the
induction.

## Main definitions

* `Walk.Trail.Covers` — a directory with a canonical path was listed, now or before.
* `Walk.Handled` — what has become of an errand.
* `Walk.Answered` — an errand that does not stop a walk.

## Main results

* `Walk.handled` — a walk that is not stopped has handled every errand.
* `Walk.exists_of_mem_files`, `Walk.exists_of_mem_listings` — a file that was found was looked at,
  and so was a directory that was listed.
* `Walk.nodup_listings` — no directory is listed twice under one canonical path.
* `Walk.denied_of_stopped` — only a denied directory stops a walk all whose questions are answered.
* `Walk.stopped_eq_none` — a walk is not stopped if all its questions are answered.
-/

namespace Unimported.Walk

variable {fs : FileSystem} {skip : List String} {deepest : Nat} {seen : List Path}
  {todo : List Errand} {t : Trail}

/-- A directory with a canonical path was listed before, or one is listed in a trail. -/
def Trail.Covers (fs : FileSystem) (seen : List Path) (t : Trail) (real : Path) : Prop :=
  real ∈ seen ∨ ∃ l ∈ t.listings, fs.resolve l.path = .ok real

/-- What has become of an errand in a trail. -/
def Handled (fs : FileSystem) (skip : List String) (deepest : Nat) (seen : List Path) (t : Trail) :
    Errand → Prop
  | .enter dir => ∃ real, identify fs deepest dir = .ok real ∧ t.Covers fs seen real
  | .look entry =>
      (∃ b, fs.isDirectory entry = .ok b) ∧
      (fs.isDirectory entry = .ok false → entry ∈ t.files) ∧
      (fs.isDirectory entry = .ok true → isPassedBy skip entry.name = false →
        ∃ real, identify fs deepest entry = .ok real ∧ t.Covers fs seen real)

/-! ### What is handled stays handled -/

theorem Trail.Covers.cons {real : Path} (h : t.Covers fs seen real) (s : Stage) :
    (t.cons s).Covers fs seen real := by
  refine h.imp id fun ⟨l, hl, hr⟩ => ⟨l, ?_, hr⟩
  rw [Trail.mem_listings] at hl ⊢
  exact List.mem_cons_of_mem s hl

/-- A directory that was listed before is listed now, when it is the first of a trail. -/
theorem Trail.Covers.listed {l : Listing} {first real : Path} (hl : fs.resolve l.path = .ok first)
    (h : t.Covers fs (first :: seen) real) : (t.cons (.listed l)).Covers fs seen real := by
  rw [Trail.Covers, Trail.listings_listed]
  rcases h with h | ⟨l', hl', hr⟩
  · rcases List.mem_cons.mp h with rfl | h
    · exact Or.inr ⟨l, List.mem_cons_self, hl⟩
    · exact Or.inl h
  · exact Or.inr ⟨l', List.mem_cons_of_mem l hl', hr⟩

theorem Handled.imp {seen' : List Path} {t' : Trail} {e : Errand}
    (h : Handled fs skip deepest seen t e) (hfiles : ∀ f ∈ t.files, f ∈ t'.files)
    (hcovers : ∀ {real}, t.Covers fs seen real → t'.Covers fs seen' real) :
    Handled fs skip deepest seen' t' e := by
  cases e with
  | enter dir =>
    obtain ⟨real, hl, hc⟩ := h
    exact ⟨real, hl, hcovers hc⟩
  | look entry =>
    obtain ⟨hasked, hfile, hentered⟩ := h
    refine ⟨hasked, fun hd => hfiles entry (hfile hd), fun hd hp => ?_⟩
    obtain ⟨real, hl, hc⟩ := hentered hd hp
    exact ⟨real, hl, hcovers hc⟩

theorem Handled.found {file : Path} {e : Errand} (h : Handled fs skip deepest seen t e) :
    Handled fs skip deepest seen (t.cons (.found file)) e :=
  h.imp (fun f hf => by rw [Trail.files_found]; exact List.mem_cons_of_mem file hf)
    fun hc => hc.cons _

theorem Handled.listed {l : Listing} {first : Path} {e : Errand}
    (hl : fs.resolve l.path = .ok first) (h : Handled fs skip deepest (first :: seen) t e) :
    Handled fs skip deepest seen (t.cons (.listed l)) e :=
  h.imp (fun f hf => by rwa [Trail.files_listed]) fun hc => hc.listed hl

/-- A directory that is listed is told by its canonical path. -/
theorem resolve_of_list {dir real : Path} {l : Listing} (hi : identify fs deepest dir = .ok real)
    (hl : fs.list dir = .ok l) : fs.resolve l.path = .ok real :=
  (FileSystem.list_eq_ok hl).2.2.2 ▸ (identify_eq_ok.mp hi).2

/-! ### What was done -/

/-- **A walk that is not stopped has handled every errand** that it began with or met. -/
theorem handled (hstop : (walk fs skip deepest seen todo).stopped = none) :
    (∀ e ∈ todo, Handled fs skip deepest seen (walk fs skip deepest seen todo) e) ∧
      ∀ l ∈ (walk fs skip deepest seen todo).listings, ∀ e ∈ errands l,
        Handled fs skip deepest seen (walk fs skip deepest seen todo) e := by
  fun_induction walk fs skip deepest seen todo with
  | case1 => exact ⟨fun e he => (List.not_mem_nil he).elim, fun l hl => (List.not_mem_nil hl).elim⟩
  | case2 => cases hstop
  | case3 seen entry rest hd hp ih =>
    obtain ⟨hrest, hlisted⟩ := ih hstop
    refine ⟨fun e he => ?_, hlisted⟩
    rcases List.mem_cons.mp he with rfl | he
    · refine ⟨⟨true, hd⟩, fun hd' => ?_, fun _ hp' => ?_⟩
      · rw [hd] at hd'
        cases hd'
      · rw [hp] at hp'
        cases hp'
    · exact hrest e he
  | case4 seen entry rest hd hp ih =>
    obtain ⟨hrest, hlisted⟩ := ih hstop
    refine ⟨fun e he => ?_, hlisted⟩
    rcases List.mem_cons.mp he with rfl | he
    · -- the entry is handled when the directory is that it turned into
      refine ⟨⟨true, hd⟩, fun hd' => ?_, fun _ _ => hrest _ List.mem_cons_self⟩
      rw [hd] at hd'
      cases hd'
    · exact hrest e (List.mem_cons_of_mem _ he)
  | case5 seen entry rest hd ih =>
    obtain ⟨hrest, hlisted⟩ := ih hstop
    refine ⟨fun e he => ?_, fun l hl e he => (hlisted l hl e he).found⟩
    rcases List.mem_cons.mp he with rfl | he
    · refine ⟨⟨false, hd⟩, fun _ => by simp, fun hd' => ?_⟩
      rw [hd] at hd'
      cases hd'
    · exact (hrest e he).found
  | case6 => cases hstop
  | case7 seen dir rest real hi hs ih =>
    obtain ⟨hrest, hlisted⟩ := ih hstop
    refine ⟨fun e he => ?_, hlisted⟩
    rcases List.mem_cons.mp he with rfl | he
    · exact ⟨real, hi, Or.inl hs⟩
    · exact hrest e he
  | case8 => cases hstop
  | case9 seen dir rest real hi hs l hl ih =>
    -- the entries of the directory are errands of what is left of the walk
    obtain ⟨hrest, hlisted⟩ := ih hstop
    have hreal := resolve_of_list hi hl
    refine ⟨fun e he => ?_, fun l' hl' e he => ?_⟩
    · rcases List.mem_cons.mp he with rfl | he
      · exact ⟨real, hi, Or.inr ⟨l, by simp, hreal⟩⟩
      · exact (hrest e (List.mem_append_right _ he)).listed hreal
    · rw [Trail.listings_listed] at hl'
      rcases List.mem_cons.mp hl' with rfl | hl'
      · exact (hrest e (List.mem_append_left _ he)).listed hreal
      · exact (hlisted l' hl' e he).listed hreal

/-- A walk that comes to its end has listed its root. -/
theorem isDirectory_of_stopped {root : Path} (hstop : (ofRoot fs skip root).stopped = none) :
    fs.isDirectory root = .ok true := by
  unfold ofRoot at hstop
  rw [walk] at hstop
  split at hstop
  · cases hstop
  · rw [if_neg List.not_mem_nil] at hstop
    split at hstop
    · cases hstop
    · next l hl =>
      obtain ⟨hreal, hd, -, -⟩ := FileSystem.list_eq_ok hl
      exact FileSystem.isDirectory_eq_true.mpr ⟨l.real, hreal, hd⟩

/-- A walk below a root that comes to its end has found where the root is. -/
theorem located_of_traverse {skip : Value} {root : Path} {files : List Path}
    (h : (traverse fs skip root).outcome = .ok files) :
    ∃ names real, skipNames skip = .ok names ∧ fs.locate root = .ok real ∧
      (ofRoot fs names root).stopped = none ∧ (ofRoot fs names root).files = files := by
  obtain ⟨names, hnames, hstop, hfiles⟩ := traverse_eq_ok h
  obtain ⟨real, hreal, -⟩ := FileSystem.isDirectory_eq_true.mp (isDirectory_of_stopped hstop)
  exact ⟨names, real, hnames, hreal, hstop, hfiles⟩

/-- **A file that was found was looked at**, as an entry or because the walk began with it. -/
theorem exists_of_mem_files {f : Path} (hf : f ∈ (walk fs skip deepest seen todo).files) :
    fs.isDirectory f = .ok false ∧
      (.look f ∈ todo ∨ ∃ l ∈ (walk fs skip deepest seen todo).listings, .look f ∈ errands l) := by
  fun_induction walk fs skip deepest seen todo with
  | case1 => cases hf
  | case2 => cases hf
  | case3 seen entry rest hd hp ih =>
    obtain ⟨hfile, hlook⟩ := ih hf
    exact ⟨hfile, hlook.imp (List.mem_cons_of_mem _) id⟩
  | case4 seen entry rest hd hp ih =>
    obtain ⟨hfile, hlook⟩ := ih hf
    refine ⟨hfile, hlook.imp (fun h => ?_) id⟩
    rcases List.mem_cons.mp h with h | h
    · cases h
    · exact List.mem_cons_of_mem _ h
  | case5 seen entry rest hd ih =>
    rw [Trail.files_found] at hf
    rcases List.mem_cons.mp hf with rfl | hf
    · exact ⟨hd, Or.inl List.mem_cons_self⟩
    · obtain ⟨hfile, hlook⟩ := ih hf
      exact ⟨hfile, hlook.imp (List.mem_cons_of_mem _) id⟩
  | case6 => cases hf
  | case7 seen dir rest real hi hs ih =>
    obtain ⟨hfile, hlook⟩ := ih hf
    exact ⟨hfile, hlook.imp (List.mem_cons_of_mem _) id⟩
  | case8 => cases hf
  | case9 seen dir rest real hi hs l hl ih =>
    obtain ⟨hfile, hlook⟩ := ih hf
    refine ⟨hfile, ?_⟩
    rw [Trail.listings_listed]
    rcases hlook with h | ⟨l', hl', h⟩
    · rcases List.mem_append.mp h with h | h
      · exact Or.inr ⟨l, List.mem_cons_self, h⟩
      · exact Or.inl (List.mem_cons_of_mem _ h)
    · exact Or.inr ⟨l', List.mem_cons_of_mem l hl', h⟩

/-- **A directory was listed because of an entry**, or the walk began with it. -/
theorem exists_of_mem_listings {l : Listing} (hl : l ∈ (walk fs skip deepest seen todo).listings) :
    .enter l.path ∈ todo ∨ isPassedBy skip l.path.name = false ∧
      (.look l.path ∈ todo ∨
        ∃ l' ∈ (walk fs skip deepest seen todo).listings, .look l.path ∈ errands l') := by
  fun_induction walk fs skip deepest seen todo with
  | case1 => cases hl
  | case2 => cases hl
  | case3 seen entry rest hd hp ih =>
    exact (ih hl).imp (List.mem_cons_of_mem _) (And.imp_right (Or.imp_left (List.mem_cons_of_mem _)))
  | case4 seen entry rest hd hp ih =>
    rcases ih hl with h | ⟨hseen, h | h⟩
    · rcases List.mem_cons.mp h with h | h
      · obtain rfl : l.path = entry := Errand.enter.inj h
        exact Or.inr ⟨by simpa using hp, Or.inl List.mem_cons_self⟩
      · exact Or.inl (List.mem_cons_of_mem _ h)
    · rcases List.mem_cons.mp h with h | h
      · cases h
      · exact Or.inr ⟨hseen, Or.inl (List.mem_cons_of_mem _ h)⟩
    · exact Or.inr ⟨hseen, Or.inr h⟩
  | case5 seen entry rest hd ih =>
    rw [Trail.listings_found] at hl ⊢
    exact (ih hl).imp (List.mem_cons_of_mem _) (And.imp_right (Or.imp_left (List.mem_cons_of_mem _)))
  | case6 => cases hl
  | case7 seen dir rest real hi hs ih =>
    exact (ih hl).imp (List.mem_cons_of_mem _) (And.imp_right (Or.imp_left (List.mem_cons_of_mem _)))
  | case8 => cases hl
  | case9 seen dir rest real hi hs l₀ hl₀ ih =>
    rw [Trail.listings_listed] at hl ⊢
    rcases List.mem_cons.mp hl with rfl | hl
    · rw [(FileSystem.list_eq_ok hl₀).2.2.2]
      exact Or.inl List.mem_cons_self
    · rcases ih hl with h | ⟨hseen, h | ⟨l', hl', h⟩⟩
      · rcases List.mem_append.mp h with h | h
        · obtain ⟨n, -, h⟩ := List.mem_map.mp h
          cases h
        · exact Or.inl (List.mem_cons_of_mem _ h)
      · rcases List.mem_append.mp h with h | h
        · exact Or.inr ⟨hseen, Or.inr ⟨l₀, List.mem_cons_self, h⟩⟩
        · exact Or.inr ⟨hseen, Or.inl (List.mem_cons_of_mem _ h)⟩
      · exact Or.inr ⟨hseen, Or.inr ⟨l', List.mem_cons_of_mem _ hl', h⟩⟩

/-- Below the root, a directory was listed because of an entry of another. -/
theorem exists_entry_of_mem_listings {l : Listing} (hl : l ∈ (ofRoot fs skip root).listings) :
    l.path = root ∨ ∃ l' ∈ (ofRoot fs skip root).listings, ∃ n ∈ l'.names,
      l.path = l'.path.child n ∧ isPassedBy skip n = false := by
  rcases exists_of_mem_listings hl with h | ⟨hseen, h | ⟨l', hl', h⟩⟩
  · exact Or.inl (Errand.enter.inj (List.mem_singleton.mp h))
  · cases List.mem_singleton.mp h
  · obtain ⟨n, hn, he⟩ := List.mem_map.mp h
    have hpath : l'.path.child n = l.path := Errand.look.inj he
    rw [← hpath, Path.name_child] at hseen
    exact Or.inr ⟨l', hl', n, hn, hpath.symm, hseen⟩

/-- **No directory is listed twice** under one canonical path, nor with one that was listed
before. -/
theorem nodup_listings (fs : FileSystem) (skip : List String) (deepest : Nat) (seen : List Path)
    (todo : List Errand) :
    ((walk fs skip deepest seen todo).listings.map fun l => fs.resolve l.path).Nodup ∧
      ∀ l ∈ (walk fs skip deepest seen todo).listings,
        ∃ real, identify fs deepest l.path = .ok real ∧ real ∉ seen := by
  fun_induction walk fs skip deepest seen todo with
  | case1 => exact ⟨.nil, fun l hl => (List.not_mem_nil hl).elim⟩
  | case2 => exact ⟨.nil, fun l hl => (List.not_mem_nil hl).elim⟩
  | case3 seen entry rest hd hp ih => exact ih
  | case4 seen entry rest hd hp ih => exact ih
  | case5 seen entry rest hd ih => exact ih
  | case6 => exact ⟨.nil, fun l hl => (List.not_mem_nil hl).elim⟩
  | case7 seen dir rest real hi hs ih => exact ih
  | case8 => exact ⟨.nil, fun l hl => (List.not_mem_nil hl).elim⟩
  | case9 seen dir rest real hi hs l hl ih =>
    obtain ⟨hnodup, hnew⟩ := ih
    have hreal := resolve_of_list hi hl
    rw [Trail.listings_listed]
    refine ⟨?_, fun l' hl' => ?_⟩
    · rw [List.map_cons, List.nodup_cons]
      refine ⟨fun hmem => ?_, hnodup⟩
      obtain ⟨l', hl', hsame⟩ := List.mem_map.mp hmem
      obtain ⟨real', hi', hfresh⟩ := hnew l' hl'
      rw [(identify_eq_ok.mp hi').2, hreal] at hsame
      exact hfresh (Except.ok.inj hsame ▸ List.mem_cons_self)
    · rcases List.mem_cons.mp hl' with rfl | hl'
      · exact ⟨real, (FileSystem.list_eq_ok hl).2.2.2 ▸ hi, hs⟩
      · obtain ⟨real', hi', hfresh⟩ := hnew l' hl'
        exact ⟨real', hi', fun hmem => hfresh (List.mem_cons_of_mem _ hmem)⟩

/-! ### What stops a walk -/

/-- A walk that goes so deep can enter a directory, if it may list it. -/
def Enterable (fs : FileSystem) (deepest : Nat) (dir : Path) : Prop :=
  fs.isDirectory dir = .ok true ∧ ∃ real, identify fs deepest dir = .ok real

/-- An errand that does not stop a walk: a directory can be entered, and of an entry it can be told
whether it is a directory, which then can be entered if it has to be. -/
def Answered (fs : FileSystem) (skip : List String) (deepest : Nat) : Errand → Prop
  | .enter dir => Enterable fs deepest dir
  | .look entry =>
      (∃ b, fs.isDirectory entry = .ok b) ∧
      (fs.isDirectory entry = .ok true → isPassedBy skip entry.name = false →
        Enterable fs deepest entry)

/-- A directory that may be listed can be listed. -/
theorem exists_list_eq_ok {dir : Path} (hd : fs.isDirectory dir = .ok true)
    (hopen : fs.isDenied dir = false) : ∃ l, fs.list dir = .ok l := by
  obtain ⟨real, hreal, hdir⟩ := FileSystem.isDirectory_eq_true.mp hd
  unfold FileSystem.list
  rw [if_neg (by simp [hopen]), hreal]
  exact ⟨_, if_pos hdir⟩

/-- **Only a denied directory stops a walk** all whose questions are answered. -/
theorem denied_of_stopped (htodo : ∀ e ∈ todo, Answered fs skip deepest e)
    (hlisted : ∀ l ∈ (walk fs skip deepest seen todo).listings, ∀ e ∈ errands l,
      Answered fs skip deepest e)
    {failure : Failure} (h : (walk fs skip deepest seen todo).stopped = some failure) :
    ∃ dir, fs.isDirectory dir = .ok true ∧ fs.isDenied dir = true ∧
      failure = unlistable dir .denied := by
  fun_induction walk fs skip deepest seen todo with
  | case1 => cases h
  | case2 seen entry rest fault hd =>
    obtain ⟨⟨b, hb⟩, -⟩ := htodo _ List.mem_cons_self
    rw [hd] at hb
    cases hb
  | case3 seen entry rest hd hp ih =>
    exact ih (fun e he => htodo e (List.mem_cons_of_mem _ he)) hlisted h
  | case4 seen entry rest hd hp ih =>
    refine ih (fun e he => ?_) hlisted h
    rcases List.mem_cons.mp he with rfl | he
    · exact (htodo _ List.mem_cons_self).2 hd (by simpa using hp)
    · exact htodo e (List.mem_cons_of_mem _ he)
  | case5 seen entry rest hd ih =>
    exact ih (fun e he => htodo e (List.mem_cons_of_mem _ he)) hlisted h
  | case6 seen dir rest fault hi =>
    obtain ⟨-, real, hreal⟩ := htodo _ List.mem_cons_self
    rw [hi] at hreal
    cases hreal
  | case7 seen dir rest real hi hs ih =>
    exact ih (fun e he => htodo e (List.mem_cons_of_mem _ he)) hlisted h
  | case8 seen dir rest real hi hs e he =>
    obtain ⟨hd, -⟩ := htodo _ List.mem_cons_self
    cases hdenied : fs.isDenied dir with
    | true =>
      have herror : fs.list dir = .error .denied := if_pos hdenied
      obtain rfl := Except.error.inj (he.symm.trans herror)
      exact ⟨dir, hd, hdenied, (Option.some.inj h).symm⟩
    | false =>
      obtain ⟨l, hl⟩ := exists_list_eq_ok hd hdenied
      rw [he] at hl
      cases hl
  | case9 seen dir rest real hi hs l hl ih =>
    rw [Trail.listings_listed] at hlisted
    refine ih (fun e he => ?_) (fun l' hl' => hlisted l' (List.mem_cons_of_mem l hl')) h
    rcases List.mem_append.mp he with he | he
    · exact hlisted l List.mem_cons_self e he
    · exact htodo e (List.mem_cons_of_mem _ he)

/-- **A walk is not stopped if all its questions are answered** and no directory is denied. -/
theorem stopped_eq_none (hopen : ∀ p, fs.isDirectory p = .ok true → fs.isDenied p = false)
    (htodo : ∀ e ∈ todo, Answered fs skip deepest e)
    (hlisted : ∀ l ∈ (walk fs skip deepest seen todo).listings, ∀ e ∈ errands l,
      Answered fs skip deepest e) :
    (walk fs skip deepest seen todo).stopped = none := by
  cases hstop : (walk fs skip deepest seen todo).stopped with
  | none => rfl
  | some failure =>
    obtain ⟨dir, hdir, hdenied, -⟩ := denied_of_stopped htodo hlisted hstop
    rw [hopen dir hdir] at hdenied
    cases hdenied

end Unimported.Walk
