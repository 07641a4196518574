import Unimported.Proofs.FileSystem.Located
import Unimported.Proofs.Settings.Fits
import Unimported.Settings.Load

/-!
# What loading settings fails with

Loading reports a problem with the settings where one was foreseen: a file that is missing, cannot be
read, or breaks the rules of its format, a name that no setting has, a value that does not fit.  Not
all was foreseen.  Whether a file is there cannot be asked under a path that is too long; its bytes
may be no UTF-8; a numeral in it may be too long, and its values may stand too deep inside each other;
and a value may be one that cannot be refused.  These faults, each under its exact condition, are all
that loading can fail with besides the problems.

## Main definitions

* `Settings.FailsWith` — how an outcome fails.
* `Settings.TableFault`, `Settings.FileFault` — what was not foreseen about the values as a whole, and
  about a file.
* `Settings.Escapes` — what was not foreseen, over all the stages of loading.

## Main results

* `Settings.load_fails` — **loading fails with a problem of the settings, or it meets one of the
  conditions that were not foreseen**, and then it fails with just this fault.
* `Settings.Escapes.mem` — which faults these are.
-/

namespace Unimported.Settings

open Outcome (reason?)

/-! ### Outcomes -/

/-- An outcome fails with problems of the settings, and with just these faults. -/
structure FailsWith {α : Type} (faults : Fault → Prop) (x : Except Failure α) : Prop where
  problems : ∀ p, x = .error (.problem p) → p.kind = .configuration ∨ p.kind = .setting
  exact : ∀ fault, x = .error (.fault fault) ↔ faults fault

namespace FailsWith

variable {α β : Type} {F G : Fault → Prop}

theorem of_ok (a : α) : FailsWith (fun _ => False) (.ok a : Except Failure α) where
  problems := fun _ h => nomatch h
  exact := fun _ => ⟨nofun, False.elim⟩

theorem of_problem {p : Problem} (h : p.kind = .configuration ∨ p.kind = .setting) :
    FailsWith (fun _ => False) (.error (.problem p) : Except Failure α) where
  problems := fun _ hp => by cases hp; exact h
  exact := fun _ => ⟨nofun, False.elim⟩

theorem of_fault (fault : Fault) :
    FailsWith (· = fault) (.error (.fault fault) : Except Failure α) where
  problems := fun _ h => nomatch h
  exact := fun f => by rw [Except.error.injEq, Failure.fault.injEq, eq_comm]

/-- The same faults may be told in another way. -/
theorem congr {x : Except Failure α} (h : FailsWith F x) (hFG : ∀ fault, F fault ↔ G fault) :
    FailsWith G x := ⟨h.problems, fun fault => (h.exact fault).trans (hFG fault)⟩

/-- A sequence fails with the faults of its first step, and with those of the steps after it. -/
theorem bind {x : Except Failure α} {k : α → Except Failure β} {G : α → Fault → Prop}
    (hx : FailsWith F x) (hk : ∀ a, x = .ok a → FailsWith (G a) (k a)) :
    FailsWith (fun fault => F fault ∨ ∃ a, x = .ok a ∧ G a fault) (x >>= k) := by
  cases x with
  | error e =>
    refine ⟨fun p hp => hx.problems p (congrArg Except.error (Except.error.inj hp)), fun fault => ?_⟩
    rw [← hx.exact fault]
    constructor
    · exact fun h => Or.inl (congrArg Except.error (Except.error.inj h))
    · rintro (h | ⟨a, ha, -⟩)
      · exact congrArg Except.error (Except.error.inj h)
      · cases ha
  | ok a =>
    refine ⟨(hk a rfl).problems, fun fault => ((hk a rfl).exact fault).trans ?_⟩
    constructor
    · exact fun h => Or.inr ⟨a, rfl, h⟩
    · rintro (h | ⟨a', ha, h⟩)
      · exact nomatch (hx.exact fault).mpr h
      · cases ha
        exact h

end FailsWith

/-! ### The values as a whole -/

/-- The first value that does not fit cannot be refused. -/
def FirstUnfit (value : Field → Value) (fault : Fault) : Prop :=
  ∃ pre f post, checkOrder = pre ++ f :: post ∧ (∀ g ∈ pre, Fits g (value g)) ∧
    ¬ Fits f (value f) ∧ ValueFault f (value f) fault

theorem ofTable_fails {t : Table} (ht : ∀ name ∈ t.names, name ∈ Field.keys) :
    FailsWith (FirstUnfit (given t)) (ofTable t) := by
  have hreason : ∀ e, ofTable t = .error e ↔
      (checkOrder.findSome? fun f => refusal f (given t f)) = some e := by
    intro e
    rw [← reason?_ofTable ht]
    exact ⟨fun h => by rw [h]; rfl, Outcome.eq_error_of_reason?⟩
  constructor
  · intro p hp
    obtain ⟨f, hf, hrefusal⟩ := List.exists_of_findSome?_eq_some ((hreason _).mp hp)
    obtain ⟨α, x, hjudged, hx⟩ := refusal_eq f hf (given t f)
    exact Or.inr (hjudged.kind_of_problem (hx ▸ hrefusal))
  · intro fault
    rw [hreason, List.findSome?_eq_some_iff]
    constructor
    · rintro ⟨pre, f, post, horder, hf, hpre⟩
      obtain ⟨α, x, hjudged, hx⟩ := refusal_eq f (horder ▸ by simp) (given t f)
      obtain ⟨hnot, hfault⟩ := hjudged.reason?_eq_fault.mp (hx ▸ hf)
      refine ⟨pre, f, post, horder, fun g hg => ?_, hnot, hfault⟩
      obtain ⟨β, y, hjudged', hy⟩ := refusal_eq g (horder ▸ List.mem_append_left _ hg) (given t g)
      exact hjudged'.reason?_eq_none.mp (hy ▸ hpre g hg)
    · rintro ⟨pre, f, post, horder, hpre, hnot, hfault⟩
      obtain ⟨α, x, hjudged, hx⟩ := refusal_eq f (horder ▸ by simp) (given t f)
      refine ⟨pre, f, post, horder, ?_, fun g hg => ?_⟩
      · exact hx.trans (hjudged.reason?_eq_fault.mpr ⟨hnot, hfault⟩)
      · obtain ⟨β, y, hjudged', hy⟩ := refusal_eq g (horder ▸ List.mem_append_left _ hg) (given t g)
        exact hy.trans (hjudged'.reason?_eq_none.mpr (hpre g hg))

/-- The values that all places give together, each deciding over those before it. -/
def merged (project named : Table) (overrides : List (String × Value)) : Table :=
  Table.merge (Table.merge project named) (applyFlags (Table.ofList overrides))

/-- The value that a setting has in a table, sequences as settings keep them. -/
def chosen (t : Table) (f : Field) : Value := given (t.map fun e => (e.1, kept e.2)) f

/-- What was not foreseen about the values as a whole. -/
inductive TableFault (t : Table) : Fault → Prop where
  /-- The value under the first name that no setting has cannot be told. -/
  | unknown {pre post : Table} {name : String} {v : Value} {fault : Fault} :
      t = pre ++ (name, v) :: post → (∀ e ∈ pre, e.1 ∈ Field.keys) → name ∉ Field.keys →
      v.shown = .error fault → TableFault t fault
  /-- Every name is that of a setting, and the first value that does not fit cannot be refused. -/
  | unfit {fault : Fault} :
      (∀ e ∈ t, e.1 ∈ Field.keys) → FirstUnfit (chosen t) fault → TableFault t fault

/-- Where the first name that no setting has stands. -/
theorem find?_unknown {t : Table} {name : String} {v : Value} :
    (t.find? fun e => !Field.keys.contains e.1) = some (name, v) ↔
      name ∉ Field.keys ∧ ∃ pre post, t = pre ++ (name, v) :: post ∧
        ∀ e ∈ pre, e.1 ∈ Field.keys := by
  rw [List.find?_eq_some_iff_append]
  simp

theorem find?_unknown_eq_none {t : Table} :
    (t.find? fun e => !Field.keys.contains e.1) = none ↔ ∀ e ∈ t, e.1 ∈ Field.keys := by
  rw [List.find?_eq_none]
  simp

section Combine

variable {project named t : Table} {overrides : List (String × Value)}

/-- A name that no setting has is refused with its value. -/
theorem combine_of_unknown (ht : merged project named overrides = t) {name : String} {v : Value}
    (h : (t.find? fun e => !Field.keys.contains e.1) = some (name, v)) :
    combine project named overrides = .error (rejection name v "unknown setting") := by
  have hmerged : Table.merge (Table.merge project named) (applyFlags (Table.ofList overrides)) = t :=
    ht
  unfold combine
  simp only [hmerged, h]

/-- If every name is that of a setting, the values are checked. -/
theorem combine_of_all_known (ht : merged project named overrides = t)
    (h : (t.find? fun e => !Field.keys.contains e.1) = none) :
    combine project named overrides = ofTable (t.map fun e => (e.1, kept e.2)) := by
  have hmerged : Table.merge (Table.merge project named) (applyFlags (Table.ofList overrides)) = t :=
    ht
  unfold combine
  simp only [hmerged, h]

end Combine

theorem combine_fails (project named : Table) (overrides : List (String × Value)) :
    FailsWith (TableFault (merged project named overrides)) (combine project named overrides) := by
  generalize ht : merged project named overrides = t
  cases hunknown : t.find? fun e => !Field.keys.contains e.1 with
  | some e =>
    obtain ⟨name, v⟩ := e
    rw [combine_of_unknown ht hunknown]
    clear ht
    obtain ⟨hname, pre, post, rfl, hpre⟩ := find?_unknown.mp hunknown
    refine ⟨fun p hp => Or.inr (rejection_eq_problem (Except.error.inj hp)), fun fault => ?_⟩
    rw [Except.error.injEq, rejection_eq_fault]
    constructor
    · exact fun h => .unknown rfl hpre hname h
    · intro h
      cases h with
      | unknown heq hpre' hname' hshown =>
        rw [find?_unknown.mpr ⟨hname', _, _, heq, hpre'⟩] at hunknown
        cases hunknown
        exact hshown
      | unfit hall =>
        exact absurd (hall (name, v) (by simp)) hname
  | none =>
    have hall := find?_unknown_eq_none.mp hunknown
    have hnames : ∀ name ∈ Table.names (t.map fun e => (e.1, kept e.2)), name ∈ Field.keys := by
      intro name hname
      obtain ⟨e', he', rfl⟩ := List.mem_map.mp hname
      obtain ⟨e, he, rfl⟩ := List.mem_map.mp he'
      exact hall e he
    rw [combine_of_all_known ht hunknown]
    refine (ofTable_fails hnames).congr fun fault => ⟨.unfit hall, fun h => ?_⟩
    cases h with
    | @unknown pre post name v _ heq _ hname =>
      exact absurd (hall (name, v) (by simp [heq])) hname
    | unfit _ hfirst => exact hfirst

/-! ### Files -/

/-- What was not foreseen about the bytes of a settings file. -/
inductive ContentFault (bytes : List UInt8) : Fault → Prop where
  /-- The bytes are no UTF-8. -/
  | notUtf8 : Text.Utf8.decode? bytes = none → ContentFault bytes .notUtf8
  /-- A numeral is too long to be converted. -/
  | longNumeral {text : List Char} :
      Text.Utf8.decode? bytes = some text → Toml.read text = .error .longNumeral →
      ContentFault bytes .longNumeral
  /-- Values stand too deep inside each other. -/
  | tooDeep {text : List Char} :
      Text.Utf8.decode? bytes = some text → Toml.read text = .error .tooDeep →
      ContentFault bytes .tooDeep

/-- What was not foreseen about a settings file. -/
inductive FileFault (fs : FileSystem) (path : Path) : Fault → Prop where
  /-- The path is too long to be asked about. -/
  | tooLong : fs.locate path = .error .nameTooLong → FileFault fs path .nameTooLong
  /-- The file can be read, but not what is in it. -/
  | content {bytes : List UInt8} {fault : Fault} :
      fs.read path = .ok bytes → ContentFault bytes fault → FileFault fs path fault

section File

variable {fs : FileSystem} {path : Path}

/-- The settings in a text, by what the format makes of it. -/
theorem ofText_fails {bytes : List UInt8} {text : List Char}
    (hdecode : Text.Utf8.decode? bytes = some text) :
    FailsWith (ContentFault bytes) (ofText path text) := by
  have hfault : ∀ fault, ContentFault bytes fault →
      Toml.read text = .error .longNumeral ∧ fault = .longNumeral ∨
        Toml.read text = .error .tooDeep ∧ fault = .tooDeep := by
    intro fault h
    cases h with
    | notUtf8 h => exact nomatch hdecode.symm.trans h
    | longNumeral h htoml =>
      obtain rfl := Option.some.inj (hdecode.symm.trans h)
      exact Or.inl ⟨htoml, rfl⟩
    | tooDeep h htoml =>
      obtain rfl := Option.some.inj (hdecode.symm.trans h)
      exact Or.inr ⟨htoml, rfl⟩
  unfold ofText
  cases hread : Toml.read text with
  | error e =>
    rw [hread] at hfault
    cases e with
    | flawed flaw left =>
      exact (FailsWith.of_problem (Or.inl rfl)).congr fun fault =>
        ⟨False.elim, fun h => by simpa using hfault fault h⟩
    | longNumeral =>
      refine (FailsWith.of_fault _).congr fun fault => ⟨?_, fun h => by simpa using hfault fault h⟩
      rintro rfl
      exact .longNumeral hdecode hread
    | tooDeep =>
      refine (FailsWith.of_fault _).congr fun fault => ⟨?_, fun h => by simpa using hfault fault h⟩
      rintro rfl
      exact .tooDeep hdecode hread
  | ok data =>
    rw [hread] at hfault
    have hnone : ∀ fault, False ↔ ContentFault bytes fault := fun fault =>
      ⟨False.elim, fun h => by simpa using hfault fault h⟩
    simp only
    split
    · exact (FailsWith.of_ok _).congr hnone
    · exact (FailsWith.of_ok _).congr hnone
    · exact (FailsWith.of_problem (Or.inl rfl)).congr hnone

/-- A file that can be read is there. -/
theorem locate_of_read {bytes : List UInt8} (h : fs.read path = .ok bytes) :
    ∃ real, fs.locate path = .ok real ∧ (fs.tree.node? real).isSome = true := by
  unfold FileSystem.read at h
  split at h
  · cases h
  · split at h
    · cases h
    · next real hreal =>
      refine ⟨real, hreal, ?_⟩
      split at h
      · next hnode => rw [hnode]; rfl
      · cases h
      · cases h
      · cases h

/-- What cannot be read although its path leads somewhere is reported. -/
theorem read_ne_zeroCharacter {real : Location} (h : fs.locate path = .ok real) :
    fs.read path ≠ .error .zeroCharacter := by
  unfold FileSystem.read
  rw [h]
  simp only
  split
  · simp
  · split <;> simp

theorem ofFile_fails {real : Location} (h : fs.locate path = .ok real) :
    FailsWith (FileFault fs path) (ofFile fs path) := by
  unfold ofFile
  cases hread : fs.read path with
  | error e =>
    have hproblem : e.failure (fun e => .badSettingsFile path (e.text path)) =
        .problem (.badSettingsFile path (e.text path)) := by
      cases e with
      | zeroCharacter => exact absurd hread (read_ne_zeroCharacter h)
      | _ => rfl
    simp only [hproblem]
    refine (FailsWith.of_problem (Or.inl rfl)).congr fun fault => ⟨False.elim, fun hfault => ?_⟩
    cases hfault with
    | tooLong hlong => exact nomatch h.symm.trans hlong
    | content hok => exact nomatch hread.symm.trans hok
  | ok bytes =>
    have hcontent : ∀ fault, ContentFault bytes fault ↔ FileFault fs path fault := by
      intro fault
      refine ⟨.content hread, fun hfault => ?_⟩
      cases hfault with
      | tooLong hlong => exact nomatch h.symm.trans hlong
      | content hok hcontent => exact Except.ok.inj (hread.symm.trans hok) ▸ hcontent
    simp only
    cases hdecode : Text.Utf8.decode? bytes with
    | none =>
      refine (FailsWith.of_fault _).congr fun fault => Iff.trans ⟨?_, fun h => ?_⟩ (hcontent fault)
      · rintro rfl
        exact .notUtf8 hdecode
      · cases h with
        | notUtf8 => rfl
        | longNumeral h | tooDeep h => exact nomatch hdecode.symm.trans h
    | some text => exact (ofText_fails hdecode).congr hcontent

theorem isThere_of_locate {real : Location} (h : fs.locate path = .ok real) :
    isThere fs path = .ok (fs.tree.node? real).isSome := by
  unfold isThere FileSystem.present
  rw [FileSystem.node?_of_locate h]
  rfl

theorem isThere_of_error {e : AccessError} (h : fs.locate path = .error e) (he : e ≠ .nameTooLong) :
    isThere fs path = .ok false := by
  unfold isThere FileSystem.present
  rw [FileSystem.node?_of_error h he]
  rfl

theorem isThere_of_nameTooLong (h : fs.locate path = .error .nameTooLong) :
    isThere fs path = .error (.fault .nameTooLong) := by
  unfold isThere FileSystem.present FileSystem.node?
  rw [h]
  rfl

/-- What becomes of a file that is loaded if it is there. -/
theorem guarded_fails {absent : Except Failure Table} (habsent : FailsWith (fun _ => False) absent) :
    FailsWith (FileFault fs path)
      (isThere fs path >>= fun there => if there = true then ofFile fs path else absent) := by
  have hmissing : (∀ real, fs.locate path = .ok real → fs.tree.node? real = none) →
      fs.locate path ≠ .error .nameTooLong → ∀ fault, False ↔ FileFault fs path fault := by
    intro hnone hlong fault
    refine ⟨False.elim, fun h => ?_⟩
    cases h with
    | tooLong h => exact hlong h
    | content h =>
      obtain ⟨real, hreal, hsome⟩ := locate_of_read h
      rw [hnone real hreal] at hsome
      cases hsome
  cases hlocate : fs.locate path with
  | ok real =>
    rw [isThere_of_locate hlocate]
    cases hnode : fs.tree.node? real with
    | some n => exact ofFile_fails hlocate
    | none =>
      refine habsent.congr (hmissing (fun real' h => ?_) (by rw [hlocate]; nofun))
      rw [← Except.ok.inj (hlocate.symm.trans h), hnode]
  | error e =>
    by_cases hlong : e = .nameTooLong
    · subst hlong
      rw [isThere_of_nameTooLong hlocate]
      refine (FailsWith.of_fault _).congr fun fault => ⟨?_, fun h => ?_⟩
      · rintro rfl
        exact .tooLong hlocate
      · cases h with
        | tooLong => rfl
        | content h =>
          obtain ⟨real, hreal, -⟩ := locate_of_read h
          exact nomatch hlocate.symm.trans hreal
    · rw [isThere_of_error hlocate hlong]
      exact habsent.congr (hmissing (fun real h => nomatch hlocate.symm.trans h)
        (fun h => hlong (Except.error.inj (hlocate.symm.trans h))))

end File

/-! ### All stages -/

/-- The table of a project root, if there is one. -/
def projectTable (fs : FileSystem) (root : Option Path) : Except Failure Table :=
  (root.map (ofProject fs)).getD (.ok [])

/-- The table of a settings file, if one is named. -/
def namedTable (fs : FileSystem) (file : Option Path) : Except Failure Table :=
  (file.map (ofNamed fs)).getD (.ok [])

/-- What was not foreseen about loading settings, stage by stage. -/
inductive Escapes (fs : FileSystem) (root file : Option Path) (overrides : List (String × Value)) :
    Fault → Prop where
  /-- About the settings file in the project root. -/
  | project {dir : Path} {fault : Fault} :
      root = some dir → FileFault fs (dir.child fileName) fault → Escapes fs root file overrides fault
  /-- About the settings file that is named. -/
  | named {project : Table} {path : Path} {fault : Fault} :
      projectTable fs root = .ok project → file = some path → FileFault fs path fault →
      Escapes fs root file overrides fault
  /-- About the values. -/
  | values {project named : Table} {fault : Fault} :
      projectTable fs root = .ok project → namedTable fs file = .ok named →
      TableFault (merged project named overrides) fault → Escapes fs root file overrides fault

theorem projectTable_fails (fs : FileSystem) (root : Option Path) :
    FailsWith (fun fault => ∃ dir, root = some dir ∧ FileFault fs (dir.child fileName) fault)
      (projectTable fs root) := by
  cases root with
  | none => exact (FailsWith.of_ok _).congr fun fault => by simp
  | some dir => exact (guarded_fails (FailsWith.of_ok [])).congr fun fault => by simp

theorem namedTable_fails (fs : FileSystem) (file : Option Path) :
    FailsWith (fun fault => ∃ path, file = some path ∧ FileFault fs path fault)
      (namedTable fs file) := by
  cases file with
  | none => exact (FailsWith.of_ok _).congr fun fault => by simp
  | some path => exact (guarded_fails (FailsWith.of_problem (Or.inl rfl))).congr fun fault => by simp

/-- **Loading settings fails with a problem of the settings, or it meets one of the conditions that
were not foreseen**, and then it fails with just the fault that belongs to it. -/
theorem load_fails (fs : FileSystem) (root file : Option Path) (overrides : List (String × Value)) :
    FailsWith (Escapes fs root file overrides) (load fs root file overrides) := by
  refine ((projectTable_fails fs root).bind fun project _ =>
    (namedTable_fails fs file).bind fun named _ =>
      combine_fails project named overrides).congr fun fault => ⟨?_, fun h => ?_⟩
  · rintro (⟨dir, hroot, hfault⟩ | ⟨project, hproject, ⟨path, hfile, hfault⟩ | ⟨named, hnamed, hfault⟩⟩)
    · exact .project hroot hfault
    · exact .named hproject hfile hfault
    · exact .values hproject hnamed hfault
  · cases h with
    | project hroot hfault => exact Or.inl ⟨_, hroot, hfault⟩
    | named hproject hfile hfault => exact Or.inr ⟨_, hproject, Or.inl ⟨_, hfile, hfault⟩⟩
    | values hproject hnamed hfault => exact Or.inr ⟨_, hproject, Or.inr ⟨_, hnamed, hfault⟩⟩

/-- A settings file that is no text. -/
def notText : FileSystem where
  tree := ⟨[.of [fileName] (.file [0xFF])]⟩
  cwd := []

/-- **Not every failure was foreseen**: a byte that is no UTF-8 is no problem of the settings. -/
theorem load_notText :
    ¬ ∀ (fs : FileSystem) (root file : Option Path) (overrides : List (String × Value)),
      (∃ s, load fs root file overrides = .ok s) ∨
        ∃ p, load fs root file overrides = .error (.problem p) ∧
          (p.kind = .configuration ∨ p.kind = .setting) := by
  intro hall
  have hfault : load notText (some ⟨.current, []⟩) none [] = .error (.fault .notUtf8) :=
    Outcome.eq_error_of_reason? (by decide +kernel)
  rcases hall notText (some ⟨.current, []⟩) none [] with ⟨s, hs⟩ | ⟨p, hp, -⟩
  · exact nomatch hfault.symm.trans hs
  · exact nomatch hfault.symm.trans hp

/-! ### Which faults there are -/

/-- A value has no written form only because of a numeral or of the depth. -/
theorem fault_of_shownWithin {levels : Nat} {v : Value} {fault : Fault}
    (h : v.shownWithin levels = .error fault) : fault = .longNumeral ∨ fault = .tooDeep := by
  induction levels generalizing v fault with
  | zero =>
    rw [Value.shownWithin] at h
    exact Or.inr (Except.error.inj h).symm
  | succ levels ih =>
    have hitems : ∀ {items : List Value} {fault}, Value.shownItems levels items = .error fault →
        fault = .longNumeral ∨ fault = .tooDeep := by
      intro items
      induction items with
      | nil => intro fault h; rw [Value.shownItems] at h; cases h
      | cons v items ihitems =>
        intro fault h
        rw [Value.shownItems] at h
        rcases Outcome.bind_eq_error h with h | ⟨a, h⟩
        · exact ih h
        · exact ihitems (Outcome.eq_error_of_bind_pure h)
    have hentries : ∀ {entries : List (String × Value)} {fault},
        Value.shownEntries levels entries = .error fault →
        fault = .longNumeral ∨ fault = .tooDeep := by
      intro entries
      induction entries with
      | nil => intro fault h; rw [Value.shownEntries] at h; cases h
      | cons e entries ihentries =>
        intro fault h
        rw [Value.shownEntries] at h
        rcases Outcome.bind_eq_error h with h | ⟨a, h⟩
        · exact ih h
        · exact ihentries (Outcome.eq_error_of_bind_pure h)
    cases v with
    | integer n =>
      rw [Value.shownWithin, Value.numeral] at h
      split at h
      · cases h
      · exact Or.inl (Except.error.inj h).symm
    | truth b => cases b <;> · rw [Value.shownWithin] at h; cases h
    | list items | tuple items =>
      rw [Value.shownWithin] at h
      exact hitems (Outcome.eq_error_of_bind_pure h)
    | table entries =>
      rw [Value.shownWithin] at h
      exact hentries (Outcome.eq_error_of_bind_pure h)
    | _ => rw [Value.shownWithin] at h; cases h

/-- The faults that loading may fail with. -/
def loadingFaults : List Fault := [.nameTooLong, .notUtf8, .longNumeral, .tooDeep, .notItems]

theorem mem_loadingFaults_of_shown {v : Value} {fault : Fault} (h : v.shown = .error fault) :
    fault ∈ loadingFaults := by
  rcases fault_of_shownWithin h with rfl | rfl <;> decide

theorem ContentFault.mem {bytes : List UInt8} {fault : Fault} (h : ContentFault bytes fault) :
    fault ∈ loadingFaults := by
  cases h <;> decide

theorem FileFault.mem {fs : FileSystem} {path : Path} {fault : Fault} (h : FileFault fs path fault) :
    fault ∈ loadingFaults := by
  cases h with
  | tooLong => decide
  | content _ hcontent => exact hcontent.mem

theorem TableFault.mem {t : Table} {fault : Fault} (h : TableFault t fault) :
    fault ∈ loadingFaults := by
  cases h with
  | unknown _ _ _ hshown => exact mem_loadingFaults_of_shown hshown
  | unfit _ hfirst =>
    obtain ⟨pre, f, post, -, -, -, hfault⟩ := hfirst
    cases hfault with
    | bare => decide
    | unwritten _ hshown => exact mem_loadingFaults_of_shown hshown

/-- **Nothing else stops loading**: of all faults, only these few come up. -/
theorem Escapes.mem {fs : FileSystem} {root file : Option Path} {overrides : List (String × Value)}
    {fault : Fault} (h : Escapes fs root file overrides fault) : fault ∈ loadingFaults := by
  cases h with
  | project _ hfault => exact hfault.mem
  | named _ _ hfault => exact hfault.mem
  | values _ _ hfault => exact hfault.mem

end Unimported.Settings
