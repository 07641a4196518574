import Unimported.Proofs.Settings.Accepted

/-!
# Values that fit a setting

A setting has values that it may have, and the others are refused: with a problem that tells the
value, if that is possible.  It is not when the value has no written form, nor when extensions are
looked for in a value that holds no items; then a fault takes the place of the problem.  Values are
checked in a fixed order, and the first that does not fit is the one that is told.

## Main definitions

* `Settings.Fits` — the values that a setting may have.
* `Settings.ValueFault` — what stands in the way of refusing a value.
* `Settings.Judged` — what becomes of a value.
* `Settings.checkOrder`, `Settings.refusal` — in which order values are checked, and what is said.

## Main results

* `Settings.judged_acceptName`, `Settings.judged_acceptExtensions`, `Settings.judged_acceptVerbosity`
  — each setting judges its values.
* `Settings.reason?_ofTable` — **settings are refused because of the first value that does not fit.**
-/

namespace Unimported.Settings

open Outcome (reason?)

/-! ### Values that fit -/

/-- The values that name something in the project. -/
def FitsName (v : Value) : Prop := ∃ name, v = .text name ∧ IsInside name

/-- The values that name extensions: there is something in them, and going through them gives texts
that start with a dot. -/
def FitsExtensions (v : Value) : Prop :=
  v.isTrue = true ∧ ∃ items, v.elements? = some items ∧
    ∀ i ∈ items, ∃ s, i = .text s ∧ Text.opens "." s = true

/-- The values that a setting may have. -/
def Fits : Field → Value → Prop
  | .sourceExtensions, v | .pageExtensions, v => FitsExtensions v
  | .verbosity, v => ∃ verbosity : Verbosity, v = .text verbosity.name
  | .skipDirs, _ => True
  | _, v => FitsName v

theorem fits_eq_fitsName {f : Field} (hf : f ∈ nameFields) (v : Value) : Fits f v = FitsName v := by
  simp only [nameFields, List.mem_cons, List.not_mem_nil, or_false] at hf
  rcases hf with rfl | rfl | rfl | rfl | rfl | rfl | rfl | rfl <;> rfl

/-- The settings that name extensions. -/
def extensionFields : List Field := [.sourceExtensions, .pageExtensions]

theorem fits_eq_fitsExtensions {f : Field} (hf : f ∈ extensionFields) (v : Value) :
    Fits f v = FitsExtensions v := by
  simp only [extensionFields, List.mem_cons, List.not_mem_nil, or_false] at hf
  rcases hf with rfl | rfl <;> rfl

/-- Extensions are looked for in a value that is something but holds no items. -/
def IsBare (f : Field) (v : Value) : Prop :=
  f ∈ extensionFields ∧ v.isTrue = true ∧ v.elements? = none

/-- What was not foreseen about a value that is refused: it holds no items, or it has no written form
to be told in. -/
inductive ValueFault (f : Field) (v : Value) : Fault → Prop where
  /-- The value holds no items. -/
  | bare : IsBare f v → ValueFault f v .notItems
  /-- The value has no written form. -/
  | unwritten {fault : Fault} : ¬ IsBare f v → v.shown = .error fault → ValueFault f v fault

/-- A refusal fails with a fault just when the value has no written form. -/
theorem rejection_eq_fault {key reason : String} {v : Value} {fault : Fault} :
    rejection key v reason = .fault fault ↔ v.shown = .error fault := by
  unfold rejection
  cases v.shown <;> simp

theorem rejection_eq_problem {key reason : String} {v : Value} {p : Problem}
    (h : rejection key v reason = .problem p) : p.kind = .setting := by
  unfold rejection at h
  split at h
  · rw [← Failure.problem.inj h]
    rfl
  · cases h

/-! ### What is said of a value -/

/-- What becomes of a value: it is accepted if it fits, and refused if it does not. -/
inductive Judged (f : Field) (v : Value) {α : Type} : Except Failure α → Prop where
  /-- The value fits. -/
  | accepted {a : α} : Fits f v → Judged f v (.ok a)
  /-- The value does not fit. -/
  | refused (reason : String) : ¬ Fits f v → ¬ IsBare f v → Judged f v (reject f v reason)
  /-- The value cannot be gone through. -/
  | bare : ¬ Fits f v → IsBare f v → Judged f v (.error (.fault .notItems))

namespace Judged

variable {f : Field} {v : Value} {α : Type} {x : Except Failure α}

theorem reason?_eq_none (h : Judged f v x) : reason? x = none ↔ Fits f v := by
  cases h with
  | accepted hfits => exact ⟨fun _ => hfits, fun _ => rfl⟩
  | refused reason hnot => exact ⟨fun h => (nomatch h), fun h => absurd h hnot⟩
  | bare hnot => exact ⟨fun h => (nomatch h), fun h => absurd h hnot⟩

theorem reason?_eq_fault (h : Judged f v x) {fault : Fault} :
    reason? x = some (.fault fault) ↔ ¬ Fits f v ∧ ValueFault f v fault := by
  cases h with
  | accepted hfits => exact ⟨fun h => (nomatch h), fun h => absurd hfits h.1⟩
  | refused reason hnot hbare =>
    rw [reject, reason?, Option.some.injEq, rejection_eq_fault]
    constructor
    · exact fun h => ⟨hnot, .unwritten hbare h⟩
    · rintro ⟨-, hfault⟩
      cases hfault with
      | bare h => exact absurd h hbare
      | unwritten _ h => exact h
  | bare hnot hbare =>
    rw [reason?, Option.some.injEq, Failure.fault.injEq]
    constructor
    · rintro rfl
      exact ⟨hnot, .bare hbare⟩
    · rintro ⟨-, hfault⟩
      cases hfault with
      | bare _ => rfl
      | unwritten h _ => exact absurd hbare h

theorem kind_of_problem (h : Judged f v x) {p : Problem} (hp : reason? x = some (.problem p)) :
    p.kind = .setting := by
  cases h with
  | accepted => cases hp
  | refused reason => exact rejection_eq_problem (Option.some.inj hp)
  | bare => cases hp

end Judged

/-- A value that is accepted when it passes a test. -/
theorem judged_ite {f : Field} {v : Value} {α : Type} {b : Bool} {a : α} {reason : String}
    (hbare : ¬ IsBare f v) (h : Fits f v ↔ b = true) :
    Judged f v (if b = true then .ok a else reject f v reason) := by
  by_cases hb : b = true
  · rw [if_pos hb]
    exact .accepted (h.mpr hb)
  · rw [if_neg hb]
    exact .refused _ (fun hfits => hb (h.mp hfits)) hbare

theorem judged_bare {f : Field} {v : Value} {α : Type} (h : IsBare f v) :
    Judged f v (.error (.fault .notItems) : Except Failure α) := by
  refine .bare (fun hfits => ?_) h
  rw [fits_eq_fitsExtensions h.1] at hfits
  obtain ⟨-, items, hitems, -⟩ := hfits
  rw [h.2.2] at hitems
  cases hitems

theorem judged_acceptName {f : Field} (hf : f ∈ nameFields) (v : Value) :
    Judged f v (acceptName f v) := by
  have hbare : ¬ IsBare f v := by
    rintro ⟨he, -⟩
    revert hf he
    cases f <;> decide
  have hfits : ∀ {name}, acceptName f v = .ok name → Fits f v := by
    intro name h
    obtain ⟨rfl, hname⟩ := acceptName_eq_ok h
    rw [fits_eq_fitsName hf]
    exact ⟨name, rfl, hname⟩
  by_cases h : Fits f v
  · rw [fits_eq_fitsName hf] at h
    obtain ⟨name, rfl, hname⟩ := h
    rw [acceptName_of_inside hname]
    exact .accepted (hfits (acceptName_of_inside hname))
  · revert hfits
    unfold acceptName
    split
    · split
      · exact fun _ => .refused _ h hbare
      · split
        · exact fun _ => .refused _ h hbare
        · exact fun hfits => .accepted (hfits rfl)
    · exact fun _ => .refused _ h hbare

/-- A sequence is one of extensions if all its items are texts that start with a dot. -/
theorem isSome_mapM_dotted? {items : List Value} :
    (items.mapM dotted?).isSome = true ↔
      ∀ i ∈ items, ∃ s, i = .text s ∧ Text.opens "." s = true := by
  have hdotted : ∀ i, (dotted? i).isSome = true ↔ ∃ s, i = .text s ∧ Text.opens "." s = true := by
    intro i
    unfold dotted?
    cases i <;> simp [Value.text?]
  induction items with
  | nil => simp
  | cons i items ih =>
    rw [List.forall_mem_cons, ← hdotted i, ← iff_iff_eq.mp ih, List.mapM_cons]
    cases dotted? i <;> cases items.mapM dotted? <;> simp

theorem opens_dot_singleton (c : Char) :
    Text.opens "." (String.singleton c) = true ↔ c = '.' := by
  have hdot : ".".toList = ['.'] := rfl
  rw [Text.opens, hdot, String.toList_singleton, List.isPrefixOf_iff_prefix]
  simp [eq_comm]

/-- Whether a value with items names extensions is told by its items. -/
theorem fits_iff_of_elements? {f : Field} (hf : f ∈ extensionFields) {v : Value}
    (htrue : v.isTrue = true) {items : List Value} (hitems : v.elements? = some items) :
    Fits f v ↔ ∀ i ∈ items, ∃ s, i = .text s ∧ Text.opens "." s = true := by
  rw [fits_eq_fitsExtensions hf, FitsExtensions, hitems]
  simp [htrue]

theorem judged_acceptExtensions {f : Field} (hf : f ∈ extensionFields) (v : Value) :
    Judged f v (acceptExtensions f v) := by
  unfold acceptExtensions
  by_cases htrue : v.isTrue = true
  · -- going through the value decides
    have hfits {items : List Value} (h : v.elements? = some items) :=
      fits_iff_of_elements? hf htrue h
    have hbare {items : List Value} (h : v.elements? = some items) : ¬ IsBare f v :=
      fun hbare => Option.some_ne_none items (h.symm.trans hbare.2.2)
    simp only [htrue, if_true]
    cases v with
    | text s =>
      refine judged_ite (hbare rfl) ((hfits rfl).trans ?_)
      simp only [List.forall_mem_map, List.all_eq_true, decide_eq_true_eq]
      refine forall₂_congr fun c _ => ?_
      rw [← opens_dot_singleton c]
      simp
    | list items | tuple items =>
      have hall := (hfits rfl).trans isSome_mapM_dotted?.symm
      simp only
      cases hm : items.mapM dotted? with
      | some suffixes =>
        rw [hm] at hall
        exact .accepted (hall.mpr rfl)
      | none =>
        rw [hm] at hall
        exact .refused _ (fun h => Bool.false_ne_true (hall.mp h)) (hbare rfl)
    | table entries =>
      refine judged_ite (hbare rfl) ((hfits rfl).trans ?_)
      rw [List.forall_mem_map, List.all_eq_true]
      simp
    | null | truth | integer | real | date | time | moment =>
      exact judged_bare ⟨hf, htrue, rfl⟩
  · simp only [htrue]
    exact .refused _ (fun h => htrue (fits_eq_fitsExtensions hf v ▸ h).1) fun h => htrue h.2.1

theorem name_of_ofName? {s : String} {verbosity : Verbosity}
    (h : Verbosity.ofName? s = some verbosity) : verbosity.name = s := by
  unfold Verbosity.ofName? at h
  split at h <;> cases h <;> rfl

theorem judged_acceptVerbosity (v : Value) : Judged .verbosity v (acceptVerbosity v) := by
  have hbare : ¬ IsBare .verbosity v := fun h => absurd h.1 (by decide)
  by_cases h : Fits .verbosity v
  · obtain ⟨verbosity, rfl⟩ := id h
    rw [acceptVerbosity_name]
    exact .accepted h
  · unfold acceptVerbosity
    split
    · next verbosity hname =>
      obtain ⟨s, hs, hofName⟩ := Option.bind_eq_some_iff.mp hname
      refine absurd ⟨verbosity, ?_⟩ h
      rw [name_of_ofName? hofName]
      cases v <;> cases hs
      rfl
    · exact .refused _ h hbare

/-! ### The first value that does not fit -/

/-- The settings in the order in which their values are checked; of the names to skip nothing is
asked. -/
def checkOrder : List Field := nameFields ++ extensionFields ++ [.verbosity]

/-- What is said against a value of a setting. -/
def refusal (f : Field) (v : Value) : Option Failure :=
  match f with
  | .sourceExtensions | .pageExtensions => reason? (acceptExtensions f v)
  | .verbosity => reason? (acceptVerbosity v)
  | .skipDirs => none
  | _ => reason? (acceptName f v)

theorem refusal_eq (f : Field) (hf : f ∈ checkOrder) (v : Value) :
    ∃ (α : Type) (x : Except Failure α), Judged f v x ∧ refusal f v = reason? x := by
  simp only [checkOrder, List.mem_append, List.mem_singleton] at hf
  rcases hf with (hname | hext) | rfl
  · refine ⟨_, _, judged_acceptName hname v, ?_⟩
    simp only [nameFields, List.mem_cons, List.not_mem_nil, or_false] at hname
    rcases hname with rfl | rfl | rfl | rfl | rfl | rfl | rfl | rfl <;> rfl
  · refine ⟨_, _, judged_acceptExtensions hext v, ?_⟩
    simp only [extensionFields, List.mem_cons, List.not_mem_nil, or_false] at hext
    rcases hext with rfl | rfl <;> rfl
  · exact ⟨_, _, judged_acceptVerbosity v, rfl⟩

/-- A sequence whose later steps fail for the first reason that one of them has does so as a whole. -/
theorem reason?_bind_findSome? {α β γ ε : Type} {x : Except ε α} {k : α → Except ε β}
    {g : γ → Option ε} {c : γ} {cs : List γ} (hx : reason? x = g c)
    (hk : ∀ a, reason? (k a) = cs.findSome? g) : reason? (x >>= k) = (c :: cs).findSome? g := by
  rw [List.findSome?_cons, ← hx]
  cases x with
  | error e => rfl
  | ok a => exact hk a

/-- **Settings are refused because of the first value that does not fit**, if every name is that of a
setting. -/
theorem reason?_ofTable {t : Table} (ht : ∀ name ∈ t.names, name ∈ Field.keys) :
    reason? (ofTable t) = checkOrder.findSome? fun f => refusal f (given t f) := by
  have hknown : (t.names.find? fun name => !Field.keys.contains name) = none := by
    rw [List.find?_eq_none]
    intro name hname
    simpa using ht name hname
  unfold ofTable
  rw [hknown]
  exact reason?_bind_findSome? rfl fun _ => reason?_bind_findSome? rfl fun _ =>
    reason?_bind_findSome? rfl fun _ => reason?_bind_findSome? rfl fun _ =>
    reason?_bind_findSome? rfl fun _ => reason?_bind_findSome? rfl fun _ =>
    reason?_bind_findSome? rfl fun _ => reason?_bind_findSome? rfl fun _ =>
    reason?_bind_findSome? rfl fun _ => reason?_bind_findSome? rfl fun _ =>
    reason?_bind_findSome? rfl fun _ => rfl

end Unimported.Settings
