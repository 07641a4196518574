import Unimported.Journal

/-!
# Outcomes of sequences

A sequence of steps succeeds when its steps do, one after the other.  Whether a step can fail or
also leaves records behind makes no difference to this.

* `Outcome.bind_eq_ok`, `Outcome.traced_bind_eq_ok` — two steps that succeed.
* `Outcome.bind_eq_error` — one of two steps that fails.
* `Outcome.exists_ok_of_isSome`, `Outcome.exists_ok_of_map` — what was evaluated did not fail.
* `Outcome.reason?` — the reason for a failure.
* `Outcome.traced_bind_congr` — sequences whose steps have the same outcomes.
* `Outcome.SameFailure` — outcomes that fail for the same reason, or not at all.
* `Outcome.ofFault_eq_ok`, `Outcome.ofFault_eq_error` — a step that only a fault can stop.
* `Outcome.FailsOnly` — outcomes that fail for reasons of one kind, if they fail.
-/

namespace Unimported.Outcome

variable {α β ε : Type}

theorem bind_eq_ok {x : Except ε α} {f : α → Except ε β} {b : β} :
    (x >>= f) = .ok b ↔ ∃ a, x = .ok a ∧ f a = .ok b := by
  cases x with
  | error e => simp [bind, Except.bind]
  | ok a => simp [bind, Except.bind]

theorem bind_eq_error {x : Except ε α} {f : α → Except ε β} {e : ε} (h : (x >>= f) = .error e) :
    x = .error e ∨ ∃ a, f a = .error e := by
  cases x with
  | error e' => exact Or.inl (congrArg Except.error (Except.error.inj h))
  | ok a => exact Or.inr ⟨a, h⟩

/-- What is built from a result fails as it does. -/
theorem eq_error_of_bind_pure {x : Except ε α} {f : α → β} {e : ε}
    (h : (x >>= fun a => pure (f a)) = .error e) : x = .error e := by
  cases x with
  | error e' => exact congrArg Except.error (Except.error.inj h)
  | ok a => cases h

theorem pure_eq_ok {a b : α} : (pure a : Except ε α) = .ok b ↔ a = b := by
  simp [pure, Except.pure]

theorem eq_ok_of_toOption {x : Except ε α} {a : α} (h : x.toOption = some a) : x = .ok a := by
  cases x with
  | error e => cases h
  | ok b => rw [Option.some.inj h]

theorem exists_ok_of_isSome {x : Except ε α} (h : x.toOption.isSome = true) : ∃ a, x = .ok a := by
  obtain ⟨a, ha⟩ := Option.isSome_iff_exists.mp h
  exact ⟨a, eq_ok_of_toOption ha⟩

theorem exists_ok_of_map {x : Except ε α} {f : α → β} {b : β} (h : x.toOption.map f = some b) :
    ∃ a, x = .ok a ∧ f a = b := by
  obtain ⟨a, ha, hb⟩ := Option.map_eq_some_iff.mp h
  exact ⟨a, eq_ok_of_toOption ha, hb⟩

/-- The reason for a failure. -/
def reason? : Except ε α → Option ε
  | .error e => some e
  | .ok _ => none

theorem eq_error_of_reason? {x : Except ε α} {e : ε} (h : reason? x = some e) : x = .error e := by
  cases x with
  | error e' => rw [Option.some.inj h]
  | ok a => cases h

theorem traced_bind_eq_ok {x : Traced α} {f : α → Traced β} {b : β} :
    (x >>= f).outcome = .ok b ↔ ∃ a, x.outcome = .ok a ∧ (f a).outcome = .ok b := by
  rw [Traced.outcome_bind]
  exact bind_eq_ok

theorem traced_pure_eq_ok {a b : α} : (pure a : Traced α).outcome = .ok b ↔ a = b := by
  rw [Traced.outcome_pure, Except.ok.injEq]

theorem traced_bind_eq_error {x : Traced α} {f : α → Traced β} {e : Failure}
    (h : x.outcome = .error e) : (x >>= f).outcome = .error e := by
  rw [Traced.outcome_bind, h]
  rfl

/-- What a sequence gives is told by what its steps give. -/
theorem traced_bind_congr {x y : Traced α} {f g : α → Traced β} (h : x.outcome = y.outcome)
    (hf : ∀ a, y.outcome = .ok a → (f a).outcome = (g a).outcome) :
    (x >>= f).outcome = (y >>= g).outcome := by
  rw [Traced.outcome_bind, Traced.outcome_bind, h]
  cases hy : y.outcome with
  | error e => rfl
  | ok a => exact hf a hy

/-- Two outcomes fail for the same reason, or not at all. -/
def SameFailure {γ δ : Type} (x : Except ε γ) (y : Except ε δ) : Prop :=
  ∀ e, x = .error e ↔ y = .error e

theorem sameFailure_of_ok {γ δ : Type} (c : γ) (d : δ) :
    SameFailure (.ok c : Except ε γ) (.ok d : Except ε δ) := fun _ => by simp

theorem sameFailure_of_exists {γ δ : Type} {x : Except ε γ} {y : Except ε δ} (hx : ∃ c, x = .ok c)
    (hy : ∃ d, y = .ok d) : SameFailure x y := by
  obtain ⟨c, rfl⟩ := hx
  obtain ⟨d, rfl⟩ := hy
  exact sameFailure_of_ok c d

theorem SameFailure.of_eq {x y : Except ε α} (h : x = y) : SameFailure x y := fun _ => by rw [h]

/-- What fails for the same reason as something that succeeds succeeds. -/
theorem SameFailure.exists_ok {γ δ : Type} {x : Except ε γ} {y : Except ε δ} (h : SameFailure x y)
    {d : δ} (hy : y = .ok d) : ∃ c, x = .ok c := by
  cases x with
  | ok c => exact ⟨c, rfl⟩
  | error e =>
    have herror := (h e).mp rfl
    rw [hy] at herror
    cases herror

/-- Sequences fail for the same reason if their steps do. -/
theorem SameFailure.bind {γ δ : Type} {x : Traced α} {y : Traced β} {f : α → Traced γ}
    {g : β → Traced δ} (h : SameFailure x.outcome y.outcome)
    (hfg : ∀ a b, x.outcome = .ok a → y.outcome = .ok b →
      SameFailure (f a).outcome (g b).outcome) :
    SameFailure (x >>= f).outcome (y >>= g).outcome := by
  rw [Traced.outcome_bind, Traced.outcome_bind]
  cases hx : x.outcome with
  | ok a =>
    obtain ⟨b, hb⟩ := SameFailure.exists_ok (fun e => (h e).symm) hx
    rw [hb]
    exact hfg a b hx hb
  | error e =>
    rw [(h e).mp hx]
    exact fun _ => by simp [Except.bind]

/-- A step that cannot fail adds no reason. -/
theorem SameFailure.bind_ok {x y : Traced α} {f : α → Traced β}
    (h : SameFailure x.outcome y.outcome) (hf : ∀ a, ∃ b, (f a).outcome = .ok b) :
    SameFailure (x >>= f).outcome (y >>= f).outcome :=
  h.bind fun a b _ _ => sameFailure_of_exists (hf a) (hf b)

/-- After steps with the same outcome, only what comes next can make a difference. -/
theorem SameFailure.bind_of_eq {γ : Type} {x y : Traced α} {f : α → Traced β} {g : α → Traced γ}
    (h : x.outcome = y.outcome)
    (hfg : ∀ a, y.outcome = .ok a → SameFailure (f a).outcome (g a).outcome) :
    SameFailure (x >>= f).outcome (y >>= g).outcome :=
  (SameFailure.of_eq h).bind fun a b ha hb => by
    obtain rfl := Except.ok.inj (ha.symm.trans (h.trans hb))
    exact hfg a hb

theorem ofFault_eq_ok {x : Except Fault α} {a : α} :
    (Traced.ofFault x).outcome = .ok a ↔ x = .ok a := by
  cases x with
  | error e =>
    constructor
    · intro h
      cases h
    · intro h
      cases h
  | ok b =>
    have hb : (Traced.ofFault (.ok b : Except Fault α)).outcome = .ok b := rfl
    rw [hb, Except.ok.injEq, Except.ok.injEq]

/-- A step that only a fault can stop stops with this fault. -/
theorem ofFault_eq_error {x : Except Fault α} {e : Failure} :
    (Traced.ofFault x).outcome = .error e ↔ ∃ f, x = .error f ∧ e = .fault f := by
  cases x with
  | ok a =>
    constructor
    · intro h
      cases h
    · rintro ⟨f, h, -⟩
      cases h
  | error f =>
    have hf : (Traced.ofFault (.error f : Except Fault α)).outcome = .error (.fault f) := rfl
    rw [hf, Except.error.injEq]
    constructor
    · rintro rfl
      exact ⟨f, rfl, rfl⟩
    · rintro ⟨f', h, rfl⟩
      rw [Except.error.inj h]

/-! ### Reasons for failures -/

/-- An outcome that fails for reasons of one kind, if it fails. -/
def FailsOnly (P : ε → Prop) (x : Except ε α) : Prop := ∀ e, x = .error e → P e

section FailsOnly

variable {P : ε → Prop}

theorem failsOnly_of_exists {x : Except ε α} (h : ∃ a, x = .ok a) : FailsOnly P x := by
  obtain ⟨a, rfl⟩ := h
  intro e he
  cases he

/-- A sequence fails for reasons for which its steps do. -/
theorem FailsOnly.bind {P : Failure → Prop} {x : Traced α} {f : α → Traced β}
    (hx : FailsOnly P x.outcome) (hf : ∀ a, x.outcome = .ok a → FailsOnly P (f a).outcome) :
    FailsOnly P (x >>= f).outcome := by
  intro e he
  rw [Traced.outcome_bind] at he
  cases ha : x.outcome with
  | error e' =>
    rw [ha] at he
    exact Except.error.inj he ▸ hx e' ha
  | ok a =>
    rw [ha] at he
    exact hf a ha e he

theorem failsOnly_ofFault {P : Failure → Prop} {x : Except Fault α}
    (h : ∀ f, x = .error f → P (.fault f)) : FailsOnly P (Traced.ofFault x).outcome := by
  intro e he
  obtain ⟨f, hf, rfl⟩ := ofFault_eq_error.mp he
  exact h f hf

end FailsOnly

end Unimported.Outcome
