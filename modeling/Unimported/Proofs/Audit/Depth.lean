import Unimported.Proofs.Audit.Sections
import Unimported.Proofs.Walk.Shape

/-!
# Audits whose walks may go to other depths

How deep a walk may go depends on how an audit is called.  It makes no difference to what the audit
gives, as long as the walk comes to no directory that is too deep.

## Main definitions

* `Audit.KeepsWithin` — the walk of an audit comes to no directory that is too deep.

## Main results

* `Audit.ofSettings_goingTo` — **how deep a walk may go makes no difference** to an audit whose walk
  keeps within the bound.
-/

namespace Unimported

variable {fs : FileSystem} {s : Settings} {d : Nat}

/-- Settings are loaded alike, however deep walks may go. -/
theorem Settings.load_goingTo (root file : Option Path) (overrides : List (String × Value)) :
    Settings.load (fs.goingTo d) root file overrides = Settings.load fs root file overrides := rfl

namespace Usage

variable {r : Resolver} {isSource : String → Except Fault Bool}

theorem Tally.addAll_goingTo (t : Tally) (files : List Path) :
    t.addAll (fs.goingTo d) r isSource files = t.addAll fs r isSource files := by
  induction files generalizing t with
  | nil => rfl
  | cons p files ih =>
    unfold Tally.addAll
    simp only [ih]
    rfl

theorem gather_goingTo (files : List Path) :
    gather (fs.goingTo d) r isSource files = gather fs r isSource files := by
  unfold gather
  rw [Tally.addAll_goingTo]

end Usage

namespace Audit

variable {root source : Path} {skip : List String} {checks : List Check}

/-- The walk of an audit comes to no directory that lies more than so many levels below the source
root. -/
def KeepsWithin (fs : FileSystem) (root : Path) (s : Settings) (depth : Nat) : Prop :=
  ∀ real skip, fs.resolve root = .ok real → Walk.skipNames s.skipDirs = .ok skip →
    ∀ dir, Walk.ComesTo fs skip (sourceRoot real s) dir →
      dir.segments.length ≤ (sourceRoot real s).segments.length + depth

theorem run_goingTo (v : Survey) (c : Check) : c.run ⟨fs.goingTo d, s, v⟩ = c.run ⟨fs, s, v⟩ := by
  cases c <;> rfl

theorem ofSource_goingTo (h : Walk.traverse (fs.goingTo d) s.skipDirs source =
      Walk.traverse fs s.skipDirs source) :
    ofSource (fs.goingTo d) source s checks = ofSource fs source s checks := by
  unfold ofSource Survey.make
  simp only [h, Usage.gather_goingTo, runChecks_eq (run_goingTo _)]
  rfl

/-- **How deep a walk may go makes no difference to an audit** whose walk keeps within the bound. -/
theorem ofSettings_goingTo (h : KeepsWithin fs root s (min fs.deepest d)) :
    (ofSettings (fs.goingTo d) root s checks).outcome = (ofSettings fs root s checks).outcome := by
  refine Outcome.traced_bind_congr rfl fun real hreal => ?_
  refine Outcome.traced_bind_congr rfl fun isDir _ => ?_
  cases isDir with
  | false => rfl
  | true =>
    refine congrArg Traced.outcome (ofSource_goingTo ?_)
    unfold Walk.traverse Walk.trail
    cases hskip : Walk.skipNames s.skipDirs with
    | error fault => rfl
    | ok skip =>
      have hdepth := h real skip (Outcome.ofFault_eq_ok.mp hreal) hskip
      simp only [Walk.ofRoot_goingTo hdepth]

end Audit

end Unimported
