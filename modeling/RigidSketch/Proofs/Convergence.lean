import RigidSketch.Proofs.Descending
import RigidSketch.Proofs.Ordering
import RigidSketch.Proofs.Session

/-! The answers of least squares. Whatever exit a descent takes, it has looked at the residuals of
the variables that it answers with, and none of them is too large. An undefined residual is not
seen. -/

namespace RigidSketch

open Binary64

namespace LeastSquares

variable {sys : System Float} {solver : LinearSolver} {settings : Settings}

theorem isSolution_of_answer {x y : Array Float} (h : sys.answer settings x = .ok y) :
    sys.isSolution settings y = true := by
  unfold System.answer at h
  split at h
  · rename_i hx
    cases h
    exact hx
  · cases h

theorem isSolution_of_descend {rounds : Nat} {x y : Array Float} {damping : Float}
    (h : descend sys solver settings rounds x damping = .ok y) :
    sys.isSolution settings y = true := by
  induction rounds generalizing x damping with
  | zero => exact isSolution_of_answer h
  | succ rounds ih =>
    unfold descend at h
    split at h
    · rename_i hx
      cases h
      exact hx
    · dsimp only at h
      split at h
      · cases h
      · cases h
      · cases h
      · split at h
        · exact isSolution_of_answer h
        · exact ih h

theorem isSolution_of_solve {x : Array Float} (h : sys.solve solver settings = .ok x) :
    sys.isSolution settings x = true := by
  unfold System.solve at h
  split at h
  · exact isSolution_of_answer h
  · split at h
    · cases h
    · exact isSolution_of_descend h

theorem isSolution_iff {x : Array Float} :
    sys.isSolution settings x = true ↔ 0 ≤ settings.residualTolerance ∧
      ∀ r ∈ sys.residuals x, r.isNaN = true ∨ r.abs ≤ settings.residualTolerance :=
  decide_eq_true_iff.trans largest_le_iff

theorem isNaN_of_abs_le {r t : Float} (h : r.abs ≤ t) : r.isNaN = false := by
  obtain ⟨a, _, ha, _⟩ := Binary64.le_iff.mp h
  exact (isNaN_abs r).symm.trans (isNaN_eq_false ha)

/-- Of an answer, every residual that is defined is small. They all are just if none is
undefined. -/
theorem System.residuals_of_solve {x : Array Float} (h : sys.solve solver settings = .ok x) :
    (∀ r ∈ sys.residuals x, r.isNaN = false → r.abs ≤ settings.residualTolerance) ∧
    ((∀ r ∈ sys.residuals x, r.abs ≤ settings.residualTolerance) ↔
      ∀ r ∈ sys.residuals x, r.isNaN = false) := by
  have hsmall : ∀ r ∈ sys.residuals x, r.isNaN = false → r.abs ≤ settings.residualTolerance := by
    intro r hr hdefined
    rcases (isSolution_iff.mp (isSolution_of_solve h)).2 r hr with hnan | hle
    · exact absurd (hdefined.symm.trans hnan) Bool.false_ne_true
    · exact hle
  exact ⟨hsmall, fun hall r hr => isNaN_of_abs_le (hall r hr),
    fun hdefined r hr => hsmall r hr (hdefined r hr)⟩

end LeastSquares

namespace Sketch

open LeastSquares

/-- A solve of the sketch comes to a relaxation by such a system. -/
def Relaxes (solver : LinearSolver) (s : Sketch) (P : Settings → System Float → Prop) : Prop :=
  ∃ p ∈ s.prepared.points solver, p.stage = .relaxing ∧ 1 < p.sketch.clusters.length ∧
    ∃ members ∈ p.sketch.linkMembers?, ∃ sys ∈ p.sketch.linkSystem? members,
      P p.sketch.settings sys

theorem Relaxes.imp {solver : LinearSolver} {s : Sketch} {P Q : Settings → System Float → Prop}
    (h : s.Relaxes solver P) (hPQ : ∀ settings sys, P settings sys → Q settings sys) :
    s.Relaxes solver Q := by
  obtain ⟨p, hp, hstage, hmany, members, hm, sys, hsys, hP⟩ := h
  exact ⟨p, hp, hstage, hmany, members, hm, sys, hsys, hPQ _ _ hP⟩

end Sketch

/-- A point to hang from two fixed ones, drawn almost on the line between them. -/
def Call.garland : List Call :=
  [addPoint true 0 0, addPoint true 10 0, addPoint false 6 0.01, constrain .distance ⟨0⟩ ⟨2⟩ 6,
    constrain .distance ⟨1⟩ ⟨2⟩ 6]

namespace Sketch

open LeastSquares

theorem residuals_of_solve_garland :
    (Call.runAll solveLinear Call.garland {}).Relaxes solveLinear fun settings sys =>
      ∃ x, sys.solve solveLinear settings = .ok x ∧ sys.residuals x ≠ [] ∧
        ∀ r ∈ sys.residuals x, r.abs ≤ settings.residualTolerance := by
  have hdefined : (Call.runAll solveLinear Call.garland {}).Relaxes solveLinear fun settings sys =>
      ∃ x ∈ (sys.solve solveLinear settings).toOption, sys.residuals x ≠ [] ∧
        ∀ r ∈ sys.residuals x, r.isNaN = false := by
    unfold Relaxes
    decide +kernel
  refine hdefined.imp fun settings sys ⟨x, hx, hne, hall⟩ => ?_
  have hsolve := eq_ok_of_mem_toOption hx
  exact ⟨x, hsolve, hne, (System.residuals_of_solve hsolve).2.mpr hall⟩

end Sketch

/-- Two braces on a common end that is not quite where both can have it, and a chain whose middle
has no place. -/
def Call.adrift : List Call :=
  [addPoint true 0 0, addPoint true 6 0, addPoint false 4.5 2, addPoint false 7 5,
    addPoint false 1 4, addPoint true 7 5, addPoint false (0 / 0) 4, addPoint true 5 5,
    constrain .distance ⟨1⟩ ⟨2⟩ 5, constrain .distance ⟨1⟩ ⟨3⟩ 5, constrain .distance ⟨2⟩ ⟨3⟩ 4,
    constrain .distance ⟨0⟩ ⟨2⟩ 5, constrain .distance ⟨0⟩ ⟨4⟩ 4, constrain .distance ⟨2⟩ ⟨4⟩ 3,
    constrain .distance ⟨5⟩ ⟨6⟩ 1, constrain .distance ⟨6⟩ ⟨7⟩ 1]

namespace Sketch

open LeastSquares

/-- The answer for the braces counts for the chain as well, whose residuals are undefined. -/
theorem undefined_residual_adrift :
    (Call.runAll solveLinear Call.adrift {}).Relaxes solveLinear fun settings sys =>
      ∃ x, sys.solve solveLinear settings = .ok x ∧
        ∃ r ∈ sys.residuals x, ¬ r.abs ≤ settings.residualTolerance := by
  have hundefined : (Call.runAll solveLinear Call.adrift {}).Relaxes solveLinear fun settings sys =>
      ∃ x ∈ (sys.solve solveLinear settings).toOption,
        ∃ r ∈ sys.residuals x, ¬ r.abs ≤ settings.residualTolerance := by
    unfold Relaxes
    decide +kernel
  exact hundefined.imp fun settings sys ⟨x, hx, hr⟩ => ⟨x, eq_ok_of_mem_toOption hx, hr⟩

end Sketch

end RigidSketch
