import RigidSketch.Proofs.Convergence
import RigidSketch.Proofs.Damping

/-! When a descent comes to an end. Each round does after so many tries, unless it starts from a
damping that is not positive: such a damping is never raised above its bound, and the round goes
on until a step is taken. Only the first round can start so. -/

namespace RigidSketch

open Binary64

namespace LeastSquares

/-- What has ended has not ended by being cut short. -/
def Standing.Finished : Standing → Prop
  | .ended r => r ≠ .error .unfinished
  | _ => True

namespace System

/-- The first round starts from a damping that is not positive, and all tries fail until the
damping stays the same. -/
structure Stuck (sys : System Float) (solver : LinearSolver) (settings : Settings) : Prop where
  nonempty : sys.initial.isEmpty = false
  equations : sys.equations.isEmpty = false
  rounds : 0 < settings.maxIterations
  unsolved : sys.isSolution settings sys.initial = false
  damping : settings.initialDamping ≤ 0
  fails : ∀ k < 701, sys.tryAt solver sys.initial (raised k settings.initialDamping) = none

variable {sys : System Float} {solver : LinearSolver} {settings : Settings} {rounds : Nat}
  {x : Array Float} {damping : Float}

theorem tryAt_of_not_le (h : ¬ damping ≤ maxDamping) :
    sys.tryAt solver x damping = some .rejected := if_neg h

theorem exists_tryAt_of_not_le_zero (h : ¬ damping ≤ 0) (x : Array Float) :
    ∃ k < 701, sys.tryAt solver x (raised k damping) ≠ none := by
  obtain ⟨k, hk, hle⟩ := exists_raised_not_le h
  refine ⟨k, by omega, ?_⟩
  rw [tryAt_of_not_le hle]
  exact nofun

theorem exists_tryAt_of_le_zero (h : damping ≤ 0) {k : Nat}
    (hk : sys.tryAt solver x (raised k damping) ≠ none) :
    ∃ k < 701, sys.tryAt solver x (raised k damping) ≠ none := by
  by_cases hlt : k < 701
  · exact ⟨k, hlt, hk⟩
  · rw [(raised_of_le_zero h).2 k (by omega)] at hk
    exact ⟨700, by decide, hk⟩

theorem not_larger_le_zero (a : Float) : ¬ Scalar.larger a minDamping ≤ 0 := by
  have hmin : ¬ minDamping ≤ 0 := by decide +kernel
  unfold Scalar.larger
  split
  · exact hmin
  · rename_i hlt
    split
    · rename_i hself
      intro hle
      have ha : a.isNaN = false := by
        obtain ⟨_, _, hrank, _⟩ := Binary64.le_iff.mp hself
        exact isNaN_eq_false hrank
      exact hmin (Binary64.le_trans (Binary64.le_of_not_lt ha rfl hlt) hle)
    · exact hmin

theorem endsWithin_round (h : ¬ damping ≤ 0) :
    sys.EndsWithin solver settings (rounds * 702 + 1) (.round rounds x damping)
      (descend sys solver settings rounds x damping) := by
  induction rounds generalizing x damping with
  | zero => exact endsWithin_round_zero
  | succ rounds ih =>
    have hsucc := endsWithin_round_succ (by decide) (fun _ => exists_tryAt_of_not_le_zero h x)
      fun y damping => ih (not_larger_le_zero (damping / 10))
    exact hsucc.mono (by omega)

theorem endsWithin_solve (h : ¬ sys.Stuck solver settings) :
    sys.EndsWithin solver settings (settings.maxIterations * 702 + 1) (sys.start settings)
      (sys.solve solver settings) := by
  unfold start System.solve
  split
  · exact endsWithin_ended _ _
  · rename_i hvars
    split
    · exact endsWithin_ended _ _
    · rename_i heqs
      by_cases hdamping : settings.initialDamping ≤ 0
      · cases hrounds : settings.maxIterations with
        | zero => exact endsWithin_round_zero
        | succ rounds =>
          have htry : sys.isSolution settings sys.initial = false →
              ∃ k < 701,
                sys.tryAt solver sys.initial (raised k settings.initialDamping) ≠ none := by
            intro hunsolved
            by_contra hnone
            refine h ⟨Bool.eq_false_iff.mpr hvars, Bool.eq_false_iff.mpr heqs, by omega, hunsolved,
              hdamping, fun k hk => ?_⟩
            by_contra hne
            exact hnone ⟨k, hk, hne⟩
          have hrest : ∀ y damping, sys.EndsWithin solver settings (rounds * 702 + 1)
              (.round rounds y (Scalar.larger (damping / 10) minDamping))
              (descend sys solver settings rounds y (Scalar.larger (damping / 10) minDamping)) :=
            fun y damping => endsWithin_round (not_larger_le_zero (damping / 10))
          exact (endsWithin_round_succ (by decide) htry hrest).mono (by omega)
      · exact endsWithin_round hdamping

theorem Stuck.tryAt_eq_none (h : sys.Stuck solver settings) (k : Nat) :
    sys.tryAt solver sys.initial (raised k settings.initialDamping) = none := by
  by_contra hk
  obtain ⟨j, hj, hne⟩ := exists_tryAt_of_le_zero h.damping hk
  exact hne (h.fails j hj)

theorem Stuck.start_eq (h : sys.Stuck solver settings) :
    ∃ rounds, settings.maxIterations = rounds + 1 ∧ sys.start settings =
      .round (rounds + 1) sys.initial settings.initialDamping := by
  obtain ⟨rounds, hrounds⟩ := Nat.exists_eq_succ_of_ne_zero h.rounds.ne'
  refine ⟨rounds, hrounds, ?_⟩
  rw [start, h.nonempty, h.equations, hrounds]
  rfl

theorem Stuck.iterate_eq (h : sys.Stuck solver settings) : ∃ rounds, ∀ m,
    (sys.advance solver settings)^[m + 1] (sys.start settings) =
      .trying rounds sys.initial (raised m settings.initialDamping) := by
  obtain ⟨rounds, _, hstart⟩ := h.start_eq
  refine ⟨rounds, fun m => ?_⟩
  have hround : sys.advance solver settings (sys.start settings) =
      .trying rounds sys.initial settings.initialDamping := by
    simp [hstart, advance, h.unsolved]
  rw [Function.iterate_succ_apply, hround]
  exact advance_iterate_trying fun j _ => h.tryAt_eq_none j

theorem Stuck.iterate_ne_ended (h : sys.Stuck solver settings) (m : Nat)
    (r : Except DescentError (Array Float)) :
    (sys.advance solver settings)^[m] (sys.start settings) ≠ .ended r := by
  cases m with
  | zero =>
    obtain ⟨rounds, _, hstart⟩ := h.start_eq
    intro heq
    cases hstart.symm.trans heq
  | succ m =>
    obtain ⟨rounds, htrying⟩ := h.iterate_eq
    intro heq
    cases (htrying m).symm.trans heq

theorem Stuck.solve_eq (h : sys.Stuck solver settings) :
    sys.solve solver settings = .error .unfinished := by
  obtain ⟨rounds, hrounds, _⟩ := h.start_eq
  have hsearch : sys.searchFrom solver sys.initial maxRaises settings.initialDamping =
      .unfinished := searchFrom_eq_unfinished_iff.mpr fun k _ => h.tryAt_eq_none k
  unfold System.solve
  rw [h.nonempty, h.equations, hrounds, descend_succ, h.unsolved, hsearch]
  rfl

theorem finished_answer (x : Array Float) :
    (Standing.ended (sys.answer settings x)).Finished := by
  unfold answer
  split <;> exact nofun

theorem finished_resolve {r : Search} (hr : r ≠ .unfinished) :
    (sys.resolve settings rounds x r).Finished := by
  cases r with
  | accepted d damping =>
    unfold resolve
    dsimp only
    split
    · exact finished_answer _
    · trivial
  | rejected => exact nofun
  | singular => exact nofun
  | unfinished => exact absurd rfl hr

theorem finished_advance {p : Standing} (h : p.Finished) :
    (sys.advance solver settings p).Finished := by
  cases p with
  | round rounds x damping =>
    cases rounds with
    | zero => exact finished_answer x
    | succ rounds =>
      unfold advance
      dsimp only
      split
      · exact nofun
      · trivial
  | trying rounds x damping =>
    unfold advance
    dsimp only
    split
    · rename_i r hr
      exact finished_resolve fun heq => tryAt_ne_unfinished (heq ▸ hr)
    · trivial
  | ended r => exact h

theorem finished_iterate_start (m : Nat) :
    ((sys.advance solver settings)^[m] (sys.start settings)).Finished := by
  induction m with
  | zero =>
    unfold start
    dsimp only [Function.iterate_zero, id]
    split_ifs
    · exact finished_answer _
    · exact nofun
    · trivial
  | succ m ih =>
    rw [Function.iterate_succ_apply']
    exact finished_advance ih

variable (sys solver settings)

/-- A descent ends, after so many steps and with the answer of the recursion, unless its first
round is stuck; then it never does, and the recursion is cut short. -/
theorem endsWithin_solve_iff :
    ((∃ m r, (sys.advance solver settings)^[m] (sys.start settings) = .ended r) ↔
      ¬ sys.Stuck solver settings) ∧
    (sys.EndsWithin solver settings (settings.maxIterations * 702 + 1) (sys.start settings)
        (sys.solve solver settings) ↔ ¬ sys.Stuck solver settings) ∧
    (sys.solve solver settings = .error .unfinished ↔ sys.Stuck solver settings) := by
  have hnever : (∃ m r, (sys.advance solver settings)^[m] (sys.start settings) = .ended r) →
      ¬ sys.Stuck solver settings :=
    fun ⟨m, r, hr⟩ h => h.iterate_ne_ended m r hr
  refine ⟨⟨hnever, fun h => ?_⟩, ⟨fun ⟨m, _, hr⟩ => hnever ⟨m, _, hr⟩, endsWithin_solve⟩,
    fun hunfinished => ?_, Stuck.solve_eq⟩
  · obtain ⟨m, _, hr⟩ := endsWithin_solve h
    exact ⟨m, _, hr⟩
  · by_contra h
    obtain ⟨m, _, hr⟩ := endsWithin_solve h
    have hfinished : ((sys.advance solver settings)^[m] (sys.start settings)).Finished :=
      finished_iterate_start m
    rw [hr] at hfinished
    exact hfinished hunfinished

end System

end LeastSquares

namespace Sketch

open LeastSquares

/-- With the damping that is set by default, the garland's descent ends. -/
theorem endsWithin_solve_garland :
    (Call.runAll solveLinear Call.garland {}).Relaxes solveLinear fun settings sys =>
      sys.EndsWithin solveLinear settings (500 * 702 + 1) (sys.start settings)
        (sys.solve solveLinear settings) := by
  have hdefault : (Call.runAll solveLinear Call.garland {}).Relaxes solveLinear fun settings _ =>
      settings = {} := by
    unfold Relaxes
    decide +kernel
  refine hdefault.imp fun settings sys hsettings => ?_
  rw [hsettings]
  refine (System.endsWithin_solve_iff sys solveLinear {}).2.1.mpr fun h => ?_
  exact absurd h.damping (by decide +kernel)

/-- Without damping, the first step leads far away, and it is tried again and again. -/
theorem iterate_ne_ended_garland :
    (Call.runAll solveLinear Call.garland
      { settings := { initialDamping := 0 } }).Relaxes solveLinear fun settings sys =>
      ∀ m r, (sys.advance solveLinear settings)^[m] (sys.start settings) ≠ .ended r := by
  have hfails : (Call.runAll solveLinear Call.garland
      { settings := { initialDamping := 0 } }).Relaxes solveLinear fun settings sys =>
        settings = { initialDamping := 0 } ∧ sys.initial.isEmpty = false ∧
        sys.equations.isEmpty = false ∧ sys.isSolution settings sys.initial = false ∧
        (sys.tryAt solveLinear sys.initial 0).isNone = true := by
    unfold Relaxes
    decide +kernel
  refine hfails.imp fun settings sys ⟨hsettings, hvars, heqs, hunsolved, htry⟩ => ?_
  have hzero : ∀ k, raised k 0 = 0 := fun k => Function.iterate_fixed (by decide +kernel) k
  rw [hsettings] at hunsolved ⊢
  refine System.Stuck.iterate_ne_ended ⟨hvars, heqs, by decide, hunsolved, by decide +kernel,
    fun k _ => ?_⟩
  rw [hzero]
  exact Option.isNone_iff_eq_none.mp htry

end Sketch

end RigidSketch
