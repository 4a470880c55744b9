import RigidSketch.Proofs.Course

/-! The outcome of a solve: how the stages can fail, and which constraints are marked as
satisfied at the end. -/

namespace RigidSketch

open LeastSquares (LinearSolver)

namespace Status

theorem severity_worst (s t : Status) : (s.worst t).severity = max s.severity t.severity := by
  unfold worst
  split <;> omega

end Status

namespace Sketch

variable {solver : LinearSolver}

theorem realized_realizeAll {s : Sketch} (hf : Fresh s) {todo : List Cluster}
    (hin : ∀ k ∈ todo, k ∈ s.clusters) :
    Realized s (realizeAll s.tolerance s.constraints todo s.elements) := by
  induction todo generalizing s with
  | nil => exact ⟨.refl, .refl s, Or.inl rfl⟩
  | cons k todo ih =>
    have hk := hin k List.mem_cons_self
    have hplaced := realized_placeSteps hf hk fun _ hm => hm
    have hf' := hf.moved hplaced.moved
    have hanchored := realized_anchor hf' hk
    have hboth := hplaced.moved.trans hanchored.moved
    have hchanges := hplaced.changes.trans hanchored.changes
    rw [Point.realizeAll_cons]
    dsimp only
    split
    · split
      · have hrest := ih (hf.moved hboth) fun l hl => hin l (List.mem_cons_of_mem _ hl)
        exact ⟨hchanges.trans hrest.changes, hboth.trans hrest.moved, hrest.status⟩
      · exact ⟨hchanges, hboth, hanchored.status⟩
    · exact hplaced

theorem follows_joinOnce {s : Sketch} (hg : Grounded s) (hd : Decomposed s) :
    Follows s s.joinOnce.1 := by
  have hdrag := (moved_drag s s.roundMoves).follows hd
  exact hdrag.trans (Changes.follows (attempt_joinOnce hg hd).changes (hg.congr hdrag.problem)
    hdrag.decomposed)

theorem joinRounds_status {s : Sketch} (hg : Grounded s) (hd : Decomposed s) (rounds : Nat) :
    Follows s (s.joinRounds rounds).1 ∧ ((s.joinRounds rounds).2 = .solved ∨
      (s.joinRounds rounds).2 = .unconverged ∨ (s.joinRounds rounds).2 = .overconstrained) := by
  induction rounds generalizing s with
  | zero => exact ⟨hd.follows, Or.inl rfl⟩
  | succ rounds ih =>
    have hattempt := attempt_joinOnce hg hd
    have hjoin := follows_joinOnce hg hd
    unfold joinRounds
    split
    · exact ⟨hd.follows, Or.inl rfl⟩
    · rcases hr : s.joinOnce with ⟨t, outcome⟩
      rw [hr] at hattempt hjoin
      cases outcome with
      | none => exact ⟨hjoin, Or.inl rfl⟩
      | some outcome =>
        cases outcome with
        | joined =>
          obtain ⟨hrest, hstatus⟩ := ih (hg.congr hjoin.problem) hjoin.decomposed
          exact ⟨hjoin.trans hrest, hstatus⟩
        | failed status => exact ⟨hjoin, Or.inr (hattempt.failed status rfl)⟩

theorem joinClusters_status {s : Sketch} (hg : Grounded s) (hd : Decomposed s) :
    (s.joinClusters solver).2 = .solved ∨ (s.joinClusters solver).2 = .unconverged ∨
      (s.joinClusters solver).2 = .overconstrained := by
  obtain ⟨hfollows, hstatus⟩ := joinRounds_status hg hd s.clusters.length
  unfold joinClusters joinAll
  split
  · rename_i t heq
    rw [heq] at hfollows
    split
    · rcases (changes_relax solver (hg.congr hfollows.problem) hfollows.decomposed).2 with h | h
      · exact Or.inl h
      · exact Or.inr (Or.inl h)
    · exact Or.inl rfl
  · exact hstatus

/-- The constraints marked as satisfied are those whose residual is within the tolerance. -/
def Marked (s : Sketch) : Prop :=
  ∀ c ∈ s.constraints.constraints, c.solved = s.isMet (s.residual? c.id)

theorem residual?_markSolved (s : Sketch) (id : ConstraintId) :
    s.markSolved.residual? id = s.residual? id := by
  have hget : s.markSolved.constraints.get? id =
      (s.constraints.get? id).map fun c => { c with solved := s.isMet (s.residual? c.id) } :=
    ConstraintTable.get?_map (f := fun c => { c with solved := s.isMet (s.residual? c.id) })
      (fun _ => rfl) id
  unfold residual? residualBy
  rw [hget]
  cases s.constraints.get? id <;> rfl

theorem marked_markSolved (s : Sketch) : s.markSolved.Marked := by
  intro c hc
  obtain ⟨d, _, rfl⟩ := List.mem_map.mp hc
  rw [residual?_markSolved]
  rfl

theorem markSolved_of_marked {s : Sketch} (h : s.Marked) : s.markSolved = s := by
  have hmap : s.constraints.constraints.map
      (fun c => { c with solved := s.isMet (s.residual? c.id) }) = s.constraints.constraints := by
    calc s.constraints.constraints.map
          (fun c => { c with solved := s.isMet (s.residual? c.id) })
        = s.constraints.constraints.map id := by
          refine List.map_congr_left fun c hc => ?_
          rw [← h c hc]
          rfl
      _ = s.constraints.constraints := List.map_id _
  unfold markSolved ConstraintTable.map
  rw [hmap]

theorem finish_of_marked {s : Sketch} (h : s.Marked) (status : Status) :
    s.finish status = ({ s with status, edited := false }, status) := by
  unfold finish
  rw [markSolved_of_marked h, ite_self]

theorem marked_finish {s : Sketch} {status : Status}
    (h : status = .unconverged ∨ status = .overconstrained) : (s.finish status).1.Marked := by
  have hc : status.isConsistent = false := by
    rcases h with rfl | rfl <;> rfl
  unfold finish
  rw [hc]
  exact marked_markSolved s

/-- What is known at the end of a solve, whatever came of it. -/
structure Concluded (coverage : Status) (succeeded : Prop) (r : Sketch × Status) : Prop where
  status : r.1.status = r.2
  edited : r.1.edited = false
  marked : r.1.Marked
  verdict : succeeded → r.2 = coverage.worst r.1.verdict
  failed : ¬ succeeded → r.2 = .unconverged ∨ r.2 = .overconstrained

theorem concluded_failed {s : Sketch} {coverage status : Status} {succeeded : Prop}
    (hs : ¬ succeeded) (h : status = .unconverged ∨ status = .overconstrained) :
    Concluded coverage succeeded (s.finish status) :=
  ⟨rfl, rfl, marked_finish h, fun h => absurd h hs, fun _ => h⟩

/-- The clusters were realized and joined, so that only the check of the constraints is left. -/
def StagesSucceed (solver : LinearSolver) (s : Sketch) : Prop :=
  s.realizeClusters.2 = .solved ∧ (s.realizeClusters.1.joinClusters solver).2 = .solved

theorem concluded_solveBuilt {b : Sketch} (hg : Grounded b) (hf : Fresh b)
    (solver : LinearSolver) :
    Concluded b.coverage (b.StagesSucceed solver) (b.solveBuilt solver) := by
  have hrealized := realized_realizeAll hf fun _ hk => hk
  have hfollows := hrealized.moved.follows hf.decomposed
  have hstatus : b.realizeClusters.2 = .solved ∨ b.realizeClusters.2 = .unconverged ∨
      b.realizeClusters.2 = .overconstrained := hrealized.status
  have hjoined : (b.realizeClusters.1.joinClusters solver).2 = .solved ∨
      (b.realizeClusters.1.joinClusters solver).2 = .unconverged ∨
      (b.realizeClusters.1.joinClusters solver).2 = .overconstrained :=
    joinClusters_status (hg.congr hfollows.problem) hfollows.decomposed
  unfold solveBuilt StagesSucceed
  rcases hr : b.realizeClusters with ⟨t, status⟩
  rw [hr] at hstatus hjoined
  dsimp only at hstatus hjoined
  by_cases hs : status = .solved
  · subst hs
    dsimp only
    rcases hj : t.joinClusters solver with ⟨u, status⟩
    rw [hj] at hjoined
    by_cases hs : status = .solved
    · subst hs
      have hmarked := marked_markSolved { u with elements := u.elements.map (·.settle) }
      dsimp only
      rw [finish_of_marked hmarked]
      exact ⟨rfl, rfl, hmarked, fun _ => rfl, fun h => absurd ⟨rfl, rfl⟩ h⟩
    · have hfailed := hjoined.resolve_left hs
      rcases hfailed with rfl | rfl
      · exact concluded_failed (by simp) (Or.inl rfl)
      · exact concluded_failed (by simp) (Or.inr rfl)
  · have hfailed := hstatus.resolve_left hs
    rcases hfailed with rfl | rfl
    · exact concluded_failed (by simp) (Or.inl rfl)
    · exact concluded_failed (by simp) (Or.inr rfl)

theorem severity_coverage (b : Sketch) : 1 ≤ b.coverage.severity ∧ b.coverage.severity ≤ 2 := by
  unfold coverage
  split <;> decide

theorem status_solveBuilt_ne_pending {b : Sketch} (hg : Grounded b) (hf : Fresh b) :
    (b.solveBuilt solver).1.status ≠ .pending := by
  have hc := concluded_solveBuilt hg hf solver
  rw [hc.status]
  intro hp
  by_cases hs : b.StagesSucceed solver
  · have hsev := b.coverage.severity_worst (b.solveBuilt solver).1.verdict
    rw [← hc.verdict hs, hp] at hsev
    have hcov := b.severity_coverage.1
    have hzero : Status.pending.severity = 0 := rfl
    omega
  · rcases hc.failed hs with h | h <;> simp [hp] at h

end Sketch

end RigidSketch
