import RigidSketch.Proofs.Session

/-! What a solve reports. After stages that succeed the outcome is read off the constraints
that are not satisfied and the elements that have none. -/

namespace RigidSketch

open LeastSquares (LinearSolver solveLinear)

namespace Status

theorem eq_overconstrained_iff {s : Status} : s = overconstrained ↔ 4 ≤ s.severity := by
  cases s <;> simp [severity]

theorem eq_unconverged_iff {s : Status} :
    s = unconverged ↔ 3 ≤ s.severity ∧ ¬ 4 ≤ s.severity := by
  cases s <;> simp [severity]

theorem eq_underconstrained_iff {s : Status} :
    s = underconstrained ↔ 2 ≤ s.severity ∧ ¬ 3 ≤ s.severity := by
  cases s <;> simp [severity]

theorem eq_solved_iff {s : Status} : s = solved ↔ 1 ≤ s.severity ∧ ¬ 2 ≤ s.severity := by
  cases s <;> simp [severity]

end Status

namespace Sketch

theorem le_severity_foldl {n : Nat} (f : Constraint → Status) (cs : List Constraint)
    (init : Status) :
    n ≤ (cs.foldl (fun status c => if c.solved then status else status.worst (f c))
        init).severity ↔
      n ≤ init.severity ∨ ∃ c ∈ cs, c.solved = false ∧ n ≤ (f c).severity := by
  induction cs generalizing init with
  | nil => simp
  | cons c cs ih =>
    rw [List.foldl_cons, ih]
    cases hc : c.solved with
    | true => simp [hc]
    | false =>
      simp only [Bool.false_eq_true, if_false, Status.severity_worst, List.exists_mem_cons_iff,
        hc, true_and, le_max_iff, or_assoc]

theorem blame_eq {s : Sketch} (hg : Grounded s) (hd : Decomposed s) {c : Constraint}
    (hc : c ∈ s.constraints.constraints) :
    s.blame c = if c.id ∈ s.conflicting then .overconstrained else .unconverged := by
  unfold blame
  rw [if_neg]
  simp only [List.any_eq_true, Bool.not_eq_true', not_exists, not_and, Bool.not_eq_false]
  intro id hid
  obtain ⟨e, he, rfl⟩ := hg.ends c hc id hid
  unfold ElementTable.isClaimed
  rw [(ElementTable.get?_eq_some_iff hg.elements).mpr ⟨he, rfl⟩]
  exact (isClaimed_iff hd.owned he).mpr (hd.claimed c hc e.id hid)

theorem le_severity_verdict {s : Sketch} {n : Nat} (hn : 2 ≤ n) :
    n ≤ s.verdict.severity ↔
      ∃ c ∈ s.constraints.constraints, c.solved = false ∧ n ≤ (s.blame c).severity := by
  have hinit : ¬ n ≤ Status.solved.severity := by
    dsimp only [Status.severity]
    omega
  unfold verdict
  rw [le_severity_foldl, or_iff_right hinit]

def Connected (s : Sketch) : Prop :=
  ∀ e ∈ s.elements.elements, ∃ c ∈ s.constraints.constraints, e.id ∈ c.ends

theorem SameProblem.symm {s t : Sketch} (h : SameProblem s t) : SameProblem t s :=
  ⟨h.settings.symm, h.roster.symm, h.next.symm, h.constraints.symm⟩

theorem SameProblem.connected {s t : Sketch} (h : SameProblem s t) (hs : s.Connected) :
    t.Connected := by
  intro e he
  obtain ⟨x, hx, hid, _⟩ := ElementTable.mem_of_roster h.symm.roster he
  obtain ⟨c, hc, hm⟩ := hs x hx
  obtain ⟨d, hd, hsame⟩ := ConstraintTable.mem_of_unsolved h.constraints hc
  exact ⟨d, hd, by rwa [hsame.ends, ← hid]⟩

theorem coverage_eq_solved_iff {b : Sketch} (hd : Decomposed b) :
    b.coverage = .solved ↔ b.Connected := by
  have hall : b.elements.elements.all (·.isClaimed) = true ↔ b.Connected := by
    rw [List.all_eq_true]
    refine forall₂_congr fun e he => ?_
    rw [isClaimed_iff hd.owned he]
    constructor
    · exact hd.touched e.id
    · rintro ⟨c, hc, hm⟩
      exact hd.claimed c hc e.id hm
  unfold coverage
  rw [← hall]
  split <;> simp_all

theorem severity_verdict {s : Sketch} (hg : Grounded s) (hd : Decomposed s) :
    (2 ≤ s.verdict.severity ↔ ∃ c ∈ s.constraints.constraints, c.solved = false) ∧
    (3 ≤ s.verdict.severity ↔ ∃ c ∈ s.constraints.constraints, c.solved = false) ∧
    (4 ≤ s.verdict.severity ↔
      ∃ c ∈ s.constraints.constraints, c.solved = false ∧ c.id ∈ s.conflicting) := by
  have hblame : ∀ c ∈ s.constraints.constraints, 3 ≤ (s.blame c).severity ∧
      (4 ≤ (s.blame c).severity ↔ c.id ∈ s.conflicting) := by
    intro c hc
    rw [blame_eq hg hd hc]
    split <;> simp_all [Status.severity]
  refine ⟨?_, ?_, ?_⟩
  · rw [le_severity_verdict (by omega)]
    refine exists_congr fun c => and_congr_right fun hc => and_iff_left ?_
    exact Nat.le_trans (by omega) (hblame c hc).1
  · rw [le_severity_verdict (by omega)]
    exact exists_congr fun c => and_congr_right fun hc => and_iff_left (hblame c hc).1
  · rw [le_severity_verdict (by omega)]
    exact exists_congr fun c => and_congr_right fun hc => and_congr_right fun _ =>
      (hblame c hc).2

/-- The outcome of a solve whose stages succeed, from the constraints and the elements. -/
structure ReadOff (s : Sketch) (status : Status) : Prop where
  overconstrained : status = .overconstrained ↔
    ∃ c ∈ s.constraints.constraints, c.solved = false ∧ c.id ∈ s.conflicting
  unconverged : status = .unconverged ↔
    (∃ c ∈ s.constraints.constraints, c.solved = false) ∧
      ∀ c ∈ s.constraints.constraints, c.solved = false → c.id ∉ s.conflicting
  underconstrained : status = .underconstrained ↔
    (∀ c ∈ s.constraints.constraints, c.solved = true) ∧
      ∃ e ∈ s.elements.elements, ∀ c ∈ s.constraints.constraints, e.id ∉ c.ends
  solved : status = .solved ↔
    (∀ c ∈ s.constraints.constraints, c.solved = true) ∧
      ∀ e ∈ s.elements.elements, ∃ c ∈ s.constraints.constraints, e.id ∈ c.ends

theorem readOff_worst {b s : Sketch} (hg : Grounded s) (hd : Decomposed b)
    (hfollows : Follows b s) : ReadOff s (b.coverage.worst s.verdict) := by
  obtain ⟨htwo, hthree, hfour⟩ := severity_verdict hg hfollows.decomposed
  have hsev := b.coverage.severity_worst s.verdict
  have hcov := b.severity_coverage
  have hall : (∀ c ∈ s.constraints.constraints, c.solved = true) ↔ ¬ 2 ≤ s.verdict.severity := by
    rw [htwo]
    push Not
    simp only [Bool.not_eq_false]
  have hconnected : b.coverage.severity = 1 ↔ s.Connected := by
    have hiff := coverage_eq_solved_iff hd
    rw [Status.eq_solved_iff] at hiff
    refine Iff.trans ?_ (hiff.trans
      ⟨hfollows.problem.connected, hfollows.problem.symm.connected⟩)
    omega
  have hloose : (∃ e ∈ s.elements.elements, ∀ c ∈ s.constraints.constraints, e.id ∉ c.ends) ↔
      ¬ b.coverage.severity = 1 := by
    rw [hconnected]
    unfold Connected
    push Not
    rfl
  refine ⟨?_, ?_, ?_, ?_⟩
  · rw [Status.eq_overconstrained_iff, ← hfour]
    omega
  · have hnone : (∀ c ∈ s.constraints.constraints, c.solved = false → c.id ∉ s.conflicting) ↔
        ¬ 4 ≤ s.verdict.severity := by
      rw [hfour]
      push Not
      rfl
    rw [Status.eq_unconverged_iff, hnone, ← hthree]
    omega
  · have hgap := htwo.trans hthree.symm
    rw [Status.eq_underconstrained_iff, hall, hloose]
    omega
  · have hgap := htwo.trans hthree.symm
    rw [Status.eq_solved_iff, hall, ← Connected, ← hconnected]
    omega

theorem Marked.solved_iff {s : Sketch} (h : s.Marked) {c : Constraint}
    (hc : c ∈ s.constraints.constraints) :
    c.solved = true ↔ ∃ r, s.residual? c.id = some r ∧ r.abs ≤ s.tolerance := by
  rw [h c hc]
  cases s.residual? c.id with
  | none => simp [isMet]
  | some r => simp [isMet]

/-- A solve that does not repeat the last outcome marks the constraints that hold where the
elements are then, and reports what the marks and the unconstrained elements say. -/
theorem Reachable.solve_outcome {s : Sketch} (hs : Reachable s) (hn : s.isSettled = false)
    (solver : LinearSolver) :
    (∀ c ∈ (s.solve solver).1.constraints.constraints, c.solved = true ↔
      ∃ r, (s.solve solver).1.residual? c.id = some r ∧ r.abs ≤ s.tolerance) ∧
    (s.prepared.StagesSucceed solver → (s.solve solver).1.ReadOff (s.solve solver).2) ∧
    (¬ s.prepared.StagesSucceed solver →
      (s.solve solver).2 = .unconverged ∨ (s.solve solver).2 = .overconstrained) ∧
    (s.solve solver).2 ≠ .pending ∧
    ((s.solve solver).2 = .solved → ∀ c ∈ (s.solve solver).1.constraints.constraints,
      ∃ r, (s.solve solver).1.residual? c.id = some r ∧ r.abs ≤ s.tolerance) := by
  obtain ⟨hg, hf⟩ := hs.sound.prepared hn
  rw [solve_eq_of_not_isSettled hn]
  have hc := concluded_solveBuilt hg hf solver
  have hfollows := follows_solveBuilt hg hf solver
  have hproblem := (sameProblem_prepared s).trans hfollows.problem
  have htol : (s.prepared.solveBuilt solver).1.tolerance = s.tolerance :=
    congrArg Settings.tolerance hproblem.settings
  have hflags := fun c hm => htol ▸ hc.marked.solved_iff (c := c) hm
  have hread : s.prepared.StagesSucceed solver →
      (s.prepared.solveBuilt solver).1.ReadOff (s.prepared.solveBuilt solver).2 := by
    intro hsucceed
    rw [hc.verdict hsucceed]
    exact readOff_worst (hs.sound.grounded.congr hproblem) hf.decomposed hfollows
  refine ⟨hflags, hread, hc.failed, ?_, fun hsolved c hm => (hflags c hm).mp ?_⟩
  · rw [← hc.status]
    exact status_solveBuilt_ne_pending hg hf
  · by_cases hsucceed : s.prepared.StagesSucceed solver
    · exact ((hread hsucceed).solved.mp hsolved).1 c hm
    · rcases hc.failed hsucceed with h | h <;> simp [hsolved] at h

theorem solve_outcome_triangle :
    ((Call.runAll solveLinear Call.triangle {}).solve solveLinear).1.ReadOff
      ((Call.runAll solveLinear Call.triangle {}).solve solveLinear).2 := by
  have hs := (Reachable.new {}).runAll solveLinear Call.triangle
  have hn : (Call.runAll solveLinear Call.triangle {}).isSettled = false := by decide +kernel
  have hsucceed : (Call.runAll solveLinear Call.triangle {}).prepared.StagesSucceed solveLinear :=
    ⟨by decide +kernel, by decide +kernel⟩
  exact (Reachable.solve_outcome hs hn solveLinear).2.1 hsucceed

end Sketch

end RigidSketch
