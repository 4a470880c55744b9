import RigidSketch.Proofs.Tally

/-! The degrees of freedom of a sketch that falls into one cluster. Placing its elements uses up all
of them, so what counts is what is redundant, and what fixed elements say besides. -/

namespace RigidSketch

open LeastSquares (solveLinear)

/-- A line and three points with six distances between them. The line and two points are fixed, and
so the distances between these three say nothing. -/
def Call.clamped : List Call :=
  [addLine true 0 1 0, addPoint true 0 3, addPoint true 4 3, addPoint false 4 0,
    constrain .distance ⟨0⟩ ⟨1⟩ 3, constrain .distance ⟨1⟩ ⟨2⟩ 4, constrain .distance ⟨0⟩ ⟨2⟩ 3,
    constrain .distance ⟨1⟩ ⟨3⟩ 5, constrain .distance ⟨2⟩ ⟨3⟩ 3, constrain .distance ⟨0⟩ ⟨3⟩ 0]

namespace Sketch

def fixedCount (s : Sketch) : Nat := s.elements.elements.countP (·.fixed)

/-- How many constraints are between two fixed elements. -/
def fixedConstraints (s : Sketch) : Nat :=
  s.constraints.constraints.countP fun c =>
    s.elements.isFixed c.first && s.elements.isFixed c.second

/-- Everything is counted, less what is fixed. -/
theorem degreesOfFreedom_eq (s : Sketch) :
    s.degreesOfFreedom = 2 * (s.elements.elements.length - s.fixedCount : Int) -
      (s.constraints.constraints.length - s.fixedConstraints) -
      if s.fixedCount = 0 then min (2 * s.elements.elements.length) 3 else 0 := by
  have hmovable : (s.elements.elements.countP fun e => !e.fixed) + s.fixedCount =
      s.elements.elements.length := by
    rw [fixedCount, s.elements.elements.length_eq_countP_add_countP (·.fixed), Nat.add_comm]
    simp
  have heffective : (s.constraints.constraints.countP fun c => !c.ends.all s.elements.isFixed) +
      s.fixedConstraints = s.constraints.constraints.length := by
    rw [fixedConstraints, s.constraints.constraints.length_eq_countP_add_countP fun c =>
      s.elements.isFixed c.first && s.elements.isFixed c.second, Nat.add_comm]
    simp [Constraint.ends]
  have hany : s.elements.elements.any (·.fixed) = true ↔ s.fixedCount ≠ 0 := by
    simp [fixedCount, List.countP_eq_zero]
  unfold degreesOfFreedom
  by_cases hfixed : s.fixedCount = 0
  · simp only [hany, hfixed, ne_eq, not_true_eq_false, ↓reduceIte]
    omega
  · simp only [hany, hfixed, ne_eq, not_false_eq_true, ↓reduceIte]
    omega

theorem fixedConstraints_eq_zero {s : Sketch} (h : s.fixedCount = 0) : s.fixedConstraints = 0 := by
  refine List.countP_eq_zero.mpr fun c _ hc => ?_
  have hfirst : s.elements.isFixed c.first = true := (Bool.and_eq_true_iff.mp hc).1
  unfold ElementTable.isFixed at hfirst
  split at hfirst
  · next e he => exact List.countP_eq_zero.mp h e (ElementTable.mem_of_get? he).1 hfirst
  · cases hfirst

theorem fixedCount_congr {s t : Sketch} (h : SameProblem s t) : t.fixedCount = s.fixedCount := by
  have hroster : ∀ u : Sketch, u.fixedCount = u.elements.roster.countP (·.2) := by
    intro u
    simp [fixedCount, ElementTable.roster, List.countP_map, Function.comp_def]
  rw [hroster, hroster, h.roster]

theorem fixedConstraints_congr {s t : Sketch} (h : SameProblem s t) :
    t.fixedConstraints = s.fixedConstraints := by
  have hunsolved : ∀ u : Sketch, u.fixedConstraints =
      u.constraints.unsolved.constraints.countP fun c =>
        u.elements.isFixed c.first && u.elements.isFixed c.second := by
    intro u
    simp [fixedConstraints, ConstraintTable.unsolved, ConstraintTable.map, List.countP_map,
      Function.comp_def]
  have hfixed := ElementTable.isFixed_congr h.roster
  rw [hunsolved, hunsolved, h.constraints]
  simp only [hfixed]

theorem SameProblem.length_elements {s t : Sketch} (h : SameProblem s t) :
    t.elements.elements.length = s.elements.elements.length := by
  simpa [ElementTable.roster] using congrArg List.length h.roster

theorem SameProblem.length_constraints {s t : Sketch} (h : SameProblem s t) :
    t.constraints.constraints.length = s.constraints.constraints.length := by
  simpa [ConstraintTable.unsolved, ConstraintTable.map] using
    congrArg (fun u : ConstraintTable => u.constraints.length) h.constraints

theorem degreesOfFreedom_congr {s t : Sketch} (h : SameProblem s t) :
    t.degreesOfFreedom = s.degreesOfFreedom := by
  rw [degreesOfFreedom_eq, degreesOfFreedom_eq, fixedCount_congr h, fixedConstraints_congr h,
    h.length_elements, h.length_constraints]

variable {s : Sketch} {k : Cluster}

theorem Decomposed.free_eq_nil_of_one (hd : Decomposed s) (hone : s.clusters = [k]) :
    s.free.toList = [] := by
  refine List.eq_nil_iff_forall_not_mem.mpr fun id hid => ?_
  obtain ⟨c, hc⟩ := hd.partitioned.exists_get? hid
  obtain ⟨hmem, rfl⟩ := ConstraintTable.mem_of_get? hc
  have hk : k ∈ s.clusters := by simp [hone]
  refine hd.partitioned.between k hk c hmem hid fun e he => ?_
  obtain ⟨l, hl, hel⟩ := hd.claimed c hmem e he
  rw [hone, List.mem_singleton] at hl
  exact hl ▸ hel

theorem Decomposed.size_elements_of_all (hg : Grounded s) (hd : Decomposed s)
    (hk : k ∈ s.clusters) (hall : ∀ e ∈ s.elements.elements, e.id ∈ k.elements) :
    k.elements.size = s.elements.elements.length := by
  have hperm : k.elements.toList.Perm (s.elements.elements.map (·.id)) := by
    refine (List.perm_ext_iff_of_nodup k.elements.nodup
      (ElementTable.nodup_ids hg.elements)).mpr fun id => ?_
    constructor
    · intro hid
      obtain ⟨c, hc, he⟩ := hd.touched id ⟨k, hk, hid⟩
      obtain ⟨x, hx, rfl⟩ := hg.ends c hc id he
      exact List.mem_map_of_mem hx
    · intro hid
      obtain ⟨e, he, rfl⟩ := List.mem_map.mp hid
      exact hall e he
  rw [OrderedSet.size, hperm.length_eq, List.length_map]

/-- In a single cluster each constraint is redundant or places an element. -/
theorem Tallied.length_constraints_of_one (ht : Tallied s) (hg : Grounded s) (hd : Decomposed s)
    (hone : s.clusters = [k]) (hall : ∀ e ∈ s.elements.elements, e.id ∈ k.elements) :
    s.constraints.constraints.length + 3 =
      s.conflicting.size + 2 * s.elements.elements.length := by
  have hk : k ∈ s.clusters := by simp [hone]
  have hlength : s.constraints.constraints.length = k.constraints.size := by
    rw [hd.partitioned.length_constraints hg, OrderedSet.size, hd.free_eq_nil_of_one hone, hone]
    simp
  have hredundant : s.conflicting.size = (k.constraints.filter (· ∈ s.conflicting)).size := by
    rw [hd.partitioned.size_conflicting, hone]
    simp
  have hessential := ht k hk
  rw [hd.size_elements_of_all hg hk hall] at hessential
  rw [hlength, size_constraints_eq s k, ← hredundant]
  omega

/-- A sketch that falls into one cluster lacks one degree of freedom for each redundant constraint.
If elements are fixed, it lacks two more for each of them, but the three rigid motions are not
subtracted, nor are the constraints between fixed elements. -/
theorem Reachable.degreesOfFreedom_of_one (hs : Reachable s) (hone : s.reset.build.clusters = [k])
    (hall : ∀ e ∈ s.elements.elements, e.id ∈ k.elements)
    (htwo : 2 ≤ s.elements.elements.length) :
    (s.fixedCount = 0 → s.degreesOfFreedom = -(s.reset.build.conflicting.size : Int)) ∧
    (1 ≤ s.fixedCount → s.degreesOfFreedom =
      3 - 2 * (s.fixedCount : Int) + s.fixedConstraints - s.reset.build.conflicting.size) ∧
    s.reset.build.degreesOfFreedom = s.degreesOfFreedom := by
  have hg := hs.sound.grounded.reset
  have hsame := (sameProblem_reset s).trans (sameProblem_build s.reset)
  have hall' : ∀ e ∈ s.reset.build.elements.elements, e.id ∈ k.elements := by
    intro e he
    obtain ⟨x, hx, hid, _⟩ := ElementTable.mem_of_roster hsame.roster.symm he
    exact hid ▸ hall x hx
  have hcount := (tallied_build hg rfl).length_constraints_of_one (hs.sound.grounded.congr hsame)
    (decomposed_build hg rfl) hone hall'
  rw [hsame.length_elements, hsame.length_constraints] at hcount
  refine ⟨fun hloose => ?_, fun hfixed => ?_, degreesOfFreedom_congr hsame⟩
  · rw [degreesOfFreedom_eq, if_pos hloose, hloose, fixedConstraints_eq_zero hloose]
    omega
  · rw [degreesOfFreedom_eq, if_neg (by omega)]
    omega

theorem degreesOfFreedom_of_one_clamped :
    (Call.runAll solveLinear Call.clamped {}).fixedCount = 3 ∧
    (Call.runAll solveLinear Call.clamped {}).fixedConstraints = 3 ∧
    (Call.runAll solveLinear Call.clamped {}).reset.build.conflicting.size = 1 ∧
    (Call.runAll solveLinear Call.clamped {}).degreesOfFreedom = -1 := by
  have hs := (Reachable.new {}).runAll solveLinear Call.clamped
  have hlength : (Call.runAll solveLinear Call.clamped {}).reset.build.clusters.length = 1 := by
    decide +kernel
  obtain ⟨k, hone⟩ := List.length_eq_one_iff.mp hlength
  have hevery : ∀ l ∈ (Call.runAll solveLinear Call.clamped {}).reset.build.clusters,
      ∀ e ∈ (Call.runAll solveLinear Call.clamped {}).elements.elements, e.id ∈ l.elements := by
    decide +kernel
  have hfixed : (Call.runAll solveLinear Call.clamped {}).fixedCount = 3 := by decide +kernel
  have hbetween : (Call.runAll solveLinear Call.clamped {}).fixedConstraints = 3 := by
    decide +kernel
  have hredundant : (Call.runAll solveLinear Call.clamped {}).reset.build.conflicting.size = 1 := by
    decide +kernel
  have hfree := (Reachable.degreesOfFreedom_of_one hs hone (hevery k (by simp [hone]))
    (by decide +kernel)).2.1 (by omega)
  rw [hfixed, hbetween, hredundant] at hfree
  exact ⟨hfixed, hbetween, hredundant, hfree⟩

end Sketch

end RigidSketch
