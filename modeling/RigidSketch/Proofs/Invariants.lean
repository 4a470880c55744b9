import RigidSketch.Proofs.Session

/-! What is kept from the moment clusters are built to the end of the solve that follows:
clusters do not get at each other's copies, and no constraint is lost or counted twice. -/

namespace RigidSketch

open LeastSquares (LinearSolver solveLinear)

namespace Call

/-- Two triangles that share a point. -/
def bowTie : List Call :=
  triangle ++ [addPoint false 8 0, addPoint false 12 0, constrain .distance ⟨1⟩ ⟨3⟩ 4,
    constrain .distance ⟨3⟩ ⟨4⟩ 3, constrain .distance ⟨1⟩ ⟨4⟩ 5]

/-- Two triangles with a bar from each corner of one to a corner of the other. -/
def prism : List Call :=
  triangle ++ [addPoint false 8 0, addPoint false 12 0, addPoint false 8 3,
    constrain .distance ⟨3⟩ ⟨4⟩ 4, constrain .distance ⟨4⟩ ⟨5⟩ 3, constrain .distance ⟨3⟩ ⟨5⟩ 5,
    constrain .distance ⟨0⟩ ⟨3⟩ 8, constrain .distance ⟨1⟩ ⟨4⟩ 8, constrain .distance ⟨2⟩ ⟨5⟩ 5]

end Call

namespace Sketch

/-- Writing an element as one cluster sees it changes no other view of any cluster. -/
def KeptApart (s : Sketch) : Prop :=
  ∀ k ∈ s.clusters, ∀ e ∈ k.elements, ∀ l ∈ s.clusters, ∀ e' ∈ l.elements,
    (l.id, e') ≠ (k.id, e) → ∀ g,
      (s.elements.setShapeIn k.id e g).shapeIn? l.id e' = s.elements.shapeIn? l.id e'

theorem Owned.keptApart {s : Sketch} (h : Owned s) : s.KeptApart := by
  intro k hk e he l hl e' he' hne g
  unfold ElementTable.shapeIn? ElementTable.setShapeIn ElementTable.modify
  rw [ElementTable.get?_mapWhere fun x => (x.reshaped_setShapeIn k.id g).id]
  cases hx : s.elements.get? e' with
  | none => rfl
  | some x =>
    by_cases hee : e' = e
    · obtain ⟨hm, rfl⟩ := ElementTable.mem_of_get? hx
      subst hee
      have hids : l.id ≠ k.id := fun hid => hne (by rw [hid])
      have hkx : k.id ∈ x.owners := (h.owners x hm k.id).mpr ⟨k, hk, rfl, he⟩
      have hlx : l.id ∈ x.owners := (h.owners x hm l.id).mpr ⟨l, hl, rfl, he'⟩
      -- two clusters share the element, so that each of them has a copy
      have htwo : 2 ≤ x.owners.length := by
        by_contra hlen
        rw [Element.owners_eq_of_sole hkx hlen, List.mem_singleton] at hlx
        exact hids hlx
      have hcopy := (h.copied x hm).shared htwo k.id hkx
      simp [Element.shapeIn_setShapeIn_of_ne hids hcopy]
    · simp [hee]

structure WellOwned (s : Sketch) : Prop where
  owned : Owned s
  increasing : s.clusterNumbers.Pairwise (· < ·)
  apart : s.KeptApart

theorem Decomposed.wellOwned {s : Sketch} (h : Decomposed s) : s.WellOwned :=
  ⟨h.owned, h.numbered.increasing, h.owned.keptApart⟩

theorem decomposed_of_builds? {s b : Sketch} {c : Call} (h : Sound s)
    (hb : c.builds? s = some b) : Decomposed b := by
  obtain ⟨⟨t, ht, hbuilt, _, rfl⟩, _⟩ := builds?_eq_some h hb
  exact decomposed_build ht hbuilt

theorem getLast?_points_prepared {s : Sketch} (hs : s.isSettled = false)
    (solver : LinearSolver) : (s.prepared.points solver).getLast? =
      some ⟨.closed (s.solve solver).2, (s.solve solver).1⟩ := by
  rw [getLast?_points, solve_eq_of_not_isSettled hs]

theorem lt_of_builds? {s b : Sketch} {c : Call} (h : Sound s) (hb : c.builds? s = some b)
    {n m : Nat} (hn : n < s.nextCluster) (hm : m ∈ b.clusterNumbers) : n < m := by
  obtain ⟨⟨t, ht, hbuilt, hnext, rfl⟩, _⟩ := builds?_eq_some h hb
  have hbase := (assembled_build ht hbuilt).since.2 m hm
  omega

theorem Reachable.wellOwned_throughout {s : Sketch} (hs : Reachable s) (solver : LinearSolver) :
    (∀ c b, Call.builds? c s = some b → b.WellOwned ∧
      ∀ calls c' b', Call.builds? c' (Call.runAll solver calls (c.run solver s)) = some b' →
        ∀ k ∈ b.clusters, ∀ l ∈ b'.clusters, k.id.number < l.id.number) ∧
    (s.isSettled = false → (∀ p ∈ s.prepared.points solver, p.sketch.WellOwned) ∧
      (s.prepared.points solver).getLast? =
        some ⟨.closed (s.solve solver).2, (s.solve solver).1⟩) := by
  refine ⟨fun c b hb => ?_, fun hn => ?_⟩
  · have hd := decomposed_of_builds? hs.sound hb
    refine ⟨hd.wellOwned, fun calls c' b' hb' k hk l hl => ?_⟩
    have hsound := (hs.call solver c).sound
    have hkn : k.id.number < b.nextCluster :=
      hd.numbered.below _ (List.mem_map.mpr ⟨k, hk, rfl⟩)
    have hlater := nextCluster_runAll_le hsound solver calls
    rw [(builds?_eq_some hs.sound hb).2 solver] at hlater
    exact lt_of_builds? ((hs.call solver c).runAll solver calls).sound hb' (hkn.trans_le hlater)
      (List.mem_map.mpr ⟨l, hl, rfl⟩)
  · refine ⟨fun p hp => ?_, getLast?_points_prepared hn solver⟩
    exact (hs.sound.follows_of_mem_points hn hp).decomposed.wellOwned

/-- The clusters share a point, so that each of them has a copy of it. -/
theorem wellOwned_bowTie :
    (Call.runAll solveLinear Call.bowTie {}).build.WellOwned ∧
      ∀ p ∈ (Call.runAll solveLinear Call.bowTie {}).prepared.points solveLinear,
        p.sketch.WellOwned := by
  have hs := (Reachable.new {}).runAll solveLinear Call.bowTie
  have hb : (Call.runAll solveLinear Call.bowTie {}).built = false := by decide +kernel
  have hn : (Call.runAll solveLinear Call.bowTie {}).isSettled = false := by decide +kernel
  obtain ⟨hbuilt, hsolve⟩ := Reachable.wellOwned_throughout hs solveLinear
  exact ⟨(hbuilt .build _ (Call.builds?_build hb)).1, (hsolve hn).1⟩

theorem Reachable.partitioned_throughout {s : Sketch} (hs : Reachable s)
    (solver : LinearSolver) :
    (∀ c b, Call.builds? c s = some b → Partitioned b) ∧
    (s.isSettled = false →
      (∀ p ∈ s.prepared.points solver, Partitioned p.sketch ∧
        ∀ e, p.sketch.Holds e ↔ s.prepared.Holds e) ∧
      (s.prepared.points solver).getLast? =
        some ⟨.closed (s.solve solver).2, (s.solve solver).1⟩) := by
  refine ⟨fun c b hb => (decomposed_of_builds? hs.sound hb).partitioned, fun hn => ?_⟩
  refine ⟨fun p hp => ?_, getLast?_points_prepared hn solver⟩
  have hfollows := hs.sound.follows_of_mem_points hn hp
  exact ⟨hfollows.decomposed.partitioned, hfollows.holds⟩

/-- The bars are free until relaxation joins the triangles. -/
theorem partitioned_prism :
    Partitioned (Call.runAll solveLinear Call.prism {}).build ∧
      ∀ p ∈ (Call.runAll solveLinear Call.prism {}).prepared.points solveLinear,
        Partitioned p.sketch := by
  have hs := (Reachable.new {}).runAll solveLinear Call.prism
  have hb : (Call.runAll solveLinear Call.prism {}).built = false := by decide +kernel
  have hn : (Call.runAll solveLinear Call.prism {}).isSettled = false := by decide +kernel
  obtain ⟨hbuilt, hsolve⟩ := Reachable.partitioned_throughout hs solveLinear
  exact ⟨hbuilt .build _ (Call.builds?_build hb), fun p hp => ((hsolve hn).1 p hp).1⟩

end Sketch

end RigidSketch
