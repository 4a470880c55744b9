import RigidSketch.Proofs.Preparation
import RigidSketch.Proofs.WellPosed

/-! What a solve leaves alone, whatever comes of it: which elements and constraints there are and
of what kinds, and each element that no constraint is on. -/

namespace RigidSketch

open LeastSquares (LinearSolver solveLinear)

namespace Sketch

/-- Elements outside every cluster stay as they are, and outside. -/
structure Spares (s t : Sketch) : Prop where
  elements : ∀ e ∈ s.elements.elements, ¬ s.Holds e.id → e ∈ t.elements.elements
  holds : ∀ e, t.Holds e → s.Holds e

theorem Spares.refl (s : Sketch) : Spares s s := ⟨fun _ he _ => he, fun _ h => h⟩

theorem Spares.trans {s t u : Sketch} (h : Spares s t) (h' : Spares t u) : Spares s u :=
  ⟨fun e he hout => h'.elements e (h.elements e he hout) fun hin => hout (h.holds e.id hin),
    fun e hin => h.holds e (h'.holds e hin)⟩

theorem mem_elements_mapWhere {t : ElementTable} {p : ElementId → Bool} {f : Element → Element}
    {e : Element} (he : e ∈ t.elements) (hp : ¬ p e.id) : e ∈ (t.mapWhere p f).elements :=
  List.mem_map.mpr ⟨e, he, if_neg hp⟩

theorem spares_mapWhere {s : Sketch} {p : ElementId → Bool} (hp : ∀ id, p id → s.Holds id)
    (f : Element → Element) : Spares s { s with elements := s.elements.mapWhere p f } :=
  ⟨fun _ he hout => mem_elements_mapWhere he (mt (hp _) hout), fun _ h => h⟩

theorem spares_move {s : Sketch} {k : Cluster} (hk : k ∈ s.clusters) (m : Motion Float) :
    Spares s { s with elements := k.move m s.elements } :=
  spares_mapWhere (fun id hid => ⟨k, hk, by simpa using hid⟩) _

theorem spares_of_eq {s t : Sketch} (he : t.elements = s.elements) (hc : t.clusters = s.clusters) :
    Spares s t := by
  refine ⟨fun e hm _ => by rwa [he], ?_⟩
  rintro e ⟨k, hk, hm⟩
  exact ⟨k, hc ▸ hk, hm⟩

theorem Regroup.spares {s t : Sketch} (h : Regroup s t) : Spares s t := by
  cases h with
  | move k m =>
    unfold moveCluster
    split
    · rename_i c hc
      exact spares_move (List.mem_of_find?_eq_some hc) m
    · exact .refl s
  | absorb anchor moving links =>
    unfold Sketch.absorb
    split
    · exact .refl s
    · rename_i gone hgone
      have hmem := List.mem_of_find?_eq_some hgone
      have hin : ∀ id, decide (id ∈ gone.elements) = true → s.Holds id :=
        fun id hid => ⟨gone, hmem, by simpa using hid⟩
      have helements := (spares_mapWhere hin (·.reassign moving anchor)).elements
      have herase : ∀ l ∈ s.clusters.eraseP (·.id = moving), l ∈ s.clusters :=
        fun l hl => List.mem_of_mem_eraseP hl
      dsimp only
      split
      · exact ⟨helements, fun e ⟨l, hl, he⟩ => ⟨l, herase l hl, he⟩⟩
      · rename_i k hk
        refine ⟨helements, ?_⟩
        rintro e ⟨l, hl, he⟩
        obtain ⟨l', hl', rfl⟩ := List.mem_map.mp hl
        split at he
        · -- what the anchor holds now it held before, or the absorbed cluster did
          rcases OrderedSet.mem_insertAll.mp he with he | he
          · exact ⟨k, herase k (List.mem_of_find?_eq_some hk), he⟩
          · exact ⟨gone, hmem, he⟩
        · exact ⟨l', herase l' hl', he⟩

theorem Regroups.spares {s t : Sketch} (h : Regroups s t) : Spares s t := by
  induction h with
  | refl => exact .refl s
  | tail _ hstep ih => exact ih.trans hstep.spares

theorem spares_placeSteps {s : Sketch} (hf : Fresh s) {k : Cluster} (hk : k ∈ s.clusters)
    {steps : List GrowthStep} (hsteps : ∀ step ∈ steps, step ∈ k.steps) :
    Spares s { s with
      elements := (k.placeSteps s.tolerance s.constraints steps s.elements).1 } := by
  induction steps generalizing s with
  | nil => exact .refl s
  | cons step steps ih =>
    unfold Cluster.placeSteps
    rcases placeStep_cases hf hk (hsteps step List.mem_cons_self) with h | ⟨e, he, g, h⟩
    · rw [h]
      exact .refl s
    · rw [h]
      have hwrite : Spares s { s with elements := s.elements.setShapeIn k.id e g } :=
        spares_mapWhere (p := (· = e)) (fun id hid => ⟨k, hk, by rwa [of_decide_eq_true hid]⟩) _
      exact hwrite.trans (ih (hf.moved (moved_setShapeIn s k.id e g)) hk
        fun step hs => hsteps step (List.mem_cons_of_mem _ hs))

theorem spares_anchor {s : Sketch} {k : Cluster} (hk : k ∈ s.clusters) :
    Spares s { s with elements := (k.anchor s.tolerance s.elements).1 } := by
  unfold Cluster.anchor
  split
  · exact .refl s
  · split
    · exact .refl s
    · exact spares_move hk _

theorem spares_settle {s : Sketch} (hd : Decomposed s) :
    Spares s { s with elements := s.elements.map (·.settle) } := by
  refine ⟨fun e he hout => List.mem_map.mpr ⟨e, he, ?_⟩, fun _ h => h⟩
  have howners : e.owners = [] := by
    simpa [Element.isClaimed] using mt (isClaimed_iff hd.owned he).mp hout
  rw [Element.settle, howners]

theorem spares_joinIntoFirst (s : Sketch) : Spares s s.joinIntoFirst := by
  unfold joinIntoFirst
  split
  · exact .refl s
  · rename_i first rest _
    have hjoin := (regroups_foldl_absorb first.id rest s).spares
    refine ⟨hjoin.elements, ?_⟩
    rintro e ⟨l, hl, he⟩
    obtain ⟨l', hl', rfl⟩ := List.mem_map.mp hl
    refine hjoin.holds e ⟨l', hl', ?_⟩
    split at he <;> exact he

theorem spares_relax (solver : LinearSolver) {s : Sketch} (hd : Decomposed s) :
    Spares s (s.relax solver).1 := by
  unfold relax
  cases hr : s.relaxation? solver with
  | none => exact .refl s
  | some p =>
    obtain ⟨members, target⟩ := p
    have hdrag := (moveOnto_eq_drag target members s).1
    have hmoved := moved_drag s (ontoMoves target members s)
    have hspares := (regroups_drag s (ontoMoves target members s)).spares
    rw [← hdrag] at hmoved hspares
    dsimp only
    split
    · rename_i t heq
      rw [heq] at hmoved hspares
      rw [map_placeLoose hd hr hmoved]
      exact hspares.trans (spares_joinIntoFirst t)
    · exact hspares

theorem spares_finish (s : Sketch) (status : Status) : Spares s (s.finish status).1 := by
  unfold finish
  split <;> exact spares_of_eq rfl rfl

end Sketch

theorem Point.spares_step {b : Sketch} {p : Point} (h : Underway b p) (solver : LinearSolver)
    (coverage : Status) :
    p.sketch.Spares (step solver coverage p).sketch := by
  have hd := h.follows.decomposed
  obtain ⟨stage, s⟩ := p
  cases stage with
  | realizing todo =>
    cases todo with
    | nil => exact .refl s
    | cons k todo =>
      obtain ⟨hf, hin⟩ := h.fresh (k :: todo) rfl
      exact Sketch.spares_placeSteps hf (hin k List.mem_cons_self) fun _ hm => hm
  | anchoring k todo =>
    obtain ⟨_, hin⟩ := h.fresh (k :: todo) rfl
    exact Sketch.spares_anchor (hin k List.mem_cons_self)
  | joining rounds =>
    cases rounds with
    | zero => exact .refl s
    | succ rounds =>
      have hjoin := s.regroups_joinOnce.spares
      dsimp only [step]
      split
      · exact .refl s
      · rcases hr : s.joinOnce with ⟨t, outcome⟩
        rw [hr] at hjoin
        cases outcome with
        | none => exact hjoin
        | some outcome => cases outcome <;> exact hjoin
  | relaxing =>
    dsimp only [step]
    split
    · exact Sketch.spares_relax solver hd
    · exact .refl s
  | settling => exact (Sketch.spares_settle hd).trans (Sketch.spares_of_eq rfl rfl)
  | closing status => exact Sketch.spares_finish s status
  | closed status => exact .refl s

namespace Sketch

theorem spares_solveBuilt {b : Sketch} (hg : b.Grounded) (hf : b.Fresh)
    (solver : LinearSolver) : Spares b (b.solveBuilt solver).1 := by
  refine solveBuilt_induction hg hf (.refl b) fun p h ih => ?_
  exact ih.trans (Point.spares_step h solver _)

/-- No constraint is on the element. -/
def IsUnconstrained (s : Sketch) (e : Element) : Prop :=
  ∀ c ∈ s.constraints.constraints, e.id ∉ c.ends

theorem Reachable.mem_solve_of_isUnconstrained {s : Sketch} (hs : Reachable s)
    (solver : LinearSolver) {e : Element} (he : e ∈ s.elements.elements)
    (hfree : s.IsUnconstrained e) :
    ∃ e' ∈ (s.solve solver).1.elements.elements, e'.id = e.id ∧ e'.shape = e.shape := by
  cases hn : s.isSettled with
  | true =>
    rw [solve_eq_of_isSettled hn]
    exact ⟨e, he, rfl, rfl⟩
  | false =>
    obtain ⟨hg, hf⟩ := hs.sound.prepared hn
    obtain ⟨t, ht, hbuilt, halike, hprepared⟩ := hs.prepared_eq_build hn
    have hdrawing := (halike.trans (alike_build ht.sound.grounded hbuilt)).elements
    rw [← hprepared] at hdrawing
    have hm : (e.id, e.shape, e.fixed) ∈ s.prepared.elements.drawing := by
      rw [hdrawing]
      exact List.mem_map.mpr ⟨e, he, rfl⟩
    obtain ⟨e', he', heq⟩ := List.mem_map.mp hm
    simp only [Prod.mk.injEq] at heq
    have hout : ¬ s.prepared.Holds e'.id := by
      intro hin
      obtain ⟨c, hc, hce⟩ := hf.decomposed.touched e'.id hin
      obtain ⟨d, hd, hsame⟩ :=
        ConstraintTable.mem_of_unsolved (sameProblem_prepared s).constraints.symm hc
      refine hfree d hd ?_
      rwa [hsame.ends, ← heq.1]
    rw [solve_eq_of_not_isSettled hn]
    exact ⟨e', (spares_solveBuilt hg hf solver).elements e' he' hout, heq.1, heq.2.1⟩

/-- Nothing but places, levels, clusters and what was found of the constraints is different. -/
structure Framed (s t : Sketch) : Prop where
  settings : t.settings = s.settings
  elements : t.elements.elements.map (fun e => (e.id, e.shape.kind, e.fixed)) =
    s.elements.elements.map fun e => (e.id, e.shape.kind, e.fixed)
  constraints : t.constraints.constraints.map (fun c => (c.id, c.kind, c.ends, c.value)) =
    s.constraints.constraints.map fun c => (c.id, c.kind, c.ends, c.value)
  index : t.constraints.index = s.constraints.index
  copies : ∀ e ∈ t.elements.elements, ∀ p ∈ e.copies, p.2.shape.kind = e.shape.kind
  unconstrained : ∀ e ∈ s.elements.elements, s.IsUnconstrained e →
    (t.elements.get? e.id).map (·.shape) = some e.shape

theorem SameProblem.framed {s t : Sketch} (h : SameProblem s t)
    (hakin : s.elements.Akin t.elements)
    (hfree : ∀ e ∈ s.elements.elements, s.IsUnconstrained e →
      (t.elements.get? e.id).map (·.shape) = some e.shape) : Framed s t := by
  have hzip : ∀ u : ElementTable, u.elements.map (fun e => (e.id, e.shape.kind, e.fixed)) =
      (u.kinds.zip u.roster).map fun p => (p.1.1, p.1.2, p.2.2) := by
    intro u
    simp [ElementTable.kinds, ElementTable.roster, List.zip_map', Function.comp_def]
  have hunsolved : ∀ u : ConstraintTable,
      u.constraints.map (fun c => (c.id, c.kind, c.ends, c.value)) =
        u.unsolved.constraints.map fun c => (c.id, c.kind, c.ends, c.value) := by
    intro u
    simp [ConstraintTable.unsolved, ConstraintTable.map, Function.comp_def, Constraint.ends]
  refine ⟨h.settings, ?_, ?_, ?_, hakin.uniform, hfree⟩
  · rw [hzip, hzip, hakin.kinds, h.roster]
  · rw [hunsolved t.constraints, h.constraints, ← hunsolved]
  · simpa using congrArg ConstraintTable.index h.constraints

/-- Whatever the outcome, a solve leaves the sketch with the same elements and constraints, and
each element that no constraint is on in its place. -/
theorem Reachable.framed_solve {s : Sketch} (hs : Reachable s) (solver : LinearSolver) :
    Framed s (s.solve solver).1 := by
  have hproblem := hs.sound.sameProblem_solve solver
  refine hproblem.framed (hs.sound.akin_solve hs.posed.uniform solver) fun e he hfree => ?_
  obtain ⟨e', he', hid, hshape⟩ := hs.mem_solve_of_isUnconstrained solver he hfree
  have hg := hs.sound.grounded.congr hproblem
  rw [(ElementTable.get?_eq_some_iff hg.elements).mpr ⟨he', hid⟩, Option.map_some, hshape]

end Sketch

/-- Two fixed points too far apart for the bars between them, a line across, and a point that is
left over. -/
def Call.strained : List Call :=
  [addPoint true 0 0, addPoint false 2 0, addPoint true 6 0, addPoint false 2 2,
    addLine false 0 1 (-1), addPoint false 9 9, constrain .distance ⟨0⟩ ⟨1⟩ 2,
    constrain .distance ⟨1⟩ ⟨2⟩ 2, constrain .distance ⟨2⟩ ⟨3⟩ 3, constrain .distance ⟨3⟩ ⟨0⟩ 3,
    constrain .distance ⟨1⟩ ⟨4⟩ 1]

namespace Sketch

/-- The solve fails on the way, with copies left in clusters. -/
theorem framed_solve_strained :
    ((Call.runAll solveLinear Call.strained {}).solve solveLinear).2 = .unconverged ∧
      (∃ e ∈ ((Call.runAll solveLinear Call.strained {}).solve solveLinear).1.elements.elements,
        e.copies ≠ []) ∧
      Framed (Call.runAll solveLinear Call.strained {})
        ((Call.runAll solveLinear Call.strained {}).solve solveLinear).1 :=
  ⟨by decide +kernel, by decide +kernel,
    Reachable.framed_solve ((Reachable.new {}).runAll solveLinear Call.strained) solveLinear⟩

end Sketch

end RigidSketch
