import RigidSketch.Proofs.Joining

/-! Realizing the clusters of a sketch that was just built. Every cluster has copies of its
fixed elements then, and places and anchors these. -/

namespace RigidSketch

namespace Sketch

/-- The sketch is as building left it, though clusters may have been moved since. -/
structure Fresh (s : Sketch) : Prop where
  decomposed : Decomposed s
  sheltered : ∀ e ∈ s.elements.elements, e.Sheltered
  founded : ∀ k ∈ s.clusters, k.Founded

theorem fresh_build {s : Sketch} (hg : Grounded s) (hb : s.built = false) : Fresh s.build := by
  have h := assembled_build hg hb
  exact ⟨decomposed_build hg hb, h.sheltered, h.founded⟩

theorem Fresh.moved {s t : Sketch} (h : Fresh s) (hm : Moved s t) : Fresh t := by
  have hd := (hm.follows h.decomposed).decomposed
  obtain ⟨f, hf, rfl⟩ := hm
  refine ⟨hd, fun e' he' => ?_, h.founded⟩
  obtain ⟨e, he, rfl⟩ := List.mem_map.mp he'
  exact (hf e).sheltered (h.sheltered e he)

theorem Fresh.shelters {s : Sketch} (h : Fresh s) {k : Cluster} (hk : k ∈ s.clusters) :
    s.Shelters k := by
  intro e he hf hm
  exact h.sheltered e he hf k.id ((h.decomposed.owned.owners e he k.id).mpr ⟨k, hk, rfl, hm⟩)

theorem moved_setShapeIn (s : Sketch) (k : ClusterId) (e : ElementId) (g : Shape Float) :
    Moved s { s with elements := s.elements.setShapeIn k e g } := by
  refine ⟨fun x => if x.id = e then x.setShapeIn k g else x, fun x => ?_, ?_⟩
  · dsimp only
    split
    · exact x.reshaped_setShapeIn k g
    · exact .refl x
  · simp [ElementTable.setShapeIn, ElementTable.modify, ElementTable.mapWhere, ElementTable.map]

/-- What realizing a cluster leaves: changes that move its elements or their copies. -/
structure Realized (s : Sketch) (r : ElementTable × Status) : Prop where
  changes : Changes s { s with elements := r.1 }
  moved : Moved s { s with elements := r.1 }
  status : r.2 = .solved ∨ r.2 = .unconverged ∨ r.2 = .overconstrained

theorem placeStep_cases {s : Sketch} (hf : Fresh s) {k : Cluster}
    (hk : k ∈ s.clusters) {step : GrowthStep} (hstep : step ∈ k.steps) :
    k.placeStep s.tolerance s.constraints s.elements step = .error .unconverged ∨
      ∃ e ∈ k.elements, ∃ g, k.placeStep s.tolerance s.constraints s.elements step =
        .ok (s.elements.setShapeIn k.id e g) := by
  cases step with
  | seed id =>
    have hid := (hf.founded k hk).seeds id hstep
    unfold Cluster.placeStep Cluster.placeSeed
    dsimp only
    cases hget : s.constraints.get? id with
    | none => exact Or.inl rfl
    | some c =>
      obtain ⟨hc, rfl⟩ := ConstraintTable.mem_of_get? hget
      have hends := hf.decomposed.partitioned.inside k hk c hc hid
      -- the seed writes whichever end gives way, and both are in the cluster
      obtain ⟨keeper, mover, horder, hmover⟩ : ∃ keeper mover,
          (if s.elements.isFixed c.second && !s.elements.isFixed c.first then
            (c.second, c.first) else (c.first, c.second)) = (keeper, mover) ∧
          mover ∈ k.elements := by
        split
        · exact ⟨_, _, rfl, hends c.first (by simp [Constraint.ends])⟩
        · exact ⟨_, _, rfl, hends c.second (by simp [Constraint.ends])⟩
      dsimp only
      rw [horder]
      dsimp only
      split
      · split
        · exact Or.inr ⟨mover, hmover, _, rfl⟩
        · exact Or.inl rfl
      · exact Or.inl rfl
  | place e c₁ c₂ =>
    have he := (hf.founded k hk).places e c₁ c₂ hstep
    unfold Cluster.placeStep Cluster.placeElement
    dsimp only
    split
    · split
      · exact Or.inr ⟨e, he, _, rfl⟩
      · exact Or.inl rfl
    · exact Or.inl rfl

theorem realized_placeSteps {s : Sketch} (hf : Fresh s) {k : Cluster}
    (hk : k ∈ s.clusters) {steps : List GrowthStep} (hsteps : ∀ step ∈ steps, step ∈ k.steps) :
    Realized s (k.placeSteps s.tolerance s.constraints steps s.elements) := by
  induction steps generalizing s with
  | nil => exact ⟨.refl, .refl s, Or.inl rfl⟩
  | cons step steps ih =>
    unfold Cluster.placeSteps
    rcases placeStep_cases hf hk (hsteps step List.mem_cons_self) with h | ⟨e, he, g, h⟩
    · rw [h]
      exact ⟨.refl, .refl s, Or.inr (Or.inl rfl)⟩
    · rw [h]
      have hmoved := moved_setShapeIn s k.id e g
      have hrest := ih (hf.moved hmoved) hk
        fun step hs => hsteps step (List.mem_cons_of_mem _ hs)
      exact ⟨.head (.write hk he (hf.shelters hk) g) hrest.changes, hmoved.trans hrest.moved,
        hrest.status⟩

theorem realized_anchor {s : Sketch} (hf : Fresh s) {k : Cluster} (hk : k ∈ s.clusters) :
    Realized s (k.anchor s.tolerance s.elements) := by
  unfold Cluster.anchor
  split
  · exact ⟨.refl, .refl s, Or.inl rfl⟩
  · split
    · exact ⟨.refl, .refl s, Or.inr (Or.inr rfl)⟩
    · rename_i m _
      have hstep := Change.move hk (hf.shelters hk) m
      have hmoved := moved_moveCluster s k.id m
      rw [moveCluster_eq hf.decomposed hk m] at hmoved
      refine ⟨.single hstep, hmoved, ?_⟩
      dsimp only
      split
      · exact Or.inl rfl
      · exact Or.inr (Or.inr rfl)

end Sketch

end RigidSketch
