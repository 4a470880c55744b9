import Mathlib.Tactic.FieldSimp
import Mathlib.Tactic.LinearCombination
import RigidSketch.Proofs.ExactPlane
import RigidSketch.Relation

/-! What a rigid motion keeps, over the real numbers. Points and lines are moved by different
rules, but both come down to one rotation of displacements, which keeps products of vectors. -/

namespace RigidSketch

namespace Vec

variable (u v : Vec ℝ) (t : ℝ)

theorem dot_rotate : (u.rotate t).dot (v.rotate t) = u.dot v := by
  simp only [dot_eq, rotate_x, rotate_y]
  linear_combination (u.x * v.x + u.y * v.y) * Real.cos_sq_add_sin_sq t

theorem cross_rotate : (u.rotate t).cross (v.rotate t) = u.cross v := by
  simp only [cross_eq, rotate_x, rotate_y]
  linear_combination (u.x * v.y - u.y * v.x) * Real.cos_sq_add_sin_sq t

theorem length_eq_sqrt_dot : u.length = √(u.dot u) := by
  rw [dot_eq, ← sq, ← sq]
  rfl

theorem length_rotate : (u.rotate t).length = u.length := by
  rw [length_eq_sqrt_dot, dot_rotate, ← length_eq_sqrt_dot]

end Vec

namespace Line

variable {l : Line ℝ}

theorem signedDistance_ofNormal (n p q : Vec ℝ) :
    (ofNormal n p).signedDistance q = n.dot (q - p) := by
  simp only [signedDistance_eq, ofNormal_a, ofNormal_b, ofNormal_c, Vec.dot_eq, Vec.sub_x,
    Vec.sub_y]
  ring

theorem IsNormalized.ofNormal_base (h : l.IsNormalized) : ofNormal l.normal l.base = l := by
  unfold IsNormalized at h
  ext
  · rfl
  · rfl
  · simp only [ofNormal_c, normal_x, normal_y, base_x, base_y]
    linear_combination l.c * h

theorem IsNormalized.ofNormal_rotate (h : l.IsNormalized) (t : ℝ) (q : Vec ℝ) :
    (ofNormal (l.normal.rotate t) q).IsNormalized := by
  have hdot := Vec.dot_rotate l.normal l.normal t
  rw [Vec.dot_eq, Vec.dot_eq, ← sq, ← sq, ← sq, ← sq] at hdot
  exact hdot.trans h

theorem direction_ofNormal_rotate (l : Line ℝ) (t : ℝ) (q : Vec ℝ) :
    (ofNormal (l.normal.rotate t) q).direction = l.direction.rotate t := by
  ext
  · simp only [direction_x, direction_y, ofNormal_b, normal_x, normal_y, Vec.rotate_x,
      Vec.rotate_y]
    ring
  · simp only [direction_x, direction_y, ofNormal_a, normal_x, normal_y, Vec.rotate_x,
      Vec.rotate_y]
    ring

theorem IsNormalized.signedDistance_eq_dot (h : l.IsNormalized) (p : Vec ℝ) :
    l.signedDistance p = l.normal.dot (p - l.base) := by
  rw [← signedDistance_ofNormal, h.ofNormal_base]

variable (l) (m : Line ℝ)

theorem crossing?_eq : l.crossing? m =
    let det := l.normal.cross m.normal
    if |det| < Scalar.epsilon then none
    else some ⟨(l.b * m.c - m.b * l.c) / det, (m.a * l.c - l.a * m.c) / det⟩ := by
  have hdet : l.normal.cross m.normal = l.a * m.b - m.a * l.b := by
    rw [Vec.cross_eq, normal_x, normal_y, normal_x, normal_y, mul_comm l.b]
  rw [hdet]
  rfl

theorem crossing?_eq_none_iff : l.crossing? m = none ↔
    |l.normal.cross m.normal| < Scalar.epsilon := by
  rw [crossing?_eq]
  dsimp only
  split
  · next h => exact iff_of_true rfl h
  · next h => exact iff_of_false (by simp) h

variable {l m}

/-- Lines that are not too close to parallel cross in the one place that is on both. -/
theorem crossing?_eq_some_iff {x : Vec ℝ} : l.crossing? m = some x ↔
    Scalar.epsilon ≤ |l.normal.cross m.normal| ∧ l.signedDistance x = 0 ∧
      m.signedDistance x = 0 := by
  rw [crossing?_eq]
  dsimp only
  split
  · next h => simp [not_le.mpr h]
  · next h =>
    have hdet : l.normal.cross m.normal ≠ 0 := by
      intro hzero
      rw [hzero, abs_zero] at h
      exact h Scalar.epsilon_pos
    have hcross : l.normal.cross m.normal = l.a * m.b - l.b * m.a := rfl
    rw [Option.some.injEq, and_iff_right (not_lt.mp h), signedDistance_eq, signedDistance_eq]
    constructor
    · rintro rfl
      constructor <;> field_simp <;> rw [hcross] <;> ring
    · rintro ⟨hl, hm⟩
      ext
      · rw [div_eq_iff hdet, hcross]
        linear_combination l.b * hm - m.b * hl
      · rw [div_eq_iff hdet, hcross]
        linear_combination m.a * hl - l.a * hm

end Line

/-- A line is told by a unit normal. -/
def Shape.IsNormalized : Shape ℝ → Prop
  | .point _ => True
  | .line l => l.IsNormalized

namespace Motion

variable (m : Motion ℝ) (p q : Vec ℝ) (l k : Line ℝ)

theorem movePoint_x : (m.movePoint p).x = m.pivot.x + ((p.x - m.pivot.x) * Real.cos m.angle -
    (p.y - m.pivot.y) * Real.sin m.angle) + m.shift.x := rfl

theorem movePoint_y : (m.movePoint p).y = m.pivot.y + ((p.x - m.pivot.x) * Real.sin m.angle +
    (p.y - m.pivot.y) * Real.cos m.angle) + m.shift.y := rfl

theorem movePoint_sub : m.movePoint p - m.movePoint q = (p - q).rotate m.angle := by
  ext
  · simp only [Vec.sub_x, Vec.sub_y, Vec.rotate_x, movePoint_x]
    ring
  · simp only [Vec.sub_x, Vec.sub_y, Vec.rotate_y, movePoint_y]
    ring

/-- A line is moved by its normal and one of its points. -/
theorem moveLine_eq : m.moveLine l = .ofNormal (l.normal.rotate m.angle) (m.movePoint l.base) := by
  have hshift : m.moveLine l = (Line.ofNormal (l.normal.rotate m.angle)
      (l.base.rotateAbout m.pivot m.angle)).shift m.shift := rfl
  have hmove : m.movePoint l.base = l.base.rotateAbout m.pivot m.angle + m.shift := rfl
  rw [hshift, hmove]
  ext
  · rfl
  · rfl
  · simp only [Line.shift_c, Line.ofNormal_a, Line.ofNormal_b, Line.ofNormal_c, Vec.add_x,
      Vec.add_y]
    ring

theorem normal_moveLine : (m.moveLine l).normal = l.normal.rotate m.angle := by
  rw [moveLine_eq]
  rfl

theorem direction_moveLine : (m.moveLine l).direction = l.direction.rotate m.angle := by
  rw [moveLine_eq, Line.direction_ofNormal_rotate]

theorem distance_movePoint : (m.movePoint p).distance (m.movePoint q) = p.distance q := by
  rw [Vec.distance, movePoint_sub, Vec.length_rotate, Vec.distance]

theorem angleTo_moveLine : (m.moveLine l).angleTo (m.moveLine k) = l.angleTo k := by
  rw [Line.angleTo, direction_moveLine, direction_moveLine, Vec.cross_rotate, Vec.dot_rotate,
    Line.angleTo]

variable {l}

theorem isNormalized_moveLine (h : l.IsNormalized) : (m.moveLine l).IsNormalized := by
  rw [moveLine_eq]
  exact h.ofNormal_rotate m.angle _

theorem signedDistance_moveLine (h : l.IsNormalized) :
    (m.moveLine l).signedDistance (m.movePoint p) = l.signedDistance p := by
  rw [moveLine_eq, Line.signedDistance_ofNormal, movePoint_sub, Vec.dot_rotate,
    h.signedDistance_eq_dot]

end Motion

/-- A residual is read off the relation in which the shapes stand. -/
theorem RelationKind.residual?_eq_measure (kind : RelationKind) (v : ℝ) (g h : Shape ℝ) :
    kind.residual? v g h =
      if (g.measure h).1 = kind then
        some (match kind with
          | .distance => (g.measure h).2 - v
          | .angle => Turn.error (g.measure h).2 v)
      else none := by
  cases kind <;> cases g <;> cases h <;> rfl

namespace Motion

variable (m : Motion ℝ) {g h : Shape ℝ}

theorem measure_move (hg : g.IsNormalized) (hh : h.IsNormalized) :
    (m.move g).measure (m.move h) = g.measure h := by
  cases g with
  | point p =>
    cases h with
    | point q => exact congrArg (Prod.mk RelationKind.distance) (m.distance_movePoint p q)
    | line l =>
      have hside := congrArg Scalar.abs (m.signedDistance_moveLine p hh)
      exact congrArg (Prod.mk RelationKind.distance) hside
  | line l =>
    cases h with
    | point q =>
      have hside := congrArg Scalar.abs (m.signedDistance_moveLine q hg)
      exact congrArg (Prod.mk RelationKind.distance) hside
    | line k => exact congrArg (Prod.mk RelationKind.angle) (m.angleTo_moveLine l k)

theorem isNormalized_move (hg : g.IsNormalized) : (m.move g).IsNormalized := by
  cases g with
  | point p => trivial
  | line l => exact m.isNormalized_moveLine hg

/-- A rigid motion keeps lines normalized, the relation in which two shapes stand, and how far they
are from any relation they may be held to. -/
theorem keeps_relations (hg : g.IsNormalized) (hh : h.IsNormalized) :
    (m.move g).IsNormalized ∧ (m.move h).IsNormalized ∧
    (m.move g).measure (m.move h) = g.measure h ∧
    ∀ (kind : RelationKind) (v : ℝ),
      kind.residual? v (m.move g) (m.move h) = kind.residual? v g h := by
  have hmeasure := m.measure_move hg hh
  refine ⟨m.isNormalized_move hg, m.isNormalized_move hh, hmeasure, fun kind v => ?_⟩
  rw [RelationKind.residual?_eq_measure, hmeasure, ← RelationKind.residual?_eq_measure]

end Motion

noncomputable def Line.slant : Line ℝ := ⟨3 / 5, 4 / 5, -1⟩

theorem Line.isNormalized_slant : slant.IsNormalized := by
  change (3 / 5 : ℝ) ^ 2 + (4 / 5) ^ 2 = 1
  norm_num

noncomputable def Motion.veer : Motion ℝ := ⟨⟨1, -3⟩, 4, ⟨-3, 5⟩⟩

/-- A point at the distance `9 / 10` from a line is so wherever both are moved. -/
theorem Motion.keeps_relations_veer :
    RelationKind.distance.residual? (9 / 10) (veer.move (.point ⟨1 / 2, 2⟩))
      (veer.move (.line .slant)) = some 0 := by
  have hline : (Shape.line .slant).IsNormalized := Line.isNormalized_slant
  have hkeeps := veer.keeps_relations (g := .point ⟨1 / 2, 2⟩) trivial hline
  rw [hkeeps.2.2.2]
  change some (|(3 / 5 : ℝ) * (1 / 2) + 4 / 5 * 2 + -1| - 9 / 10) = some 0
  norm_num

end RigidSketch
