import RigidSketch.Proofs.Angles
import RigidSketch.Proofs.Rigidity

/-! Motions that are recovered from what they do to two shapes, over the real numbers. A motion is
told by its turn, up to full turns, and where it takes one place. -/

namespace RigidSketch

namespace Motion

variable {m t : Motion ℝ} {p q : Vec ℝ} {l k : Line ℝ} {tolerance : ℝ}

/-- The motion takes every shape to where the other one takes it. -/
def ActsAs (t m : Motion ℝ) : Prop := ∀ g : Shape ℝ, t.move g = m.move g

theorem actsAs_of_angle (hangle : (t.angle : Real.Angle) = m.angle)
    (hp : t.movePoint p = m.movePoint p) : t.ActsAs m := by
  have hpoint : ∀ q, t.movePoint q = m.movePoint q := by
    intro q
    have hsub : t.movePoint q - t.movePoint p = m.movePoint q - m.movePoint p := by
      rw [movePoint_sub, movePoint_sub, Vec.rotate_congr _ hangle]
    rw [hp] at hsub
    ext
    · exact sub_left_injective (congrArg Vec.x hsub)
    · exact sub_left_injective (congrArg Vec.y hsub)
  intro g
  cases g with
  | point q => exact congrArg Shape.point (hpoint q)
  | line l =>
    refine congrArg Shape.line ?_
    rw [moveLine_eq, moveLine_eq, hpoint, Vec.rotate_congr _ hangle]

/-- The motion about a place that takes it to where another motion does. -/
noncomputable def about (p : Vec ℝ) (angle : ℝ) (m : Motion ℝ) : Motion ℝ :=
  ⟨p, angle, m.movePoint p - p⟩

theorem movePoint_about (p : Vec ℝ) (angle : ℝ) (m : Motion ℝ) :
    (about p angle m).movePoint p = m.movePoint p := by
  ext
  · simp [movePoint_x, about]
  · simp [movePoint_y, about]

theorem about_actsAs {angle : ℝ} (h : (angle : Real.Angle) = m.angle) :
    (about p angle m).ActsAs m :=
  actsAs_of_angle h (movePoint_about p angle m)

theorem about_halfTurned_actsAs {angle : ℝ} (h : (angle : Real.Angle) = m.angle + Real.pi) :
    (about p angle m).halfTurned.ActsAs m := by
  have hhalf : (about p angle m).halfTurned = about p (Turn.wrap (angle + Real.pi)) m := rfl
  rw [hhalf]
  refine about_actsAs ?_
  rw [Turn.coe_wrap, Real.Angle.coe_add, h, add_assoc, Real.Angle.coe_pi_add_coe_pi, add_zero]

theorem crossing?_moveLine (hl : l.IsNormalized) (hk : k.IsNormalized) :
    (m.moveLine l).crossing? (m.moveLine k) = (l.crossing? k).map m.movePoint := by
  have hcross : (m.moveLine l).normal.cross (m.moveLine k).normal = l.normal.cross k.normal := by
    rw [normal_moveLine, normal_moveLine, Vec.cross_rotate]
  cases hx : l.crossing? k with
  | none =>
    rw [Line.crossing?_eq_none_iff] at hx
    exact (Line.crossing?_eq_none_iff _ _).mpr (hcross ▸ hx)
  | some x =>
    rw [Line.crossing?_eq_some_iff] at hx
    rw [Option.map_some, Line.crossing?_eq_some_iff, hcross, m.signedDistance_moveLine x hl,
      m.signedDistance_moveLine x hk]
    exact hx

theorem fitPoints_movePoint (ht : 0 ≤ tolerance) (m : Motion ℝ) (p q : Vec ℝ) :
    fitPoints tolerance p q (m.movePoint p) (m.movePoint q) =
      if p.distance q ≤ tolerance then .error .degenerate
      else .ok (about p (Turn.wrap ((m.movePoint q - m.movePoint p).angle - (q - p).angle)) m) := by
  have hclose : ¬ tolerance < |p.distance q - (m.movePoint p).distance (m.movePoint q)| := by
    rw [distance_movePoint, sub_self, abs_zero]
    exact not_lt.mpr ht
  exact if_neg hclose

theorem fitPointLine_move (ht : 0 ≤ tolerance) (m : Motion ℝ) (p : Vec ℝ) (hl : l.IsNormalized) :
    fitPointLine tolerance p l (m.movePoint p) (m.moveLine l) =
      let turn := Turn.wrap ((m.moveLine l).normal.angle - l.normal.angle)
      .ok (about p (if |l.signedDistance p| ≤ tolerance then Turn.shorterHalf turn else turn)
        m) := by
  unfold fitPointLine
  rw [m.signedDistance_moveLine p hl]
  simp [about, not_lt.mpr ht]

theorem fitLines_moveLine (ht : 0 ≤ tolerance) (m : Motion ℝ) (hl : l.IsNormalized)
    (hk : k.IsNormalized) :
    fitLines tolerance l k (m.moveLine l) (m.moveLine k) =
      match l.crossing? k with
      | some x =>
        .ok (about x (Turn.wrap ((m.moveLine l).direction.angle - l.direction.angle)) m)
      | none => .error .degenerate := by
  have hclose : ¬ tolerance <
      |Turn.wrapHalf (l.angleTo k - (m.moveLine l).angleTo (m.moveLine k))| := by
    rw [angleTo_moveLine, sub_self, (Turn.wrapHalf_eq_zero_iff 0).mpr (by simp), abs_zero]
    exact not_lt.mpr ht
  unfold fitLines
  rw [crossing?_moveLine hl hk]
  refine (if_neg hclose).trans ?_
  cases l.crossing? k <;> rfl

theorem coe_turn {v : Vec ℝ} (hv : v.length ≠ 0) (angle : ℝ) :
    ((Turn.wrap ((v.rotate angle).angle - v.angle) : ℝ) : Real.Angle) = angle := by
  rw [Turn.coe_wrap, Real.Angle.coe_sub, Vec.coe_angle_rotate hv, add_sub_cancel_left]

end Motion

namespace Shape

/-- Two shapes that may be where they are by more motions than half turns apart. -/
def LeaveFree (tolerance : ℝ) : Shape ℝ → Shape ℝ → Prop
  | .point p, .point q => p.distance q ≤ tolerance
  | .line l, .line k => |l.normal.cross k.normal| < Scalar.epsilon
  | _, _ => False

/-- A point and a line that count as incident, so that half a turn about the point keeps both. -/
def Incident (tolerance : ℝ) : Shape ℝ → Shape ℝ → Prop
  | .point p, .line l => |l.signedDistance p| ≤ tolerance
  | .line l, .point p => |l.signedDistance p| ≤ tolerance
  | _, _ => False

end Shape

namespace Motion

variable {tolerance : ℝ}

/-- The result of a fit to what a motion does to two shapes. -/
structure Recovers (tolerance : ℝ) (g h : Shape ℝ) (m : Motion ℝ)
    (result : Except FitError (Motion ℝ)) : Prop where
  congruent : result ≠ .error .mismatch
  degenerate : result = .error .degenerate ↔ g.LeaveFree tolerance h
  acts : ∀ t, result = .ok t → t.ActsAs m ∨ t.halfTurned.ActsAs m
  sharp : ∀ t, result = .ok t → ¬ g.Incident tolerance h → t.ActsAs m

theorem recovers_error {g h : Shape ℝ} (hfree : g.LeaveFree tolerance h) (m : Motion ℝ) :
    Recovers tolerance g h m (.error .degenerate) :=
  ⟨by simp, iff_of_true rfl hfree, nofun, nofun⟩

theorem recovers_ok {g h : Shape ℝ} {m t : Motion ℝ} (hfree : ¬ g.LeaveFree tolerance h)
    (ht : t.ActsAs m ∨ g.Incident tolerance h ∧ t.halfTurned.ActsAs m) :
    Recovers tolerance g h m (.ok t) := by
  refine ⟨by simp, iff_of_false (by simp) hfree, ?_, ?_⟩
  · rintro _ ⟨⟩
    exact ht.imp_right And.right
  · rintro _ ⟨⟩ hoff
    exact ht.resolve_right fun hon => hoff hon.1

theorem recovers_fitPoints (ht : 0 ≤ tolerance) (m : Motion ℝ) (p q : Vec ℝ) :
    Recovers tolerance (.point p) (.point q) m
      (fitPoints tolerance p q (m.movePoint p) (m.movePoint q)) := by
  rw [fitPoints_movePoint ht]
  split
  · next hclose =>
    exact recovers_error (show (Shape.point p).LeaveFree tolerance (.point q) from hclose) m
  · next hfar =>
    refine recovers_ok hfar (Or.inl (about_actsAs ?_))
    have hne : (q - p).length ≠ 0 := by
      rw [Vec.length_sub]
      exact (ht.trans_lt (not_le.mp hfar)).ne'
    rw [movePoint_sub, coe_turn hne]

theorem recovers_fitPointLine (ht : 0 ≤ tolerance) (m : Motion ℝ) (p : Vec ℝ) {l : Line ℝ}
    (hl : l.IsNormalized) {g h : Shape ℝ} (hfree : ¬ g.LeaveFree tolerance h)
    (hon : |l.signedDistance p| ≤ tolerance → g.Incident tolerance h) :
    Recovers tolerance g h m (fitPointLine tolerance p l (m.movePoint p) (m.moveLine l)) := by
  have hne := hl.length_normal_ne_zero
  rw [fitPointLine_move ht m p hl, normal_moveLine]
  refine recovers_ok hfree ?_
  split
  · next hclose =>
    rcases Turn.coe_shorterHalf (Turn.wrap ((l.normal.rotate m.angle).angle - l.normal.angle))
      with hturn | hturn
    · exact Or.inl (about_actsAs (hturn.trans (coe_turn hne m.angle)))
    · rw [coe_turn hne] at hturn
      exact Or.inr ⟨hon hclose, about_halfTurned_actsAs hturn⟩
  · exact Or.inl (about_actsAs (coe_turn hne m.angle))

theorem recovers_fitLines (ht : 0 ≤ tolerance) (m : Motion ℝ) {l k : Line ℝ}
    (hl : l.IsNormalized) (hk : k.IsNormalized) :
    Recovers tolerance (.line l) (.line k) m
      (fitLines tolerance l k (m.moveLine l) (m.moveLine k)) := by
  have hne := hl.length_direction_ne_zero
  rw [fitLines_moveLine ht m hl hk, direction_moveLine]
  cases hx : l.crossing? k with
  | none =>
    have hfree : (Shape.line l).LeaveFree tolerance (.line k) :=
      (Line.crossing?_eq_none_iff l k).mp hx
    exact recovers_error hfree m
  | some x =>
    have hcross := (Line.crossing?_eq_some_iff.mp hx).1
    exact recovers_ok (not_lt.mpr hcross) (Or.inl (about_actsAs (coe_turn hne m.angle)))

/-- A motion is recovered from what it does to two shapes, unless they leave it free. A point on a
line leaves open half a turn, and nothing else does. -/
theorem recovers_fit {g h : Shape ℝ} (m : Motion ℝ) (hg : g.IsNormalized) (hh : h.IsNormalized)
    (ht : 0 ≤ tolerance) :
    Recovers tolerance g h m (fit tolerance (g, h) (m.move g, m.move h)) := by
  cases g with
  | point p =>
    cases h with
    | point q => exact recovers_fitPoints ht m p q
    | line l => exact recovers_fitPointLine ht m p hh id id
  | line l =>
    cases h with
    | point p => exact recovers_fitPointLine ht m p hg id id
    | line k => exact recovers_fitLines ht m hg hh

/-- A point off a line tells a motion from the one that goes half a turn further. -/
theorem recovers_fit_veer :
    ∃ t, fit (1 / 2) (.point ⟨1 / 2, 2⟩, .line .slant)
      (veer.move (.point ⟨1 / 2, 2⟩), veer.move (.line .slant)) = .ok t ∧ t.ActsAs veer := by
  have hrecovers := recovers_fit (g := .point ⟨1 / 2, 2⟩) (h := .line .slant) veer trivial
    Line.isNormalized_slant (show (0 : ℝ) ≤ 1 / 2 by norm_num)
  have hoff : ¬ (Shape.point ⟨1 / 2, 2⟩).Incident (1 / 2) (.line .slant) := by
    change ¬ |(3 / 5 : ℝ) * (1 / 2) + 4 / 5 * 2 + -1| ≤ 1 / 2
    norm_num
  cases hfit : fit (1 / 2) (.point ⟨1 / 2, 2⟩, .line .slant)
      (veer.move (.point ⟨1 / 2, 2⟩), veer.move (.line .slant)) with
  | ok t => exact ⟨t, rfl, hrecovers.sharp t hfit hoff⟩
  | error e =>
    cases e with
    | mismatch => exact absurd hfit hrecovers.congruent
    | degenerate => exact (hrecovers.degenerate.mp hfit).elim

end Motion

end RigidSketch
