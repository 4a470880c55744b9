import Mathlib.Analysis.SpecialFunctions.Trigonometric.Angle
import RigidSketch.Proofs.ExactPlane

/-! Angles over the real numbers. What a turn does depends on it up to full turns, and so turns are
compared as elements of the circle. -/

namespace RigidSketch

namespace Turn

theorem wrap_eq_toReal (t : ℝ) : wrap t = (t : Real.Angle).toReal := by
  rw [Real.Angle.toReal_coe, ← Complex.arg_cos_add_sin_mul_I_eq_toIocMod]
  refine congrArg Complex.arg (Complex.ext ?_ ?_)
  · simp [← Complex.ofReal_cos, ← Complex.ofReal_sin]
  · simp [← Complex.ofReal_cos, ← Complex.ofReal_sin]

@[simp] theorem coe_wrap (t : ℝ) : ((wrap t : ℝ) : Real.Angle) = t := by
  rw [wrap_eq_toReal, Real.Angle.coe_toReal]

/-- The shorter of a turn and the one with half a turn more is one of the two. -/
theorem coe_shorterHalf (t : ℝ) :
    ((shorterHalf t : ℝ) : Real.Angle) = t ∨ ((shorterHalf t : ℝ) : Real.Angle) = t + Real.pi := by
  have hdef : shorterHalf t = if |t| ≤ |wrap (t + Real.pi)| then t else wrap (t + Real.pi) := rfl
  rw [hdef]
  split
  · exact Or.inl rfl
  · exact Or.inr (by rw [coe_wrap, Real.Angle.coe_add])

/-- Half turns are wrapped away by doubling the angle. -/
theorem wrapHalf_eq_toReal (t : ℝ) : wrapHalf t = ((2 : ℕ) • (t : Real.Angle)).toReal / 2 := by
  have hdef : wrapHalf t = if Real.pi / 2 < wrap t then wrap t - Real.pi
      else if wrap t ≤ -Real.pi / 2 then wrap t + Real.pi else wrap t := by
    unfold wrapHalf
    rw [Scalar.two_eq]
    rfl
  rw [hdef, wrap_eq_toReal]
  split
  · next hhigh =>
    rw [Real.Angle.two_nsmul_toReal_eq_two_mul_sub_two_pi.mpr hhigh]
    ring
  · split
    · next hlow =>
      rw [Real.Angle.two_nsmul_toReal_eq_two_mul_add_two_pi.mpr hlow]
      ring
    · next hhigh hlow =>
      rw [Real.Angle.two_nsmul_toReal_eq_two_mul.mpr ⟨not_le.mp hlow, not_lt.mp hhigh⟩]
      ring

theorem wrapHalf_eq_zero_iff (t : ℝ) : wrapHalf t = 0 ↔ (2 : ℕ) • (t : Real.Angle) = 0 := by
  rw [wrapHalf_eq_toReal, div_eq_zero_iff, or_iff_left two_ne_zero, Real.Angle.toReal_eq_zero_iff]

theorem error_eq (actual target : ℝ) :
    error actual target = min |wrapHalf (actual - target)| |wrapHalf (actual + target)| :=
  Scalar.smaller_eq_min _ _

theorem error_eq_zero_iff (actual target : ℝ) : error actual target = 0 ↔
    (2 : ℕ) • (actual : Real.Angle) = (2 : ℕ) • (target : Real.Angle) ∨
      (2 : ℕ) • (actual : Real.Angle) = -((2 : ℕ) • (target : Real.Angle)) := by
  have hmin : ∀ a b : ℝ, min |a| |b| = 0 ↔ a = 0 ∨ b = 0 := by
    intro a b
    rw [← abs_eq_zero (a := a), ← abs_eq_zero (a := b)]
    constructor
    · exact fun h => (min_choice _ _).imp (fun hm => hm.symm.trans h) fun hm => hm.symm.trans h
    · rintro (h | h)
      · rw [h, min_eq_left (abs_nonneg b)]
      · rw [h, min_eq_right (abs_nonneg a)]
  rw [error_eq, hmin, wrapHalf_eq_zero_iff, wrapHalf_eq_zero_iff, Real.Angle.coe_sub,
    Real.Angle.coe_add, smul_sub, smul_add, sub_eq_zero, add_eq_zero_iff_eq_neg]

/-- Signed angles that meet an unsigned one do so up to sign and half turns. -/
theorem two_nsmul_of_mem_meeting {target t : ℝ} (h : t ∈ meeting target) :
    (2 : ℕ) • (t : Real.Angle) = (2 : ℕ) • (target : Real.Angle) ∨
      (2 : ℕ) • (t : Real.Angle) = -((2 : ℕ) • (target : Real.Angle)) := by
  have hmem : t = target ∨ t = -target ∨ t = target + Real.pi ∨ t = Real.pi - target := by
    simpa [meeting] using h
  rcases hmem with rfl | rfl | rfl | rfl
  · exact Or.inl rfl
  · exact Or.inr (by rw [Real.Angle.coe_neg, smul_neg])
  · exact Or.inl (by rw [Real.Angle.coe_add, smul_add, Real.Angle.two_nsmul_coe_pi, add_zero])
  · exact Or.inr (by rw [Real.Angle.coe_sub, smul_sub, Real.Angle.two_nsmul_coe_pi, zero_sub])

theorem error_eq_zero_of_mem_meeting {actual target t : ℝ} (h : t ∈ meeting target)
    (ht : (actual : Real.Angle) = t ∨ (actual : Real.Angle) = -t) : error actual target = 0 := by
  rw [error_eq_zero_iff]
  rcases ht with ht | ht
  · rw [ht]
    exact two_nsmul_of_mem_meeting h
  · rw [ht, smul_neg, neg_inj, neg_eq_iff_eq_neg]
    exact (two_nsmul_of_mem_meeting h).symm

theorem leastBy_meeting (current target : ℝ) :
    Scalar.leastBy Scalar.abs ((meeting target).map fun t => wrap (t - current)) =
      some (least current target) := by
  obtain ⟨u, hu⟩ := Option.isSome_iff_exists.mp (Scalar.isSome_leastBy Scalar.abs
    (l := (meeting target).map fun t => wrap (t - current)) (by simp [meeting]))
  rw [least, hu, Option.getD_some]

theorem exists_coe_least (current target : ℝ) :
    ∃ t ∈ meeting target, ((least current target : ℝ) : Real.Angle) = t - current := by
  obtain ⟨t, ht, hleast⟩ :=
    List.mem_map.mp (Scalar.mem_of_leastBy (leastBy_meeting current target))
  exact ⟨t, ht, by rw [← hleast, coe_wrap, Real.Angle.coe_sub]⟩

end Turn

namespace Vec

variable (u v : Vec ℝ)

theorem rotate_congr {s t : ℝ} (h : (s : Real.Angle) = t) : v.rotate s = v.rotate t := by
  have hcos := congrArg Real.Angle.cos h
  have hsin := congrArg Real.Angle.sin h
  simp only [Real.Angle.cos_coe, Real.Angle.sin_coe] at hcos hsin
  ext
  · rw [rotate_x, rotate_x, hcos, hsin]
  · rw [rotate_y, rotate_y, hcos, hsin]

variable {v}

theorem toComplex_ne_zero (h : v.length ≠ 0) : v.toComplex ≠ 0 := by
  rwa [length_eq_norm, norm_ne_zero_iff] at h

theorem coe_angle_rotate (h : v.length ≠ 0) (t : ℝ) :
    ((v.rotate t).angle : Real.Angle) = v.angle + t := by
  have hturn : Complex.cos t + Complex.sin t * Complex.I ≠ 0 := by
    rw [← Complex.exp_mul_I]
    exact Complex.exp_ne_zero _
  have hmul : (v.rotate t).toComplex =
      v.toComplex * (Complex.cos t + Complex.sin t * Complex.I) := by
    refine Complex.ext ?_ ?_
    · simp [toComplex, ← Complex.ofReal_cos, ← Complex.ofReal_sin]
    · simp [toComplex, ← Complex.ofReal_cos, ← Complex.ofReal_sin]
  have hangle : (v.rotate t).angle = (v.rotate t).toComplex.arg := rfl
  rw [hangle, hmul, Complex.arg_mul_coe_angle (toComplex_ne_zero h) hturn]
  have hdir := Complex.arg_cos_add_sin_mul_I_coe_angle (t : Real.Angle)
  rw [Real.Angle.cos_coe, Real.Angle.sin_coe, Complex.ofReal_cos, Complex.ofReal_sin] at hdir
  rw [hdir]
  rfl

variable (v)

theorem length_mul_cos_angle : v.length * Real.cos v.angle = v.x := by
  rw [length_eq_norm]
  exact Complex.norm_mul_cos_arg v.toComplex

theorem length_mul_sin_angle : v.length * Real.sin v.angle = v.y := by
  rw [length_eq_norm]
  exact Complex.norm_mul_sin_arg v.toComplex

/-- How far a vector goes in a direction. -/
theorem dot_unit (t : ℝ) : v.dot (unit t) = v.length * Real.cos (t - v.angle) := by
  have hunit : v.dot (unit t) = v.x * Real.cos t + v.y * Real.sin t := rfl
  rw [hunit, Real.cos_sub, ← length_mul_cos_angle, ← length_mul_sin_angle]
  ring

end Vec

namespace Line

variable {l m : Line ℝ}

theorem IsNormalized.length_normal (h : l.IsNormalized) : l.normal.length = 1 :=
  (congrArg Real.sqrt h).trans Real.sqrt_one

theorem IsNormalized.length_direction (h : l.IsNormalized) : l.direction.length = 1 := by
  have hlength : l.direction.length = √(l.b ^ 2 + (-l.a) ^ 2) := rfl
  rw [hlength, neg_sq, add_comm]
  exact h.length_normal

theorem IsNormalized.length_normal_ne_zero (h : l.IsNormalized) : l.normal.length ≠ 0 :=
  h.length_normal.trans_ne one_ne_zero

theorem IsNormalized.length_direction_ne_zero (h : l.IsNormalized) : l.direction.length ≠ 0 :=
  h.length_direction.trans_ne one_ne_zero

/-- The angle between two lines is the difference of their directions. -/
theorem coe_angleTo (hl : l.IsNormalized) (hm : m.IsNormalized) :
    (l.angleTo m : Real.Angle) = m.direction.angle - l.direction.angle := by
  have hne : l.direction.toComplex ≠ 0 := Vec.toComplex_ne_zero hl.length_direction_ne_zero
  have hne' : m.direction.toComplex ≠ 0 := Vec.toComplex_ne_zero hm.length_direction_ne_zero
  have hangle : l.angleTo m =
      ((starRingEnd ℂ) l.direction.toComplex * m.direction.toComplex).arg := by
    refine congrArg Complex.arg (Complex.ext ?_ ?_)
    · simp [Vec.toComplex, Vec.dot_eq]
    · simp [Vec.toComplex, Vec.cross_eq]
  have hconj := (map_ne_zero (starRingEnd ℂ)).mpr hne
  rw [hangle, Complex.arg_mul_coe_angle hconj hne', Complex.arg_conj_coe_angle, neg_add_eq_sub]
  rfl

end Line

end RigidSketch
