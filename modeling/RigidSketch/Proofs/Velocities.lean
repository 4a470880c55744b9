import Mathlib
import RigidSketch.Proofs.Angles

/-! How lengths and angles change while places move, over the real numbers. Half turns do not count
for an angle, so that it has no rate of change only where it jumps from one right angle to the
other. -/

namespace RigidSketch

namespace Vec

@[simp] theorem zero_x : (0 : Vec ℝ).x = 0 := rfl

@[simp] theorem zero_y : (0 : Vec ℝ).y = 0 := rfl

/-- The abscissa, and the ordinate for any other axis. -/
def coord (axis : ℕ) (p : Vec ℝ) : ℝ := if axis = 0 then p.x else p.y

theorem coord_sub (axis : ℕ) (p q : Vec ℝ) : (p - q).coord axis = p.coord axis - q.coord axis := by
  by_cases h : axis = 0
  · simp only [coord, if_pos h, sub_x]
  · simp only [coord, if_neg h, sub_y]

/-- The rate at which a vector changes at the time `t`. -/
structure HasVelocity (p : ℝ → Vec ℝ) (p' : Vec ℝ) (t : ℝ) : Prop where
  x : HasDerivAt (fun s => (p s).x) p'.x t
  y : HasDerivAt (fun s => (p s).y) p'.y t

theorem hasVelocity_const (p : Vec ℝ) (t : ℝ) : HasVelocity (fun _ => p) 0 t :=
  ⟨hasDerivAt_const t p.x, hasDerivAt_const t p.y⟩

namespace HasVelocity

variable {p q : ℝ → Vec ℝ} {p' q' : Vec ℝ} {t : ℝ}

theorem sub (hp : HasVelocity p p' t) (hq : HasVelocity q q' t) :
    HasVelocity (fun s => p s - q s) (p' - q') t :=
  ⟨hp.x.sub hq.x, hp.y.sub hq.y⟩

theorem coord (hp : HasVelocity p p' t) (axis : ℕ) :
    HasDerivAt (fun s => (p s).coord axis) (p'.coord axis) t := by
  by_cases h : axis = 0
  · simpa only [Vec.coord, if_pos h] using hp.x
  · simpa only [Vec.coord, if_neg h] using hp.y

theorem dot (hp : HasVelocity p p' t) (hq : HasVelocity q q' t) :
    HasDerivAt (fun s => (p s).dot (q s)) (p'.dot (q t) + (p t).dot q') t := by
  apply ((hp.x.mul hq.x).add (hp.y.mul hq.y)).congr_deriv
  rw [dot_eq, dot_eq]
  ring

theorem cross (hp : HasVelocity p p' t) (hq : HasVelocity q q' t) :
    HasDerivAt (fun s => (p s).cross (q s)) (p'.cross (q t) + (p t).cross q') t := by
  apply ((hp.x.mul hq.y).sub (hp.y.mul hq.x)).congr_deriv
  rw [cross_eq, cross_eq]
  ring

theorem length (hp : HasVelocity p p' t) (h : (p t).length ≠ 0) :
    HasDerivAt (fun s => (p s).length) ((p t).dot p' / (p t).length) t := by
  have hne : (p t).x ^ 2 + (p t).y ^ 2 ≠ 0 := by
    rw [← sq_length]
    exact pow_ne_zero 2 h
  apply (((hp.x.pow 2).add (hp.y.pow 2)).sqrt hne).congr_deriv
  have hlength : √((p t).x ^ 2 + (p t).y ^ 2) = (p t).length := rfl
  simp only [Pi.add_apply, Pi.pow_apply, hlength, dot_eq]
  field_simp
  ring

/-- A vector that has a direction grows at its rate in this direction. -/
theorem length_normalized (hp : HasVelocity p p' t) (h : Scalar.epsilon < (p t).length) :
    HasDerivAt (fun s => (p s).length) (((p t).normalized.getD east).dot p') t := by
  have hunit : (p t).normalized.getD east = (p t).scale (1 / (p t).length) := by
    rw [normalized, if_neg h.le.not_gt, Option.getD_some]
  apply (hp.length (Scalar.epsilon_pos.trans h).ne').congr_deriv
  rw [hunit, dot_eq, dot_eq, scale_x, scale_y]
  ring

theorem toComplex (hp : HasVelocity p p' t) :
    HasDerivAt (fun s => (p s).toComplex) p'.toComplex t := by
  have hmk (u : Vec ℝ) : u.toComplex = u.x + u.y * Complex.I := Complex.mk_eq_add_mul_I _ _
  simp only [hmk]
  exact hp.x.ofReal_comp.add (hp.y.ofReal_comp.mul_const Complex.I)

end HasVelocity

theorem im_toComplex_div (u v : Vec ℝ) :
    (v.toComplex / u.toComplex).im = u.cross v / u.dot u := by
  rw [Complex.div_im, Complex.normSq_apply, cross_eq, dot_eq, sub_div]
  simp only [Vec.toComplex]
  ring

end Vec

namespace Turn

/-- The angle of a vector to a direction, as the argument of a complex number. -/
theorem wrapHalf_angle_sub {w : Vec ℝ} (h : w.toComplex ≠ 0) (target : ℝ) :
    wrapHalf (w.angle - target) =
      (w.toComplex ^ 2 * Complex.exp (-(2 * target) * Complex.I)).arg / 2 := by
  have hangle : w.angle = w.toComplex.arg := rfl
  have hexp : ((Complex.exp (-(2 * target) * Complex.I)).arg : Real.Angle) =
      -((2 : ℕ) • (target : Real.Angle)) := by
    rw [Complex.arg_exp, Real.Angle.coe_toIocMod, ← Real.Angle.coe_nsmul, ← Real.Angle.coe_neg]
    simp
  have harg : ((w.toComplex ^ 2 * Complex.exp (-(2 * target) * Complex.I)).arg : Real.Angle) =
      (2 : ℕ) • ((w.angle - target : ℝ) : Real.Angle) := by
    rw [Complex.arg_mul_coe_angle (pow_ne_zero 2 h) (Complex.exp_ne_zero _),
      Complex.arg_pow_coe_angle, Real.Angle.coe_sub, smul_sub, hangle, hexp,
      sub_eq_add_neg]
  rw [wrapHalf_eq_toReal, ← harg, Complex.arg_coe_angle_toReal_eq_arg]

theorem hasDerivAt_wrapHalf_angle {w : ℝ → Vec ℝ} {w' : Vec ℝ} {t target : ℝ}
    (hw : Vec.HasVelocity w w' t) (h : (w t).length ≠ 0)
    (hjump : wrapHalf ((w t).angle - target) ≠ Real.pi / 2) :
    HasDerivAt (fun s => wrapHalf ((w s).angle - target)) ((w t).cross w' / (w t).dot (w t)) t := by
  have hne : (w t).toComplex ≠ 0 := Vec.toComplex_ne_zero h
  let k : ℂ := Complex.exp (-(2 * target) * Complex.I)
  have hk : k ≠ 0 := Complex.exp_ne_zero _
  have hf : HasDerivAt (fun s => (w s).toComplex ^ 2 * k)
      (2 * (w t).toComplex * w'.toComplex * k) t := by
    apply ((hw.toComplex.pow 2).mul_const k).congr_deriv
    simp
  have hslit : (w t).toComplex ^ 2 * k ∈ Complex.slitPlane := by
    refine Complex.mem_slitPlane_iff_arg.mpr ⟨fun hpi => ?_, mul_ne_zero (pow_ne_zero 2 hne) hk⟩
    apply hjump
    rw [wrapHalf_angle_sub hne, hpi]
  have hlog := Complex.imCLM.hasFDerivAt.comp_hasDerivAt t (hf.clog_real hslit)
  have hrate : (2 * (w t).toComplex * w'.toComplex * k / ((w t).toComplex ^ 2 * k)).im / 2 =
      (w t).cross w' / (w t).dot (w t) := by
    have hdiv : 2 * (w t).toComplex * w'.toComplex * k / ((w t).toComplex ^ 2 * k) =
        2 * (w'.toComplex / (w t).toComplex) := by
      field_simp
    rw [hdiv, ← Vec.im_toComplex_div]
    simp
  apply ((hlog.div_const 2).congr_deriv hrate).congr_of_eventuallyEq
  filter_upwards [hw.toComplex.continuousAt.eventually_ne hne] with s hs
  exact (wrapHalf_angle_sub hs target).trans (congrArg (· / 2) (Complex.log_im _).symm)

/-- The angle between two directions changes at the rate at which the second turns less that of the
first. -/
theorem hasDerivAt_wrapHalf_between {u v : ℝ → Vec ℝ} {u' v' : Vec ℝ} {t target : ℝ}
    (hu : Vec.HasVelocity u u' t) (hv : Vec.HasVelocity v v' t) (hu₀ : (u t).length ≠ 0)
    (hv₀ : (v t).length ≠ 0)
    (hjump : wrapHalf (Scalar.atan2 ((u t).cross (v t)) ((u t).dot (v t)) - target) ≠
      Real.pi / 2) :
    HasDerivAt (fun s => wrapHalf (Scalar.atan2 ((u s).cross (v s)) ((u s).dot (v s)) - target))
      ((v t).cross v' / (v t).dot (v t) - (u t).cross u' / (u t).dot (u t)) t := by
  -- the product of the one with the conjugate of the other
  let w : ℝ → Vec ℝ := fun s => ⟨(u s).dot (v s), (u s).cross (v s)⟩
  have hw : Vec.HasVelocity w ⟨u'.dot (v t) + (u t).dot v', u'.cross (v t) + (u t).cross v'⟩ t :=
    ⟨hu.dot hv, hu.cross hv⟩
  have hsq : ∀ q : Vec ℝ, q.dot q = q.length ^ 2 := by
    intro q
    rw [Vec.sq_length, Vec.dot_eq, sq, sq]
  have hu₁ : (u t).dot (u t) ≠ 0 := (hsq _).trans_ne (pow_ne_zero 2 hu₀)
  have hv₁ : (v t).dot (v t) ≠ 0 := (hsq _).trans_ne (pow_ne_zero 2 hv₀)
  have hw₁ : (w t).dot (w t) = (u t).dot (u t) * (v t).dot (v t) := by
    simp only [w, Vec.dot_eq, Vec.cross_eq]
    ring
  have hw₀ : (w t).length ≠ 0 := by
    intro hzero
    have hmul := mul_ne_zero hu₁ hv₁
    rw [← hw₁, hsq, hzero] at hmul
    simp at hmul
  have hturn : (w t).cross ⟨u'.dot (v t) + (u t).dot v', u'.cross (v t) + (u t).cross v'⟩ =
      (u t).dot (u t) * (v t).cross v' - (v t).dot (v t) * (u t).cross u' := by
    simp only [w, Vec.dot_eq, Vec.cross_eq]
    ring
  apply (hasDerivAt_wrapHalf_angle hw hw₀ hjump).congr_deriv
  rw [hturn, hw₁]
  field_simp

end Turn

end RigidSketch
