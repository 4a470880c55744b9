import Mathlib.Algebra.Group.ModEq
import RigidSketch.Proofs.Angles

/-! The least turn that makes an angle meet another one. Infinitely many turns do so, but up to
full turns there are four, and of equal turns up to full turns the wrapped one is the least. -/

namespace RigidSketch

namespace Turn

theorem wrap_congr {s t : ℝ} (h : (s : Real.Angle) = t) : wrap s = wrap t := by
  rw [wrap_eq_toReal, wrap_eq_toReal, h]

theorem abs_wrap_le (t : ℝ) : |wrap t| ≤ |t| := by
  rw [wrap_eq_toReal]
  by_cases h : |t| < Real.pi
  · have hself : (t : Real.Angle).toReal = t :=
      Real.Angle.toReal_coe_eq_self_iff.mpr ⟨(abs_lt.mp h).1, (abs_lt.mp h).2.le⟩
    exact (congrArg abs hself).le
  · exact (Real.Angle.abs_toReal_le_pi _).trans (not_lt.mp h)

/-- Half turns are what doubling an angle forgets. -/
theorem two_nsmul_coe_eq_iff {s t : ℝ} :
    (2 : ℕ) • (s : Real.Angle) = (2 : ℕ) • (t : Real.Angle) ↔ s ≡ t [PMOD Real.pi] := by
  rw [← Real.Angle.coe_nsmul, ← Real.Angle.coe_nsmul, eq_comm,
    Real.Angle.angle_eq_iff_two_pi_dvd_sub, AddCommGroup.modEq_iff_zsmul']
  refine exists_congr fun k => ?_
  rw [zsmul_eq_mul, nsmul_eq_mul, nsmul_eq_mul, ← mul_sub, Nat.cast_ofNat, mul_assoc,
    mul_right_inj' two_ne_zero, mul_comm]

theorem error_eq_zero_iff_modEq (actual target : ℝ) :
    error actual target = 0 ↔
      actual ≡ target [PMOD Real.pi] ∨ actual ≡ -target [PMOD Real.pi] := by
  rw [error_eq_zero_iff, ← two_nsmul_coe_eq_iff, ← two_nsmul_coe_eq_iff, Real.Angle.coe_neg,
    smul_neg]

/-- Up to full turns, an angle that meets the target is one of four. -/
theorem exists_mem_meeting {actual target : ℝ} (h : error actual target = 0) :
    ∃ t ∈ meeting target, (actual : Real.Angle) = t := by
  have hmem : ∀ t : ℝ, t = target ∨ t = -target ∨ t = target + Real.pi ∨ t = Real.pi - target →
      t ∈ meeting target := by
    intro t ht
    simpa [meeting] using ht
  rw [error_eq_zero_iff, ← smul_neg, Real.Angle.two_nsmul_eq_iff, Real.Angle.two_nsmul_eq_iff] at h
  rcases h with (h | h) | (h | h)
  · exact ⟨target, hmem _ (.inl rfl), h⟩
  · exact ⟨target + Real.pi, hmem _ (.inr (.inr (.inl rfl))), by rw [h, Real.Angle.coe_add]⟩
  · exact ⟨-target, hmem _ (.inr (.inl rfl)), by rw [h, Real.Angle.coe_neg]⟩
  · refine ⟨Real.pi - target, hmem _ (.inr (.inr (.inr rfl))), ?_⟩
    rw [h, Real.Angle.coe_sub, neg_add_eq_sub]

variable (current target : ℝ)

theorem error_add_least : error (current + least current target) target = 0 := by
  obtain ⟨t, ht, hleast⟩ := exists_coe_least current target
  refine error_eq_zero_of_mem_meeting ht (Or.inl ?_)
  rw [Real.Angle.coe_add, hleast, add_sub_cancel]

theorem abs_least_le {t : ℝ} (ht : t ∈ meeting target) :
    |least current target| ≤ |wrap (t - current)| :=
  Scalar.le_of_leastBy (leastBy_meeting current target) _ (List.mem_map.mpr ⟨t, ht, rfl⟩)

/-- An angle meets the target exactly if it is congruent to it or to its opposite up to half turns.
The least turn makes the current angle meet the target, and no smaller turn does. -/
theorem least_meets (actual : ℝ) :
    (error actual target = 0 ↔
      actual ≡ target [PMOD Real.pi] ∨ actual ≡ -target [PMOD Real.pi]) ∧
    error (current + least current target) target = 0 ∧
    ∀ t, error (current + t) target = 0 → |least current target| ≤ |t| := by
  refine ⟨error_eq_zero_iff_modEq actual target, error_add_least current target, fun t ht => ?_⟩
  obtain ⟨u, hu, hangle⟩ := exists_mem_meeting ht
  have hturn : (t : Real.Angle) = ((u - current : ℝ) : Real.Angle) := by
    rw [Real.Angle.coe_sub, ← hangle, Real.Angle.coe_add, add_sub_cancel_left]
  calc |least current target| ≤ |wrap (u - current)| := abs_least_le current target hu
    _ = |wrap t| := by rw [wrap_congr hturn]
    _ ≤ |t| := abs_wrap_le t

/-- A target of ten is met from zero by three half turns less. -/
theorem least_meets_ten :
    error (0 + (10 - 3 * Real.pi)) 10 = 0 ∧ |least 0 (10 : ℝ)| ≤ |10 - 3 * Real.pi| := by
  have hmeets : error (0 + (10 - 3 * Real.pi)) 10 = 0 := by
    refine (error_eq_zero_iff_modEq _ _).mpr (Or.inl ?_)
    exact AddCommGroup.modEq_iff_zsmul.mpr ⟨3, by rw [zsmul_eq_mul]; push_cast; ring⟩
  exact ⟨hmeets, (least_meets 0 10 0).2.2 _ hmeets⟩

end Turn

end RigidSketch
