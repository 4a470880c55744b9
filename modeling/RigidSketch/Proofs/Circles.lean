import Mathlib.Tactic.FieldSimp
import Mathlib.Tactic.Linarith
import Mathlib.Tactic.Ring
import RigidSketch.Placement
import RigidSketch.Proofs.ExactPlane

/-! Points placed on two circles, over the real numbers. They are on both up to the tolerance, but
for circles one of which is inside the other. The closer their centers, the more the gap between
them is magnified. -/

namespace RigidSketch

namespace Vec

theorem sq_getD_normalized (v : Vec ℝ) :
    (v.normalized.getD east).x ^ 2 + (v.normalized.getD east).y ^ 2 = 1 := by
  unfold normalized
  split
  · change (1 : ℝ) ^ 2 + (0 : ℝ) ^ 2 = 1
    norm_num
  · next hlen =>
    have hpos : v.length ≠ 0 := (Scalar.epsilon_pos.trans_le (not_lt.mp hlen)).ne'
    change (v.x * (1 / v.length)) ^ 2 + (v.y * (1 / v.length)) ^ 2 = 1
    have hsq := v.sq_length
    field_simp
    linarith

/-- The distance of a place given along an axis and across it. -/
theorem distance_of_axis {c u : Vec ℝ} (hu : u.x ^ 2 + u.y ^ 2 = 1) (a b k : ℝ) :
    (c + u.scale a + u.perp.scale b).distance (c + u.scale k) = √((k - a) ^ 2 + b ^ 2) := by
  rw [distance_eq]
  congr 1
  simp only [add_x, add_y, scale_x, scale_y, perp_x, perp_y]
  linear_combination ((k - a) ^ 2 + b ^ 2) * hu

theorem distance_of_horizontal (x z : ℝ) : (⟨x, 0⟩ : Vec ℝ).distance ⟨z, 0⟩ = |x - z| := by
  simp [distance_eq, Real.sqrt_sq_eq_abs]

end Vec

namespace Placement

section

variable {r a tolerance : ℝ}

/-- A circle whose half chord at the distance `a` is short does not reach far beyond it. -/
theorem le_abs_add_of_short (hr : 0 ≤ r) (ht : 0 ≤ tolerance)
    (hshort : r ^ 2 - a ^ 2 ≤ tolerance ^ 2) : r ≤ |a| + tolerance := by
  have hmul : 0 ≤ |a| * tolerance := by positivity
  refine (sq_le_sq₀ hr (by positivity)).mp ?_
  linarith [add_sq |a| tolerance, sq_abs a]

theorem sq_sub_sq_le_of_halfChord_le (h : √(max (r * r - a * a) 0) ≤ tolerance) :
    r ^ 2 - a ^ 2 ≤ tolerance ^ 2 := by
  calc r ^ 2 - a ^ 2 = r * r - a * a := by rw [sq, sq]
    _ ≤ max (r * r - a * a) 0 := le_max_left _ _
    _ = √(max (r * r - a * a) 0) ^ 2 := (Real.sq_sqrt (le_max_right _ _)).symm
    _ ≤ tolerance ^ 2 := pow_le_pow_left₀ (Real.sqrt_nonneg _) h 2

theorem sq_halfChord_of_lt (ht : 0 ≤ tolerance) (h : tolerance < √(max (r * r - a * a) 0)) :
    √(max (r * r - a * a) 0) ^ 2 = r ^ 2 - a ^ 2 := by
  have hpos : 0 < max (r * r - a * a) 0 := Real.sqrt_pos.mp (ht.trans_lt h)
  have hreach : 0 < r * r - a * a := (lt_max_iff.mp hpos).resolve_right (lt_irrefl _)
  rw [Real.sq_sqrt hpos.le, max_eq_left hreach.le, sq, sq]

end

/-- How far from the first center the line through the crossings of two circles is, which is
defined for circles that do not cross too. -/
noncomputable def chordAt (d r₁ r₂ : ℝ) : ℝ := (r₁ * r₁ - r₂ * r₂ + d * d) / (2 * d)

section

variable {d r₁ r₂ tolerance : ℝ}

theorem sub_chordAt (hd : 0 < d) : d - chordAt d r₁ r₂ = chordAt d r₂ r₁ := by
  unfold chordAt
  field_simp
  ring

theorem sq_sub_sq_chordAt (hd : 0 < d) :
    r₁ ^ 2 - chordAt d r₁ r₂ ^ 2 = r₂ ^ 2 - chordAt d r₂ r₁ ^ 2 := by
  unfold chordAt
  field_simp
  ring

theorem chordAt_sub (hd : 0 < d) :
    chordAt d r₁ r₂ - r₁ = (d - r₁ - r₂) * (d - r₁ + r₂) / (2 * d) := by
  unfold chordAt
  field_simp
  ring

theorem chordAt_add (hd : 0 < d) :
    chordAt d r₁ r₂ + r₁ = (d + r₁ - r₂) * (d + r₁ + r₂) / (2 * d) := by
  unfold chordAt
  field_simp
  ring

/-- Circles one of which is inside the other do not reach their chord. -/
theorem sq_lt_sq_chordAt (hd : 0 < d) (h₁ : 0 ≤ r₁) (h₂ : 0 ≤ r₂) (hin : d < |r₁ - r₂|) :
    r₁ ^ 2 < chordAt d r₁ r₂ ^ 2 := by
  have hsum : |r₁ - r₂| ≤ r₁ + r₂ := abs_sub_le_of_nonneg_of_le h₁ (by linarith) h₂ (by linarith)
  have hdiff : d ^ 2 < (r₁ - r₂) ^ 2 := by
    rw [← sq_abs (r₁ - r₂)]
    exact pow_lt_pow_left₀ hin hd.le two_ne_zero
  have hle : (r₁ - r₂) ^ 2 ≤ (r₁ + r₂) ^ 2 := sq_le_sq' (by linarith) (by linarith)
  have hgap : chordAt d r₁ r₂ ^ 2 - r₁ ^ 2 =
      ((r₁ + r₂) ^ 2 - d ^ 2) * ((r₁ - r₂) ^ 2 - d ^ 2) / (2 * d) ^ 2 := by
    unfold chordAt
    field_simp
    ring
  have hpos : 0 < chordAt d r₁ r₂ ^ 2 - r₁ ^ 2 := by
    rw [hgap]
    exact div_pos (mul_pos (by linarith) (by linarith)) (by positivity)
  linarith

theorem abs_abs_chordAt_sub_le (hd : 0 < d) (h₁ : 0 ≤ r₁) (h₂ : 0 ≤ r₂) (ht : 0 ≤ tolerance)
    (hin : |r₁ - r₂| ≤ d) (hout : d ≤ r₁ + r₂ + tolerance)
    (hsq : r₁ ^ 2 - chordAt d r₁ r₂ ^ 2 ≤ tolerance ^ 2) :
    |(|chordAt d r₁ r₂| - r₁)| ≤ tolerance := by
  obtain ⟨hlo, hhi⟩ := abs_le.mp hin
  have hadd : 0 ≤ chordAt d r₁ r₂ + r₁ := by
    rw [chordAt_add hd]
    exact div_nonneg (mul_nonneg (by linarith) (by linarith)) (by linarith)
  rw [abs_le]
  constructor
  · have hle := le_abs_add_of_short h₁ ht hsq
    linarith
  · have hsub : chordAt d r₁ r₂ - r₁ ≤ tolerance := by
      rw [chordAt_sub hd, div_le_iff₀ (by linarith)]
      rcases le_or_gt d (r₁ + r₂) with hmeet | hapart
      · exact (mul_nonpos_of_nonpos_of_nonneg (by linarith) (by linarith)).trans (by positivity)
      · exact mul_le_mul (by linarith) (by linarith) (by linarith) ht
    rw [sub_le_iff_le_add, abs_le]
    constructor <;> linarith

theorem max_abs_chordAt_sub_of_lt (hd : 0 < d) (h₂ : 0 ≤ r₂) (hin : d < r₁ - r₂) :
    max |(|chordAt d r₁ r₂| - r₁)| |(|chordAt d r₂ r₁| - r₂)| =
      (r₁ - r₂ - d) * (r₁ + r₂ + d) / (2 * d) := by
  have hfirst : |chordAt d r₁ r₂| - r₁ = (r₁ - r₂ - d) * (r₁ + r₂ - d) / (2 * d) := by
    have hpos : 0 ≤ chordAt d r₁ r₂ - r₁ := by
      rw [chordAt_sub hd]
      exact div_nonneg (mul_nonneg_of_nonpos_of_nonpos (by linarith) (by linarith)) (by linarith)
    rw [abs_of_nonneg (by linarith), chordAt_sub hd]
    ring
  have hsecond : |chordAt d r₂ r₁| - r₂ = (r₁ - r₂ - d) * (r₁ + r₂ + d) / (2 * d) := by
    have hneg : chordAt d r₂ r₁ + r₂ ≤ 0 := by
      rw [chordAt_add hd]
      exact div_nonpos_of_nonpos_of_nonneg
        (mul_nonpos_of_nonpos_of_nonneg (by linarith) (by linarith)) (by linarith)
    rw [abs_of_nonpos (by linarith), ← neg_add', chordAt_add hd]
    ring
  have hgap : 0 ≤ (r₁ - r₂ - d) / (2 * d) := div_nonneg (by linarith) (by linarith)
  rw [hfirst, hsecond, mul_div_right_comm, mul_div_right_comm,
    abs_of_nonneg (mul_nonneg hgap (by linarith)), abs_of_nonneg (mul_nonneg hgap (by linarith))]
  exact max_eq_right (mul_le_mul_of_nonneg_left (by linarith) hgap)

/-- For circles one of which is inside the other, the foot of the chord is off one of them by the
gap times the sum of the radii and the distance over twice the distance. -/
theorem max_abs_chordAt_sub (hd : 0 < d) (h₁ : 0 ≤ r₁) (h₂ : 0 ≤ r₂) (hin : d < |r₁ - r₂|) :
    max |(|chordAt d r₁ r₂| - r₁)| |(|chordAt d r₂ r₁| - r₂)| =
      (|r₁ - r₂| - d) * (r₁ + r₂ + d) / (2 * d) := by
  rcases lt_abs.mp hin with h | h
  · rw [abs_of_pos (show 0 < r₁ - r₂ by linarith)]
    exact max_abs_chordAt_sub_of_lt hd h₂ h
  · rw [max_comm, abs_of_neg (show r₁ - r₂ < 0 by linarith), neg_sub, add_comm r₁]
    exact max_abs_chordAt_sub_of_lt hd h₁ (by linarith)

/-- A place of the chord, given by how far it is from the axis, that is on both circles or, for a
short chord, at its foot. -/
def OnChord (tolerance d r₁ r₂ b : ℝ) : Prop :=
  b = 0 ∧ r₁ ^ 2 - chordAt d r₁ r₂ ^ 2 ≤ tolerance ^ 2 ∨ b ^ 2 = r₁ ^ 2 - chordAt d r₁ r₂ ^ 2

variable {b : ℝ}

theorem OnChord.within (h : OnChord tolerance d r₁ r₂ b) (hd : 0 < d) (h₁ : 0 ≤ r₁) (h₂ : 0 ≤ r₂)
    (ht : 0 ≤ tolerance) (hin : |r₁ - r₂| ≤ d) (hout : d ≤ r₁ + r₂ + tolerance) :
    |√(chordAt d r₁ r₂ ^ 2 + b ^ 2) - r₁| ≤ tolerance ∧
      |√(chordAt d r₂ r₁ ^ 2 + b ^ 2) - r₂| ≤ tolerance := by
  have hswap : r₁ ^ 2 - chordAt d r₁ r₂ ^ 2 = r₂ ^ 2 - chordAt d r₂ r₁ ^ 2 := sq_sub_sq_chordAt hd
  rcases h with ⟨rfl, hshort⟩ | hb
  · rw [zero_pow two_ne_zero, add_zero, add_zero, Real.sqrt_sq_eq_abs, Real.sqrt_sq_eq_abs]
    refine ⟨abs_abs_chordAt_sub_le hd h₁ h₂ ht hin hout hshort,
      abs_abs_chordAt_sub_le hd h₂ h₁ ht ?_ (by linarith) (hswap ▸ hshort)⟩
    rwa [abs_sub_comm]
  · rw [hb, add_sub_cancel, hswap, add_sub_cancel, Real.sqrt_sq h₁, Real.sqrt_sq h₂, sub_self,
      sub_self, abs_zero]
    exact ⟨ht, ht⟩

theorem OnChord.within_iff_of_inside (h : OnChord tolerance d r₁ r₂ b) (hd : 0 < d) (h₁ : 0 ≤ r₁)
    (h₂ : 0 ≤ r₂) (hin : d < |r₁ - r₂|) :
    |√(chordAt d r₁ r₂ ^ 2 + b ^ 2) - r₁| ≤ tolerance ∧
        |√(chordAt d r₂ r₁ ^ 2 + b ^ 2) - r₂| ≤ tolerance ↔
      (|r₁ - r₂| - d) * (r₁ + r₂ + d) ≤ 2 * d * tolerance := by
  rcases h with ⟨rfl, _⟩ | hb
  · rw [zero_pow two_ne_zero, add_zero, add_zero, Real.sqrt_sq_eq_abs, Real.sqrt_sq_eq_abs,
      ← max_le_iff, max_abs_chordAt_sub hd h₁ h₂ hin, div_le_iff₀ (by linarith), mul_comm tolerance]
  · have hlt := sq_lt_sq_chordAt hd h₁ h₂ hin
    linarith [sq_nonneg b]

end

section

variable {tolerance r₁ r₂ : ℝ} {c₁ c₂ prior p : Vec ℝ}

/-- From the first center to the second. -/
noncomputable def axis (c₁ c₂ : Vec ℝ) : Vec ℝ := (c₂ - c₁).scale (1 / c₁.distance c₂)

theorem sq_axis (hd : c₁.distance c₂ ≠ 0) : (axis c₁ c₂).x ^ 2 + (axis c₁ c₂).y ^ 2 = 1 := by
  have hsq : c₁.distance c₂ ^ 2 = (c₁.x - c₂.x) ^ 2 + (c₁.y - c₂.y) ^ 2 := (c₁ - c₂).sq_length
  simp only [axis, Vec.scale_x, Vec.scale_y, Vec.sub_x, Vec.sub_y]
  field_simp
  linarith

theorem add_scale_axis (hd : c₁.distance c₂ ≠ 0) :
    c₁ + (axis c₁ c₂).scale (c₁.distance c₂) = c₂ := by
  ext
  · simp [axis, hd]
  · simp [axis, hd]

theorem onCircles_eq : onCircles tolerance c₁ r₁ c₂ r₂ prior =
    let d := c₁.distance c₂
    let u := axis c₁ c₂
    let a := chordAt d r₁ r₂
    let h := √(max (r₁ * r₁ - a * a) 0)
    let base := c₁ + u.scale a
    if r₁ + r₂ + tolerance < d ∨ d < |r₁ - r₂| - tolerance then .error .circlesDisjoint
    else if d < Scalar.epsilon then
      if tolerance < |r₁ - r₂| then .error .circlesDisjoint
      else .ok (c₁ + ((prior - c₁).normalized.getD .east).scale r₁)
    else if h ≤ tolerance then .ok base
    else .ok ((prior.nearest [base + u.perp.scale h, base - u.perp.scale h]).getD base) := by
  unfold onCircles chordAt
  simp only [Scalar.two_eq, Scalar.larger_eq_max]
  rfl

/-- An answer is on the first circle where the circles have one center, and else on the chord: at
its foot if half the chord is short, or at one of its ends. -/
theorem onCircles_eq_ok (ht : 0 ≤ tolerance)
    (h : onCircles tolerance c₁ r₁ c₂ r₂ prior = .ok p) :
    c₁.distance c₂ ≤ r₁ + r₂ + tolerance ∧
      ((c₁.distance c₂ < Scalar.epsilon ∧ |r₁ - r₂| ≤ tolerance ∧
          p = c₁ + ((prior - c₁).normalized.getD .east).scale r₁) ∨
        Scalar.epsilon ≤ c₁.distance c₂ ∧
          ∃ b, OnChord tolerance (c₁.distance c₂) r₁ r₂ b ∧
            p = c₁ + (axis c₁ c₂).scale (chordAt (c₁.distance c₂) r₁ r₂) +
              (axis c₁ c₂).perp.scale b) := by
  rw [onCircles_eq] at h
  dsimp only at h
  split at h
  · cases h
  · next hreach =>
    rw [not_or, not_lt] at hreach
    refine ⟨hreach.1, ?_⟩
    split at h
    · next hd =>
      split at h
      · cases h
      · next hclose =>
        cases h
        exact Or.inl ⟨hd, not_lt.mp hclose, rfl⟩
    · next hd =>
      refine Or.inr ⟨not_lt.mp hd, ?_⟩
      let a := chordAt (c₁.distance c₂) r₁ r₂
      let k := √(max (r₁ * r₁ - a * a) 0)
      split at h
      · next hshort =>
        cases h
        exact ⟨0, Or.inl ⟨rfl, sq_sub_sq_le_of_halfChord_le hshort⟩, by ext <;> simp⟩
      · next hlong =>
        have hcross : k ^ 2 = r₁ ^ 2 - a ^ 2 := sq_halfChord_of_lt ht (not_le.mp hlong)
        let base := c₁ + (axis c₁ c₂).scale a
        let side := (axis c₁ c₂).perp.scale k
        have hmem := prior.getD_nearest_mem (List.cons_ne_nil (base + side) [base - side]) base
        cases h
        rcases List.mem_pair.mp hmem with hp | hp
        · exact ⟨k, Or.inr hcross, hp⟩
        · refine ⟨-k, Or.inr ((neg_sq k).trans hcross), hp.trans ?_⟩
          ext <;> simp [base, side, a, sub_eq_add_neg]

theorem distance_of_concentric (h₁ : 0 ≤ r₁)
    (hp : p = c₁ + ((prior - c₁).normalized.getD .east).scale r₁) : p.distance c₁ = r₁ := by
  have hdir := (prior - c₁).sq_getD_normalized
  rw [hp, Vec.distance_eq]
  simp only [Vec.add_x, Vec.add_y, Vec.scale_x, Vec.scale_y, add_sub_cancel_left]
  rw [mul_pow, mul_pow, ← add_mul, hdir, one_mul, Real.sqrt_sq h₁]

theorem distances_of_chord {b : ℝ} (hd : 0 < c₁.distance c₂)
    (hp : p = c₁ + (axis c₁ c₂).scale (chordAt (c₁.distance c₂) r₁ r₂) +
      (axis c₁ c₂).perp.scale b) :
    p.distance c₁ = √(chordAt (c₁.distance c₂) r₁ r₂ ^ 2 + b ^ 2) ∧
      p.distance c₂ = √(chordAt (c₁.distance c₂) r₂ r₁ ^ 2 + b ^ 2) := by
  have haxis := Vec.distance_of_axis (c := c₁) (sq_axis hd.ne') (chordAt (c₁.distance c₂) r₁ r₂) b
  have hzero : c₁ + (axis c₁ c₂).scale 0 = c₁ := by ext <;> simp
  have hfirst := haxis 0
  have hsecond := haxis (c₁.distance c₂)
  rw [hzero, zero_sub, neg_sq] at hfirst
  rw [add_scale_axis hd.ne', sub_chordAt hd] at hsecond
  rw [hp]
  exact ⟨hfirst, hsecond⟩

/-- A point is placed within the tolerance of both circles, but for two cases. Where one circle is
inside the other, the gap between them is magnified. Where the centers are closer than directions
are told apart, the point is on the first circle, and the distance of the centers comes on top. -/
theorem onCircles_within_iff (h₁ : 0 ≤ r₁) (h₂ : 0 ≤ r₂) (ht : 0 < tolerance)
    (h : onCircles tolerance c₁ r₁ c₂ r₂ prior = .ok p) :
    (Scalar.epsilon ≤ c₁.distance c₂ →
      (|p.distance c₁ - r₁| ≤ tolerance ∧ |p.distance c₂ - r₂| ≤ tolerance ↔
        (|r₁ - r₂| - c₁.distance c₂) * (r₁ + r₂ + c₁.distance c₂) ≤
          2 * c₁.distance c₂ * tolerance)) ∧
    (c₁.distance c₂ < Scalar.epsilon → p.distance c₁ = r₁ ∧
      |p.distance c₂ - r₂| ≤ |r₁ - r₂| + c₁.distance c₂ ∧ |r₁ - r₂| ≤ tolerance) := by
  obtain ⟨hout, ⟨hd, hclose, hp⟩ | ⟨hd, b, hb, hp⟩⟩ := onCircles_eq_ok ht.le h
  · have hfirst := distance_of_concentric h₁ hp
    refine ⟨fun hd' => absurd hd (not_lt.mpr hd'), fun _ => ⟨hfirst, ?_, hclose⟩⟩
    have hshift : |p.distance c₁ - p.distance c₂| ≤ c₁.distance c₂ := by
      have hnorm := abs_norm_sub_norm_le (c₁.toComplex - p.toComplex) (c₂.toComplex - p.toComplex)
      rw [sub_sub_sub_cancel_right] at hnorm
      simpa only [Vec.distance_eq_norm, norm_sub_rev p.toComplex] using hnorm
    rw [hfirst, abs_sub_comm] at hshift
    calc |p.distance c₂ - r₂| ≤ |p.distance c₂ - r₁| + |r₁ - r₂| := abs_sub_le _ _ _
      _ ≤ |r₁ - r₂| + c₁.distance c₂ := by linarith
  · refine ⟨fun _ => ?_, fun hd' => absurd hd' (not_lt.mpr hd)⟩
    have hpos : 0 < c₁.distance c₂ := Scalar.epsilon_pos.trans_le hd
    obtain ⟨hfirst, hsecond⟩ := distances_of_chord hpos hp
    rw [hfirst, hsecond]
    rcases le_or_gt |r₁ - r₂| (c₁.distance c₂) with hin | hin
    · refine iff_of_true (hb.within hpos h₁ h₂ ht.le hin hout) ?_
      calc (|r₁ - r₂| - c₁.distance c₂) * (r₁ + r₂ + c₁.distance c₂) ≤ 0 :=
          mul_nonpos_of_nonpos_of_nonneg (by linarith) (by linarith)
        _ ≤ 2 * c₁.distance c₂ * tolerance := by positivity
    · exact hb.within_iff_of_inside hpos h₁ h₂ hin

end

section

variable {tolerance r₁ r₂ x : ℝ} {prior : Vec ℝ}

/-- The answer for centers on the horizontal axis where half the chord is short. -/
theorem onCircles_eq_foot (ht : 0 ≤ tolerance) (hx : Scalar.epsilon ≤ x)
    (hout : x ≤ r₁ + r₂ + tolerance) (hin : |r₁ - r₂| - tolerance ≤ x)
    (hshort : r₁ * r₁ - chordAt x r₁ r₂ * chordAt x r₁ r₂ ≤ tolerance ^ 2) :
    onCircles tolerance ⟨0, 0⟩ r₁ ⟨x, 0⟩ r₂ prior = .ok ⟨chordAt x r₁ r₂, 0⟩ := by
  have hpos : 0 < x := Scalar.epsilon_pos.trans_le hx
  have hd : (⟨0, 0⟩ : Vec ℝ).distance ⟨x, 0⟩ = x := by
    rw [Vec.distance_of_horizontal, zero_sub, abs_neg, abs_of_pos hpos]
  have hfoot : √(max (r₁ * r₁ - chordAt x r₁ r₂ * chordAt x r₁ r₂) 0) ≤ tolerance :=
    Real.sqrt_le_iff.mpr ⟨ht, max_le hshort (sq_nonneg _)⟩
  rw [onCircles_eq]
  simp only [hd]
  rw [if_neg (by rw [not_or, not_lt, not_lt]; exact ⟨hout, hin⟩), if_neg (not_lt.mpr hx),
    if_pos hfoot]
  congr 1
  ext <;> simp [axis, hd, hpos.ne']

end

/-- A hair too far apart. -/
theorem onCircles_within_iff_apart : ∃ p,
    onCircles (1e-6 : ℝ) ⟨0, 0⟩ 2 ⟨5, 0⟩ (3 - 1e-8) ⟨2, 1⟩ = .ok p ∧
      |p.distance ⟨0, 0⟩ - 2| ≤ 1e-6 ∧ |p.distance ⟨5, 0⟩ - (3 - 1e-8)| ≤ 1e-6 := by
  have hd : (⟨0, 0⟩ : Vec ℝ).distance ⟨5, 0⟩ = 5 := by
    norm_num [Vec.distance_of_horizontal]
  have hfar : Scalar.epsilon ≤ (5 : ℝ) := by
    rw [Scalar.epsilon_eq]
    norm_num
  have hplace : onCircles (1e-6 : ℝ) ⟨0, 0⟩ 2 ⟨5, 0⟩ (3 - 1e-8) ⟨2, 1⟩ =
      .ok ⟨chordAt 5 2 (3 - 1e-8), 0⟩ :=
    onCircles_eq_foot (by norm_num) hfar (by norm_num) (by norm_num) (by norm_num [chordAt])
  have hwithin := onCircles_within_iff (by norm_num) (by norm_num) (by norm_num) hplace
  rw [hd] at hwithin
  exact ⟨_, hplace, (hwithin.1 hfar).mpr (by norm_num)⟩

/-- Two circles, one of which is inside the other with a gap of half the tolerance. The answer is
off the inner one by more than four hundred times the tolerance. -/
theorem onCircles_off_inside : ∃ p,
    onCircles (1e-6 : ℝ) ⟨0, 0⟩ 1 ⟨1 / 1024, 0⟩ (1 + 1 / 1024 + 1 / 2 ^ 21) ⟨-1, 1⟩ = .ok p ∧
      400 * 1e-6 < |p.distance ⟨0, 0⟩ - 1| := by
  have hchord : chordAt (1 / 1024) 1 (1 + 1 / 1024 + 1 / 2 ^ 21) = -(8594132993 / 8589934592) := by
    norm_num [chordAt]
  have hfar : Scalar.epsilon ≤ (1 / 1024 : ℝ) := by
    rw [Scalar.epsilon_eq]
    norm_num
  refine ⟨_, onCircles_eq_foot (by norm_num) hfar (by norm_num) (by norm_num) ?_, ?_⟩
  · rw [hchord]
    norm_num
  · rw [hchord, Vec.distance_of_horizontal]
    norm_num [abs_of_pos]

end Placement

end RigidSketch
