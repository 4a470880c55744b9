import Mathlib.Analysis.Complex.Norm
import Mathlib.Analysis.SpecialFunctions.Complex.Arg
import Mathlib.Analysis.SpecialFunctions.Trigonometric.Inverse
import RigidSketch.Plane.Motion

/-! The plane over the real numbers, where arithmetic is exact. Places are complex numbers there. -/

namespace RigidSketch

noncomputable instance : Scalar ℝ where
  epsilon := 1e-12
  pi := Real.pi
  abs x := |x|
  sqrt := Real.sqrt
  hypot x y := √(x ^ 2 + y ^ 2)
  sin := Real.sin
  cos := Real.cos
  atan2 y x := Complex.arg ⟨x, y⟩
  acos := Real.arccos
  isFinite _ := true

namespace Scalar

theorem epsilon_eq : (epsilon : ℝ) = 1e-12 := rfl

theorem epsilon_pos : (0 : ℝ) < epsilon := by
  rw [epsilon_eq]
  norm_num

@[simp] theorem pi_real : (pi : ℝ) = Real.pi := rfl

@[simp] theorem abs_real (a : ℝ) : abs a = |a| := rfl

@[simp] theorem sin_real (t : ℝ) : sin t = Real.sin t := rfl

@[simp] theorem cos_real (t : ℝ) : cos t = Real.cos t := rfl

@[simp] theorem two_eq : (two : ℝ) = 2 := one_add_one_eq_two

@[simp] theorem larger_eq_max (a b : ℝ) : larger a b = max a b := by
  change (if a < b then b else if a ≤ a then a else b) = max a b
  rw [if_pos le_rfl, max_def_lt]

@[simp] theorem smaller_eq_min (a b : ℝ) : smaller a b = min a b := by
  change (if b < a then b else if a ≤ a then a else b) = min a b
  rw [if_pos le_rfl, min_comm, min_def_lt]

@[simp] theorem isZero_iff (a : ℝ) : isZero a = true ↔ a = 0 := by
  change (decide (a ≤ 0) && decide (0 ≤ a)) = true ↔ a = 0
  rw [Bool.and_eq_true, decide_eq_true_iff, decide_eq_true_iff, le_antisymm_iff]

theorem clampUnit_eq (a : ℝ) : clampUnit a = max (-1) (min 1 a) := by
  change (if a < -1 then -1 else if 1 < a then 1 else a) = max (-1) (min 1 a)
  split
  · rw [min_eq_right (by linarith), max_eq_left (by linarith)]
  · split
    · rw [min_eq_left (by linarith), max_eq_right (by linarith)]
    · rw [min_eq_right (by linarith), max_eq_right (by linarith)]

theorem mem_of_leastBy {S α : Type} [Scalar S] {score : α → S} {l : List α} {a : α}
    (h : leastBy score l = some a) : a ∈ l := by
  induction l generalizing a with
  | nil => cases h
  | cons b rest ih =>
    rw [leastBy] at h
    cases hrest : leastBy score rest with
    | none =>
      rw [hrest] at h
      cases h
      exact List.mem_cons_self
    | some c =>
      simp only [hrest] at h
      split at h
      · cases h
        exact List.mem_cons_of_mem _ (ih hrest)
      · cases h
        exact List.mem_cons_self

theorem isSome_leastBy {S α : Type} [Scalar S] (score : α → S) {l : List α} (h : l ≠ []) :
    (leastBy score l).isSome := by
  cases l with
  | nil => exact absurd rfl h
  | cons a rest =>
    rw [leastBy]
    cases leastBy score rest with
    | none => rfl
    | some b =>
      dsimp only
      split <;> rfl

theorem eq_nil_of_leastBy {S α : Type} [Scalar S] {score : α → S} {l : List α}
    (h : leastBy score l = none) : l = [] := by
  by_contra hne
  have hsome := isSome_leastBy score hne
  rw [h] at hsome
  cases hsome

theorem ranksBelow_iff (a b : ℝ) : ranksBelow a b = true ↔ a < b := by
  change (decide (a < b) || (decide (a ≤ a) && !decide (b ≤ b))) = true ↔ a < b
  simp

theorem le_of_leastBy {α : Type} {score : α → ℝ} {l : List α} {a : α}
    (h : leastBy score l = some a) : ∀ b ∈ l, score a ≤ score b := by
  induction l generalizing a with
  | nil => cases h
  | cons x rest ih =>
    rw [leastBy] at h
    cases hrest : leastBy score rest with
    | none =>
      rw [hrest] at h
      cases h
      rw [eq_nil_of_leastBy hrest]
      simp
    | some c =>
      have hc := ih hrest
      simp only [hrest] at h
      by_cases hlt : score c < score x
      · rw [if_pos ((ranksBelow_iff _ _).mpr hlt)] at h
        cases h
        exact List.forall_mem_cons.mpr ⟨hlt.le, hc⟩
      · rw [if_neg (mt (ranksBelow_iff _ _).mp hlt)] at h
        cases h
        exact List.forall_mem_cons.mpr ⟨le_rfl, fun b hb => (not_lt.mp hlt).trans (hc b hb)⟩

end Scalar

namespace Vec

theorem getD_nearest_mem {S : Type} [Scalar S] (prior : Vec S) {places : List (Vec S)}
    (h : places ≠ []) (p : Vec S) : (prior.nearest places).getD p ∈ places := by
  obtain ⟨q, hq⟩ := Option.isSome_iff_exists.mp
    (Scalar.isSome_leastBy (fun p => p.distance prior) h)
  rw [nearest, hq]
  exact Scalar.mem_of_leastBy hq

attribute [ext] Vec

variable (u v p q : Vec ℝ) (k : ℝ)

@[simp] theorem add_x : (u + v).x = u.x + v.x := rfl

@[simp] theorem add_y : (u + v).y = u.y + v.y := rfl

@[simp] theorem sub_x : (u - v).x = u.x - v.x := rfl

@[simp] theorem sub_y : (u - v).y = u.y - v.y := rfl

@[simp] theorem scale_x : (u.scale k).x = u.x * k := rfl

@[simp] theorem scale_y : (u.scale k).y = u.y * k := rfl

@[simp] theorem rotate_x (t : ℝ) : (u.rotate t).x = u.x * Real.cos t - u.y * Real.sin t := rfl

@[simp] theorem rotate_y (t : ℝ) : (u.rotate t).y = u.x * Real.sin t + u.y * Real.cos t := rfl

theorem dot_eq : u.dot v = u.x * v.x + u.y * v.y := rfl

theorem cross_eq : u.cross v = u.x * v.y - u.y * v.x := rfl

@[simp] theorem perp_x : u.perp.x = -u.y := rfl

@[simp] theorem perp_y : u.perp.y = u.x := rfl

theorem distance_eq : p.distance q = √((p.x - q.x) ^ 2 + (p.y - q.y) ^ 2) := rfl

/-- The place as a complex number. -/
def toComplex : ℂ := ⟨p.x, p.y⟩

theorem distance_eq_norm : p.distance q = ‖p.toComplex - q.toComplex‖ := by
  rw [distance_eq, Complex.norm_eq_sqrt_sq_add_sq]
  rfl

theorem sq_length : u.length ^ 2 = u.x ^ 2 + u.y ^ 2 :=
  Real.sq_sqrt (add_nonneg (sq_nonneg _) (sq_nonneg _))

theorem length_sub : (q - p).length = p.distance q := by
  have hlength : (q - p).length = √((q.x - p.x) ^ 2 + (q.y - p.y) ^ 2) := rfl
  rw [hlength, distance_eq, sub_sq_comm q.x, sub_sq_comm q.y]

theorem length_eq_norm : u.length = ‖u.toComplex‖ := by
  rw [Complex.norm_eq_sqrt_sq_add_sq]
  rfl

end Vec

namespace Line

attribute [ext] Line

variable (l m : Line ℝ) (n p t : Vec ℝ)

@[simp] theorem normal_x : l.normal.x = l.a := rfl

@[simp] theorem normal_y : l.normal.y = l.b := rfl

@[simp] theorem direction_x : l.direction.x = l.b := rfl

@[simp] theorem direction_y : l.direction.y = -l.a := rfl

@[simp] theorem base_x : l.base.x = l.a * -l.c := rfl

@[simp] theorem base_y : l.base.y = l.b * -l.c := rfl

@[simp] theorem ofNormal_a : (ofNormal n p).a = n.x := rfl

@[simp] theorem ofNormal_b : (ofNormal n p).b = n.y := rfl

@[simp] theorem ofNormal_c : (ofNormal n p).c = -(n.x * p.x + n.y * p.y) := rfl

@[simp] theorem shift_a : (l.shift t).a = l.a := rfl

@[simp] theorem shift_b : (l.shift t).b = l.b := rfl

@[simp] theorem shift_c : (l.shift t).c = l.c - (l.a * t.x + l.b * t.y) := rfl

theorem signedDistance_eq : l.signedDistance p = l.a * p.x + l.b * p.y + l.c := rfl

/-- With a unit normal, signed distances are distances. -/
def IsNormalized : Prop := l.a ^ 2 + l.b ^ 2 = 1

end Line

end RigidSketch
