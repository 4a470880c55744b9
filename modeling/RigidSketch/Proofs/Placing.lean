import RigidSketch.Proofs.Angles
import RigidSketch.Proofs.Circles
import RigidSketch.Proofs.Rigidity

/-! Placements other than of a point on two circles, over the real numbers. What they place meets
both ties, and they fail only where nothing meets both. -/

namespace RigidSketch

/-- The shape is off the tie by at most the bound, whichever of the two shapes comes first. -/
def Tie.IsMetBy (t : Tie ℝ) (bound : ℝ) (g : Shape ℝ) : Prop :=
  (∃ r, t.kind.residual? t.value t.known g = some r ∧ |r| ≤ bound) ∧
    ∃ r, t.kind.residual? t.value g t.known = some r ∧ |r| ≤ bound

namespace Tie

variable {bound v : ℝ}

theorem isMetBy_point_iff {c p : Vec ℝ} :
    (⟨.distance, v, .point c⟩ : Tie ℝ).IsMetBy bound (.point p) ↔ |p.distance c - v| ≤ bound := by
  have hcomm : c.distance p = p.distance c := (Vec.length_sub c p).symm
  have hfirst : RelationKind.distance.residual? v (.point c) (.point p) =
      some (p.distance c - v) := congrArg (fun d => some (d - v)) hcomm
  have hsecond : RelationKind.distance.residual? v (.point p) (.point c) =
      some (p.distance c - v) := rfl
  simp [IsMetBy, hfirst, hsecond]

theorem isMetBy_line_iff {l : Line ℝ} {p : Vec ℝ} :
    (⟨.distance, v, .line l⟩ : Tie ℝ).IsMetBy bound (.point p) ↔
      |(|l.signedDistance p| - v)| ≤ bound := by
  have hfirst : RelationKind.distance.residual? v (.line l) (.point p) =
      some (|l.signedDistance p| - v) := rfl
  have hsecond : RelationKind.distance.residual? v (.point p) (.line l) =
      some (|l.signedDistance p| - v) := rfl
  simp [IsMetBy, hfirst, hsecond]

theorem isMetBy_tangent_iff {c : Vec ℝ} {l : Line ℝ} :
    (⟨.distance, v, .point c⟩ : Tie ℝ).IsMetBy bound (.line l) ↔
      |(|l.signedDistance c| - v)| ≤ bound := by
  have hfirst : RelationKind.distance.residual? v (.point c) (.line l) =
      some (|l.signedDistance c| - v) := rfl
  have hsecond : RelationKind.distance.residual? v (.line l) (.point c) =
      some (|l.signedDistance c| - v) := rfl
  simp [IsMetBy, hfirst, hsecond]

theorem isMetBy_angle_iff {reference l : Line ℝ} :
    (⟨.angle, v, .line reference⟩ : Tie ℝ).IsMetBy bound (.line l) ↔
      |Turn.error (reference.angleTo l) v| ≤ bound ∧
        |Turn.error (l.angleTo reference) v| ≤ bound := by
  have hfirst : RelationKind.angle.residual? v (.line reference) (.line l) =
      some (Turn.error (reference.angleTo l) v) := rfl
  have hsecond : RelationKind.angle.residual? v (.line l) (.line reference) =
      some (Turn.error (l.angleTo reference) v) := rfl
  simp [IsMetBy, hfirst, hsecond]

end Tie

namespace Line

variable {l : Line ℝ}

theorem signedDistance_sub (l : Line ℝ) (p q : Vec ℝ) :
    l.signedDistance p - l.signedDistance q = l.normal.dot (p - q) := by
  simp only [signedDistance_eq, Vec.dot_eq, normal_x, normal_y, Vec.sub_x, Vec.sub_y]
  ring

theorem IsNormalized.abs_dot_le (h : l.IsNormalized) (v : Vec ℝ) : |l.normal.dot v| ≤ v.length := by
  unfold IsNormalized at h
  have hsq := v.sq_length
  refine abs_le_of_sq_le_sq ?_ (Real.sqrt_nonneg _)
  -- what is missing is the square of the product with the direction
  have hcross : v.length ^ 2 - l.normal.dot v ^ 2 = (l.b * v.x - l.a * v.y) ^ 2 := by
    rw [hsq, Vec.dot_eq, normal_x, normal_y]
    linear_combination (-(v.x ^ 2) - v.y ^ 2) * h
  linarith [sq_nonneg (l.b * v.x - l.a * v.y)]

/-- Places are at least as far apart as their distances from a line are. -/
theorem IsNormalized.abs_signedDistance_sub_le (h : l.IsNormalized) (p q : Vec ℝ) :
    |l.signedDistance p - l.signedDistance q| ≤ q.distance p := by
  rw [signedDistance_sub, ← Vec.length_sub]
  exact h.abs_dot_le _

theorem IsNormalized.signedDistance_shift (h : l.IsNormalized) (s : ℝ) (p : Vec ℝ) :
    (l.shift (l.normal.scale s)).signedDistance p = l.signedDistance p - s := by
  unfold IsNormalized at h
  simp only [signedDistance_eq, shift_a, shift_b, shift_c, Vec.scale_x, Vec.scale_y, normal_x,
    normal_y]
  linear_combination -s * h

theorem signedDistance_flip (l : Line ℝ) (p : Vec ℝ) :
    l.flip.signedDistance p = -l.signedDistance p := by
  have hflip : l.flip.signedDistance p = -l.a * p.x + -l.b * p.y + -l.c := rfl
  rw [hflip, signedDistance_eq]
  ring

theorem IsNormalized.flip (h : l.IsNormalized) : l.flip.IsNormalized := by
  have hflip : l.flip.IsNormalized ↔ (-l.a) ^ 2 + (-l.b) ^ 2 = 1 := Iff.rfl
  rw [hflip, neg_sq, neg_sq]
  exact h

end Line

namespace Placement

theorem mem_pair_abs (s : ℝ) : s ∈ [|s|, -|s|] := by
  rcases abs_choice s with h | h <;> simp [h]

theorem abs_eq_of_mem_pair {s d : ℝ} (hd : 0 ≤ d) (hs : s ∈ [d, -d]) : |s| = d := by
  rcases List.mem_pair.mp hs with rfl | rfl
  · exact abs_of_nonneg hd
  · rw [abs_neg, abs_of_nonneg hd]

section

variable {tolerance r d offset : ℝ} {center p prior : Vec ℝ} {l : Line ℝ}

/-- A place given along a line and across it. -/
theorem place_along (hl : l.IsNormalized) (center : Vec ℝ) (h t : ℝ) :
    l.signedDistance (center - l.normal.scale h + l.direction.scale t) =
        l.signedDistance center - h ∧
      (center - l.normal.scale h + l.direction.scale t).distance center = √(h ^ 2 + t ^ 2) := by
  unfold Line.IsNormalized at hl
  constructor
  · simp only [Line.signedDistance_eq, Vec.add_x, Vec.add_y, Vec.sub_x, Vec.sub_y, Vec.scale_x,
      Vec.scale_y, Line.normal_x, Line.normal_y, Line.direction_x, Line.direction_y]
    linear_combination -h * hl
  · rw [Vec.distance_eq]
    congr 1
    simp only [Vec.add_x, Vec.add_y, Vec.sub_x, Vec.sub_y, Vec.scale_x, Vec.scale_y, Line.normal_x,
      Line.normal_y, Line.direction_x, Line.direction_y]
    linear_combination (h ^ 2 + t ^ 2) * hl

theorem onParallel_eq : onParallel tolerance center r l offset =
    let h := l.signedDistance center - offset
    let foot := center - l.normal.scale h
    let t := √(max (r * r - h * h) 0)
    if r + tolerance < |h| then []
    else if t ≤ tolerance then [foot]
    else [foot + l.direction.scale t, foot - l.direction.scale t] := by
  unfold onParallel
  simp only [Scalar.larger_eq_max]
  rfl

theorem mem_onParallel (hl : l.IsNormalized) (ht : 0 ≤ tolerance) (hr : 0 ≤ r)
    (hp : p ∈ onParallel tolerance center r l offset) :
    l.signedDistance p = offset ∧ |p.distance center - r| ≤ tolerance := by
  rw [onParallel_eq] at hp
  dsimp only at hp
  split at hp
  · cases hp
  · next hreach =>
    let h := l.signedDistance center - offset
    let t := √(max (r * r - h * h) 0)
    -- the place is on the parallel, at the foot or half a chord away from it
    have hplace : ∀ k, k = 0 ∧ r ^ 2 - h ^ 2 ≤ tolerance ^ 2 ∨ k ^ 2 = r ^ 2 - h ^ 2 →
        p = center - l.normal.scale h + l.direction.scale k →
        l.signedDistance p = offset ∧ |p.distance center - r| ≤ tolerance := by
      rintro k hk rfl
      obtain ⟨hside, hdist⟩ := place_along hl center h k
      refine ⟨hside.trans (sub_sub_cancel _ _), ?_⟩
      rw [hdist]
      rcases hk with ⟨rfl, hshort⟩ | hk
      · rw [zero_pow two_ne_zero, add_zero, Real.sqrt_sq_eq_abs]
        have hle := le_abs_add_of_short hr ht hshort
        exact abs_le.mpr ⟨by linarith, by linarith [not_lt.mp hreach]⟩
      · rw [hk, add_sub_cancel, Real.sqrt_sq hr, sub_self, abs_zero]
        exact ht
    split at hp
    · next hshort =>
      refine hplace 0 (Or.inl ⟨rfl, sq_sub_sq_le_of_halfChord_le hshort⟩) ?_
      rw [List.mem_singleton.mp hp]
      ext <;> simp [h]
    · next hlong =>
      have hchord : t ^ 2 = r ^ 2 - h ^ 2 := sq_halfChord_of_lt ht (not_le.mp hlong)
      rcases List.mem_pair.mp hp with hp | hp
      · exact hplace t (Or.inr hchord) hp
      · refine hplace (-t) (Or.inr ((neg_sq t).trans hchord)) (hp.trans ?_)
        ext <;> simp [h, t, sub_eq_add_neg]

theorem onParallel_ne_nil (h : |l.signedDistance center - offset| ≤ r + tolerance) :
    onParallel tolerance center r l offset ≠ [] := by
  rw [onParallel_eq]
  dsimp only
  rw [if_neg (not_lt.mpr h)]
  split <;> exact List.cons_ne_nil _ _

theorem onCircleByLine_eq_ok (h : onCircleByLine tolerance center r l d prior = .ok p) :
    ∃ offset ∈ (if d ≤ tolerance then [0] else [d, -d]),
      p ∈ onParallel tolerance center r l offset := by
  unfold onCircleByLine at h
  dsimp only at h
  split at h
  · next q hq =>
    cases h
    exact List.mem_flatMap.mp (Scalar.mem_of_leastBy hq)
  · cases h

theorem onCircleByLine_eq_error {e : PlacementError}
    (h : onCircleByLine tolerance center r l d prior = .error e) :
    ∀ offset ∈ (if d ≤ tolerance then [0] else [d, -d]),
      onParallel tolerance center r l offset = [] := by
  unfold onCircleByLine at h
  dsimp only at h
  split at h
  · cases h
  · next hnone => exact List.flatMap_eq_nil_iff.mp (Scalar.eq_nil_of_leastBy hnone)

theorem onCircleByLine_sound (hl : l.IsNormalized) (ht : 0 ≤ tolerance) (hr : 0 ≤ r) (hd : 0 ≤ d)
    (hp : onCircleByLine tolerance center r l d prior = .ok p) :
    |p.distance center - r| ≤ tolerance ∧ |(|l.signedDistance p| - d)| ≤ tolerance := by
  obtain ⟨offset, hoffset, hmem⟩ := onCircleByLine_eq_ok hp
  obtain ⟨hside, hdist⟩ := mem_onParallel hl ht hr hmem
  refine ⟨hdist, ?_⟩
  rw [hside]
  split at hoffset
  · next hclose =>
    rw [List.mem_singleton.mp hoffset, abs_zero, zero_sub, abs_neg, abs_of_nonneg hd]
    exact hclose
  · rw [abs_eq_of_mem_pair hd hoffset, sub_self, abs_zero]
    exact ht

theorem onCircleByLine_complete {e : PlacementError} (hl : l.IsNormalized)
    (he : onCircleByLine tolerance center r l d prior = .error e) (ht : 0 ≤ tolerance)
    (q : Vec ℝ) : ¬ (q.distance center = r ∧ |l.signedDistance q| = d) := by
  rintro ⟨hdist, hside⟩
  have hfar := hl.abs_signedDistance_sub_le center q
  rw [hdist] at hfar
  -- the offset that the place has, or zero for a small one
  have hoffset : ∃ offset ∈ (if d ≤ tolerance then [0] else [d, -d]),
      |l.signedDistance center - offset| ≤ r + tolerance := by
    split
    · next hclose =>
      refine ⟨0, List.mem_singleton_self 0, ?_⟩
      have htri := abs_sub_le (l.signedDistance center) (l.signedDistance q) 0
      rw [sub_zero (l.signedDistance q), hside] at htri
      linarith
    · exact ⟨l.signedDistance q, hside ▸ mem_pair_abs _, by linarith⟩
  obtain ⟨offset, hmem, hreach⟩ := hoffset
  exact onParallel_ne_nil hreach (onCircleByLine_eq_error he offset hmem)

end

section

variable {d₁ d₂ : ℝ} {l₁ l₂ : Line ℝ} {p prior : Vec ℝ}

theorem byLines_sound (h₁ : l₁.IsNormalized) (h₂ : l₂.IsNormalized) (hd₁ : 0 ≤ d₁) (hd₂ : 0 ≤ d₂)
    (hp : byLines l₁ d₁ l₂ d₂ prior = .ok p) :
    |l₁.signedDistance p| = d₁ ∧ |l₂.signedDistance p| = d₂ := by
  unfold byLines at hp
  split at hp
  · cases hp
  · dsimp only at hp
    split at hp
    · next q hq =>
      cases hp
      obtain ⟨s₁, hs₁, hmem⟩ := List.mem_flatMap.mp (Scalar.mem_of_leastBy hq)
      obtain ⟨s₂, hs₂, hcross⟩ := List.mem_filterMap.mp hmem
      obtain ⟨_, hside₁, hside₂⟩ := Line.crossing?_eq_some_iff.mp hcross
      rw [h₁.signedDistance_shift, sub_eq_zero] at hside₁
      rw [h₂.signedDistance_shift, sub_eq_zero] at hside₂
      rw [hside₁, hside₂]
      exact ⟨abs_eq_of_mem_pair hd₁ hs₁, abs_eq_of_mem_pair hd₂ hs₂⟩
    · cases hp

theorem byLines_complete {e : PlacementError} (he : byLines l₁ d₁ l₂ d₂ prior = .error e) :
    |l₁.normal.cross l₂.normal| < Scalar.epsilon := by
  unfold byLines at he
  split at he
  · next hparallel => exact of_decide_eq_true hparallel
  · dsimp only at he
    split at he
    · cases he
    · next hnone =>
      have hrow := List.flatMap_eq_nil_iff.mp (Scalar.eq_nil_of_leastBy hnone) d₁
        List.mem_cons_self
      have hcross := List.filterMap_eq_nil_iff.mp hrow d₂ List.mem_cons_self
      exact (Line.crossing?_eq_none_iff (l₁.shift _) (l₂.shift _)).mp hcross

end

section

variable {tolerance r₁ r₂ : ℝ} {c₁ c₂ : Vec ℝ} {l prior : Line ℝ}

theorem signedDistance_ofNormal_scale {n : Vec ℝ} (hn : n.x ^ 2 + n.y ^ 2 = 1) (c : ℝ)
    (p : Vec ℝ) : (Line.ofNormal n (n.scale (-c))).signedDistance p = n.dot p + c := by
  simp only [Line.signedDistance_eq, Line.ofNormal_a, Line.ofNormal_b, Line.ofNormal_c,
    Vec.scale_x, Vec.scale_y, Vec.dot_eq]
  linear_combination c * hn

theorem sq_unit (t : ℝ) : (Vec.unit t : Vec ℝ).x ^ 2 + (Vec.unit t : Vec ℝ).y ^ 2 = 1 :=
  Real.cos_sq_add_sin_sq t

/-- A ratio that is cut off at a whole length misses by no more than it was too long. -/
theorem abs_mul_clampUnit_sub_le {len k : ℝ} (hlen : 0 < len) (ht : 0 ≤ tolerance)
    (hk : |k| ≤ len + tolerance) : |len * Scalar.clampUnit (k / len) - k| ≤ tolerance := by
  obtain ⟨hlo, hhi⟩ := abs_le.mp hk
  have hcut : len * Scalar.clampUnit (k / len) = max (-len) (min len k) := by
    rw [Scalar.clampUnit_eq, mul_max_of_nonneg _ _ hlen.le, mul_min_of_nonneg _ _ hlen.le,
      mul_neg, mul_one, mul_div_cancel₀ k hlen.ne']
  rw [hcut, abs_le]
  rcases le_total len k with h | h
  · rw [min_eq_left h, max_eq_right (by linarith)]
    constructor <;> linarith
  · rw [min_eq_right h]
    rcases le_total (-len) k with h' | h'
    · rw [max_eq_right h', sub_self]
      constructor <;> linarith
    · rw [max_eq_left h']
      constructor <;> linarith

theorem cos_arccos_clampUnit (a : ℝ) :
    Real.cos (Real.arccos (Scalar.clampUnit a)) = Scalar.clampUnit a := by
  rw [Scalar.clampUnit_eq]
  exact Real.cos_arccos (le_max_left _ _) (max_le (by norm_num) (min_le_left _ _))

theorem mem_tangents {s₂ : ℝ} (ht : 0 ≤ tolerance) (hlen : 0 < (c₂ - c₁).length)
    (hl : l ∈ tangents tolerance c₁ r₁ c₂ s₂) :
    l.IsNormalized ∧ l.signedDistance c₁ = r₁ ∧ |l.signedDistance c₂ - s₂| ≤ tolerance := by
  unfold tangents at hl
  dsimp only at hl
  split at hl
  · cases hl
  · next hreach =>
    obtain ⟨beta, hbeta, rfl⟩ := List.mem_map.mp hl
    have hcos : Real.cos (beta - (c₂ - c₁).angle) =
        Scalar.clampUnit ((s₂ - r₁) / (c₂ - c₁).length) := by
      rcases List.mem_pair.mp hbeta with rfl | rfl
      · rw [add_sub_cancel_left]
        exact cos_arccos_clampUnit _
      · rw [sub_sub_cancel_left, Real.cos_neg]
        exact cos_arccos_clampUnit _
    let n : Vec ℝ := Vec.unit beta
    let c := r₁ - n.dot c₁
    have hside : ∀ p, (Line.ofNormal n (n.scale (-c))).signedDistance p = n.dot p + c :=
      signedDistance_ofNormal_scale (sq_unit beta) c
    refine ⟨sq_unit beta, ?_, ?_⟩
    · exact (hside c₁).trans (add_sub_cancel _ _)
    · have hgain : n.dot c₂ + c - s₂ =
          (c₂ - c₁).length * Real.cos (beta - (c₂ - c₁).angle) - (s₂ - r₁) := by
        rw [← Vec.dot_unit]
        simp only [c, Vec.dot_eq, Vec.sub_x, Vec.sub_y]
        ring
      have hgap := abs_mul_clampUnit_sub_le hlen ht (not_lt.mp hreach)
      rw [← hcos, ← hgain] at hgap
      exact (hside c₂).symm ▸ hgap

theorem tangents_ne_nil {s₂ : ℝ} (h : |s₂ - r₁| ≤ (c₂ - c₁).length + tolerance) :
    tangents tolerance c₁ r₁ c₂ s₂ ≠ [] := by
  unfold tangents
  dsimp only
  split
  · next hfar => exact absurd h (not_le.mpr hfar)
  · exact List.cons_ne_nil _ _

theorem orientedLike_sides (l prior : Line ℝ) (hl : l.IsNormalized) :
    (l.orientedLike prior).IsNormalized ∧
      ∀ p, |(l.orientedLike prior).signedDistance p| = |l.signedDistance p| := by
  unfold Line.orientedLike
  split
  · exact ⟨hl.flip, fun p => by rw [Line.signedDistance_flip, abs_neg]⟩
  · exact ⟨hl, fun _ => rfl⟩

/-- A line that keeps its direction is as far from a second point as from the first, almost. -/
theorem concentric_sound (hprior : prior.IsNormalized) (h₁ : 0 ≤ r₁)
    (hlen : (c₂ - c₁).length < Scalar.epsilon) (hclose : |r₁ - r₂| ≤ tolerance) {s : ℝ}
    (hs : s ∈ [r₁, -r₁]) (hl : l = .ofNormal prior.normal (c₁ - prior.normal.scale s)) :
    l.IsNormalized ∧ |l.signedDistance c₁| = r₁ ∧
      |(|l.signedDistance c₂| - r₂)| ≤ tolerance + Scalar.epsilon := by
  have hnorm : l.IsNormalized := hl ▸ hprior
  have hside : l.signedDistance c₁ = s := by
    unfold Line.IsNormalized at hprior
    rw [hl, Line.signedDistance_ofNormal]
    simp only [Vec.dot_eq, Vec.sub_x, Vec.sub_y, Vec.scale_x, Vec.scale_y, Line.normal_x,
      Line.normal_y]
    linear_combination s * hprior
  have hfirst : |l.signedDistance c₁| = r₁ := hside ▸ abs_eq_of_mem_pair h₁ hs
  have hnear := (hnorm.abs_signedDistance_sub_le c₂ c₁).trans_eq (Vec.length_sub c₁ c₂).symm
  have htri := abs_sub_le |l.signedDistance c₂| |l.signedDistance c₁| r₂
  have hsecond := abs_abs_sub_abs_le (l.signedDistance c₂) (l.signedDistance c₁)
  refine ⟨hnorm, hfirst, ?_⟩
  rw [hfirst] at htri hsecond
  linarith

theorem tangent_sound (hprior : prior.IsNormalized) (ht : 0 ≤ tolerance) (h₁ : 0 ≤ r₁)
    (h₂ : 0 ≤ r₂) (hl : tangent tolerance c₁ r₁ c₂ r₂ prior = .ok l) :
    l.IsNormalized ∧ |l.signedDistance c₁| = r₁ ∧
      |(|l.signedDistance c₂| - r₂)| ≤ tolerance + Scalar.epsilon := by
  have heps := Scalar.epsilon_pos
  unfold tangent at hl
  split at hl
  · next hlen =>
    split at hl
    · cases hl
    · next hclose =>
      refine concentric_sound hprior h₁ hlen (not_lt.mp hclose) ?_ (Except.ok.inj hl).symm
      split
      · exact List.mem_cons_self
      · exact List.mem_cons_of_mem _ List.mem_cons_self
  · next hlen =>
    dsimp only at hl
    split at hl
    · next k hk =>
      cases hl
      obtain ⟨m, hm, rfl⟩ := List.mem_map.mp (Scalar.mem_of_leastBy hk)
      obtain ⟨s₂, hs₂, hm⟩ := List.mem_flatMap.mp hm
      obtain ⟨hnorm, hside₁, hside₂⟩ := mem_tangents ht (heps.trans_le (not_lt.mp hlen)) hm
      obtain ⟨hnorm', hsides⟩ := orientedLike_sides m prior hnorm
      refine ⟨hnorm', ?_, ?_⟩
      · rw [hsides, hside₁, abs_of_nonneg h₁]
      · rw [hsides, ← abs_eq_of_mem_pair h₂ hs₂]
        linarith [abs_abs_sub_abs_le (m.signedDistance c₂) s₂]
    · cases hl

theorem tangent_complete {e : PlacementError} (ht : Scalar.epsilon ≤ tolerance)
    (he : tangent tolerance c₁ r₁ c₂ r₂ prior = .error e) (hl : l.IsNormalized) :
    ¬ (|l.signedDistance c₁| = r₁ ∧ |l.signedDistance c₂| = r₂) := by
  rintro ⟨rfl, rfl⟩
  have heps := Scalar.epsilon_pos
  have hapart := hl.abs_signedDistance_sub_le c₂ c₁
  rw [← Vec.length_sub] at hapart
  unfold tangent at he
  split at he
  · next hlen =>
    split at he
    · next hfar =>
      have htri := abs_abs_sub_abs_le (l.signedDistance c₁) (l.signedDistance c₂)
      rw [abs_sub_comm (l.signedDistance c₁)] at htri
      have hclose : |(|l.signedDistance c₁| - |l.signedDistance c₂|)| ≤ tolerance := by linarith
      exact absurd hfar (not_lt.mpr hclose)
    · cases he
  · dsimp only at he
    split at he
    · cases he
    · next hnone =>
      have hnil := List.map_eq_nil_iff.mp (Scalar.eq_nil_of_leastBy hnone)
      have hnil := List.flatMap_eq_nil_iff.mp hnil
      -- the line or its flip has `c₁` on its positive side
      have hs₂ : ∃ s₂ ∈ [|l.signedDistance c₂|, -|l.signedDistance c₂|],
          |(s₂ - |l.signedDistance c₁|)| = |l.signedDistance c₂ - l.signedDistance c₁| := by
        rcases abs_choice (l.signedDistance c₁) with h | h
        · exact ⟨_, mem_pair_abs _, by rw [h]⟩
        · refine ⟨-l.signedDistance c₂, abs_neg (l.signedDistance c₂) ▸ mem_pair_abs _, ?_⟩
          rw [h, ← neg_sub', abs_neg]
      obtain ⟨s₂, hmem, hs₂⟩ := hs₂
      refine tangents_ne_nil ?_ (hnil s₂ hmem)
      rw [hs₂]
      linarith

end

section

variable {d theta : ℝ} {p : Vec ℝ} {reference prior : Line ℝ}

/-- The prior is turned, and then put on one side of the point. -/
theorem exists_atAngle_eq (reference : Line ℝ) (theta : ℝ) (p : Vec ℝ) (d : ℝ) (prior : Line ℝ) :
    let n := prior.normal.rotate (Turn.least (reference.angleTo prior) theta)
    ∃ s ∈ [d, -d], atAngle reference theta p d prior =
      .ofNormal n (n.scale (-(s - n.dot p))) := by
  intro n
  let turned := prior.rotateAbout (prior.foot p) (Turn.least (reference.angleTo prior) theta)
  obtain ⟨c, hc⟩ := Option.isSome_iff_exists.mp (Scalar.isSome_leastBy
    (fun c => |c - turned.c|) (List.cons_ne_nil (d - n.dot p) [-d - n.dot p]))
  have hplaced : atAngle reference theta p d prior = .ofNormal n (n.scale (-c)) :=
    congrArg (fun o : Option ℝ => Line.ofNormal n (n.scale (-(o.getD turned.c)))) hc
  rcases List.mem_pair.mp (Scalar.mem_of_leastBy hc) with rfl | rfl
  · exact ⟨d, List.mem_cons_self, hplaced⟩
  · exact ⟨-d, by simp, hplaced⟩

theorem atAngle_sound (hr : reference.IsNormalized) (hprior : prior.IsNormalized) (hd : 0 ≤ d) :
    (atAngle reference theta p d prior).IsNormalized ∧
      Turn.error (reference.angleTo (atAngle reference theta p d prior)) theta = 0 ∧
      Turn.error ((atAngle reference theta p d prior).angleTo reference) theta = 0 ∧
      |(atAngle reference theta p d prior).signedDistance p| = d := by
  obtain ⟨s, hs, hplaced⟩ := exists_atAngle_eq reference theta p d prior
  let turn := Turn.least (reference.angleTo prior) theta
  let n := prior.normal.rotate turn
  let l := Line.ofNormal n (n.scale (-(s - n.dot p)))
  have hnorm : l.IsNormalized := hprior.ofNormal_rotate turn _
  have hdir : l.direction = prior.direction.rotate turn :=
    prior.direction_ofNormal_rotate turn _
  obtain ⟨t, ht, hturn⟩ := Turn.exists_coe_least (reference.angleTo prior) theta
  have hangle : l.direction.angle - reference.direction.angle = (t : Real.Angle) := by
    rw [hdir, Vec.coe_angle_rotate hprior.length_direction_ne_zero, hturn,
      Line.coe_angleTo hr hprior]
    abel
  rw [hplaced]
  refine ⟨hnorm, Turn.error_eq_zero_of_mem_meeting ht (Or.inl ?_),
    Turn.error_eq_zero_of_mem_meeting ht (Or.inr ?_), ?_⟩
  · rw [Line.coe_angleTo hr hnorm, hangle]
  · rw [Line.coe_angleTo hnorm hr, ← hangle, neg_sub]
  · have hside : l.signedDistance p = s :=
      (signedDistance_ofNormal_scale hnorm _ p).trans (add_sub_cancel _ _)
    rw [hside]
    exact abs_eq_of_mem_pair hd hs

end

end Placement

/-- The shape meets both ties up to the bound. -/
structure Shape.Fulfils (bound : ℝ) (s t : Tie ℝ) (g : Shape ℝ) : Prop where
  normalized : g.IsNormalized
  first : s.IsMetBy bound g
  second : t.IsMetBy bound g

/-- No shape of a kind meets both ties exactly. -/
def Tie.Excludes {α : Type} (shape : α → Shape ℝ) (s t : Tie ℝ) : Prop :=
  ∀ a, ¬ (shape a).Fulfils 0 s t

namespace Placement

/-- The result of a placement by two ties, which may fail only for one cause. -/
structure Answers {α : Type} (shape : α → Shape ℝ) (tolerance : ℝ) (s t : Tie ℝ) (cause : Prop)
    (result : Except PlacementError α) : Prop where
  sound : ∀ a, result = .ok a → (shape a).Fulfils (tolerance + Scalar.epsilon) s t
  complete : ∀ e, result = .error e → cause

theorem abs_sub_le_of_eq {a b tolerance : ℝ} (ht : 0 ≤ tolerance) (h : a = b) :
    |a - b| ≤ tolerance + Scalar.epsilon :=
  (abs_sub_nonpos.mpr h).trans (add_nonneg ht Scalar.epsilon_pos.le)

theorem Answers.exists_of_not {α : Type} {shape : α → Shape ℝ} {tolerance : ℝ} {s t : Tie ℝ}
    {cause : Prop} {result : Except PlacementError α}
    (h : Answers shape tolerance s t cause result) (hc : ¬ cause) :
    ∃ a, result = .ok a ∧ (shape a).Fulfils (tolerance + Scalar.epsilon) s t := by
  cases hr : result with
  | ok a => exact ⟨a, rfl, h.sound a hr⟩
  | error e => exact absurd (h.complete e hr) hc

section

variable {tolerance : ℝ}

theorem answers_onCircleByLine (ht : 0 ≤ tolerance) (center : Vec ℝ) {r d : ℝ} {l : Line ℝ}
    (prior : Vec ℝ) (hl : l.IsNormalized) (hr : 0 ≤ r) (hd : 0 ≤ d) :
    let s : Tie ℝ := ⟨.distance, r, .point center⟩
    let t : Tie ℝ := ⟨.distance, d, .line l⟩
    Answers .point tolerance s t (s.Excludes .point t)
      (onCircleByLine tolerance center r l d prior) := by
  have heps := Scalar.epsilon_pos
  constructor
  · intro p hp
    obtain ⟨hdist, hside⟩ := onCircleByLine_sound hl ht hr hd hp
    exact ⟨trivial, Tie.isMetBy_point_iff.mpr (by linarith),
      Tie.isMetBy_line_iff.mpr (by linarith)⟩
  · rintro e he q ⟨_, hcircle, hline⟩
    have hdist := abs_sub_nonpos.mp (Tie.isMetBy_point_iff.mp hcircle)
    have hside := abs_sub_nonpos.mp (Tie.isMetBy_line_iff.mp hline)
    exact onCircleByLine_complete hl he ht q ⟨hdist, hside⟩

theorem answers_byLines (ht : 0 ≤ tolerance) {l₁ l₂ : Line ℝ} {d₁ d₂ : ℝ} (prior : Vec ℝ)
    (h₁ : l₁.IsNormalized) (h₂ : l₂.IsNormalized) (hd₁ : 0 ≤ d₁) (hd₂ : 0 ≤ d₂) :
    Answers .point tolerance ⟨.distance, d₁, .line l₁⟩ ⟨.distance, d₂, .line l₂⟩
      (|l₁.normal.cross l₂.normal| < Scalar.epsilon) (byLines l₁ d₁ l₂ d₂ prior) := by
  refine ⟨fun p hp => ?_, fun e => byLines_complete⟩
  obtain ⟨hside₁, hside₂⟩ := byLines_sound h₁ h₂ hd₁ hd₂ hp
  exact ⟨trivial, Tie.isMetBy_line_iff.mpr (abs_sub_le_of_eq ht hside₁),
    Tie.isMetBy_line_iff.mpr (abs_sub_le_of_eq ht hside₂)⟩

theorem answers_tangent (ht : Scalar.epsilon ≤ tolerance) (c₁ c₂ : Vec ℝ) {r₁ r₂ : ℝ}
    {prior : Line ℝ} (hprior : prior.IsNormalized) (h₁ : 0 ≤ r₁) (h₂ : 0 ≤ r₂) :
    let s : Tie ℝ := ⟨.distance, r₁, .point c₁⟩
    let t : Tie ℝ := ⟨.distance, r₂, .point c₂⟩
    Answers .line tolerance s t (s.Excludes .line t) (tangent tolerance c₁ r₁ c₂ r₂ prior) := by
  have ht₀ : 0 ≤ tolerance := Scalar.epsilon_pos.le.trans ht
  constructor
  · intro l hl
    obtain ⟨hnorm, hfirst, hsecond⟩ := tangent_sound hprior ht₀ h₁ h₂ hl
    exact ⟨hnorm, Tie.isMetBy_tangent_iff.mpr (abs_sub_le_of_eq ht₀ hfirst),
      Tie.isMetBy_tangent_iff.mpr hsecond⟩
  · rintro e he k ⟨hk, hfirst, hsecond⟩
    have hside₁ := abs_sub_nonpos.mp (Tie.isMetBy_tangent_iff.mp hfirst)
    have hside₂ := abs_sub_nonpos.mp (Tie.isMetBy_tangent_iff.mp hsecond)
    exact tangent_complete ht he hk ⟨hside₁, hside₂⟩

theorem fulfils_atAngle (ht : 0 ≤ tolerance) {reference prior : Line ℝ} {d : ℝ} (theta : ℝ)
    (p : Vec ℝ) (hr : reference.IsNormalized) (hprior : prior.IsNormalized) (hd : 0 ≤ d) :
    (Shape.line (atAngle reference theta p d prior)).Fulfils (tolerance + Scalar.epsilon)
      ⟨.angle, theta, .line reference⟩ ⟨.distance, d, .point p⟩ := by
  obtain ⟨hnorm, hto, hback, hside⟩ := atAngle_sound hr hprior hd
  refine ⟨hnorm, Tie.isMetBy_angle_iff.mpr ?_,
    Tie.isMetBy_tangent_iff.mpr (abs_sub_le_of_eq ht hside)⟩
  rw [hto, hback, abs_zero, and_self]
  exact add_nonneg ht Scalar.epsilon_pos.le

/-- What a placement other than of a point on two circles places meets both ties, up to little more
than the tolerance. It fails only if no shape meets both, or for lines that are almost parallel. -/
theorem answers_of_tolerance (ht : Scalar.epsilon ≤ tolerance) :
    (∀ (center : Vec ℝ) (r : ℝ) (l : Line ℝ) (d : ℝ) (prior : Vec ℝ),
      l.IsNormalized → 0 ≤ r → 0 ≤ d →
        let s : Tie ℝ := ⟨.distance, r, .point center⟩
        let t : Tie ℝ := ⟨.distance, d, .line l⟩
        Answers .point tolerance s t (s.Excludes .point t)
          (onCircleByLine tolerance center r l d prior)) ∧
    (∀ (l₁ : Line ℝ) (d₁ : ℝ) (l₂ : Line ℝ) (d₂ : ℝ) (prior : Vec ℝ),
      l₁.IsNormalized → l₂.IsNormalized → 0 ≤ d₁ → 0 ≤ d₂ →
        Answers .point tolerance ⟨.distance, d₁, .line l₁⟩ ⟨.distance, d₂, .line l₂⟩
          (|l₁.normal.cross l₂.normal| < Scalar.epsilon) (byLines l₁ d₁ l₂ d₂ prior)) ∧
    (∀ (c₁ : Vec ℝ) (r₁ : ℝ) (c₂ : Vec ℝ) (r₂ : ℝ) (prior : Line ℝ),
      prior.IsNormalized → 0 ≤ r₁ → 0 ≤ r₂ →
        let s : Tie ℝ := ⟨.distance, r₁, .point c₁⟩
        let t : Tie ℝ := ⟨.distance, r₂, .point c₂⟩
        Answers .line tolerance s t (s.Excludes .line t)
          (tangent tolerance c₁ r₁ c₂ r₂ prior)) ∧
    ∀ (reference : Line ℝ) (theta : ℝ) (p : Vec ℝ) (d : ℝ) (prior : Line ℝ),
      reference.IsNormalized → prior.IsNormalized → 0 ≤ d →
        (Shape.line (atAngle reference theta p d prior)).Fulfils (tolerance + Scalar.epsilon)
          ⟨.angle, theta, .line reference⟩ ⟨.distance, d, .point p⟩ := by
  have ht₀ : 0 ≤ tolerance := Scalar.epsilon_pos.le.trans ht
  refine ⟨?_, ?_, ?_, ?_⟩
  · intro center r l d prior hl hr hd
    exact answers_onCircleByLine ht₀ center prior hl hr hd
  · intro l₁ d₁ l₂ d₂ prior h₁ h₂ hd₁ hd₂
    exact answers_byLines ht₀ prior h₁ h₂ hd₁ hd₂
  · intro c₁ r₁ c₂ r₂ prior hprior h₁ h₂
    exact answers_tangent ht c₁ c₂ hprior h₁ h₂
  · intro reference theta p d prior hr hprior hd
    exact fulfils_atAngle ht₀ theta p hr hprior hd

/-- On a circle and by a line; by two lines; along two circles; and at an angle. -/
theorem answers_of_tolerance_upright :
    (∃ p, onCircleByLine (1 / 10) ⟨0, 0⟩ 5 ⟨0, 1, 0⟩ 3 ⟨1, 1⟩ = .ok p ∧
      (Shape.point p).Fulfils (1 / 10 + Scalar.epsilon) ⟨.distance, 5, .point ⟨0, 0⟩⟩
        ⟨.distance, 3, .line ⟨0, 1, 0⟩⟩) ∧
    (∃ p, byLines ⟨1, 0, 0⟩ 3 ⟨0, 1, 0⟩ 4 ⟨1, 1⟩ = .ok p ∧
      (Shape.point p).Fulfils (1 / 10 + Scalar.epsilon) ⟨.distance, 3, .line ⟨1, 0, 0⟩⟩
        ⟨.distance, 4, .line ⟨0, 1, 0⟩⟩) ∧
    (∃ l, tangent (1 / 10) ⟨0, 0⟩ 1 ⟨4, 0⟩ 1 ⟨0, 1, -2⟩ = .ok l ∧
      (Shape.line l).Fulfils (1 / 10 + Scalar.epsilon) ⟨.distance, 1, .point ⟨0, 0⟩⟩
        ⟨.distance, 1, .point ⟨4, 0⟩⟩) ∧
    (Shape.line (atAngle ⟨0, 1, 0⟩ 1 ⟨2, 3⟩ 4 ⟨1, 0, 0⟩)).Fulfils (1 / 10 + Scalar.epsilon)
      ⟨.angle, 1, .line ⟨0, 1, 0⟩⟩ ⟨.distance, 4, .point ⟨2, 3⟩⟩ := by
  have ht : (Scalar.epsilon : ℝ) ≤ 1 / 10 := by
    rw [Scalar.epsilon_eq]
    norm_num
  have hacross : ∀ c : ℝ, (⟨0, 1, c⟩ : Line ℝ).IsNormalized := fun _ => by
    simp [Line.IsNormalized]
  have hup : ∀ c : ℝ, (⟨1, 0, c⟩ : Line ℝ).IsNormalized := fun _ => by simp [Line.IsNormalized]
  obtain ⟨hcircle, hlines, htangent, hangle⟩ := answers_of_tolerance ht
  refine ⟨?_, ?_, ?_, ?_⟩
  · refine (hcircle ⟨0, 0⟩ 5 ⟨0, 1, 0⟩ 3 ⟨1, 1⟩ (hacross 0) (by norm_num)
      (by norm_num)).exists_of_not fun hnone => hnone ⟨4, 3⟩ ⟨trivial, ?_, ?_⟩
    · have hdist : (⟨4, 3⟩ : Vec ℝ).distance ⟨0, 0⟩ = 5 := by
        rw [Vec.distance_eq, Real.sqrt_eq_iff_mul_self_eq (by norm_num) (by norm_num)]
        norm_num
      exact Tie.isMetBy_point_iff.mpr (by rw [hdist]; norm_num)
    · exact Tie.isMetBy_line_iff.mpr (by norm_num [Line.signedDistance_eq])
  · refine (hlines ⟨1, 0, 0⟩ 3 ⟨0, 1, 0⟩ 4 ⟨1, 1⟩ (hup 0) (hacross 0) (by norm_num)
      (by norm_num)).exists_of_not (not_lt.mpr ?_)
    norm_num [Vec.cross_eq, Scalar.epsilon_eq]
  · refine (htangent ⟨0, 0⟩ 1 ⟨4, 0⟩ 1 ⟨0, 1, -2⟩ (hacross _) (by norm_num)
      (by norm_num)).exists_of_not fun hnone => hnone ⟨0, 1, -1⟩ ⟨hacross _, ?_, ?_⟩
    · exact Tie.isMetBy_tangent_iff.mpr (by norm_num [Line.signedDistance_eq])
    · exact Tie.isMetBy_tangent_iff.mpr (by norm_num [Line.signedDistance_eq])
  · exact hangle _ 1 _ 4 _ (hacross 0) (hup 0) (by norm_num)

end

end Placement

end RigidSketch
