import RigidSketch.Proofs.Gradients

/-! The derivatives that a system is solved with, over the real numbers. Different unknowns have
different variables, so that a row names each of its variables once. -/

namespace RigidSketch

namespace LeastSquares

namespace System

/-- The systems that are built from elements and relations. Lines come with unit normals. -/
inductive Built : System ℝ → Prop
  | empty : Built {}
  | add {sys : System ℝ} (h : Built sys) (id : ElementId) {g : Shape ℝ} (hg : g.IsNormalized)
      (fixed : Bool) : Built (sys.add id g fixed)
  | relate {sys : System ℝ} (h : Built sys) (kind : RelationKind) (a b : ℕ) (value : ℝ)
      (g g' : Shape ℝ) : Built (sys.relate kind a b value g g')

/-- Where the residuals of an equation have derivatives. -/
structure Regular (sys : System ℝ) (x : ℕ → ℝ) (eq : Equation ℝ) : Prop where
  distinct : eq.about.Nodup
  segments : ∀ i ∈ eq.about, ∀ o start stop, sys.line? x i = some (.segment o start stop) →
    Scalar.epsilon < start.distance stop
  points : ∀ a b value, eq = .distance a b value → ∀ p q, sys.point? x a = some p →
    sys.point? x b = some q → Scalar.epsilon < p.place.distance q.place
  aside : ∀ a b value, eq = .distance a b value → value ≠ 0 → ∀ p l,
    (sys.point? x a = some p ∧ sys.line? x b = some l ∨
      sys.line? x a = some l ∧ sys.point? x b = some p) → (signedDistance p l).1 ≠ 0
  unwrapped : ∀ a b target, eq = .angle a b target → ∀ r ∈ sys.evaluate x eq, r.1 ≠ Real.pi / 2

/-- The residuals of the equation are functions of the variables, and their rows are their
gradients wherever it is regular. -/
def HasGradients (sys : System ℝ) (eq : Equation ℝ) : Prop :=
  ∃ rs : List ((ℕ → ℝ) → ℝ × Row ℝ), (∀ x, sys.evaluate x eq = rs.map (· x)) ∧
    ∀ r ∈ rs, ∀ x, sys.Regular x eq → IsGradient r x

variable {sys : System ℝ}

theorem Regular.ne {x : ℕ → ℝ} {eq : Equation ℝ} (h : sys.Regular x eq) {a b : ℕ}
    (habout : eq.about = [a, b]) : a ≠ b := by
  have hdistinct := h.distinct
  rw [habout] at hdistinct
  exact List.ne_of_not_mem_cons (List.nodup_cons.mp hdistinct).1

namespace Built

theorem columns (h : sys.Built) :
    sys.unknowns.toList.flatMap (·.columns) = List.range sys.initial.size := by
  induction h with
  | empty => rfl
  | add _ id _ fixed ih => exact columns_add ih id _ fixed
  | relate _ kind a b value g g' ih => exact ih

theorem isNormalized (h : sys.Built) {i : ℕ} {g : Shape ℝ}
    (hi : sys.unknowns[i]? = some (.fixed g)) : g.IsNormalized := by
  induction h generalizing i with
  | empty => simp at hi
  | @add sys _ id g hg fixed ih =>
    obtain ⟨u, hstands, hunknowns, _⟩ := exists_add sys id g fixed
    rw [hunknowns, Array.getElem?_push] at hi
    split at hi
    · cases hi
      cases hstands
      exact hg
    · exact ih hi
  | relate _ kind a b value g g' ih => exact ih hi

theorem nodup_append (h : sys.Built) {i j : ℕ} (hij : i ≠ j) {cs cs' : List ℕ}
    (hi : ∃ u, sys.unknowns[i]? = some u ∧ u.columns = cs)
    (hj : ∃ u, sys.unknowns[j]? = some u ∧ u.columns = cs') : (cs ++ cs').Nodup := by
  have hall : (sys.unknowns.toList.flatMap (·.columns)).Nodup := by
    rw [h.columns]
    exact List.nodup_range
  obtain ⟨heach, hpairs⟩ := List.nodup_flatMap.mp hall
  obtain ⟨u, hu, rfl⟩ := hi
  obtain ⟨w, hw, rfl⟩ := hj
  rw [← Array.getElem?_toList] at hu hw
  obtain ⟨hi, rfl⟩ := List.getElem?_eq_some_iff.mp hu
  obtain ⟨hj, rfl⟩ := List.getElem?_eq_some_iff.mp hw
  refine List.nodup_append'.mpr ⟨heach _ (List.getElem_mem hi), heach _ (List.getElem_mem hj), ?_⟩
  rw [List.pairwise_iff_getElem] at hpairs
  rcases lt_or_gt_of_ne hij with hlt | hgt
  · exact hpairs i j hi hj hlt
  · exact (hpairs j i hj hi hgt).symm

end Built

theorem point?_cases (sys : System ℝ) (i : ℕ) : (∀ x, sys.point? x i = none) ∨
    ∃ p : PointValue ℝ, ∀ x, sys.point? x i = some (p.readAt x) := by
  unfold point?
  rcases sys.unknowns[i]? with _ | (o | o | ⟨p⟩ | _)
  · exact Or.inl fun _ => rfl
  · exact Or.inr ⟨⟨vecAt 0 o, some o⟩, fun _ => rfl⟩
  · exact Or.inl fun _ => rfl
  · exact Or.inr ⟨⟨p, none⟩, fun _ => rfl⟩
  · exact Or.inl fun _ => rfl

theorem line?_cases (sys : System ℝ) (i : ℕ) : (∀ x, sys.line? x i = none) ∨
    ∃ l : LineValue ℝ, ∀ x, sys.line? x i = some (l.readAt x) := by
  unfold line?
  rcases sys.unknowns[i]? with _ | (o | o | _ | ⟨l⟩)
  · exact Or.inl fun _ => rfl
  · exact Or.inl fun _ => rfl
  · exact Or.inr ⟨.segment o (vecAt 0 o) (vecAt 0 (o + 2)), fun _ => rfl⟩
  · exact Or.inl fun _ => rfl
  · exact Or.inr ⟨.fixed l, fun _ => rfl⟩

theorem exists_of_point? {x : ℕ → ℝ} {i : ℕ} {p : PointValue ℝ} (h : sys.point? x i = some p) :
    ∃ u, sys.unknowns[i]? = some u ∧ u.columns = p.columns := by
  unfold point? at h
  split at h
  · cases h
    exact ⟨_, ‹_›, rfl⟩
  · cases h
    exact ⟨_, ‹_›, rfl⟩
  · cases h

theorem exists_of_line? {x : ℕ → ℝ} {i : ℕ} {l : LineValue ℝ} (h : sys.line? x i = some l) :
    ∃ u, sys.unknowns[i]? = some u ∧ u.columns = l.columns := by
  unfold line? at h
  split at h
  · cases h
    exact ⟨_, ‹_›, rfl⟩
  · cases h
    exact ⟨_, ‹_›, rfl⟩
  · cases h

theorem unknown_of_fixed {x : ℕ → ℝ} {i : ℕ} {l : Line ℝ} (h : sys.line? x i = some (.fixed l)) :
    sys.unknowns[i]? = some (.fixed (.line l)) := by
  unfold line? at h
  split at h
  · cases h
  · cases h
    exact ‹_›
  · cases h

theorem Built.isLong (h : sys.Built) {x : ℕ → ℝ} {eq : Equation ℝ} (hx : sys.Regular x eq) {i : ℕ}
    (hi : i ∈ eq.about) {l : LineValue ℝ} (hl : sys.line? x i = some l) : l.IsLong := by
  cases l with
  | fixed m => exact h.isNormalized (unknown_of_fixed hl)
  | segment o start stop => exact hx.segments i hi o start stop hl

theorem hasGradients_of_none {eq : Equation ℝ} (h : ∀ x, sys.evaluate x eq = []) :
    sys.HasGradients eq :=
  ⟨[], h, nofun⟩

theorem hasGradients_of_one {eq : Equation ℝ} {r : (ℕ → ℝ) → ℝ × Row ℝ}
    (h : ∀ x, sys.evaluate x eq = [r x]) (hr : ∀ x, sys.Regular x eq → IsGradient r x) :
    sys.HasGradients eq :=
  ⟨[r], h, fun _ hin => List.mem_singleton.mp hin ▸ hr⟩

theorem hasGradients_segmentLength (a : ℕ) : sys.HasGradients (.segmentLength a) := by
  rcases sys.line?_cases a with hl | ⟨l, hl⟩
  · exact hasGradients_of_none fun x => by rw [evaluate, hl]
  cases l with
  | fixed l => exact hasGradients_of_none fun x => by rw [evaluate, hl, LineValue.readAt]
  | segment o start stop =>
    refine hasGradients_of_one (r := fun x => excess o (vecAt x o) (vecAt x (o + 2)))
      (fun x => by rw [evaluate, hl, LineValue.readAt]; rfl) fun x hx => ?_
    have hlong := hx.segments a List.mem_cons_self o _ _ (hl x)
    apply (differentiates_excess hlong).isGradient
    change [o, o + 1, o + 2, o + 3].Nodup
    simp

section

variable (h : sys.Built)
include h

theorem Built.hasGradients_coincident (a b : ℕ) : sys.HasGradients (.coincident a b) := by
  rcases sys.point?_cases a with hp | ⟨p, hp⟩
  · exact hasGradients_of_none fun x => by rw [evaluate, hp]
  rcases sys.point?_cases b with hq | ⟨q, hq⟩
  · exact hasGradients_of_none fun x => by rw [evaluate, hp, hq]
  have hgradient : ∀ axis ≤ 1, ∀ x, sys.Regular x (.coincident a b) →
      IsGradient (fun y => apartAlong axis (p.readAt y) (q.readAt y)) x := by
    intro axis haxis x hx
    apply (differentiates_apartAlong haxis).isGradient
    change (Row.columns (PointValue.axisRow _ axis _ ++ PointValue.axisRow _ axis _)).Nodup
    rw [columns_append]
    exact (h.nodup_append (hx.ne rfl) (exists_of_point? (hp x)) (exists_of_point? (hq x))).sublist
      ((PointValue.columns_axisRow _ haxis _).append (PointValue.columns_axisRow _ haxis _))
  refine ⟨[fun x => apartAlong 0 (p.readAt x) (q.readAt x),
    fun x => apartAlong 1 (p.readAt x) (q.readAt x)], fun x => ?_, ?_⟩
  · rw [evaluate, hp, hq]
    rfl
  · simp only [List.forall_mem_cons]
    exact ⟨hgradient 0 (by omega), hgradient 1 (by omega), nofun⟩

theorem Built.hasGradients_pointLine {i j : ℕ} {value : ℝ} {eq : Equation ℝ} {p : PointValue ℝ}
    {l : LineValue ℝ} (hp : ∀ x, sys.point? x i = some (p.readAt x))
    (hl : ∀ x, sys.line? x j = some (l.readAt x)) (hj : j ∈ eq.about)
    (heval : ∀ x, sys.evaluate x eq = [pointLine (p.readAt x) (l.readAt x) value])
    (hne : ∀ x, sys.Regular x eq → j ≠ i)
    (haside : ∀ x, sys.Regular x eq → value ≠ 0 →
      (signedDistance (p.readAt x) (l.readAt x)).1 ≠ 0) : sys.HasGradients eq := by
  refine hasGradients_of_one heval fun x hx => ?_
  have hlong : (l.readAt x).IsLong := h.isLong hx hj (hl x)
  apply (differentiates_pointLine hlong (haside x hx)).isGradient
  change (signedDistance (p.readAt x) (l.readAt x)).2.columns.Nodup
  rw [columns_signedDistance]
  exact h.nodup_append (hne x hx) (exists_of_line? (hl x)) (exists_of_point? (hp x))

theorem Built.hasGradients_distance (a b : ℕ) (value : ℝ) :
    sys.HasGradients (.distance a b value) := by
  rcases sys.point?_cases a with hp | ⟨p, hp⟩
  · rcases sys.point?_cases b with hq | ⟨q, hq⟩
    · exact hasGradients_of_none fun x => by rw [evaluate, hp, hq]
    rcases sys.line?_cases a with hl | ⟨l, hl⟩
    · exact hasGradients_of_none fun x => by simp only [evaluate, hp, hq, hl]
    have heval : ∀ x, sys.evaluate x (.distance a b value) =
        [pointLine (q.readAt x) (l.readAt x) value] := by
      intro x
      simp only [evaluate, hp, hq, hl]
    exact h.hasGradients_pointLine hq hl List.mem_cons_self heval (fun x hx => hx.ne rfl)
      fun x hx hv => hx.aside a b value rfl hv _ _ (Or.inr ⟨hl x, hq x⟩)
  rcases sys.point?_cases b with hq | ⟨q, hq⟩
  · rcases sys.line?_cases b with hl | ⟨l, hl⟩
    · exact hasGradients_of_none fun x => by simp only [evaluate, hp, hq, hl]
    have heval : ∀ x, sys.evaluate x (.distance a b value) =
        [pointLine (p.readAt x) (l.readAt x) value] := by
      intro x
      simp only [evaluate, hp, hq, hl]
    exact h.hasGradients_pointLine hp hl (List.mem_pair.mpr (Or.inr rfl)) heval
      (fun x hx => (hx.ne rfl).symm)
      fun x hx hv => hx.aside a b value rfl hv _ _ (Or.inl ⟨hp x, hl x⟩)
  have heval : ∀ x, sys.evaluate x (.distance a b value) =
      [apart value (p.readAt x) (q.readAt x)] := by
    intro x
    rw [evaluate, hp, hq]
    rfl
  refine hasGradients_of_one heval fun x hx => ?_
  apply (differentiates_apart value (hx.points a b value rfl _ _ (hp x) (hq x))).isGradient
  change (Row.columns (PointValue.row _ _ ++ PointValue.row _ _)).Nodup
  rw [columns_append, PointValue.columns_row, PointValue.columns_row]
  exact h.nodup_append (hx.ne rfl) (exists_of_point? (hp x)) (exists_of_point? (hq x))

theorem Built.hasGradients_angle (a b : ℕ) (target : ℝ) : sys.HasGradients (.angle a b target) := by
  rcases sys.line?_cases a with hl | ⟨l, hl⟩
  · exact hasGradients_of_none fun x => by rw [evaluate, hl]
  rcases sys.line?_cases b with hm | ⟨m, hm⟩
  · exact hasGradients_of_none fun x => by rw [evaluate, hl, hm]
  have heval : ∀ x, sys.evaluate x (.angle a b target) =
      [turned target (l.readAt x) (m.readAt x)] := by
    intro x
    rw [evaluate, hl, hm]
    rfl
  refine hasGradients_of_one heval fun x hx => ?_
  have hlong : (l.readAt x).IsLong := h.isLong hx List.mem_cons_self (hl x)
  have hlong' : (m.readAt x).IsLong := h.isLong hx (List.mem_pair.mpr (Or.inr rfl)) (hm x)
  have hjump := hx.unwrapped a b target rfl _ (by rw [heval]; exact List.mem_singleton_self _)
  apply (differentiates_turned target hlong hlong' hjump).isGradient
  change (Row.columns (angleRow _ _ ++ angleRow _ _)).Nodup
  rw [columns_append, columns_angleRow, columns_angleRow]
  exact h.nodup_append (hx.ne rfl) (exists_of_line? (hl x)) (exists_of_line? (hm x))

/-- Wherever an equation is regular, each of its residuals comes with a row that lists exactly the
partial derivatives. -/
theorem Built.hasGradients (eq : Equation ℝ) : sys.HasGradients eq := by
  cases eq with
  | distance a b value => exact h.hasGradients_distance a b value
  | coincident a b => exact h.hasGradients_coincident a b
  | angle a b target => exact h.hasGradients_angle a b target
  | segmentLength a => exact hasGradients_segmentLength a

end

/-- A loose point over a loose line. -/
noncomputable def lamp : System ℝ :=
  (({} : System ℝ).add ⟨0⟩ (.point ⟨1, 1⟩) false).add ⟨1⟩ (.line ⟨0, 1, 0⟩) false

/-- The point is above the end of the segment, which has length one. -/
noncomputable def lampAt (c : ℕ) : ℝ := [1, 1, 0, 0, 1, 0].getD c 0

theorem built_lamp : lamp.Built := by
  have hline : (Shape.line (⟨0, 1, 0⟩ : Line ℝ)).IsNormalized := by
    change (0 : ℝ) ^ 2 + 1 ^ 2 = 1
    norm_num
  exact (Built.empty.add ⟨0⟩ (g := .point ⟨1, 1⟩) trivial false).add ⟨1⟩ hline false

theorem regular_lamp : lamp.Regular lampAt (.distance 0 1 1) := by
  have hpoint : lamp.point? lampAt 0 = some ⟨⟨1, 1⟩, some 0⟩ := rfl
  have hline : lamp.line? lampAt 1 = some (.segment 2 ⟨0, 0⟩ ⟨1, 0⟩) := rfl
  have hlength : (⟨1, 0⟩ - ⟨0, 0⟩ : Vec ℝ).length = 1 := by
    change √((1 - 0) ^ 2 + (0 - 0) ^ 2 : ℝ) = 1
    norm_num
  refine ⟨by simp [Equation.about], ?_, ?_, ?_, nofun⟩
  · rintro i hi o start stop h
    rcases List.mem_pair.mp hi with rfl | rfl
    · cases h
    · rw [hline] at h
      cases h
      rw [← Vec.length_sub, hlength, Scalar.epsilon_eq]
      norm_num
  · rintro a b value ⟨⟩ p q _ hq
    cases hq
  · rintro a b value ⟨⟩ _ p l (⟨hp, hl⟩ | ⟨hl, _⟩)
    · rw [hpoint] at hp
      rw [hline] at hl
      cases hp
      cases hl
      apply div_ne_zero
      · change (1 - 0) * (1 - 0) - (0 - 0) * (1 - 0) ≠ (0 : ℝ)
        norm_num
      · rw [hlength, Scalar.larger_eq_max]
        exact (lt_max_of_lt_left one_pos).ne'
    · cases hl

/-- The distance of the point from the line has six partial derivatives. -/
theorem hasGradients_lamp : ∃ rs : List ((ℕ → ℝ) → ℝ × Row ℝ),
    lamp.evaluate lampAt (.distance 0 1 1) = rs.map (· lampAt) ∧ rs.length = 1 ∧
      ∀ r ∈ rs, IsGradient r lampAt := by
  obtain ⟨rs, heval, hrs⟩ := built_lamp.hasGradients (.distance 0 1 1)
  have hlength : (lamp.evaluate lampAt (.distance 0 1 1)).length = 1 := rfl
  rw [heval, List.length_map] at hlength
  exact ⟨rs, heval lampAt, hlength, fun r hr => hrs r hr lampAt regular_lamp⟩

end System

end LeastSquares

end RigidSketch
