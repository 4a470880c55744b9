import RigidSketch.Proofs.Layout
import RigidSketch.Proofs.Rigidity
import RigidSketch.Proofs.Velocities

/-! The rows of a system are the gradients of its residuals, over the real numbers. A residual is
followed while the variables move, and its rate of change is the sum of the entries of its row, each
times the rate of its variable. -/

namespace RigidSketch

namespace LeastSquares

/-- The variables that the row is about. -/
def Row.columns {S : Type} (row : Row S) : List ℕ := row.map (·.1)

/-- The rate at which a residual with this row changes if the variables change at the rates `v`. -/
noncomputable def Row.along (row : Row ℝ) (v : ℕ → ℝ) : ℝ := (row.map fun p => p.2 * v p.1).sum

/-- However the variables move through `x`, the residual changes as its row says. -/
def Differentiates (r : (ℕ → ℝ) → ℝ × Row ℝ) (x : ℕ → ℝ) : Prop :=
  ∀ (γ : ℝ → ℕ → ℝ) (v : ℕ → ℝ) (t : ℝ), γ t = x → (∀ c, HasDerivAt (fun s => γ s c) (v c) t) →
    HasDerivAt (fun s => (r (γ s)).1) ((r x).2.along v) t

/-- The row lists the partial derivatives of the residual, each once, and all others are zero. -/
structure IsGradient (r : (ℕ → ℝ) → ℝ × Row ℝ) (x : ℕ → ℝ) : Prop where
  nodup : (r x).2.columns.Nodup
  listed : ∀ c d, (c, d) ∈ (r x).2 → HasDerivAt (fun s => (r (Function.update x c s)).1) d (x c)
  others : ∀ c ∉ (r x).2.columns, HasDerivAt (fun s => (r (Function.update x c s)).1) 0 (x c)

section

variable {v : ℕ → ℝ} {row row' : Row ℝ}

@[simp] theorem along_nil : Row.along [] v = 0 := rfl

@[simp] theorem along_cons (c : ℕ) (d : ℝ) (row : Row ℝ) :
    Row.along ((c, d) :: row) v = d * v c + row.along v := rfl

@[simp] theorem along_append : Row.along (row ++ row') v = row.along v + row'.along v := by
  simp [Row.along]

@[simp] theorem along_vecRow (o : ℕ) (g : Vec ℝ) : (vecRow o g).along v = g.dot (vecAt v o) := by
  simp [vecRow, vecAt, Vec.dot_eq]

@[simp] theorem columns_append : Row.columns (row ++ row') = row.columns ++ row'.columns :=
  List.map_append

theorem along_single_of_not_mem {c : ℕ} (h : c ∉ row.columns) :
    row.along (Pi.single c 1) = 0 := by
  induction row with
  | nil => rfl
  | cons p row ih =>
    obtain ⟨hne, hrest⟩ := not_or.mp (List.mem_cons.not.mp h)
    rw [along_cons, ih hrest, Pi.single_eq_of_ne (Ne.symm hne), mul_zero, add_zero]

theorem along_single (hrow : row.columns.Nodup) {c : ℕ} {d : ℝ} (h : (c, d) ∈ row) :
    row.along (Pi.single c 1) = d := by
  induction row with
  | nil => cases h
  | cons p row ih =>
    obtain ⟨hout, hrest⟩ := List.nodup_cons.mp hrow
    rcases List.mem_cons.mp h with rfl | h
    · rw [along_cons, along_single_of_not_mem hout, Pi.single_eq_same, mul_one, add_zero]
    · have hne : p.1 ≠ c := fun heq => hout (List.mem_map.mpr ⟨_, h, heq.symm⟩)
      rw [along_cons, ih hrest h, Pi.single_eq_of_ne hne, mul_zero, zero_add]

end

theorem Differentiates.isGradient {r : (ℕ → ℝ) → ℝ × Row ℝ} {x : ℕ → ℝ}
    (h : Differentiates r x) (hrow : (r x).2.columns.Nodup) : IsGradient r x := by
  -- one variable moves at unit speed
  have hmove (c i : ℕ) : HasDerivAt (fun s => Function.update x c s i)
      ((Pi.single c 1 : ℕ → ℝ) i) (x c) := by
    by_cases hic : i = c
    · subst i
      simpa using hasDerivAt_id' (x c)
    · simpa [hic] using hasDerivAt_const (x c) (x i)
  have hrate := fun c => h _ _ _ (Function.update_eq_self c x) (hmove c)
  refine ⟨hrow, fun c d hcd => ?_, fun c hc => ?_⟩
  · rw [← along_single hrow hcd]
    exact hrate c
  · rw [← along_single_of_not_mem hc]
    exact hrate c

namespace PointValue

def columns {S : Type} (p : PointValue S) : List ℕ :=
  match p.offset with
  | some o => [o, o + 1]
  | none => []

/-- The point at other values of the variables. -/
def readAt (y : ℕ → ℝ) : PointValue ℝ → PointValue ℝ
  | ⟨_, some o⟩ => ⟨vecAt y o, some o⟩
  | ⟨place, none⟩ => ⟨place, none⟩

noncomputable def velocity (v : ℕ → ℝ) : PointValue ℝ → Vec ℝ
  | ⟨_, some o⟩ => vecAt v o
  | ⟨_, none⟩ => 0

end PointValue

namespace LineValue

def columns {S : Type} : LineValue S → List ℕ
  | fixed _ => []
  | segment o _ _ => [o, o + 1, o + 2, o + 3]

/-- The line at other values of the variables. -/
def readAt (y : ℕ → ℝ) : LineValue ℝ → LineValue ℝ
  | fixed l => fixed l
  | segment o _ _ => segment o (vecAt y o) (vecAt y (o + 2))

/-- The rate at which the direction of the line changes. -/
noncomputable def spin (v : ℕ → ℝ) : LineValue ℝ → Vec ℝ
  | fixed _ => 0
  | segment o _ _ => vecAt v (o + 2) - vecAt v o

/-- The line has a direction: a fixed one has a unit normal, and a segment is longer than
`epsilon`. -/
def IsLong : LineValue ℝ → Prop
  | fixed l => l.IsNormalized
  | segment _ start stop => Scalar.epsilon < start.distance stop

end LineValue

section

variable (p : PointValue ℝ) (l : LineValue ℝ) (x v : ℕ → ℝ)

@[simp] theorem PointValue.columns_row (g : Vec ℝ) : (p.row g).columns = p.columns := by
  obtain ⟨place, _ | o⟩ := p <;> rfl

theorem PointValue.columns_axisRow {axis : ℕ} (h : axis ≤ 1) (d : ℝ) :
    (p.axisRow axis d).columns.Sublist p.columns := by
  obtain ⟨place, _ | o⟩ := p
  · exact List.Sublist.refl []
  · change [o + axis].Sublist [o, o + 1]
    rw [List.singleton_sublist, List.mem_pair]
    omega

@[simp] theorem PointValue.velocity_readAt : (p.readAt x).velocity v = p.velocity v := by
  obtain ⟨place, _ | o⟩ := p <;> rfl

@[simp] theorem columns_angleRow (sign : ℝ) : (angleRow sign l).columns = l.columns := by
  cases l <;> rfl

@[simp] theorem columns_signedDistance :
    (signedDistance p l).2.columns = l.columns ++ p.columns := by
  cases l with
  | fixed l => exact p.columns_row l.normal
  | segment o start stop =>
    rw [← p.columns_row]
    exact columns_append

@[simp] theorem LineValue.spin_readAt : (l.readAt x).spin v = l.spin v := by
  cases l <;> rfl

@[simp] theorem PointValue.along_row (g : Vec ℝ) : (p.row g).along v = g.dot (p.velocity v) := by
  obtain ⟨place, _ | o⟩ := p
  · exact (by simp [Vec.dot_eq] : (0 : ℝ) = g.dot 0)
  · exact along_vecRow o g

theorem PointValue.along_axisRow {axis : ℕ} (h : axis ≤ 1) (d : ℝ) :
    (p.axisRow axis d).along v = d * (p.velocity v).coord axis := by
  have hzero : (0 : Vec ℝ).coord axis = 0 := by simp [Vec.coord]
  have hcoord (o : ℕ) : (vecAt v o).coord axis = v (o + axis) := by
    interval_cases axis <;> rfl
  obtain ⟨place, _ | o⟩ := p
  · change (0 : ℝ) = d * (0 : Vec ℝ).coord axis
    rw [hzero, mul_zero]
  · change d * v (o + axis) + 0 = d * (vecAt v o).coord axis
    rw [hcoord, add_zero]

/-- The row of an angle is the rate at which the line turns. -/
theorem along_angleRow (sign : ℝ) : (angleRow sign l).along v =
    sign * (l.direction.cross (l.spin v) / l.direction.dot l.direction) := by
  cases l with
  | fixed l =>
    have hzero : l.direction.cross 0 = 0 := by simp [Vec.cross_eq]
    change (0 : ℝ) = sign * (l.direction.cross 0 / _)
    rw [hzero, zero_div, mul_zero]
  | segment o start stop =>
    change Row.along (vecRow o _ ++ vecRow (o + 2) _) v = _
    rw [along_append, along_vecRow, along_vecRow]
    simp only [LineValue.direction, LineValue.spin, Vec.dot_eq, Vec.cross_eq, Vec.sub_x, Vec.sub_y]
    ring

end

section

variable {γ : ℝ → ℕ → ℝ} {v : ℕ → ℝ} {t : ℝ} (hγ : ∀ c, HasDerivAt (fun s => γ s c) (v c) t)
include hγ

theorem hasVelocity_vecAt (o : ℕ) : Vec.HasVelocity (fun s => vecAt (γ s) o) (vecAt v o) t :=
  ⟨hγ o, hγ (o + 1)⟩

theorem PointValue.hasVelocity_place (p : PointValue ℝ) :
    Vec.HasVelocity (fun s => (p.readAt (γ s)).place) (p.velocity v) t := by
  obtain ⟨place, _ | o⟩ := p
  · exact Vec.hasVelocity_const place t
  · exact hasVelocity_vecAt hγ o

theorem LineValue.hasVelocity_direction (l : LineValue ℝ) :
    Vec.HasVelocity (fun s => (l.readAt (γ s)).direction) (l.spin v) t := by
  cases l with
  | fixed l => exact Vec.hasVelocity_const l.direction t
  | segment o start stop => exact (hasVelocity_vecAt hγ (o + 2)).sub (hasVelocity_vecAt hγ o)

end

theorem LineValue.IsLong.length_direction {l : LineValue ℝ} (h : l.IsLong) :
    l.direction.length ≠ 0 := by
  cases l with
  | fixed l => exact Line.IsNormalized.length_direction_ne_zero h
  | segment o start stop =>
    change (stop - start).length ≠ 0
    rw [Vec.length_sub]
    exact (Scalar.epsilon_pos.trans h).ne'

/-- How far apart two points are along an axis. -/
noncomputable def apartAlong (axis : ℕ) (p q : PointValue ℝ) : ℝ × Row ℝ :=
  (p.place.coord axis - q.place.coord axis, p.axisRow axis 1 ++ q.axisRow axis (-1))

/-- How far apart two points are, less a value. -/
noncomputable def apart (value : ℝ) (p q : PointValue ℝ) : ℝ × Row ℝ :=
  let delta := p.place - q.place
  let unit := delta.normalized.getD .east
  (delta.length - value, p.row unit ++ q.row ⟨-unit.x, -unit.y⟩)

/-- How much longer than one a segment is. -/
noncomputable def excess (o : ℕ) (start stop : Vec ℝ) : ℝ × Row ℝ :=
  let u := stop - start
  let unit := u.normalized.getD .east
  (u.length - 1, vecRow o ⟨-unit.x, -unit.y⟩ ++ vecRow (o + 2) unit)

/-- How far the angle between two lines is from a target. -/
noncomputable def turned (target : ℝ) (l m : LineValue ℝ) : ℝ × Row ℝ :=
  let actual := Scalar.atan2 (l.direction.cross m.direction) (l.direction.dot m.direction)
  (Turn.wrapHalf (actual - target), angleRow (-1) l ++ angleRow 1 m)

section

variable (v : ℕ → ℝ)

theorem along_apartAlong {axis : ℕ} (h : axis ≤ 1) (p q : PointValue ℝ) :
    (apartAlong axis p q).2.along v = (p.velocity v - q.velocity v).coord axis := by
  change Row.along (PointValue.axisRow p axis 1 ++ PointValue.axisRow q axis (-1)) v = _
  rw [along_append, PointValue.along_axisRow p v h, PointValue.along_axisRow q v h, Vec.coord_sub]
  ring

theorem along_apart (value : ℝ) (p q : PointValue ℝ) : (apart value p q).2.along v =
    ((p.place - q.place).normalized.getD .east).dot (p.velocity v - q.velocity v) := by
  change Row.along (PointValue.row p _ ++ PointValue.row q _) v = _
  rw [along_append, PointValue.along_row, PointValue.along_row]
  simp only [Vec.dot_eq, Vec.sub_x, Vec.sub_y]
  ring

theorem along_excess (o : ℕ) (start stop : Vec ℝ) : (excess o start stop).2.along v =
    ((stop - start).normalized.getD .east).dot (vecAt v (o + 2) - vecAt v o) := by
  change Row.along (vecRow o _ ++ vecRow (o + 2) _) v = _
  rw [along_append, along_vecRow, along_vecRow]
  simp only [Vec.dot_eq, Vec.sub_x, Vec.sub_y]
  ring

theorem along_turned (target : ℝ) (l m : LineValue ℝ) : (turned target l m).2.along v =
    m.direction.cross (m.spin v) / m.direction.dot m.direction -
      l.direction.cross (l.spin v) / l.direction.dot l.direction := by
  change Row.along (angleRow (-1) l ++ angleRow 1 m) v = _
  rw [along_append, along_angleRow, along_angleRow]
  ring

/-- The row of the distance from a segment follows the quotient rule. -/
theorem along_signedDistance_segment (p : PointValue ℝ) (o : ℕ) {start stop : Vec ℝ}
    (h : Scalar.epsilon < (stop - start).length) :
    (signedDistance p (.segment o start stop)).2.along v =
      let u := stop - start
      let w := p.place - start
      let u' := vecAt v (o + 2) - vecAt v o
      let w' := p.velocity v - vecAt v o
      ((u'.cross w + u.cross w') * u.length - u.cross w * (u.dot u' / u.length)) /
        u.length ^ 2 := by
  have hne : (stop - start).length ≠ 0 := (Scalar.epsilon_pos.trans h).ne'
  simp only [signedDistance, Scalar.larger_eq_max, max_eq_left h.le, along_append, along_cons,
    along_nil, PointValue.along_row, vecAt, Vec.dot_eq, Vec.cross_eq, Vec.sub_x, Vec.sub_y,
    Vec.scale_x, Vec.scale_y]
  field_simp
  ring

end

section

variable {p q : PointValue ℝ} {l m : LineValue ℝ} {x : ℕ → ℝ}

theorem differentiates_apartAlong {axis : ℕ} (h : axis ≤ 1) :
    Differentiates (fun y => apartAlong axis (p.readAt y) (q.readAt y)) x := by
  rintro γ v t rfl hγ
  have hp := (p.hasVelocity_place hγ).coord axis
  have hq := (q.hasVelocity_place hγ).coord axis
  apply (hp.sub hq).congr_deriv
  rw [along_apartAlong v h, PointValue.velocity_readAt, PointValue.velocity_readAt, Vec.coord_sub]

theorem differentiates_apart (value : ℝ)
    (h : Scalar.epsilon < (p.readAt x).place.distance (q.readAt x).place) :
    Differentiates (fun y => apart value (p.readAt y) (q.readAt y)) x := by
  rintro γ v t rfl hγ
  have hdelta := (p.hasVelocity_place hγ).sub (q.hasVelocity_place hγ)
  apply ((hdelta.length_normalized h).sub_const value).congr_deriv
  rw [along_apart, PointValue.velocity_readAt, PointValue.velocity_readAt]

theorem differentiates_excess {o : ℕ}
    (h : Scalar.epsilon < (vecAt x o).distance (vecAt x (o + 2))) :
    Differentiates (fun y => excess o (vecAt y o) (vecAt y (o + 2))) x := by
  rintro γ v t rfl hγ
  have hdelta := (hasVelocity_vecAt hγ (o + 2)).sub (hasVelocity_vecAt hγ o)
  rw [← Vec.length_sub] at h
  exact ((hdelta.length_normalized h).sub_const 1).congr_deriv (along_excess v o _ _).symm

theorem differentiates_turned (target : ℝ) (hl : (l.readAt x).IsLong) (hm : (m.readAt x).IsLong)
    (hjump : (turned target (l.readAt x) (m.readAt x)).1 ≠ Real.pi / 2) :
    Differentiates (fun y => turned target (l.readAt y) (m.readAt y)) x := by
  rintro γ v t rfl hγ
  apply (Turn.hasDerivAt_wrapHalf_between (l.hasVelocity_direction hγ) (m.hasVelocity_direction hγ)
    hl.length_direction hm.length_direction hjump).congr_deriv
  rw [along_turned, LineValue.spin_readAt, LineValue.spin_readAt]

theorem differentiates_signedDistance (hl : (l.readAt x).IsLong) :
    Differentiates (fun y => signedDistance (p.readAt y) (l.readAt y)) x := by
  rintro γ v t rfl hγ
  have hp := p.hasVelocity_place hγ
  cases l with
  | fixed l =>
    apply (((Vec.hasVelocity_const l.normal t).dot hp).add_const l.c).congr_deriv
    change Vec.dot 0 _ + _ = Row.along (PointValue.row _ l.normal) v
    rw [PointValue.along_row, PointValue.velocity_readAt]
    simp [Vec.dot_eq]
  | segment o start stop =>
    have hu := (hasVelocity_vecAt hγ (o + 2)).sub (hasVelocity_vecAt hγ o)
    have hw := hp.sub (hasVelocity_vecAt hγ o)
    have hlong : Scalar.epsilon < (vecAt (γ t) (o + 2) - vecAt (γ t) o).length := by
      rw [Vec.length_sub]
      exact hl
    have hlen := hu.length (Scalar.epsilon_pos.trans hlong).ne'
    have hquotient := (hu.cross hw).div hlen (Scalar.epsilon_pos.trans hlong).ne'
    have hrow := along_signedDistance_segment v (p.readAt (γ t)) o hlong
    rw [PointValue.velocity_readAt] at hrow
    apply (hquotient.congr_deriv hrow.symm).congr_of_eventuallyEq
    -- a segment that is long enough stays so for a while
    filter_upwards [hlen.continuousAt.eventually_const_lt hlong] with s hs
    change _ / Scalar.larger _ _ = _
    rw [Scalar.larger_eq_max, max_eq_left hs.le]
    rfl

theorem pointLine_fst (p : PointValue ℝ) (l : LineValue ℝ) (value : ℝ) :
    (System.pointLine p l value).1 =
      if value = 0 then (signedDistance p l).1
      else (signedDistance p l).1 - (if 0 ≤ (signedDistance p l).1 then 1 else -1) * value := by
  simp only [← Scalar.isZero_iff value]
  rfl

/-- The point keeps to its side for a while if it is off the line. -/
theorem differentiates_pointLine {value : ℝ} (hl : (l.readAt x).IsLong)
    (hs : value ≠ 0 → (signedDistance (p.readAt x) (l.readAt x)).1 ≠ 0) :
    Differentiates (fun y => System.pointLine (p.readAt y) (l.readAt y) value) x := by
  rintro γ v t rfl hγ
  have hdist := differentiates_signedDistance (p := p) hl γ v t rfl hγ
  by_cases hv : value = 0
  · apply hdist.congr_of_eventuallyEq
    filter_upwards with s
    rw [pointLine_fst, if_pos hv]
  · let side (d : ℝ) : ℝ := if 0 ≤ d then 1 else -1
    have hside : ∀ᶠ s in nhds t, side (signedDistance (p.readAt (γ s)) (l.readAt (γ s))).1 =
        side (signedDistance (p.readAt (γ t)) (l.readAt (γ t))).1 := by
      rcases (hs hv).lt_or_gt with hneg | hpos
      · filter_upwards [hdist.continuousAt.eventually_lt_const hneg] with s hs
        exact (if_neg hs.not_ge).trans (if_neg hneg.not_ge).symm
      · filter_upwards [hdist.continuousAt.eventually_const_lt hpos] with s hs
        exact (if_pos hs.le).trans (if_pos hpos.le).symm
    apply (hdist.sub_const (side _ * value)).congr_of_eventuallyEq
    filter_upwards [hside] with s hs
    rw [pointLine_fst, if_neg hv, ← hs]

end

end LeastSquares

end RigidSketch
