import RigidSketch.LeastSquares.Descent
import RigidSketch.Proofs.Encoding

/-! The order of the numbers. All but the undefined ones are in a linear order, in which the two
zeros are equal; an undefined one compares with nothing. -/

namespace RigidSketch

namespace Binary64

open Float.Model Float.Model.UnpackedFloat

abbrev Rank := ℤ ×ₗ ℤ ×ₗ ℤ

/-- The place of a number: first its class, then for a finite one exponent and mantissa. -/
def rank? : UnpackedFloat → Option Rank
  | .notANumber => none
  | .infinity .negative => some (toLex (-2, toLex (0, 0)))
  | .finite .negative m e _ => some (toLex (-1, toLex (-e, -m)))
  | .zero _ => some (toLex (0, toLex (0, 0)))
  | .finite .positive m e _ => some (toLex (1, toLex (e, m)))
  | .infinity .positive => some (toLex (2, toLex (0, 0)))

theorem cmp_toLex {α β : Type} [LinearOrder α] [LinearOrder β] (p q : α × β) :
    cmp (toLex p) (toLex q) = (cmp p.1 q.1).then (cmp p.2 q.2) := by
  have hlt : ∀ {p q : α × β}, p.1 < q.1 ∨ p.1 = q.1 ∧ p.2 < q.2 → toLex p < toLex q :=
    Prod.Lex.toLex_lt_toLex.mpr
  rcases lt_trichotomy p.1 q.1 with h | h | h
  · rw [(cmp_eq_lt_iff _ _).mpr h, (cmp_eq_lt_iff _ _).mpr (hlt (Or.inl h))]
    rfl
  · rw [(cmp_eq_eq_iff _ _).mpr h]
    rcases lt_trichotomy p.2 q.2 with h' | h' | h'
    · rw [(cmp_eq_lt_iff _ _).mpr h', (cmp_eq_lt_iff _ _).mpr (hlt (Or.inr ⟨h, h'⟩))]
      rfl
    · rw [(cmp_eq_eq_iff _ _).mpr h', (cmp_eq_eq_iff _ _).mpr (congrArg _ (Prod.ext h h'))]
      rfl
    · rw [(cmp_eq_gt_iff _ _).mpr h', (cmp_eq_gt_iff _ _).mpr (hlt (Or.inr ⟨h.symm, h'⟩))]
      rfl
  · rw [(cmp_eq_gt_iff _ _).mpr h, (cmp_eq_gt_iff _ _).mpr (hlt (Or.inl h))]
    rfl

theorem compare_finite (m₁ m₂ : ℕ) (e₁ e₂ : ℤ) :
    (compare e₁ e₂).then (compare m₁ m₂) = (cmp e₁ e₂).then (cmp (m₁ : ℤ) m₂) := by
  rw [cmp_eq_compare, Nat.strictMono_cast.cmp_map_eq, cmp_eq_compare]

theorem compare_eq (u v : UnpackedFloat) :
    u.compare v = (rank? u).bind fun a => (rank? v).map fun b => cmp a b := by
  rcases u with (_ | _) | _ | _ | ⟨_ | _, m, e, h⟩ <;>
    rcases v with (_ | _) | _ | _ | ⟨_ | _, m', e', h'⟩
  case finite.negative.finite.negative =>
    have hfinite : ((compare e e').then (compare m m')).swap =
        cmp (toLex ((-1 : ℤ), toLex (-e, -(m : ℤ)))) (toLex (-1, toLex (-e', -(m' : ℤ)))) := by
      have hneg : StrictAnti fun a : ℤ => -a := fun _ _ => neg_lt_neg
      rw [compare_finite, Ordering.swap_then, cmp_swap, cmp_swap, cmp_toLex, cmp_toLex,
        cmp_self_eq_eq, hneg.cmp_map_eq, hneg.cmp_map_eq]
      rfl
    exact congrArg some hfinite
  case finite.positive.finite.positive =>
    have hfinite : (compare e e').then (compare m m') =
        cmp (toLex ((1 : ℤ), toLex (e, (m : ℤ)))) (toLex (1, toLex (e', (m' : ℤ)))) := by
      rw [compare_finite, cmp_toLex, cmp_toLex, cmp_self_eq_eq]
      rfl
    exact congrArg some hfinite
  all_goals rfl

def rank (x : Float) : Option Rank := rank? x.toModel.unpack

theorem isLE_cmp {a b : Rank} : (cmp a b).isLE = true ↔ a ≤ b := by
  rcases lt_trichotomy a b with h | h | h
  · simp [(cmp_eq_lt_iff _ _).mpr h, h.le]
  · simp [(cmp_eq_eq_iff _ _).mpr h, h.le]
  · simp [(cmp_eq_gt_iff _ _).mpr h, h.not_ge]

protected theorem le_iff {x y : Float} :
    x ≤ y ↔ ∃ a b, rank x = some a ∧ rank y = some b ∧ a ≤ b := by
  have hle : x ≤ y ↔ (x.toModel.unpack.compare y.toModel.unpack).any (·.isLE) = true :=
    decide_eq_true_iff
  rw [hle, compare_eq]
  change ((rank x).bind fun a => (rank y).map fun b => cmp a b).any (·.isLE) = true ↔ _
  cases rank x with
  | none => simp
  | some a =>
    cases rank y with
    | none => simp
    | some b => simp [isLE_cmp]

protected theorem lt_iff {x y : Float} :
    x < y ↔ ∃ a b, rank x = some a ∧ rank y = some b ∧ a < b := by
  have hlt : x < y ↔ (x.toModel.unpack.compare y.toModel.unpack == some .lt) = true :=
    decide_eq_true_iff
  rw [hlt, compare_eq]
  change (((rank x).bind fun a => (rank y).map fun b => cmp a b) == some .lt) = true ↔ _
  cases rank x with
  | none => simp
  | some a =>
    cases rank y with
    | none => simp
    | some b => simp [cmp_eq_lt_iff]

theorem isNaN_iff {x : Float} : x.isNaN = true ↔ rank x = none := by
  change x.toModel.unpack.isNaN = true ↔ rank? x.toModel.unpack = none
  rcases x.toModel.unpack with (_ | _) | _ | _ | ⟨_ | _, m, e, h⟩ <;>
    simp [UnpackedFloat.isNaN, rank?]

theorem exists_rank {x : Float} (h : x.isNaN = false) : ∃ a, rank x = some a :=
  Option.ne_none_iff_exists'.mp fun hnone => Bool.false_ne_true (h.symm.trans (isNaN_iff.mpr hnone))

theorem isNaN_abs (x : Float) : x.abs.isNaN = x.isNaN := by
  change (Float.Model.unpack (.pack x.toModel.unpack.abs)).isNaN = x.toModel.unpack.isNaN
  have hform := form x
  generalize x.toModel.unpack = u at hform
  cases hform with
  | notANumber => rfl
  | infinity => cases signOf x <;> rfl
  | zero _ => cases signOf x <;> rfl
  | finite hc _ htop =>
    change (Float.Model.unpack (.pack (.finite .positive _ _ hc.pos))).isNaN = false
    rw [unpack_model_pack hc htop]
    rfl

theorem isNaN_eq_false {x : Float} {a : Rank} (h : rank x = some a) : x.isNaN = false :=
  Bool.eq_false_iff.mpr fun hx => Option.some_ne_none a (h.symm.trans (isNaN_iff.mp hx))

protected theorem le_trans {x y z : Float} (hxy : x ≤ y) (hyz : y ≤ z) : x ≤ z := by
  obtain ⟨a, b, ha, hb, hab⟩ := Binary64.le_iff.mp hxy
  obtain ⟨b', c, hb', hc, hbc⟩ := Binary64.le_iff.mp hyz
  cases hb.symm.trans hb'
  exact Binary64.le_iff.mpr ⟨a, c, ha, hc, hab.trans hbc⟩

protected theorem le_refl {x : Float} (h : x.isNaN = false) : x ≤ x := by
  obtain ⟨a, ha⟩ := exists_rank h
  exact Binary64.le_iff.mpr ⟨a, a, ha, ha, le_rfl⟩

protected theorem le_of_lt {x y : Float} (h : x < y) : x ≤ y := by
  obtain ⟨a, b, ha, hb, hab⟩ := Binary64.lt_iff.mp h
  exact Binary64.le_iff.mpr ⟨a, b, ha, hb, hab.le⟩

theorem isNaN_of_lt {x y : Float} (h : x < y) : x.isNaN = false ∧ y.isNaN = false := by
  obtain ⟨a, b, ha, hb, _⟩ := Binary64.lt_iff.mp h
  exact ⟨isNaN_eq_false ha, isNaN_eq_false hb⟩

protected theorem le_of_not_lt {x y : Float} (hx : x.isNaN = false) (hy : y.isNaN = false)
    (h : ¬ x < y) : y ≤ x := by
  obtain ⟨a, ha⟩ := exists_rank hx
  obtain ⟨b, hb⟩ := exists_rank hy
  have hnot : ¬ a < b := fun hab => h (Binary64.lt_iff.mpr ⟨a, b, ha, hb, hab⟩)
  exact Binary64.le_iff.mpr ⟨b, a, hb, ha, not_lt.mp hnot⟩

end Binary64

open Binary64

theorem Scalar.larger_eq_of_isNaN {a b : Float} (ha : a.isNaN = false) (hb : b.isNaN = true) :
    larger a b = a := by
  have hlt : ¬ a < b := fun h => Bool.false_ne_true ((isNaN_of_lt h).2.symm.trans hb)
  rw [larger, if_neg hlt, if_pos (Binary64.le_refl ha)]

theorem Scalar.larger_le_iff {a b t : Float} (ha : a.isNaN = false) (hb : b.isNaN = false) :
    larger a b ≤ t ↔ a ≤ t ∧ b ≤ t := by
  unfold larger
  split
  · rename_i hlt
    exact ⟨fun h => ⟨Binary64.le_trans (Binary64.le_of_lt hlt) h, h⟩, And.right⟩
  · rename_i hlt
    rw [if_pos (Binary64.le_refl ha)]
    exact ⟨fun h => ⟨h, Binary64.le_trans (Binary64.le_of_not_lt ha hb hlt) h⟩, And.left⟩

theorem Scalar.isNaN_larger {a b : Float} (ha : a.isNaN = false) :
    (larger a b).isNaN = false := by
  unfold larger
  split
  · rename_i hlt
    exact (isNaN_of_lt hlt).2
  · rwa [if_pos (Binary64.le_refl ha)]

namespace LeastSquares

theorem largest_le_iff {xs : List Float} {t : Float} :
    largest xs ≤ t ↔ 0 ≤ t ∧ ∀ x ∈ xs, x.isNaN = true ∨ x.abs ≤ t := by
  have hfold : ∀ acc : Float, acc.isNaN = false →
      (xs.foldl (fun acc x => Scalar.larger acc x.abs) acc ≤ t ↔
        acc ≤ t ∧ ∀ x ∈ xs, x.isNaN = true ∨ x.abs ≤ t) := by
    induction xs with
    | nil => exact fun acc _ => by simp
    | cons x xs ih =>
      intro acc hacc
      rw [List.foldl_cons, ih _ (Scalar.isNaN_larger hacc), List.forall_mem_cons, ← and_assoc]
      refine and_congr_left' ?_
      cases hx : x.isNaN with
      | true =>
        rw [Scalar.larger_eq_of_isNaN hacc ((isNaN_abs x).trans hx)]
        simp
      | false =>
        rw [Scalar.larger_le_iff hacc ((isNaN_abs x).trans hx)]
        simp
  exact hfold 0 rfl

end LeastSquares

end RigidSketch
