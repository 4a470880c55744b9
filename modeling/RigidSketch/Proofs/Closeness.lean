import RigidSketch.Binary64.Scalar
import RigidSketch.Plane.Shape
import RigidSketch.Proofs.Encoding

/-! Closeness is symmetric. Rounding treats a number and its negative alike, so that neither the
order of a difference nor the line that is flipped makes a difference to it. -/

namespace RigidSketch

namespace Binary64

open Float.Model Float.Model.UnpackedFloat

theorem Sign.neg_neg (s : Sign) : -(-s) = s := by
  cases s <;> rfl

theorem Sign.mul_comm (s t : Sign) : s * t = t * s := by
  cases s <;> cases t <;> rfl

theorem Sign.apply_neg (s : Sign) (n : Int) : (-s).apply n = -s.apply n := by
  cases s with
  | negative => exact (Int.neg_neg n).symm
  | positive => rfl

theorem unpacked_add_comm (u v : UnpackedFloat) : u.add .binary64 v = v.add .binary64 u := by
  cases u <;> cases v
  case finite.finite s m e hm t n f hn =>
    simp only [UnpackedFloat.add, min_comm e f]
    rw [Int.add_comm]
  all_goals simp [UnpackedFloat.add]
  all_goals grind

theorem unpacked_mul_comm (u v : UnpackedFloat) : u.mul .binary64 v = v.mul .binary64 u := by
  cases u <;> cases v
  case finite.finite s m e hm t n f hn =>
    simp only [UnpackedFloat.mul, Sign.mul_comm s t, Nat.mul_comm m n, Int.add_comm e f]
  all_goals simp [UnpackedFloat.mul, Sign.mul_comm]

theorem unpacked_sub_neg (u v : UnpackedFloat) :
    u.sub .binary64 v.neg = u.add .binary64 v := by
  cases u <;> cases v
  case finite.finite s m e hm t n f hn =>
    simp only [UnpackedFloat.sub, UnpackedFloat.neg, UnpackedFloat.add, Sign.apply_neg,
      Int.sub_neg]
  all_goals simp only [UnpackedFloat.sub, UnpackedFloat.neg, UnpackedFloat.add, Sign.neg_neg]

theorem neg_round (s : Sign) (m : Nat) (e : Int) :
    (UnpackedFloat.round .binary64 s m e).neg = UnpackedFloat.round .binary64 (-s) m e := by
  simp only [UnpackedFloat.round, roundWithAccuracy]
  split <;> rfl

theorem normalize_neg (n e : Int) :
    UnpackedFloat.normalize .binary64 (-n) e .positive =
        (UnpackedFloat.normalize .binary64 n e .positive).neg ∨
      UnpackedFloat.normalize .binary64 (-n) e .positive =
        UnpackedFloat.normalize .binary64 n e .positive := by
  unfold UnpackedFloat.normalize
  rcases Int.lt_trichotomy n 0 with hn | rfl | hn
  · have hpos : compare (-n) 0 = .gt := Int.compare_eq_gt.mpr (by omega)
    rw [Int.compare_eq_lt.mpr hn, hpos]
    exact Or.inl (neg_round .negative (-n).toNat e).symm
  · exact Or.inr rfl
  · have hneg : compare (-n) 0 = .lt := Int.compare_eq_lt.mpr (by omega)
    rw [Int.compare_eq_gt.mpr hn, hneg, Int.neg_neg]
    exact Or.inl (neg_round .positive n.toNat e).symm

/-- A difference changes its sign with the order, unless it is zero. -/
theorem unpacked_sub_comm (u v : UnpackedFloat) :
    v.sub .binary64 u = (u.sub .binary64 v).neg ∨ v.sub .binary64 u = u.sub .binary64 v := by
  cases u <;> cases v
  case finite.finite s m e hm t n f hn =>
    simp only [UnpackedFloat.sub, min_comm f e]
    rw [← Int.neg_sub]
    exact normalize_neg _ _
  case infinity.infinity s t => exact Or.inl (by cases s <;> cases t <;> rfl)
  case zero.zero s t =>
    cases s <;> cases t
    · exact Or.inr rfl
    · exact Or.inl rfl
    · exact Or.inl rfl
    · exact Or.inr rfl
  all_goals exact Or.inl (by simp [UnpackedFloat.sub, UnpackedFloat.neg, Sign.neg_neg])

theorem Unpacks.abs_eq {s t : Sign} {e m : Nat} {u v : UnpackedFloat} (hu : Unpacks s e m u)
    (hv : Unpacks t e m v) : u.abs = v.abs := by
  cases hu <;> cases hv <;> grind [UnpackedFloat.abs]

theorem abs_unpack_pack_neg (u : UnpackedFloat) :
    (Float.Model.unpack (.pack u.neg)).abs = (Float.Model.unpack (.pack u)).abs := by
  have hparts : ∀ (s : Sign) (e : BitVec 11) (m : BitVec 52),
      (UnpackedFloat.unpack .binary64 (packComponents .binary64 (-s) e m)).abs =
        (UnpackedFloat.unpack .binary64 (packComponents .binary64 s e m)).abs :=
    fun s e m => (unpacks_packComponents (-s) e m).abs_eq (unpacks_packComponents s e m)
  show (UnpackedFloat.unpack .binary64 (UnpackedFloat.pack .binary64 u.neg)).abs =
    (UnpackedFloat.unpack .binary64 (UnpackedFloat.pack .binary64 u)).abs
  cases u with
  | notANumber => rfl
  | infinity s => exact hparts s _ _
  | zero s => exact hparts s _ _
  | finite s m e hm =>
    simp only [UnpackedFloat.neg, UnpackedFloat.pack]
    split
    · exact hparts s _ _
    · split
      · exact hparts s _ _
      · exact hparts s _ _

protected theorem add_comm (x y : Float) : x + y = y + x :=
  congrArg (fun u => Float.ofModel (.pack u)) (unpacked_add_comm x.toModel.unpack y.toModel.unpack)

protected theorem mul_comm (x y : Float) : x * y = y * x :=
  congrArg (fun u => Float.ofModel (.pack u)) (unpacked_mul_comm x.toModel.unpack y.toModel.unpack)

protected theorem abs_sub_comm (x y : Float) : (x - y).abs = (y - x).abs := by
  have hsize : (Float.Model.unpack (.pack (y.toModel.unpack.sub .binary64 x.toModel.unpack))).abs =
      (Float.Model.unpack (.pack (x.toModel.unpack.sub .binary64 y.toModel.unpack))).abs := by
    rcases unpacked_sub_comm x.toModel.unpack y.toModel.unpack with h | h
    · rw [h]
      exact abs_unpack_pack_neg _
    · rw [h]
  exact congrArg (fun u => Float.ofModel (.pack u)) hsize.symm

theorem unpack_neg (x : Float) : (-x).toModel.unpack = x.toModel.unpack.neg := by
  show Float.Model.unpack (.pack x.toModel.unpack.neg) = x.toModel.unpack.neg
  have hform := form x
  generalize x.toModel.unpack = u at hform
  cases hform with
  | notANumber => rfl
  | infinity => cases signOf x <;> rfl
  | zero _ => cases signOf x <;> rfl
  | finite hc _ htop => exact unpack_model_pack hc htop

protected theorem sub_neg (x y : Float) : x - -y = x + y := by
  have h := unpacked_sub_neg x.toModel.unpack y.toModel.unpack
  rw [← unpack_neg] at h
  exact congrArg (fun u => Float.ofModel (.pack u)) h

theorem hypot_congr {x y x' y' : Float} (hx : x.abs = x'.abs) (hy : y.abs = y'.abs) :
    hypot x y = hypot x' y' := by
  unfold hypot
  rw [hx, hy]

end Binary64

theorem Vec.distance_comm (p q : Vec Float) : p.distance q = q.distance p :=
  Binary64.hypot_congr (Binary64.abs_sub_comm p.x q.x) (Binary64.abs_sub_comm p.y q.y)

theorem Vec.dot_comm (u v : Vec Float) : u.dot v = v.dot u := by
  show u.x * v.x + u.y * v.y = v.x * u.x + v.y * u.y
  rw [Binary64.mul_comm u.x v.x, Binary64.mul_comm u.y v.y]

theorem Shape.isClose_comm (tolerance : Float) (g h : Shape Float) :
    g.isClose tolerance h = h.isClose tolerance g := by
  -- whichever line is flipped, the coefficients are added
  have hflip : ∀ x y : Float, (x - -y).abs = (y - -x).abs := by
    intro x y
    rw [Binary64.sub_neg, Binary64.sub_neg, Binary64.add_comm]
  cases g with
  | point p =>
    cases h with
    | point q => rw [isClose, isClose, Vec.distance_comm p q]
    | line m => rfl
  | line l =>
    cases h with
    | point q => rfl
    | line m =>
      simp only [isClose, Line.orientedLike, Vec.dot_comm l.normal m.normal]
      by_cases hdot : m.normal.dot l.normal < 0
      · simp only [hdot, if_true, Line.flip, Scalar.abs, hflip l.a, hflip l.b, hflip l.c]
      · simp only [hdot, if_false, Scalar.abs, Binary64.abs_sub_comm l.a,
          Binary64.abs_sub_comm l.b, Binary64.abs_sub_comm l.c]

end RigidSketch
