import RigidSketch.Proofs.Descending
import RigidSketch.Proofs.Ordering

/-! Numbers that are multiplied by ten over and over. A positive one comes to exceed every bound,
a negative one comes to stay at minus infinity, and a zero stays as it is. -/

namespace RigidSketch

namespace Binary64

open Float.Model Float.Model.UnpackedFloat

theorem mantissa_shiftRight (em : ExtendedMantissa) (n : ℕ) :
    (em >>> n).mantissa = em.mantissa / 2 ^ n := by
  change (n.repeat ExtendedMantissa.shiftRightOne em).mantissa = _
  induction n with
  | zero => simp [Nat.repeat]
  | succ n ih =>
    change (n.repeat ExtendedMantissa.shiftRightOne em).mantissa / 2 = _
    rw [ih, Nat.div_div_eq_div_mul, pow_succ]

theorem roundedMantissa_bounds (em : ExtendedMantissa) :
    em.mantissa ≤ em.roundedMantissa ∧ em.roundedMantissa ≤ em.mantissa + 1 := by
  obtain ⟨k, round, sticky⟩ := em
  cases round <;> cases sticky <;>
    simp [ExtendedMantissa.roundedMantissa, ExtendedMantissa.accuracy,
      Accuracy.roundToNearestEven]
  omega

theorem exists_roundWithAccuracy (s : Sign) {k : ℕ} {e : ℤ} (hk : 52 ≤ k.log2) (he : -1126 ≤ e) :
    ∃ m e', ∃ hc : Canonical m e', roundWithAccuracy .binary64 s k e .exact =
      .finite s m e' hc.pos ∧ k.log2 + e ≤ m.log2 + e' := by
  obtain ⟨n, hn⟩ : ∃ n : ℕ, max (k.log2 + e - 52) (-1074) = e + n :=
    ⟨(max (k.log2 + e - 52) (-1074) - e).toNat, by omega⟩
  have hne : k ≠ 0 := by
    rintro rfl
    simp at hk
  let em := ExtendedMantissa.ofMantissaAndAccuracy k .exact >>> n
  have hmantissa : em.mantissa = k / 2 ^ n := mantissa_shiftRight _ n
  obtain ⟨hlow, hhigh⟩ := roundedMantissa_bounds em
  have hleading : 2 ^ (k.log2 - n) ≤ k / 2 ^ n := by
    rw [Nat.le_div_iff_mul_le (Nat.two_pow_pos n), ← pow_add, Nat.sub_add_cancel (by omega)]
    exact Nat.log2_self_le hne
  have hfits : k / 2 ^ n < 2 ^ 53 := by
    rw [Nat.div_lt_iff_lt_mul (Nat.two_pow_pos n), ← pow_add]
    exact Nat.lt_log2_self.trans_le (Nat.pow_le_pow_right two_pos (by omega))
  have hround : roundWithAccuracy .binary64 s k e .exact =
      (let r := shiftToTargetExponent .binary64 em.roundedMantissa (e + n) .exact
      if h : r.1.mantissa = 0 then .zero s
      else .finite s r.1.mantissa r.2 (Nat.pos_of_ne_zero h)) := by
    unfold roundWithAccuracy
    rw [shiftToTargetExponent_eq, hn, shiftToExponent_eq k .exact rfl]
  rw [hround]
  rcases Nat.lt_or_ge em.roundedMantissa (2 ^ 53) with hlt | hge
  · rw [shiftToTargetExponent_of_lt hlt (by omega)]
    have hpos : 0 < em.roundedMantissa := by
      have := Nat.two_pow_pos (k.log2 - n)
      omega
    have hlog : k.log2 - n ≤ em.roundedMantissa.log2 :=
      (Nat.le_log2 hpos.ne').mpr (by omega)
    have hnormal : 2 ^ 52 ≤ em.roundedMantissa ∨ e + n = -1074 := by
      by_cases hmin : e + n = -1074
      · exact Or.inr hmin
      · have hbits : k.log2 - n = 52 := by omega
        rw [hbits] at hleading
        omega
    exact ⟨_, _, ⟨hpos, hlt, by omega, hnormal⟩, dif_neg hpos.ne', by omega⟩
  · have hcarry : em.roundedMantissa = 2 ^ 53 := by omega
    have hlog : (2 ^ 52).log2 = 52 := Nat.log2_two_pow
    rw [hcarry, shiftToTargetExponent_carry (by omega)]
    exact ⟨2 ^ 52, e + n + 1, ⟨by decide, by decide, by omega, Or.inl le_rfl⟩, rfl, by omega⟩

theorem unpack_ten :
    (10 : Float).toModel.unpack = .finite .positive (5 * 2 ^ 50) (-49) (by decide) := rfl

theorem unpack_mul (x y : Float) :
    (x * y).toModel.unpack =
      Float.Model.unpack (.pack (UnpackedFloat.mul .binary64 x.toModel.unpack y.toModel.unpack)) :=
  rfl

theorem eq_of_unpack {x y : Float} (h : x.toModel.unpack = y.toModel.unpack) : x = y := by
  have hbits := (unpack_inj_of_valid x.toModel.valid y.toModel.valid).mp h
  exact Float.toBits_inj.mp (UInt64.toBitVec_inj.mp hbits)

theorem unpack_infinity (s : Sign) : Float.Model.unpack (.pack (.infinity s)) = .infinity s := by
  cases s <;> rfl

theorem unpack_zero (s : Sign) : Float.Model.unpack (.pack (.zero s)) = .zero s := by
  cases s <;> rfl

theorem unpack_overflow {s : Sign} {m : ℕ} {e : ℤ} (h : 0 < m) (he : 971 < e) :
    Float.Model.unpack (.pack (.finite s m e h)) = .infinity s := by
  have hbiased : 2047 ≤ (e + Format.binary64.exponentBias +
      Format.binary64.mantissaBitsWithoutImplicit).toNat := by
    have hbias : (Format.binary64.exponentBias : ℤ) +
        Format.binary64.mantissaBitsWithoutImplicit = 1075 := rfl
    omega
  have hbits : 2 ^ Format.binary64.exponentBits = 2047 + 1 := rfl
  have hpack : UnpackedFloat.pack .binary64 (.finite s m e h) = packedInfinity .binary64 s := by
    unfold UnpackedFloat.pack
    dsimp only
    rw [hbits]
    exact if_pos (Nat.succ_le_succ hbiased)
  rw [← unpack_infinity s]
  exact congrArg (UnpackedFloat.unpack .binary64) hpack

/-- The number has a sign, and its leading bit is at some place at least. An infinite one is
beyond every place. -/
inductive Reaches (s : Sign) (l : ℤ) : UnpackedFloat → Prop
  | infinity : Reaches s l (.infinity s)
  | finite {m : ℕ} {e : ℤ} (hc : Canonical m e) (htop : e ≤ 971) (hl : l ≤ m.log2 + e) :
      Reaches s l (.finite s m e hc.pos)

theorem Reaches.mul_ten {s : Sign} {l : ℤ} {x : Float} (h : Reaches s l x.toModel.unpack) :
    Reaches s (l + 3) (x * 10).toModel.unpack := by
  have hsign : s * .positive = s := by cases s <;> rfl
  rw [unpack_mul, unpack_ten]
  generalize x.toModel.unpack = u at h
  cases h with
  | infinity =>
    have hmul : UnpackedFloat.mul .binary64 (.infinity s)
        (.finite .positive (5 * 2 ^ 50) (-49) (by decide)) = .infinity s := congrArg _ hsign
    rw [hmul, unpack_infinity]
    exact .infinity
  | @finite m e hc htop hl =>
    have hlog : m.log2 + 52 ≤ (m * (5 * 2 ^ 50)).log2 := by
      refine (Nat.le_log2 (Nat.mul_pos hc.pos (by decide)).ne').mpr ?_
      rw [pow_add]
      exact Nat.mul_le_mul (Nat.log2_self_le hc.pos.ne') (by decide)
    have hle := hc.le
    obtain ⟨m', e', hc', hround, hlead⟩ :=
      exists_roundWithAccuracy (s * .positive) (k := m * (5 * 2 ^ 50)) (e := e + -49) (by omega)
        (by omega)
    have hmul : UnpackedFloat.mul .binary64 (.finite s m e hc.pos)
        (.finite .positive (5 * 2 ^ 50) (-49) (by decide)) = .finite s m' e' hc'.pos :=
      hround.trans (by rw [hsign])
    rw [hmul]
    by_cases htop' : e' ≤ 971
    · rw [unpack_model_pack hc' htop']
      exact .finite hc' htop' (by omega)
    · rw [unpack_overflow hc'.pos (by omega)]
      exact .infinity

theorem Reaches.eq_infinity {s : Sign} {l : ℤ} {u : UnpackedFloat} (h : Reaches s l u)
    (hl : 1023 < l) : u = .infinity s := by
  cases h with
  | infinity => rfl
  | @finite m e hc htop hlead =>
    have hlog := (Nat.log2_lt hc.pos.ne').mpr hc.lt
    omega

theorem sign_cases (x : Float) : x.toModel.unpack = .notANumber ∨
    (∃ s, x.toModel.unpack = .zero s) ∨ ∃ s, Reaches s (-1074) x.toModel.unpack := by
  have hform := form x
  generalize x.toModel.unpack = u at hform
  cases hform with
  | notANumber => exact Or.inl rfl
  | infinity => exact Or.inr (Or.inr ⟨_, .infinity⟩)
  | zero _ => exact Or.inr (Or.inl ⟨_, rfl⟩)
  | finite hc _ htop => exact Or.inr (Or.inr ⟨_, .finite hc htop (by have := hc.le; omega)⟩)

theorem Reaches.le_of_negative {l : ℤ} {x y : Float}
    (h : Reaches .negative l x.toModel.unpack) {c : ℤ} {b : ℤ ×ₗ ℤ}
    (hy : rank y = some (toLex (c, b))) (hc : 0 ≤ c) : x ≤ y := by
  have hrank : ∃ d a, rank x = some (toLex (d, a)) ∧ d < 0 := by
    unfold rank
    generalize x.toModel.unpack = u at h
    cases h with
    | infinity => exact ⟨-2, _, rfl, by decide⟩
    | finite hc _ _ => exact ⟨-1, _, rfl, by decide⟩
  obtain ⟨d, a, hx, hd⟩ := hrank
  exact Binary64.le_iff.mpr
    ⟨_, _, hx, hy, (Prod.Lex.toLex_lt_toLex.mpr (Or.inl (hd.trans_le hc))).le⟩

/-- A positive number is above another one if its exponent is. -/
theorem Reaches.not_le_of_positive {l : ℤ} {x y : Float}
    (h : Reaches .positive l x.toModel.unpack) {c e n : ℤ}
    (hy : rank y = some (toLex (c, toLex (e, n)))) (hc : c < 1 ∨ c = 1 ∧ e + 52 < l) :
    ¬ x ≤ y := by
  have hrank : ∃ d a, rank x = some (toLex (d, a)) ∧ toLex (c, toLex (e, n)) < toLex (d, a) := by
    unfold rank
    generalize x.toModel.unpack = u at h
    cases h with
    | infinity =>
      exact ⟨2, _, rfl, Prod.Lex.toLex_lt_toLex.mpr (Or.inl (by dsimp only; omega))⟩
    | @finite m e' hc' _ hl =>
      have hlog := (Nat.log2_lt hc'.pos.ne').mpr hc'.lt
      refine ⟨1, toLex (e', (m : ℤ)), rfl, Prod.Lex.toLex_lt_toLex.mpr ?_⟩
      refine hc.imp_right fun hc => ⟨hc.1, Prod.Lex.toLex_lt_toLex.mpr (Or.inl ?_)⟩
      dsimp only
      omega
  intro hle
  obtain ⟨d, a, hx, hlt⟩ := hrank
  obtain ⟨a', b', ha', hb', hab⟩ := Binary64.le_iff.mp hle
  cases hx.symm.trans ha'
  cases hy.symm.trans hb'
  exact hlt.not_ge hab

theorem not_le_of_isNaN {x y : Float} (h : x.toModel.unpack = .notANumber) : ¬ x ≤ y := by
  intro hle
  obtain ⟨a, _, ha, _⟩ := Binary64.le_iff.mp hle
  rw [rank, h] at ha
  cases ha

theorem rank_zero : rank 0 = some (toLex (0, toLex (0, 0))) := rfl

theorem rank_eq_rank_zero {x : Float} {s : Sign} (h : x.toModel.unpack = .zero s) :
    rank x = rank 0 := by
  rw [rank, h]
  rfl

end Binary64

namespace LeastSquares

open Binary64 Float.Model Float.Model.UnpackedFloat

theorem rank_maxDamping : rank maxDamping = some (toLex (1, toLex (-13, 8192000000000000))) := by
  decide +kernel

theorem raised_succ' (k : ℕ) (x : Float) : raised (k + 1) x = raised k x * 10 :=
  Function.iterate_succ_apply' _ k x

theorem reaches_raised {s : Sign} {l : ℤ} {x : Float} (h : Reaches s l x.toModel.unpack) (k : ℕ) :
    Reaches s (l + 3 * k) (raised k x).toModel.unpack := by
  induction k with
  | zero => simpa [raised] using h
  | succ k ih =>
    have hnext := ih.mul_ten
    rw [← raised_succ'] at hnext
    convert hnext using 1
    push_cast
    ring

theorem unpack_raised_zero {s : Sign} {x : Float} (h : x.toModel.unpack = .zero s) (k : ℕ) :
    (raised k x).toModel.unpack = .zero s := by
  have hsign : s * .positive = s := by cases s <;> rfl
  induction k with
  | zero => exact h
  | succ k ih =>
    rw [raised_succ', unpack_mul, ih, unpack_ten]
    exact (congrArg (fun s => Float.Model.unpack (.pack (.zero s))) hsign).trans (unpack_zero s)

/-- A damping that is positive, or undefined, is raised above its bound. -/
theorem exists_raised_not_le {x : Float} (h : ¬ x ≤ 0) : ∃ k < 373, ¬ raised k x ≤ maxDamping := by
  rcases sign_cases x with hnan | ⟨s, hzero⟩ | ⟨s, hreaches⟩
  · exact ⟨0, by decide, not_le_of_isNaN hnan⟩
  · exact absurd (Binary64.le_iff.mpr ⟨_, _, rank_eq_rank_zero hzero, rank_zero, le_rfl⟩) h
  · cases s with
    | negative => exact absurd (hreaches.le_of_negative rank_zero le_rfl) h
    | positive =>
      exact ⟨372, by decide, (reaches_raised hreaches 372).not_le_of_positive rank_maxDamping
        (Or.inr ⟨rfl, by decide⟩)⟩

/-- A damping that is not positive stays below the bound, and is the same from some raise on. -/
theorem raised_of_le_zero {x : Float} (h : x ≤ 0) :
    (∀ k, raised k x ≤ maxDamping) ∧ ∀ k, 700 ≤ k → raised k x = raised 700 x := by
  rcases sign_cases x with hnan | ⟨s, hzero⟩ | ⟨s, hreaches⟩
  · exact absurd h (not_le_of_isNaN hnan)
  · have hsame := unpack_raised_zero hzero
    refine ⟨fun k => Binary64.le_iff.mpr ⟨_, _, rank_eq_rank_zero (hsame k), rank_maxDamping, ?_⟩,
      fun k _ => eq_of_unpack ((hsame k).trans (hsame 700).symm)⟩
    exact (Prod.Lex.toLex_lt_toLex.mpr (Or.inl (by decide))).le
  · cases s with
    | negative =>
      have hinf : ∀ k : ℕ, 700 ≤ k → (raised k x).toModel.unpack = .infinity .negative :=
        fun k hk => (reaches_raised hreaches k).eq_infinity (by omega)
      refine ⟨fun k => (reaches_raised hreaches k).le_of_negative rank_maxDamping (by decide),
        fun k hk => eq_of_unpack ((hinf k hk).trans (hinf 700 le_rfl).symm)⟩
    | positive => exact absurd h (hreaches.not_le_of_positive rank_zero (Or.inl (by decide)))

end LeastSquares

end RigidSketch
