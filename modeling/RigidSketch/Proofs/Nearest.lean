import RigidSketch.Proofs.Encoding
import RigidSketch.Script.Numeral

/-! Decimals that are read. Each becomes the number that it is rounded to. -/

namespace RigidSketch

namespace Binary64

open Float.Model Float.Model.UnpackedFloat

section

variable {m₁ m₂ m : Nat} {e₁ e₂ e : Int} (h₁ : 0 < m₁) (h₂ : 0 < m₂)

theorem mul_finite (hbits : 2 ^ 52 ≤ m₁ * m₂) (hc : Canonical m e)
    (hr : Rounds m e (m₁ * 2 ^ e₁ * (m₂ * 2 ^ e₂))) :
    UnpackedFloat.mul .binary64 (.finite .positive m₁ e₁ h₁) (.finite .positive m₂ e₂ h₂) =
      .finite .positive m e hc.pos := by
  have hvalue : (m₁ * 2 ^ e₁ * (m₂ * 2 ^ e₂) : ℚ) = (m₁ * m₂ : Nat) * 2 ^ (e₁ + e₂) := by
    rw [zpow_add₀ two_ne_zero]
    push_cast
    ring
  have hlog : 52 ≤ (m₁ * m₂).log2 := (Nat.le_log2 (Nat.mul_pos h₁ h₂).ne').mpr hbits
  rw [hvalue] at hr
  exact roundWithAccuracy_of_rounds (represents_exact _) (by omega) hc hr

/-- A quotient has all bits that are needed if its terms were moved apart far enough. -/
theorem le_div_of_log2 {a b n : Nat} (ha : 0 < a) (hb : 0 < b)
    (h : b.log2 + 53 ≤ a.log2 + n) : 2 ^ 52 ≤ a * 2 ^ n / b := by
  rw [Nat.le_div_iff_mul_le hb]
  calc 2 ^ 52 * b ≤ 2 ^ 52 * 2 ^ (b.log2 + 1) := Nat.mul_le_mul_left _ Nat.lt_log2_self.le
    _ = 2 ^ (b.log2 + 53) := by ring
    _ ≤ 2 ^ (a.log2 + n) := Nat.pow_le_pow_right two_pos h
    _ = 2 ^ a.log2 * 2 ^ n := pow_add 2 _ _
    _ ≤ a * 2 ^ n := Nat.mul_le_mul_right _ (Nat.log2_self_le ha.ne')

theorem divCore_spec (m₁ : Nat) (e₁ : Int) (m₂ : Nat) (e₂ : Int) (h₁ : 0 < m₁) (h₂ : 0 < m₂) :
    ∃ (n : Nat) (t : Int), divCore .binary64 m₁ e₁ m₂ e₂ =
        (m₁ * 2 ^ n / m₂, t, accuracyOfFraction (m₁ * 2 ^ n % m₂) m₂) ∧
      t + n = e₁ - e₂ ∧ t ≤ max ((m₁ * 2 ^ n / m₂).log2 + t - 52) (-1074) := by
  have htarget : Format.binary64.targetExponent (totalExponent m₁ e₁ - totalExponent m₂ e₂) =
      max (m₁.log2 + e₁ - m₂.log2 - e₂ - 53) (-1074) := by
    have hbits : (Format.binary64.mantissaBits : Int) = 53 := rfl
    have hmin : Format.binary64.minExponent = -1074 := rfl
    unfold Format.targetExponent totalExponent
    omega
  let t := min (e₁ - e₂) (max (m₁.log2 + e₁ - m₂.log2 - e₂ - 53) (-1074))
  let n := (e₁ - e₂ - t).toNat
  refine ⟨n, t, ?_, by omega, ?_⟩
  · rw [divCore, htarget, ← Nat.shiftLeft_eq]
  · by_cases hlow : t ≤ -1074
    · omega
    · have hbits : 2 ^ 52 ≤ m₁ * 2 ^ n / m₂ := le_div_of_log2 h₁ h₂ (by omega)
      have hlog := (Nat.le_log2 (by omega)).mpr hbits
      omega

theorem div_finite (hc : Canonical m e) (hr : Rounds m e (m₁ * 2 ^ e₁ / (m₂ * 2 ^ e₂))) :
    UnpackedFloat.div .binary64 (.finite .positive m₁ e₁ h₁) (.finite .positive m₂ e₂ h₂) =
      .finite .positive m e hc.pos := by
  obtain ⟨n, t, hcore, hsum, hle⟩ := divCore_spec m₁ e₁ m₂ e₂ h₁ h₂
  have hvalue : (m₁ * 2 ^ e₁ / (m₂ * 2 ^ e₂) : ℚ) = ((m₁ * 2 ^ n : Nat) / m₂) * 2 ^ t := by
    have hne : (m₂ : ℚ) ≠ 0 := by exact_mod_cast h₂.ne'
    have hpow : (2 : ℚ) ^ e₁ = 2 ^ t * 2 ^ n * 2 ^ e₂ := by
      rw [← zpow_natCast, ← zpow_add₀ two_ne_zero, ← zpow_add₀ two_ne_zero]
      congr 1
      omega
    rw [hpow]
    push_cast
    field_simp
  rw [hvalue] at hr
  simp only [UnpackedFloat.div, hcore]
  exact roundWithAccuracy_of_rounds (represents_fraction _ h₂) hle hc hr

end

theorem rounds_self {m : Nat} {e : Int} : Rounds m e (m * 2 ^ e) := by
  have hgap := gapBelow_pos m e
  have hpos : (0 : ℚ) < 2 ^ e := by positivity
  exact Or.inl ⟨mul_lt_mul_of_pos_right (by linarith) hpos,
    mul_lt_mul_of_pos_right (by linarith) hpos⟩

/-- The number is the given one, which needs all bits of a mantissa. -/
def Exact (x : Float) (q : ℚ) : Prop :=
  ∃ m e, ∃ hc : Canonical m e, 2 ^ 52 ≤ m ∧ x.toModel.unpack = .finite .positive m e hc.pos ∧
    q = m * 2 ^ e

theorem Exact.mul {x y : Float} {a b : ℚ} (hx : Exact x a) (hy : Exact y b) {m : Nat} {e : Int}
    (hc : Canonical m e) (hr : Rounds m e (a * b)) :
    x * y = .ofModel (.pack (.finite .positive m e hc.pos)) := by
  obtain ⟨m₁, e₁, hc₁, hm₁, hu₁, rfl⟩ := hx
  obtain ⟨m₂, e₂, hc₂, hm₂, hu₂, rfl⟩ := hy
  have hbits : 2 ^ 52 ≤ m₁ * m₂ := hm₁.trans (Nat.le_mul_of_pos_right _ hc₂.pos)
  have hmul := mul_finite hc₁.pos hc₂.pos hbits hc hr
  rw [← hmul, ← hu₁, ← hu₂]
  rfl

theorem Exact.div {x y : Float} {a b : ℚ} (hx : Exact x a) (hy : Exact y b) {m : Nat} {e : Int}
    (hc : Canonical m e) (hr : Rounds m e (a / b)) :
    x / y = .ofModel (.pack (.finite .positive m e hc.pos)) := by
  obtain ⟨m₁, e₁, hc₁, _, hu₁, rfl⟩ := hx
  obtain ⟨m₂, e₂, hc₂, _, hu₂, rfl⟩ := hy
  have hdiv := div_finite hc₁.pos hc₂.pos hc hr
  rw [← hdiv, ← hu₁, ← hu₂]
  rfl

theorem ofNat_eq {n : Nat} (hpos : 0 < n) (hlt : n < 2 ^ 53) :
    ∃ m e, ∃ hc : Canonical m e, 2 ^ 52 ≤ m ∧ e ≤ 0 ∧
      UnpackedFloat.ofNat .binary64 n = .finite .positive m e hc.pos ∧ (n : ℚ) = m * 2 ^ e := by
  have hlog : n.log2 < 53 := (Nat.log2_lt hpos.ne').mpr hlt
  obtain ⟨s, hs⟩ : ∃ s, n.log2 + s = 52 := ⟨52 - n.log2, by omega⟩
  have hlow : 2 ^ 52 ≤ n * 2 ^ s := by
    rw [← hs, pow_add]
    exact Nat.mul_le_mul_right _ (Nat.log2_self_le hpos.ne')
  have hhigh : n * 2 ^ s < 2 ^ 53 := by
    have hsum : 53 = n.log2 + 1 + s := by omega
    rw [hsum, pow_add]
    exact Nat.mul_lt_mul_of_pos_right Nat.lt_log2_self (by positivity)
  have hc : Canonical (n * 2 ^ s) (-s) := ⟨by omega, hhigh, by omega, Or.inl hlow⟩
  refine ⟨n * 2 ^ s, -s, hc, hlow, by omega, ?_, ?_⟩
  · have hlog' : 52 ≤ (n * 2 ^ s).log2 := (Nat.le_log2 hc.pos.ne').mpr hlow
    have hshift : (-Format.binary64.targetExponent (totalExponent n 0)).toNat = s := by
      rw [targetExponent_eq]
      omega
    have hcompare : compare (n : Int) 0 = .gt := by
      rw [Int.compare_eq_gt]
      omega
    have hround : UnpackedFloat.ofNat .binary64 n =
        roundWithAccuracy .binary64 .positive (n * 2 ^ s) (-s) .exact := by
      simp only [UnpackedFloat.ofNat, UnpackedFloat.ofInt, UnpackedFloat.normalize, hcompare,
        UnpackedFloat.round, decreaseExponent, Int.toNat_natCast, zero_sub, hshift,
        Nat.shiftLeft_eq]
    rw [hround]
    exact roundWithAccuracy_of_rounds (represents_exact _) (by omega) hc rounds_self
  · rw [zpow_neg, zpow_natCast]
    push_cast
    field_simp

theorem exact_toFloat {n : Nat} (hpos : 0 < n) (hlt : n < 2 ^ 53) : Exact n.toUInt64.toFloat n := by
  obtain ⟨m, e, hc, hm, he, heq, hvalue⟩ := ofNat_eq hpos hlt
  have hnat : n.toUInt64.toNat = n := Nat.mod_eq_of_lt (by omega)
  refine ⟨m, e, hc, hm, ?_, hvalue⟩
  have hpack : n.toUInt64.toFloat.toModel = .pack (UnpackedFloat.ofNat .binary64 n) := by
    conv_rhs => rw [← hnat]
    rfl
  rw [hpack, heq]
  exact unpack_model_pack hc (by omega)

/-- Whether a number is a given whole number and has all bits of a mantissa. -/
def isExact (n : Nat) : UnpackedFloat → Bool
  | .finite .positive m e _ => decide (2 ^ 52 ≤ m ∧ m < 2 ^ 53 ∧ -1074 ≤ e ∧
      m * 2 ^ e.toNat = n * 2 ^ (-e).toNat)
  | _ => false

theorem zpow_eq_div {b : ℚ} (hb : b ≠ 0) (e : Int) : b ^ e = b ^ e.toNat / b ^ (-e).toNat := by
  rw [← zpow_natCast, ← zpow_natCast, ← zpow_sub₀ hb]
  congr 1
  omega

theorem exact_of_isExact {x : Float} {n : Nat} (h : isExact n x.toModel.unpack = true) :
    Exact x n := by
  unfold isExact at h
  split at h
  · rename_i m e hpos hu
    obtain ⟨hm, hlt, hle, hvalue⟩ := of_decide_eq_true h
    refine ⟨m, e, ⟨hpos, hlt, hle, Or.inl hm⟩, hm, hu, ?_⟩
    have hvalue : (m : ℚ) * 2 ^ e.toNat = n * 2 ^ (-e).toNat := by exact_mod_cast hvalue
    rw [zpow_eq_div two_ne_zero, mul_div_assoc', hvalue]
    field_simp
  · cases h

theorem isExact_powerOfTen : ∀ k : Fin Float.exactlyRepresentablePowersOfTen.size,
    isExact (10 ^ k.val) Float.exactlyRepresentablePowersOfTen[k].toModel.unpack = true := by
  decide +kernel

theorem exact_powerOfTen {k : Nat} (hk : k < Float.exactlyRepresentablePowersOfTen.size) :
    Exact Float.exactlyRepresentablePowersOfTen[k] (10 ^ k) := by
  exact_mod_cast exact_of_isExact (isExact_powerOfTen ⟨k, hk⟩)

section

variable {n m : Nat} {k e : Int}

theorem unpackedOfScientific_eq (hn : 0 < n) (hhigh : k ≤ 2048) (hlow : -(2048 + n.log2) ≤ k)
    (hc : Canonical m e) (hr : Rounds m e (n * 10 ^ k)) :
    UnpackedFloat.ofScientific .binary64 n k = .finite .positive m e hc.pos := by
  have hbits : (2 : Int) ^ Format.binary64.exponentBits = 2048 := rfl
  unfold UnpackedFloat.ofScientific
  rw [dif_neg hn.ne', if_neg (by omega), if_neg (by omega)]
  by_cases hk : 0 ≤ k
  · rw [if_pos hk]
    have hpow : (10 : ℚ) ^ k = 10 ^ k.toNat := by
      rw [← zpow_natCast, Int.toNat_of_nonneg hk]
    have hvalue : ((n <<< Format.binary64.mantissaBits : Nat) : ℚ) *
        2 ^ (-(Format.binary64.mantissaBits : Int)) * ((10 ^ k.toNat : Nat) * 2 ^ (0 : Int)) =
          n * 10 ^ k := by
      rw [hpow, Nat.shiftLeft_eq, zpow_neg, zpow_natCast]
      push_cast
      field_simp
    rw [← hvalue] at hr
    refine mul_finite _ _ ?_ hc hr
    calc 2 ^ 52 ≤ n * 2 ^ 53 := by omega
      _ ≤ n * 2 ^ 53 * 10 ^ k.toNat := Nat.le_mul_of_pos_right _ (by positivity)
      _ = n <<< Format.binary64.mantissaBits * 10 ^ k.toNat := by rw [Nat.shiftLeft_eq]; rfl
  · rw [if_neg hk]
    have hpow : (10 : ℚ) ^ k = (10 ^ (-k).toNat)⁻¹ := by
      rw [← zpow_natCast, ← zpow_neg, Int.toNat_of_nonneg (by omega), neg_neg]
    have hvalue : (n : ℚ) * 2 ^ (0 : Int) / ((10 ^ (-k).toNat : Nat) * 2 ^ (0 : Int)) =
        n * 10 ^ k := by
      rw [hpow]
      push_cast
      field_simp
    rw [← hvalue] at hr
    exact div_finite _ _ hc hr

theorem ofScientific_eq (hn : 0 < n) (hhigh : k ≤ 2048) (hlow : -(2048 + n.log2) ≤ k)
    (hc : Canonical m e) (hr : Rounds m e (n * 10 ^ k)) :
    Float.ofScientific n (decide (k < 0)) k.natAbs =
      .ofModel (.pack (.finite .positive m e hc.pos)) := by
  unfold Float.ofScientific
  split
  · rename_i hfast
    have hsize : k.natAbs < Float.exactlyRepresentablePowersOfTen.size :=
      Nat.lt_succ_of_le hfast.2
    by_cases hk : k < 0
    · have hpow : (10 : ℚ) ^ k = (10 ^ k.natAbs)⁻¹ := by
        rw [← zpow_natCast, ← zpow_neg]
        congr 1
        omega
      rw [hpow, ← div_eq_mul_inv] at hr
      rw [if_pos (decide_eq_true hk)]
      exact (exact_toFloat hn hfast.1).div (exact_powerOfTen hsize) hc hr
    · have hpow : (10 : ℚ) ^ k = 10 ^ k.natAbs := by
        rw [← zpow_natCast]
        congr 1
        omega
      rw [hpow] at hr
      rw [if_neg (by simpa using hk)]
      exact (exact_toFloat hn hfast.1).mul (exact_powerOfTen hsize) hc hr
  · have hexponent : (if decide (k < 0) = true then Int.negOfNat k.natAbs else Int.ofNat k.natAbs) =
        k := by
      by_cases hk : k < 0
      · rw [if_pos (decide_eq_true hk), Int.negOfNat_eq, Int.ofNat_eq_natCast]
        omega
      · rw [if_neg (by simpa using hk), Int.ofNat_eq_natCast]
        omega
    have hunpacked := unpackedOfScientific_eq hn hhigh hlow hc hr
    rw [hexponent, ← hunpacked]
    rfl

end

theorem ten_pow_324 : 2 * 2 ^ 1074 ≤ 10 ^ 324 := by decide +kernel

theorem ten_pow_309 : 2 ^ 53 * 2 ^ 971 < 10 ^ 309 := by decide +kernel

/-- A number in the range of numbers has its leading digit there. -/
theorem Rounds.range {m : Nat} {e : Int} {x : ℚ} (hc : Canonical m e) (htop : e ≤ 971)
    (h : Rounds m e x) : 10 ^ (-324 : Int) ≤ x ∧ x < 10 ^ (309 : Int) := by
  obtain ⟨hlow, hhigh⟩ := h.bounds
  have hgap := gapBelow_le m e
  have hm : (1 : ℚ) ≤ m := by exact_mod_cast hc.pos
  have hm' : (m : ℚ) + 1 ≤ 2 ^ 53 := by exact_mod_cast hc.lt
  have hpos : (0 : ℚ) < 2 ^ e := by positivity
  constructor
  · have hten : (2 * 2 ^ 1074 : ℚ) ≤ 10 ^ 324 := by exact_mod_cast ten_pow_324
    calc (10 : ℚ) ^ (-324 : Int) = 1 / 10 ^ 324 := by rw [zpow_neg, one_div]; rfl
      _ ≤ 1 / (2 * 2 ^ 1074) := one_div_le_one_div_of_le (by positivity) hten
      _ = 1 / 2 * 2 ^ (-1074 : Int) := by rw [zpow_neg, one_div, mul_inv, one_div]; rfl
      _ ≤ (m - gapBelow m e) * 2 ^ e := by
        refine mul_le_mul (by linarith) (zpow_le_zpow_right₀ one_le_two hc.le) (by positivity) ?_
        linarith
      _ ≤ x := hlow
  · calc x ≤ (m + 1 / 2) * 2 ^ e := hhigh
      _ ≤ 2 ^ 53 * 2 ^ (971 : Int) := by
        refine mul_le_mul (by linarith) (zpow_le_zpow_right₀ one_le_two htop) (by positivity) ?_
        positivity
      _ < 10 ^ (309 : Int) := by exact_mod_cast ten_pow_309

end Binary64

namespace Numeral

theorem lt_pow_length_toDigits (n : Nat) : n < 10 ^ (Nat.toDigits 10 n).length :=
  (Nat.length_toDigits_le_iff (by omega) Nat.length_toDigits_pos).mp le_rfl

theorem pow_length_toDigits_le {n : Nat} (hn : 0 < n) :
    10 ^ ((Nat.toDigits 10 n).length - 1) ≤ n := by
  have hpos : 0 < (Nat.toDigits 10 n).length := Nat.length_toDigits_pos
  by_cases hone : (Nat.toDigits 10 n).length = 1
  · rw [hone]
    exact hn
  · by_contra hlt
    have := (Nat.length_toDigits_le_iff (b := 10) (by omega) (by omega)).mpr (not_le.mp hlt)
    omega

theorem length_toDigits_le_log2 {n : Nat} (hn : 0 < n) :
    (Nat.toDigits 10 n).length ≤ n.log2 + 1 := by
  have hle : 2 ^ ((Nat.toDigits 10 n).length - 1) ≤ n :=
    (Nat.pow_le_pow_left (by omega) _).trans (pow_length_toDigits_le hn)
  have := (Nat.le_log2 hn.ne').mpr hle
  omega

open Binary64 in
theorem nearest_eq {n m : Nat} {k e : Int} (hc : Canonical m e) (htop : e ≤ 971)
    (hr : Rounds m e (n * 10 ^ k)) :
    nearest n k = .ofModel (.pack (.finite .positive m e hc.pos)) := by
  obtain ⟨hlow, hhigh⟩ := hr.range hc htop
  have hn : 0 < n := by
    rw [Nat.pos_iff_ne_zero]
    rintro rfl
    rw [Nat.cast_zero, zero_mul] at hlow
    exact absurd hlow (not_le.mpr (by positivity))
  have hfirst := pow_length_toDigits_le hn
  have hlast := lt_pow_length_toDigits n
  have hlog := length_toDigits_le_log2 hn
  generalize hd : (Nat.toDigits 10 n).length = d at *
  have hpos : (0 : ℚ) < 10 ^ k := by positivity
  have habove : -324 < d + k := by
    refine (zpow_lt_zpow_iff_right₀ (a := (10 : ℚ)) (by norm_num)).mp (hlow.trans_lt ?_)
    rw [zpow_add₀ (by norm_num), zpow_natCast]
    exact mul_lt_mul_of_pos_right (by exact_mod_cast hlast) hpos
  have hbelow : (d - 1 : Nat) + k < 309 := by
    refine (zpow_lt_zpow_iff_right₀ (a := (10 : ℚ)) (by norm_num)).mp (lt_of_le_of_lt ?_ hhigh)
    rw [zpow_add₀ (by norm_num), zpow_natCast]
    exact mul_le_mul_of_nonneg_right (by exact_mod_cast hfirst) hpos.le
  unfold nearest
  simp only [hd]
  rw [if_neg hn.ne', if_neg (by omega), if_neg (by omega)]
  exact ofScientific_eq hn (by omega) (by omega) hc hr

end Numeral

end RigidSketch
