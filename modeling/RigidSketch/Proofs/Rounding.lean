import Mathlib.Algebra.Order.Field.Power
import Mathlib.Data.Rat.Cast.Order
import Mathlib.Tactic.FieldSimp
import Mathlib.Tactic.Linarith
import Mathlib.Tactic.NormNum
import Mathlib.Tactic.Positivity
import Mathlib.Tactic.Ring
import RigidSketch.Binary64.Magnitude

/-! Rounding to the nearest number, ties to even. All reals of an interval around a number are
rounded to it. -/

namespace RigidSketch.Binary64

open Float.Model Float.Model.UnpackedFloat

/-- A mantissa and an exponent as they are stored, those of small numbers included. -/
structure Canonical (m : Nat) (e : Int) : Prop where
  pos : 0 < m
  lt : m < 2 ^ 53
  le : -1074 ≤ e
  normal : 2 ^ 52 ≤ m ∨ e = -1074

/-- How far down the rationals reach that are rounded to `m · 2^e`, in units of `2^e`. The gap
below a power of two is half the gap above. -/
def gapBelow (m : Nat) (e : Int) : ℚ := if m = 2 ^ 52 ∧ -1074 < e then 1 / 4 else 1 / 2

/-- The rationals that are rounded to `m · 2^e`. -/
def Rounds (m : Nat) (e : Int) (x : ℚ) : Prop :=
  (m - gapBelow m e) * 2 ^ e < x ∧ x < (m + 1 / 2) * 2 ^ e ∨
    m % 2 = 0 ∧ (m - gapBelow m e) * 2 ^ e ≤ x ∧ x ≤ (m + 1 / 2) * 2 ^ e

/-- The mantissa and the bit after it, as a number of halves. -/
def halves (em : ExtendedMantissa) : Nat := 2 * em.mantissa + em.roundBit.toNat

/-- The rational lies on its halves, or between them and the next, as the last bit tells. -/
def Represents (em : ExtendedMantissa) (x : ℚ) : Prop :=
  if em.stickyBit then halves em < 2 * x ∧ 2 * x < halves em + 1 else 2 * x = halves em

theorem represents_exactly_iff {k : Nat} (round : Bool) {x : ℚ} :
    Represents ⟨k, round, false⟩ x ↔ 2 * x = 2 * k + round.toNat := by
  simp [Represents, halves]

theorem represents_between_iff {k : Nat} (round : Bool) {x : ℚ} :
    Represents ⟨k, round, true⟩ x ↔
      2 * k + round.toNat < 2 * x ∧ 2 * x < 2 * k + round.toNat + 1 := by
  simp [Represents, halves]

theorem halves_shiftRightOne (em : ExtendedMantissa) : halves em.shiftRightOne = em.mantissa := by
  unfold halves ExtendedMantissa.shiftRightOne
  rcases Nat.mod_two_eq_zero_or_one em.mantissa with h | h <;> simp [h] <;> omega

theorem Represents.bounds {em : ExtendedMantissa} {x : ℚ} (h : Represents em x) :
    em.mantissa ≤ x ∧ x < em.mantissa + 1 := by
  obtain ⟨k, round, sticky⟩ := em
  have hnonneg : (0 : ℚ) ≤ round.toNat := Nat.cast_nonneg _
  have hle : (round.toNat : ℚ) ≤ 1 := by exact_mod_cast round.toNat_le
  cases sticky with
  | false =>
    rw [represents_exactly_iff] at h
    exact ⟨by linarith, by linarith⟩
  | true =>
    rw [represents_between_iff] at h
    exact ⟨by linarith, by linarith⟩

theorem Represents.shiftRightOne {em : ExtendedMantissa} {x : ℚ} (h : Represents em x) :
    Represents em.shiftRightOne (x / 2) := by
  have hdouble : 2 * (x / 2) = x := by ring
  unfold Represents
  rw [halves_shiftRightOne, hdouble]
  obtain ⟨k, round, sticky⟩ := em
  have hsticky : (ExtendedMantissa.shiftRightOne ⟨k, round, sticky⟩).stickyBit =
      (round || sticky) := rfl
  rw [hsticky]
  cases sticky with
  | false =>
    rw [represents_exactly_iff] at h
    cases round with
    | false =>
      have hexact : x = k := by simpa using h
      simpa using hexact
    | true =>
      rw [Bool.toNat_true, Nat.cast_one] at h
      exact ⟨by linarith, by linarith⟩
  | true =>
    have hnonneg : (0 : ℚ) ≤ round.toNat := Nat.cast_nonneg _
    have hle : (round.toNat : ℚ) ≤ 1 := by exact_mod_cast round.toNat_le
    rw [represents_between_iff] at h
    rw [Bool.or_true]
    exact ⟨by linarith, by linarith⟩

theorem Represents.shiftRight {em : ExtendedMantissa} {x : ℚ} (h : Represents em x) (n : Nat) :
    Represents (em >>> n) (x / 2 ^ n) := by
  change Represents (n.repeat ExtendedMantissa.shiftRightOne em) _
  induction n with
  | zero => simpa [Nat.repeat] using h
  | succ n ih =>
    rw [Nat.repeat, pow_succ, div_mul_eq_div_div]
    exact ih.shiftRightOne

/-- The whole number is nearest, and even if another one is as near. -/
def Nearest (x : ℚ) (r : Nat) : Prop :=
  r - 1 / 2 < x ∧ x < r + 1 / 2 ∨ r % 2 = 0 ∧ r - 1 / 2 ≤ x ∧ x ≤ r + 1 / 2

theorem Nearest.weak {x : ℚ} {r : Nat} (h : Nearest x r) : r - 1 / 2 ≤ x ∧ x ≤ r + 1 / 2 := by
  rcases h with h | h
  · exact ⟨h.1.le, h.2.le⟩
  · exact h.2

theorem eq_of_lt_add_one {k r : Nat} (h : (k : ℚ) < r + 1) (h' : (r : ℚ) < k + 1) : k = r := by
  norm_cast at h h'
  omega

theorem Represents.roundedMantissa {em : ExtendedMantissa} {x : ℚ} (h : Represents em x) {r : Nat}
    (hr : Nearest x r) : em.roundedMantissa = r := by
  obtain ⟨k, round, sticky⟩ := em
  obtain ⟨hlow, hhigh⟩ := hr.weak
  cases round with
  | false =>
    -- The rational is nearer to the mantissa than to the next one.
    have hround : k = r := by
      have hbounds : (k : ℚ) ≤ x ∧ 2 * x < 2 * k + 1 := by
        cases sticky with
        | false =>
          rw [represents_exactly_iff, Bool.toNat_false, Nat.cast_zero] at h
          exact ⟨by linarith, by linarith⟩
        | true =>
          rw [represents_between_iff, Bool.toNat_false, Nat.cast_zero] at h
          exact ⟨by linarith, by linarith⟩
      exact eq_of_lt_add_one (by linarith) (by linarith)
    cases sticky <;> exact hround
  | true =>
    cases sticky with
    | false =>
      -- The rational is half way, so that only the even neighbour can be meant.
      rw [represents_exactly_iff, Bool.toNat_true, Nat.cast_one] at h
      have hle : (k : ℚ) ≤ r := by linarith
      have hge : (r : ℚ) ≤ k + 1 := by linarith
      norm_cast at hle hge
      have heven : r % 2 = 0 := by
        rcases hr with ⟨hlow, hhigh⟩ | ⟨heven, _⟩
        · have hlt : (k : ℚ) < r := by linarith
          have hgt : (r : ℚ) < k + 1 := by linarith
          norm_cast at hlt hgt
          omega
        · exact heven
      have hround : k + k % 2 = r := by omega
      exact hround
    | true =>
      rw [represents_between_iff, Bool.toNat_true, Nat.cast_one] at h
      have hround : k + 1 = r :=
        eq_of_lt_add_one (by push_cast; linarith) (by push_cast; linarith)
      exact hround

@[simp] theorem mantissa_ofMantissaAndAccuracy (k : Nat) (accuracy : Accuracy) :
    (ExtendedMantissa.ofMantissaAndAccuracy k accuracy).mantissa = k := by
  rcases accuracy with _ | _ | _ | _ <;> rfl

theorem represents_exact (k : Nat) :
    Represents (ExtendedMantissa.ofMantissaAndAccuracy k .exact) k := by
  have hexact : Represents ⟨k, false, false⟩ k := by simp [represents_exactly_iff]
  exact hexact

theorem represents_fraction (num : Nat) {den : Nat} (hden : 0 < den) :
    Represents (ExtendedMantissa.ofMantissaAndAccuracy (num / den)
      (accuracyOfFraction (num % den) den)) (num / den : ℚ) := by
  have hpos : (0 : ℚ) < den := by exact_mod_cast hden
  have hsplit : (num : ℚ) = den * (num / den : Nat) + (num % den : Nat) := by
    exact_mod_cast (Nat.div_add_mod num den).symm
  have hvalue : (num / den : ℚ) = (num / den : Nat) + (num % den : Nat) / den := by
    rw [hsplit]
    field_simp
  have hlt : ((num % den : Nat) : ℚ) / den < 1 := by
    rw [div_lt_one hpos]
    exact_mod_cast Nat.mod_lt num hden
  rw [hvalue]
  generalize num / den = q
  generalize num % den = r at hlt
  unfold accuracyOfFraction
  by_cases hr : r = 0
  · rw [if_pos hr, hr, Nat.cast_zero, zero_div, add_zero]
    exact represents_exact q
  · have hfraction : (0 : ℚ) < r / den := by
      have : (0 : ℚ) < r := by exact_mod_cast Nat.pos_of_ne_zero hr
      positivity
    rw [if_neg hr]
    cases hcompare : compare (2 * r) den with
    | lt =>
      have hhalf : (r : ℚ) / den < 1 / 2 := by
        rw [div_lt_div_iff₀ hpos two_pos]
        exact_mod_cast (by have := Nat.compare_eq_lt.mp hcompare; omega : r * 2 < 1 * den)
      refine (represents_between_iff false).mpr ?_
      rw [Bool.toNat_false, Nat.cast_zero]
      exact ⟨by linarith, by linarith⟩
    | eq =>
      have hhalf : (r : ℚ) / den = 1 / 2 := by
        rw [div_eq_div_iff hpos.ne' two_ne_zero]
        exact_mod_cast (by have := Nat.compare_eq_eq.mp hcompare; omega : r * 2 = 1 * den)
      refine (represents_exactly_iff true).mpr ?_
      rw [Bool.toNat_true, Nat.cast_one, hhalf]
      ring
    | gt =>
      have hhalf : 1 / 2 < (r : ℚ) / den := by
        rw [div_lt_div_iff₀ two_pos hpos]
        exact_mod_cast (by have := Nat.compare_eq_gt.mp hcompare; omega : 1 * den < r * 2)
      refine (represents_between_iff true).mpr ?_
      rw [Bool.toNat_true, Nat.cast_one]
      exact ⟨by linarith, by linarith⟩

theorem targetExponent_eq (k : Nat) (e : Int) :
    Format.binary64.targetExponent (totalExponent k e) = max (k.log2 + e - 52) (-1074) := by
  have hbits : (Format.binary64.mantissaBits : Int) = 53 := rfl
  have hmin : Format.binary64.minExponent = -1074 := rfl
  unfold Format.targetExponent totalExponent
  rw [hbits, hmin]
  omega

/-- The bounds of the numbers that are rounded to multiples of `2^t`. -/
structure Bracketed (x : ℚ) (t : Int) : Prop where
  le : -1074 ≤ t
  upper : x < 2 ^ (t + 53)
  lower : -1074 < t → 2 ^ (t + 52) ≤ x

theorem bracketed_of_bounds {k : Nat} {x : ℚ} {e t : Int} (hx : k ≤ x ∧ x < k + 1)
    (ht : t = max (k.log2 + e - 52) (-1074)) (he : e ≤ t) : Bracketed (x * 2 ^ e) t := by
  have hpos : (0 : ℚ) < 2 ^ e := by positivity
  refine ⟨by omega, ?_, fun hlow => ?_⟩
  · have hk : (k : ℚ) + 1 ≤ 2 ^ (k.log2 + 1) := by exact_mod_cast Nat.lt_log2_self
    calc x * 2 ^ e < 2 ^ (k.log2 + 1) * 2 ^ e := by
          exact mul_lt_mul_of_pos_right (hx.2.trans_le hk) hpos
      _ = 2 ^ (k.log2 + 1 + e : Int) := by
          rw [zpow_add₀ two_ne_zero]
          norm_cast
      _ ≤ 2 ^ (t + 53) := zpow_le_zpow_right₀ one_le_two (by omega)
  · have hne : k ≠ 0 := by
      rintro rfl
      simp at ht
      omega
    have hk : (2 : ℚ) ^ k.log2 ≤ k := by exact_mod_cast Nat.log2_self_le hne
    calc (2 : ℚ) ^ (t + 52) = 2 ^ (k.log2 + e : Int) := by
          congr 1
          omega
      _ = 2 ^ k.log2 * 2 ^ e := by
          rw [zpow_add₀ two_ne_zero]
          norm_cast
      _ ≤ x * 2 ^ e := mul_le_mul_of_nonneg_right (hk.trans hx.1) hpos.le

theorem shiftToExponent_eq (k : Nat) (accuracy : Accuracy) {e t : Int} {n : Nat}
    (hn : t = e + n) : shiftToExponent k e accuracy t =
      (ExtendedMantissa.ofMantissaAndAccuracy k accuracy >>> n, t) := by
  have hshift : (t - e).toNat = n := by omega
  unfold shiftToExponent
  rw [hshift, hn]

theorem shiftToTargetExponent_eq (k : Nat) (e : Int) (accuracy : Accuracy) :
    shiftToTargetExponent .binary64 k e accuracy =
      shiftToExponent k e accuracy (max (k.log2 + e - 52) (-1074)) := by
  rw [shiftToTargetExponent, targetExponent_eq]

/-- A mantissa that fits is left as it is. -/
theorem shiftToTargetExponent_of_lt {r : Nat} {t : Int} (hr : r < 2 ^ 53) (ht : -1074 ≤ t) :
    shiftToTargetExponent .binary64 r t .exact = (⟨r, false, false⟩, t) := by
  have hlog : r.log2 ≤ 52 := by
    by_cases hzero : r = 0
    · simp [hzero]
    · exact Nat.lt_succ_iff.mp ((Nat.log2_lt hzero).mpr hr)
  have hshift : (max (r.log2 + t - 52) (-1074) - t).toNat = 0 := by omega
  rw [shiftToTargetExponent_eq, shiftToExponent, hshift]
  exact congrArg _ (Int.add_zero t)

/-- A mantissa that was rounded up to a power of two is halved. -/
theorem shiftToTargetExponent_carry {t : Int} (ht : -1074 ≤ t) :
    shiftToTargetExponent .binary64 (2 ^ 53) t .exact = (⟨2 ^ 52, false, false⟩, t + 1) := by
  have hlog : (2 ^ 53).log2 = 53 := Nat.log2_two_pow
  have hmax : max (((53 : Nat) : Int) + t - 52) (-1074) = t + 1 := by omega
  rw [shiftToTargetExponent_eq, hlog, hmax]
  exact shiftToExponent_eq (n := 1) _ _ rfl

/-- The rounded mantissa, where all of the exponent's bits are dropped that do not fit. -/
theorem roundWithAccuracy_eq {sign : Sign} {k r m : Nat} {accuracy : Accuracy} {x : ℚ}
    {e t e' : Int} (hx : Represents (ExtendedMantissa.ofMantissaAndAccuracy k accuracy) x)
    (ht : t = max (k.log2 + e - 52) (-1074)) (he : e ≤ t) (hr : Nearest (x * 2 ^ e / 2 ^ t) r)
    (hshift : shiftToTargetExponent .binary64 r t .exact = (⟨m, false, false⟩, e')) (hm : 0 < m) :
    roundWithAccuracy .binary64 sign k e accuracy = .finite sign m e' hm := by
  obtain ⟨n, hn⟩ : ∃ n : Nat, t = e + n := ⟨(t - e).toNat, by omega⟩
  have hscale : x * 2 ^ e / 2 ^ t = x / 2 ^ n := by
    rw [hn, zpow_add₀ two_ne_zero, zpow_natCast]
    field_simp
  have hround := (hx.shiftRight n).roundedMantissa (hscale ▸ hr)
  unfold roundWithAccuracy
  rw [shiftToTargetExponent_eq, ← ht, shiftToExponent_eq k accuracy hn]
  dsimp only
  rw [hround, hshift]
  exact dif_neg hm.ne'

theorem gapBelow_le (m : Nat) (e : Int) : gapBelow m e ≤ 1 / 2 := by
  unfold gapBelow
  split <;> norm_num

theorem gapBelow_pos (m : Nat) (e : Int) : 0 < gapBelow m e := by
  unfold gapBelow
  split <;> norm_num

theorem Rounds.bounds {m : Nat} {e : Int} {x : ℚ} (h : Rounds m e x) :
    (m - gapBelow m e) * 2 ^ e ≤ x ∧ x ≤ (m + 1 / 2) * 2 ^ e := by
  rcases h with h | h
  · exact ⟨h.1.le, h.2.le⟩
  · exact h.2

theorem Rounds.nearest {m : Nat} {e : Int} {x : ℚ} (h : Rounds m e x) :
    Nearest (x / 2 ^ e) m := by
  have hpos : (0 : ℚ) < 2 ^ e := by positivity
  have hgap := gapBelow_le m e
  rcases h with ⟨hlow, hhigh⟩ | ⟨heven, hlow, hhigh⟩
  · rw [← lt_div_iff₀ hpos] at hlow
    rw [← div_lt_iff₀ hpos] at hhigh
    exact Or.inl ⟨by linarith, hhigh⟩
  · rw [← le_div_iff₀ hpos] at hlow
    rw [← div_le_iff₀ hpos] at hhigh
    exact Or.inr ⟨heven, by linarith, hhigh⟩

theorem lt_of_mul_zpow_lt {a b : ℚ} {e : Int} (h : a * 2 ^ e < b * 2 ^ e) : a < b :=
  lt_of_mul_lt_mul_right h (by positivity)

/-- The exponent is that of the number, unless rounding leads up to the next power of two. -/
theorem Bracketed.eq_or_carry {x : ℚ} {t e : Int} {m : Nat} (hx : Bracketed x t)
    (hc : Canonical m e) (hr : Rounds m e x) : t = e ∨ t + 1 = e ∧ m = 2 ^ 52 := by
  obtain ⟨hlow, hhigh⟩ := hr.bounds
  have hgap := gapBelow_le m e
  rcases lt_trichotomy t e with hlt | heq | hgt
  · have hnormal : (2 ^ 52 : ℚ) ≤ m := by
      exact_mod_cast hc.normal.resolve_right (by have := hx.le; omega)
    have hupper : ∀ n : Nat, t + 53 ≤ e + n → (m : ℚ) - gapBelow m e < 2 ^ n := by
      intro n hn
      refine lt_of_mul_zpow_lt (e := e) ?_
      calc ((m : ℚ) - gapBelow m e) * 2 ^ e ≤ x := hlow
        _ < 2 ^ (t + 53) := hx.upper
        _ ≤ 2 ^ (e + n) := zpow_le_zpow_right₀ one_le_two hn
        _ = 2 ^ n * 2 ^ e := by rw [zpow_add₀ two_ne_zero, zpow_natCast, mul_comm]
    have hnext : e ≤ t + 1 := by
      by_contra hfar
      have := hupper 51 (by omega)
      linarith
    have hm : (m : ℚ) < 2 ^ 52 + 1 := by
      have := hupper 52 (by omega)
      linarith
    norm_cast at hm hnormal
    exact Or.inr ⟨by omega, by omega⟩
  · exact Or.inl heq
  · exfalso
    have hm : (m : ℚ) + 1 ≤ 2 ^ 53 := by exact_mod_cast hc.lt
    have hlt : x < x := by
      calc x ≤ (m + 1 / 2) * 2 ^ e := hhigh
        _ < 2 ^ 53 * 2 ^ e := mul_lt_mul_of_pos_right (by linarith) (by positivity)
        _ = 2 ^ (e + 53) := by rw [zpow_add₀ two_ne_zero, mul_comm]; norm_cast
        _ ≤ 2 ^ (t + 52) := zpow_le_zpow_right₀ one_le_two (by omega)
        _ ≤ x := hx.lower (by have := hc.le; omega)
    exact lt_irrefl x hlt

theorem Rounds.nearest_carry {x : ℚ} {t : Int} (hr : Rounds (2 ^ 52) (t + 1) x)
    (hx : Bracketed x t) : Nearest (x / 2 ^ t) (2 ^ 53) := by
  have hpos : (0 : ℚ) < 2 ^ t := by positivity
  have hgap : gapBelow (2 ^ 52) (t + 1) = 1 / 4 := if_pos ⟨rfl, by have := hx.le; omega⟩
  have hlow := hr.bounds.1
  have hupper := hx.upper
  rw [hgap, zpow_add₀ two_ne_zero, zpow_one, ← mul_assoc, mul_right_comm,
    ← le_div_iff₀ hpos] at hlow
  rw [zpow_add₀ two_ne_zero, mul_comm, ← div_lt_iff₀ hpos] at hupper
  refine Or.inr ⟨rfl, ?_, ?_⟩
  · push_cast at hlow ⊢
    linarith
  · push_cast
    norm_num at hupper ⊢
    linarith

theorem roundWithAccuracy_of_rounds {sign : Sign} {k m : Nat} {accuracy : Accuracy} {x : ℚ}
    {e e' : Int} (hx : Represents (ExtendedMantissa.ofMantissaAndAccuracy k accuracy) x)
    (he : e ≤ max (k.log2 + e - 52) (-1074)) (hc : Canonical m e')
    (hr : Rounds m e' (x * 2 ^ e)) :
    roundWithAccuracy .binary64 sign k e accuracy = .finite sign m e' hc.pos := by
  have hbounds := hx.bounds
  rw [mantissa_ofMantissaAndAccuracy] at hbounds
  have hbracket := bracketed_of_bounds (e := e) hbounds rfl he
  rcases hbracket.eq_or_carry hc hr with heq | ⟨heq, rfl⟩
  · subst heq
    exact roundWithAccuracy_eq hx rfl he hr.nearest
      (shiftToTargetExponent_of_lt hc.lt hbracket.le) hc.pos
  · subst heq
    exact roundWithAccuracy_eq hx rfl he (hr.nearest_carry hbracket)
      (shiftToTargetExponent_carry hbracket.le) hc.pos

end RigidSketch.Binary64
