import Mathlib.Data.Nat.Cast.Order.Field
import Mathlib.Tactic.NormNum.Pow
import RigidSketch.Decimal.Positional
import RigidSketch.Proofs.Nearest

/-! The shortest decimal of a number is rounded to the number. On a grid with seventeen digits one
of its two neighbours always is. -/

namespace RigidSketch.Decimal

open Binary64

namespace Rounding

section

variable {m : Nat} {e : Int}

theorem den_pos : (0 : ℚ) < (ofMagnitude m e).den := by
  simp only [ofMagnitude, Nat.shiftLeft_eq]
  positivity

theorem num_eq : ((ofMagnitude m e).num : ℚ) = m * 2 ^ e * (ofMagnitude m e).den := by
  simp only [ofMagnitude, Nat.shiftLeft_eq]
  push_cast
  rw [zpow_eq_div two_ne_zero]
  field_simp

theorem low_eq (hm : 0 < m) : ((ofMagnitude m e).low : ℚ) =
    (m - gapBelow m e) * 2 ^ e * (ofMagnitude m e).den := by
  have hbelow : ((4 * m - if m = 0x10000000000000 ∧ -1074 < e then 1 else 2 : Nat) : ℚ) =
      4 * (m - gapBelow m e) := by
    by_cases h : m = 2 ^ 52 ∧ -1074 < e
    · have h' : m = 0x10000000000000 ∧ -1074 < e := h
      rw [gapBelow, if_pos h, if_pos h', Nat.cast_sub (by omega)]
      push_cast
      ring
    · have h' : ¬ (m = 0x10000000000000 ∧ -1074 < e) := h
      rw [gapBelow, if_neg h, if_neg h', Nat.cast_sub (by omega)]
      push_cast
      ring
  simp only [ofMagnitude, Nat.shiftLeft_eq]
  rw [Nat.cast_mul, hbelow, zpow_eq_div two_ne_zero]
  push_cast
  field_simp

theorem high_eq : ((ofMagnitude m e).high : ℚ) =
    (m + 1 / 2) * 2 ^ e * (ofMagnitude m e).den := by
  simp only [ofMagnitude, Nat.shiftLeft_eq]
  push_cast
  rw [zpow_eq_div two_ne_zero]
  field_simp
  ring

/-- Decimals are admitted if they are rounded to the number. -/
theorem admits_iff (hm : 0 < m) (d : Nat) (k : Int) :
    (ofMagnitude m e).admits d k = true ↔ Rounds m e (d * 10 ^ k) := by
  have hscale : (0 : ℚ) < (ofMagnitude m e).den * 10 ^ (-k).toNat :=
    mul_pos den_pos (by positivity)
  have hvalue : ((d * 10 ^ k.toNat * (ofMagnitude m e).den : Nat) : ℚ) =
      d * 10 ^ k * ((ofMagnitude m e).den * 10 ^ (-k).toNat) := by
    rw [zpow_eq_div (by norm_num)]
    push_cast
    field_simp
  have hlow : (((ofMagnitude m e).low * 10 ^ (-k).toNat : Nat) : ℚ) =
      (m - gapBelow m e) * 2 ^ e * ((ofMagnitude m e).den * 10 ^ (-k).toNat) := by
    rw [Nat.cast_mul, low_eq hm]
    push_cast
    ring
  have hhigh : (((ofMagnitude m e).high * 10 ^ (-k).toNat : Nat) : ℚ) =
      (m + 1 / 2) * 2 ^ e * ((ofMagnitude m e).den * 10 ^ (-k).toNat) := by
    rw [Nat.cast_mul, high_eq]
    push_cast
    ring
  have hclosed : (ofMagnitude m e).closed = decide (m % 2 = 0) := rfl
  unfold admits
  simp only [hclosed, Nat.pow_eq, decide_eq_true_eq]
  by_cases heven : m % 2 = 0
  · rw [if_pos heven, decide_eq_true_eq, ← Nat.cast_le (α := ℚ), ← Nat.cast_le (α := ℚ), hvalue,
      hlow, hhigh, mul_le_mul_iff_left₀ hscale, mul_le_mul_iff_left₀ hscale]
    exact ⟨fun h => Or.inr ⟨heven, h⟩, Rounds.bounds⟩
  · rw [if_neg heven, decide_eq_true_eq, ← Nat.cast_lt (α := ℚ), ← Nat.cast_lt (α := ℚ), hvalue,
      hlow, hhigh, mul_lt_mul_iff_left₀ hscale, mul_lt_mul_iff_left₀ hscale]
    exact ⟨Or.inl, fun h => h.resolve_right fun h => heven h.1⟩

theorem admits_of_onGrid {r : Rounding} {k : Int} {d : Nat} (h : r.onGrid k = some d) :
    r.admits d k = true := by
  unfold onGrid at h
  dsimp only at h
  split at h
  · rename_i hfirst hsecond
    split at h <;> cases h
    · exact hfirst
    · exact hsecond
  · rename_i hfirst _
    cases h
    exact hfirst
  · rename_i _ hsecond
    cases h
    exact hsecond
  · cases h

theorem onGrid_ne_none {r : Rounding} {k : Int} {d : Nat}
    (hd : d = r.num * 10 ^ (-k).toNat / (r.den * 10 ^ k.toNat))
    (h : r.admits d k = true ∨ r.admits (d + 1) k = true) : r.onGrid k ≠ none := by
  unfold onGrid
  simp only [Nat.pow_eq, ← hd]
  split
  · split <;> simp
  · simp
  · simp
  · simp_all

/-- The multiples of a power of ten around a number. -/
theorem floor_bounds {d : Nat} {k : Int}
    (hd : d = (ofMagnitude m e).num * 10 ^ (-k).toNat / ((ofMagnitude m e).den * 10 ^ k.toNat)) :
    d * 10 ^ k ≤ (m * 2 ^ e : ℚ) ∧ (m * 2 ^ e : ℚ) < (d + 1 : Nat) * 10 ^ k := by
  have hscale : (0 : ℚ) < (ofMagnitude m e).den * 10 ^ (-k).toNat :=
    mul_pos den_pos (by positivity)
  have hnum : (((ofMagnitude m e).num * 10 ^ (-k).toNat : Nat) : ℚ) =
      m * 2 ^ e * ((ofMagnitude m e).den * 10 ^ (-k).toNat) := by
    rw [Nat.cast_mul, num_eq]
    push_cast
    ring
  have hden : (((ofMagnitude m e).den * 10 ^ k.toNat : Nat) : ℚ) =
      10 ^ k * ((ofMagnitude m e).den * 10 ^ (-k).toNat) := by
    rw [zpow_eq_div (by norm_num)]
    push_cast
    field_simp
  have hpos : 0 < (ofMagnitude m e).den * 10 ^ k.toNat := by
    have : 0 < (ofMagnitude m e).den := by exact_mod_cast den_pos (m := m) (e := e)
    positivity
  constructor
  · have hle := Nat.div_mul_le_self ((ofMagnitude m e).num * 10 ^ (-k).toNat)
      ((ofMagnitude m e).den * 10 ^ k.toNat)
    rw [← hd, ← Nat.cast_le (α := ℚ), hnum, Nat.cast_mul, hden, ← mul_assoc] at hle
    exact le_of_mul_le_mul_right hle hscale
  · have hlt := Nat.lt_mul_div_succ ((ofMagnitude m e).num * 10 ^ (-k).toNat) hpos
    rw [← hd, ← Nat.cast_lt (α := ℚ), hnum, mul_comm _ (d + 1), Nat.cast_mul, hden,
      ← mul_assoc ((d + 1 : Nat) : ℚ)] at hlt
    exact lt_of_mul_lt_mul_right hlt hscale.le

/-- If the grid is fine enough, one of the two neighbours is rounded to the number. -/
theorem exists_onGrid (hm : 0 < m) {k : Int}
    (hk : (10 : ℚ) ^ k < (gapBelow m e + 1 / 2) * 2 ^ e) :
    ∃ d, (ofMagnitude m e).onGrid k = some d := by
  obtain ⟨d, hd⟩ : ∃ d, d = (ofMagnitude m e).num * 10 ^ (-k).toNat /
      ((ofMagnitude m e).den * 10 ^ k.toNat) := ⟨_, rfl⟩
  obtain ⟨hle, hlt⟩ := floor_bounds hd
  have hpos : (0 : ℚ) < 2 ^ e := by positivity
  refine Option.ne_none_iff_exists'.mp (onGrid_ne_none hd ?_)
  rw [admits_iff hm, admits_iff hm]
  by_cases hlow : (m - gapBelow m e) * 2 ^ e < d * (10 : ℚ) ^ k
  · exact Or.inl (Or.inl ⟨hlow, by linarith⟩)
  · refine Or.inr (Or.inl ⟨?_, ?_⟩)
    · have hgap := mul_pos (gapBelow_pos m e) hpos
      linarith
    · push_cast at hlt ⊢
      linarith

/-- The leading digit stands at this place or before it. -/
theorem pow_leadingExponent_le {r : Rounding} (hnum : 0 < r.num) (hden : 0 < r.den) :
    (10 : ℚ) ^ r.leadingExponent ≤ r.num / r.den := by
  have hnum' : (0 : ℚ) < r.num := by exact_mod_cast hnum
  have hden' : (0 : ℚ) < r.den := by exact_mod_cast hden
  unfold leadingExponent digitCount
  split
  · rename_i hle
    have hexponent : ((Nat.toDigits 10 (r.num / r.den)).length : Int) - 1 =
        ((Nat.toDigits 10 (r.num / r.den)).length - 1 : Nat) := by
      have : 0 < (Nat.toDigits 10 (r.num / r.den)).length := Nat.length_toDigits_pos
      omega
    have hpow := Numeral.pow_length_toDigits_le (Nat.div_pos hle hden)
    rw [hexponent, zpow_natCast]
    calc (10 : ℚ) ^ ((Nat.toDigits 10 (r.num / r.den)).length - 1) ≤ (r.num / r.den : Nat) := by
          exact_mod_cast hpow
      _ ≤ r.num / r.den := Nat.cast_div_le
  · have hlt := Numeral.lt_pow_length_toDigits ((r.den + r.num - 1) / r.num - 1)
    generalize (Nat.toDigits 10 ((r.den + r.num - 1) / r.num - 1)).length = c at *
    have hceil : r.den ≤ r.num * ((r.den + r.num - 1) / r.num) := by
      have := Nat.lt_mul_div_succ (r.den + r.num - 1) hnum
      rw [Nat.mul_add] at this
      omega
    have hbound : r.den ≤ r.num * 10 ^ c :=
      hceil.trans (Nat.mul_le_mul_left _ (by omega))
    rw [zpow_neg, zpow_natCast, inv_eq_one_div, div_le_div_iff₀ (by positivity) hden', one_mul]
    exact_mod_cast hbound

theorem pow_leadingExponent_le_value (hm : 0 < m) :
    (10 : ℚ) ^ (ofMagnitude m e).leadingExponent ≤ m * 2 ^ e := by
  have hden := den_pos (m := m) (e := e)
  have hvalue : ((ofMagnitude m e).num / (ofMagnitude m e).den : ℚ) = m * 2 ^ e := by
    rw [num_eq]
    field_simp
  have hnum : (0 : ℚ) < (ofMagnitude m e).num := by
    have : (0 : ℚ) < m := by exact_mod_cast hm
    rw [num_eq]
    positivity
  rw [← hvalue]
  exact pow_leadingExponent_le (by exact_mod_cast hnum) (by exact_mod_cast hden)

end

end Rounding

theorem trim_eq (fuel d : Nat) (k : Int) :
    ((trim fuel d k).1 : ℚ) * 10 ^ (trim fuel d k).2 = d * 10 ^ k := by
  induction fuel generalizing d k with
  | zero => rfl
  | succ fuel ih =>
    unfold trim
    split
    · rename_i hd
      have hsplit : (d : ℚ) = 10 * (d / 10 : Nat) := by
        exact_mod_cast (by omega : d = 10 * (d / 10))
      rw [ih, hsplit, zpow_add₀ (by norm_num)]
      push_cast
      ring
    · rfl

/-- Seventeen digits tell a number from its neighbours. -/
theorem pow_lt_of_leadingExponent {m : Nat} {e t : Int} (hc : Canonical m e)
    (ht : (10 : ℚ) ^ t ≤ m * 2 ^ e) :
    (10 : ℚ) ^ (t - 16) < (gapBelow m e + 1 / 2) * 2 ^ e := by
  have hpos : (0 : ℚ) < 2 ^ e := by positivity
  have hm : (m : ℚ) < (gapBelow m e + 1 / 2) * 10 ^ 16 := by
    unfold gapBelow
    split
    · rename_i h
      rw [h.1]
      norm_num
    · have : (m : ℚ) < 2 ^ 53 := by exact_mod_cast hc.lt
      norm_num at this ⊢
      linarith
  calc (10 : ℚ) ^ (t - 16) = 10 ^ t / 10 ^ 16 := by
        rw [zpow_sub₀ (by norm_num)]
        rfl
    _ ≤ m * 2 ^ e / 10 ^ 16 := by gcongr
    _ < (gapBelow m e + 1 / 2) * 10 ^ 16 * 2 ^ e / 10 ^ 16 := by gcongr
    _ = (gapBelow m e + 1 / 2) * 2 ^ e := by ring

/-- Some grid of at most seventeen digits has a decimal for the number. -/
theorem exists_found {m : Nat} {e : Int} (hc : Canonical m e) {r : Rounding}
    (hr : r = Rounding.ofMagnitude m e) :
    ∃ d k, ((List.range 17).findSome? fun n : Nat =>
        (r.onGrid (r.leadingExponent - n)).map fun d => (d, r.leadingExponent - n)) =
        some (d, k) ∧ Rounds m e (d * 10 ^ k) := by
  subst hr
  obtain ⟨d, hd⟩ := Rounding.exists_onGrid hc.pos
    (pow_lt_of_leadingExponent hc (Rounding.pow_leadingExponent_le_value (e := e) hc.pos))
  have hsome : ((List.range 17).findSome? fun n : Nat =>
      ((Rounding.ofMagnitude m e).onGrid ((Rounding.ofMagnitude m e).leadingExponent - n)).map
        fun d => (d, (Rounding.ofMagnitude m e).leadingExponent - n)).isSome = true := by
    rw [List.findSome?_isSome_iff]
    refine ⟨16, List.mem_range.mpr (by omega), ?_⟩
    simp [hd]
  obtain ⟨⟨d', k⟩, hfound⟩ := Option.isSome_iff_exists.mp hsome
  obtain ⟨n, _, hn⟩ := List.exists_of_findSome?_eq_some hfound
  obtain ⟨d'', hgrid, heq⟩ := Option.map_eq_some_iff.mp hn
  cases heq
  exact ⟨_, _, hfound, (Rounding.admits_iff hc.pos _ _).mp (Rounding.admits_of_onGrid hgrid)⟩

theorem shortest_rounds {m : Nat} {e : Int} (hc : Canonical m e) :
    Rounds m e ((shortest m e).1 * 10 ^ (shortest m e).2) := by
  obtain ⟨d, k, hfound, hrounds⟩ := exists_found hc rfl
  have hshortest : shortest m e = trim 17 d k := by
    unfold shortest
    simp only [hfound, Option.getD_some]
  rw [hshortest, trim_eq]
  exact hrounds

end RigidSketch.Decimal
