import Mathlib
import RigidSketch.Proofs.Rounding

/-! Numbers taken apart and put together again. A number is determined by its sign and its
magnitude, unless it is infinite or undefined. -/

namespace RigidSketch.Binary64

open Float.Model Float.Model.UnpackedFloat

theorem toNat_append {n k : Nat} (a : BitVec n) (b : BitVec k) :
    (a ++ b).toNat = a.toNat * 2 ^ k + b.toNat := by
  rw [BitVec.toNat_append, ← Nat.shiftLeft_add_eq_or_of_lt b.isLt, Nat.shiftLeft_eq]

theorem toNat_unpackMantissa (b : BitVec 64) :
    (@unpackMantissa .binary64 b).toNat = b.toNat % 2 ^ 52 := by
  simp [unpackMantissa]

theorem toNat_unpackExponent (b : BitVec 64) :
    (@unpackExponent .binary64 b).toNat = b.toNat / 2 ^ 52 % 2 ^ 11 := by
  simp [unpackExponent, Nat.shiftRight_eq_div_pow]

theorem toNat_unpackSign (b : BitVec 64) :
    (@unpackSign .binary64 b).toNat = b.toNat / 2 ^ 63 % 2 := by
  simp [unpackSign, Nat.shiftRight_eq_div_pow]

/-- The forms that the fields of a number lead to. -/
inductive Unpacks (s : Sign) (e m : Nat) : UnpackedFloat → Prop
  | notANumber : e = 2047 → m ≠ 0 → Unpacks s e m .notANumber
  | infinity : e = 2047 → m = 0 → Unpacks s e m (.infinity s)
  | zero : e = 0 → m = 0 → Unpacks s e m (.zero s)
  | subnormal {j : Int} (h : 0 < m) : e = 0 → j = -1074 → Unpacks s e m (.finite s m j h)
  | normal {k : Nat} {j : Int} (h : 0 < k) : 0 < e → e < 2047 → k = m + 2 ^ 52 → j = e - 1075 →
      Unpacks s e m (.finite s k j h)

theorem Unpacks.unique {s : Sign} {e m : Nat} {u v : UnpackedFloat} (hu : Unpacks s e m u)
    (hv : Unpacks s e m v) : u = v := by
  cases hu <;> cases hv <;> grind

theorem unpacks (b : BitVec Format.binary64.numBits) :
    Unpacks (Sign.ofBitVec (unpackSign b)) (unpackExponent b).toNat (unpackMantissa b).toNat
      (UnpackedFloat.unpack .binary64 b) := by
  have hlt : (unpackExponent b).toNat < 2048 := (unpackExponent b).isLt
  have hones : unpackExponent b = -1#_ ↔ (unpackExponent b).toNat = 2047 := by
    rw [← BitVec.toNat_inj]
    rfl
  have hzero : unpackExponent b = 0#_ ↔ (unpackExponent b).toNat = 0 := by
    rw [← BitVec.toNat_inj]
    rfl
  have hnone : unpackMantissa b = 0#_ ↔ (unpackMantissa b).toNat = 0 := by
    rw [← BitVec.toNat_inj]
    rfl
  have hbias : (Format.binary64.exponentBias : Int) +
      Format.binary64.mantissaBitsWithoutImplicit = 1075 := rfl
  unfold UnpackedFloat.unpack
  by_cases he : unpackExponent b = -1#_
  · rw [if_pos he]
    by_cases hm : unpackMantissa b = 0#_
    · rw [if_pos hm]
      exact .infinity (hones.mp he) (hnone.mp hm)
    · rw [if_neg hm]
      exact .notANumber (hones.mp he) (mt hnone.mpr hm)
  · rw [if_neg he]
    by_cases he' : unpackExponent b = 0#_
    · rw [if_pos he']
      by_cases hm : unpackMantissa b = 0#_
      · rw [dif_pos hm]
        exact .zero (hzero.mp he') (hnone.mp hm)
      · rw [dif_neg hm]
        have := hzero.mp he'
        exact .subnormal _ this (by omega)
    · rw [if_neg he']
      have hpos := mt hzero.mpr he'
      have htop := mt hones.mpr he
      refine .normal _ (by omega) (by omega) ?_ (by omega)
      rw [toNat_append, add_comm]
      rfl

theorem log2_add_one_of_lt {m : Nat} (h : 2 ^ 52 ≤ m) (hlt : m < 2 ^ 53) :
    m.log2 + 1 = Format.binary64.mantissaBits := by
  have hbits : Format.binary64.mantissaBits = 53 := rfl
  have hne : m ≠ 0 := by omega
  have hle := (Nat.le_log2 hne).mpr h
  have hge := (Nat.log2_lt hne).mpr hlt
  omega

theorem pack_normal {s : Sign} {m : Nat} {e : Int} {h : 0 < m} {k : Nat} (hk : e = k - 1075)
    (hpos : 0 < k) (htop : k < 2047) (hm : 2 ^ 52 ≤ m) (hlt : m < 2 ^ 53) :
    UnpackedFloat.pack .binary64 (.finite s m e h) =
      packComponents .binary64 s (BitVec.ofNat _ k) (BitVec.ofNat _ m) := by
  have hbiased : (e + Format.binary64.exponentBias +
      Format.binary64.mantissaBitsWithoutImplicit).toNat = k := by
    have hbias : (Format.binary64.exponentBias : Int) +
        Format.binary64.mantissaBitsWithoutImplicit = 1075 := rfl
    omega
  unfold UnpackedFloat.pack
  rw [hbiased, if_neg (by simp; omega), if_pos (log2_add_one_of_lt hm hlt)]

theorem pack_subnormal {s : Sign} {m : Nat} {h : 0 < m} (hlt : m < 2 ^ 52) :
    UnpackedFloat.pack .binary64 (.finite s m (-1074) h) =
      packComponents .binary64 s 0#_ (BitVec.ofNat _ m) := by
  have hlog := (Nat.log2_lt h.ne').mpr hlt
  have hbits : ¬ m.log2 + 1 = Format.binary64.mantissaBits := by
    have : Format.binary64.mantissaBits = 53 := rfl
    omega
  unfold UnpackedFloat.pack
  rw [if_neg (by decide), if_neg hbits]

theorem unpacks_packComponents (s : Sign) (e : BitVec 11) (m : BitVec 52) :
    Unpacks s e.toNat m.toNat
      (UnpackedFloat.unpack .binary64 (packComponents .binary64 s e m)) := by
  have h := unpacks (packComponents .binary64 s e m)
  rwa [unpackSign_packComponents, Sign.ofBitVec_toBitVec, unpackExponent_packComponents,
    unpackMantissa_packComponents] at h

theorem unpack_pack {s : Sign} {m : Nat} {e : Int} (hc : Canonical m e) (htop : e ≤ 971) :
    UnpackedFloat.unpack .binary64 (UnpackedFloat.pack .binary64 (.finite s m e hc.pos)) =
      .finite s m e hc.pos := by
  obtain ⟨hpos, hlt, hle, hnormal⟩ := hc
  by_cases hm : 2 ^ 52 ≤ m
  · have hexponent : (BitVec.ofNat 11 (e + 1075).toNat).toNat = (e + 1075).toNat :=
      Nat.mod_eq_of_lt (by omega)
    have hmantissa : (BitVec.ofNat 52 m).toNat = m - 2 ^ 52 := by
      rw [BitVec.toNat_ofNat, Nat.mod_eq_sub_mod hm, Nat.mod_eq_of_lt (by omega)]
    have hpack := pack_normal (s := s) (e := e) (h := hpos) (k := (e + 1075).toNat) (by omega)
      (by omega) (by omega) hm hlt
    have h := unpacks_packComponents s (BitVec.ofNat 11 (e + 1075).toNat) (BitVec.ofNat 52 m)
    rw [hexponent, hmantissa] at h
    rw [hpack]
    exact h.unique (.normal hpos (by omega) (by omega) (by omega) (by omega))
  · have hmantissa : (BitVec.ofNat 52 m).toNat = m := Nat.mod_eq_of_lt (by omega)
    obtain rfl := hnormal.resolve_left hm
    rw [pack_subnormal (by omega)]
    have h := unpacks_packComponents s 0#11 (BitVec.ofNat 52 m)
    rw [hmantissa] at h
    exact h.unique (.subnormal hpos rfl rfl)

theorem isNegative_iff (x : Float) : isNegative x = true ↔ x.toBits.toNat / 2 ^ 63 ≠ 0 := by
  have hshift : (x.toBits >>> 63).toNat = x.toBits.toNat / 2 ^ 63 := by
    rw [UInt64.toNat_shiftRight, Nat.shiftRight_eq_div_pow]
    rfl
  rw [isNegative, bne_iff_ne, ne_eq, ← UInt64.toNat_inj, hshift]
  rfl

theorem biasedExponent_eq (x : Float) : biasedExponent x = x.toBits.toNat / 2 ^ 52 % 2 ^ 11 := by
  have hmask : (0x7FF : UInt64).toNat = 2 ^ 11 - 1 := rfl
  rw [biasedExponent, UInt64.toNat_and, hmask, Nat.and_two_pow_sub_one_eq_mod,
    UInt64.toNat_shiftRight, Nat.shiftRight_eq_div_pow]
  rfl

theorem magnitude_eq (x : Float) : magnitude x =
    if biasedExponent x = 0 then (x.toBits.toNat % 2 ^ 52, -1074)
    else (x.toBits.toNat % 2 ^ 52 + 2 ^ 52, (biasedExponent x : Int) - 1075) := by
  have hmask : (0xFFFFFFFFFFFFF : UInt64).toNat = 2 ^ 52 - 1 := rfl
  rw [magnitude, UInt64.toNat_and, hmask, Nat.and_two_pow_sub_one_eq_mod]
  rfl

def signOf (x : Float) : Sign := if isNegative x then .negative else .positive

theorem ofBitVec_unpackSign_toBits (x : Float) :
    Sign.ofBitVec (@unpackSign .binary64 x.toBits.toBitVec) = signOf x := by
  have hnat : (@unpackSign .binary64 x.toBits.toBitVec).toNat =
      x.toBits.toNat / 2 ^ 63 := by
    rw [toNat_unpackSign]
    exact Nat.mod_eq_of_lt (Nat.div_lt_of_lt_mul x.toBits.toNat_lt)
  have hzero : @unpackSign .binary64 x.toBits.toBitVec = 0#1 ↔
      ¬ isNegative x = true := by
    rw [isNegative_iff, not_not, ← hnat, ← BitVec.toNat_inj]
    rfl
  unfold Sign.ofBitVec signOf
  by_cases hneg : isNegative x = true
  · rw [if_pos hneg, if_neg (not_not.mpr hneg ∘ hzero.mp)]
  · rw [if_neg hneg, if_pos (hzero.mpr hneg)]

/-- What a number is unpacked into. -/
inductive Form (x : Float) : UnpackedFloat → Prop
  | notANumber : Form x .notANumber
  | infinity : Form x (.infinity (signOf x))
  | zero : (magnitude x).1 = 0 → Form x (.zero (signOf x))
  | finite {m : Nat} {e : Int} (hc : Canonical m e) : magnitude x = (m, e) → e ≤ 971 →
      Form x (.finite (signOf x) m e hc.pos)

theorem form (x : Float) : Form x x.toModel.unpack := by
  have hcases : Unpacks (signOf x) (biasedExponent x) (x.toBits.toNat % 2 ^ 52)
      x.toModel.unpack := by
    have h := unpacks x.toBits.toBitVec
    have hexponent : (@unpackExponent .binary64 x.toBits.toBitVec).toNat =
        biasedExponent x := by
      rw [toNat_unpackExponent, biasedExponent_eq]
      rfl
    rwa [ofBitVec_unpackSign_toBits, hexponent, toNat_unpackMantissa] at h
  have hmagnitude := magnitude_eq x
  generalize x.toModel.unpack = u at hcases
  cases hcases with
  | notANumber _ _ => exact .notANumber
  | infinity _ _ => exact .infinity
  | zero he hm =>
    rw [if_pos he, hm] at hmagnitude
    exact .zero (by rw [hmagnitude])
  | subnormal h he hj =>
    rw [if_pos he] at hmagnitude
    subst hj
    exact .finite ⟨h, by omega, le_refl _, Or.inr rfl⟩ hmagnitude (by omega)
  | normal h hpos htop hk hj =>
    rw [if_neg hpos.ne', ← hk, ← hj] at hmagnitude
    exact .finite ⟨h, by omega, by omega, Or.inl (by omega)⟩ hmagnitude (by omega)

theorem unpack_model_pack {s : Sign} {m : Nat} {e : Int} (hc : Canonical m e) (htop : e ≤ 971) :
    Float.Model.unpack (.pack (.finite s m e hc.pos)) = .finite s m e hc.pos :=
  unpack_pack hc htop

end RigidSketch.Binary64
