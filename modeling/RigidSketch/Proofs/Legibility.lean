import RigidSketch.Proofs.Shortest
import RigidSketch.Proofs.Writing

/-! Every number is read back from its own text. -/

namespace RigidSketch

namespace Numeral

theorem digitsValue_eq (ds : List Char) : digitsValue ds = Nat.ofDigitChars 10 ds 0 :=
  Nat.ofDigitChars_eq_foldl.symm

theorem digitsValue_digits (d : Nat) : digitsValue (Decimal.digits d) = d := by
  rw [digitsValue_eq, Decimal.digits, Nat.ofDigitChars_ten_toDigits]

theorem digitsValue_append_zeros (ds : List Char) (n : Nat) :
    digitsValue (ds ++ List.replicate n '0') = digitsValue ds * 10 ^ n := by
  rw [digitsValue_eq, digitsValue_eq, Nat.ofDigitChars_append, Nat.ofDigitChars_replicate_zero,
    mul_comm]

theorem digitsValue_zeros_append (n : Nat) (ds : List Char) :
    digitsValue (List.replicate n '0' ++ ds) = digitsValue ds := by
  rw [digitsValue_eq, digitsValue_eq, Nat.ofDigitChars_append, Nat.ofDigitChars_replicate_zero,
    mul_zero]

end Numeral

namespace Decimal

open Numeral

theorem isDigit_of_mem_digits {d : Nat} {c : Char} (h : c ∈ digits d) : c.isDigit = true :=
  Nat.isDigit_of_mem_toDigits (by omega) (by omega) h

theorem isDigit_of_mem_zeros {n : Nat} {c : Char} (h : c ∈ List.replicate n '0') :
    c.isDigit = true := by
  rw [List.eq_of_mem_replicate h]
  rfl

/-- A decimal without an exponent is a numeral of the same value. -/
theorem exists_decimals (d : Nat) (k : Int) :
    ∃ whole fraction, positional d k ∈ decimals whole fraction ∧
      (digitsValue (whole ++ fraction) : ℚ) * 10 ^ (0 - fraction.length : Int) = d * 10 ^ k := by
  have hne : digits d ≠ [] := Nat.toDigits_ne_nil
  unfold positional
  dsimp only
  split
  · rename_i hk
    obtain ⟨n, rfl⟩ := Int.eq_ofNat_of_zero_le hk
    refine ⟨digits d ++ List.replicate n '0', [], ⟨?_, Or.inl ⟨by simp [hne], rfl, rfl⟩⟩, ?_⟩
    · intro c hc
      rw [List.append_nil, List.mem_append] at hc
      exact hc.elim isDigit_of_mem_digits isDigit_of_mem_zeros
    · rw [List.append_nil, digitsValue_append_zeros, digitsValue_digits]
      simp
  · rename_i hk
    split
    · rename_i hpoint
      obtain ⟨p, hp⟩ := Int.eq_ofNat_of_zero_le hpoint.le
      have htoNat : (((digits d).length : Int) + k).toNat = p := by omega
      rw [htoNat]
      refine ⟨(digits d).take p, (digits d).drop p, ⟨?_, Or.inr (Or.inl ⟨?_, rfl⟩)⟩, ?_⟩
      · intro c hc
        rw [List.take_append_drop] at hc
        exact isDigit_of_mem_digits hc
      · rw [ne_eq, List.take_eq_nil_iff]
        rintro (hzero | hnil)
        · omega
        · exact hne hnil
      · have hexponent : (0 - ((digits d).drop p).length : Int) = k := by
          rw [List.length_drop]
          omega
        rw [List.take_append_drop, digitsValue_digits, hexponent]
    · rename_i hpoint
      refine ⟨['0'], List.replicate (-((digits d).length + k : Int)).toNat '0' ++ digits d,
        ⟨?_, Or.inr (Or.inl ⟨by simp, rfl⟩)⟩, ?_⟩
      · intro c hc
        simp only [List.cons_append, List.nil_append, List.mem_cons, List.mem_append] at hc
        rcases hc with rfl | hc | hc
        · rfl
        · exact isDigit_of_mem_zeros hc
        · exact isDigit_of_mem_digits hc
      · have hexponent : (0 - (List.replicate (-((digits d).length + k : Int)).toNat '0' ++
            digits d).length : Int) = k := by
          rw [List.length_append, List.length_replicate]
          omega
        have hvalue : digitsValue (['0'] ++ (List.replicate (-((digits d).length + k : Int)).toNat
            '0' ++ digits d)) = d :=
          (digitsValue_zeros_append 1 _).trans
            ((digitsValue_zeros_append _ _).trans (digitsValue_digits d))
        rw [hexponent, hvalue]

theorem toList_signed (negative : Bool) (size : String) :
    (if negative then "-" ++ size else size).toList =
      (if negative then ['-'] else []) ++ size.toList := by
  cases negative
  · rfl
  · exact String.toList_append

theorem sign_mem (negative : Bool) : (if negative then ['-'] else []) ∈ signs negative := by
  cases negative
  · exact Or.inl rfl
  · rfl

open Float.Model Binary64

theorem neg_ofModel_pack {m : Nat} {e : Int} (hc : Canonical m e) (htop : e ≤ 971) :
    -Float.ofModel (.pack (.finite .positive m e hc.pos)) =
      .ofModel (.pack (.finite .negative m e hc.pos)) := by
  have hunpack := unpack_model_pack (s := .positive) hc htop
  have hneg : -Float.ofModel (.pack (.finite .positive m e hc.pos)) =
      .ofModel (.pack (Float.Model.unpack (.pack (.finite .positive m e hc.pos))).neg) := rfl
  rw [hneg, hunpack]
  rfl

theorem value_decimal {whole fraction : List Char} {m : Nat} {e : Int} (hc : Canonical m e)
    (htop : e ≤ 971)
    (h : Rounds m e (digitsValue (whole ++ fraction) * 10 ^ (0 - fraction.length : Int)))
    (x : Float) : (Numeral.decimal (isNegative x) whole fraction 0).value =
      .ofModel (.pack (.finite (signOf x) m e hc.pos)) := by
  simp only [Numeral.value, nearest_eq hc htop h, signOf]
  cases isNegative x
  · rfl
  · exact neg_ofModel_pack hc htop

section

variable {x : Float} (hnan : x.isNaN = false)
include hnan

theorem toList_text_infinite (hfinite : x.isFinite = false) :
    (text x).toList = (if isNegative x then ['-'] else []) ++ "inf".toList := by
  rw [text, hnan, hfinite]
  exact toList_signed _ _

theorem toList_text_zero (hfinite : x.isFinite = true) (hzero : (magnitude x).1 = 0) :
    (text x).toList = (if isNegative x then ['-'] else []) ++ ['0'] := by
  rw [text, hnan, hfinite]
  simp only [hzero]
  exact toList_signed _ "0"

theorem toList_text_finite (hfinite : x.isFinite = true) {m : Nat} {e : Int} (hm : 0 < m)
    (hmagnitude : magnitude x = (m, e)) : (text x).toList =
      (if isNegative x then ['-'] else []) ++ positional (shortest m e).1 (shortest m e).2 := by
  rw [text, hnan, hfinite]
  simp only [hmagnitude, hm.ne']
  refine (toList_signed _ _).trans ?_
  simp

end

theorem decimal_mem {w whole fraction : List Char} (negative : Bool)
    (h : w ∈ decimals whole fraction) :
    (if negative then ['-'] else []) ++ w ∈
      (Numeral.decimal negative whole fraction 0).language := by
  have hnone : [] ∈ exponents 0 := Or.inl ⟨rfl, rfl⟩
  have hunsigned := Language.append_mem_mul h hnone
  rw [List.append_nil] at hunsigned
  exact Language.append_mem_mul (sign_mem negative) hunsigned

theorem text_mem_number (x : Float) : (text x).toList ∈ Grammar.number x := by
  have hx : Float.ofModel (.pack x.toModel.unpack) = x := Float.ofBits_toBits x
  have hform := form x
  have hnan : x.isNaN = x.toModel.unpack.isNaN := rfl
  have hfinite : x.isFinite = x.toModel.unpack.isFinite := rfl
  generalize x.toModel.unpack = u at hform hx hnan hfinite
  cases hform with
  | notANumber =>
    have htext : text x = "NaN" := if_pos hnan
    rw [htext]
    refine ⟨.undefined, rfl, ?_⟩
    rw [← hx]
    decide +kernel
  | infinity =>
    rw [toList_text_infinite hnan hfinite]
    refine ⟨.infinite (isNegative x), Language.append_mem_mul (sign_mem _) (Or.inl rfl), ?_⟩
    rw [← hx, signOf, value]
    cases isNegative x <;> decide +kernel
  | zero hzero =>
    have hdigit : ['0'] ∈ decimals ['0'] [] := ⟨by simp, Or.inl ⟨by simp, rfl, rfl⟩⟩
    rw [toList_text_zero hnan hfinite hzero]
    refine ⟨_, decimal_mem _ hdigit, ?_⟩
    rw [← hx, signOf]
    cases isNegative x <;> decide +kernel
  | finite hc hmagnitude htop =>
    obtain ⟨whole, fraction, hmem, hvalue⟩ := exists_decimals (shortest _ _).1 (shortest _ _).2
    rw [toList_text_finite hnan hfinite hc.pos hmagnitude]
    refine ⟨_, decimal_mem _ hmem, ?_⟩
    rw [value_decimal hc htop (hvalue ▸ shortest_rounds hc) x]
    exact hx

end Decimal

namespace Statement

/-- Every number is read from its own text. -/
theorem reads (x : Float) : Reads x := by
  have h := readNumber_append (Decimal.text_mem_number x) (Reader.Stops.nil _)
  rwa [List.append_nil] at h

end Statement

end RigidSketch
