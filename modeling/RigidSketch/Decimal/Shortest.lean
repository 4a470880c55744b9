import RigidSketch.Binary64.Magnitude

/-! The decimal with the fewest digits that reads back as a given number. Candidates are
tried on ever finer grids of powers of ten, in whole numbers. -/

namespace RigidSketch.Decimal

/-- A positive binary number `m · 2^e`, kept as the fraction `num / den`, with the interval
of the reals that are read as this number. All four bounds have the denominator `den`. -/
structure Rounding where
  num : Nat
  den : Nat
  low : Nat
  high : Nat
  closed : Bool

/-- The reals that round to `m · 2^e`. The gap below a power of two is half the gap above. -/
def Rounding.ofMagnitude (m : Nat) (e : Int) : Rounding :=
  let up := 1 <<< e.toNat
  let below := if m = 0x10000000000000 ∧ -1074 < e then 1 else 2
  ⟨4 * m * up, 4 <<< (-e).toNat, (4 * m - below) * up, (4 * m + 2) * up, m % 2 = 0⟩

def Rounding.admits (r : Rounding) (d : Nat) (k : Int) : Bool :=
  let n := d * Nat.pow 10 k.toNat * r.den
  let scale := Nat.pow 10 (-k).toNat
  if r.closed then decide (r.low * scale ≤ n ∧ n ≤ r.high * scale)
  else decide (r.low * scale < n ∧ n < r.high * scale)

def digitCount (n : Nat) : Nat := (Nat.toDigits 10 n).length

def Rounding.leadingExponent (r : Rounding) : Int :=
  if r.den ≤ r.num then (digitCount (r.num / r.den) : Int) - 1
  else -(digitCount ((r.den + r.num - 1) / r.num - 1) : Int)

/-- The neighbour of the number on the grid `10^k` that rounds to it. Of two the nearer is
taken, and the larger if they are equally near. -/
def Rounding.onGrid (r : Rounding) (k : Int) : Option Nat :=
  let num := r.num * Nat.pow 10 (-k).toNat
  let den := r.den * Nat.pow 10 k.toNat
  let d := num / den
  match r.admits d k, r.admits (d + 1) k with
  | true, true => if 2 * num < (2 * d + 1) * den then some d else some (d + 1)
  | true, false => some d
  | false, true => some (d + 1)
  | false, false => none

def trim : Nat → Nat → Int → Nat × Int
  | 0, d, k => (d, k)
  | fuel + 1, d, k => if d % 10 = 0 then trim fuel (d / 10) (k + 1) else (d, k)

/-- The shortest decimal `d · 10^k` that reads back as the positive number `m · 2^e`. Some
decimal of seventeen digits always does. -/
def shortest (m : Nat) (e : Int) : Nat × Int :=
  let r := Rounding.ofMagnitude m e
  let top := r.leadingExponent
  let found := (List.range 17).findSome? fun (n : Nat) =>
    (r.onGrid (top - n)).map fun d => (d, top - n)
  let (d, k) := found.getD (0, 0)
  trim 17 d k

end RigidSketch.Decimal
