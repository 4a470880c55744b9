import RigidSketch.Binary64.Magnitude

/-! Sine and cosine. An angle is first reduced by quarter turns, in whole numbers if it is large,
which is exact however large it is, and the rest is left to a polynomial. -/

namespace RigidSketch.Binary64

def turnBits : Nat := 1216

/-- The whole part of `π/2 · 2^turnBits`. -/
def quarterTurn : Nat :=
  [0x0000000000000001, 0x921FB54442D18469, 0x898CC51701B839A2, 0x52049C1114CF98E8,
   0x04177D4C76273644, 0xA29410F31C6809BB, 0xDF2A33679A748636, 0x605614DBE4BE286E,
   0x9FC26ADADAA3848B, 0xC90B6AECC4BCFD8D, 0xE89885D34C6FDAD6, 0x17FEB96DE80D6FDB,
   0xDC70D7F6B5133F4B, 0x5D3E4822F8963FCC, 0x9250CCA3D9C8B67B, 0x8400F97142C77E0B,
   0x31B4906C38ABA734, 0xD22C7F51FA499EBF, 0x06CABA47B9475B2C, 0x38C5E6AC410AA577].foldl
    (fun acc word => acc <<< 64 ||| word) 0

/-- The leading 53 bits of `n`, rounded, and how many bits were left off. -/
def leading (n : Nat) : Nat × Nat :=
  let dropped := n.log2 - 52
  (((n >>> (dropped - 1)) + 1) >>> 1, dropped)

/-- The number nearest to `n · 2^-turnBits` and what is missing from it. -/
def ofFixed (n : Int) : Float × Float :=
  let part (n : Int) : Float × Int :=
    if n.natAbs < 0x20000000000000 then (.ofInt n * inversePowerOfTwo turnBits, 0)
    else
      let (q, dropped) := leading n.natAbs
      let f := Float.ofNat q * inversePowerOfTwo (turnBits - dropped)
      let rest := n - n.sign * (q <<< dropped : Nat)
      (if n < 0 then -f else f, rest)
  let (hi, rest) := part n
  (hi, (part rest).1)

/-- An angle as a number of quarter turns and a rest of at most half a quarter. -/
structure Reduced where
  quarters : Int
  hi : Float
  lo : Float

/-- The leading word of the magnitude. Small angles are compared by it alone. -/
def leadingWord (x : Float) : Nat := ((x.toBits >>> 32) &&& 0x7FFFFFFF).toNat

/-- Whether an angle counts as at most an eighth of a turn. -/
def isNarrow (x : Float) : Bool := leadingWord x ≤ 0x3FE921FB

/-- The whole number nearest to a number that is not large. A sum with `3 · 2^51` has it in the
last bits. -/
def nearestWhole (x : Float) : Int :=
  ((x + 6755399441055744.0).toBits &&& 0xFFFFFFFFFFFFF).toNat - 0x8000000000000

/-- `t - f · (part + tail)` as a difference of two numbers. -/
def takeOff (t f part tail : Float) : Float × Float :=
  let w := f * part
  let r := t - w
  (r, f * tail - ((t - r) - w))

/-- The rest of an angle less some quarter turns. A quarter is taken off in two parts, and where
too many bits of the rest may cancel, in further ones. -/
def lessQuarters (x : Float) (quarters : Int) (mayCancel : Bool) : Reduced :=
  let f := Float.ofInt quarters
  let rest : Float × Float → Reduced := fun (r, w) => ⟨quarters, r - w, (r - (r - w)) - w⟩
  let hasCancelled (bits : Nat) : Float × Float → Bool := fun (r, w) =>
    biasedExponent (r - w) + bits < biasedExponent x
  let first := (x - f * 1.57079632673412561417e+00, f * 6.07710050650619224932e-11)
  if mayCancel && hasCancelled 16 first then
    let second := takeOff first.1 f 6.07710050630396597660e-11 2.02226624879595063154e-21
    if hasCancelled 49 second then
      rest (takeOff second.1 f 2.02226624871116645580e-21 8.47842766036889956997e-32)
    else rest second
  else rest first

/-- The number of quarter turns nearest to an angle of at most nine eighths of a turn, as the
leading word tells it. -/
def quartersOfWord (word : Nat) : Nat :=
  [0x3FE921FB, 0x4002D97C, 0x400F6A7A, 0x4015FDBC].countP (· < word)

/-- Whether an angle of at most nine eighths of a turn is close to one of four quarter turns. -/
def isNearQuarter (word : Nat) : Bool :=
  word ∈ [0x3FF921FB, 0x400921FB, 0x4012D97C, 0x401921FB]

/-- A large angle is reduced in whole numbers, and others in floating point. -/
def reduce (x : Float) : Reduced :=
  let word := leadingWord x
  if isNarrow x then ⟨0, x, 0⟩
  else if word ≤ 0x401C463B && !isNearQuarter word then
    let n : Int := quartersOfWord word
    lessQuarters x (if isNegative x then -n else n) false
  else if word < 0x413921FB then
    lessQuarters x (nearestWhole (x * 6.36619772367581382433e-01)) true
  else
    let (m, e) := magnitude x
    let n : Int := (m <<< ((turnBits : Int) + e).toNat : Nat)
    let n := if isNegative x then -n else n
    let quarters := (2 * n + quarterTurn).fdiv (2 * quarterTurn)
    let (hi, lo) := ofFixed (n - quarters * quarterTurn)
    ⟨quarters, hi, lo⟩

/-- The coefficients of the sine's series from the fifth power on. -/
def sinTail (z : Float) : Float :=
  8.33333333332248946124e-03
    + z * (-1.98412698298579493134e-04 + z * 2.75573137070700676789e-06)
    + z * (z * z) * (-2.50507602534068634195e-08 + z * 1.58969099521155010221e-10)

def sinSmall (x : Float) : Float :=
  let z := x * x
  x + z * x * (-1.66666666666666324348e-01 + z * sinTail z)

/-- Sine of `x + y` for `x` within an eighth turn and a tail `y`. -/
def sinNear (x y : Float) : Float :=
  let z := x * x
  let v := z * x
  x - ((z * (0.5 * y - v * sinTail z) - y) - v * -1.66666666666666324348e-01)

/-- Cosine of `x + y` for `x` within an eighth turn and a tail `y`. -/
def cosNear (x y : Float) : Float :=
  let z := x * x
  let w := z * z
  let r := z * (4.16666666666666019037e-02
      + z * (-1.38888888888741095749e-03 + z * 2.48015872894767294178e-05))
    + w * w * (-2.75573143513906633035e-07
      + z * (2.08757232129817482790e-09 + z * -1.13596475577881948265e-11))
  let hz := 0.5 * z
  let w := 1.0 - hz
  w + (((1.0 - w) - hz) + (z * r - x * y))

/-- Sine of an angle. It keeps the sign of zero. -/
def sin (x : Float) : Float :=
  if !x.isFinite then x - x
  else if x.abs < 1.4901161193847656e-08 then x
  else if isNarrow x then sinSmall x
  else
    let t := reduce x
    match (t.quarters % 4).toNat with
    | 0 => sinNear t.hi t.lo
    | 1 => cosNear t.hi t.lo
    | 2 => -sinNear t.hi t.lo
    | _ => -cosNear t.hi t.lo

def cos (x : Float) : Float :=
  if !x.isFinite then x - x
  else
    let t := reduce x
    match (t.quarters % 4).toNat with
    | 0 => cosNear t.hi t.lo
    | 1 => -sinNear t.hi t.lo
    | 2 => -cosNear t.hi t.lo
    | _ => sinNear t.hi t.lo

end RigidSketch.Binary64
