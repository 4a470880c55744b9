/-! The parts of a double precision number: its sign, and its magnitude as a whole number
times a power of two. -/

namespace RigidSketch.Binary64

/-- Whether the sign bit is set, as it also is for negative zero. -/
def isNegative (x : Float) : Bool := x.toBits >>> 63 != 0

def biasedExponent (x : Float) : Nat := ((x.toBits >>> 52) &&& 0x7FF).toNat

/-- Whole numbers `m` and `e` with `m · 2^e` the magnitude of a finite number. -/
def magnitude (x : Float) : Nat × Int :=
  let fraction := (x.toBits &&& 0xFFFFFFFFFFFFF).toNat
  if biasedExponent x = 0 then (fraction, -1074)
  else (fraction + 0x10000000000000, (biasedExponent x : Int) - 1075)

/-- The number `2^-k`, or zero if that is too small for a normal number. -/
def inversePowerOfTwo (k : Nat) : Float :=
  if k ≤ 1022 then .ofBits ((1023 - k).toUInt64 <<< 52) else 0

end RigidSketch.Binary64
