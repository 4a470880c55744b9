import RigidSketch.Binary64.Magnitude

/-! The length of a vector. Squares are taken in two parts after scaling, so that neither
large nor small coordinates lose the result. -/

namespace RigidSketch.Binary64

/-- The square of a number as a rounded part and the rest. -/
def squareParts (x : Float) : Float × Float :=
  let c := x * 134217729
  let hi := x - c + c
  let lo := x - hi
  let sq := x * x
  (sq, hi * hi - sq + 2 * hi * lo + lo * lo)

/-- The length of `(x, y)` for magnitudes whose squares neither overflow nor vanish. -/
def hypotScaled (x y : Float) : Float :=
  let (hx, lx) := squareParts x
  let (hy, ly) := squareParts y
  (ly + lx + hy + hx).sqrt

/-- The length of `(x, y)`. An infinite coordinate makes it infinite, even beside one that
is undefined. -/
def hypot (x y : Float) : Float :=
  let x := x.abs
  let y := y.abs
  if !x.isNaN && !x.isFinite then x
  else if !y.isNaN && !y.isFinite then y
  else if x.isNaN then x
  else if y.isNaN then y
  else
    let (big, small) := if x < y then (y, x) else (x, y)
    if small == 0 then big
    else if biasedExponent big > biasedExponent small + 64 then big + small
    else if biasedExponent big > 1533 then
      hypotScaled (big * inversePowerOfTwo 700) (small * inversePowerOfTwo 700)
        / inversePowerOfTwo 700
    else if biasedExponent small < 573 then
      hypotScaled (big / inversePowerOfTwo 700) (small / inversePowerOfTwo 700)
        * inversePowerOfTwo 700
    else hypotScaled big small

end RigidSketch.Binary64
