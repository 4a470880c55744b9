import RigidSketch.Binary64.Magnitude

/-! The inverse circular functions. An arc is read off the nearest of four known arcs, and
the difference is left to a polynomial. -/

namespace RigidSketch.Binary64

/-- `atan z = z - z · arcTail z` for small `z`. -/
def arcTail (x : Float) : Float :=
  let z := x * x
  let w := z * z
  let odd := z * (3.33333333333329318027e-01 + w * (1.42857142725034663711e-01
    + w * (9.09088713343650656196e-02 + w * (6.66107313738753120669e-02
    + w * (4.97687799461593236017e-02 + w * 1.62858201153657823623e-02)))))
  let even := w * (-1.99999999998764832476e-01 + w * (-1.11111104054623557880e-01
    + w * (-7.69187620504482999495e-02 + w * (-5.83357013379057348645e-02
    + w * -3.65315727442169155270e-02))))
  odd + even

/-- The arc `hi + lo` continued by the arc of the small tangent `x`. -/
def arcFrom (hi lo x : Float) : Float := hi - (x * arcTail x - lo - x)

/-- The arc in `[0, π/2]` of a tangent that is not negative. -/
def atanPos (x : Float) : Float :=
  if x < 0.4375 then if x < 7.450580596923828e-09 then x else x - x * arcTail x
  else if x < 0.6875 then
    arcFrom 4.63647609000806093515e-01 2.26987774529616870924e-17 ((2.0 * x - 1.0) / (2.0 + x))
  else if x < 1.1875 then
    arcFrom 7.85398163397448278999e-01 3.06161699786838301793e-17 ((x - 1.0) / (x + 1.0))
  else if x < 2.4375 then
    arcFrom 9.82793723247329054082e-01 1.39033110312309984516e-17 ((x - 1.5) / (1.0 + 1.5 * x))
  else if x < 73786976294838206464.0 then
    arcFrom 1.57079632679489655800e+00 6.12323399573676603587e-17 (-1.0 / x)
  else 1.57079632679489655800e+00

/-- The angle of `(x, y)` in `[-π, π]`. Signs of zeros count as signs. -/
def atan2 (y x : Float) : Float :=
  if x.isNaN || y.isNaN then x + y
  else
    let fromHorizontal (z : Float) : Float :=
      if isNegative x then 3.141592653589793 - (z - 1.2246467991473531772e-16) else z
    let tangent := (y / x).abs
    let size :=
      if y == 0 then fromHorizontal 0.0
      else if !x.isFinite then fromHorizontal (if y.isFinite then 0.0 else 0.7853981633974483)
      else if tangent < 18446744073709551616.0 then fromHorizontal (atanPos tangent)
      else 1.57079632679489655800e+00
    if isNegative y then -size else size

/-- The rational part of the arc sine: `asin x = x + x · arcRatio (x²)` for `|x| ≤ 1/2`. -/
def arcRatio (z : Float) : Float :=
  let p := z * (1.66666666666666657415e-01 + z * (-3.25565818622400915405e-01
    + z * (2.01212532134862925881e-01 + z * (-4.00555345006794114027e-02
    + z * (7.91534994289814532176e-04 + z * 3.47933107596021167570e-05)))))
  let q := 1.0 + z * (-2.40339491173441421878e+00 + z * (2.02094576023350569471e+00
    + z * (-6.88283971605453293030e-01 + z * 7.70381505559019352791e-02)))
  p / q

def coarse (x : Float) : Float := .ofBits (x.toBits &&& 0xFFFFFFFF00000000)

def acos (x : Float) : Float :=
  let hi := 1.57079632679489655800e+00
  let lo := 6.12323399573676603587e-17
  if x == 1 then 0
  else if x == -1 then 2.0 * hi
  else if !(x.abs < 1) then (x - x) / (x - x)
  else if x.abs < 0.5 then hi - (x - (lo - x * arcRatio (x * x)))
  else if x < 0 then
    let z := (1.0 + x) * 0.5
    let s := z.sqrt
    2.0 * (hi - (s + (arcRatio z * s - lo)))
  else
    let z := (1.0 - x) * 0.5
    let s := z.sqrt
    let d := coarse s
    2.0 * (d + (arcRatio z * s + (z - d * d) / (s + d)))

end RigidSketch.Binary64
