import RigidSketch.Scalar

/-! Angles and turns. Two lines meet an angle whichever way each of them points, so an
angle is asked for up to its sign and up to half a turn. -/

namespace RigidSketch.Turn

open Scalar

variable {S : Type} [Scalar S]

/-- The same turn in `(-π, π]`. -/
def wrap (t : S) : S := atan2 (sin t) (cos t)

/-- The turn in `(-π/2, π/2]` that differs from `t` by half turns. -/
def wrapHalf (t : S) : S :=
  let w := wrap t
  if pi / two < w then w - pi
  else if w ≤ -pi / two then w + pi
  else w

/-- The signed angles that meet an angle of `target`. -/
def meeting (target : S) : List S :=
  [target, -target, target + pi, pi - target]

/-- How far an angle is from meeting `target`. -/
def error (actual target : S) : S :=
  smaller (abs (wrapHalf (actual - target))) (abs (wrapHalf (actual + target)))

/-- The smallest turn that takes an angle of `current` to one that meets `target`. -/
def least (current target : S) : S :=
  (leastBy Scalar.abs ((meeting target).map fun t => wrap (t - current))).getD 0

/-- Of a turn and the same turn with half a turn more, the smaller. -/
def shorterHalf (t : S) : S :=
  let u := wrap (t + pi)
  if abs t ≤ abs u then t else u

end RigidSketch.Turn
