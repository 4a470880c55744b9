import RigidSketch.Binary64.Arc
import RigidSketch.Binary64.Circular
import RigidSketch.Binary64.Hypot
import RigidSketch.Scalar

/-! Double precision as the arithmetic of plane geometry. -/

namespace RigidSketch

instance : Scalar Float where
  epsilon := 1e-12
  pi := 3.141592653589793
  abs := Float.abs
  sqrt := Float.sqrt
  hypot := Binary64.hypot
  sin := Binary64.sin
  cos := Binary64.cos
  atan2 := Binary64.atan2
  acos := Binary64.acos
  isFinite := Float.isFinite

end RigidSketch
