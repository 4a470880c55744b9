/-! Tolerances and limits of solving. -/

namespace RigidSketch

structure Settings where
  /-- How far off a constraint may be and count as satisfied, and how far apart two copies
  of one element may be. -/
  tolerance : Float := 1e-6
  /-- Least squares stops once every residual is this small. -/
  residualTolerance : Float := 1e-9
  /-- Least squares gives up once its steps are this small. -/
  stepTolerance : Float := 1e-14
  maxIterations : Nat := 500
  initialDamping : Float := 1e-3
deriving DecidableEq

end RigidSketch
