/-! Names of the parts of a sketch. They are numbers that are given out in order and never
given out again. -/

namespace RigidSketch

structure ElementId where
  number : Nat
deriving DecidableEq

structure ConstraintId where
  number : Nat
deriving DecidableEq

structure ClusterId where
  number : Nat
deriving DecidableEq

def ElementId.text (id : ElementId) : String := "e" ++ toString id.number

def ConstraintId.text (id : ConstraintId) : String := "c" ++ toString id.number

def ClusterId.text (id : ClusterId) : String := "k" ++ toString id.number

end RigidSketch
