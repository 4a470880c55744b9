import RigidSketch.Plane.Line

/-! The shapes that a sketch is made of. -/

namespace RigidSketch

open Scalar

inductive Shape (S : Type) where
  | point (p : Vec S)
  | line (l : Line S)
deriving DecidableEq

inductive ShapeKind where
  | point
  | line
deriving DecidableEq

def ShapeKind.name : ShapeKind → String
  | point => "point"
  | line => "line"

namespace Shape

variable {S : Type} [Scalar S]

def kind : Shape S → ShapeKind
  | point _ => .point
  | line _ => .line

def point? : Shape S → Option (Vec S)
  | point p => some p
  | line _ => none

def line? : Shape S → Option (Line S)
  | point _ => none
  | line l => some l

/-- Equal up to the tolerance in each coordinate, whichever way the lines point. -/
def isClose (tolerance : S) : Shape S → Shape S → Bool
  | point p, point q => decide (p.distance q ≤ tolerance)
  | line l, line m =>
    let m := m.orientedLike l
    decide (abs (l.a - m.a) ≤ tolerance) && decide (abs (l.b - m.b) ≤ tolerance) &&
      decide (abs (l.c - m.c) ≤ tolerance)
  | _, _ => false

def base : Shape S → Vec S
  | point p => p
  | line l => l.base

end Shape

end RigidSketch
