import RigidSketch.Plane.Shape
import RigidSketch.Plane.Turn

/-! The two relations that shapes are held to. A distance from a line is unsigned, and an
angle is met up to sign and half turns. -/

namespace RigidSketch

open Scalar

inductive RelationKind where
  | distance
  | angle
deriving DecidableEq

namespace RelationKind

def name : RelationKind → String
  | distance => "distance"
  | angle => "angle"

def accepts : RelationKind → ShapeKind → ShapeKind → Bool
  | distance, .line, .line => false
  | distance, _, _ => true
  | angle, .line, .line => true
  | angle, _, _ => false

def allows {S : Type} [Scalar S] : RelationKind → S → Bool
  | distance, v => isFinite v && decide (0 ≤ v)
  | angle, v => isFinite v

variable {S : Type} [Scalar S]

/-- How far two shapes are from the relation, if it applies to them. -/
def residual? : RelationKind → S → Shape S → Shape S → Option S
  | distance, v, .point p, .point q => some (p.distance q - v)
  | distance, v, .point p, .line l => some (l.distance p - v)
  | distance, v, .line l, .point p => some (l.distance p - v)
  | angle, v, .line l, .line m => some (Turn.error (l.angleTo m) v)
  | _, _, _, _ => none

end RelationKind

/-- The relation in which two shapes stand: their distance, or the signed angle from the
first line to the second. -/
def Shape.measure {S : Type} [Scalar S] : Shape S → Shape S → RelationKind × S
  | .point p, .point q => (.distance, p.distance q)
  | .point p, .line l => (.distance, l.distance p)
  | .line l, .point p => (.distance, l.distance p)
  | .line l, .line m => (.angle, l.angleTo m)

end RigidSketch
