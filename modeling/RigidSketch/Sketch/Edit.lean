import RigidSketch.Decimal.Positional
import RigidSketch.Sketch.Basic

/-! Edits of a sketch. An edit that is refused leaves the sketch as it is. -/

namespace RigidSketch

inductive EditError where
  | unknownElement (e : ElementId)
  | unknownConstraint (c : ConstraintId)
  | mismatchedShapes (kind : RelationKind) (first second : ShapeKind)
  | selfConstraint (e : ElementId)
  | invalidValue (kind : RelationKind) (value : Float)
  | degenerateLine (a b c : Float)
  | notAPoint (e : ElementId)
  | fixedPointsDisagree (keep remove : ElementId)
deriving DecidableEq

def EditError.message : EditError → String
  | unknownElement e => "Element " ++ e.text ++ " does not exist"
  | unknownConstraint c => "Constraint " ++ c.text ++ " does not exist"
  | mismatchedShapes kind first second =>
    "A " ++ kind.name ++ " constraint cannot relate a " ++ first.name ++ " and a " ++ second.name
  | selfConstraint e => "Element " ++ e.text ++ " cannot be constrained to itself"
  | invalidValue kind value =>
    Decimal.text value ++ " is not a valid value for a " ++ kind.name ++ " constraint"
  | degenerateLine a b c =>
    "(" ++ Decimal.text a ++ ", " ++ Decimal.text b ++ ", " ++ Decimal.text c ++
      ") are not the coefficients of a line"
  | notAPoint e => "Element " ++ e.text ++ " is not a point"
  | fixedPointsDisagree e f =>
    "Fixed points " ++ e.text ++ " and " ++ f.text ++ " are at different positions"

namespace Sketch

def addShape (s : Sketch) (shape : Shape Float) (fixed : Bool) : Sketch × ElementId :=
  let (elements, id) := s.elements.insert shape fixed
  ({ s with elements, edited := true }, id)

def addPoint (s : Sketch) (fixed : Bool) (x y : Float) : Sketch × ElementId :=
  s.addShape (.point ⟨x, y⟩) fixed

def addLine (s : Sketch) (fixed : Bool) (a b c : Float) : Except EditError (Sketch × ElementId) :=
  match Line.ofCoefficients? a b c with
  | some l => .ok (s.addShape (.line l) fixed)
  | none => .error (.degenerateLine a b c)

def getElement (s : Sketch) (e : ElementId) : Except EditError Element :=
  match s.elements.get? e with
  | some e => .ok e
  | none => .error (.unknownElement e)

def checkValue (kind : RelationKind) (value : Float) : Except EditError Unit :=
  if kind.allows value then .ok () else .error (.invalidValue kind value)

def constrain (s : Sketch) (kind : RelationKind) (first second : ElementId) (value : Float) :
    Except EditError (Sketch × ConstraintId) := do
  if first = second then throw (.selfConstraint first)
  let g := (← s.getElement first).shape.kind
  let h := (← s.getElement second).shape.kind
  if !kind.accepts g h then throw (.mismatchedShapes kind g h)
  checkValue kind value
  let (constraints, id) := s.constraints.insert kind first second value
  return ({ s with constraints, edited := true }, id)

def setValue (s : Sketch) (id : ConstraintId) (value : Float) : Except EditError Sketch := do
  match s.constraints.get? id with
  | none => throw (.unknownConstraint id)
  | some c =>
    checkValue c.kind value
    return { s with constraints := s.constraints.modify id ({ · with value }), edited := true }

/-- Merges one point into another. Constraints on the removed point come to be on the kept
one, those between the two are dropped, and if either is fixed, the kept one is fixed at
that place. -/
def combine (s : Sketch) (keep remove : ElementId) : Except EditError Sketch := do
  if keep = remove then return s
  let kept ← s.getElement keep
  let removed ← s.getElement remove
  match kept.shape, removed.shape with
  | .point p, .point q =>
    if kept.fixed && removed.fixed && decide (s.tolerance < p.distance q) then
      throw (.fixedPointsDisagree keep remove)
    let elements :=
      if removed.fixed && !kept.fixed then
        s.elements.modify keep ({ · with shape := .point q, fixed := true })
      else s.elements
    return { s with
      elements := elements.erase remove
      constraints := s.constraints.redirect remove keep
      edited := true }
  | .line _, _ => throw (.notAPoint keep)
  | _, .line _ => throw (.notAPoint remove)

end Sketch

end RigidSketch
