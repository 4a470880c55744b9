import RigidSketch.Plane.Motion
import RigidSketch.Relation
import RigidSketch.Status

/-! Placement of one point or line from two relations to shapes that are placed already.
Each function has a `prior`, where the shape is now, and takes the solution closest to it. -/

namespace RigidSketch

open Scalar

inductive PlacementError where
  | circlesDisjoint
  | circleMissesLine
  | parallelLines
  | noTangent
  | unsupported (kind : ShapeKind)
deriving DecidableEq

def PlacementError.message : PlacementError → String
  | circlesDisjoint => "The two circles do not intersect"
  | circleMissesLine => "The circle does not reach the line"
  | parallelLines => "The lines are parallel"
  | noTangent => "The circles have no common tangent"
  | unsupported kind => "These two relations cannot place a " ++ kind.name

/-- A sketch whose shapes cannot be placed may be consistent all the same. -/
def PlacementError.status (_ : PlacementError) : Status := .unconverged

/-- A relation of the shape to be placed with one that is placed. -/
structure Tie (S : Type) where
  kind : RelationKind
  value : S
  known : Shape S

namespace Placement

variable {S : Type} [Scalar S]

def onCircles (tolerance : S) (c₁ : Vec S) (r₁ : S) (c₂ : Vec S) (r₂ : S) (prior : Vec S) :
    Except PlacementError (Vec S) :=
  let d := c₁.distance c₂
  if r₁ + r₂ + tolerance < d ∨ d < abs (r₁ - r₂) - tolerance then
    .error .circlesDisjoint
  else if d < epsilon then
    if tolerance < abs (r₁ - r₂) then .error .circlesDisjoint
    else .ok (c₁ + ((prior - c₁).normalized.getD .east).scale r₁)
  else
    let u := (c₂ - c₁).scale (1 / d)
    let a := (r₁ * r₁ - r₂ * r₂ + d * d) / (two * d)
    let h := sqrt (larger (r₁ * r₁ - a * a) 0)
    let base := c₁ + u.scale a
    if h ≤ tolerance then .ok base
    else
      let side := u.perp.scale h
      .ok ((Vec.nearest prior [base + side, base - side]).getD base)

/-- Points of the circle about `center` on the parallel of `line` at a signed distance. -/
def onParallel (tolerance : S) (center : Vec S) (r : S) (line : Line S) (offset : S) :
    List (Vec S) :=
  let h := line.signedDistance center - offset
  if r + tolerance < abs h then []
  else
    let foot := center - line.normal.scale h
    let t := sqrt (larger (r * r - h * h) 0)
    if t ≤ tolerance then [foot]
    else [foot + line.direction.scale t, foot - line.direction.scale t]

def onCircleByLine (tolerance : S) (center : Vec S) (r : S) (line : Line S) (d : S)
    (prior : Vec S) : Except PlacementError (Vec S) :=
  let offsets := if d ≤ tolerance then [0] else [d, -d]
  match Vec.nearest prior (offsets.flatMap (onParallel tolerance center r line)) with
  | some p => .ok p
  | none => .error .circleMissesLine

def byLines (l₁ : Line S) (d₁ : S) (l₂ : Line S) (d₂ : S) (prior : Vec S) :
    Except PlacementError (Vec S) :=
  if l₁.isParallel l₂ then .error .parallelLines
  else
    let places := [d₁, -d₁].flatMap fun s₁ => [d₂, -d₂].filterMap fun s₂ =>
      (l₁.shift (l₁.normal.scale s₁)).crossing? (l₂.shift (l₂.normal.scale s₂))
    match Vec.nearest prior places with
    | some p => .ok p
    | none => .error .parallelLines

/-- Half the sum of the angle between the normals and the difference in distance from the
origin. -/
def tangentScore (prior l : Line S) : S :=
  (acos (clampUnit (l.normal.dot prior.normal)) + abs (l.c - prior.c)) / two

/-- Lines at the signed distances `r₁` from `c₁` and `s₂` from `c₂`. The normal `n` of such
a line satisfies `n · (c₂ - c₁) = s₂ - r₁`. -/
def tangents (tolerance : S) (c₁ : Vec S) (r₁ : S) (c₂ : Vec S) (s₂ : S) : List (Line S) :=
  let delta := c₂ - c₁
  let k := s₂ - r₁
  if delta.length + tolerance < abs k then []
  else
    let spread := acos (clampUnit (k / delta.length))
    [delta.angle + spread, delta.angle - spread].map fun beta =>
      let n := Vec.unit beta
      .ofNormal n (n.scale (-(r₁ - n.dot c₁)))

def tangent (tolerance : S) (c₁ : Vec S) (r₁ : S) (c₂ : Vec S) (r₂ : S) (prior : Line S) :
    Except PlacementError (Line S) :=
  if (c₂ - c₁).length < epsilon then
    if tolerance < abs (r₁ - r₂) then .error .noTangent
    else
      let offset := if 0 ≤ prior.signedDistance c₁ then r₁ else -r₁
      .ok (.ofNormal prior.normal (c₁ - prior.normal.scale offset))
  else
    let lines := [r₂, -r₂].flatMap (tangents tolerance c₁ r₁ c₂)
    match leastBy (tangentScore prior) (lines.map (·.orientedLike prior)) with
    | some l => .ok l
    | none => .error .noTangent

/-- A line at the angle `theta` to `reference` and at distance `d` from `p`. The prior is
turned as little as the angle asks for, then shifted to the closer side of `p`. -/
def atAngle (reference : Line S) (theta : S) (p : Vec S) (d : S) (prior : Line S) : Line S :=
  let turned := prior.rotateAbout (prior.foot p) (Turn.least (reference.angleTo prior) theta)
  let n := turned.normal
  let c := (leastBy (fun c => abs (c - turned.c)) [d - n.dot p, -d - n.dot p]).getD turned.c
  .ofNormal n (n.scale (-c))

def place (tolerance : S) (prior : Shape S) (s t : Tie S) : Except PlacementError (Shape S) :=
  match prior with
  | .point prior =>
    match s.kind, s.known, t.kind, t.known with
    | .distance, .point c₁, .distance, .point c₂ =>
      (onCircles tolerance c₁ s.value c₂ t.value prior).map .point
    | .distance, .point c, .distance, .line l =>
      (onCircleByLine tolerance c s.value l t.value prior).map .point
    | .distance, .line l, .distance, .point c =>
      (onCircleByLine tolerance c t.value l s.value prior).map .point
    | .distance, .line l₁, .distance, .line l₂ =>
      (byLines l₁ s.value l₂ t.value prior).map .point
    | _, _, _, _ => .error (.unsupported .point)
  | .line prior =>
    match s.kind, s.known, t.kind, t.known with
    | .distance, .point c₁, .distance, .point c₂ =>
      (tangent tolerance c₁ s.value c₂ t.value prior).map .line
    | .angle, .line reference, .distance, .point p =>
      .ok (.line (atAngle reference s.value p t.value prior))
    | .distance, .point p, .angle, .line reference =>
      .ok (.line (atAngle reference t.value p s.value prior))
    | _, _, _, _ => .error (.unsupported .line)

/-- Moves `mover` as little as its relation to `keeper` asks for. -/
def beside? : RelationKind → S → Shape S → Shape S → Option (Shape S)
  | .distance, v, .point k, .point m =>
    some (.point (k + ((m - k).normalized.getD .east).scale v))
  | .distance, v, .point k, .line m =>
    let s := m.signedDistance k
    some (.line (m.shift (m.normal.scale (s - if 0 ≤ s then v else -v))))
  | .distance, v, .line k, .point m =>
    let s := k.signedDistance m
    some (.point (m + k.normal.scale ((if 0 ≤ s then v else -v) - s)))
  | .angle, v, .line k, .line m =>
    some (.line (m.rotateAbout ((k.crossing? m).getD m.base) (Turn.least (k.angleTo m) v)))
  | _, _, _, _ => none

def supports : ShapeKind → RelationKind → RelationKind → Bool
  | .point, .distance, .distance => true
  | .point, _, _ => false
  | .line, .angle, .angle => false
  | .line, _, _ => true

end Placement

end RigidSketch
