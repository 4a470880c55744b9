import RigidSketch.Sketch.Join.Basic

/-! Joining clusters that share nothing and are linked by an angle and a distance. The
moving cluster turns until the angle holds and then slides until the distance does. -/

namespace RigidSketch

/-- The shift that brings the second shape to a distance from the first. -/
def Shape.slideTo? {S : Type} [Scalar S] (d : S) : Shape S → Shape S → Option (Vec S)
  | .point p, .point q => some (p + ((q - p).normalized.getD .east).scale d - q)
  | .point p, .line l =>
    let s := l.signedDistance p
    let side : S := if 0 ≤ s then 1 else -1
    some (l.normal.scale (s - side * d))
  | .line l, .point q =>
    let s := l.signedDistance q
    let side : S := if 0 ≤ s then 1 else -1
    some (l.normal.scale (side * d - s))
  | .line _, .line _ => none

namespace Sketch

structure Linkage where
  anchor : ClusterId
  moving : ClusterId
  angle : ConstraintId
  distance : ConstraintId

/-- A turn that makes the angle hold, and then a distance between two elements. -/
structure LinkagePlan where
  turn : Motion Float
  keeper : ElementId
  mover : ElementId
  distance : Float

def linkagePlan? (s : Sketch) (l : Linkage) : Option LinkagePlan := do
  let angle ← s.constraints.get? l.angle
  let distance ← s.constraints.get? l.distance
  let anchor ← s.cluster? l.anchor
  let (lineA, lineM) := linkEnds anchor angle
  let (keeper, mover) := linkEnds anchor distance
  let a ← (← s.shapeIn? l.anchor lineA).line?
  let m ← (← s.shapeIn? l.moving lineM).line?
  let pivot := (← s.shapeIn? l.moving mover).base
  return ⟨.spin pivot (Turn.least (a.angleTo m) angle.value), keeper, mover, distance.value⟩

def slideLinked (l : Linkage) (p : LinkagePlan) (s : Sketch) : Sketch × Option JoinOutcome :=
  match s.shapeIn? l.anchor p.keeper, s.shapeIn? l.moving p.mover with
  | some keeper, some mover =>
    match keeper.slideTo? p.distance mover with
    | none => (s, none)
    | some shift =>
      let s := s.moveCluster l.moving (.slide shift)
      if s.linkHolds l.angle l.anchor l.moving && s.linkHolds l.distance l.anchor l.moving then
        (s.absorb l.anchor l.moving [l.angle, l.distance], some .joined)
      else (s, some (.failed .unconverged))
  | _, _ => (s, none)

def joinLinked (l : Linkage) (s : Sketch) : Sketch × Option JoinOutcome :=
  match s.linkagePlan? l with
  | some p => slideLinked l p (s.moveCluster l.moving p.turn)
  | none => (s, none)

/-- The first angle and the first distance between two clusters that share nothing, not
both of which hold fixed elements. -/
def linkage? (s : Sketch) (k l : Cluster) : Option Linkage :=
  if !(k.shared l).isEmpty || (s.hasFixed k && s.hasFixed l) then none
  else
    let links := s.linksBetween k l
    match links.find? (s.isOfKind .angle), links.find? (s.isOfKind .distance) with
    | some angle, some distance =>
      let (anchor, moving) := s.anchorOrder k l
      some { anchor, moving, angle, distance }
    | _, _ => none

def tryLinked (s : Sketch) : Sketch × Option JoinOutcome :=
  firstOutcome joinLinked ((pairs s.clusters).filterMap fun (k, l) => s.linkage? k l) s

end Sketch

end RigidSketch
