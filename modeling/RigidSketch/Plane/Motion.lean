import RigidSketch.Plane.Shape
import RigidSketch.Plane.Turn

/-! Rigid motions of the plane, and the motion that carries one pair of shapes onto
another. A motion keeps the orientation of the plane, and so of each rigid part. -/

namespace RigidSketch

open Scalar

/-- A rotation about a pivot, then a shift. -/
structure Motion (S : Type) where
  pivot : Vec S
  angle : S
  shift : Vec S
deriving DecidableEq

inductive FitError where
  /-- The pairs are arranged differently. -/
  | mismatch
  /-- The pair leaves some motion free, as two parallel lines do. -/
  | degenerate
deriving DecidableEq

namespace Motion

variable {S : Type} [Scalar S]

def slide (t : Vec S) : Motion S := ⟨0, 0, t⟩

def spin (pivot : Vec S) (angle : S) : Motion S := ⟨pivot, angle, 0⟩

def movePoint (m : Motion S) (p : Vec S) : Vec S :=
  p.rotateAbout m.pivot m.angle + m.shift

def moveLine (m : Motion S) (l : Line S) : Line S :=
  (l.rotateAbout m.pivot m.angle).shift m.shift

def move (m : Motion S) : Shape S → Shape S
  | .point p => .point (m.movePoint p)
  | .line l => .line (m.moveLine l)

/-- The motion followed by half a turn about where its pivot lands. Crossing lines, and a
point with a line through it, land on the same places either way. -/
def halfTurned (m : Motion S) : Motion S :=
  { m with angle := Turn.wrap (m.angle + pi) }

def fitPoints (tolerance : S) (p q p' q' : Vec S) : Except FitError (Motion S) :=
  let d := p.distance q
  if tolerance < abs (d - p'.distance q') then .error .mismatch
  else if d ≤ tolerance then .error .degenerate
  else .ok ⟨p, Turn.wrap ((q' - p').angle - (q - p).angle), p' - p⟩

def fitPointLine (tolerance : S) (p : Vec S) (l : Line S) (p' : Vec S) (l' : Line S) :
    Except FitError (Motion S) :=
  let s := l.signedDistance p
  let s' := l'.signedDistance p'
  if tolerance < abs (abs s - abs s') then .error .mismatch
  else
    let turn := Turn.wrap (l'.normal.angle - l.normal.angle)
    let angle :=
      if abs s ≤ tolerance then Turn.shorterHalf turn
      else if decide (0 < s) == decide (0 < s') then turn
      else Turn.wrap (turn + pi)
    .ok ⟨p, angle, p' - p⟩

def fitLines (tolerance : S) (l m l' m' : Line S) : Except FitError (Motion S) :=
  if tolerance < abs (Turn.wrapHalf (l.angleTo m - l'.angleTo m')) then .error .mismatch
  else
    match l.crossing? m, l'.crossing? m' with
    | some x, some x' =>
      .ok ⟨x, Turn.wrap (l'.direction.angle - l.direction.angle), x' - x⟩
    | _, _ => .error .degenerate

def fit (tolerance : S) : Shape S × Shape S → Shape S × Shape S → Except FitError (Motion S)
  | (.point p, .point q), (.point p', .point q') => fitPoints tolerance p q p' q'
  | (.point p, .line l), (.point p', .line l') => fitPointLine tolerance p l p' l'
  | (.line l, .point p), (.line l', .point p') => fitPointLine tolerance p l p' l'
  | (.line l, .line m), (.line l', .line m') => fitLines tolerance l m l' m'
  | _, _ => .error .mismatch

/-- The most direct motion of one shape onto another of the same kind: a shift of a
point, and of a line the smaller rotation with a shift along the normal. -/
def align? : Shape S → Shape S → Option (Motion S)
  | .point p, .point q => some (slide (q - p))
  | .line l, .line m =>
    let turn := Turn.shorterHalf (Turn.wrap (m.direction.angle - l.direction.angle))
    some ⟨l.base, turn, m.normal.scale (-m.signedDistance l.base)⟩
  | _, _ => none

end Motion

end RigidSketch
