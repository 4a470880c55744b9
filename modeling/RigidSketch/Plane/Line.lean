import RigidSketch.Plane.Vec

/-! Lines `a·x + b·y + c = 0` with the unit normal `(a, b)`. The normal tells the sides of
a line apart, and the direction `(b, -a)` gives its angles a sign. -/

namespace RigidSketch

open Scalar

structure Line (S : Type) where
  a : S
  b : S
  c : S
deriving DecidableEq

namespace Line

variable {S : Type} [Scalar S]

/-- The line with these coefficients, scaled to a unit normal. There is none if the normal
is too short or a coefficient is not finite. -/
def ofCoefficients? (a b c : S) : Option (Line S) :=
  let len := hypot a b
  if !isFinite len || decide (len ≤ epsilon) || !isFinite c then none
  else some ⟨a / len, b / len, c / len⟩

def ofNormal (normal place : Vec S) : Line S :=
  ⟨normal.x, normal.y, -normal.dot place⟩

/-- The line through two places, directed from the first to the second. -/
def through? (p q : Vec S) : Option (Line S) :=
  (q - p).normalized.map fun d => ofNormal d.perp p

def normal (l : Line S) : Vec S := ⟨l.a, l.b⟩

def direction (l : Line S) : Vec S := ⟨l.b, -l.a⟩

/-- Positive on the side that the normal points to. -/
def signedDistance (l : Line S) (p : Vec S) : S := l.a * p.x + l.b * p.y + l.c

def distance (l : Line S) (p : Vec S) : S := abs (l.signedDistance p)

def angleTo (l m : Line S) : S :=
  atan2 (l.direction.cross m.direction) (l.direction.dot m.direction)

def crossing? (l m : Line S) : Option (Vec S) :=
  let det := l.a * m.b - m.a * l.b
  if abs det < epsilon then none
  else some ⟨(l.b * m.c - m.b * l.c) / det, (m.a * l.c - l.a * m.c) / det⟩

def isParallel (l m : Line S) : Bool :=
  decide (abs (l.normal.cross m.normal) < epsilon)

def foot (l : Line S) (p : Vec S) : Vec S := p - l.normal.scale (l.signedDistance p)

/-- The place on the line closest to the origin. -/
def base (l : Line S) : Vec S := l.normal.scale (-l.c)

def shift (l : Line S) (t : Vec S) : Line S :=
  { l with c := l.c - l.normal.dot t }

def rotateAbout (l : Line S) (pivot : Vec S) (angle : S) : Line S :=
  ofNormal (l.normal.rotate angle) (l.base.rotateAbout pivot angle)

def flip (l : Line S) : Line S := ⟨-l.a, -l.b, -l.c⟩

/-- The line or its flip, whichever has its normal on the side of the other line's. -/
def orientedLike (l m : Line S) : Line S :=
  if l.normal.dot m.normal < 0 then l.flip else l

end Line

end RigidSketch
