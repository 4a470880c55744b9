import RigidSketch.Ident
import RigidSketch.Relation

/-! Systems of equations between elements. A point has two variables and a line four, those
of a segment on it; each equation gives a residual and the row of its partial derivatives. -/

namespace RigidSketch.LeastSquares

open Scalar

/-- Where the coordinates of an element are among the variables. -/
inductive Unknown (S : Type) where
  | point (offset : Nat)
  | segment (offset : Nat)
  | fixed (shape : Shape S)

inductive Equation (S : Type) where
  | distance (a b : Nat) (value : S)
  | coincident (a b : Nat)
  | angle (a b : Nat) (target : S)
  /-- A segment has length one. -/
  | segmentLength (a : Nat)

structure System (S : Type) where
  elements : List ElementId := []
  unknowns : Array (Unknown S) := #[]
  equations : List (Equation S) := []
  initial : Array S := #[]

/-- Partial derivatives by the number of the variable. Those not listed are zero. -/
abbrev Row (S : Type) := List (Nat × S)

/-- A point at some values of the variables, with the place of its own variables. -/
structure PointValue (S : Type) where
  place : Vec S
  offset : Option Nat

inductive LineValue (S : Type) where
  | fixed (l : Line S)
  | segment (offset : Nat) (start stop : Vec S)

variable {S : Type} [Scalar S]

def LineValue.direction : LineValue S → Vec S
  | fixed l => l.direction
  | segment _ start stop => stop - start

def vecAt (x : Nat → S) (offset : Nat) : Vec S := ⟨x offset, x (offset + 1)⟩

def vecRow (offset : Nat) (g : Vec S) : Row S := [(offset, g.x), (offset + 1, g.y)]

def PointValue.row (p : PointValue S) (g : Vec S) : Row S :=
  match p.offset with
  | some o => vecRow o g
  | none => []

def PointValue.axisRow (p : PointValue S) (axis : Nat) (g : S) : Row S :=
  match p.offset with
  | some o => [(o + axis, g)]
  | none => []

def signedDistance (p : PointValue S) : LineValue S → S × Row S
  | .fixed l => (l.normal.dot p.place + l.c, p.row l.normal)
  | .segment o start stop =>
    let u := stop - start
    let w := p.place - start
    let len := larger u.length epsilon
    let s := u.cross w / len
    let unit := u.scale (1 / len)
    let partials (cross len' : S) : S := cross / len - s * len' / len
    (s, [(o, partials (u.y - w.y) (-unit.x)), (o + 1, partials (w.x - u.x) (-unit.y)),
      (o + 2, partials w.y unit.x), (o + 3, partials (-w.x) unit.y)] ++
      p.row ⟨partials (-u.y) 0, partials u.x 0⟩)

def angleRow (sign : S) : LineValue S → Row S
  | .fixed _ => []
  | .segment o start stop =>
    let u := stop - start
    let lenSq := u.x * u.x + u.y * u.y
    let g : Vec S := ⟨-u.y / lenSq * sign, u.x / lenSq * sign⟩
    vecRow o ⟨-g.x, -g.y⟩ ++ vecRow (o + 2) g

namespace System

/-- Adds an element as an unknown. The segment that stands for a line is held to length
one, so that it neither collapses nor grows. -/
def add (sys : System S) (id : ElementId) (shape : Shape S) (isFixed : Bool) : System S :=
  let o := sys.initial.size
  let sys := { sys with elements := sys.elements ++ [id] }
  if isFixed then { sys with unknowns := sys.unknowns.push (.fixed shape) }
  else
    match shape with
    | .point p =>
      { sys with
        unknowns := sys.unknowns.push (.point o)
        initial := sys.initial ++ #[p.x, p.y] }
    | .line l =>
      let start := l.base
      let stop := start + l.direction
      { sys with
        unknowns := sys.unknowns.push (.segment o)
        equations := sys.equations ++ [.segmentLength sys.unknowns.size]
        initial := sys.initial ++ #[start.x, start.y, stop.x, stop.y] }

def relate (sys : System S) (kind : RelationKind) (a b : Nat) (value : S) (g h : Shape S) :
    System S :=
  let equation : Equation S :=
    match kind, g, h with
    | .angle, _, _ => .angle a b value
    | .distance, .point _, .point _ =>
      if isZero value then .coincident a b else .distance a b value
    | .distance, _, _ => .distance a b value
  { sys with equations := sys.equations ++ [equation] }

def point? (sys : System S) (x : Nat → S) (i : Nat) : Option (PointValue S) :=
  match sys.unknowns[i]? with
  | some (.point o) => some ⟨vecAt x o, some o⟩
  | some (.fixed (.point p)) => some ⟨p, none⟩
  | _ => none

def line? (sys : System S) (x : Nat → S) (i : Nat) : Option (LineValue S) :=
  match sys.unknowns[i]? with
  | some (.segment o) => some (.segment o (vecAt x o) (vecAt x (o + 2)))
  | some (.fixed (.line l)) => some (.fixed l)
  | _ => none

def shape? (sys : System S) (x : Nat → S) (i : Nat) : Option (Shape S) :=
  match sys.unknowns[i]? with
  | some (.fixed g) => some g
  | some (.point o) => some (.point (vecAt x o))
  | some (.segment o) => (Line.through? (vecAt x o) (vecAt x (o + 2))).map .line
  | none => none

/-- Residual of the distance between a point and a line. The point stays on its side. -/
def pointLine (p : PointValue S) (l : LineValue S) (value : S) : S × Row S :=
  let (s, row) := signedDistance p l
  let side : S := if 0 ≤ s then 1 else -1
  (if isZero value then s else s - side * value, row)

/-- The residuals of an equation with their rows. There are none if the unknowns do not
have the shapes that the equation is about. -/
def evaluate (sys : System S) (x : Nat → S) : Equation S → List (S × Row S)
  | .coincident a b =>
    match sys.point? x a, sys.point? x b with
    | some p, some q =>
      [(p.place.x - q.place.x, p.axisRow 0 1 ++ q.axisRow 0 (-1)),
        (p.place.y - q.place.y, p.axisRow 1 1 ++ q.axisRow 1 (-1))]
    | _, _ => []
  | .distance a b value =>
    match sys.point? x a, sys.point? x b with
    | some p, some q =>
      let delta := p.place - q.place
      let unit := delta.normalized.getD .east
      [(delta.length - value, p.row unit ++ q.row ⟨-unit.x, -unit.y⟩)]
    | some p, none =>
      match sys.line? x b with
      | some l => [pointLine p l value]
      | none => []
    | none, some p =>
      match sys.line? x a with
      | some l => [pointLine p l value]
      | none => []
    | none, none => []
  | .angle a b target =>
    match sys.line? x a, sys.line? x b with
    | some l, some m =>
      let actual := atan2 (l.direction.cross m.direction) (l.direction.dot m.direction)
      [(Turn.wrapHalf (actual - target), angleRow (-1) l ++ angleRow 1 m)]
    | _, _ => []
  | .segmentLength a =>
    match sys.line? x a with
    | some (.segment o start stop) =>
      let u := stop - start
      let unit := u.normalized.getD .east
      [(u.length - 1, vecRow o ⟨-unit.x, -unit.y⟩ ++ vecRow (o + 2) unit)]
    | _ => []

end System

end RigidSketch.LeastSquares
