import RigidSketch.Element
import RigidSketch.Relation

/-! The constraints of a sketch, and an index that leads from an element to the constraints
on it. -/

namespace RigidSketch

structure Constraint where
  id : ConstraintId
  kind : RelationKind
  first : ElementId
  second : ElementId
  value : Float
  /-- Whether the last solve satisfied it. -/
  solved : Bool := false
deriving DecidableEq

namespace Constraint

def ends (c : Constraint) : List ElementId := [c.first, c.second]

def other? (c : Constraint) (e : ElementId) : Option ElementId :=
  if c.first = e then some c.second
  else if c.second = e then some c.first
  else none

def redirect (c : Constraint) (old new : ElementId) : Constraint :=
  { c with
    first := if c.first = old then new else c.first
    second := if c.second = old then new else c.second }

end Constraint

structure ConstraintTable where
  constraints : List Constraint := []
  /-- The constraints on each element. -/
  index : List (ElementId × List ConstraintId) := []
  next : Nat := 0
deriving DecidableEq

namespace ConstraintTable

def get? (t : ConstraintTable) (id : ConstraintId) : Option Constraint :=
  t.constraints.find? (·.id = id)

def ids (t : ConstraintTable) : List ConstraintId := t.constraints.map (·.id)

def on (t : ConstraintTable) (e : ElementId) : List ConstraintId := (t.index.lookup e).getD []

def setIndex (t : ConstraintTable) (e : ElementId) (ids : List ConstraintId) : ConstraintTable :=
  { t with index := t.index.filter (·.1 ≠ e) ++ [(e, ids)] }

def addToIndex (t : ConstraintTable) (id : ConstraintId) (e : ElementId) : ConstraintTable :=
  t.setIndex e (t.on e ++ [id])

def dropFromIndex (t : ConstraintTable) (id : ConstraintId) (e : ElementId) : ConstraintTable :=
  t.setIndex e ((t.on e).filter (· ≠ id))

def modify (t : ConstraintTable) (id : ConstraintId) (f : Constraint → Constraint) :
    ConstraintTable :=
  { t with constraints := t.constraints.map fun c => if c.id = id then f c else c }

def map (t : ConstraintTable) (f : Constraint → Constraint) : ConstraintTable :=
  { t with constraints := t.constraints.map f }

def insert (t : ConstraintTable) (kind : RelationKind) (first second : ElementId)
    (value : Float) : ConstraintTable × ConstraintId :=
  let id : ConstraintId := ⟨t.next⟩
  let c : Constraint := { id, kind, first, second, value }
  let added := { t with constraints := t.constraints ++ [c], next := t.next + 1 }
  ((added.addToIndex id first).addToIndex id second, id)

def erase (t : ConstraintTable) (c : Constraint) : ConstraintTable :=
  let rest := { t with constraints := t.constraints.filter (·.id ≠ c.id) }
  (rest.dropFromIndex c.id c.first).dropFromIndex c.id c.second

/-- Redirects one constraint, and drops it if it then relates an element to itself. -/
def redirectOne (old new : ElementId) (t : ConstraintTable) (id : ConstraintId) :
    ConstraintTable :=
  match t.get? id with
  | none => t
  | some c =>
    let c := c.redirect old new
    if c.first = c.second then t.erase c
    else (t.modify id fun _ => c).addToIndex id new

def redirect (t : ConstraintTable) (old new : ElementId) : ConstraintTable :=
  (t.on old).foldl (redirectOne old new)
    { t with index := t.index.filter (·.1 ≠ old) }

end ConstraintTable

end RigidSketch
