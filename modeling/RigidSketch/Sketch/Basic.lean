import RigidSketch.Cluster
import RigidSketch.Settings
import RigidSketch.Status

/-! A sketch: elements, the constraints between them, and what is known of its
decomposition into rigid clusters. -/

namespace RigidSketch

structure Sketch where
  settings : Settings := {}
  elements : ElementTable := {}
  constraints : ConstraintTable := {}
  clusters : List Cluster := []
  nextCluster : Nat := 0
  /-- Constraints that no cluster has taken up. -/
  free : OrderedSet ConstraintId := ∅
  /-- Constraints that are redundant beside others. -/
  conflicting : OrderedSet ConstraintId := ∅
  /-- Whether the clusters have been built since the last reset. -/
  built : Bool := false
  status : Status := .pending
  edited : Bool := false
deriving DecidableEq

namespace Sketch

def tolerance (s : Sketch) : Float := s.settings.tolerance

def cluster? (s : Sketch) (k : ClusterId) : Option Cluster := s.clusters.find? (·.id = k)

def isOfKind (s : Sketch) (kind : RelationKind) (id : ConstraintId) : Bool :=
  match s.constraints.get? id with
  | some c => c.kind = kind
  | none => false

def inside (s : Sketch) (k : Cluster) : List ConstraintId :=
  s.free.toList.filter fun id =>
    match s.constraints.get? id with
    | some c => k.encloses c
    | none => false

/-- Residual of a constraint between two shapes seen through `view`. -/
def residualBy (s : Sketch) (view : ElementId → Option (Shape Float)) (id : ConstraintId) :
    Option Float := do
  let c ← s.constraints.get? id
  let g ← view c.first
  let h ← view c.second
  c.kind.residual? c.value g h

def residual? (s : Sketch) (id : ConstraintId) : Option Float :=
  s.residualBy (fun e => (s.elements.get? e).map (·.shape)) id

def isMet (s : Sketch) : Option Float → Bool
  | some r => decide (r.abs ≤ s.tolerance)
  | none => false

/-- Fixed elements count as solved, the others if two satisfied constraints are on them. -/
def isElementSolved (s : Sketch) (id : ElementId) : Bool :=
  match s.elements.get? id with
  | none => false
  | some e =>
    e.fixed || decide (2 ≤ (s.constraints.on id).countP fun c =>
      match s.constraints.get? c with
      | some c => c.solved
      | none => false)

/-- Unknowns less constraints. An unanchored sketch has three rigid motions besides. -/
def degreesOfFreedom (s : Sketch) : Int :=
  let movable : Nat := s.elements.elements.countP fun e => !e.fixed
  let effective : Nat := s.constraints.constraints.countP fun c => !c.ends.all s.elements.isFixed
  let rigid : Nat := if s.elements.elements.any (·.fixed) then 0 else min (2 * movable) 3
  2 * (movable : Int) - effective - rigid

end Sketch

end RigidSketch
