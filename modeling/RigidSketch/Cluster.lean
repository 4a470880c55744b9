import RigidSketch.Constraint
import RigidSketch.OrderedSet

/-! Clusters: groups of elements that are rigid together, with the order in which their
elements are placed. -/

namespace RigidSketch

inductive GrowthStep where
  /-- The first two elements, placed by the constraint between them. -/
  | seed (c : ConstraintId)
  /-- An element placed by two constraints to elements before it. -/
  | place (e : ElementId) (c₁ c₂ : ConstraintId)
deriving DecidableEq

structure Cluster where
  id : ClusterId
  elements : OrderedSet ElementId
  constraints : OrderedSet ConstraintId
  steps : List GrowthStep
deriving DecidableEq

namespace Cluster

def shared (k l : Cluster) : List ElementId := k.elements.toList.filter (· ∈ l.elements)

def hasFixed (k : Cluster) (t : ElementTable) : Bool := k.elements.toList.any t.isFixed

def encloses (k : Cluster) (c : Constraint) : Bool :=
  decide (c.first ∈ k.elements) && decide (c.second ∈ k.elements)

/-- Moves the elements of the cluster, as the cluster sees them. -/
def move (k : Cluster) (m : Motion Float) (t : ElementTable) : ElementTable :=
  t.mapWhere (· ∈ k.elements) (·.moveIn k.id m)

end Cluster

end RigidSketch
