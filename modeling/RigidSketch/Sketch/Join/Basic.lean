import RigidSketch.Realization
import RigidSketch.Sketch.Basic

/-! Joining two clusters. One of them, the anchor, stays put and takes over what the moving
one holds. -/

namespace RigidSketch

inductive JoinOutcome where
  | joined
  /-- The clusters cannot be brought together. -/
  | failed (status : Status)
deriving DecidableEq

/-- How an element of the moving cluster is to be placed once that cluster is aligned with
the anchor: by a tie that the cluster keeps and by one that it is asked to meet. -/
structure JoinPlan where
  align : Motion Float
  mover : ElementId
  kept : Tie Float
  asked : Tie Float

namespace Sketch

def hasFixed (s : Sketch) (k : Cluster) : Bool := k.hasFixed s.elements

/-- The anchor and the moving one of two clusters: the second is the anchor only if it
alone holds fixed elements. -/
def anchorOrder (s : Sketch) (k l : Cluster) : ClusterId × ClusterId :=
  if s.hasFixed l && !s.hasFixed k then (l.id, k.id) else (k.id, l.id)

def shapeIn? (s : Sketch) (k : ClusterId) (e : ElementId) : Option (Shape Float) :=
  s.elements.shapeIn? k e

def moveCluster (s : Sketch) (k : ClusterId) (m : Motion Float) : Sketch :=
  match s.cluster? k with
  | some c => { s with elements := c.move m s.elements }
  | none => s

def fixedAgree (s : Sketch) (k : ClusterId) : Bool :=
  match s.cluster? k with
  | some c => c.fixedAgree s.tolerance s.elements
  | none => false

def agree (s : Sketch) (e : ElementId) (k l : ClusterId) : Bool :=
  match s.shapeIn? k e, s.shapeIn? l e with
  | some g, some h => g.isClose s.tolerance h
  | _, _ => false

/-- Whether a motion takes elements from where one cluster sees them to where another does. -/
def carries (s : Sketch) (m : Motion Float) (k l : ClusterId) (es : List ElementId) : Bool :=
  es.all fun e =>
    match s.shapeIn? k e, s.shapeIn? l e with
    | some g, some h => (m.move g).isClose s.tolerance h
    | _, _ => false

/-- An element as the anchor sees it, or as the moving cluster does if the anchor does not
hold it. -/
def shapeAcross? (s : Sketch) (anchor moving : ClusterId) (e : ElementId) :
    Option (Shape Float) :=
  let inAnchor :=
    match s.cluster? anchor with
    | some k => decide (e ∈ k.elements)
    | none => false
  s.shapeIn? (if inAnchor then anchor else moving) e

def linkHolds (s : Sketch) (link : ConstraintId) (anchor moving : ClusterId) : Bool :=
  s.isMet (s.residualBy (s.shapeAcross? anchor moving) link)

/-- Free constraints with one end in each of two clusters and no end in both. -/
def linksBetween (s : Sketch) (k l : Cluster) : List ConstraintId :=
  let only (e : ElementId) (k l : Cluster) : Bool := e ∈ k.elements && e ∉ l.elements
  s.free.toList.filter fun id =>
    match s.constraints.get? id with
    | some c => (only c.first k l && only c.second l k) || (only c.first l k && only c.second k l)
    | none => false

def linkEnds (anchor : Cluster) (c : Constraint) : ElementId × ElementId :=
  if c.first ∈ anchor.elements then (c.first, c.second) else (c.second, c.first)

/-- Gives all that one cluster holds to another, with the links that joined them. Free
constraints that come to lie inside are conflicting if they are not satisfied there. -/
def absorb (s : Sketch) (anchor moving : ClusterId) (links : List ConstraintId) : Sketch :=
  match s.cluster? moving with
  | none => s
  | some gone =>
    let s := { s with
      clusters := s.clusters.eraseP (·.id = moving)
      elements := s.elements.mapWhere (· ∈ gone.elements) (·.reassign moving anchor)
      free := s.free.eraseAll links }
    match s.cluster? anchor with
    | none => s
    | some k =>
      let k := { k with
        elements := k.elements.insertAll gone.elements.toList
        constraints := (k.constraints.insertAll gone.constraints.toList).insertAll links }
      let inside := s.inside k
      let unmet := inside.filter fun id => !s.isMet (s.residualBy (s.shapeIn? anchor) id)
      let k := { k with constraints := k.constraints.insertAll inside }
      { s with
        clusters := s.clusters.map fun l => if l.id = anchor then k else l
        free := s.free.eraseAll inside
        conflicting := s.conflicting.insertAll unmet }

/-- Makes attempts one after the other up to the first that has an outcome. -/
def firstOutcome {α : Type} (attempt : α → Sketch → Sketch × Option JoinOutcome) :
    List α → Sketch → Sketch × Option JoinOutcome
  | [], s => (s, none)
  | a :: rest, s =>
    match attempt a s with
    | (s, none) => firstOutcome attempt rest s
    | found => found

end Sketch

end RigidSketch
