import RigidSketch.Cluster
import RigidSketch.Pairs
import RigidSketch.Placement

/-! Realization of a cluster: its elements are placed one growth step after the other, and
then the whole is moved to where its fixed elements belong. -/

namespace RigidSketch

namespace Cluster

/-- Places the two elements of the seed. A fixed element stays put if the other is free. -/
def placeSeed (k : Cluster) (cs : ConstraintTable) (t : ElementTable) (id : ConstraintId) :
    Except Status ElementTable :=
  match cs.get? id with
  | none => .error .unconverged
  | some c =>
    let (keeper, mover) :=
      if t.isFixed c.second && !t.isFixed c.first then (c.second, c.first) else (c.first, c.second)
    match t.shapeIn? k.id keeper, t.shapeIn? k.id mover with
    | some g, some h =>
      match Placement.beside? c.kind c.value g h with
      | some placed => .ok (t.setShapeIn k.id mover placed)
      | none => .error .unconverged
    | _, _ => .error .unconverged

/-- What a constraint says of one of its ends, the other one being placed. -/
def tie? (k : Cluster) (cs : ConstraintTable) (t : ElementTable) (e : ElementId)
    (id : ConstraintId) : Option (Tie Float) := do
  let c ← cs.get? id
  let known ← t.shapeIn? k.id (← c.other? e)
  return ⟨c.kind, c.value, known⟩

def placeElement (k : Cluster) (tolerance : Float) (cs : ConstraintTable) (t : ElementTable)
    (e : ElementId) (c₁ c₂ : ConstraintId) : Except Status ElementTable :=
  match t.shapeIn? k.id e, k.tie? cs t e c₁, k.tie? cs t e c₂ with
  | some prior, some tie₁, some tie₂ =>
    match Placement.place tolerance prior tie₁ tie₂ with
    | .ok placed => .ok (t.setShapeIn k.id e placed)
    | .error err => .error err.status
  | _, _, _ => .error .unconverged

def placeStep (k : Cluster) (tolerance : Float) (cs : ConstraintTable) (t : ElementTable) :
    GrowthStep → Except Status ElementTable
  | .seed c => k.placeSeed cs t c
  | .place e c₁ c₂ => k.placeElement tolerance cs t e c₁ c₂

/-- Takes steps until one fails. What was placed by then stays placed. -/
def placeSteps (k : Cluster) (tolerance : Float) (cs : ConstraintTable) :
    List GrowthStep → ElementTable → ElementTable × Status
  | [], t => (t, .solved)
  | step :: rest, t =>
    match k.placeStep tolerance cs t step with
    | .ok t => k.placeSteps tolerance cs rest t
    | .error status => (t, status)

/-- The fixed elements of the cluster, each as the cluster sees it and as it is. -/
def anchors (k : Cluster) (t : ElementTable) : List (Shape Float × Shape Float) :=
  k.elements.toList.filterMap fun id =>
    match t.get? id with
    | some e => if e.fixed then some (e.shapeIn k.id, e.shape) else none
    | none => none

def fixedAgree (k : Cluster) (tolerance : Float) (t : ElementTable) : Bool :=
  (k.anchors t).all fun a => a.2.isClose tolerance a.1

/-- A motion that takes the first shapes to the second ones: by the first pair that
determines it, else by the first shape alone. -/
def anchorMotion? (tolerance : Float) (anchors : List (Shape Float × Shape Float)) :
    Option (Motion Float) :=
  let byPair := (pairs anchors).findSome? fun (a, b) =>
    (Motion.fit tolerance (a.1, b.1) (a.2, b.2)).toOption
  byPair.or (anchors.head?.bind fun a => Motion.align? a.1 a.2)

def anchor (k : Cluster) (tolerance : Float) (t : ElementTable) : ElementTable × Status :=
  if (k.anchors t).isEmpty then (t, .solved)
  else
    match anchorMotion? tolerance (k.anchors t) with
    | none => (t, .overconstrained)
    | some m =>
      let t := k.move m t
      (t, if k.fixedAgree tolerance t then .solved else .overconstrained)

def realize (k : Cluster) (tolerance : Float) (cs : ConstraintTable) (t : ElementTable) :
    ElementTable × Status :=
  match k.placeSteps tolerance cs k.steps t with
  | (t, .solved) => k.anchor tolerance t
  | failed => failed

end Cluster

def realizeAll (tolerance : Float) (cs : ConstraintTable) :
    List Cluster → ElementTable → ElementTable × Status
  | [], t => (t, .solved)
  | k :: rest, t =>
    match k.realize tolerance cs t with
    | (t, .solved) => realizeAll tolerance cs rest t
    | failed => failed

end RigidSketch
