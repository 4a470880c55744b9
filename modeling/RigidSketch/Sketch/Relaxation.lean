import RigidSketch.LeastSquares.Descent
import RigidSketch.Sketch.Join.SharedPair

/-! Joining of the remaining clusters by least squares. The elements that link clusters are
the unknowns; each cluster keeps them as it has them, each free constraint is an equation,
and then each cluster is moved rigidly onto the result. -/

namespace RigidSketch

open LeastSquares

namespace Sketch

/-- The elements that link clusters: those in several clusters, the ends of free
constraints, and the fixed ones. -/
def linking (s : Sketch) : OrderedSet ElementId :=
  let shared := (s.elements.elements.filter fun e => 1 < e.owners.length).map (·.id)
  let ends := s.free.toList.flatMap fun id =>
    match s.constraints.get? id with
    | some c => c.ends
    | none => []
  let fixed := s.clusters.flatMap fun k => k.elements.toList.filter s.elements.isFixed
  .ofList (shared ++ ends ++ fixed)

/-- Each cluster with the linking elements in it. Every cluster needs two of them. -/
def linkMembers? (s : Sketch) : Option (List (Cluster × List ElementId)) :=
  let linking := s.linking
  s.clusters.mapM fun k =>
    let members := k.elements.toList.filter (· ∈ linking)
    if members.length < 2 then none else some (k, members)

/-- Where an unknown starts: as its first owner sees it. -/
def startShape (e : Element) : Shape Float :=
  match e.owners with
  | k :: _ => e.shapeIn k
  | [] => e.shape

def keepPair (s : Sketch) (ids : List ElementId) (k : Cluster) (sys : System Float)
    (p : ElementId × ElementId) : Option (System Float) := do
  if s.elements.isFixed p.1 && s.elements.isFixed p.2 then return sys
  let g ← s.shapeIn? k.id p.1
  let h ← s.shapeIn? k.id p.2
  let (kind, value) := g.measure h
  return sys.relate kind (ids.idxOf p.1) (ids.idxOf p.2) value g h

/-- The equation of a free constraint. An angle takes the sign that it is closer to. -/
def relateFree (s : Sketch) (ids : List ElementId) (sys : System Float) (id : ConstraintId) :
    Option (System Float) := do
  let c ← s.constraints.get? id
  let g := startShape (← s.elements.get? c.first)
  let h := startShape (← s.elements.get? c.second)
  let value :=
    match c.kind with
    | .distance => c.value
    | .angle =>
      let actual := (g.measure h).2
      if (Turn.wrapHalf (actual - c.value)).abs ≤ (Turn.wrapHalf (actual + c.value)).abs then
        c.value
      else -c.value
  return sys.relate c.kind (ids.idxOf c.first) (ids.idxOf c.second) value g h

def linkSystem? (s : Sketch) (members : List (Cluster × List ElementId)) :
    Option (System Float) := do
  let ids := s.linking.toList
  let unknowns ← ids.foldlM (fun (sys : System Float) id => do
    let e ← s.elements.get? id
    return sys.add id (startShape e) e.fixed) {}
  let kept ← members.foldlM (fun sys (k, inside) =>
    (pairs inside).foldlM (s.keepPair ids k) sys) unknowns
  s.free.toList.foldlM (s.relateFree ids) kept

def solvedShapes (sys : System Float) (x : Array Float) : List (ElementId × Shape Float) :=
  sys.elements.zipIdx.filterMap fun (id, i) => (sys.shape? (fun i => x.getD i 0) i).map (id, ·)

def landsOn (s : Sketch) (target : ElementId → Option (Shape Float)) (k : Cluster)
    (members : List ElementId) (move : Shape Float → Shape Float) : Bool :=
  members.all fun e =>
    match s.shapeIn? k.id e, target e with
    | some g, some h => (move g).isClose s.tolerance h
    | _, _ => false

/-- The motion of a cluster by the first two members that determine it. -/
def linkMotion? (s : Sketch) (target : ElementId → Option (Shape Float)) (k : Cluster)
    (members : List ElementId) : Option (Motion Float) :=
  ((pairsByLines target members).findSome? fun p => do
    let (source, image) ← pairShapes? (s.shapeIn? k.id) target p
    (Motion.fit s.tolerance source image).toOption).map fun m =>
      ([m, m.halfTurned].find? fun m => s.landsOn target k members m.move).getD m

def moveOnto (target : ElementId → Option (Shape Float)) :
    List (Cluster × List ElementId) → Sketch → Sketch × Status
  | [], s => (s, .solved)
  | (k, members) :: rest, s =>
    match s.linkMotion? target k members with
    | none => (s, .unconverged)
    | some m =>
      let s := s.moveCluster k.id m
      if s.landsOn target k members id then moveOnto target rest s else (s, .unconverged)

/-- Joins all clusters into the first, which also takes the constraints that were free. -/
def joinIntoFirst (s : Sketch) : Sketch :=
  match s.clusters with
  | [] => s
  | first :: rest =>
    let joined := rest.foldl (fun s k => s.absorb first.id k.id []) s
    { joined with
      free := joined.free.eraseAll s.free.toList
      clusters := joined.clusters.map fun k =>
        if k.id = first.id then
          { k with constraints := k.constraints.insertAll s.free.toList }
        else k }

/-- Elements outside every cluster take the place that the solution gives them. -/
def placeLoose (target : ElementId → Option (Shape Float)) (e : Element) : Element :=
  if e.isClaimed || e.fixed then e
  else
    match target e.id with
    | some g => { e with shape := g }
    | none => e

section

variable (solver : LinearSolver) (s : Sketch)

/-- The clusters with their linking elements, and where least squares puts these. -/
def relaxation? :
    Option (List (Cluster × List ElementId) × (ElementId → Option (Shape Float))) := do
  let members ← s.linkMembers?
  let sys ← s.linkSystem? members
  let x ← (sys.solve solver s.settings).toOption
  let shapes := solvedShapes sys x
  return (members, fun e => shapes.lookup e)

def relax : Sketch × Status :=
  match s.relaxation? solver with
  | none => (s, .unconverged)
  | some (members, target) =>
    match moveOnto target members s with
    | (s, .solved) =>
      (joinIntoFirst { s with elements := s.elements.map (placeLoose target) }, .solved)
    | failed => failed

end

end Sketch

end RigidSketch
