import RigidSketch.Sketch.Join.Basic

/-! Joining three clusters of which each two share one element. The three shared elements
form a triangle whose sides the clusters know. -/

namespace RigidSketch

def triples {α : Type} : List α → List (α × α × α)
  | [] => []
  | a :: rest => (pairs rest).map (a, ·) ++ triples rest

namespace Sketch

/-- Three clusters and the elements that they share in turn. The first stays put. -/
structure Triangle where
  a : ClusterId
  b : ClusterId
  c : ClusterId
  ab : ElementId
  bc : ElementId
  ca : ElementId

/-- The element shared by the two moving clusters is placed by its relations to the other
two shared elements. There is no plan if these cannot place it. -/
def trianglePlan? (s : Sketch) (t : Triangle) : Option JoinPlan := do
  let abInB ← s.shapeIn? t.b t.ab
  let bcInB ← s.shapeIn? t.b t.bc
  let (kindB, valueB) := abInB.measure bcInB
  let (kindC, valueC) := (← s.shapeIn? t.c t.ca).measure (← s.shapeIn? t.c t.bc)
  guard (Placement.supports bcInB.kind kindB kindC)
  let ab ← s.shapeIn? t.a t.ab
  let ca ← s.shapeIn? t.a t.ca
  let align ← Motion.align? abInB ab
  return ⟨align, t.bc, ⟨kindB, valueB, ab⟩, ⟨kindC, valueC, ca⟩⟩

def triangleMotions? (s : Sketch) (t : Triangle) (p : JoinPlan) (prior placed : Shape Float) :
    Option (Except FitError (Motion Float × Motion Float)) := do
  let abInB ← s.shapeIn? t.b t.ab
  let caInC ← s.shapeIn? t.c t.ca
  let bcInC ← s.shapeIn? t.c t.bc
  return do
    let m ← Motion.fit s.tolerance (abInB, prior) (p.kept.known, placed)
    let n ← Motion.fit s.tolerance (caInC, bcInC) (p.asked.known, placed)
    return (m, n)

def closeTriangle (t : Triangle) (p : JoinPlan) (s : Sketch) : Sketch × Option JoinOutcome :=
  match s.shapeIn? t.b t.bc with
  | none => (s, none)
  | some prior =>
    match Placement.place s.tolerance prior p.kept p.asked with
    | .error e => (s, some (.failed e.status))
    | .ok placed =>
      match s.triangleMotions? t p prior placed with
      | none => (s, none)
      | some (.error _) => (s, some (.failed .unconverged))
      | some (.ok (m, n)) =>
        let s := (s.moveCluster t.b m).moveCluster t.c n
        if s.agree t.ab t.a t.b && s.agree t.bc t.b t.c && s.agree t.ca t.c t.a &&
            s.fixedAgree t.b && s.fixedAgree t.c then
          ((s.absorb t.a t.b []).absorb t.a t.c [], some .joined)
        else (s, some (.failed .unconverged))

def joinTriangle (t : Triangle) (s : Sketch) : Sketch × Option JoinOutcome :=
  match s.trianglePlan? t with
  | some p => closeTriangle t p (s.moveCluster t.b p.align)
  | none => (s, none)

/-- The triangle of three clusters, at most one of which holds fixed elements. That one is
the anchor, else the first. -/
def triangle? (s : Sketch) (i j k : Cluster) : Option Triangle :=
  if 1 < [i, j, k].countP s.hasFixed then none
  else
    let (a, b, c) :=
      if s.hasFixed j then (j, k, i) else if s.hasFixed k then (k, i, j) else (i, j, k)
    match a.shared b, b.shared c, c.shared a with
    | [ab], [bc], [ca] =>
      if ab = bc ∨ bc = ca ∨ ca = ab then none
      else some ⟨a.id, b.id, c.id, ab, bc, ca⟩
    | _, _, _ => none

def tryTriangle (s : Sketch) : Sketch × Option JoinOutcome :=
  firstOutcome joinTriangle ((triples s.clusters).filterMap fun (i, j, k) => s.triangle? i j k) s

end Sketch

end RigidSketch
