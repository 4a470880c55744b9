import RigidSketch.Sketch.Join.Basic

/-! Joining clusters that share one element and are linked by a free constraint. The moving
cluster turns about the shared element until the link holds. -/

namespace RigidSketch

namespace Sketch

/-- A shared element with a link between the clusters that share it. -/
structure Hinge where
  anchor : ClusterId
  moving : ClusterId
  shared : ElementId
  link : ConstraintId

/-- The moving end of the link is placed by its relation to the shared element and by the
link. There is no plan if these cannot place it. -/
def hingePlan? (s : Sketch) (h : Hinge) : Option JoinPlan := do
  let c ← s.constraints.get? h.link
  let (near, far) := linkEnds (← s.cluster? h.anchor) c
  let target ← s.shapeIn? h.anchor h.shared
  let start ← s.shapeIn? h.moving h.shared
  let mover ← s.shapeIn? h.moving far
  let known ← s.shapeIn? h.anchor near
  let (kind, value) := start.measure mover
  guard (Placement.supports mover.kind kind c.kind)
  let align ← Motion.align? start target
  return ⟨align, far, ⟨kind, value, target⟩, ⟨c.kind, c.value, known⟩⟩

def turnHinged (h : Hinge) (p : JoinPlan) (s : Sketch) : Sketch × Option JoinOutcome :=
  match s.shapeIn? h.moving p.mover, s.shapeIn? h.moving h.shared with
  | some prior, some start =>
    match Placement.place s.tolerance prior p.kept p.asked with
    | .error e => (s, some (.failed e.status))
    | .ok placed =>
      match Motion.fit s.tolerance (start, prior) (p.kept.known, placed) with
      | .error _ => (s, some (.failed .unconverged))
      | .ok m =>
        let s := s.moveCluster h.moving m
        if s.agree h.shared h.anchor h.moving && s.linkHolds h.link h.anchor h.moving &&
            s.fixedAgree h.moving then
          (s.absorb h.anchor h.moving [h.link], some .joined)
        else (s, some (.failed .unconverged))
  | _, _ => (s, none)

def joinHinged (h : Hinge) (s : Sketch) : Sketch × Option JoinOutcome :=
  match s.hingePlan? h with
  | some p => turnHinged h p (s.moveCluster h.moving p.align)
  | none => (s, none)

/-- The hinges between two clusters, not both of which hold fixed elements. -/
def hinges (s : Sketch) (k l : Cluster) : List Hinge :=
  match k.shared l with
  | [shared] =>
    if s.hasFixed k && s.hasFixed l then []
    else
      let (anchor, moving) := s.anchorOrder k l
      (s.linksBetween k l).map fun link => { anchor, moving, shared, link }
  | _ => []

def trySharedOne (s : Sketch) : Sketch × Option JoinOutcome :=
  firstOutcome joinHinged ((pairs s.clusters).flatMap fun (k, l) => s.hinges k l) s

end Sketch

end RigidSketch
