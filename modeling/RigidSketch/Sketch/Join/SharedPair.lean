import RigidSketch.Sketch.Join.Basic

/-! Joining clusters that share two elements or more. Two shared elements determine the
motion, and the others have to follow it. -/

namespace RigidSketch

/-- The first motion that carries a pair onto its image. If there is none, a mismatch of
any pair counts before degeneracy. -/
def firstFit (tolerance : Float) :
    List ((Shape Float × Shape Float) × (Shape Float × Shape Float)) →
      Except FitError (Motion Float)
  | [] => .error .degenerate
  | (g, h) :: rest =>
    match Motion.fit tolerance g h with
    | .ok m => .ok m
    | .error .mismatch =>
      match firstFit tolerance rest with
      | .ok m => .ok m
      | .error _ => .error .mismatch
    | .error .degenerate => firstFit tolerance rest

/-- Pairs of elements, those with fewer lines first: points determine a motion best. -/
def pairsByLines (shape? : ElementId → Option (Shape Float)) (es : List ElementId) :
    List (ElementId × ElementId) :=
  let lines (p : ElementId × ElementId) : Nat :=
    [p.1, p.2].countP fun e =>
      match shape? e with
      | some (.line _) => true
      | _ => false
  [0, 1, 2].flatMap fun n => (pairs es).filter (lines · = n)

def pairShapes? (source target : ElementId → Option (Shape Float)) (p : ElementId × ElementId) :
    Option ((Shape Float × Shape Float) × (Shape Float × Shape Float)) := do
  let a ← source p.1
  let b ← source p.2
  let a' ← target p.1
  let b' ← target p.2
  return ((a, b), (a', b'))

namespace Sketch

/-- The motion that takes shared elements from where one cluster sees them to where the
anchor does. -/
def sharingMotion (s : Sketch) (anchor moving : ClusterId) (shared : List ElementId) :
    Except FitError (Motion Float) :=
  let candidates := (pairsByLines (s.shapeIn? anchor) shared).filterMap
    (pairShapes? (s.shapeIn? moving) (s.shapeIn? anchor))
  (firstFit s.tolerance candidates).map fun m =>
    ([m, m.halfTurned].find? (s.carries · moving anchor shared)).getD m

/-- Moves one cluster so that it sees the shared elements where the anchor does. There is
no outcome if no two of them determine the motion. -/
def joinSharing (s : Sketch) (anchor moving : ClusterId) (shared : List ElementId) :
    Sketch × Option JoinOutcome :=
  match s.sharingMotion anchor moving shared with
  | .error .mismatch => (s, some (.failed .overconstrained))
  | .error .degenerate => (s, none)
  | .ok m =>
    let s := s.moveCluster moving m
    if shared.all (s.agree · anchor moving) && s.fixedAgree moving then
      (s.absorb anchor moving [], some .joined)
    else (s, some (.failed .overconstrained))

def sharingPairs (s : Sketch) : List (Cluster × Cluster) :=
  (pairs s.clusters).filter fun (k, l) => 2 ≤ (k.shared l).length

def joinPair (p : Cluster × Cluster) (s : Sketch) : Sketch × Option JoinOutcome :=
  let (anchor, moving) := s.anchorOrder p.1 p.2
  s.joinSharing anchor moving (p.1.shared p.2)

def trySharedPair (s : Sketch) : Sketch × Option JoinOutcome :=
  firstOutcome joinPair s.sharingPairs s

end Sketch

end RigidSketch
