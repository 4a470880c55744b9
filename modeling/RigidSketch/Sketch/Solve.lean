import RigidSketch.LeastSquares.Elimination
import RigidSketch.Sketch.Join
import RigidSketch.Sketch.Partition
import RigidSketch.Sketch.Relaxation

/-! Solving a sketch: it is partitioned into clusters, each cluster is realized, clusters are
joined, and then every constraint is checked. Whatever solves the linear equations of least squares
is a parameter. -/

namespace RigidSketch.Sketch

open LeastSquares

def blame (s : Sketch) (c : Constraint) : Status :=
  if c.ends.any fun e => !s.elements.isClaimed e then .underconstrained
  else if c.id ∈ s.conflicting then .overconstrained
  else .unconverged

def markSolved (s : Sketch) : Sketch :=
  { s with constraints := s.constraints.map fun c =>
      { c with solved := s.isMet (s.residual? c.id) } }

def verdict (s : Sketch) : Status :=
  s.constraints.constraints.foldl
    (fun status c => if c.solved then status else status.worst (s.blame c)) .solved

/-- Records the outcome of a solve. Also after a failure the satisfied constraints are
marked. -/
def finish (s : Sketch) (status : Status) : Sketch × Status :=
  let s := if status.isConsistent then s else s.markSolved
  ({ s with status, edited := false }, status)

def joinClusters (solver : LinearSolver) (s : Sketch) : Sketch × Status :=
  match s.joinAll with
  | (s, .solved) => if 1 < s.clusters.length then s.relax solver else (s, .solved)
  | failed => failed

def realizeClusters (s : Sketch) : Sketch × Status :=
  let (elements, status) := realizeAll s.tolerance s.constraints s.clusters s.elements
  ({ s with elements }, status)

def solveBuilt (solver : LinearSolver) (s : Sketch) : Sketch × Status :=
  let start : Status :=
    if s.elements.elements.all (·.isClaimed) then .solved else .underconstrained
  match s.realizeClusters with
  | (s, .solved) =>
    match s.joinClusters solver with
    | (s, .solved) =>
      let s := { s with elements := s.elements.map (·.settle) }.markSolved
      s.finish (start.worst s.verdict)
    | (s, status) => s.finish status
  | (s, status) => s.finish status

/-- Solves the sketch and tells the outcome. A sketch that was not edited since the last
solve is left as it is. -/
def solve (s : Sketch) (solver : LinearSolver := solveLinear) : Sketch × Status :=
  if !s.edited && s.status ≠ .pending then (s, s.status)
  else (if s.edited then s.reset else s).build.solveBuilt solver

end RigidSketch.Sketch
