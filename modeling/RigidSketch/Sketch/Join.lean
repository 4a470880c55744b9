import RigidSketch.Sketch.Join.Linked
import RigidSketch.Sketch.Join.SharedOne
import RigidSketch.Sketch.Join.SharedPair
import RigidSketch.Sketch.Join.Triangle

/-! Joining of clusters into larger ones, by the first pattern that applies. -/

namespace RigidSketch.Sketch

def joinOnce (s : Sketch) : Sketch × Option JoinOutcome :=
  firstOutcome (fun attempt s => attempt s) [trySharedPair, trySharedOne, tryTriangle, tryLinked] s

def joinRounds : Nat → Sketch → Sketch × Status
  | 0, s => (s, .solved)
  | rounds + 1, s =>
    if s.clusters.length ≤ 1 then (s, .solved)
    else
      match s.joinOnce with
      | (s, some .joined) => joinRounds rounds s
      | (s, some (.failed status)) => (s, status)
      | (s, none) => (s, .solved)

/-- Joins clusters until one is left or no pattern applies. Each join leaves fewer clusters,
so there are no more rounds than clusters. -/
def joinAll (s : Sketch) : Sketch × Status := joinRounds s.clusters.length s

end RigidSketch.Sketch
