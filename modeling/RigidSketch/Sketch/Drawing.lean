import RigidSketch.Plane.Text
import RigidSketch.Sketch.Basic

/-! A sketch drawn as a graph in DOT text. Elements are nodes and constraints are edges, and
each cluster is a subgraph; free constraints are dashed and conflicting ones red. -/

namespace RigidSketch

def Cluster.drawing (k : Cluster) : List String :=
  ["  subgraph cluster_" ++ toString k.id.number ++ " \x7b",
    "    label=\"" ++ k.id.text ++ "\";"] ++
    k.elements.toList.map (fun e => "    " ++ e.text ++ ";") ++ ["  \x7d"]

def Element.drawing (e : Element) : String :=
  "  " ++ e.id.text ++ " [label=\"" ++ e.id.text ++ " " ++ e.shape.kind.name ++ " " ++
    e.shape.text ++ "\", shape=" ++ (if e.fixed then "box" else "ellipse") ++ "];"

namespace Sketch

def edgeDrawing (s : Sketch) (c : Constraint) : String :=
  "  " ++ c.first.text ++ " -- " ++ c.second.text ++ " [label=\"" ++ c.id.text ++ " " ++
    c.kind.name ++ " " ++ Decimal.text c.value ++ "\"" ++
    (if c.id ∈ s.free then ", style=dashed" else "") ++
    (if c.id ∈ s.conflicting then ", color=red" else "") ++ "];"

def drawing (s : Sketch) : String :=
  let lines := ["graph constraints \x7b"] ++ s.clusters.flatMap (·.drawing) ++
    s.elements.elements.map (·.drawing) ++ s.constraints.constraints.map s.edgeDrawing ++ ["\x7d"]
  String.join (lines.map (· ++ "\n"))

end Sketch

end RigidSketch
