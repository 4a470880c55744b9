import RigidSketch.Plane.Text
import RigidSketch.Script.NamedSketch

/-! Sketches written as scripts. Of several labels of one point the first names it, and the
others are declared as points that coincide with it. -/

namespace RigidSketch.NamedSketch

/-- The first label of an element, or its identity if it has none. -/
def nameOf (n : NamedSketch) (id : ElementId) : Label :=
  match n.labels.find? (·.2 = id) with
  | some (label, _) => label
  | none => id.text

def declaration (fixed : Bool) (name : Label) (shape : Shape Float) : String :=
  (if fixed then "fixed " else "") ++ shape.kind.name ++ " " ++ name ++ " " ++ shape.text

def aliases (n : NamedSketch) : List (Label × ElementId) :=
  n.labels.filter fun (label, id) => n.nameOf id ≠ label

def aliasDeclaration? (n : NamedSketch) (a : Label × ElementId) : Option String :=
  match n.sketch.elements.get? a.2 with
  | some e =>
    match e.shape with
    | .point p => some (declaration false a.1 (.point p))
    | .line _ => none
  | none => none

def pairText (first second : Label) : String := "(" ++ first ++ ", " ++ second ++ ")"

def constraintText (n : NamedSketch) (c : Constraint) : String :=
  c.kind.name ++ pairText (n.nameOf c.first) (n.nameOf c.second) ++ " = " ++ Decimal.text c.value

def scriptLines (n : NamedSketch) : List String :=
  ["# elements"] ++
    n.sketch.elements.elements.map (fun e => declaration e.fixed (n.nameOf e.id) e.shape) ++
    n.aliases.filterMap n.aliasDeclaration? ++
    ["", "# constraints"] ++
    n.sketch.constraints.constraints.map n.constraintText ++
    n.aliases.map fun a => "coincident" ++ pairText (n.nameOf a.2) a.1

def toScript (n : NamedSketch) : String := String.join (n.scriptLines.map (· ++ "\n"))

end RigidSketch.NamedSketch
