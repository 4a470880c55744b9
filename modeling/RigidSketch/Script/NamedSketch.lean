import RigidSketch.Script.Statement
import RigidSketch.Sketch.Edit

/-! Sketches whose elements have labels, and the statements that build them. -/

namespace RigidSketch

structure NamedSketch where
  sketch : Sketch := {}
  /-- Labels in the order of their declaration. -/
  labels : List (Label × ElementId) := []
deriving DecidableEq

inductive LineError where
  /-- Reading stopped at a byte of the line. -/
  | malformed (text : String) (offset : Nat)
  | undeclared (label : Label)
  | redeclared (label : Label)
  | refused (error : EditError)
deriving DecidableEq

structure ScriptError where
  line : Nat
  cause : LineError
deriving DecidableEq

/-- A malformed line is shown with a mark under the place where reading stopped. -/
def LineError.message : LineError → String
  | malformed text offset =>
    "could not parse `" ++ text ++ "`: " ++ text ++ "\n" ++
      String.ofList (List.replicate offset ' ') ++ "^\n"
  | undeclared label => "`" ++ label ++ "` was never declared"
  | redeclared label => "`" ++ label ++ "` was already declared"
  | refused error => error.message

def ScriptError.message (e : ScriptError) : String :=
  "Line " ++ toString e.line ++ ": " ++ e.cause.message

namespace NamedSketch

def id? (n : NamedSketch) (label : Label) : Option ElementId := n.labels.lookup label

def lookup (n : NamedSketch) (label : Label) : Except LineError ElementId :=
  match n.id? label with
  | some id => .ok id
  | none => .error (.undeclared label)

def declare (n : NamedSketch) (label : Label) (r : Sketch × ElementId) : NamedSketch :=
  { sketch := r.1, labels := n.labels ++ [(label, r.2)] }

def checkNew (n : NamedSketch) (label : Label) : Except LineError Unit :=
  if (n.id? label).isSome then .error (.redeclared label) else .ok ()

def refuse {α : Type} : Except EditError α → Except LineError α
  | .ok a => .ok a
  | .error e => .error (.refused e)

def execute (n : NamedSketch) : Statement → Except LineError NamedSketch
  | .point label fixed x y => do
    n.checkNew label
    return n.declare label (n.sketch.addPoint fixed x y)
  | .line label fixed a b c => do
    n.checkNew label
    return n.declare label (← refuse (n.sketch.addLine fixed a b c))
  | .relate kind first second value => do
    let e ← n.lookup first
    let f ← n.lookup second
    let (sketch, _) ← refuse (n.sketch.constrain kind e f value)
    return { n with sketch }
  | .coincide keep remove => do
    let e ← n.lookup keep
    let f ← n.lookup remove
    let sketch ← refuse (n.sketch.combine e f)
    return { sketch, labels := n.labels.map fun (l, id) => (l, if id = f then e else id) }

end NamedSketch

end RigidSketch
