import RigidSketch.Relation
import RigidSketch.Script.Numeral

/-! Statements of the sketch language, one to a line: declarations of points and lines,
distances, angles, and points that coincide. -/

namespace RigidSketch

abbrev Label := String

inductive Statement where
  | point (label : Label) (fixed : Bool) (x y : Float)
  | line (label : Label) (fixed : Bool) (a b c : Float)
  | relate (kind : RelationKind) (first second : Label) (value : Float)
  | coincide (keep remove : Label)
deriving DecidableEq

namespace Statement

open Reader

def isBlank (c : Char) : Bool := c == ' ' || c == '\t'

def isLabelChar (c : Char) : Bool := c.isAlphanum || c == '_'

def blanks : Reader Unit := do
  let _ ← while0 isBlank

def blanks1 : Reader Unit := do
  let _ ← while1 isBlank

def readLabel : Reader Label := do
  return String.ofList (← while1 isLabelChar)

def readNumber : Reader Float := do
  return (← Numeral.read).value

def spaced (w : String) : Reader Unit := do
  blanks
  word w
  blanks

def parenthesized {α : Type} (r : Reader α) : Reader α := do
  word "("
  blanks
  let a ← r
  blanks
  word ")"
  return a

def readLabels : Reader (Label × Label) := parenthesized do
  let first ← readLabel
  spaced ","
  return (first, ← readLabel)

def readRelation (kind : RelationKind) : Reader (Label × Label × Float) := do
  word kind.name
  blanks
  let (first, second) ← readLabels
  spaced "="
  return (first, second, ← readNumber)

def readDistance : Reader Statement := do
  let (first, second, value) ← readRelation .distance
  return .relate .distance first second value

def readUnit : Reader Bool := do
  blanks
  orElse (do word "deg"; return true) (do word "rad"; return false)

def degree : Float := 3.141592653589793 / 180

def readAngle : Reader Statement := do
  let (first, second, value) ← readRelation .angle
  let inDegrees := (← optional readUnit).getD false
  return .relate .angle first second (if inDegrees then value * degree else value)

def readCoincident : Reader Statement := do
  word "coincident"
  blanks
  let (keep, remove) ← readLabels
  return .coincide keep remove

def readDeclared (keyword : String) : Reader Label := do
  word keyword
  blanks1
  let label ← readLabel
  blanks
  return label

def readPoint (fixed : Bool) : Reader Statement := do
  let label ← readDeclared "point"
  parenthesized do
    let x ← readNumber
    spaced ","
    return .point label fixed x (← readNumber)

def readLine (fixed : Bool) : Reader Statement := do
  let label ← readDeclared "line"
  parenthesized do
    let a ← readNumber
    spaced ","
    let b ← readNumber
    spaced ","
    return .line label fixed a b (← readNumber)

def readDeclaration : Reader Statement := do
  let fixed ← optional do
    word "fixed"
    blanks1
  orElse (readPoint fixed.isSome) (readLine fixed.isSome)

def read : Reader Statement :=
  orElse readDistance (orElse readAngle (orElse readCoincident readDeclaration))

/-- The statement that a whole text is, or what is left of the text where reading stops. -/
def ofChars (cs : List Char) : Except (List Char) Statement :=
  match read cs with
  | .ok (s, []) => .ok s
  | .ok (_, rest) => .error rest
  | .error rest => .error rest

end Statement

end RigidSketch
