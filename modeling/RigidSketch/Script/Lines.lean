import RigidSketch.Script.Blank
import RigidSketch.Script.NamedSketch

/-! Scripts: texts with a statement on each line that is neither blank nor a comment. -/

namespace RigidSketch.NamedSketch

def byteLength : List Char → Nat
  | [] => 0
  | c :: cs => c.utf8Size + byteLength cs

/-- Runs one line, given without white space at its ends. -/
def runLine (n : NamedSketch) (cs : List Char) : Except LineError NamedSketch :=
  if cs.isEmpty || cs.head? = some '#' then .ok n
  else
    match Statement.ofChars cs with
    | .ok statement => n.execute statement
    | .error rest =>
      .error (.malformed (String.ofList cs) (byteLength cs - byteLength rest))

def runLines : Nat → List (List Char) → NamedSketch → Except ScriptError NamedSketch
  | _, [], n => .ok n
  | number, line :: rest, n =>
    match n.runLine (trimWhite line) with
    | .ok n => runLines (number + 1) rest n
    | .error cause => .error ⟨number, cause⟩

def ofScript (text : String) : Except ScriptError NamedSketch :=
  runLines 1 (splitLines text.toList) {}

end RigidSketch.NamedSketch
