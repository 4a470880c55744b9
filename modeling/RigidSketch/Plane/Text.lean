import RigidSketch.Decimal.Positional
import RigidSketch.Plane.Shape

/-! Shapes as text: coordinates or coefficients in parentheses. -/

namespace RigidSketch

def Vec.text (p : Vec Float) : String :=
  "(" ++ Decimal.text p.x ++ ", " ++ Decimal.text p.y ++ ")"

def Line.text (l : Line Float) : String :=
  "(" ++ Decimal.text l.a ++ ", " ++ Decimal.text l.b ++ ", " ++ Decimal.text l.c ++ ")"

def Shape.text : Shape Float → String
  | .point p => p.text
  | .line l => l.text

end RigidSketch
