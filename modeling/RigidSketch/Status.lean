/-! The outcome of solving. When parts of a solve report different outcomes, the most
severe one stands for the whole. -/

namespace RigidSketch

inductive Status where
  | pending
  | solved
  /-- Some elements are free, and all that was placed is consistent. -/
  | underconstrained
  /-- Some constraint was not met, though the constraints may be consistent. -/
  | unconverged
  /-- The constraints contradict each other. -/
  | overconstrained
deriving DecidableEq

namespace Status

def severity : Status → Nat
  | pending => 0
  | solved => 1
  | underconstrained => 2
  | unconverged => 3
  | overconstrained => 4

def worst (s t : Status) : Status := if s.severity < t.severity then t else s

def isSolved (s : Status) : Bool := s = solved

def isConsistent (s : Status) : Bool := s = solved ∨ s = underconstrained

def text : Status → String
  | pending => "not solved"
  | solved => "solved"
  | underconstrained => "underconstrained"
  | unconverged => "did not converge"
  | overconstrained => "overconstrained"

end Status

end RigidSketch
