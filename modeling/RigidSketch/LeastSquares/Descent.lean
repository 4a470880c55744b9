import RigidSketch.Binary64.Scalar
import RigidSketch.LeastSquares.System
import RigidSketch.Settings

/-! Damped least squares. Each round takes a step that lowers the sum of squares, with as
much damping as that needs. -/

namespace RigidSketch.LeastSquares

inductive DescentError where
  | unconverged
  /-- There are variables but no equations. -/
  | emptySystem
  /-- The linear equations of a step have no solution. -/
  | singular
  /-- The damping was raised too often. -/
  | unfinished
deriving DecidableEq

/-- A way to solve `n` linear equations in `n` variables, each with its right-hand side as
the last entry. Nothing is assumed of the vector that it returns. -/
abbrev LinearSolver := Nat → List (Array Float) → Array Float

def minDamping : Float := 1e-12

def maxDamping : Float := 1e12

/-- How often the damping may be raised in one round. From the smallest positive number to
`maxDamping` it takes 336 times, so that only a round without an end meets this bound. -/
def maxRaises : Nat := Nat.pow 2 62

/-- The largest magnitude, with undefined ones left out. -/
def largest (xs : List Float) : Float := xs.foldl (fun acc x => Scalar.larger acc x.abs) 0

def halfSumSq (xs : List Float) : Float := xs.foldl (fun acc x => acc + x * x) 0 / 2

namespace System

variable (sys : System Float)

def evaluateAll (x : Array Float) : List (Float × Row Float) :=
  sys.equations.flatMap (sys.evaluate fun i => x.getD i 0)

def residuals (x : Array Float) : List Float := (sys.evaluateAll x).map (·.1)

def isSolution (settings : Settings) (x : Array Float) : Bool :=
  largest (sys.residuals x) ≤ settings.residualTolerance

end System

/-- The normal equations `JᵀJ d = -Jᵀr` of a step `d`. -/
def normalEquations (n : Nat) (rows : List (Float × Row Float)) : List (Array Float) :=
  let add (eq : Array Float) (i : Nat) (a : Float) : Array Float := eq.modify i (· + a)
  (rows.foldl (fun (eqs : Array (Array Float)) (r, row) =>
    row.foldl (fun eqs (i, di) => eqs.modify i fun eq =>
      row.foldl (fun eq (j, dj) => add eq j (di * dj)) (add eq n (-(di * r)))) eqs)
    (Array.replicate n (Array.replicate (n + 1) 0))).toList

def damp (damping : Float) (eqs : List (Array Float)) : List (Array Float) :=
  eqs.mapIdx fun i eq => eq.modify i (· + damping)

def addStep (x d : Array Float) : Array Float := x.mapIdx fun i a => a + d.getD i 0

inductive Search where
  | accepted (step : Array Float) (damping : Float)
  | rejected
  | singular
  | unfinished

def search (sys : System Float) (solver : LinearSolver) (x : Array Float)
    (eqs : List (Array Float)) (cost : Float) : Nat → Float → Search
  | 0, _ => .unfinished
  | raises + 1, damping =>
    if damping ≤ maxDamping then
      let d := solver x.size (damp damping eqs)
      if d.any fun v => !v.isFinite then .singular
      else if halfSumSq (sys.residuals (addStep x d)) < cost then .accepted d damping
      else search sys solver x eqs cost raises (damping * 10)
    else .rejected

def descend (sys : System Float) (solver : LinearSolver) (settings : Settings) :
    Nat → Array Float → Float → Except DescentError (Array Float)
  | 0, x, _ => if sys.isSolution settings x then .ok x else .error .unconverged
  | rounds + 1, x, damping =>
    if sys.isSolution settings x then .ok x
    else
      let rows := sys.evaluateAll x
      let cost := halfSumSq (rows.map (·.1))
      match search sys solver x (normalEquations x.size rows) cost maxRaises damping with
      | .rejected => .error .unconverged
      | .singular => .error .singular
      | .unfinished => .error .unfinished
      | .accepted d damping =>
        let y := addStep x d
        let tol := settings.stepTolerance
        if largest d.toList ≤ tol * (largest x.toList + tol) then
          if sys.isSolution settings y then .ok y else .error .unconverged
        else descend sys solver settings rounds y (Scalar.larger (damping / 10) minDamping)

def System.solve (sys : System Float) (solver : LinearSolver) (settings : Settings) :
    Except DescentError (Array Float) :=
  if sys.initial.isEmpty then
    if sys.isSolution settings sys.initial then .ok sys.initial else .error .unconverged
  else if sys.equations.isEmpty then .error .emptySystem
  else descend sys solver settings settings.maxIterations sys.initial settings.initialDamping

end RigidSketch.LeastSquares
