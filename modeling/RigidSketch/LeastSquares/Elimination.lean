/-! Elimination with complete pivoting for systems of linear equations. A system without a
unique solution yields values that are not finite. -/

namespace RigidSketch.LeastSquares

/-- A linear equation: its coefficients, with the right-hand side as the last entry. -/
abbrev LinearEquation := Array Float

structure Pivot where
  row : Nat
  column : Nat
  size : Float

/-- The largest coefficient by magnitude among the given variables of the given rows. -/
def findPivot (columns : List Nat) (rows : List LinearEquation) : Option Pivot :=
  let better (best : Option Pivot) (p : Pivot) : Option Pivot :=
    match best with
    | some b => if b.size < p.size then some p else best
    | none => some p
  let inRow (best : Option Pivot) (eq : LinearEquation) (row : Nat) : Option Pivot :=
    columns.foldl (fun best column => better best ⟨row, column, (eq.getD column 0).abs⟩) best
  rows.zipIdx.foldl (fun best (eq, row) => inRow best eq row) none

def cancel (pivot : LinearEquation) (column : Nat) (eq : LinearEquation) : LinearEquation :=
  let factor := eq.getD column 0 / pivot.getD column 0
  eq.mapIdx fun i a => a - factor * pivot.getD i 0

/-- Values of the variables `columns` that solve `rows`, written into `x`. The pivot's
variable is found last, from the values of the others. -/
def eliminate (n : Nat) : Nat → List Nat → List LinearEquation → Array Float → Array Float
  | 0, _, _, x => x
  | fuel + 1, columns, rows, x =>
    match findPivot columns rows with
    | none => x
    | some p =>
      let pivot := rows.getD p.row #[]
      let rest := columns.filter (· ≠ p.column)
      let x := eliminate n fuel rest ((rows.eraseIdx p.row).map (cancel pivot p.column)) x
      let known := rest.foldl (fun acc j => acc - pivot.getD j 0 * x.getD j 0) (pivot.getD n 0)
      x.set! p.column (known / pivot.getD p.column 0)

def solveLinear (n : Nat) (rows : List LinearEquation) : Array Float :=
  eliminate n n (List.range n) rows (Array.replicate n 0)

end RigidSketch.LeastSquares
