/-! The arithmetic that plane geometry is written in. It is a class, so that one text
serves binary floating point, where the program runs, and the real numbers. -/

namespace RigidSketch

/-- Numbers with an order and the elementary functions. No law is assumed: floating point
has values that do not compare with themselves. -/
class Scalar (S : Type) where
  [zero : Zero S]
  [one : One S]
  [add : Add S]
  [sub : Sub S]
  [mul : Mul S]
  [div : Div S]
  [neg : Neg S]
  [lt : LT S]
  [le : LE S]
  [decLt : DecidableLT S]
  [decLe : DecidableLE S]
  /-- Lengths below this have no direction. -/
  epsilon : S
  pi : S
  abs : S → S
  sqrt : S → S
  hypot : S → S → S
  sin : S → S
  cos : S → S
  /-- Angle of the vector with ordinate `y` and abscissa `x`, in that order. -/
  atan2 : S → S → S
  acos : S → S
  isFinite : S → Bool

namespace Scalar

variable {S : Type} [Scalar S]

instance (priority := 100) : Zero S := zero
instance (priority := 100) : One S := one
instance (priority := 100) : Add S := add
instance (priority := 100) : Sub S := sub
instance (priority := 100) : Mul S := mul
instance (priority := 100) : Div S := div
instance (priority := 100) : Neg S := neg
instance (priority := 100) : LT S := lt
instance (priority := 100) : LE S := le
instance (priority := 100) : DecidableLT S := decLt
instance (priority := 100) : DecidableLE S := decLe

def two : S := 1 + 1

def isZero (a : S) : Bool := decide (a ≤ 0) && decide (0 ≤ a)

/-- The larger of two numbers, or the other one if one of them is undefined. -/
def larger (a b : S) : S :=
  if a < b then b else if a ≤ a then a else b

/-- The smaller of two numbers, or the other one if one of them is undefined. -/
def smaller (a b : S) : S :=
  if b < a then b else if a ≤ a then a else b

def clampUnit (a : S) : S :=
  if a < -1 then -1 else if 1 < a then 1 else a

/-- Strict order on scores, with undefined scores after all others. -/
def ranksBelow (a b : S) : Bool :=
  decide (a < b) || (decide (a ≤ a) && !decide (b ≤ b))

/-- The first member whose score no other member's score is below. -/
def leastBy {α : Type} (score : α → S) : List α → Option α
  | [] => none
  | a :: rest =>
    match leastBy score rest with
    | none => some a
    | some b => if ranksBelow (score b) (score a) then some b else some a

end Scalar

end RigidSketch
