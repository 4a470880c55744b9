import RigidSketch.Script.Reader

/-! Numerals: decimals with an optional point and exponent, infinities, and an undefined
value. -/

namespace RigidSketch

inductive Numeral where
  | undefined
  | infinite (negative : Bool)
  /-- Digits before and after the point, and the exponent of ten. -/
  | decimal (negative : Bool) (whole fraction : List Char) (exponent : Int)
deriving DecidableEq

namespace Numeral

def digitsValue (ds : List Char) : Nat :=
  ds.foldl (fun acc c => 10 * acc + (c.toNat - '0'.toNat)) 0

/-- The number nearest to `m · 10^e`. Exponents that lead out of the range of numbers are
not worked out. -/
def nearest (m : Nat) (e : Int) : Float :=
  let top := ((Nat.toDigits 10 m).length : Int) + e
  if m = 0 then 0
  else if top < -330 then 0
  else if 310 < top then 1.0 / 0.0
  else .ofScientific m (e < 0) e.natAbs

def value : Numeral → Float
  | undefined => 0.0 / 0.0
  | infinite negative => if negative then -1.0 / 0.0 else 1.0 / 0.0
  | decimal negative whole fraction exponent =>
    let size := nearest (digitsValue (whole ++ fraction)) (exponent - fraction.length)
    if negative then -size else size

open Reader

def readSign : Reader Bool := do
  match ← peek with
  | some '+' => word "+"; return false
  | some '-' => word "-"; return true
  | _ => return false

def readDigits : Reader (List Char) := while1 Char.isDigit

def readExponent : Reader Int := do
  match ← peek with
  | some 'e' => word "e"
  | some 'E' => word "E"
  | _ => return 0
  let negative ← readSign
  let size : Int := digitsValue (← readDigits)
  return if negative then -size else size

def readFraction : Reader (List Char) := do
  match ← peek with
  | some '.' => word "."; while0 Char.isDigit
  | _ => return []

def readUnsigned (negative : Bool) : Reader Numeral := do
  match ← peek with
  | some 'i' | some 'I' =>
    anyCase "inf"
    let _ ← optional (anyCase "inity")
    return .infinite negative
  | some '.' =>
    word "."
    let fraction ← readDigits
    return .decimal negative [] fraction (← readExponent)
  | _ =>
    let whole ← readDigits
    let fraction ← readFraction
    return .decimal negative whole fraction (← readExponent)

def read : Reader Numeral := do
  match ← peek with
  | some 'n' | some 'N' => anyCase "nan"; return .undefined
  | _ => readUnsigned (← readSign)

end Numeral

end RigidSketch
