import RigidSketch.Decimal.Shortest

/-! Numbers as text: the fewest digits that read back, always in positional notation, with
no decimal point on whole numbers. -/

namespace RigidSketch.Decimal

def digits (n : Nat) : List Char := Nat.toDigits 10 n

/-- The decimal `d · 10^k` without an exponent. -/
def positional (d : Nat) (k : Int) : List Char :=
  let ds := digits d
  let point := (ds.length : Int) + k
  if 0 ≤ k then ds ++ List.replicate k.toNat '0'
  else if 0 < point then ds.take point.toNat ++ '.' :: ds.drop point.toNat
  else '0' :: '.' :: (List.replicate (-point).toNat '0' ++ ds)

def text (x : Float) : String :=
  if x.isNaN then "NaN"
  else
    let size :=
      if !x.isFinite then "inf"
      else
        let (m, e) := Binary64.magnitude x
        if m = 0 then "0"
        else
          let (d, k) := shortest m e
          String.ofList (positional d k)
    if Binary64.isNegative x then "-" ++ size else size

end RigidSketch.Decimal
