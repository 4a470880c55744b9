import RigidSketch.Scalar

/-! Vectors of the plane, used both for places and for displacements. -/

namespace RigidSketch

open Scalar

structure Vec (S : Type) where
  x : S
  y : S
deriving DecidableEq

namespace Vec

variable {S : Type} [Scalar S]

instance : Zero (Vec S) := ⟨⟨0, 0⟩⟩
instance : Add (Vec S) := ⟨fun u v => ⟨u.x + v.x, u.y + v.y⟩⟩
instance : Sub (Vec S) := ⟨fun u v => ⟨u.x - v.x, u.y - v.y⟩⟩

/-- The direction taken where a vector is too short to have one. -/
def east : Vec S := ⟨1, 0⟩

def scale (v : Vec S) (k : S) : Vec S := ⟨v.x * k, v.y * k⟩

def dot (u v : Vec S) : S := u.x * v.x + u.y * v.y

def cross (u v : Vec S) : S := u.x * v.y - u.y * v.x

def length (v : Vec S) : S := hypot v.x v.y

def distance (p q : Vec S) : S := (p - q).length

/-- Turned counterclockwise by a quarter. -/
def perp (v : Vec S) : Vec S := ⟨-v.y, v.x⟩

/-- Counterclockwise from the positive horizontal axis. -/
def angle (v : Vec S) : S := atan2 v.y v.x

def unit (angle : S) : Vec S := ⟨cos angle, sin angle⟩

def normalized (v : Vec S) : Option (Vec S) :=
  if v.length < epsilon then none else some (v.scale (1 / v.length))

def rotate (v : Vec S) (angle : S) : Vec S :=
  ⟨v.x * cos angle - v.y * sin angle, v.x * sin angle + v.y * cos angle⟩

def rotateAbout (v pivot : Vec S) (angle : S) : Vec S :=
  pivot + (v - pivot).rotate angle

def nearest (prior : Vec S) (places : List (Vec S)) : Option (Vec S) :=
  leastBy (fun p => p.distance prior) places

end Vec

end RigidSketch
