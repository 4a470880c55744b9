import RigidSketch.Binary64.Scalar
import RigidSketch.Ident
import RigidSketch.Plane.Motion

/-! The elements of a sketch. Clusters that hold an element in common each work on a copy
of their own, so that moving one cluster does not move what another one sees. -/

namespace RigidSketch

/-- How much of its freedom the constraints on an element take away. -/
inductive Level where
  | under
  | full
  | over
deriving DecidableEq

/-- The state of an element as one cluster has it. -/
structure Copy where
  shape : Shape Float
  level : Level
deriving DecidableEq

structure Element where
  id : ElementId
  shape : Shape Float
  fixed : Bool
  level : Level := .under
  owners : List ClusterId := []
  copies : List (ClusterId × Copy) := []
deriving DecidableEq

namespace Element

def isClaimed (e : Element) : Bool := !e.owners.isEmpty

def copy? (e : Element) (k : ClusterId) : Option Copy := e.copies.lookup k

def dropCopy (e : Element) (k : ClusterId) : Element :=
  { e with copies := e.copies.filter (·.1 ≠ k) }

def putCopy (e : Element) (k : ClusterId) (c : Copy) : Element :=
  { e with copies := e.copies.filter (·.1 ≠ k) ++ [(k, c)] }

/-- The shape that a cluster sees: its copy if it has one, else the element itself. -/
def shapeIn (e : Element) (k : ClusterId) : Shape Float :=
  match e.copy? k with
  | some c => c.shape
  | none => e.shape

def setShapeIn (e : Element) (k : ClusterId) (g : Shape Float) : Element :=
  match e.copy? k with
  | some c => e.putCopy k { c with shape := g }
  | none => { e with shape := g }

def moveIn (e : Element) (k : ClusterId) (m : Motion Float) : Element :=
  e.setShapeIn k (m.move (e.shapeIn k))

/-- Records that a cluster holds the element. The first cluster works on the element
itself; from the second on, each has a copy. Of a fixed element every cluster has a copy. -/
def claim (k : ClusterId) (e : Element) : Element :=
  if k ∈ e.owners then e
  else
    let own : Copy := ⟨e.shape, e.level⟩
    let copied :=
      match e.owners with
      | [] => if e.fixed then e.putCopy k own else e
      | [first] => if e.fixed then e.putCopy k own else (e.putCopy first own).putCopy k own
      | _ => e.putCopy k own
    { copied with owners := e.owners ++ [k] }

/-- Once a single cluster holds the element, that cluster's copy becomes the element. A
fixed element stays, and the copy is dropped. -/
def settle (e : Element) : Element :=
  match e.owners with
  | [k] =>
    match e.copy? k with
    | some c =>
      let e := e.dropCopy k
      if e.fixed then e else { e with shape := c.shape, level := c.level }
    | none => e
  | _ => e

/-- Hands the claim of one cluster over to another, whose own copy prevails. -/
def reassign (old new : ClusterId) (e : Element) : Element :=
  let moved := e.dropCopy old
  if e.owners.isEmpty then moved
  else
    let others := e.owners.filter (· ≠ old)
    if new ∈ others then settle { moved with owners := others }
    else
      let moved :=
        match e.copy? old with
        | some c => moved.putCopy new c
        | none => moved
      settle { moved with owners := others ++ [new] }

def release (e : Element) : Element :=
  { e with owners := [], copies := [], level := .under }

end Element

structure ElementTable where
  elements : List Element := []
  next : Nat := 0
deriving DecidableEq

namespace ElementTable

def get? (t : ElementTable) (id : ElementId) : Option Element :=
  t.elements.find? (·.id = id)

def insert (t : ElementTable) (shape : Shape Float) (fixed : Bool) : ElementTable × ElementId :=
  let id : ElementId := ⟨t.next⟩
  ({ elements := t.elements ++ [{ id, shape, fixed }], next := t.next + 1 }, id)

def erase (t : ElementTable) (id : ElementId) : ElementTable :=
  { t with elements := t.elements.filter (·.id ≠ id) }

def mapWhere (t : ElementTable) (p : ElementId → Bool) (f : Element → Element) : ElementTable :=
  { t with elements := t.elements.map fun e => if p e.id then f e else e }

def map (t : ElementTable) (f : Element → Element) : ElementTable :=
  { t with elements := t.elements.map f }

def modify (t : ElementTable) (id : ElementId) (f : Element → Element) : ElementTable :=
  t.mapWhere (· = id) f

def shapeIn? (t : ElementTable) (k : ClusterId) (id : ElementId) : Option (Shape Float) :=
  (t.get? id).map (·.shapeIn k)

def setShapeIn (t : ElementTable) (k : ClusterId) (id : ElementId) (g : Shape Float) :
    ElementTable :=
  t.modify id (·.setShapeIn k g)

def isFixed (t : ElementTable) (id : ElementId) : Bool :=
  match t.get? id with
  | some e => e.fixed
  | none => false

def isClaimed (t : ElementTable) (id : ElementId) : Bool :=
  match t.get? id with
  | some e => e.isClaimed
  | none => false

end ElementTable

end RigidSketch
