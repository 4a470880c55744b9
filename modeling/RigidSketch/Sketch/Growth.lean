import RigidSketch.Pairs
import RigidSketch.Sketch.Basic

/-! Growth of a cluster from a seed constraint. An element outside is taken in once two
free constraints tie it to the cluster and can place it. -/

namespace RigidSketch

/-- The element outside a cluster that a constraint ties to it. -/
def Cluster.outsideEnd? (k : Cluster) (c : Constraint) : Option ElementId :=
  match decide (c.first ∈ k.elements), decide (c.second ∈ k.elements) with
  | true, false => some c.second
  | false, true => some c.first
  | _, _ => none

/-- An element that joins a cluster, with the two constraints that place it. -/
structure Admission where
  element : ElementId
  first : ConstraintId
  second : ConstraintId
  /-- Further constraints that tie the element to the cluster. -/
  excess : List ConstraintId

def Admission.constraints (a : Admission) : List ConstraintId := a.first :: a.second :: a.excess

structure Growth where
  cluster : Cluster
  excess : List ConstraintId := []
  crowded : List ElementId := []

def Growth.take (g : Growth) (a : Admission) : Growth where
  cluster := { g.cluster with
    elements := g.cluster.elements.insert a.element
    constraints := g.cluster.constraints.insertAll a.constraints
    steps := g.cluster.steps ++ [.place a.element a.first a.second] }
  excess := g.excess ++ a.excess
  crowded := if a.excess.isEmpty then g.crowded else g.crowded ++ [a.element]

namespace Sketch

def remaining (s : Sketch) (k : Cluster) : List ConstraintId :=
  s.free.toList.filter (· ∉ k.constraints)

/-- Elements outside a cluster with the remaining constraints that tie them to it. -/
def links (s : Sketch) (k : Cluster) : List (ElementId × ConstraintId) :=
  (s.remaining k).filterMap fun id =>
    ((s.constraints.get? id).bind k.outsideEnd?).map (·, id)

/-- The first two of some constraints that can place an element. Two angles place no line. -/
def usablePair? (s : Sketch) (e : ElementId) (ids : List ConstraintId) :
    Option (ConstraintId × ConstraintId) :=
  match s.elements.get? e with
  | some element =>
    (pairs ids).find? fun p =>
      element.shape.kind ≠ .line || !(s.isOfKind .angle p.1 && s.isOfKind .angle p.2)
  | none => none

def admissionOf? (s : Sketch) (links : List (ElementId × ConstraintId)) (e : ElementId) :
    Option Admission :=
  let ids := (links.filter (·.1 = e)).map (·.2)
  (s.usablePair? e ids).map fun p =>
    ⟨e, p.1, p.2, ids.filter fun c => c ≠ p.1 ∧ c ≠ p.2⟩

def admission? (s : Sketch) (k : Cluster) : Option Admission :=
  ((s.links k).map (·.1)).eraseDups.findSome? (s.admissionOf? (s.links k))

theorem mem_remaining_of_mem_links {s : Sketch} {k : Cluster} {p : ElementId × ConstraintId}
    (h : p ∈ s.links k) : p.2 ∈ s.remaining k := by
  obtain ⟨id, hid, hp⟩ := List.mem_filterMap.mp h
  obtain ⟨e, _, rfl⟩ := Option.map_eq_some_iff.mp hp
  exact hid

theorem mem_of_usablePair? {s : Sketch} {e : ElementId} {ids : List ConstraintId}
    {p : ConstraintId × ConstraintId} (h : s.usablePair? e ids = some p) :
    p.1 ∈ ids ∧ p.2 ∈ ids := by
  unfold usablePair? at h
  split at h
  · exact mem_of_mem_pairs (List.mem_of_find?_eq_some h)
  · simp at h

theorem first_mem_remaining {s : Sketch} {k : Cluster} {a : Admission}
    (h : s.admission? k = some a) : a.first ∈ s.remaining k := by
  obtain ⟨e, _, he⟩ := List.exists_of_findSome?_eq_some h
  obtain ⟨p, hp, rfl⟩ := Option.map_eq_some_iff.mp he
  obtain ⟨q, hq, hq'⟩ := List.mem_map.mp (mem_of_usablePair? hp).1
  have hl := mem_remaining_of_mem_links (List.mem_filter.mp hq).1
  simpa only [hq'] using hl

theorem remaining_take (s : Sketch) (g : Growth) (a : Admission) :
    s.remaining (g.take a).cluster = (s.remaining g.cluster).filter (· ∉ a.constraints) := by
  simp only [remaining, Growth.take, List.filter_filter, OrderedSet.mem_insertAll]
  congr 1
  funext c
  simp only [← Bool.decide_and]
  congr 1
  simp only [not_or, eq_iff_iff]
  exact and_comm

theorem length_remaining_take_lt {s : Sketch} {g : Growth} {a : Admission}
    (h : s.admission? g.cluster = some a) :
    (s.remaining (g.take a).cluster).length < (s.remaining g.cluster).length := by
  rw [remaining_take, List.length_filter_lt_length_iff_exists]
  exact ⟨a.first, first_mem_remaining h, by simp [Admission.constraints]⟩

def grow (s : Sketch) (g : Growth) : Growth :=
  match _h : s.admission? g.cluster with
  | some a => s.grow (g.take a)
  | none => g
termination_by (s.remaining g.cluster).length
decreasing_by exact length_remaining_take_lt ‹_›

def seedGrowth (s : Sketch) (k : ClusterId) (seed : ConstraintId) : Growth where
  cluster := {
    id := k
    elements :=
      match s.constraints.get? seed with
      | some c => .ofList c.ends
      | none => ∅
    constraints := .ofList [seed]
    steps := [.seed seed] }

def growFrom (s : Sketch) (k : ClusterId) (seed : ConstraintId) : Growth :=
  s.grow (s.seedGrowth k seed)

theorem mem_constraints_grow {s : Sketch} {g : Growth} {c : ConstraintId}
    (h : c ∈ g.cluster.constraints) : c ∈ (s.grow g).cluster.constraints := by
  fun_induction s.grow g with
  | case1 g a _ ih => exact ih (by simp [Growth.take, h])
  | case2 => exact h

theorem seed_mem_growFrom (s : Sketch) (k : ClusterId) (seed : ConstraintId) :
    seed ∈ (s.growFrom k seed).cluster.constraints :=
  mem_constraints_grow (by simp [seedGrowth])

end Sketch

end RigidSketch
