import RigidSketch.Proofs.Renaming
import RigidSketch.Sketch.Partition

/-! Partition of a sketch in another guise. The clusters that are built do not depend on what
came before, nor on anything of an element but its kind and whether it is fixed. -/

namespace RigidSketch

theorem firstMax_map {α β : Type} (f : β → Nat) (h : α → β) (xs : List α) :
    firstMax f (xs.map h) = (firstMax (f ∘ h) xs).map h := by
  induction xs with
  | nil => rfl
  | cons x xs ih =>
    rw [List.map_cons, firstMax, firstMax, ih]
    cases firstMax (f ∘ h) xs with
    | none => rfl
    | some b =>
      simp only [Option.map_some, Function.comp_apply]
      split <;> rfl

/-- What a sketch keeps of the way it came about. -/
structure History where
  /-- How many names of clusters were given out. -/
  base : Nat
  nextElement : Nat
  nextConstraint : Nat
  index : List (ElementId × List ConstraintId)
  edited : Bool

/-- Elements and constraints that look different, are to be solved with other settings and
have another history, but of which the same clusters can be built. -/
structure Guise extends History where
  settings : Settings → Settings
  element : Element → Element
  constraint : Constraint → Constraint
  id_element : ∀ e, (element e).id = e.id
  fixed_element : ∀ e, (element e).fixed = e.fixed
  kind_element : ∀ e, (element e).shape.kind = e.shape.kind
  level_element : ∀ e, (element e).level = e.level
  isClaimed_element : ∀ e, (element e).isClaimed = e.isClaimed
  element_claim : ∀ e k, element (e.claim k) = (element e).claim (k.shift base)
  element_setLevel : ∀ e l, element { e with level := l } = { element e with level := l }
  id_constraint : ∀ c, (constraint c).id = c.id
  kind_constraint : ∀ c, (constraint c).kind = c.kind
  first_constraint : ∀ c, (constraint c).first = c.first
  second_constraint : ∀ c, (constraint c).second = c.second

attribute [simp] Guise.id_element Guise.fixed_element Guise.kind_element Guise.level_element
  Guise.isClaimed_element Guise.id_constraint Guise.kind_constraint Guise.first_constraint
  Guise.second_constraint

variable (g : Guise)

@[simp] theorem Guise.ends_constraint (c : Constraint) : (g.constraint c).ends = c.ends := by
  simp [Constraint.ends]

namespace ElementTable

def under (t : ElementTable) : ElementTable := ⟨t.elements.map g.element, g.nextElement⟩

@[simp] theorem get?_under (t : ElementTable) (id : ElementId) :
    (t.under g).get? id = (t.get? id).map g.element :=
  get?_map (t := t) g.id_element id

@[simp] theorem isFixed_under (t : ElementTable) (id : ElementId) :
    (t.under g).isFixed id = t.isFixed id := by
  rw [isFixed, isFixed, get?_under]
  cases t.get? id <;> simp

@[simp] theorem isClaimed_under (t : ElementTable) (id : ElementId) :
    (t.under g).isClaimed id = t.isClaimed id := by
  rw [isClaimed, isClaimed, get?_under]
  cases t.get? id <;> simp

theorem all_isClaimed_under (t : ElementTable) :
    (t.under g).elements.all (·.isClaimed) = t.elements.all (·.isClaimed) := by
  simp [under, Function.comp_def]

theorem map_under (f f' : Element → Element) (h : ∀ e, g.element (f e) = f' (g.element e))
    (t : ElementTable) : (t.under g).map f' = (t.map f).under g := by
  simp only [map, under, List.map_map, mk.injEq, and_true]
  exact List.map_congr_left fun e _ => (h e).symm

theorem mapWhere_under (f f' : Element → Element) (h : ∀ e, g.element (f e) = f' (g.element e))
    (t : ElementTable) (p : ElementId → Bool) :
    (t.under g).mapWhere p f' = (t.mapWhere p f).under g := by
  refine map_under g (fun e => if p e.id then f e else e)
    (fun e => if p e.id then f' e else e) (fun e => ?_) t
  rw [g.id_element]
  split
  · exact h e
  · rfl

end ElementTable

namespace ConstraintTable

def under (t : ConstraintTable) : ConstraintTable :=
  ⟨t.constraints.map g.constraint, g.index, g.nextConstraint⟩

@[simp] theorem get?_under (t : ConstraintTable) (id : ConstraintId) :
    (t.under g).get? id = (t.get? id).map g.constraint :=
  get?_map (t := t) g.id_constraint id

end ConstraintTable

/-- The index of the guise lists the same constraints on each element, in any order. -/
def Guise.Indexes (t : ConstraintTable) : Prop := ∀ e, ((t.under g).on e).Perm (t.on e)

namespace Cluster

def under (k : Cluster) : Cluster := k.rename (·.shift g.base)

@[simp] theorem id_under (k : Cluster) : (k.under g).id = k.id.shift g.base := rfl

@[simp] theorem elements_under (k : Cluster) : (k.under g).elements = k.elements := rfl

@[simp] theorem constraints_under (k : Cluster) : (k.under g).constraints = k.constraints := rfl

@[simp] theorem encloses_under (k : Cluster) (c : Constraint) :
    (k.under g).encloses (g.constraint c) = k.encloses c := by
  simp [encloses]

@[simp] theorem outsideEnd?_under (k : Cluster) (c : Constraint) :
    (k.under g).outsideEnd? (g.constraint c) = k.outsideEnd? c := by
  simp [outsideEnd?]

end Cluster

def Growth.under (w : Growth) : Growth := { w with cluster := w.cluster.under g }

namespace Sketch

def under (s : Sketch) : Sketch :=
  { s with
    settings := g.settings s.settings
    elements := s.elements.under g
    constraints := s.constraints.under g
    clusters := s.clusters.map (·.under g)
    nextCluster := g.base + s.nextCluster
    edited := g.edited }

section Fields

variable (s : Sketch)

@[simp] theorem elements_under : (s.under g).elements = s.elements.under g := rfl

@[simp] theorem constraints_under : (s.under g).constraints = s.constraints.under g := rfl

@[simp] theorem clusters_under : (s.under g).clusters = s.clusters.map (·.under g) := rfl

theorem length_clusters_under : (s.under g).clusters.length = s.clusters.length :=
  List.length_map _

@[simp] theorem free_under : (s.under g).free = s.free := rfl

@[simp] theorem conflicting_under : (s.under g).conflicting = s.conflicting := rfl

end Fields

theorem isOfKind_under (s : Sketch) (kind : RelationKind) (id : ConstraintId) :
    (s.under g).isOfKind kind id = s.isOfKind kind id := by
  simp only [isOfKind, under, ConstraintTable.get?_under]
  cases s.constraints.get? id <;> simp

theorem inside_under (s : Sketch) (k : Cluster) :
    (s.under g).inside (k.under g) = s.inside k := by
  simp only [inside, under, ConstraintTable.get?_under]
  refine List.filter_congr fun id _ => ?_
  cases s.constraints.get? id <;> simp

theorem links_under (s : Sketch) (k : Cluster) : (s.under g).links (k.under g) = s.links k := by
  refine List.filterMap_congr fun id _ => ?_
  simp only [under, ConstraintTable.get?_under]
  cases s.constraints.get? id <;> simp

theorem usablePair?_under (s : Sketch) (e : ElementId) (ids : List ConstraintId) :
    (s.under g).usablePair? e ids = s.usablePair? e ids := by
  simp only [usablePair?, isOfKind_under]
  simp only [under, ElementTable.get?_under]
  cases s.elements.get? e <;> simp

theorem admission?_under (s : Sketch) (k : Cluster) :
    (s.under g).admission? (k.under g) = s.admission? k := by
  unfold admission?
  rw [links_under]
  congr 1
  funext e
  simp only [admissionOf?, usablePair?_under]

theorem grow_under (s : Sketch) (w : Growth) :
    (s.under g).grow (w.under g) = (s.grow w).under g := by
  fun_induction s.grow w with
  | case1 w a h ih =>
    have h' : (s.under g).admission? (w.under g).cluster = some a :=
      (admission?_under g s w.cluster).trans h
    rw [grow]
    split
    · rename_i b hb
      obtain rfl : a = b := Option.some.inj (h'.symm.trans hb)
      exact ih
    · rename_i hb
      cases h'.symm.trans hb
  | case2 w h =>
    have h' : (s.under g).admission? (w.under g).cluster = none :=
      (admission?_under g s w.cluster).trans h
    rw [grow]
    split
    · rename_i b hb
      cases h'.symm.trans hb
    · rfl

theorem growFrom_under (s : Sketch) (k : ClusterId) (seed : ConstraintId) :
    (s.under g).growFrom (k.shift g.base) seed = (s.growFrom k seed).under g := by
  have hseed : (s.under g).seedGrowth (k.shift g.base) seed = (s.seedGrowth k seed).under g := by
    simp only [seedGrowth, under, ConstraintTable.get?_under]
    cases s.constraints.get? seed <;> simp [Growth.under, Cluster.under, Cluster.rename]
  rw [growFrom, hseed, grow_under, growFrom]

theorem freeDegree_under {s : Sketch} (h : g.Indexes s.constraints) (e : ElementId) :
    (s.under g).freeDegree e = s.freeDegree e :=
  (h e).countP_eq _

theorem endsClaimed_under (s : Sketch) (c : Constraint) :
    (s.under g).endsClaimed (g.constraint c) = s.endsClaimed c := by
  simp [endsClaimed]

theorem preferred?_under {s : Sketch} (h : g.Indexes s.constraints) (cs : List Constraint) :
    (s.under g).preferred? (cs.map g.constraint) = (s.preferred? cs).map g.constraint := by
  have hfixed : ∀ e, (s.under g).elements.isFixed e = s.elements.isFixed e :=
    s.elements.isFixed_under g
  have hclaimed : ∀ e, (s.under g).elements.isClaimed e = s.elements.isClaimed e :=
    s.elements.isClaimed_under g
  simp only [preferred?, List.find?_map, List.filter_map, firstMax_map, List.head?_map,
    ← Option.map_or, Function.comp_def, endsClaimed_under, freeDegree_under g h, hclaimed,
    Guise.ends_constraint, Guise.first_constraint, Guise.second_constraint, funext hfixed]

theorem seed?_under {s : Sketch} (h : g.Indexes s.constraints) (cancelled : List ConstraintId) :
    (s.under g).seed? cancelled = s.seed? cancelled := by
  have huntried : ((s.under g).untried cancelled).filterMap (s.under g).constraints.get? =
      ((s.untried cancelled).filterMap s.constraints.get?).map g.constraint := by
    rw [List.map_filterMap]
    exact List.filterMap_congr fun id _ => s.constraints.get?_under g id
  unfold seed?
  rw [huntried, preferred?_under g h]
  cases s.preferred? ((s.untried cancelled).filterMap s.constraints.get?) with
  | some c => simp
  | none =>
    simp only [Option.map_none, under, ConstraintTable.get?_under]
    congr 2
    funext id
    cases s.constraints.get? id <;> simp

theorem reserve_under (s : Sketch) (spare : Option ClusterId) :
    (s.under g).reserve (spare.map (·.shift g.base)) =
      ((s.reserve spare).1.under g, (s.reserve spare).2.shift g.base) := by
  cases spare <;> rfl

theorem commit_under (s : Sketch) (w : Growth) :
    (s.under g).commit (w.under g) = (s.commit w).under g := by
  have hinside := inside_under g { s with free := s.free.eraseAll w.cluster.constraints.toList }
    w.cluster
  have hclaim := ElementTable.mapWhere_under g (·.claim w.cluster.id)
    (·.claim (w.cluster.id.shift g.base)) fun e => g.element_claim e w.cluster.id
  have hraise := ElementTable.mapWhere_under g
    (fun e => if e.level = .under then { e with level := .full } else e)
    (fun e => if e.level = .under then { e with level := .full } else e) fun e => by
      rw [g.level_element]
      split
      · exact g.element_setLevel e .full
      · rfl
  have hcrowd := ElementTable.mapWhere_under g ({ · with level := .over })
    ({ · with level := .over }) fun e => g.element_setLevel e .over
  simp only [under] at hinside
  simp only [commit, under, Growth.under, Cluster.id_under, Cluster.elements_under,
    Cluster.constraints_under, hinside, hclaim, hraise, hcrowd, List.map_append, List.map_cons,
    List.map_nil]
  rfl

theorem commitAll_of_seed?_eq_none {s : Sketch} {cancelled : List ConstraintId}
    (h : s.seed? cancelled = none) (spare : Option ClusterId) :
    s.commitAll cancelled spare = s := by
  rw [commitAll]
  split
  · rfl
  · split
    · rfl
    · rename_i heq
      cases h.symm.trans heq

theorem commitAll_of_seed?_eq_some {s : Sketch} {cancelled : List ConstraintId}
    {seed : ConstraintId} {retry : Bool}
    (hc : ¬ s.elements.elements.all (·.isClaimed)) (h : s.seed? cancelled = some (seed, retry))
    (spare : Option ClusterId) :
    s.commitAll cancelled spare =
      let r := s.reserve spare
      let w := r.1.growFrom r.2 seed
      if w.cluster.steps.length = 1 ∧ retry = false then
        r.1.commitAll (seed :: cancelled) (some r.2)
      else (r.1.commit w).commitAll cancelled none := by
  rw [commitAll, if_neg hc]
  split
  · rename_i heq
    cases h.symm.trans heq
  · rename_i heq
    cases h.symm.trans heq
    rfl

theorem commitAll_under {s : Sketch} (h : g.Indexes s.constraints)
    (cancelled : List ConstraintId) (spare : Option ClusterId) :
    (s.under g).commitAll cancelled (spare.map (·.shift g.base)) =
      (s.commitAll cancelled spare).under g := by
  have hall : ∀ s : Sketch, (s.under g).elements.elements.all (·.isClaimed) =
      s.elements.elements.all (·.isClaimed) := fun s => s.elements.all_isClaimed_under g
  fun_induction s.commitAll cancelled spare with
  | case1 s cancelled spare hc => rw [commitAll, if_pos ((hall s).trans hc)]
  | case2 s cancelled spare hc hs =>
    exact commitAll_of_seed?_eq_none ((seed?_under g h cancelled).trans hs) _
  | case3 s cancelled spare hc seed retry hs r w hw ih =>
    have hs' := (seed?_under g h cancelled).trans hs
    rw [commitAll_of_seed?_eq_some (by rwa [hall]) hs', reserve_under]
    simp only [growFrom_under]
    exact (if_pos hw).trans (ih (by cases spare <;> exact h))
  | case4 s cancelled spare hc seed retry hs r w hw ih =>
    have hs' := (seed?_under g h cancelled).trans hs
    rw [commitAll_of_seed?_eq_some (by rwa [hall]) hs', reserve_under]
    simp only [growFrom_under, commit_under]
    exact (if_neg hw).trans (ih (by cases spare <;> exact h))

/-- Clusters that are built in another guise are the same clusters in that guise. -/
theorem build_of_reset {s t : Sketch} (ht : t.built = false) (h : t.reset = s.under g)
    (hi : g.Indexes s.constraints) :
    t.build = { s.commitAll [] none with built := true }.under g := by
  have hall := commitAll_under g hi [] none
  rw [build, ht, h]
  exact congrArg (fun u : Sketch => { u with built := true }) hall

end Sketch

end RigidSketch
