import Mathlib.Data.Option.Basic
import RigidSketch.Proofs.Absorption
import RigidSketch.Proofs.Guise
import RigidSketch.Sketch.Solve

/-! Solving after another history. Every stage of a solve does the same to the clusters under
their other names. -/

namespace RigidSketch

theorem pairs_map {α β : Type} (f : α → β) (xs : List α) :
    pairs (xs.map f) = (pairs xs).map (Prod.map f f) := by
  induction xs with
  | nil => rfl
  | cons a rest ih => simp [pairs, ih, Function.comp_def]

theorem triples_map {α β : Type} (f : α → β) (xs : List α) :
    triples (xs.map f) = (triples xs).map (Prod.map f (Prod.map f f)) := by
  induction xs with
  | nil => rfl
  | cons a rest ih => simp [triples, pairs_map, ih, Function.comp_def]

/-- A sketch that differs in nothing but its history. -/
def History.guise (h : History) : Guise where
  toHistory := h
  settings c := c
  element := Element.rename (·.shift h.base)
  constraint c := c
  id_element _ := rfl
  fixed_element _ := rfl
  kind_element _ := rfl
  level_element _ := rfl
  isClaimed_element := Element.isClaimed_rename
  element_claim e k := (Element.claim_rename ClusterId.shift_injective e k).symm
  element_setLevel _ _ := rfl
  id_constraint _ := rfl
  kind_constraint _ := rfl
  first_constraint _ := rfl
  second_constraint _ := rfl

variable (h : History)

@[simp] theorem History.base_guise : h.guise.base = h.base := rfl

@[simp] theorem History.element_guise : h.guise.element = Element.rename (·.shift h.base) := rfl

theorem shift_inj {k l : ClusterId} : k.shift h.base = l.shift h.base ↔ k = l :=
  ClusterId.shift_injective.eq_iff

@[simp] theorem ConstraintTable.get?_guise (t : ConstraintTable) (id : ConstraintId) :
    (t.under h.guise).get? id = t.get? id := by
  rw [get?_under]
  exact Option.map_id_apply

@[simp] theorem ConstraintTable.constraints_guise (t : ConstraintTable) :
    (t.under h.guise).constraints = t.constraints :=
  List.map_id' t.constraints

theorem ConstraintTable.map_guise (t : ConstraintTable) (f : Constraint → Constraint) :
    (t.under h.guise).map f = (t.map f).under h.guise := by
  simp [map, under, History.guise]

namespace ElementTable

@[simp] theorem shapeIn?_guise (t : ElementTable) (k : ClusterId) (e : ElementId) :
    (t.under h.guise).shapeIn? (k.shift h.base) e = t.shapeIn? k e := by
  rw [shapeIn?, shapeIn?, get?_under, Option.map_map]
  congr 1
  funext e
  exact Element.shapeIn_rename ClusterId.shift_injective e k

theorem setShapeIn_guise (t : ElementTable) (k : ClusterId) (e : ElementId) (g : Shape Float) :
    (t.under h.guise).setShapeIn (k.shift h.base) e g = (t.setShapeIn k e g).under h.guise :=
  mapWhere_under h.guise (·.setShapeIn k g) (·.setShapeIn (k.shift h.base) g)
    (fun e => (Element.setShapeIn_rename ClusterId.shift_injective e k g).symm) t (· = e)

end ElementTable

namespace Cluster

theorem move_guise (k : Cluster) (m : Motion Float) (t : ElementTable) :
    (k.under h.guise).move m (t.under h.guise) = (k.move m t).under h.guise :=
  ElementTable.mapWhere_under h.guise (·.moveIn k.id m) (·.moveIn (k.id.shift h.base) m)
    (fun e => (Element.moveIn_rename ClusterId.shift_injective e k.id m).symm) t _

theorem hasFixed_guise (k : Cluster) (t : ElementTable) :
    (k.under h.guise).hasFixed (t.under h.guise) = k.hasFixed t :=
  congrArg k.elements.toList.any (funext (t.isFixed_under h.guise))

variable (cs : ConstraintTable) (tolerance : Float)

theorem placeSeed_guise (k : Cluster) (t : ElementTable) (id : ConstraintId) :
    (k.under h.guise).placeSeed (cs.under h.guise) (t.under h.guise) id =
      (k.placeSeed cs t id).map (·.under h.guise) := by
  simp only [placeSeed, ConstraintTable.get?_guise, ElementTable.isFixed_under, id_under,
    History.base_guise, ElementTable.shapeIn?_guise, ElementTable.setShapeIn_guise]
  repeat' split
  all_goals rfl

theorem tie?_guise (k : Cluster) (t : ElementTable) (e : ElementId) (id : ConstraintId) :
    (k.under h.guise).tie? (cs.under h.guise) (t.under h.guise) e id = k.tie? cs t e id := by
  simp only [tie?, ConstraintTable.get?_guise, id_under, History.base_guise,
    ElementTable.shapeIn?_guise]

theorem placeElement_guise (k : Cluster) (t : ElementTable) (e : ElementId)
    (c₁ c₂ : ConstraintId) :
    (k.under h.guise).placeElement tolerance (cs.under h.guise) (t.under h.guise) e c₁ c₂ =
      (k.placeElement tolerance cs t e c₁ c₂).map (·.under h.guise) := by
  simp only [placeElement, tie?_guise, id_under, History.base_guise, ElementTable.shapeIn?_guise,
    ElementTable.setShapeIn_guise]
  repeat' split
  all_goals rfl

theorem placeSteps_guise (k : Cluster) (steps : List GrowthStep) (t : ElementTable) :
    (k.under h.guise).placeSteps tolerance (cs.under h.guise) steps (t.under h.guise) =
      Prod.map (·.under h.guise) (·) (k.placeSteps tolerance cs steps t) := by
  induction steps generalizing t with
  | nil => rfl
  | cons step rest ih =>
    have hstep : (k.under h.guise).placeStep tolerance (cs.under h.guise) (t.under h.guise) step =
        (k.placeStep tolerance cs t step).map (·.under h.guise) := by
      cases step with
      | seed c => exact placeSeed_guise h cs k t c
      | place e c₁ c₂ => exact placeElement_guise h cs tolerance k t e c₁ c₂
    rw [placeSteps, placeSteps, hstep]
    cases k.placeStep tolerance cs t step with
    | error status => rfl
    | ok t => exact ih t

theorem anchors_guise (k : Cluster) (t : ElementTable) :
    (k.under h.guise).anchors (t.under h.guise) = k.anchors t := by
  refine List.filterMap_congr fun e _ => ?_
  rw [ElementTable.get?_under]
  cases t.get? e with
  | none => rfl
  | some e => simp [Element.shapeIn_rename ClusterId.shift_injective]

theorem fixedAgree_guise (k : Cluster) (t : ElementTable) :
    (k.under h.guise).fixedAgree tolerance (t.under h.guise) = k.fixedAgree tolerance t := by
  simp only [fixedAgree, anchors_guise]

theorem anchor_guise (k : Cluster) (t : ElementTable) :
    (k.under h.guise).anchor tolerance (t.under h.guise) =
      Prod.map (·.under h.guise) (·) (k.anchor tolerance t) := by
  simp only [anchor, anchors_guise, move_guise, fixedAgree_guise]
  split
  · rfl
  · cases anchorMotion? tolerance (k.anchors t) <;> rfl

theorem realize_guise (k : Cluster) (t : ElementTable) :
    (k.under h.guise).realize tolerance (cs.under h.guise) (t.under h.guise) =
      Prod.map (·.under h.guise) (·) (k.realize tolerance cs t) := by
  have hsteps : (k.under h.guise).steps = k.steps := rfl
  rw [realize, realize, hsteps, placeSteps_guise]
  obtain ⟨t', status⟩ := k.placeSteps tolerance cs k.steps t
  cases status with
  | solved => exact anchor_guise h tolerance k t'
  | _ => rfl

end Cluster

theorem realizeAll_guise (cs : ConstraintTable) (tolerance : Float) (ks : List Cluster)
    (t : ElementTable) :
    realizeAll tolerance (cs.under h.guise) (ks.map (·.under h.guise)) (t.under h.guise) =
      Prod.map (·.under h.guise) (·) (realizeAll tolerance cs ks t) := by
  induction ks generalizing t with
  | nil => rfl
  | cons k rest ih =>
    rw [List.map_cons, realizeAll, realizeAll, Cluster.realize_guise]
    obtain ⟨t', status⟩ := k.realize tolerance cs t
    cases status with
    | solved => exact ih t'
    | _ => rfl

namespace Sketch

variable (s : Sketch)

@[simp] theorem tolerance_guise : (s.under h.guise).tolerance = s.tolerance := rfl

theorem cluster?_guise (k : ClusterId) :
    (s.under h.guise).cluster? (k.shift h.base) = (s.cluster? k).map (·.under h.guise) := by
  simp only [cluster?, under, List.find?_map]
  congr 2
  funext l
  simp [shift_inj]

theorem residualBy_guise (view : ElementId → Option (Shape Float)) (id : ConstraintId) :
    (s.under h.guise).residualBy view id = s.residualBy view id := by
  simp only [residualBy, under, ConstraintTable.get?_guise]

theorem residual?_guise (id : ConstraintId) :
    (s.under h.guise).residual? id = s.residual? id := by
  rw [residual?, residual?, residualBy_guise]
  congr 1
  funext e
  simp only [under, ElementTable.get?_under, Option.map_map]
  rfl

theorem isMet_guise (r : Option Float) : (s.under h.guise).isMet r = s.isMet r := by
  cases r <;> rfl

theorem hasFixed_guise (k : Cluster) :
    (s.under h.guise).hasFixed (k.under h.guise) = s.hasFixed k :=
  Cluster.hasFixed_guise h k s.elements

theorem anchorOrder_guise (k l : Cluster) :
    (s.under h.guise).anchorOrder (k.under h.guise) (l.under h.guise) =
      Prod.map (·.shift h.base) (·.shift h.base) (s.anchorOrder k l) := by
  simp only [anchorOrder, hasFixed_guise]
  split <;> rfl

theorem shapeIn?_guise (k : ClusterId) (e : ElementId) :
    (s.under h.guise).shapeIn? (k.shift h.base) e = s.shapeIn? k e :=
  s.elements.shapeIn?_guise h k e

theorem moveCluster_guise (k : ClusterId) (m : Motion Float) :
    (s.under h.guise).moveCluster (k.shift h.base) m = (s.moveCluster k m).under h.guise := by
  rw [moveCluster, moveCluster, cluster?_guise]
  cases s.cluster? k with
  | none => rfl
  | some c =>
    exact congrArg (fun t => { s.under h.guise with elements := t })
      (Cluster.move_guise h c m s.elements)

theorem fixedAgree_guise (k : ClusterId) :
    (s.under h.guise).fixedAgree (k.shift h.base) = s.fixedAgree k := by
  rw [fixedAgree, fixedAgree, cluster?_guise]
  cases s.cluster? k with
  | none => rfl
  | some c => exact Cluster.fixedAgree_guise h s.tolerance c s.elements

theorem agree_guise (e : ElementId) (k l : ClusterId) :
    (s.under h.guise).agree e (k.shift h.base) (l.shift h.base) = s.agree e k l := by
  simp only [agree, shapeIn?_guise]
  rfl

theorem carries_guise (m : Motion Float) (k l : ClusterId) (es : List ElementId) :
    (s.under h.guise).carries m (k.shift h.base) (l.shift h.base) es = s.carries m k l es := by
  simp only [carries, shapeIn?_guise]
  rfl

theorem shapeAcross?_guise (anchor moving : ClusterId) (e : ElementId) :
    (s.under h.guise).shapeAcross? (anchor.shift h.base) (moving.shift h.base) e =
      s.shapeAcross? anchor moving e := by
  simp only [shapeAcross?, cluster?_guise]
  cases s.cluster? anchor with
  | none => exact shapeIn?_guise h s moving e
  | some k => by_cases he : e ∈ k.elements <;> simp [he, shapeIn?_guise]

theorem linkHolds_guise (link : ConstraintId) (anchor moving : ClusterId) :
    (s.under h.guise).linkHolds link (anchor.shift h.base) (moving.shift h.base) =
      s.linkHolds link anchor moving := by
  have hacross := funext (shapeAcross?_guise h s anchor moving)
  rw [linkHolds, linkHolds, hacross, isMet_guise, residualBy_guise]

theorem linksBetween_guise (k l : Cluster) :
    (s.under h.guise).linksBetween (k.under h.guise) (l.under h.guise) = s.linksBetween k l := by
  simp only [linksBetween, under, ConstraintTable.get?_guise, Cluster.elements_under]
  rfl

/-- The first half of absorbing a cluster: it is gone, and the anchor has its elements. -/
def cede (anchor moving : ClusterId) (gone : Cluster) (links : List ConstraintId) : Sketch :=
  { s with
    clusters := s.clusters.eraseP (·.id = moving)
    elements := s.elements.mapWhere (· ∈ gone.elements) (·.reassign moving anchor)
    free := s.free.eraseAll links }

/-- The second half: the anchor takes up what lies inside it now. -/
def adopt (anchor : ClusterId) (k : Cluster) : Sketch :=
  let inside := s.inside k
  let unmet := inside.filter fun id => !s.isMet (s.residualBy (s.shapeIn? anchor) id)
  { s with
    clusters := s.clusters.map fun l =>
      if l.id = anchor then { k with constraints := k.constraints.insertAll inside } else l
    free := s.free.eraseAll inside
    conflicting := s.conflicting.insertAll unmet }

theorem absorb_eq_adopt (anchor moving : ClusterId) (links : List ConstraintId) :
    s.absorb anchor moving links =
      match s.cluster? moving with
      | none => s
      | some gone =>
        match (s.cede anchor moving gone links).cluster? anchor with
        | none => s.cede anchor moving gone links
        | some k => (s.cede anchor moving gone links).adopt anchor (merged k gone links) := rfl

theorem cede_guise (anchor moving : ClusterId) (gone : Cluster) (links : List ConstraintId) :
    (s.under h.guise).cede (anchor.shift h.base) (moving.shift h.base) (gone.under h.guise) links =
      (s.cede anchor moving gone links).under h.guise := by
  have helements := ElementTable.mapWhere_under h.guise (·.reassign moving anchor)
    (·.reassign (moving.shift h.base) (anchor.shift h.base))
    (fun e => (Element.reassign_rename ClusterId.shift_injective e moving anchor).symm)
    s.elements (· ∈ gone.elements)
  have hclusters : (s.under h.guise).clusters.eraseP (·.id = moving.shift h.base) =
      (s.clusters.eraseP (·.id = moving)).map (·.under h.guise) := by
    simp only [under, List.eraseP_map, Function.comp_def, Cluster.id_under, History.base_guise,
      shift_inj]
  rw [cede, hclusters]
  exact congrArg (fun t => { (s.cede anchor moving gone links).under h.guise with elements := t })
    helements

theorem adopt_guise (anchor : ClusterId) (k : Cluster) :
    (s.under h.guise).adopt (anchor.shift h.base) (k.under h.guise) =
      (s.adopt anchor k).under h.guise := by
  have hview := funext (shapeIn?_guise h s anchor)
  simp only [adopt, inside_under, hview, isMet_guise, residualBy_guise]
  simp only [under, List.map_map, Sketch.mk.injEq, true_and, and_true]
  refine List.map_congr_left fun l _ => ?_
  simp only [Function.comp_apply, Cluster.id_under, History.base_guise, shift_inj]
  split <;> rfl

theorem absorb_guise (anchor moving : ClusterId) (links : List ConstraintId) :
    (s.under h.guise).absorb (anchor.shift h.base) (moving.shift h.base) links =
      (s.absorb anchor moving links).under h.guise := by
  rw [absorb_eq_adopt, absorb_eq_adopt, cluster?_guise]
  cases s.cluster? moving with
  | none => rfl
  | some gone =>
    simp only [Option.map_some, cede_guise, cluster?_guise]
    cases (s.cede anchor moving gone links).cluster? anchor with
    | none => rfl
    | some k => exact adopt_guise h _ anchor (merged k gone links)

theorem firstOutcome_guise {α : Type} {attempt : α → Sketch → Sketch × Option JoinOutcome}
    {f : α → α} {xs : List α} (hf : ∀ a ∈ xs, ∀ s, attempt (f a) (s.under h.guise) =
      Prod.map (·.under h.guise) (·) (attempt a s)) :
    firstOutcome attempt (xs.map f) (s.under h.guise) =
      Prod.map (·.under h.guise) (·) (firstOutcome attempt xs s) := by
  induction xs generalizing s with
  | nil => rfl
  | cons a rest ih =>
    rw [List.map_cons, firstOutcome, firstOutcome, hf a List.mem_cons_self]
    obtain ⟨s', outcome⟩ := attempt a s
    cases outcome with
    | none => exact ih s' fun b hb => hf b (List.mem_cons_of_mem a hb)
    | some _ => rfl

theorem sharingMotion_guise (anchor moving : ClusterId) (shared : List ElementId) :
    (s.under h.guise).sharingMotion (anchor.shift h.base) (moving.shift h.base) shared =
      s.sharingMotion anchor moving shared := by
  simp only [sharingMotion, funext (shapeIn?_guise h s anchor), funext (shapeIn?_guise h s moving),
    carries_guise]
  rfl

theorem joinSharing_guise (anchor moving : ClusterId) (shared : List ElementId) :
    (s.under h.guise).joinSharing (anchor.shift h.base) (moving.shift h.base) shared =
      Prod.map (·.under h.guise) (·) (s.joinSharing anchor moving shared) := by
  simp only [joinSharing, sharingMotion_guise, moveCluster_guise, agree_guise, fixedAgree_guise,
    absorb_guise]
  split
  · rfl
  · rfl
  · split <;> rfl

theorem shared_guise (k l : Cluster) :
    (k.under h.guise).shared (l.under h.guise) = k.shared l := rfl

theorem trySharedPair_guise :
    (s.under h.guise).trySharedPair = Prod.map (·.under h.guise) (·) s.trySharedPair := by
  have hpairs : (s.under h.guise).sharingPairs =
      s.sharingPairs.map (Prod.map (·.under h.guise) (·.under h.guise)) := by
    simp only [sharingPairs, under, pairs_map, List.filter_map]
    rfl
  rw [trySharedPair, hpairs]
  refine firstOutcome_guise h s fun p _ s => ?_
  simp only [joinPair, Prod.map_fst, Prod.map_snd, anchorOrder_guise, joinSharing_guise]
  rfl

def Hinge.under (t : Hinge) : Hinge :=
  { t with anchor := t.anchor.shift h.base, moving := t.moving.shift h.base }

theorem linkEnds_guise (k : Cluster) (c : Constraint) :
    linkEnds (k.under h.guise) c = linkEnds k c := rfl

theorem hingePlan?_guise (t : Hinge) :
    (s.under h.guise).hingePlan? (t.under h) = s.hingePlan? t := by
  simp only [hingePlan?, Hinge.under, constraints_under, ConstraintTable.get?_guise,
    cluster?_guise, shapeIn?_guise, Option.bind_eq_bind, Option.bind_map, Function.comp_def,
    linkEnds_guise]

theorem joinHinged_guise (t : Hinge) :
    joinHinged (t.under h) (s.under h.guise) =
      Prod.map (·.under h.guise) (·) (joinHinged t s) := by
  have hturn : ∀ (s : Sketch) (p : JoinPlan), turnHinged (t.under h) p (s.under h.guise) =
      Prod.map (·.under h.guise) (·) (turnHinged t p s) := by
    intro s p
    simp only [turnHinged, Hinge.under, tolerance_guise, shapeIn?_guise, moveCluster_guise,
      agree_guise, linkHolds_guise, fixedAgree_guise, absorb_guise]
    repeat' split
    all_goals rfl
  rw [joinHinged, joinHinged, hingePlan?_guise]
  cases s.hingePlan? t with
  | none => rfl
  | some p =>
    simp only [Hinge.under, moveCluster_guise]
    exact hturn _ p

theorem hinges_guise (k l : Cluster) :
    (s.under h.guise).hinges (k.under h.guise) (l.under h.guise) =
      (s.hinges k l).map (·.under h) := by
  simp only [hinges, shared_guise, hasFixed_guise, anchorOrder_guise, linksBetween_guise]
  split
  · split
    · rfl
    · simp [Hinge.under]
  · rfl

theorem trySharedOne_guise :
    (s.under h.guise).trySharedOne = Prod.map (·.under h.guise) (·) s.trySharedOne := by
  simp only [trySharedOne, clusters_under, pairs_map, List.flatMap_map, Prod.map_fst, Prod.map_snd,
    hinges_guise, ← List.map_flatMap]
  exact firstOutcome_guise h s fun t _ s => joinHinged_guise h s t

def Triangle.under (t : Triangle) : Triangle :=
  { t with a := t.a.shift h.base, b := t.b.shift h.base, c := t.c.shift h.base }

theorem trianglePlan?_guise (t : Triangle) :
    (s.under h.guise).trianglePlan? (t.under h) = s.trianglePlan? t := by
  simp only [trianglePlan?, Triangle.under, shapeIn?_guise]

theorem triangleMotions?_guise (t : Triangle) (p : JoinPlan) (prior placed : Shape Float) :
    (s.under h.guise).triangleMotions? (t.under h) p prior placed =
      s.triangleMotions? t p prior placed := by
  simp only [triangleMotions?, Triangle.under, shapeIn?_guise]
  rfl

theorem joinTriangle_guise (t : Triangle) :
    joinTriangle (t.under h) (s.under h.guise) =
      Prod.map (·.under h.guise) (·) (joinTriangle t s) := by
  have hclose : ∀ (s : Sketch) (p : JoinPlan), closeTriangle (t.under h) p (s.under h.guise) =
      Prod.map (·.under h.guise) (·) (closeTriangle t p s) := by
    intro s p
    simp only [closeTriangle, triangleMotions?_guise, tolerance_guise]
    simp only [Triangle.under, shapeIn?_guise, moveCluster_guise, agree_guise, fixedAgree_guise,
      absorb_guise]
    repeat' split
    all_goals rfl
  rw [joinTriangle, joinTriangle, trianglePlan?_guise]
  cases s.trianglePlan? t with
  | none => rfl
  | some p =>
    simp only [Triangle.under, moveCluster_guise]
    exact hclose _ p

theorem triangle?_guise (i j k : Cluster) :
    (s.under h.guise).triangle? (i.under h.guise) (j.under h.guise) (k.under h.guise) =
      (s.triangle? i j k).map (·.under h) := by
  have hcount : [i.under h.guise, j.under h.guise, k.under h.guise].countP
      (s.under h.guise).hasFixed = [i, j, k].countP s.hasFixed := by
    simp only [List.countP_cons, hasFixed_guise, List.countP_nil]
  simp only [triangle?, hcount, hasFixed_guise]
  split
  · rfl
  · cases s.hasFixed j <;> cases s.hasFixed k <;>
      simp only [Bool.false_eq_true, if_true, if_false, shared_guise]
    all_goals
      split
      · split <;> rfl
      · rfl

theorem tryTriangle_guise :
    (s.under h.guise).tryTriangle = Prod.map (·.under h.guise) (·) s.tryTriangle := by
  simp only [tryTriangle, clusters_under, triples_map, List.filterMap_map, Function.comp_def,
    Prod.map_fst, Prod.map_snd, triangle?_guise, ← List.map_filterMap]
  exact firstOutcome_guise h s fun t _ s => joinTriangle_guise h s t

def Linkage.under (t : Linkage) : Linkage :=
  { t with anchor := t.anchor.shift h.base, moving := t.moving.shift h.base }

theorem linkagePlan?_guise (t : Linkage) :
    (s.under h.guise).linkagePlan? (t.under h) = s.linkagePlan? t := by
  simp only [linkagePlan?, Linkage.under, constraints_under, ConstraintTable.get?_guise,
    cluster?_guise, shapeIn?_guise, Option.bind_eq_bind, Option.bind_map, Function.comp_def,
    linkEnds_guise]

theorem joinLinked_guise (t : Linkage) :
    joinLinked (t.under h) (s.under h.guise) =
      Prod.map (·.under h.guise) (·) (joinLinked t s) := by
  have hslide : ∀ (s : Sketch) (p : LinkagePlan), slideLinked (t.under h) p (s.under h.guise) =
      Prod.map (·.under h.guise) (·) (slideLinked t p s) := by
    intro s p
    simp only [slideLinked, Linkage.under, shapeIn?_guise, moveCluster_guise, linkHolds_guise,
      absorb_guise]
    repeat' split
    all_goals rfl
  rw [joinLinked, joinLinked, linkagePlan?_guise]
  cases s.linkagePlan? t with
  | none => rfl
  | some p =>
    simp only [Linkage.under, moveCluster_guise]
    exact hslide _ p

theorem linkage?_guise (k l : Cluster) :
    (s.under h.guise).linkage? (k.under h.guise) (l.under h.guise) =
      (s.linkage? k l).map (·.under h) := by
  have hkind : ∀ kind, (s.under h.guise).isOfKind kind = s.isOfKind kind :=
    fun kind => funext (isOfKind_under h.guise s kind)
  unfold linkage?
  rw [shared_guise, hasFixed_guise, hasFixed_guise, linksBetween_guise, anchorOrder_guise, hkind,
    hkind]
  split
  · rfl
  · dsimp only
    cases (s.linksBetween k l).find? (s.isOfKind .angle) <;>
      cases (s.linksBetween k l).find? (s.isOfKind .distance) <;> rfl

theorem tryLinked_guise :
    (s.under h.guise).tryLinked = Prod.map (·.under h.guise) (·) s.tryLinked := by
  simp only [tryLinked, clusters_under, pairs_map, List.filterMap_map, Function.comp_def,
    Prod.map_fst, Prod.map_snd, linkage?_guise, ← List.map_filterMap]
  exact firstOutcome_guise h s fun t _ s => joinLinked_guise h s t

theorem joinOnce_guise :
    (s.under h.guise).joinOnce = Prod.map (·.under h.guise) (·) s.joinOnce := by
  unfold joinOnce
  rw [← firstOutcome_guise h s (f := fun attempt => attempt), List.map_id']
  intro attempt ha s
  simp only [List.mem_cons, List.not_mem_nil, or_false] at ha
  obtain rfl | rfl | rfl | rfl := ha
  · exact trySharedPair_guise h s
  · exact trySharedOne_guise h s
  · exact tryTriangle_guise h s
  · exact tryLinked_guise h s

theorem joinRounds_guise (rounds : Nat) :
    joinRounds rounds (s.under h.guise) =
      Prod.map (·.under h.guise) (·) (joinRounds rounds s) := by
  induction rounds generalizing s with
  | zero => rfl
  | succ rounds ih =>
    rw [joinRounds, joinRounds, length_clusters_under, joinOnce_guise]
    split
    · rfl
    · match s.joinOnce with
      | (s, some .joined) => exact ih s
      | (_, some (.failed _)) => rfl
      | (_, none) => rfl

end Sketch

end RigidSketch
