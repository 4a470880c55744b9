import RigidSketch.Proofs.Invariants
import RigidSketch.Proofs.Supply

/-! No step of a solve asks for what cannot be done. The growth steps of a cluster are ready when
their turn comes, and an attempt at joining is given up only where all that it knows of are
angles between lines. -/

namespace RigidSketch

open LeastSquares (LinearSolver solveLinear)

theorem Constraint.accepts_of_other? {c : Constraint} {t : ElementTable} (hfit : c.Fits t)
    {e a : ElementId} (hother : c.other? e = some a) : ∃ g h, t.kind? e = some g ∧
      t.kind? a = some h ∧ c.kind.accepts h g = true := by
  obtain ⟨⟨g, h, hfirst, hsecond, haccepts⟩, _⟩ := hfit
  unfold other? at hother
  split at hother
  · rename_i he
    cases hother
    rw [RelationKind.accepts_comm] at haccepts
    exact ⟨g, h, he ▸ hfirst, hsecond, haccepts⟩
  · split at hother
    · rename_i he
      cases hother
      exact ⟨h, g, he ▸ hsecond, hfirst, haccepts⟩
    · cases hother

namespace Cluster

theorem exists_placeSeed (k : Cluster) {cs : ConstraintTable} {t : ElementTable}
    (hu : t.Uniform) {id : ConstraintId} {c : Constraint} (hc : cs.get? id = some c)
    (hfit : c.Fits t) : ∃ t', k.placeSeed cs t id = .ok t' := by
  obtain ⟨⟨g, h, hfirst, hsecond, haccepts⟩, _⟩ := hfit
  obtain ⟨first, hg, rfl⟩ := ElementTable.exists_shapeIn? hu hfirst k.id
  obtain ⟨second, hh, rfl⟩ := ElementTable.exists_shapeIn? hu hsecond k.id
  -- either end may be the one that gives way
  obtain ⟨keeper, mover, g, h, horder, hkeeper, hmover, hboth⟩ : ∃ keeper mover g h,
      (if t.isFixed c.second && !t.isFixed c.first then (c.second, c.first)
        else (c.first, c.second)) = (keeper, mover) ∧ t.shapeIn? k.id keeper = some g ∧
      t.shapeIn? k.id mover = some h ∧ c.kind.accepts g.kind h.kind = true := by
    split
    · exact ⟨_, _, second, first, rfl, hh, hg, by rwa [RelationKind.accepts_comm]⟩
    · exact ⟨_, _, first, second, rfl, hg, hh, haccepts⟩
  obtain ⟨placed, hplaced⟩ := Option.isSome_iff_exists.mp (Placement.beside?_isSome hboth c.value)
  refine ⟨t.setShapeIn k.id mover placed, ?_⟩
  simp only [placeSeed, hc, horder, hkeeper, hmover, hplaced]

theorem exists_tie? (k : Cluster) {cs : ConstraintTable} {t : ElementTable} (hu : t.Uniform)
    {e a : ElementId} {id : ConstraintId} {c : Constraint} (hc : cs.get? id = some c)
    (hfit : c.Fits t) (hother : c.other? e = some a) :
    ∃ kind tie, t.kind? e = some kind ∧ k.tie? cs t e id = some tie ∧ tie.kind = c.kind ∧
      tie.kind.accepts tie.known.kind kind = true := by
  obtain ⟨kind, kind', he, ha, haccepts⟩ := Constraint.accepts_of_other? hfit hother
  obtain ⟨known, hknown, rfl⟩ := ElementTable.exists_shapeIn? hu ha k.id
  refine ⟨kind, ⟨c.kind, c.value, known⟩, he, ?_, rfl, haccepts⟩
  simp [tie?, hc, hother, hknown]

end Cluster

namespace Sketch

/-- The sketch after some growth steps of a cluster. -/
def afterSteps (s : Sketch) (k : Cluster) (done : List GrowthStep) : Sketch :=
  { s with elements := (k.placeSteps s.tolerance s.constraints done s.elements).1 }

/-- The step finds what it asks for, and there is a rule for what it is to place. -/
def Ready (s : Sketch) (k : Cluster) : GrowthStep → Prop
  | .seed c => ∃ t, k.placeSeed s.constraints s.elements c = .ok t
  | .place e c₁ c₂ => ∃ prior tie₁ tie₂, s.shapeIn? k.id e = some prior ∧
      k.tie? s.constraints s.elements e c₁ = some tie₁ ∧
      k.tie? s.constraints s.elements e c₂ = some tie₂ ∧
      Placement.Supported (Placement.place s.tolerance prior tie₁ tie₂)

theorem isOfKind_of_get? {s : Sketch} {id : ConstraintId} {c : Constraint}
    (h : s.constraints.get? id = some c) (kind : RelationKind) :
    s.isOfKind kind id = decide (c.kind = kind) := by
  simp [isOfKind, h]

theorem CanPlace.supports {s : Sketch} {e : ElementId} {c₁ c₂ : ConstraintId}
    (h : s.CanPlace e c₁ c₂) {kind : ShapeKind} (he : s.elements.kind? e = some kind)
    {d₁ d₂ : Constraint} (h₁ : s.constraints.get? c₁ = some d₁)
    (h₂ : s.constraints.get? c₂ = some d₂) {g₁ g₂ : ShapeKind}
    (ha₁ : d₁.kind.accepts g₁ kind = true) (ha₂ : d₂.kind.accepts g₂ kind = true) :
    Placement.supports kind d₁.kind d₂.kind = true := by
  obtain ⟨kind', he', hline⟩ := h
  obtain rfl := Option.some.inj (he.symm.trans he')
  rw [isOfKind_of_get? h₁, isOfKind_of_get? h₂] at hline
  cases kind with
  | point =>
    rw [RelationKind.eq_distance_of_accepts ha₁, RelationKind.eq_distance_of_accepts ha₂]
    rfl
  | line =>
    have hnot := hline rfl
    cases hd₁ : d₁.kind <;> cases hd₂ : d₂.kind <;> simp_all [Placement.supports]

theorem Construction.exists_of_seed_mem {s : Sketch} {steps : List GrowthStep}
    {placed : List ElementId} (h : s.Construction steps placed) {id : ConstraintId}
    (hid : .seed id ∈ steps) : ∃ c, s.constraints.get? id = some c := by
  induction h with
  | seed hc =>
    cases List.mem_singleton.mp hid
    exact ⟨_, hc⟩
  | place _ _ _ _ _ _ _ _ ih =>
    rcases List.mem_append.mp hid with hid | hid
    · exact ih hid
    · cases List.mem_singleton.mp hid

theorem Posed.ready {s : Sketch} (h : Posed s) {steps : List GrowthStep} {placed : List ElementId}
    (hc : s.Construction steps placed) (k : Cluster) {step : GrowthStep} (hstep : step ∈ steps) :
    s.Ready k step := by
  have hu := h.uniform
  cases step with
  | seed id =>
    obtain ⟨c, hget⟩ := hc.exists_of_seed_mem hstep
    exact k.exists_placeSeed hu hget (h.fits c (ConstraintTable.mem_of_get? hget).1)
  | place e c₁ c₂ =>
    obtain ⟨done, rest, hsplit⟩ := List.append_of_mem hstep
    obtain ⟨_, _, ⟨a₁, _, d₁, hd₁, ho₁⟩, ⟨a₂, _, d₂, hd₂, ho₂⟩, hcan⟩ := hc.exists_of_append hsplit
    have hfit₁ := h.fits d₁ (ConstraintTable.mem_of_get? hd₁).1
    have hfit₂ := h.fits d₂ (ConstraintTable.mem_of_get? hd₂).1
    obtain ⟨kind, tie₁, he, ht₁, hk₁, ha₁⟩ := k.exists_tie? hu hd₁ hfit₁ ho₁
    obtain ⟨kind', tie₂, he', ht₂, hk₂, ha₂⟩ := k.exists_tie? hu hd₂ hfit₂ ho₂
    obtain rfl := Option.some.inj (he.symm.trans he')
    obtain ⟨prior, hprior, rfl⟩ := ElementTable.exists_shapeIn? hu he k.id
    have hsupports : Placement.supports prior.kind tie₁.kind tie₂.kind = true := by
      rw [hk₁] at ha₁ ⊢
      rw [hk₂] at ha₂ ⊢
      exact hcan.supports he hd₁ hd₂ ha₁ ha₂
    exact ⟨prior, tie₁, tie₂, hprior, ht₁, ht₂,
      Placement.Feasible.place ⟨ha₁, ha₂, hsupports⟩ s.tolerance⟩

theorem kind_of_mem_anchors {k : Cluster} {t : ElementTable} (hu : t.Uniform)
    {a : Shape Float × Shape Float} (ha : a ∈ k.anchors t) : a.1.kind = a.2.kind := by
  obtain ⟨id, _, hid⟩ := List.mem_filterMap.mp ha
  split at hid
  · rename_i e he
    split at hid
    · cases hid
      exact (hu e (ElementTable.mem_of_get? he).1).kind_shapeIn k.id
    · cases hid
  · cases hid

theorem anchorMotion?_isSome {k : Cluster} {t : ElementTable} (hu : t.Uniform)
    (h : k.anchors t ≠ []) (tolerance : Float) :
    (Cluster.anchorMotion? tolerance (k.anchors t)).isSome := by
  obtain ⟨a, rest, ha⟩ := List.exists_cons_of_ne_nil h
  have hmem : a ∈ k.anchors t := by simp [ha]
  have halign := Motion.align?_isSome (kind_of_mem_anchors hu hmem)
  simp [Cluster.anchorMotion?, ha, halign]

/-- An attempt with a plan finds what it is to place and has a rule for it, and it has an outcome.
Without a plan it leaves the sketch alone. -/
structure Decides (s : Sketch) (moving : ClusterId) (plan? : Option JoinPlan)
    (r : Sketch × Option JoinOutcome) : Prop where
  feasible : ∀ p, plan? = some p → ∃ prior,
    (s.moveCluster moving p.align).shapeIn? moving p.mover = some prior ∧
      Placement.Supported (Placement.place s.tolerance prior p.kept p.asked)
  outcome : plan?.isSome = r.2.isSome
  unchanged : r.2 = none → r.1 = s

theorem decides_of_eq {s : Sketch} {moving : ClusterId} {plan? : Option JoinPlan} {b : Bool}
    {p : JoinPlan} {r : Sketch × Option JoinOutcome} (hplan : plan? = if b then some p else none)
    {prior : Shape Float}
    (hprior : (s.moveCluster moving p.align).shapeIn? moving p.mover = some prior)
    (hfeasible : b = true → Placement.Feasible prior.kind p.kept p.asked)
    (hnone : plan? = none → r = (s, none)) (hsome : plan? = some p → r.2.isSome) :
    s.Decides moving plan? r := by
  cases b with
  | false =>
    rw [hnone hplan, hplan]
    exact ⟨nofun, rfl, fun _ => rfl⟩
  | true =>
    have hr := hsome hplan
    rw [hplan]
    refine ⟨fun q hq => ?_, hr.symm, fun hn => absurd hn (Option.isSome_iff_ne_none.mp hr)⟩
    cases hq
    exact ⟨prior, hprior, (hfeasible rfl).place s.tolerance⟩

theorem Supplied.exists_shapeIn? {s : Sketch} (h : Supplied s) {e : ElementId}
    {kind : ShapeKind} (he : s.elements.kind? e = some kind) {t : Sketch} (hr : Regroups s t)
    (k : ClusterId) : ∃ g, t.shapeIn? k e = some g ∧ g.kind = kind := by
  have hakin := hr.akin h.posed.uniform
  rw [← hakin.kind?] at he
  exact ElementTable.exists_shapeIn? hakin.uniform he k

theorem accepts_linkEnds {c : Constraint} {t : ElementTable} (hfit : c.Fits t) (a : Cluster) :
    ∃ g h, t.kind? (linkEnds a c).1 = some g ∧ t.kind? (linkEnds a c).2 = some h ∧
      c.kind.accepts g h = true := by
  obtain ⟨⟨g, h, hfirst, hsecond, haccepts⟩, _⟩ := hfit
  unfold linkEnds
  split
  · exact ⟨g, h, hfirst, hsecond, haccepts⟩
  · rw [RelationKind.accepts_comm] at haccepts
    exact ⟨h, g, hsecond, hfirst, haccepts⟩

theorem exists_anchor {s : Sketch} {k l : Cluster} (hp : (k, l) ∈ pairs s.clusters) :
    ∃ a ∈ s.clusters, a.id = (s.anchorOrder k l).1 := by
  obtain ⟨hk, hl⟩ := mem_of_mem_pairs hp
  obtain ⟨a, b, horder, hab, _⟩ := s.anchorOrder_cases k l
  rw [horder]
  rcases hab with ⟨rfl, _⟩ | ⟨rfl, _⟩
  · exact ⟨a, hk, rfl⟩
  · exact ⟨a, hl, rfl⟩

theorem holds_of_shared {s : Sketch} {k l : Cluster} (hk : k ∈ s.clusters) {e : ElementId}
    (he : k.shared l = [e]) : s.Holds e := by
  have hin : e ∈ k.shared l := by simp [he]
  exact ⟨k, hk, (List.mem_filter.mp hin).1⟩

theorem of_mem_hinges {s : Sketch} {k l : Cluster} (hp : (k, l) ∈ pairs s.clusters) {h : Hinge}
    (hh : h ∈ s.hinges k l) : (∃ a ∈ s.clusters, a.id = h.anchor) ∧ s.Holds h.shared ∧
      h.link ∈ s.free := by
  unfold hinges at hh
  split at hh
  · rename_i shared hshared
    split at hh
    · cases hh
    · obtain ⟨link, hlink, rfl⟩ := List.mem_map.mp hh
      exact ⟨exists_anchor hp, holds_of_shared (mem_of_mem_pairs hp).1 hshared,
        (mem_linksBetween hlink).1⟩
  · cases hh

theorem turnHinged_isSome {h : Hinge} {p : JoinPlan} {s : Sketch} {prior start : Shape Float}
    (hprior : s.shapeIn? h.moving p.mover = some prior)
    (hstart : s.shapeIn? h.moving h.shared = some start) : (turnHinged h p s).2.isSome := by
  unfold turnHinged
  simp only [hprior, hstart]
  split
  · rfl
  · split
    · rfl
    · split <;> rfl

/-- A hinge is given up only if the shared element is a line and the link an angle. -/
theorem Supplied.decides_joinHinged {s : Sketch} (h : Supplied s) {k l : Cluster}
    (hp : (k, l) ∈ pairs s.clusters) {j : Hinge} (hj : j ∈ s.hinges k l) :
    (s.hingePlan? j = none ↔
      s.elements.kind? j.shared = some .line ∧ s.isOfKind .angle j.link = true) ∧
    s.Decides j.moving (s.hingePlan? j) (joinHinged j s) := by
  obtain ⟨⟨a, ha, hanchor⟩, hshared, hlink⟩ := of_mem_hinges hp hj
  have hcluster : s.cluster? j.anchor = some a := hanchor ▸ h.complete.clusters a ha
  obtain ⟨c, hc, hget⟩ := h.exists_get? (h.free j.link hlink)
  obtain ⟨kind, hkind⟩ := h.members j.shared hshared
  obtain ⟨_, _, hnear, hfar, haccepts⟩ := accepts_linkEnds (h.posed.fits c hc) a
  obtain ⟨target, htarget, rfl⟩ := h.exists_shapeIn? hkind .refl j.anchor
  obtain ⟨start, hstart, hks⟩ := h.exists_shapeIn? hkind .refl j.moving
  obtain ⟨mover, hmover, rfl⟩ := h.exists_shapeIn? hfar .refl j.moving
  obtain ⟨known, hknown, rfl⟩ := h.exists_shapeIn? hnear .refl j.anchor
  obtain ⟨m, hm⟩ := Option.isSome_iff_exists.mp (Motion.align?_isSome hks)
  -- every look-up has its answer, so that nothing but the test of kinds can refuse the plan
  have hplan : s.hingePlan? j =
      if Placement.supports mover.kind (start.measure mover).1 c.kind then
        some ⟨m, (linkEnds a c).2, ⟨(start.measure mover).1, (start.measure mover).2, target⟩,
          ⟨c.kind, c.value, known⟩⟩
      else none := by
    simp only [hingePlan?, hget, hcluster, htarget, hstart, hmover, hknown, hm, guard,
      Option.bind_eq_bind, Option.bind_some]
    split <;> rfl
  constructor
  · rw [hplan, isOfKind_of_get? hget, hkind, ← hks, Option.some.injEq, decide_eq_true_eq,
      ← Placement.supports_measure_iff haccepts]
    cases Placement.supports mover.kind (start.measure mover).1 c.kind <;> simp
  · have hmove : Regroups s (s.moveCluster j.moving m) := .single (.move s j.moving m)
    obtain ⟨prior, hprior, hkp⟩ := h.exists_shapeIn? hfar hmove j.moving
    obtain ⟨turned, hturned, _⟩ := h.exists_shapeIn? hkind hmove j.moving
    refine decides_of_eq hplan hprior (fun hsupports => ?_) (fun hn => ?_) (fun hs => ?_)
    · rw [hkp]
      exact ⟨hks ▸ start.accepts_measure mover, haccepts, hsupports⟩
    · rw [joinHinged, hn]
    · rw [joinHinged, hs]
      exact turnHinged_isSome hprior hturned

theorem Supplied.holds_of_triangle? {s : Sketch} (h : Supplied s) {i j k : Cluster}
    (hp : (i, j, k) ∈ triples s.clusters) {t : Triangle} (ht : s.triangle? i j k = some t) :
    s.Holds t.ab ∧ s.Holds t.bc ∧ s.Holds t.ca := by
  obtain ⟨⟨hi, hj, hk⟩, _⟩ := key_ne_of_mem_triples h.clusters hp
  unfold triangle? at ht
  split at ht
  · cases ht
  · obtain ⟨a, b, c, hsel, ha, hb, hc⟩ : ∃ a b c,
        (if s.hasFixed j then (j, k, i) else if s.hasFixed k then (k, i, j) else (i, j, k)) =
          (a, b, c) ∧ a ∈ s.clusters ∧ b ∈ s.clusters ∧ c ∈ s.clusters := by
      split_ifs
      · exact ⟨j, k, i, rfl, hj, hk, hi⟩
      · exact ⟨k, i, j, rfl, hk, hi, hj⟩
      · exact ⟨i, j, k, rfl, hi, hj, hk⟩
    rw [hsel] at ht
    dsimp only at ht
    split at ht
    · rename_i hab hbc hca
      split at ht
      · cases ht
      · cases ht
        exact ⟨holds_of_shared ha hab, holds_of_shared hb hbc, holds_of_shared hc hca⟩
    · cases ht

theorem closeTriangle_isSome {t : Triangle} {p : JoinPlan} {s : Sketch}
    {prior abInB caInC bcInC : Shape Float} (hprior : s.shapeIn? t.b t.bc = some prior)
    (hab : s.shapeIn? t.b t.ab = some abInB) (hca : s.shapeIn? t.c t.ca = some caInC)
    (hbc : s.shapeIn? t.c t.bc = some bcInC) : (closeTriangle t p s).2.isSome := by
  unfold closeTriangle
  simp only [hprior]
  split
  · rfl
  · simp only [triangleMotions?, hab, hca, hbc, Option.bind_eq_bind, Option.bind_some]
    split
    · rename_i heq
      cases heq
    · rfl
    · split <;> rfl

/-- A triangle is given up only if it is between three lines. -/
theorem Supplied.decides_joinTriangle {s : Sketch} (h : Supplied s) {i j k : Cluster}
    (hp : (i, j, k) ∈ triples s.clusters) {t : Triangle} (ht : s.triangle? i j k = some t) :
    (s.trianglePlan? t = none ↔ ∀ e ∈ [t.ab, t.bc, t.ca], s.elements.kind? e = some .line) ∧
    s.Decides t.b (s.trianglePlan? t) (joinTriangle t s) := by
  obtain ⟨hab, hbc, hca⟩ := h.holds_of_triangle? hp ht
  obtain ⟨_, hkab⟩ := h.members t.ab hab
  obtain ⟨_, hkbc⟩ := h.members t.bc hbc
  obtain ⟨_, hkca⟩ := h.members t.ca hca
  obtain ⟨ab, hab, rfl⟩ := h.exists_shapeIn? hkab .refl t.a
  obtain ⟨ca, hca, rfl⟩ := h.exists_shapeIn? hkca .refl t.a
  obtain ⟨abInB, habInB, hab'⟩ := h.exists_shapeIn? hkab .refl t.b
  obtain ⟨bcInB, hbcInB, rfl⟩ := h.exists_shapeIn? hkbc .refl t.b
  obtain ⟨caInC, hcaInC, hca'⟩ := h.exists_shapeIn? hkca .refl t.c
  obtain ⟨bcInC, hbcInC, hbc'⟩ := h.exists_shapeIn? hkbc .refl t.c
  obtain ⟨m, hm⟩ := Option.isSome_iff_exists.mp (Motion.align?_isSome hab')
  have haccepts := caInC.accepts_measure bcInC
  rw [hbc'] at haccepts
  have hplan : s.trianglePlan? t =
      if Placement.supports bcInB.kind (abInB.measure bcInB).1 (caInC.measure bcInC).1 then
        some ⟨m, t.bc, ⟨(abInB.measure bcInB).1, (abInB.measure bcInB).2, ab⟩,
          ⟨(caInC.measure bcInC).1, (caInC.measure bcInC).2, ca⟩⟩
      else none := by
    simp only [trianglePlan?, habInB, hbcInB, hcaInC, hbcInC, hab, hca, hm, guard,
      Option.bind_eq_bind, Option.bind_some]
    split <;> rfl
  constructor
  · have hnone : s.trianglePlan? t = none ↔
        Placement.supports bcInB.kind (abInB.measure bcInB).1 (caInC.measure bcInC).1 = false := by
      rw [hplan]
      cases Placement.supports bcInB.kind (abInB.measure bcInB).1 (caInC.measure bcInC).1 <;> simp
    rw [hnone, Placement.supports_measure_iff haccepts, Shape.measure_eq_angle_iff, hab', hbc',
      hca']
    simp only [List.mem_cons, List.not_mem_nil, or_false, forall_eq_or_imp, forall_eq, hkab, hkbc,
      hkca, Option.some.injEq]
    tauto
  · have hmove : Regroups s (s.moveCluster t.b m) := .single (.move s t.b m)
    obtain ⟨prior, hprior, hkp⟩ := h.exists_shapeIn? hkbc hmove t.b
    obtain ⟨_, hmab, _⟩ := h.exists_shapeIn? hkab hmove t.b
    obtain ⟨_, hmca, _⟩ := h.exists_shapeIn? hkca hmove t.c
    obtain ⟨_, hmbc, _⟩ := h.exists_shapeIn? hkbc hmove t.c
    refine decides_of_eq hplan hprior (fun hsupports => ?_) (fun hn => ?_) (fun hs => ?_)
    · rw [hkp]
      exact ⟨hab' ▸ abInB.accepts_measure bcInB, hca' ▸ haccepts, hsupports⟩
    · rw [joinTriangle, hn]
    · rw [joinTriangle, hs]
      exact closeTriangle_isSome hprior hmab hmca hmbc

theorem Supplied.exists_of_find? {s : Sketch} (h : Supplied s) {k l : Cluster}
    {kind : RelationKind} {id : ConstraintId}
    (hid : (s.linksBetween k l).find? (s.isOfKind kind) = some id) :
    ∃ c ∈ s.constraints.constraints, s.constraints.get? id = some c ∧ c.kind = kind := by
  have hfree := (mem_linksBetween (List.mem_of_find?_eq_some hid)).1
  obtain ⟨c, hc, hget⟩ := h.exists_get? (h.free id hfree)
  have hkind := List.find?_some hid
  rw [isOfKind_of_get? hget, decide_eq_true_eq] at hkind
  exact ⟨c, hc, hget, hkind⟩

theorem Supplied.of_linkage? {s : Sketch} (h : Supplied s) {i j : Cluster}
    (hp : (i, j) ∈ pairs s.clusters) {l : Linkage} (hl : s.linkage? i j = some l) :
    (∃ a ∈ s.clusters, a.id = l.anchor) ∧
    (∃ c ∈ s.constraints.constraints, s.constraints.get? l.angle = some c ∧ c.kind = .angle) ∧
    ∃ c ∈ s.constraints.constraints, s.constraints.get? l.distance = some c ∧
      c.kind = .distance := by
  unfold linkage? at hl
  split at hl
  · cases hl
  · dsimp only at hl
    split at hl
    · rename_i angle distance hangle hdistance
      cases hl
      exact ⟨exists_anchor hp, h.exists_of_find? hangle, h.exists_of_find? hdistance⟩
    · cases hl

theorem slideLinked_isSome {l : Linkage} {p : LinkagePlan} {s : Sketch}
    {keeper mover : Shape Float} (hkeeper : s.shapeIn? l.anchor p.keeper = some keeper)
    (hmover : s.shapeIn? l.moving p.mover = some mover)
    (haccepts : RelationKind.distance.accepts keeper.kind mover.kind = true) :
    (slideLinked l p s).2.isSome := by
  obtain ⟨shift, hshift⟩ :=
    Option.isSome_iff_exists.mp (Shape.slideTo?_isSome haccepts p.distance)
  unfold slideLinked
  simp only [hkeeper, hmover, hshift]
  split <;> rfl

/-- Clusters that an angle and a distance link are joined or found not to fit. -/
theorem Supplied.joinLinked_isSome {s : Sketch} (h : Supplied s) {i j : Cluster}
    (hp : (i, j) ∈ pairs s.clusters) {l : Linkage} (hl : s.linkage? i j = some l) :
    (joinLinked l s).2.isSome := by
  obtain ⟨⟨a, ha, hanchor⟩, ⟨angle, hangle, hga, hka⟩, distance, hdistance, hgd, hkd⟩ :=
    h.of_linkage? hp hl
  have hcluster : s.cluster? l.anchor = some a := hanchor ▸ h.complete.clusters a ha
  obtain ⟨_, _, hlineA, hlineM, hlines⟩ := accepts_linkEnds (h.posed.fits angle hangle) a
  obtain ⟨_, _, hkeeper, hmover, haccepts⟩ := accepts_linkEnds (h.posed.fits distance hdistance) a
  rw [hka] at hlines
  rw [hkd] at haccepts
  obtain ⟨rfl, rfl⟩ := RelationKind.eq_line_of_accepts hlines
  obtain ⟨inA, hinA, hkindA⟩ := h.exists_shapeIn? hlineA .refl l.anchor
  obtain ⟨inM, hinM, hkindM⟩ := h.exists_shapeIn? hlineM .refl l.moving
  obtain ⟨start, hstart, _⟩ := h.exists_shapeIn? hmover .refl l.moving
  obtain ⟨lineA, hA⟩ := Shape.exists_line? hkindA
  obtain ⟨lineM, hM⟩ := Shape.exists_line? hkindM
  have hplan : s.linkagePlan? l = some ⟨.spin start.base
      (Turn.least (lineA.angleTo lineM) angle.value), (linkEnds a distance).1,
      (linkEnds a distance).2, distance.value⟩ := by
    simp only [linkagePlan?, hga, hgd, hcluster, hinA, hinM, hA, hM, hstart,
      Option.bind_eq_bind, Option.bind_some, Option.pure_def]
  rw [joinLinked, hplan]
  have hmove : ∀ m, Regroups s (s.moveCluster l.moving m) := fun m => .single (.move s l.moving m)
  obtain ⟨keeper, hk, rfl⟩ := h.exists_shapeIn? hkeeper (hmove _) l.anchor
  obtain ⟨mover, hm, rfl⟩ := h.exists_shapeIn? hmover (hmove _) l.moving
  exact slideLinked_isSome hk hm haccepts

/-- No stage of a solve is at a loss with the sketch: fixed elements determine a motion, joining is
given up only for want of anything but angles, and relaxation has its equations. -/
structure Workable (s : Sketch) : Prop extends Complete s where
  anchors : ∀ k ∈ s.clusters, k.anchors s.elements ≠ [] →
    (Cluster.anchorMotion? s.tolerance (k.anchors s.elements)).isSome
  hinges : ∀ k l, (k, l) ∈ pairs s.clusters → ∀ j ∈ s.hinges k l,
    (s.hingePlan? j = none ↔
      s.elements.kind? j.shared = some .line ∧ s.isOfKind .angle j.link = true) ∧
    s.Decides j.moving (s.hingePlan? j) (joinHinged j s)
  triangles : ∀ i j k, (i, j, k) ∈ triples s.clusters → ∀ t, s.triangle? i j k = some t →
    (s.trianglePlan? t = none ↔ ∀ e ∈ [t.ab, t.bc, t.ca], s.elements.kind? e = some .line) ∧
    s.Decides t.b (s.trianglePlan? t) (joinTriangle t s)
  linkages : ∀ i j, (i, j) ∈ pairs s.clusters → ∀ l, s.linkage? i j = some l →
    (joinLinked l s).2.isSome
  system : ∀ members, s.linkMembers? = some members → (s.linkSystem? members).isSome

theorem Supplied.workable {s : Sketch} (h : Supplied s) : Workable s where
  toComplete := h.complete
  anchors _ _ hk := anchorMotion?_isSome h.posed.uniform hk s.tolerance
  hinges _ _ hp _ hj := h.decides_joinHinged hp hj
  triangles _ _ _ hp _ ht := h.decides_joinTriangle hp ht
  linkages _ _ hp _ hl := h.joinLinked_isSome hp hl
  system _ hm := h.complete.isSome_linkSystem? hm

theorem Supplied.settle {s : Sketch} (h : Supplied s) :
    Supplied { s with elements := s.elements.map (·.settle) } := by
  have hakin : s.elements.Akin (s.elements.map (·.settle)) :=
    h.posed.uniform.map fun _ _ hu => hu.settle
  refine ⟨h.posed.congr hakin rfl, h.constraints, h.clusters, fun e he => ?_, h.free⟩
  rw [hakin.kind?]
  exact h.members e he

end Sketch

namespace Point

/-- The solve can go on from this point, however it moves and joins clusters from there: each
growth step is ready after those before it, and relaxation moves nothing but clusters. -/
structure Workable (p : Point) : Prop where
  sketch : ∀ t, Sketch.Regroups p.sketch t → t.Workable
  settled : Sketch.Workable { p.sketch with elements := p.sketch.elements.map (·.settle) }
  steps : ∀ k todo, p.stage = .realizing (k :: todo) →
    ∀ done step rest, k.steps = done ++ step :: rest → (p.sketch.afterSteps k done).Ready k step
  loose : ∀ solver members target, p.sketch.relaxation? solver = some (members, target) →
    (Sketch.moveOnto target members p.sketch).1.elements.map (Sketch.placeLoose target) =
      (Sketch.moveOnto target members p.sketch).1.elements

/-- Clusters are placed and anchored before anything else happens to them. -/
theorem frame_of_pending {solver : LinearSolver} {coverage : Status} {p : Point}
    {todo : List Cluster} (h : (step solver coverage p).stage.pending? = some todo) :
    (∃ before, p.stage.pending? = some before) ∧
      (step solver coverage p).sketch.clusters = p.sketch.clusters ∧
      (step solver coverage p).sketch.constraints = p.sketch.constraints := by
  obtain ⟨stage, s⟩ := p
  cases stage with
  | realizing todo =>
    cases todo with
    | nil => cases h
    | cons k todo => exact ⟨⟨_, rfl⟩, rfl, rfl⟩
  | anchoring k todo => exact ⟨⟨_, rfl⟩, rfl, rfl⟩
  | joining rounds =>
    cases rounds with
    | zero => cases h
    | succ rounds =>
      dsimp only [step] at h
      split at h
      · cases h
      · split at h
        · cases h
        · cases Stage.pending?_onward h
        · cases h
  | relaxing =>
    dsimp only [step] at h
    split at h
    · cases Stage.pending?_onward h
    · cases h
  | settling => cases h
  | closing status => cases h
  | closed status => cases h

theorem frame_iterate {b : Sketch} (solver : LinearSolver) (coverage : Status) (n : Nat)
    {todo : List Cluster}
    (h : ((step solver coverage)^[n] ⟨.realizing b.clusters, b⟩).stage.pending? = some todo) :
    ((step solver coverage)^[n] ⟨.realizing b.clusters, b⟩).sketch.clusters = b.clusters ∧
      ((step solver coverage)^[n] ⟨.realizing b.clusters, b⟩).sketch.constraints =
        b.constraints := by
  induction n generalizing todo with
  | zero => exact ⟨rfl, rfl⟩
  | succ n ih =>
    rw [Function.iterate_succ_apply'] at h ⊢
    obtain ⟨⟨before, hbefore⟩, hclusters, hconstraints⟩ := frame_of_pending h
    obtain ⟨hc, hcs⟩ := ih hbefore
    exact ⟨hclusters.trans hc, hconstraints.trans hcs⟩

end Point

namespace Sketch

variable {solver : LinearSolver}

theorem constructed_of_mem_points {b : Sketch} (hg : b.Grounded) (hf : b.Fresh) (hp : Posed b)
    (hc : b.Constructed) {p : Point} (hmem : p ∈ b.points solver) {todo : List Cluster}
    (htodo : p.stage.pending? = some todo) :
    p.sketch.Constructed ∧ ∀ k ∈ todo, k ∈ p.sketch.clusters := by
  have hakin := akin_of_mem_points hg hf hp.uniform hmem
  obtain ⟨n, _, rfl⟩ := List.mem_iterate.mp hmem
  obtain ⟨hclusters, hconstraints⟩ := Point.frame_iterate solver b.coverage n htodo
  refine ⟨fun k hk => ?_, ((Point.underway_iterate hg hf solver b.coverage n).fresh todo htodo).2⟩
  rw [hclusters] at hk
  exact (hc k hk).congr hconstraints hakin

theorem workable_of_mem_points {b : Sketch} (hg : b.Grounded) (hf : b.Fresh) (hp : Posed b)
    (hc : b.Constructed) {p : Point} (hmem : p ∈ b.points solver) : p.Workable := by
  have hfollows := follows_of_mem_points hg hf hmem
  have hground := hg.congr hfollows.problem
  have hposed := hp.congr (akin_of_mem_points hg hf hp.uniform hmem) hfollows.problem.constraints
  have hsupplied := hfollows.decomposed.supplied hground hposed
  refine ⟨fun t ht => (hsupplied.regroups ht).workable, hsupplied.settle.workable,
    fun k todo hstage done step rest hsteps => ?_, fun _ members target hr => ?_⟩
  · have hpending : p.stage.pending? = some (k :: todo) := by
      rw [hstage]
      rfl
    obtain ⟨hconstructed, hin⟩ := constructed_of_mem_points hg hf hp hc hmem hpending
    have hakin : p.sketch.elements.Akin (p.sketch.afterSteps k done).elements :=
      k.akin_placeSteps _ _ done hposed.uniform (ElementTable.nodup_ids hground.elements)
    have hnow : (p.sketch.afterSteps k done).Posed := hposed.congr hakin rfl
    have hsame : (p.sketch.afterSteps k done).Construction k.steps k.elements.toList :=
      (hconstructed k (hin k List.mem_cons_self)).congr rfl hakin
    exact hnow.ready hsame k (by simp [hsteps])
  · rw [(moveOnto_eq_drag target members p.sketch).1]
    exact map_placeLoose hfollows.decomposed hr (moved_drag _ _)

/-- The growth steps of every cluster that is built are a construction, and a solve is never at a
loss: what it looks up is there, and there is a rule for whatever it is to place. -/
theorem Reachable.workable_throughout {s : Sketch} (hs : Reachable s) (solver : LinearSolver) :
    (∀ c b, Call.builds? c s = some b → b.Constructed) ∧
    (s.isSettled = false → (∀ p ∈ s.prepared.points solver, p.Workable) ∧
      (s.prepared.points solver).getLast? =
        some ⟨.closed (s.solve solver).2, (s.solve solver).1⟩) := by
  refine ⟨fun c b hb => constructed_of_builds? hs.sound hb, fun hn => ?_⟩
  refine ⟨fun p hp => ?_, getLast?_points_prepared hn solver⟩
  obtain ⟨hg, hf⟩ := hs.sound.prepared hn
  obtain ⟨t, ht, hbuilt, _, heq⟩ := hs.prepared_eq_build hn
  have hposed : Posed s.prepared := heq ▸ (ht.call solver .build).posed
  have hconstructed : s.prepared.Constructed := heq ▸ constructed_build ht.sound.grounded hbuilt
  exact workable_of_mem_points hg hf hposed hconstructed hp

end Sketch

/-- Three lines of which each two are at an angle. -/
def Call.fan : List Call :=
  [addLine false 0 1 0, addLine false 1 0 0, addLine false 1 (-1) 0,
    constrain .angle ⟨0⟩ ⟨1⟩ 1, constrain .angle ⟨0⟩ ⟨2⟩ 1, constrain .angle ⟨1⟩ ⟨2⟩ 1]

namespace Sketch

/-- Two clusters share a line, and the angle that links them says nothing about places. -/
theorem workable_fan :
    (∃ p ∈ pairs (Call.runAll solveLinear Call.fan {}).build.clusters,
      ∃ j ∈ (Call.runAll solveLinear Call.fan {}).build.hinges p.1 p.2,
        (Call.runAll solveLinear Call.fan {}).build.hingePlan? j = none) ∧
    (Call.runAll solveLinear Call.fan {}).build.Constructed ∧
    ∀ p ∈ (Call.runAll solveLinear Call.fan {}).prepared.points solveLinear, p.Workable := by
  have hs := (Reachable.new {}).runAll solveLinear Call.fan
  have hb : (Call.runAll solveLinear Call.fan {}).built = false := by decide +kernel
  have hn : (Call.runAll solveLinear Call.fan {}).isSettled = false := by decide +kernel
  obtain ⟨hbuilt, hsolve⟩ := Reachable.workable_throughout hs solveLinear
  exact ⟨by decide +kernel, hbuilt .build _ (Call.builds?_build hb), (hsolve hn).1⟩

end Sketch

end RigidSketch
