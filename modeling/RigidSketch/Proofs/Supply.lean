import RigidSketch.Proofs.Construction
import RigidSketch.Proofs.Frame

/-! A solve finds what it looks up. The elements of clusters and the ends of constraints are there,
all shapes of one element are of one kind, and each constraint is between kinds that it relates;
joining clusters keeps all of this. -/

namespace RigidSketch

section

variable {S : Type}

theorem RelationKind.accepts_comm (k : RelationKind) (g h : ShapeKind) :
    k.accepts g h = k.accepts h g := by
  cases k <;> cases g <;> cases h <;> rfl

theorem RelationKind.eq_distance_of_accepts {k : RelationKind} {g : ShapeKind}
    (h : k.accepts g .point = true) : k = .distance := by
  cases k with
  | distance => rfl
  | angle => cases g <;> cases h

theorem RelationKind.eq_line_of_accepts {g h : ShapeKind} (ha : accepts .angle g h = true) :
    g = .line ∧ h = .line := by
  cases g <;> cases h <;> simp_all [accepts]

theorem Shape.exists_line? {g : Shape S} (h : g.kind = .line) : ∃ l, g.line? = some l := by
  cases g with
  | point p => cases h
  | line l => exact ⟨l, rfl⟩

variable [Scalar S]

theorem Shape.accepts_measure (g h : Shape S) :
    (g.measure h).1.accepts g.kind h.kind = true := by
  cases g <;> cases h <;> rfl

theorem Shape.measure_eq_angle_iff {g h : Shape S} :
    (g.measure h).1 = .angle ↔ g.kind = .line ∧ h.kind = .line := by
  cases g <;> cases h <;> simp [measure, kind]

theorem RelationKind.residual?_isSome {k : RelationKind} {g h : Shape S}
    (ha : k.accepts g.kind h.kind = true) (v : S) : (k.residual? v g h).isSome = true := by
  cases k <;> cases g <;> cases h <;> simp_all [accepts, Shape.kind, residual?]

theorem Placement.beside?_isSome {k : RelationKind} {g h : Shape S}
    (ha : k.accepts g.kind h.kind = true) (v : S) : (beside? k v g h).isSome = true := by
  cases k <;> cases g <;> cases h <;> simp_all [RelationKind.accepts, Shape.kind, beside?]

theorem Motion.align?_isSome {g h : Shape S} (hk : g.kind = h.kind) :
    (align? g h).isSome = true := by
  cases g <;> cases h <;> simp_all [Shape.kind, align?]

theorem Shape.slideTo?_isSome {g h : Shape S}
    (ha : RelationKind.distance.accepts g.kind h.kind = true) (d : S) :
    (g.slideTo? d h).isSome = true := by
  cases g <;> cases h <;> simp_all [RelationKind.accepts, kind, slideTo?]

namespace Placement

/-- There is a rule for the placement, whether or not it finds a place. -/
def Supported {α : Type} (r : Except PlacementError α) : Prop :=
  ∀ kind, r ≠ .error (.unsupported kind)

theorem Supported.map {α β : Type} {r : Except PlacementError α} (h : Supported r) (f : α → β) :
    Supported (r.map f) := by
  cases r with
  | ok a => exact fun _ => nofun
  | error e =>
    intro kind he
    cases he
    exact h kind rfl

theorem supported_onCircles (tolerance : S) (c₁ : Vec S) (r₁ : S) (c₂ : Vec S) (r₂ : S)
    (prior : Vec S) : Supported (onCircles tolerance c₁ r₁ c₂ r₂ prior) := by
  unfold onCircles
  dsimp only
  split_ifs <;> exact fun _ => nofun

theorem supported_onCircleByLine (tolerance : S) (center : Vec S) (r : S) (line : Line S) (d : S)
    (prior : Vec S) : Supported (onCircleByLine tolerance center r line d prior) := by
  unfold onCircleByLine
  dsimp only
  split <;> exact fun _ => nofun

theorem supported_byLines (l₁ : Line S) (d₁ : S) (l₂ : Line S) (d₂ : S) (prior : Vec S) :
    Supported (byLines l₁ d₁ l₂ d₂ prior) := by
  unfold byLines
  dsimp only
  split
  · exact fun _ => nofun
  · split <;> exact fun _ => nofun

theorem supported_tangent (tolerance : S) (c₁ : Vec S) (r₁ : S) (c₂ : Vec S) (r₂ : S)
    (prior : Line S) : Supported (tangent tolerance c₁ r₁ c₂ r₂ prior) := by
  unfold tangent
  dsimp only
  split
  · split_ifs <;> exact fun _ => nofun
  · split <;> exact fun _ => nofun

/-- The ties are between shapes that they can relate, and together they can place the one. -/
structure Feasible (prior : ShapeKind) (s t : Tie S) : Prop where
  first : s.kind.accepts s.known.kind prior = true
  second : t.kind.accepts t.known.kind prior = true
  supported : supports prior s.kind t.kind = true

theorem Feasible.place {prior : Shape S} {s t : Tie S} (h : Feasible prior.kind s t)
    (tolerance : S) : Supported (place tolerance prior s t) := by
  obtain ⟨k₁, v₁, g₁⟩ := s
  obtain ⟨k₂, v₂, g₂⟩ := t
  obtain ⟨h₁, h₂, h₃⟩ := h
  dsimp only at h₁ h₂ h₃
  cases prior with
  | point p =>
    obtain rfl := RelationKind.eq_distance_of_accepts h₁
    obtain rfl := RelationKind.eq_distance_of_accepts h₂
    cases g₁ <;> cases g₂
    · exact (supported_onCircles _ _ _ _ _ _).map _
    · exact (supported_onCircleByLine _ _ _ _ _ _).map _
    · exact (supported_onCircleByLine _ _ _ _ _ _).map _
    · exact (supported_byLines _ _ _ _ _).map _
  | line l =>
    cases g₁ with
    | point c₁ =>
      cases k₁ with
      | angle => cases h₁
      | distance =>
        cases g₂ with
        | point c₂ =>
          cases k₂ with
          | angle => cases h₂
          | distance => exact (supported_tangent _ _ _ _ _ _).map _
        | line m =>
          cases k₂ with
          | angle => exact fun _ => nofun
          | distance => cases h₂
    | line m =>
      cases k₁ with
      | distance => cases h₁
      | angle =>
        cases k₂ with
        | angle => cases h₃
        | distance =>
          cases g₂ with
          | point c₂ => exact fun _ => nofun
          | line m => cases h₂

theorem supports_measure_iff {g h : Shape S} {k : RelationKind} {known : ShapeKind}
    (ha : k.accepts known h.kind = true) :
    supports h.kind (g.measure h).1 k = false ↔ g.kind = .line ∧ k = .angle := by
  cases h with
  | point p =>
    cases RelationKind.eq_distance_of_accepts ha
    cases g <;> simp [Shape.measure, Shape.kind, supports]
  | line l => cases g <;> cases k <;> simp [Shape.measure, Shape.kind, supports]

end Placement

end

theorem isSome_bind {α β : Type} {x : Option α} {f : α → Option β} (hx : x.isSome)
    (hf : ∀ a, x = some a → (f a).isSome) : (x >>= f).isSome := by
  obtain ⟨a, rfl⟩ := Option.isSome_iff_exists.mp hx
  exact hf a rfl

theorem isSome_foldlM {α β : Type} {f : β → α → Option β} {xs : List α}
    (h : ∀ b, ∀ a ∈ xs, (f b a).isSome) (b : β) : (xs.foldlM f b).isSome := by
  induction xs generalizing b with
  | nil => rfl
  | cons a xs ih =>
    rw [List.foldlM_cons]
    exact isSome_bind (h b a List.mem_cons_self) fun next _ =>
      ih (fun b a ha => h b a (List.mem_cons_of_mem _ ha)) next

theorem exists_of_mem_mapM {α β : Type} {f : α → Option β} {xs : List α} {ys : List β}
    (h : xs.mapM f = some ys) {y : β} (hy : y ∈ ys) : ∃ x ∈ xs, f x = some y := by
  induction xs generalizing ys with
  | nil =>
    cases h
    cases hy
  | cons x xs ih =>
    rw [List.mapM_cons] at h
    obtain ⟨z, hz, h⟩ := Option.bind_eq_some_iff.mp h
    obtain ⟨zs, hzs, h⟩ := Option.bind_eq_some_iff.mp h
    cases h
    rcases List.mem_cons.mp hy with rfl | hy
    · exact ⟨x, List.mem_cons_self, hz⟩
    · obtain ⟨x', hx', hy⟩ := ih hzs hy
      exact ⟨x', List.mem_cons_of_mem _ hx', hy⟩

theorem ElementTable.exists_shapeIn? {t : ElementTable} (hu : t.Uniform) {e : ElementId}
    {kind : ShapeKind} (h : t.kind? e = some kind) (k : ClusterId) :
    ∃ g, t.shapeIn? k e = some g ∧ g.kind = kind := by
  obtain ⟨x, hx, rfl⟩ := Option.map_eq_some_iff.mp h
  exact ⟨x.shapeIn k, by rw [shapeIn?, hx]; rfl, (hu x (mem_of_get? hx).1).kind_shapeIn k⟩

namespace Sketch

/-- What look-ups rest on: no identity is given twice, and those that clusters and the free
constraints refer to are there, of the kinds that the constraints ask for. -/
structure Supplied (s : Sketch) : Prop where
  posed : Posed s
  constraints : s.constraints.ids.Nodup
  clusters : (s.clusters.map (·.id)).Nodup
  members : ∀ e, s.Holds e → ∃ kind, s.elements.kind? e = some kind
  free : ∀ id ∈ s.free, id ∈ s.constraints.ids

theorem Decomposed.supplied {s : Sketch} (hd : Decomposed s) (hg : Grounded s) (h : Posed s) :
    Supplied s := by
  refine ⟨h, ConstraintTable.nodup_ids hg.constraints, nodup_clusterIds hd.numbered,
    fun e he => ?_, fun id hid => (hd.partitioned.cover id).mpr (Or.inl hid)⟩
  obtain ⟨c, hc, hend⟩ := hd.touched e he
  obtain ⟨⟨g, g', hfirst, hsecond, _⟩, _⟩ := h.fits c hc
  rcases Constraint.mem_ends.mp hend with rfl | rfl
  · exact ⟨g, hfirst⟩
  · exact ⟨g', hsecond⟩

theorem map_id_replace (clusters : List Cluster) {k : Cluster} {anchor : ClusterId}
    (hk : k.id = anchor) :
    (clusters.map fun l => if l.id = anchor then k else l).map (·.id) = clusters.map (·.id) := by
  rw [List.map_map]
  refine List.map_congr_left fun l _ => ?_
  by_cases hl : l.id = anchor
  · simp [hl, hk]
  · simp [hl]

theorem Regroup.frame {s t : Sketch} (h : Regroup s t) : t.constraints = s.constraints ∧
    (t.clusters.map (·.id)).Sublist (s.clusters.map (·.id)) ∧ ∀ id ∈ t.free, id ∈ s.free := by
  cases h with
  | move k m =>
    unfold moveCluster
    split <;> exact ⟨rfl, .refl _, fun _ h => h⟩
  | absorb anchor moving links =>
    unfold Sketch.absorb
    split
    · exact ⟨rfl, .refl _, fun _ h => h⟩
    · have herase := (List.eraseP_sublist (p := (·.id = moving)) (l := s.clusters)).map (·.id)
      dsimp only
      split
      · exact ⟨rfl, herase, fun _ h => (OrderedSet.mem_eraseAll.mp h).1⟩
      · rename_i k hk
        have hid : k.id = anchor := by simpa using List.find?_some hk
        refine ⟨rfl, ?_, fun _ h => ?_⟩
        · dsimp only
          rw [map_id_replace]
          · exact herase
          · exact hid
        · exact (OrderedSet.mem_eraseAll.mp (OrderedSet.mem_eraseAll.mp h).1).1

theorem Supplied.regroup {s t : Sketch} (h : Supplied s) (hr : Regroup s t) : Supplied t := by
  obtain ⟨hconstraints, hclusters, hfree⟩ := hr.frame
  have hakin := hr.akin h.posed.uniform
  refine ⟨h.posed.congr hakin (by rw [hconstraints]), ?_, h.clusters.sublist hclusters,
    fun e he => ?_, fun id hid => ?_⟩
  · rw [hconstraints]
    exact h.constraints
  · rw [hakin.kind?]
    exact h.members e (hr.spares.holds e he)
  · rw [hconstraints]
    exact h.free id (hfree id hid)

theorem Supplied.regroups {s t : Sketch} (h : Supplied s) (hr : Regroups s t) : Supplied t := by
  induction hr with
  | refl => exact h
  | tail _ hstep ih => exact ih.regroup hstep

/-- Whatever a solve asks of the sketch has an answer: look-ups of elements, constraints and
clusters, motions between two shapes of one element, and residuals. -/
structure Complete (s : Sketch) : Prop where
  constraints : ∀ c ∈ s.constraints.constraints, s.constraints.get? c.id = some c
  free : ∀ id ∈ s.free, (s.constraints.get? id).isSome
  clusters : ∀ k ∈ s.clusters, s.cluster? k.id = some k
  ends : ∀ c ∈ s.constraints.constraints, ∀ e ∈ c.ends, (s.elements.get? e).isSome
  elements : ∀ k ∈ s.clusters, ∀ e ∈ k.elements, (s.elements.get? e).isSome
  aligned : ∀ e ∈ s.elements.elements, ∀ k l,
    (Motion.align? (e.shapeIn k) (e.shapeIn l)).isSome ∧
      (Motion.align? (e.shapeIn k) e.shape).isSome
  residual : ∀ c ∈ s.constraints.constraints, (s.residual? c.id).isSome ∧
    ∀ k l, (s.residualBy (s.shapeIn? k) c.id).isSome ∧
      (s.residualBy (s.shapeAcross? k l) c.id).isSome

theorem Supplied.get? {s : Sketch} (h : Supplied s) {c : Constraint}
    (hc : c ∈ s.constraints.constraints) : s.constraints.get? c.id = some c :=
  (find?_key_eq_some_iff h.constraints).mpr ⟨hc, rfl⟩

theorem Supplied.exists_get? {s : Sketch} (h : Supplied s) {id : ConstraintId}
    (hid : id ∈ s.constraints.ids) :
    ∃ c ∈ s.constraints.constraints, s.constraints.get? id = some c := by
  obtain ⟨c, hc, rfl⟩ := ConstraintTable.mem_ids.mp hid
  exact ⟨c, hc, h.get? hc⟩

theorem residualBy_isSome {s : Sketch} {c : Constraint} (hget : s.constraints.get? c.id = some c)
    (hfit : c.Fits s.elements) {view : ElementId → Option (Shape Float)}
    (hview : ∀ e kind, s.elements.kind? e = some kind → ∃ g, view e = some g ∧ g.kind = kind) :
    (s.residualBy view c.id).isSome := by
  obtain ⟨⟨_, _, hfirst, hsecond, haccepts⟩, _⟩ := hfit
  obtain ⟨g, hg, rfl⟩ := hview _ _ hfirst
  obtain ⟨g', hg', rfl⟩ := hview _ _ hsecond
  simpa [residualBy, hget, hg, hg'] using RelationKind.residual?_isSome haccepts c.value

theorem Supplied.complete {s : Sketch} (h : Supplied s) : Complete s := by
  have hu := h.posed.uniform
  have hkind : ∀ e kind, s.elements.kind? e = some kind → (s.elements.get? e).isSome := by
    intro e kind he
    obtain ⟨x, hx, _⟩ := Option.map_eq_some_iff.mp he
    rw [hx]
    rfl
  refine ⟨fun c hc => h.get? hc, fun id hid => ?_, fun k hk => ?_, fun c hc e he => ?_,
    fun k hk e he => ?_, fun e he k l => ?_, fun c hc => ?_⟩
  · obtain ⟨c, _, hget⟩ := h.exists_get? (h.free id hid)
    rw [hget]
    rfl
  · exact (find?_key_eq_some_iff h.clusters).mpr ⟨hk, rfl⟩
  · obtain ⟨⟨g, g', hfirst, hsecond, _⟩, _⟩ := h.posed.fits c hc
    rcases Constraint.mem_ends.mp he with rfl | rfl
    · exact hkind _ g hfirst
    · exact hkind _ g' hsecond
  · obtain ⟨kind, hk⟩ := h.members e ⟨k, hk, he⟩
    exact hkind e kind hk
  · have hk := (hu e he).kind_shapeIn k
    exact ⟨Motion.align?_isSome (hk.trans ((hu e he).kind_shapeIn l).symm),
      Motion.align?_isSome hk⟩
  · have hby : ∀ {view : ElementId → Option (Shape Float)}, (∀ e kind,
        s.elements.kind? e = some kind → ∃ g, view e = some g ∧ g.kind = kind) →
        (s.residualBy view c.id).isSome :=
      fun hview => residualBy_isSome (h.get? hc) (h.posed.fits c hc) hview
    refine ⟨hby fun e kind he => ?_, fun k l => ⟨hby fun e kind he => ?_, hby fun e kind he => ?_⟩⟩
    · obtain ⟨x, hx, hkind⟩ := Option.map_eq_some_iff.mp he
      exact ⟨x.shape, by rw [hx]; rfl, hkind⟩
    · exact ElementTable.exists_shapeIn? hu he k
    · exact ElementTable.exists_shapeIn? hu he _

theorem mem_of_linkMembers? {s : Sketch} {members : List (Cluster × List ElementId)}
    (h : s.linkMembers? = some members) {p : Cluster × List ElementId} (hp : p ∈ members) :
    p.1 ∈ s.clusters ∧ ∀ e ∈ p.2, e ∈ p.1.elements := by
  obtain ⟨k, hk, heq⟩ := exists_of_mem_mapM h hp
  dsimp only at heq
  split at heq
  · cases heq
  · cases heq
    exact ⟨hk, fun e he => (List.mem_filter.mp he).1⟩

theorem Complete.isSome_of_mem_linking {s : Sketch} (h : Complete s) {e : ElementId}
    (he : e ∈ s.linking) : (s.elements.get? e).isSome := by
  simp only [linking, OrderedSet.mem_ofList, List.mem_append, List.mem_map, List.mem_filter,
    List.mem_flatMap] at he
  rcases he with (⟨x, ⟨hx, _⟩, rfl⟩ | ⟨id, _, hend⟩) | ⟨k, hk, he, _⟩
  · exact ElementTable.get?_isSome_iff.mpr ⟨x, hx, rfl⟩
  · split at hend
    · rename_i c hc
      exact h.ends c (ConstraintTable.mem_of_get? hc).1 e hend
    · cases hend
  · exact h.elements k hk e he

theorem Complete.isSome_keepPair {s : Sketch} (h : Complete s) {k : Cluster}
    (hk : k ∈ s.clusters) {p : ElementId × ElementId} (h₁ : p.1 ∈ k.elements)
    (h₂ : p.2 ∈ k.elements) (ids : List ElementId) (sys : LeastSquares.System Float) :
    (s.keepPair ids k sys p).isSome := by
  have hshape : ∀ e ∈ k.elements, (s.shapeIn? k.id e).isSome := fun e he => by
    simpa [shapeIn?, ElementTable.shapeIn?] using h.elements k hk e he
  unfold keepPair
  split
  · rfl
  · exact isSome_bind (hshape p.1 h₁) fun _ _ => isSome_bind (hshape p.2 h₂) fun _ _ => rfl

theorem Complete.isSome_relateFree {s : Sketch} (h : Complete s) {id : ConstraintId}
    (hid : id ∈ s.free) (ids : List ElementId) (sys : LeastSquares.System Float) :
    (s.relateFree ids sys id).isSome := by
  refine isSome_bind (h.free id hid) fun c hc => ?_
  have hends := h.ends c (ConstraintTable.mem_of_get? hc).1
  exact isSome_bind (hends c.first (by simp [Constraint.ends])) fun _ _ =>
    isSome_bind (hends c.second (by simp [Constraint.ends])) fun _ _ => rfl

theorem Complete.isSome_linkSystem? {s : Sketch} (h : Complete s)
    {members : List (Cluster × List ElementId)} (hm : s.linkMembers? = some members) :
    (s.linkSystem? members).isSome := by
  refine isSome_bind (isSome_foldlM (fun sys e he => ?_) _) fun unknowns _ =>
    isSome_bind (isSome_foldlM (fun sys p hp => ?_) _) fun kept _ =>
      isSome_foldlM (fun sys id hid => h.isSome_relateFree hid _ sys) kept
  · exact isSome_bind (h.isSome_of_mem_linking he) fun _ _ => rfl
  · obtain ⟨hk, hin⟩ := mem_of_linkMembers? hm hp
    refine isSome_foldlM (fun sys q hq => ?_) sys
    obtain ⟨h₁, h₂⟩ := mem_of_mem_pairs hq
    exact h.isSome_keepPair hk (hin _ h₁) (hin _ h₂) _ sys

end Sketch

end RigidSketch
