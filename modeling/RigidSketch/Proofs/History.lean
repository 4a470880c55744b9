import RigidSketch.Proofs.Preparation
import RigidSketch.Proofs.Retracing

/-! Solving does not depend on history. Relaxation and the solve as a whole do the same after
another history, so two sketches of the same elements and constraints are solved alike, and
their clusters differ in nothing but their names. -/

namespace RigidSketch

open LeastSquares (LinearSolver solveLinear)

theorem mapM_map_option {α β γ : Type} (f : α → Option β) (g : β → γ) (xs : List α) :
    xs.mapM (fun a => (f a).map g) = (xs.mapM f).map (List.map g) := by
  induction xs with
  | nil => rfl
  | cons a xs ih =>
    rw [List.mapM_cons, List.mapM_cons, ih]
    cases f a <;> cases xs.mapM f <;> rfl

namespace Sketch

variable {solver : LinearSolver} (h : History) (s : Sketch)

/-- A cluster with the linking elements in it, under its other name. -/
def membersUnder (p : Cluster × List ElementId) : Cluster × List ElementId :=
  (p.1.under h.guise, p.2)

theorem startShape_guise (e : Element) : startShape (h.guise.element e) = startShape e :=
  Element.startShape_rename ClusterId.shift_injective e

theorem linking_guise : (s.under h.guise).linking = s.linking := by
  have hshared : ((s.under h.guise).elements.elements.filter fun e => 1 < e.owners.length).map
      (·.id) = (s.elements.elements.filter fun e => 1 < e.owners.length).map (·.id) := by
    simp [ElementTable.under, List.filter_map, Element.rename, Function.comp_def]
  have hfixed : ((s.under h.guise).clusters.flatMap fun k =>
      k.elements.toList.filter (s.under h.guise).elements.isFixed) =
      s.clusters.flatMap fun k => k.elements.toList.filter s.elements.isFixed := by
    simp only [clusters_under, List.flatMap_map, Cluster.elements_under, elements_under,
      funext (s.elements.isFixed_under h.guise)]
  simp only [linking, hshared, hfixed, free_under, constraints_under, ConstraintTable.get?_guise]

theorem linkMembers?_guise :
    (s.under h.guise).linkMembers? = s.linkMembers?.map (List.map (membersUnder h)) := by
  rw [linkMembers?, linkMembers?, ← mapM_map_option, linking_guise, clusters_under,
    List.mapM_map]
  congr 1
  funext k
  rw [apply_ite (Option.map (membersUnder h))]
  rfl

theorem keepPair_guise (ids : List ElementId) (k : Cluster) (sys : LeastSquares.System Float)
    (p : ElementId × ElementId) :
    (s.under h.guise).keepPair ids (k.under h.guise) sys p = s.keepPair ids k sys p := by
  simp only [keepPair, Cluster.id_under, History.base_guise, shapeIn?_guise, elements_under,
    ElementTable.isFixed_under]

theorem relateFree_guise (ids : List ElementId) (sys : LeastSquares.System Float)
    (id : ConstraintId) : (s.under h.guise).relateFree ids sys id = s.relateFree ids sys id := by
  simp only [relateFree, constraints_under, ConstraintTable.get?_guise, elements_under,
    ElementTable.get?_under, Option.bind_eq_bind, Option.bind_map, Function.comp_def,
    startShape_guise]

theorem linkSystem?_guise (members : List (Cluster × List ElementId)) :
    (s.under h.guise).linkSystem? (members.map (membersUnder h)) = s.linkSystem? members := by
  have hrelate : (s.under h.guise).relateFree = s.relateFree :=
    funext fun ids => funext fun sys => funext (relateFree_guise h s ids sys)
  have hkeep : ∀ ids k, (s.under h.guise).keepPair ids (k.under h.guise) = s.keepPair ids k :=
    fun ids k => funext fun sys => funext (keepPair_guise h s ids k sys)
  simp only [linkSystem?, linking_guise, hrelate, hkeep, List.foldlM_map, membersUnder,
    elements_under, ElementTable.get?_under, Option.bind_eq_bind, Option.bind_map,
    Function.comp_def, startShape_guise, Guise.fixed_element, free_under]

theorem landsOn_guise (target : ElementId → Option (Shape Float)) (k : Cluster)
    (members : List ElementId) (move : Shape Float → Shape Float) :
    (s.under h.guise).landsOn target (k.under h.guise) members move =
      s.landsOn target k members move := by
  simp only [landsOn, Cluster.id_under, History.base_guise, shapeIn?_guise]
  rfl

theorem linkMotion?_guise (target : ElementId → Option (Shape Float)) (k : Cluster)
    (members : List ElementId) :
    (s.under h.guise).linkMotion? target (k.under h.guise) members =
      s.linkMotion? target k members := by
  simp only [linkMotion?, landsOn_guise, Cluster.id_under, History.base_guise,
    funext (shapeIn?_guise h s k.id)]
  rfl

theorem moveOnto_guise (target : ElementId → Option (Shape Float))
    (members : List (Cluster × List ElementId)) :
    moveOnto target (members.map (membersUnder h)) (s.under h.guise) =
      Prod.map (·.under h.guise) (·) (moveOnto target members s) := by
  induction members generalizing s with
  | nil => rfl
  | cons p rest ih =>
    obtain ⟨k, members⟩ := p
    simp only [List.map_cons, membersUnder, moveOnto, linkMotion?_guise, Cluster.id_under,
      History.base_guise, moveCluster_guise, landsOn_guise]
    cases s.linkMotion? target k members with
    | none => rfl
    | some m =>
      dsimp only
      split
      · exact ih _
      · rfl

theorem joinIntoFirst_guise :
    (s.under h.guise).joinIntoFirst = s.joinIntoFirst.under h.guise := by
  have hfold : ∀ (first : ClusterId) (rest : List Cluster) (s : Sketch),
      (rest.map (·.under h.guise)).foldl (fun s k => s.absorb (first.shift h.base) k.id [])
        (s.under h.guise) = (rest.foldl (fun s k => s.absorb first k.id []) s).under h.guise := by
    intro first rest
    induction rest with
    | nil => exact fun _ => rfl
    | cons k rest ih =>
      intro s
      rw [List.map_cons, List.foldl_cons, List.foldl_cons, Cluster.id_under, History.base_guise,
        absorb_guise]
      exact ih _
  rw [joinIntoFirst, joinIntoFirst, clusters_under]
  cases s.clusters with
  | nil => rfl
  | cons first rest =>
    simp only [List.map_cons, Cluster.id_under, History.base_guise, hfold]
    generalize rest.foldl (fun s k => s.absorb first.id k.id []) s = joined
    simp only [under, List.map_map, Sketch.mk.injEq, true_and, and_true]
    refine List.map_congr_left fun k _ => ?_
    simp only [Function.comp_apply, Cluster.id_under, History.base_guise, shift_inj]
    split <;> rfl

theorem relaxation?_guise :
    (s.under h.guise).relaxation? solver =
      (s.relaxation? solver).map (Prod.map (List.map (membersUnder h)) (·)) := by
  simp only [relaxation?, linkMembers?_guise, linkSystem?_guise, Option.bind_eq_bind,
    Option.bind_map, Option.map_bind, Function.comp_def]
  rfl

theorem relax_guise :
    (s.under h.guise).relax solver = Prod.map (·.under h.guise) (·) (s.relax solver) := by
  rw [relax, relax, relaxation?_guise]
  cases s.relaxation? solver with
  | none => rfl
  | some r =>
    obtain ⟨members, target⟩ := r
    simp only [Option.map_some, Prod.map_apply, moveOnto_guise]
    obtain ⟨t, status⟩ := moveOnto target members s
    cases status with
    | solved =>
      have hloose := ElementTable.map_under h.guise (placeLoose target) (placeLoose target)
        (fun e => (Element.placeLoose_rename target e).symm) t.elements
      have hjoin := joinIntoFirst_guise h { t with elements := t.elements.map (placeLoose target) }
      refine Prod.ext (Eq.trans ?_ hjoin) rfl
      exact congrArg (fun u => joinIntoFirst { t.under h.guise with elements := u }) hloose
    | _ => rfl

theorem realizeClusters_guise :
    (s.under h.guise).realizeClusters = Prod.map (·.under h.guise) (·) s.realizeClusters := by
  simp only [realizeClusters, tolerance_guise, constraints_under, clusters_under, elements_under,
    realizeAll_guise]
  rfl

theorem joinClusters_guise :
    (s.under h.guise).joinClusters solver =
      Prod.map (·.under h.guise) (·) (s.joinClusters solver) := by
  rw [joinClusters, joinClusters, joinAll, joinAll, length_clusters_under, joinRounds_guise]
  obtain ⟨t, status⟩ := joinRounds s.clusters.length s
  cases status with
  | solved =>
    simp only [Prod.map_apply, length_clusters_under, relax_guise]
    split <;> rfl
  | _ => rfl

theorem markSolved_guise : (s.under h.guise).markSolved = s.markSolved.under h.guise := by
  simp only [markSolved, residual?_guise, isMet_guise]
  exact congrArg (fun cs => { s.under h.guise with constraints := cs })
    (s.constraints.map_guise h _)

theorem verdict_guise : (s.under h.guise).verdict = s.verdict := by
  simp only [verdict, constraints_under, ConstraintTable.constraints_guise, blame, elements_under,
    ElementTable.isClaimed_under, conflicting_under]
  rfl

theorem finish_guise (status : Status) :
    (s.under h.guise).finish status =
      Prod.map (·.under { h with edited := false }.guise) (·) (s.finish status) := by
  simp only [finish, markSolved_guise]
  split <;> rfl

theorem solveBuilt_guise :
    (s.under h.guise).solveBuilt solver =
      Prod.map (·.under { h with edited := false }.guise) (·) (s.solveBuilt solver) := by
  have hsettle := ElementTable.map_under h.guise (·.settle) (·.settle)
    fun e => (Element.settle_rename ClusterId.shift_injective e).symm
  rw [solveBuilt, solveBuilt, elements_under, ElementTable.all_isClaimed_under,
    realizeClusters_guise]
  obtain ⟨t, status⟩ := s.realizeClusters
  cases status with
  | solved =>
    simp only [Prod.map_apply, joinClusters_guise]
    obtain ⟨t, status⟩ := t.joinClusters solver
    cases status with
    | solved =>
      have ht : { t.under h.guise with elements := (t.under h.guise).elements.map (·.settle) } =
          { t with elements := t.elements.map (·.settle) }.under h.guise :=
        congrArg (fun u => { t.under h.guise with elements := u }) (hsettle t.elements)
      simp only [Prod.map_apply, ht, markSolved_guise, verdict_guise, finish_guise]
    | _ => exact finish_guise h t _
  | _ => exact finish_guise h t _

def history : History where
  base := s.nextCluster
  nextElement := s.elements.next
  nextConstraint := s.constraints.next
  index := s.constraints.index
  edited := s.edited

/-- A sketch as it is to be partitioned, without a history. -/
def pristine : Sketch := { s.reset with nextCluster := 0 }

variable {s}

theorem Alike.release {t : Sketch} (ha : Alike s t) :
    t.elements.elements.map (·.release) = s.elements.elements.map (·.release) := by
  have hdrawn : ∀ u : ElementTable, u.elements.map (·.release) =
      u.drawing.map fun (id, shape, fixed) => { id, shape, fixed } := by
    intro u
    simp only [ElementTable.drawing, List.map_map]
    rfl
  rw [hdrawn, hdrawn, ha.elements]

theorem Alike.ids {t : Sketch} (ha : Alike s t) : t.constraints.ids = s.constraints.ids := by
  have h := congrArg (List.map Constraint.id) ha.constraints
  rwa [List.map_map, List.map_map] at h

theorem Alike.reset_eq {t : Sketch} (ha : Alike s t) :
    t.reset = s.pristine.under t.history.guise := by
  have hreleased : ∀ es : List Element, (es.map (·.release)).map t.history.guise.element =
      es.map (·.release) := by
    intro es
    rw [List.map_map]
    rfl
  have helements : t.elements.map (·.release) = s.pristine.elements.under t.history.guise := by
    refine congrArg (ElementTable.mk · t.elements.next) ?_
    exact ha.release.trans (hreleased s.elements.elements).symm
  have hconstraints : t.constraints.map ({ · with solved := false }) =
      s.pristine.constraints.under t.history.guise := by
    refine congrArg (ConstraintTable.mk · t.constraints.index t.constraints.next) ?_
    exact ha.constraints.trans (List.map_id' _).symm
  rw [reset, helements, hconstraints, ha.ids, ha.settings]
  rfl

theorem Alike.indexes {t : Sketch} (ha : Alike s t) (hs : Grounded s) (ht : Grounded t) :
    t.history.guise.Indexes s.pristine.constraints := by
  intro e
  refine (List.perm_ext_iff_of_nodup (ht.indexed e).nodup (hs.indexed e).nodup).mpr fun id => ?_
  have hmem : ∀ u : Sketch, Grounded u → (id ∈ u.constraints.on e ↔ ∃ c ∈
      u.constraints.constraints.map ({ · with solved := false }), c.id = id ∧ e ∈ c.ends) := by
    intro u hu
    rw [(hu.indexed e).mem_on]
    simp [Constraint.ends]
  refine (hmem t ht).trans ?_
  rw [ha.constraints]
  exact (hmem s hs).symm

/-- The same but for the names of clusters, which keep their order. -/
structure Matches (ρ : ClusterId → ClusterId) (s t : Sketch) : Prop where
  increasing : ∀ k ∈ s.clusters, ∀ l ∈ s.clusters, k.id.number < l.id.number →
    (ρ k.id).number < (ρ l.id).number
  elements : t.elements.elements = s.elements.elements.map (·.rename ρ)
  constraints : t.constraints.constraints = s.constraints.constraints
  clusters : t.clusters = s.clusters.map (·.rename ρ)
  free : t.free = s.free
  conflicting : t.conflicting = s.conflicting

theorem exists_matches (u : Sketch) (g h : History) :
    ∃ ρ, Matches ρ (u.under g.guise) (u.under h.guise) := by
  let ρ : ClusterId → ClusterId := fun k => ⟨h.base + (k.number - g.base)⟩
  have hρ : ρ ∘ ClusterId.shift g.base = ClusterId.shift h.base := by
    funext k
    simp [ρ, ClusterId.shift]
  refine ⟨ρ, ?_, ?_, ?_, ?_, rfl, rfl⟩
  · intro k hk l hl hlt
    obtain ⟨k, _, rfl⟩ := List.mem_map.mp hk
    obtain ⟨l, _, rfl⟩ := List.mem_map.mp hl
    simp only [Cluster.id_under, History.base_guise, ClusterId.shift, ρ] at hlt ⊢
    omega
  · simp only [elements_under, ElementTable.under, History.element_guise, List.map_map]
    refine List.map_congr_left fun e _ => ?_
    exact (congrArg e.rename hρ.symm).trans (e.rename_rename ρ _).symm
  · simp only [constraints_under, ConstraintTable.constraints_guise]
  · simp only [clusters_under, List.map_map]
    refine List.map_congr_left fun k _ => ?_
    exact congrArg k.rename hρ.symm

theorem Alike.build_eq {t : Sketch} (ha : Alike s t) (hs : Grounded s) (ht : Grounded t)
    (hb : t.built = false) :
    t.build = { s.pristine.commitAll [] none with built := true }.under t.history.guise :=
  build_of_reset t.history.guise hb ha.reset_eq (ha.indexes hs ht)

/-- Sketches that are alike are solved alike, whatever was done with them before. -/
theorem Reachable.solve_alike {s t : Sketch} (hs : Reachable s) (ht : Reachable t)
    (ha : Alike s t) (hs' : s.isSettled = false) (ht' : t.isSettled = false)
    (solver : LinearSolver) :
    (t.solve solver).2 = (s.solve solver).2 ∧
      ∃ ρ, Matches ρ (s.solve solver).1 (t.solve solver).1 := by
  obtain ⟨u, hu, hbu, hau, hpu⟩ := hs.prepared_eq_build hs'
  obtain ⟨v, hv, hbv, hav, hpv⟩ := ht.prepared_eq_build ht'
  have huv : Alike u v := hau.symm.trans (ha.trans hav)
  -- both solves go on from the same clusters, under the names that each history gives them
  have hbuild := (Alike.refl u).build_eq hu.sound.grounded hu.sound.grounded hbu
  have hbuild' := huv.build_eq hu.sound.grounded hv.sound.grounded hbv
  rw [solve_eq_of_not_isSettled hs', solve_eq_of_not_isSettled ht', hpu, hpv, hbuild, hbuild',
    solveBuilt_guise, solveBuilt_guise]
  exact ⟨rfl, exists_matches _ _ _⟩

end Sketch

/-- A triangle, with a fourth point that one side leads to until it is merged into the end of
that side, after clusters were built. -/
def Call.detour : List Call :=
  [addPoint true 0 0, addPoint false 4 0, addPoint false 3 2, addPoint false 9 9,
    constrain .distance ⟨0⟩ ⟨3⟩ 4, constrain .distance ⟨1⟩ ⟨2⟩ 3, constrain .distance ⟨0⟩ ⟨2⟩ 5,
    build, combine ⟨1⟩ ⟨3⟩]

namespace Sketch

theorem solve_alike_detour :
    ((Call.runAll solveLinear Call.detour {}).solve solveLinear).2 =
        ((Call.runAll solveLinear Call.triangle {}).solve solveLinear).2 ∧
      ∃ ρ, Matches ρ ((Call.runAll solveLinear Call.triangle {}).solve solveLinear).1
        ((Call.runAll solveLinear Call.detour {}).solve solveLinear).1 := by
  have ha : Alike (Call.runAll solveLinear Call.triangle {})
      (Call.runAll solveLinear Call.detour {}) :=
    ⟨by decide +kernel, by decide +kernel, by decide +kernel⟩
  have hs : (Call.runAll solveLinear Call.triangle {}).isSettled = false := by decide +kernel
  have ht : (Call.runAll solveLinear Call.detour {}).isSettled = false := by decide +kernel
  exact Reachable.solve_alike ((Reachable.new {}).runAll solveLinear Call.triangle)
    ((Reachable.new {}).runAll solveLinear Call.detour) ha hs ht solveLinear

end Sketch

end RigidSketch
