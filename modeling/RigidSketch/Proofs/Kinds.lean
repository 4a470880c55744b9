import RigidSketch.Proofs.Coverage

/-! Points stay points and lines stay lines. Whatever a solve writes, moves or hands over is of
the kind that the element had, and so are the copies that clusters have of it. -/

namespace RigidSketch

open LeastSquares (LinearSolver)

namespace Placement

variable {S : Type} [Scalar S]

theorem kind_beside? {kind : RelationKind} {v : S} {keeper mover placed : Shape S}
    (h : beside? kind v keeper mover = some placed) : placed.kind = mover.kind := by
  unfold beside? at h
  split at h
  case h_5 => cases h
  all_goals
    cases h
    rfl

omit [Scalar S] in
theorem kind_map {α ε : Type} {f : α → Shape S} {kind : ShapeKind} (hf : ∀ a, (f a).kind = kind)
    {r : Except ε α} {placed : Shape S} (h : r.map f = .ok placed) : placed.kind = kind := by
  cases r with
  | error e => cases h
  | ok a =>
    cases h
    exact hf a

theorem kind_place {tolerance : S} {prior placed : Shape S} {s t : Tie S}
    (h : place tolerance prior s t = .ok placed) : placed.kind = prior.kind := by
  have hpoint : ∀ r : Except PlacementError (Vec S), r.map .point = .ok placed →
      placed.kind = .point := fun _ => kind_map (f := .point) fun _ => rfl
  have hline : ∀ r : Except PlacementError (Line S), r.map .line = .ok placed →
      placed.kind = .line := fun _ => kind_map (f := .line) fun _ => rfl
  cases prior with
  | point p =>
    dsimp only [place] at h
    split at h
    case h_5 => cases h
    all_goals exact hpoint _ h
  | line l =>
    dsimp only [place] at h
    split at h
    case h_1 => exact hline _ h
    case h_4 => cases h
    all_goals
      cases h
      rfl

end Placement

@[simp] theorem Motion.kind_move {S : Type} [Scalar S] (m : Motion S) (g : Shape S) :
    (m.move g).kind = g.kind := by
  cases g <;> rfl

namespace Element

/-- Every copy is of the kind of the element. -/
def Uniform (e : Element) : Prop := ∀ p ∈ e.copies, p.2.shape.kind = e.shape.kind

/-- The same element, of the same kind, with copies of that kind. -/
structure Akin (e e' : Element) : Prop where
  id : e'.id = e.id
  kind : e'.shape.kind = e.shape.kind
  uniform : e'.Uniform

theorem Uniform.akin {e : Element} (h : e.Uniform) : e.Akin e := ⟨rfl, rfl, h⟩

theorem Uniform.kind_copy {e : Element} (h : e.Uniform) {k : ClusterId} {c : Copy}
    (hc : e.copy? k = some c) : c.shape.kind = e.shape.kind := by
  obtain ⟨before, after, hl, _⟩ := List.lookup_eq_some_iff.mp hc
  exact h (k, c) (by simp [hl])

theorem Uniform.kind_shapeIn {e : Element} (h : e.Uniform) (k : ClusterId) :
    (e.shapeIn k).kind = e.shape.kind := by
  unfold shapeIn
  split
  · rename_i c hc
    exact h.kind_copy hc
  · rfl

theorem Uniform.dropCopy {e : Element} (h : e.Uniform) (k : ClusterId) :
    (e.dropCopy k).Uniform :=
  fun p hp => h p (List.mem_of_mem_filter hp)

theorem Uniform.putCopy {e : Element} (h : e.Uniform) (k : ClusterId) {c : Copy}
    (hc : c.shape.kind = e.shape.kind) : (e.putCopy k c).Uniform := by
  intro p hp
  rcases List.mem_append.mp hp with hp | hp
  · exact h p (List.mem_of_mem_filter hp)
  · rw [List.mem_singleton.mp hp]
    exact hc

theorem Uniform.setShapeIn {e : Element} (h : e.Uniform) (k : ClusterId) {g : Shape Float}
    (hg : g.kind = e.shape.kind) : e.Akin (e.setShapeIn k g) := by
  unfold Element.setShapeIn
  split
  · exact ⟨rfl, rfl, h.putCopy k hg⟩
  · exact ⟨rfl, hg, fun p hp => (h p hp).trans hg.symm⟩

theorem Uniform.moveIn {e : Element} (h : e.Uniform) (k : ClusterId) (m : Motion Float) :
    e.Akin (e.moveIn k m) := by
  apply h.setShapeIn
  rw [Motion.kind_move, h.kind_shapeIn]

theorem Uniform.claim {e : Element} (h : e.Uniform) (k : ClusterId) : e.Akin (e.claim k) := by
  obtain ⟨hid, hshape, _, _⟩ := e.claim_frame k
  refine ⟨hid, by rw [hshape], fun p hp => ?_⟩
  rw [hshape]
  have hput : ∀ l, (e.putCopy l ⟨e.shape, e.level⟩).Uniform := fun l => h.putCopy l rfl
  unfold Element.claim at hp
  split at hp
  · exact h p hp
  · dsimp only at hp
    split at hp
    · split at hp
      · exact hput k p hp
      · exact h p hp
    · rename_i first _
      split at hp
      · exact hput k p hp
      · exact (hput first).putCopy k (c := ⟨e.shape, e.level⟩) rfl p hp
    · exact hput k p hp

theorem Uniform.settle {e : Element} (h : e.Uniform) : e.Akin e.settle := by
  unfold Element.settle
  split
  · rename_i k _
    split
    · rename_i c hc
      dsimp only
      split
      · exact ⟨rfl, rfl, h.dropCopy k⟩
      · have hkind := h.kind_copy hc
        exact ⟨rfl, hkind, fun p hp => (h.dropCopy k p hp).trans hkind.symm⟩
    · exact h.akin
  · exact h.akin

theorem Uniform.reassign {e : Element} (h : e.Uniform) (old new : ClusterId) :
    e.Akin (e.reassign old new) := by
  have hsettle : ∀ {x : Element} (owners : List ClusterId), e.Akin x →
      e.Akin { x with owners }.settle := by
    intro x owners hx
    have hs := Uniform.settle (e := { x with owners }) hx.uniform
    exact ⟨hs.id.trans hx.id, hs.kind.trans hx.kind, hs.uniform⟩
  have hdrop : e.Akin (e.dropCopy old) := ⟨rfl, rfl, h.dropCopy old⟩
  unfold Element.reassign
  dsimp only
  split
  · exact hdrop
  · split
    · exact hsettle _ hdrop
    · refine hsettle _ ?_
      split
      · rename_i c hc
        exact ⟨rfl, rfl, hdrop.uniform.putCopy new (h.kind_copy hc)⟩
      · exact hdrop

end Element

namespace ElementTable

/-- The elements in order, each with its kind. -/
def kinds (t : ElementTable) : List (ElementId × ShapeKind) :=
  t.elements.map fun e => (e.id, e.shape.kind)

def Uniform (t : ElementTable) : Prop := ∀ e ∈ t.elements, e.Uniform

structure Akin (t t' : ElementTable) : Prop where
  kinds : t'.kinds = t.kinds
  uniform : t'.Uniform

theorem Uniform.akin {t : ElementTable} (h : t.Uniform) : t.Akin t := ⟨rfl, h⟩

theorem Akin.trans {t t' t'' : ElementTable} (h : t.Akin t') (h' : t'.Akin t'') : t.Akin t'' :=
  ⟨h'.kinds.trans h.kinds, h'.uniform⟩

theorem Uniform.map {t : ElementTable} (h : t.Uniform) {f : Element → Element}
    (hf : ∀ e ∈ t.elements, e.Uniform → e.Akin (f e)) : t.Akin (t.map f) := by
  constructor
  · unfold kinds ElementTable.map
    rw [List.map_map]
    refine List.map_congr_left fun e he => ?_
    have hk := hf e he (h e he)
    exact Prod.ext hk.id hk.kind
  · intro e' he'
    obtain ⟨e, he, rfl⟩ := List.mem_map.mp he'
    exact (hf e he (h e he)).uniform

theorem Uniform.mapWhere {t : ElementTable} (h : t.Uniform) {p : ElementId → Bool}
    {f : Element → Element} (hf : ∀ e ∈ t.elements, p e.id → e.Uniform → e.Akin (f e)) :
    t.Akin (t.mapWhere p f) := by
  refine h.map (f := fun e => if p e.id then f e else e) fun e he hu => ?_
  by_cases hp : p e.id
  · rw [if_pos hp]
    exact hf e he hp hu
  · rw [if_neg hp]
    exact hu.akin

theorem Akin.nodup {t t' : ElementTable} (h : t.Akin t') (hn : (t.elements.map (·.id)).Nodup) :
    (t'.elements.map (·.id)).Nodup := by
  have hids : ∀ u : ElementTable, u.elements.map (·.id) = u.kinds.map (·.1) := by
    intro u
    simp [ElementTable.kinds, Function.comp_def]
  rw [hids, h.kinds, ← hids]
  exact hn

theorem Uniform.setShapeIn {t : ElementTable} (h : t.Uniform)
    (hn : (t.elements.map (·.id)).Nodup) {k : ClusterId} {id : ElementId} {prior g : Shape Float}
    (hp : t.shapeIn? k id = some prior) (hg : g.kind = prior.kind) :
    t.Akin (t.setShapeIn k id g) := by
  refine h.mapWhere (p := (· = id)) (f := (·.setShapeIn k g)) fun e he hid hu => hu.setShapeIn k ?_
  obtain ⟨x, hx, rfl⟩ := Option.map_eq_some_iff.mp hp
  have hget : t.get? id = some e := (find?_key_eq_some_iff hn).mpr ⟨he, by simpa using hid⟩
  obtain rfl := Option.some.inj (hx.symm.trans hget)
  rw [hg, hu.kind_shapeIn]

def kind? (t : ElementTable) (id : ElementId) : Option ShapeKind :=
  (t.get? id).map (·.shape.kind)

theorem kind?_eq_lookup (t : ElementTable) (id : ElementId) : t.kind? id = t.kinds.lookup id := by
  unfold kind? get? kinds
  induction t.elements with
  | nil => rfl
  | cons e es ih =>
    by_cases he : e.id = id
    · simp [he]
    · have hne : (id == e.id) = false := by simpa using fun h => he h.symm
      simpa [he, List.lookup_cons, hne] using ih

theorem Akin.kind? {t t' : ElementTable} (h : t.Akin t') (id : ElementId) :
    t'.kind? id = t.kind? id := by
  rw [kind?_eq_lookup, kind?_eq_lookup, h.kinds]

end ElementTable

namespace Cluster

theorem akin_placeStep {k : Cluster} {tolerance : Float} {cs : ConstraintTable}
    {t t' : ElementTable} {step : GrowthStep} (h : t.Uniform)
    (hn : (t.elements.map (·.id)).Nodup) (ht : k.placeStep tolerance cs t step = .ok t') :
    t.Akin t' := by
  cases step with
  | seed id =>
    unfold placeStep placeSeed at ht
    dsimp only at ht
    split at ht
    · cases ht
    · split at ht
      · rename_i hmover
        split at ht
        · rename_i hplaced
          cases ht
          exact h.setShapeIn hn hmover (Placement.kind_beside? hplaced)
        · cases ht
      · cases ht
  | place e c₁ c₂ =>
    unfold placeStep placeElement at ht
    dsimp only at ht
    split at ht
    · rename_i hprior _ _
      split at ht
      · rename_i hplaced
        cases ht
        exact h.setShapeIn hn hprior (Placement.kind_place hplaced)
      · cases ht
    · cases ht

theorem akin_placeSteps (k : Cluster) (tolerance : Float) (cs : ConstraintTable)
    (steps : List GrowthStep) {t : ElementTable} (h : t.Uniform)
    (hn : (t.elements.map (·.id)).Nodup) : t.Akin (k.placeSteps tolerance cs steps t).1 := by
  induction steps generalizing t with
  | nil => exact h.akin
  | cons step rest ih =>
    unfold placeSteps
    cases hstep : k.placeStep tolerance cs t step with
    | error status => exact h.akin
    | ok t' =>
      have hone := akin_placeStep h hn hstep
      exact hone.trans (ih hone.uniform (hone.nodup hn))

theorem akin_move (k : Cluster) (m : Motion Float) {t : ElementTable} (h : t.Uniform) :
    t.Akin (k.move m t) :=
  h.mapWhere fun _ _ _ hu => hu.moveIn k.id m

theorem akin_anchor (k : Cluster) (tolerance : Float) {t : ElementTable} (h : t.Uniform) :
    t.Akin (k.anchor tolerance t).1 := by
  unfold anchor
  split
  · exact h.akin
  · split
    · exact h.akin
    · exact k.akin_move _ h

end Cluster

namespace Sketch

/-- Joining does nothing but move clusters and give all of one cluster to another. -/
inductive Regroup : Sketch → Sketch → Prop
  | move (s : Sketch) (k : ClusterId) (m : Motion Float) : Regroup s (s.moveCluster k m)
  | absorb (s : Sketch) (anchor moving : ClusterId) (links : List ConstraintId) :
      Regroup s (s.absorb anchor moving links)

abbrev Regroups := Relation.ReflTransGen Regroup

theorem Regroup.akin {s t : Sketch} (h : Regroup s t) (hu : s.elements.Uniform) :
    s.elements.Akin t.elements := by
  cases h with
  | move k m =>
    unfold moveCluster
    split
    · rename_i c _
      exact c.akin_move m hu
    · exact hu.akin
  | absorb anchor moving links =>
    unfold Sketch.absorb
    split
    · exact hu.akin
    · rename_i gone _
      have hgone := hu.mapWhere (p := (· ∈ gone.elements)) (f := (·.reassign moving anchor))
        fun e _ _ he => he.reassign moving anchor
      dsimp only
      split <;> exact hgone

theorem Regroups.akin {s t : Sketch} (h : Regroups s t) (hu : s.elements.Uniform) :
    s.elements.Akin t.elements := by
  induction h with
  | refl => exact hu.akin
  | tail _ hstep ih => exact ih.trans (hstep.akin ih.uniform)

theorem regroups_firstOutcome {α : Type} {attempt : α → Sketch → Sketch × Option JoinOutcome}
    {xs : List α} (h : ∀ a ∈ xs, ∀ t, Regroups t (attempt a t).1) (s : Sketch) :
    Regroups s (firstOutcome attempt xs s).1 := by
  induction xs generalizing s with
  | nil => exact .refl
  | cons a xs ih =>
    have ha := h a List.mem_cons_self s
    unfold firstOutcome
    split
    · rename_i t heq
      rw [heq] at ha
      exact ha.trans (ih (fun b hb => h b (List.mem_cons_of_mem _ hb)) t)
    · exact ha

theorem regroups_joinPair (p : Cluster × Cluster) (s : Sketch) :
    Regroups s (joinPair p s).1 := by
  unfold joinPair joinSharing
  dsimp only
  split
  · exact .refl
  · exact .refl
  · rename_i m _
    refine .head (.move s (s.anchorOrder p.1 p.2).2 m) ?_
    split
    · exact .single (.absorb _ _ _ _)
    · exact .refl

theorem regroups_joinHinged (h : Hinge) (s : Sketch) : Regroups s (joinHinged h s).1 := by
  unfold joinHinged
  split
  · rename_i p _
    refine .head (.move s h.moving p.align) ?_
    unfold turnHinged
    split
    · split
      · exact .refl
      · split
        · exact .refl
        · rename_i m _
          refine .head (.move _ h.moving m) ?_
          dsimp only
          split
          · exact .single (.absorb _ _ _ _)
          · exact .refl
    · exact .refl
  · exact .refl

theorem regroups_joinTriangle (t : Triangle) (s : Sketch) : Regroups s (joinTriangle t s).1 := by
  unfold joinTriangle
  split
  · rename_i p _
    refine .head (.move s t.b p.align) ?_
    unfold closeTriangle
    split
    · exact .refl
    · split
      · exact .refl
      · split
        · exact .refl
        · exact .refl
        · rename_i m n _
          refine .head (.move _ t.b m) (.head (.move _ t.c n) ?_)
          dsimp only
          split
          · exact .head (.absorb _ _ _ _) (.single (.absorb _ _ _ _))
          · exact .refl
  · exact .refl

theorem regroups_joinLinked (l : Linkage) (s : Sketch) : Regroups s (joinLinked l s).1 := by
  unfold joinLinked
  split
  · rename_i p _
    refine .head (.move s l.moving p.turn) ?_
    unfold slideLinked
    split
    · split
      · exact .refl
      · rename_i shift _
        refine .head (.move _ l.moving (.slide shift)) ?_
        dsimp only
        split
        · exact .single (.absorb _ _ _ _)
        · exact .refl
    · exact .refl
  · exact .refl

theorem regroups_joinOnce (s : Sketch) : Regroups s s.joinOnce.1 := by
  refine regroups_firstOutcome (fun attempt hin t => ?_) s
  simp only [List.mem_cons, List.not_mem_nil, or_false] at hin
  rcases hin with rfl | rfl | rfl | rfl
  · exact regroups_firstOutcome (fun p _ => regroups_joinPair p) t
  · exact regroups_firstOutcome (fun h _ => regroups_joinHinged h) t
  · exact regroups_firstOutcome (fun u _ => regroups_joinTriangle u) t
  · exact regroups_firstOutcome (fun l _ => regroups_joinLinked l) t

theorem regroups_drag (s : Sketch) (moves : List (ClusterId × Motion Float)) :
    Regroups s (s.drag moves) := by
  induction moves generalizing s with
  | nil => exact .refl
  | cons p moves ih => exact .head (.move s p.1 p.2) (ih _)

theorem regroups_foldl_absorb (first : ClusterId) (rest : List Cluster) (s : Sketch) :
    Regroups s (rest.foldl (fun s k => s.absorb first k.id []) s) := by
  induction rest generalizing s with
  | nil => exact .refl
  | cons k rest ih => exact .head (.absorb s first k.id []) (ih _)

theorem akin_joinIntoFirst {s : Sketch} (hu : s.elements.Uniform) :
    s.elements.Akin s.joinIntoFirst.elements := by
  unfold joinIntoFirst
  split
  · exact hu.akin
  · rename_i first rest _
    exact (regroups_foldl_absorb first.id rest s).akin hu

theorem akin_relax (solver : LinearSolver) {s : Sketch} (hd : Decomposed s)
    (hu : s.elements.Uniform) : s.elements.Akin (s.relax solver).1.elements := by
  unfold relax
  cases hr : s.relaxation? solver with
  | none => exact hu.akin
  | some p =>
    obtain ⟨members, target⟩ := p
    have hdrag := (moveOnto_eq_drag target members s).1
    have hmoved := (regroups_drag s (ontoMoves target members s)).akin hu
    rw [← hdrag] at hmoved
    dsimp only
    split
    · rename_i t heq
      have hrest := moved_drag s (ontoMoves target members s)
      rw [← hdrag, heq] at hrest
      rw [heq] at hmoved
      rw [map_placeLoose hd hr hrest]
      exact hmoved.trans (akin_joinIntoFirst hmoved.uniform)
    · exact hmoved

end Sketch

theorem Point.akin_step {b : Sketch} (hg : b.Grounded) {p : Point} (h : Underway b p)
    (hu : p.sketch.elements.Uniform) (solver : LinearSolver) (coverage : Status) :
    p.sketch.elements.Akin (step solver coverage p).sketch.elements := by
  have hd := h.follows.decomposed
  have hn := ElementTable.nodup_ids (hg.congr h.follows.problem).elements
  obtain ⟨stage, s⟩ := p
  cases stage with
  | realizing todo =>
    cases todo with
    | nil => exact hu.akin
    | cons k todo => exact k.akin_placeSteps _ _ _ hu hn
  | anchoring k todo => exact k.akin_anchor _ hu
  | joining rounds =>
    cases rounds with
    | zero => exact hu.akin
    | succ rounds =>
      have hjoin := s.regroups_joinOnce.akin hu
      dsimp only [step]
      split
      · exact hu.akin
      · rcases hr : s.joinOnce with ⟨t, outcome⟩
        rw [hr] at hjoin
        cases outcome with
        | none => exact hjoin
        | some outcome => cases outcome <;> exact hjoin
  | relaxing =>
    dsimp only [step]
    split
    · exact Sketch.akin_relax solver hd hu
    · exact hu.akin
  | settling => exact hu.map fun _ _ he => he.settle
  | closing status =>
    dsimp only [step, Sketch.finish]
    split <;> exact hu.akin
  | closed status => exact hu.akin

namespace Sketch

theorem akin_of_mem_points {solver : LinearSolver} {b : Sketch} (hg : b.Grounded) (hf : b.Fresh)
    (hu : b.elements.Uniform) {p : Point} (hp : p ∈ b.points solver) :
    b.elements.Akin p.sketch.elements := by
  refine points_induction (P := fun t => b.elements.Akin t.elements) hg hf hu.akin
    (fun p h ih => ?_) hp
  exact ih.trans (Point.akin_step hg h ih.uniform _ _)

theorem akin_reset (s : Sketch) : s.elements.Akin s.reset.elements := by
  constructor
  · show (s.elements.map (·.release)).kinds = s.elements.kinds
    simp [ElementTable.kinds, ElementTable.map, Function.comp_def, Element.release]
  · intro e' he' p hp
    obtain ⟨e, _, rfl⟩ := List.mem_map.mp he'
    cases hp

theorem akin_commit {s : Sketch} (hu : s.elements.Uniform) (g : Growth) :
    s.elements.Akin (s.commit g).elements := by
  have hclaim := hu.mapWhere (p := (· ∈ g.cluster.elements)) (f := (·.claim g.cluster.id))
    fun e _ _ he => he.claim g.cluster.id
  have hraise := hclaim.uniform.mapWhere (p := (· ∈ g.cluster.elements))
    (f := fun e => if e.level = .under then { e with level := .full } else e) fun e _ _ he => by
      split <;> exact ⟨rfl, rfl, he⟩
  have hcrowd := hraise.uniform.mapWhere (p := (· ∈ g.crowded))
    (f := ({ · with level := .over })) fun e _ _ he => ⟨rfl, rfl, he⟩
  exact (hclaim.trans hraise).trans hcrowd

theorem akin_build {s : Sketch} (hg : Grounded s) (hu : s.elements.Uniform) :
    s.elements.Akin s.build.elements := by
  cases hb : s.built with
  | true =>
    have hs : s.build = s := by simp [build, hb]
    rw [hs]
    exact hu.akin
  | false =>
    refine build_induction (P := fun t => s.elements.Akin t.elements) hg hb (akin_reset s)
      (fun _ _ _ h => h) fun t k seed _ _ _ h => ?_
    exact h.trans (akin_commit h.uniform _)

theorem Sound.akin_solve {s : Sketch} (h : Sound s) (hu : s.elements.Uniform)
    (solver : LinearSolver) : s.elements.Akin (s.solve solver).1.elements := by
  cases hs : s.isSettled with
  | true =>
    rw [solve_eq_of_isSettled hs]
    exact hu.akin
  | false =>
    obtain ⟨hg, hf⟩ := h.prepared hs
    have hprepared : s.elements.Akin s.prepared.elements := by
      unfold Sketch.prepared
      split
      · have hreset := akin_reset s
        exact hreset.trans (akin_build h.grounded.reset hreset.uniform)
      · exact akin_build h.grounded hu
    rw [solve_eq_of_not_isSettled hs]
    have hlast := List.mem_of_getLast? (getLast?_points solver s.prepared)
    exact hprepared.trans (akin_of_mem_points hg hf hprepared.uniform hlast)

end Sketch

end RigidSketch
