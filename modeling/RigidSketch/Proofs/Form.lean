import RigidSketch.Proofs.History
import RigidSketch.Proofs.WellPosed

/-! Clusters depend on the form of a sketch alone: on the kinds of its elements, on which of
them are fixed, and on which constraints there are between them. Places and values, and so what
a solve does with them, make no difference. -/

namespace RigidSketch

open LeastSquares (LinearSolver solveLinear)

namespace Element

/-- The element with its shape replaced, also in every copy. -/
def redraw (φ : Shape Float → Shape Float) (e : Element) : Element :=
  { e with
    shape := φ e.shape
    copies := e.copies.map fun p => (p.1, { p.2 with shape := φ p.2.shape }) }

variable (φ : Shape Float → Shape Float)

theorem putCopy_redraw (e : Element) (k : ClusterId) (c : Copy) :
    (e.redraw φ).putCopy k { c with shape := φ c.shape } = (e.putCopy k c).redraw φ := by
  simp [putCopy, redraw, List.filter_map, Function.comp_def]

theorem setOwners_redraw (e : Element) (owners : List ClusterId) :
    { e.redraw φ with owners } = ({ e with owners } : Element).redraw φ := rfl

theorem claim_redraw (e : Element) (k : ClusterId) :
    (e.redraw φ).claim k = (e.claim k).redraw φ := by
  by_cases hk : k ∈ e.owners
  · have hk' : k ∈ (e.redraw φ).owners := hk
    rw [claim, claim, if_pos hk, if_pos hk']
  · have hk' : k ∉ (e.redraw φ).owners := hk
    rw [claim, claim, if_neg hk, if_neg hk']
    refine Eq.trans (congrArg (fun c : Element => { c with owners := e.owners ++ [k] }) ?_)
      (setOwners_redraw φ _ (e.owners ++ [k]))
    have hput := putCopy_redraw φ e
    obtain ⟨id, shape, fixed, level, owners, copies⟩ := e
    rcases owners with _ | ⟨first, _ | ⟨second, rest⟩⟩
    · cases fixed with
      | false => rfl
      | true => exact hput k ⟨shape, level⟩
    · cases fixed with
      | false =>
        exact (congrArg (putCopy · k ⟨φ shape, level⟩) (hput first ⟨shape, level⟩)).trans
          (putCopy_redraw φ _ k ⟨shape, level⟩)
      | true => exact hput k ⟨shape, level⟩
    · exact hput k ⟨shape, level⟩

end Element

/-- The shape that a table has for an element, if it is of the same kind. -/
def ElementTable.shapeFor (t : ElementTable) (id : ElementId) (g : Shape Float) : Shape Float :=
  match t.get? id with
  | some e => if e.shape.kind = g.kind then e.shape else g
  | none => g

theorem ElementTable.kind_shapeFor (t : ElementTable) (id : ElementId) (g : Shape Float) :
    (t.shapeFor id g).kind = g.kind := by
  unfold shapeFor
  split
  · split
    · assumption
    · rfl
  · rfl

def ConstraintTable.valueFor (t : ConstraintTable) (c : Constraint) : Float :=
  match t.get? c.id with
  | some d => d.value
  | none => c.value

namespace Sketch

/-- Elements and constraints as another sketch has them. -/
def guise (t : Sketch) : Guise where
  toHistory := t.history
  settings _ := t.settings
  element e := (e.redraw (t.elements.shapeFor e.id)).rename (·.shift t.nextCluster)
  constraint c := { c with value := t.constraints.valueFor c }
  id_element _ := rfl
  fixed_element _ := rfl
  kind_element e := t.elements.kind_shapeFor e.id e.shape
  level_element _ := rfl
  isClaimed_element e := Element.isClaimed_rename (e.redraw _)
  element_claim e k := by
    rw [(e.claim_frame k).1, ← Element.claim_redraw]
    exact (Element.claim_rename ClusterId.shift_injective _ k).symm
  element_setLevel _ _ := rfl
  id_constraint _ := rfl
  kind_constraint _ := rfl
  first_constraint _ := rfl
  second_constraint _ := rfl

end Sketch

def ConstraintTable.form (t : ConstraintTable) :
    List (ConstraintId × RelationKind × ElementId × ElementId) :=
  t.constraints.map fun c => (c.id, c.kind, c.first, c.second)

namespace Sketch

/-- The same elements, of the same kinds and fixed alike, with constraints of the same kinds
between them. -/
structure SameForm (s t : Sketch) : Prop where
  kinds : t.elements.kinds = s.elements.kinds
  roster : t.elements.roster = s.elements.roster
  constraints : t.constraints.form = s.constraints.form

theorem SameForm.refl (s : Sketch) : SameForm s s := ⟨rfl, rfl, rfl⟩

theorem SameForm.trans {s t u : Sketch} (h : SameForm s t) (h' : SameForm t u) : SameForm s u :=
  ⟨h'.kinds.trans h.kinds, h'.roster.trans h.roster, h'.constraints.trans h.constraints⟩

theorem SameForm.release {s t : Sketch} (h : SameForm s t) (hs : Grounded s) (ht : Grounded t) :
    t.elements.elements.map (·.release) =
      (s.elements.elements.map (·.release)).map t.guise.element := by
  -- both sides read the shape of each element off `t`
  let drawn : ElementId × Bool → Option Element := fun p =>
    (t.elements.get? p.1).map fun e => { id := p.1, shape := e.shape, fixed := p.2 }
  have hleft : (t.elements.elements.map (·.release)).map some = t.elements.roster.map drawn := by
    unfold ElementTable.roster
    rw [List.map_map, List.map_map]
    refine List.map_congr_left fun e he => ?_
    have hget := (ElementTable.get?_eq_some_iff ht.elements).mpr ⟨he, rfl⟩
    simp only [Function.comp_apply, drawn, hget]
    rfl
  have hright : ((s.elements.elements.map (·.release)).map t.guise.element).map some =
      s.elements.roster.map drawn := by
    unfold ElementTable.roster
    rw [List.map_map, List.map_map, List.map_map]
    refine List.map_congr_left fun e he => ?_
    obtain ⟨e', he', hid, hfixed⟩ := ElementTable.mem_of_roster h.roster he
    have hget := (ElementTable.get?_eq_some_iff ht.elements).mpr ⟨he', hid⟩
    have hkind : e'.shape.kind = e.shape.kind := by
      have hlook := congrArg (List.lookup e.id) h.kinds
      have hget' := (ElementTable.get?_eq_some_iff hs.elements).mpr ⟨he, rfl⟩
      rw [← ElementTable.kind?_eq_lookup, ← ElementTable.kind?_eq_lookup, ElementTable.kind?,
        ElementTable.kind?, hget, hget'] at hlook
      exact Option.some.inj hlook
    have hshape : t.elements.shapeFor e.id e.shape = e'.shape := by
      simp [ElementTable.shapeFor, hget, hkind]
    simp only [Function.comp_apply, drawn, hget, Option.map_some, Option.some.injEq]
    rw [← hshape]
    rfl
  refine List.map_injective_iff.mpr (Option.some_injective _) ?_
  rw [hleft, hright, h.roster]

theorem SameForm.unsolved {s t : Sketch} (h : SameForm s t) (ht : Grounded t) :
    t.constraints.unsolved.constraints =
      s.constraints.unsolved.constraints.map t.guise.constraint := by
  let valued : ConstraintId × RelationKind × ElementId × ElementId → Option Constraint :=
    fun p => (t.constraints.get? p.1).map fun d =>
      { id := p.1, kind := p.2.1, first := p.2.2.1, second := p.2.2.2, value := d.value }
  have hleft : t.constraints.unsolved.constraints.map some = t.constraints.form.map valued := by
    unfold ConstraintTable.form ConstraintTable.unsolved ConstraintTable.map
    rw [List.map_map, List.map_map]
    refine List.map_congr_left fun c hc => ?_
    have hget := (ConstraintTable.get?_eq_some_iff ht.constraints).mpr ⟨hc, rfl⟩
    simp only [Function.comp_apply, valued, hget]
    rfl
  have hright : (s.constraints.unsolved.constraints.map t.guise.constraint).map some =
      s.constraints.form.map valued := by
    have hids : ∀ c ∈ s.constraints.constraints, ∃ d, t.constraints.get? c.id = some d := by
      intro c hc
      have hm : (c.id, c.kind, c.first, c.second) ∈ t.constraints.form := by
        rw [h.constraints]
        exact List.mem_map.mpr ⟨c, hc, rfl⟩
      obtain ⟨d, hd, heq⟩ := List.mem_map.mp hm
      exact ⟨d, (ConstraintTable.get?_eq_some_iff ht.constraints).mpr ⟨hd, congrArg Prod.fst heq⟩⟩
    unfold ConstraintTable.form ConstraintTable.unsolved ConstraintTable.map
    rw [List.map_map, List.map_map, List.map_map]
    refine List.map_congr_left fun c hc => ?_
    obtain ⟨d, hd⟩ := hids c hc
    simp only [Function.comp_apply, valued, hd, Option.map_some, Option.some.injEq]
    simp [guise, ConstraintTable.valueFor, hd]
  refine List.map_injective_iff.mpr (Option.some_injective _) ?_
  rw [hleft, hright, h.constraints]

theorem SameForm.reset_eq {s t : Sketch} (h : SameForm s t) (hs : Grounded s) (ht : Grounded t) :
    t.reset = s.pristine.under t.guise := by
  have helements : t.elements.map (·.release) = s.pristine.elements.under t.guise :=
    congrArg (ElementTable.mk · t.elements.next) (h.release hs ht)
  have hconstraints : t.constraints.map ({ · with solved := false }) =
      s.pristine.constraints.under t.guise :=
    congrArg (ConstraintTable.mk · t.constraints.index t.constraints.next) (h.unsolved ht)
  have hids : t.constraints.ids = s.constraints.ids := by
    have hform := congrArg (List.map Prod.fst) h.constraints
    rwa [ConstraintTable.form, ConstraintTable.form, List.map_map, List.map_map] at hform
  rw [reset, helements, hconstraints, hids]
  rfl

theorem SameForm.indexes {s t : Sketch} (h : SameForm s t) (hs : Grounded s) (ht : Grounded t) :
    t.guise.Indexes s.pristine.constraints := by
  intro e
  refine (List.perm_ext_iff_of_nodup (ht.indexed e).nodup (hs.indexed e).nodup).mpr fun id => ?_
  have hmem : ∀ u : Sketch, Grounded u → (id ∈ u.constraints.on e ↔
      ∃ p ∈ u.constraints.form, p.1 = id ∧ (e = p.2.2.1 ∨ e = p.2.2.2)) := by
    intro u hu
    rw [(hu.indexed e).mem_on]
    simp [ConstraintTable.form, Constraint.mem_ends]
  refine (hmem t ht).trans ?_
  rw [h.constraints]
  exact (hmem s hs).symm

@[simp] theorem reset_reset (s : Sketch) : s.reset.reset = s.reset := by
  simp [reset, ElementTable.map, ConstraintTable.map, ConstraintTable.ids, Function.comp_def,
    Element.release]

theorem build_eq_of_not_built {s : Sketch} (h : s.built = false) : s.build = s.reset.build := by
  rw [build, build, h, reset_reset]
  rfl

theorem SameForm.build_eq {s t : Sketch} (h : SameForm s t) (hs : Grounded s) (ht : Grounded t) :
    t.reset.build = { s.pristine.commitAll [] none with built := true }.under t.guise := by
  refine build_of_reset t.guise rfl ?_ (h.indexes hs ht)
  rw [reset_reset, h.reset_eq hs ht]

/-- The same clusters under other names, which keep their order, and the same findings. -/
structure SameParts (ρ : ClusterId → ClusterId) (s t : Sketch) : Prop where
  increasing : ∀ k ∈ s.clusters, ∀ l ∈ s.clusters, k.id.number < l.id.number →
    (ρ k.id).number < (ρ l.id).number
  clusters : t.clusters = s.clusters.map (·.rename ρ)
  free : t.free = s.free
  conflicting : t.conflicting = s.conflicting
  levels : t.elements.elements.map (fun e => (e.id, e.level)) =
    s.elements.elements.map fun e => (e.id, e.level)

theorem exists_sameParts (u : Sketch) (g g' : Guise) :
    ∃ ρ, SameParts ρ (u.under g) (u.under g') := by
  let ρ : ClusterId → ClusterId := fun k => ⟨g'.base + (k.number - g.base)⟩
  refine ⟨ρ, ?_, ?_, rfl, rfl, ?_⟩
  · intro k hk l hl hlt
    obtain ⟨k, _, rfl⟩ := List.mem_map.mp hk
    obtain ⟨l, _, rfl⟩ := List.mem_map.mp hl
    simp only [Cluster.id_under, ClusterId.shift, ρ] at hlt ⊢
    omega
  · rw [clusters_under, clusters_under, List.map_map]
    refine List.map_congr_left fun k _ => ?_
    simp [Cluster.under, Cluster.rename, ClusterId.shift, ρ]
  · simp [ElementTable.under, Function.comp_def]

theorem SameForm.exists_sameParts {s t : Sketch} (h : SameForm s t) (hs : Grounded s)
    (ht : Grounded t) : ∃ ρ, SameParts ρ s.reset.build t.reset.build := by
  rw [(SameForm.refl s).build_eq hs hs, h.build_eq hs ht]
  exact Sketch.exists_sameParts _ _ _

end Sketch

/-- Calls that move elements or change values, and leave what there is to be solved. -/
def Call.KeepsForm : Call → Prop
  | setValue _ _ | reset | build | solve => True
  | _ => False

namespace Sketch

theorem form_eq_of_unsolved {s t : ConstraintTable} (h : t.unsolved = s.unsolved) :
    t.form = s.form := by
  have hform : ∀ u : ConstraintTable, u.form = u.unsolved.form := by
    intro u
    simp [ConstraintTable.form, ConstraintTable.unsolved, ConstraintTable.map, Function.comp_def]
  rw [hform t, hform s, h]

theorem SameProblem.sameForm {s t : Sketch} (h : SameProblem s t)
    (hk : s.elements.Akin t.elements) : SameForm s t :=
  ⟨hk.kinds, h.roster, form_eq_of_unsolved h.constraints⟩

theorem sameForm_setValue {s t : Sketch} {id : ConstraintId} {value : Float}
    (h : s.setValue id value = .ok t) : SameForm s t := by
  obtain ⟨_, _, _, rfl⟩ := setValue_eq_ok h
  refine ⟨rfl, rfl, ?_⟩
  unfold ConstraintTable.form ConstraintTable.modify
  rw [List.map_map]
  refine List.map_congr_left fun c _ => ?_
  simp only [Function.comp_apply]
  split <;> rfl

theorem sameForm_run {s : Sketch} (h : Sound s) (hu : s.elements.Uniform)
    (solver : LinearSolver) {c : Call} (hc : c.KeepsForm) : SameForm s (c.run solver s) := by
  cases c with
  | setValue id value =>
    dsimp only [Call.run]
    cases hr : s.setValue id value with
    | error e => exact .refl s
    | ok t => exact sameForm_setValue hr
  | reset => exact (sameProblem_reset s).sameForm (akin_reset s)
  | build => exact (sameProblem_build s).sameForm (akin_build h.grounded hu)
  | solve => exact (h.sameProblem_solve solver).sameForm (h.akin_solve hu solver)
  | _ => cases hc

theorem Reachable.sameForm_runAll {s : Sketch} (hs : Reachable s) (solver : LinearSolver)
    {calls : List Call} (h : ∀ c ∈ calls, c.KeepsForm) :
    SameForm s (Call.runAll solver calls s) := by
  induction calls generalizing s with
  | nil => exact .refl s
  | cons c calls ih =>
    have hstep := sameForm_run hs.sound hs.posed.uniform solver (h c (.head _))
    exact hstep.trans (ih (hs.call solver c) fun d hd => h d (.tail _ hd))

theorem eq_reset_build_of_builds? {s b : Sketch} {c : Call} (hb : c.builds? s = some b) :
    b = s.reset.build := by
  cases c with
  | build =>
    dsimp only [Call.builds?] at hb
    split at hb
    · cases hb
    · rename_i hbuilt
      rw [← Option.some.inj hb]
      exact build_eq_of_not_built (by simpa using hbuilt)
  | solve =>
    dsimp only [Call.builds?] at hb
    split at hb
    · cases hb
    · rename_i hcond
      rw [← Option.some.inj hb, prepared]
      simp only [Bool.or_eq_true, Bool.and_eq_true, Bool.not_eq_true', not_or, not_and,
        Bool.not_eq_true] at hcond
      cases he : s.edited with
      | true => rfl
      | false => exact build_eq_of_not_built (hcond.2 he)
  | _ => cases hb

/-- Sketches of one form fall into the same clusters, and a sketch falls into them again
whatever solves and new values come in between. -/
theorem Reachable.sameParts_of_form {s : Sketch} (hs : Reachable s) :
    (∀ t, Reachable t → SameForm s t → ∃ ρ, SameParts ρ s.reset.build t.reset.build) ∧
    ∀ solver (calls : List Call), (∀ c ∈ calls, c.KeepsForm) →
      (∃ ρ, SameParts ρ s.reset.build (Call.runAll solver calls s).reset.build) ∧
      ∀ c b, Call.builds? c (Call.runAll solver calls s) = some b →
        ∃ ρ, SameParts ρ s.reset.build b := by
  have hform : ∀ t, Reachable t → SameForm s t → ∃ ρ, SameParts ρ s.reset.build t.reset.build :=
    fun t ht h => h.exists_sameParts hs.sound.grounded ht.sound.grounded
  refine ⟨hform, fun solver calls hcalls => ?_⟩
  have hafter := hform _ (hs.runAll solver calls) (hs.sameForm_runAll solver hcalls)
  refine ⟨hafter, fun c b hb => ?_⟩
  rw [eq_reset_build_of_builds? hb]
  exact hafter

end Sketch

/-- The triangle with other coordinates and lengths. -/
def Call.skewed : List Call :=
  [addPoint true 1 7, addPoint false (-2) 0, addPoint false 0 0, constrain .distance ⟨0⟩ ⟨1⟩ 9,
    constrain .distance ⟨1⟩ ⟨2⟩ 1, constrain .distance ⟨0⟩ ⟨2⟩ 0]

namespace Sketch

theorem sameParts_skewed :
    (∃ ρ, SameParts ρ (Call.runAll solveLinear Call.triangle {}).reset.build
      (Call.runAll solveLinear Call.skewed {}).reset.build) ∧
    ∃ ρ, SameParts ρ (Call.runAll solveLinear Call.triangle {}).reset.build
      (Call.runAll solveLinear [.solve, .setValue ⟨0⟩ 6, .solve]
        (Call.runAll solveLinear Call.triangle {})).reset.build := by
  have hform : SameForm (Call.runAll solveLinear Call.triangle {})
      (Call.runAll solveLinear Call.skewed {}) :=
    ⟨by decide +kernel, by decide +kernel, by decide +kernel⟩
  have hparts := Reachable.sameParts_of_form ((Reachable.new {}).runAll solveLinear Call.triangle)
  refine ⟨hparts.1 _ ((Reachable.new {}).runAll solveLinear Call.skewed) hform,
    (hparts.2 _ _ ?_).1⟩
  simp [Call.KeepsForm]

end Sketch

end RigidSketch
