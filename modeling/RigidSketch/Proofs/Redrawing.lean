import Mathlib.Data.List.Nodup
import RigidSketch.Proofs.Meaning
import RigidSketch.Proofs.WellPosed
import RigidSketch.Script.Writer

/-! Statements in the order in which a sketch is written: declarations, then distances and angles
between what they declare, then points that coincide with former ones. -/

namespace RigidSketch

namespace Sketch

theorem constrain_of_accepts {s : Sketch} {kind : RelationKind} {first second : ElementId}
    {value : Float} {a b : Element} (hne : first ≠ second) (ha : s.elements.get? first = some a)
    (hb : s.elements.get? second = some b)
    (haccepts : kind.accepts a.shape.kind b.shape.kind = true)
    (hallows : kind.allows value = true) :
    ∃ t id, s.constrain kind first second value = .ok (t, id) := by
  unfold constrain getElement checkValue
  simp [hne, ha, hb, haccepts, hallows, bind, Except.bind, pure, Except.pure]

theorem combine_of_not_fixed {s : Sketch} {keep remove : ElementId} {kept removed : Element}
    (hne : keep ≠ remove) (hk : s.elements.get? keep = some kept)
    (hr : s.elements.get? remove = some removed) (hkept : kept.shape.kind = .point)
    (hremoved : removed.shape.kind = .point) (hfixed : removed.fixed = false) :
    s.combine keep remove =
      .ok { s with elements := s.elements.erase remove,
                   constraints := s.constraints.redirect remove keep,
                   edited := true } := by
  cases hp : kept.shape with
  | line l => simp [hp, Shape.kind] at hkept
  | point p =>
    cases hq : removed.shape with
    | line l => simp [hq, Shape.kind] at hremoved
    | point q =>
      unfold combine getElement
      simp [hne, hk, hr, hp, hq, hfixed, bind, Except.bind, pure, Except.pure]

end Sketch

namespace NamedSketch

open Statement

structure Declaration where
  label : Label
  fixed : Bool
  shape : Shape Float

def Declaration.statement (d : Declaration) : Statement :=
  match d.shape with
  | .point p => .point d.label d.fixed p.x p.y
  | .line l => .line d.label d.fixed l.a l.b l.c

@[simp] theorem label?_statement (d : Declaration) : d.statement.label? = some d.label := by
  unfold Declaration.statement
  split <;> rfl

@[simp] theorem isFixed_statement (d : Declaration) : d.statement.isFixed = d.fixed := by
  unfold Declaration.statement
  split <;> rfl

theorem foldlM_declare {ds : List Declaration}
    (hshape : ∀ d ∈ ds, d.statement.shape? = some d.shape) {n : NamedSketch}
    (hnodup : (n.labels.map Prod.fst ++ ds.map (·.label)).Nodup) :
    ∃ n', (ds.map (·.statement)).foldlM execute n = .ok n' ∧
      n'.labels = n.labels ++
        ((ds.map (·.label)).zipIdx n.sketch.elements.next).map (fun p => (p.1, ⟨p.2⟩)) ∧
      n'.sketch.elements.elements = n.sketch.elements.elements ++
        (ds.zipIdx n.sketch.elements.next).map
          (fun p => { id := ⟨p.2⟩, shape := p.1.shape, fixed := p.1.fixed }) ∧
      n'.sketch.constraints = n.sketch.constraints := by
  induction ds generalizing n with
  | nil => exact ⟨n, rfl, by simp, by simp, rfl⟩
  | cons d ds ih =>
    have hnew : n.id? d.label = none := by
      rw [id?_eq_none_iff]
      intro hm
      exact (List.nodup_append.mp hnodup).2.2 _ hm _ List.mem_cons_self rfl
    let next := n.declare d.label (n.sketch.addShape d.shape d.fixed)
    have hstep : n.execute d.statement = .ok next := by
      have h := Executes.declare (label?_statement d) (hshape d List.mem_cons_self) hnew
      rw [isFixed_statement] at h
      exact execute_eq_ok_iff.mpr h
    have hlabels : next.labels.map Prod.fst = n.labels.map Prod.fst ++ [d.label] := by
      simp [next, NamedSketch.declare]
    obtain ⟨n', hrun, hl, he, hc⟩ := ih (n := next)
      (fun d' hd' => hshape d' (List.mem_cons_of_mem _ hd')) (by
        rw [hlabels, List.append_assoc]
        exact hnodup)
    refine ⟨n', ?_, ?_, ?_, hc⟩
    · rw [List.map_cons, List.foldlM_cons, hstep]
      exact hrun
    · rw [hl]
      simp [next, NamedSketch.declare, Sketch.addShape, ElementTable.insert]
    · rw [he]
      simp [next, NamedSketch.declare, Sketch.addShape, ElementTable.insert]

/-- The statement of a relation between two labels. -/
def relating (r : RelationKind × Label × Label × Float) : Statement :=
  .relate r.1 r.2.1 r.2.2.1 r.2.2.2

/-- The elements that two labels name can be related. -/
structure Relatable (n : NamedSketch) (r : RelationKind × Label × Label × Float) : Prop where
  ends : ∃ a b, (n.id? r.2.1).bind n.sketch.elements.get? = some a ∧
    (n.id? r.2.2.1).bind n.sketch.elements.get? = some b ∧
    r.1.accepts a.shape.kind b.shape.kind = true
  distinct : n.id? r.2.1 ≠ n.id? r.2.2.1
  value : r.1.allows r.2.2.2 = true

theorem foldlM_relate {rs : List (RelationKind × Label × Label × Float)} {n : NamedSketch}
    (h : ∀ r ∈ rs, Relatable n r) :
    ∃ n', (rs.map relating).foldlM execute n = .ok n' ∧ n'.labels = n.labels ∧
      n'.sketch.elements = n.sketch.elements ∧
      n'.sketch.constraints.constraints.map Constraint.relation =
        n.sketch.constraints.constraints.map Constraint.relation ++
          rs.map fun r => (r.1, n.id? r.2.1, n.id? r.2.2.1, r.2.2.2) := by
  induction rs generalizing n with
  | nil => exact ⟨n, rfl, rfl, rfl, by simp⟩
  | cons r rs ih =>
    obtain ⟨kind, a, b, value⟩ := r
    obtain ⟨⟨x, y, hx, hy, haccepts⟩, hne, hallows⟩ := h _ List.mem_cons_self
    obtain ⟨e, he, hx⟩ := Option.bind_eq_some_iff.mp hx
    obtain ⟨f, hf, hy⟩ := Option.bind_eq_some_iff.mp hy
    dsimp only at he hf hne haccepts hallows
    have hef : e ≠ f := by
      rintro rfl
      exact hne (he.trans hf.symm)
    obtain ⟨t, id, ht⟩ := Sketch.constrain_of_accepts hef hx hy haccepts hallows
    have hstep := execute_eq_ok_iff.mpr (Executes.relate he hf ht)
    obtain ⟨_, _, heq⟩ := Sketch.constrain_eq_ok ht
    have helements : t.elements = n.sketch.elements := by rw [heq]
    have hconstraints : t.constraints.constraints.map Constraint.relation =
        n.sketch.constraints.constraints.map Constraint.relation ++
          [(kind, some e, some f, value)] := by
      rw [heq, ConstraintTable.constraints_insert, List.map_append]
      rfl
    obtain ⟨n', hrun, hl, hs, hc⟩ := ih (n := { n with sketch := t }) fun r hr => by
      obtain ⟨hends, hdistinct, hvalue⟩ := h r (List.mem_cons_of_mem _ hr)
      exact ⟨by rwa [helements], hdistinct, hvalue⟩
    refine ⟨n', ?_, hl, hs.trans helements, ?_⟩
    · rw [List.map_cons, List.foldlM_cons, relating, hstep]
      exact hrun
    · rw [hc, hconstraints, List.append_assoc, List.map_cons, he, hf]
      rfl

/-- A label that names a point of its own so far, and the label of the point that it is to
name. -/
structure Alias where
  label : Label
  id : ElementId
  name : Label
  target : ElementId

theorem id_ne_of_nodup_middle {es fs : List Element} {x : Element}
    (h : ((es ++ x :: fs).map Element.id).Nodup) : ∀ e ∈ es ++ fs, e.id ≠ x.id := by
  intro e he heq
  have hperm := (List.perm_middle.map Element.id).nodup_iff.mp h
  rw [List.map_cons, List.nodup_cons] at hperm
  exact hperm.1 (List.mem_map.mpr ⟨e, he, heq⟩)

theorem constraints_redirect_of_not_mem {t : ConstraintTable} {old : ElementId} (new : ElementId)
    (hn : Numbered t.numbers t.next) (hi : t.Indexed old)
    (hp : ∀ c ∈ t.constraints, c.first ≠ c.second) (hold : ∀ c ∈ t.constraints, old ∉ c.ends) :
    (t.redirect old new).constraints = t.constraints := by
  have hmap : t.constraints.map (·.redirect old new) = t.constraints :=
    (List.map_congr_left fun c hc => Constraint.redirect_of_not_mem (hold c hc)).trans
      (List.map_id _)
  rw [ConstraintTable.constraints_redirect new hn hi hp, hmap]
  exact List.filter_eq_self.mpr fun c hc => by simpa using hp c hc

theorem relabel_middle {n : NamedSketch} {ls ts : List (Label × ElementId)} {l : Label}
    {keep remove : ElementId} (hn : n.labels = ls ++ (l, remove) :: ts)
    (hl : ∀ p ∈ ls, p.2 ≠ remove) (ht : ∀ p ∈ ts, p.2 ≠ remove) :
    n.relabel keep remove = ls ++ (l, keep) :: ts := by
  have hsame : ∀ ps : List (Label × ElementId), (∀ p ∈ ps, p.2 ≠ remove) →
      ps.map (fun p => (p.1, if p.2 = remove then keep else p.2)) = ps := by
    intro ps hps
    refine (List.map_congr_left fun p hp => ?_).trans (List.map_id ps)
    rw [if_neg (hps p hp)]
    rfl
  rw [relabel, hn, List.map_append, List.map_cons, hsame ls hl, hsame ts ht, if_pos rfl]

/-- Labels that are settled, with the elements that they name, and points that are still to be
merged into these. -/
structure Pending (n : NamedSketch) (ls : List (Label × ElementId)) (es : List Element)
    (ts : List Alias) : Prop where
  labelled : Labelled n
  labels : n.labels = ls ++ ts.map fun t => (t.label, t.id)
  elements : ∃ xs, n.sketch.elements.elements = es ++ xs ∧ xs.map Element.id = ts.map Alias.id ∧
    ∀ x ∈ xs, x.fixed = false ∧ x.shape.kind = .point
  targets : ∀ t ∈ ts, (t.name, t.target) ∈ ls ∧ ∃ e ∈ es, e.id = t.target ∧ e.shape.kind = .point
  settled : ∀ p ∈ ls, ∃ e ∈ es, e.id = p.2
  ends : ∀ c ∈ n.sketch.constraints.constraints, ∀ id ∈ c.ends, ∃ e ∈ es, e.id = id

section

variable {n : NamedSketch} {ls : List (Label × ElementId)} {es : List Element} {t : Alias}
  {ts : List Alias}

/-- The next point to be merged stands right behind the elements that are settled. -/
theorem Pending.exists_next (h : Pending n ls es (t :: ts)) :
    ∃ x xs, n.sketch.elements.elements = es ++ x :: xs ∧ x.id = t.id ∧
      xs.map Element.id = ts.map Alias.id ∧ (∀ e ∈ es ++ xs, e.id ≠ t.id) ∧
      ∀ y ∈ x :: xs, y.fixed = false ∧ y.shape.kind = .point := by
  obtain ⟨xs, helements, hids, hloose⟩ := h.elements
  cases xs with
  | nil => cases hids
  | cons x xs =>
    rw [List.map_cons, List.map_cons, List.cons.injEq] at hids
    have hnodup : ((es ++ x :: xs).map Element.id).Nodup := by
      rw [← helements]
      exact ElementTable.nodup_ids h.labelled.grounded.elements
    refine ⟨x, xs, helements, hids.1, hids.2, ?_, hloose⟩
    rw [← hids.1]
    exact id_ne_of_nodup_middle hnodup

theorem Pending.ne_of_settled (h : Pending n ls es (t :: ts)) {id : ElementId}
    (hid : ∃ e ∈ es, e.id = id) : id ≠ t.id := by
  obtain ⟨x, xs, _, _, _, hother, _⟩ := h.exists_next
  obtain ⟨e, he, rfl⟩ := hid
  exact hother e (List.mem_append_left _ he)

theorem Pending.combine (h : Pending n ls es (t :: ts)) :
    n.sketch.combine t.target t.id =
      .ok { n.sketch with elements := n.sketch.elements.erase t.id,
                          constraints := n.sketch.constraints.redirect t.id t.target,
                          edited := true } := by
  obtain ⟨x, xs, helements, hid, _, _, hloose⟩ := h.exists_next
  obtain ⟨_, kept, hkept, hkid, hkind⟩ := h.targets t List.mem_cons_self
  obtain ⟨hfixed, hpoint⟩ := hloose x List.mem_cons_self
  have hget : n.sketch.elements.get? t.target = some kept := by
    rw [ElementTable.get?_eq_some_iff h.labelled.grounded.elements, helements]
    exact ⟨List.mem_append_left _ hkept, hkid⟩
  have hget' : n.sketch.elements.get? t.id = some x := by
    rw [ElementTable.get?_eq_some_iff h.labelled.grounded.elements, helements]
    exact ⟨by simp, hid⟩
  have hne := h.ne_of_settled ⟨kept, hkept, hkid⟩
  exact Sketch.combine_of_not_fixed hne hget hget' hkind hpoint hfixed

theorem Pending.constraints_eq (h : Pending n ls es (t :: ts)) :
    (n.sketch.constraints.redirect t.id t.target).constraints =
      n.sketch.constraints.constraints := by
  have hg := h.labelled.grounded
  refine constraints_redirect_of_not_mem t.target hg.constraints (hg.indexed t.id) hg.proper ?_
  intro c hc hm
  exact h.ne_of_settled (h.ends c hc t.id hm) rfl

theorem Pending.relabel_eq (h : Pending n ls es (t :: ts)) :
    n.relabel t.target t.id =
      (ls ++ [(t.label, t.target)]) ++ ts.map fun t => (t.label, t.id) := by
  obtain ⟨x, xs, _, _, hids, hother, _⟩ := h.exists_next
  rw [relabel_middle h.labels fun p hp => h.ne_of_settled (h.settled p hp)]
  · simp
  · intro p hp
    obtain ⟨t', ht', rfl⟩ := List.mem_map.mp hp
    have hm : t'.id ∈ xs.map Element.id := by
      rw [hids]
      exact List.mem_map.mpr ⟨t', ht', rfl⟩
    obtain ⟨y, hy, hyid⟩ := List.mem_map.mp hm
    dsimp only
    rw [← hyid]
    exact hother y (List.mem_append_right _ hy)

theorem Pending.elements_erase (h : Pending n ls es (t :: ts)) :
    ∃ xs, (n.sketch.elements.erase t.id).elements = es ++ xs ∧
      xs.map Element.id = ts.map Alias.id ∧
      ∀ x ∈ xs, x.fixed = false ∧ x.shape.kind = .point := by
  obtain ⟨x, xs, helements, hid, hids, hother, hloose⟩ := h.exists_next
  refine ⟨xs, ?_, hids, fun y hy => hloose y (List.mem_cons_of_mem _ hy)⟩
  dsimp only [ElementTable.erase]
  rw [helements, List.filter_append, List.filter_cons_of_neg (by simp [hid]),
    ← List.filter_append]
  exact List.filter_eq_self.mpr fun e he => by simpa using hother e he

theorem Pending.executes (h : Pending n ls es (t :: ts)) :
    n.Executes (.coincide t.name t.label)
      { sketch := { n.sketch with elements := n.sketch.elements.erase t.id,
                                  constraints := n.sketch.constraints.redirect t.id t.target,
                                  edited := true },
        labels := n.relabel t.target t.id } := by
  have hname : n.id? t.name = some t.target := by
    rw [id?_eq_some_iff h.labelled.nodup, h.labels]
    exact List.mem_append_left _ (h.targets t List.mem_cons_self).1
  have hlabel : n.id? t.label = some t.id := by
    rw [id?_eq_some_iff h.labelled.nodup, h.labels]
    simp
  exact .coincide hname hlabel h.combine

theorem Pending.coincide (h : Pending n ls es (t :: ts)) :
    ∃ n', n.execute (.coincide t.name t.label) = .ok n' ∧
      Pending n' (ls ++ [(t.label, t.target)]) es ts ∧
      n'.sketch.constraints.constraints = n.sketch.constraints.constraints := by
  refine ⟨_, execute_eq_ok_iff.mpr h.executes, ?_, h.constraints_eq⟩
  refine ⟨h.labelled.executes h.executes, h.relabel_eq, h.elements_erase, ?_, ?_, ?_⟩
  · intro t' ht'
    obtain ⟨hm, he⟩ := h.targets t' (List.mem_cons_of_mem _ ht')
    exact ⟨List.mem_append_left _ hm, he⟩
  · intro p hp
    rcases List.mem_append.mp hp with hp | hp
    · exact h.settled p hp
    · obtain ⟨_, kept, hkept, hkid, _⟩ := h.targets t List.mem_cons_self
      rw [List.mem_singleton.mp hp]
      exact ⟨kept, hkept, hkid⟩
  · dsimp only
    rw [h.constraints_eq]
    exact h.ends

end

theorem Pending.foldlM {n : NamedSketch} {ls : List (Label × ElementId)} {es : List Element}
    {ts : List Alias} (h : Pending n ls es ts) :
    ∃ n', (ts.map fun t => Statement.coincide t.name t.label).foldlM execute n = .ok n' ∧
      n'.labels = ls ++ ts.map (fun t => (t.label, t.target)) ∧
      n'.sketch.elements.elements = es ∧
      n'.sketch.constraints.constraints = n.sketch.constraints.constraints := by
  induction ts generalizing n ls with
  | nil =>
    obtain ⟨xs, helements, hids, _⟩ := h.elements
    obtain rfl : xs = [] := by simpa using hids
    exact ⟨n, rfl, h.labels, by simpa using helements, rfl⟩
  | cons t ts ih =>
    obtain ⟨m, hstep, hm, hcons⟩ := h.coincide
    obtain ⟨n', hrun, hl, he, hc⟩ := ih hm
    refine ⟨n', ?_, ?_, he, hc.trans hcons⟩
    · rw [List.map_cons, List.foldlM_cons, hstep]
      exact hrun
    · rw [hl]
      simp

end NamedSketch

end RigidSketch
