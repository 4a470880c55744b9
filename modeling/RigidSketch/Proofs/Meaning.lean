import Mathlib.Logic.Relation
import RigidSketch.Proofs.Execution

/-! What a script says is what its sketch has: the labels that it declares, one element for all
labels that it makes coincide, and its distances and angles between different elements. -/

namespace RigidSketch

namespace Statement

/-- Labels that a script says are of one point, directly or by way of others. -/
def Coincident (ss : List Statement) : Label → Label → Prop :=
  Relation.EqvGen fun a b => coincide a b ∈ ss

theorem Coincident.append {ss : List Statement} {a b : Label} (h : Coincident ss a b)
    (st : Statement) : Coincident (ss ++ [st]) a b :=
  h.mono fun _ _ hm => List.mem_append_left _ hm

theorem mem_of_mem_append {ss : List Statement} {st st' : Statement} (h : st' ∈ ss ++ [st])
    (hne : st' ≠ st) : st' ∈ ss :=
  (List.mem_append.mp h).resolve_right fun hm => hne (List.mem_singleton.mp hm)

end Statement

namespace NamedSketch

open Statement

/-- Every label names an element, and every element has a label. -/
structure Labelled (n : NamedSketch) : Prop where
  reachable : Sketch.Reachable n.sketch
  nodup : (n.labels.map Prod.fst).Nodup
  live : ∀ id, (∃ l, n.id? l = some id) ↔ ∃ e ∈ n.sketch.elements.elements, e.id = id

theorem Labelled.grounded {n : NamedSketch} (h : Labelled n) : n.sketch.Grounded :=
  h.reachable.sound.grounded

theorem Labelled.fresh {n : NamedSketch} (h : Labelled n) (x : Label) :
    n.id? x ≠ some ⟨n.sketch.elements.next⟩ := by
  intro hx
  obtain ⟨e, he, heq⟩ := (h.live _).mp ⟨x, hx⟩
  have hlt := h.grounded.elements.below _ (List.mem_map.mpr ⟨e, he, rfl⟩)
  rw [heq] at hlt
  exact Nat.lt_irrefl _ hlt

theorem id?_eq_none_iff {n : NamedSketch} {label : Label} :
    n.id? label = none ↔ label ∉ n.labels.map Prod.fst := by
  rw [id?, List.lookup_eq_none_iff, List.mem_map]
  constructor
  · rintro h ⟨p, hp, rfl⟩
    simpa using h p hp
  · intro h p hp
    simpa using fun heq : label = p.1 => h ⟨p, hp, heq.symm⟩

theorem nodup_of_executes {n n' : NamedSketch} {st : Statement} (h : n.Executes st n')
    (hn : (n.labels.map Prod.fst).Nodup) : (n'.labels.map Prod.fst).Nodup := by
  cases h with
  | declare _ _ hnew =>
    simp only [NamedSketch.declare, List.map_append, List.map_cons, List.map_nil]
    exact List.nodup_append.mpr ⟨hn, List.nodup_singleton _, by
      rintro a ha b hb rfl
      exact id?_eq_none_iff.mp hnew (List.mem_singleton.mp hb ▸ ha)⟩
  | relate => exact hn
  | coincide =>
    rw [relabel, List.map_map]
    exact hn

theorem mem_elements_combine {es : ElementTable} {keep remove : ElementId}
    {kept removed x' : Element} :
    x' ∈ ((es.map (Sketch.heir keep kept removed)).erase remove).elements ↔
      ∃ x ∈ es.elements, x.id ≠ remove ∧ Sketch.heir keep kept removed x = x' := by
  simp only [ElementTable.erase, ElementTable.map, List.mem_filter, List.mem_map,
    decide_eq_true_eq]
  constructor
  · rintro ⟨⟨x, hx, rfl⟩, hne⟩
    exact ⟨x, hx, by rwa [Sketch.id_heir] at hne, rfl⟩
  · rintro ⟨x, hx, hne, rfl⟩
    exact ⟨⟨x, hx, rfl⟩, by rwa [Sketch.id_heir]⟩

theorem Labelled.executes {n n' : NamedSketch} {st : Statement} (h : Labelled n)
    (hst : n.Executes st n') : Labelled n' := by
  refine ⟨hst.reachable h.reachable, nodup_of_executes hst h.nodup, fun id => ?_⟩
  cases hst with
  | @declare _ label shape _ _ hnew =>
    constructor
    · rintro ⟨l, hl⟩
      rcases id?_of_declare hl with hl | ⟨_, rfl⟩
      · obtain ⟨e, he, heq⟩ := (h.live id).mp ⟨l, hl⟩
        exact ⟨e, List.mem_append_left _ he, heq⟩
      · exact ⟨_, List.mem_append_right _ (List.mem_singleton_self _), rfl⟩
    · rintro ⟨e, he, rfl⟩
      rcases List.mem_append.mp he with he | he
      · obtain ⟨l, hl⟩ := (h.live e.id).mpr ⟨e, he, rfl⟩
        exact ⟨l, id?_declare_of_some hl _ _⟩
      · rw [List.mem_singleton.mp he]
        exact ⟨label, id?_declare_self hnew _⟩
  | relate _ _ ht =>
    obtain ⟨_, _, rfl⟩ := Sketch.constrain_eq_ok ht
    exact h.live id
  | @coincide a b e f t ha hb ht =>
    rcases Sketch.combine_eq_ok ht with ⟨rfl, rfl⟩ | ⟨hne, kept, removed, hkept, _, rfl⟩
    · rw [relabel_self]
      exact h.live id
    simp only [id?_relabel, mem_elements_combine, Option.map_eq_some_iff]
    constructor
    · rintro ⟨l, j, hl, rfl⟩
      by_cases hj : j = f
      · obtain ⟨hm, hid⟩ := ElementTable.mem_of_get? hkept
        exact ⟨_, ⟨kept, hm, by rwa [hid], rfl⟩, by rw [Sketch.id_heir, hid, if_pos hj]⟩
      · obtain ⟨x, hx, rfl⟩ := (h.live j).mp ⟨l, hl⟩
        exact ⟨_, ⟨x, hx, hj, rfl⟩, by rw [Sketch.id_heir, if_neg hj]⟩
    · rintro ⟨_, ⟨x, hx, hxf, rfl⟩, rfl⟩
      obtain ⟨l, hl⟩ := (h.live x.id).mpr ⟨x, hx, rfl⟩
      exact ⟨l, x.id, hl, by rw [Sketch.id_heir, if_neg hxf]⟩

/-- Labels name one element if and only if the statements make them coincide. -/
structure Classed (ss : List Statement) (n : NamedSketch) : Prop where
  labels : n.labels.map Prod.fst = ss.filterMap label?
  merged : ∀ a b, coincide a b ∈ ss → ∃ id, n.id? a = some id ∧ n.id? b = some id
  linked : ∀ a b id, n.id? a = some id → n.id? b = some id → Coincident ss a b

theorem Classed.eq_of_coincident {ss : List Statement} {n : NamedSketch} (h : Classed ss n)
    {a b : Label} (hab : Coincident ss a b) : n.id? a = n.id? b := by
  induction hab with
  | rel a b hm =>
    obtain ⟨id, ha, hb⟩ := h.merged a b hm
    rw [ha, hb]
  | refl a => rfl
  | symm a b _ ih => exact ih.symm
  | trans a b c _ _ ih ih' => exact ih.trans ih'

theorem labels_of_executes {n n' : NamedSketch} {st : Statement} (h : n.Executes st n') :
    n'.labels.map Prod.fst = n.labels.map Prod.fst ++ st.label?.toList := by
  cases h with
  | declare hlabel _ _ => simp [NamedSketch.declare, hlabel]
  | relate => simp [label?]
  | coincide => simp [relabel, label?]

theorem Classed.executes {ss : List Statement} {n n' : NamedSketch} {st : Statement}
    (hn : Labelled n) (h : Classed ss n) (hst : n.Executes st n') : Classed (ss ++ [st]) n' := by
  have hlabels : n'.labels.map Prod.fst = (ss ++ [st]).filterMap label? := by
    rw [labels_of_executes hst, h.labels, List.filterMap_append]
    cases hl : st.label? <;> simp [hl]
  cases hst with
  | @declare _ label shape hlabel _ hnew =>
    refine ⟨hlabels, fun a b hm => ?_, fun a b id ha hb => ?_⟩
    · have hne : coincide a b ≠ st := by
        rintro rfl
        cases hlabel
      obtain ⟨id, ha, hb⟩ := h.merged a b (mem_of_mem_append hm hne)
      exact ⟨id, id?_declare_of_some ha _ _, id?_declare_of_some hb _ _⟩
    · rcases id?_of_declare ha with ha | ⟨rfl, rfl⟩
      · rcases id?_of_declare hb with hb | ⟨_, rfl⟩
        · exact (h.linked a b id ha hb).append st
        · exact absurd ha (hn.fresh a)
      · rcases id?_of_declare hb with hb | ⟨rfl, _⟩
        · exact absurd hb (hn.fresh b)
        · exact .refl _
  | @relate kind a b value e f t id _ _ _ =>
    refine ⟨hlabels, fun a b hm => ?_, fun a b id ha hb => (h.linked a b id ha hb).append _⟩
    exact h.merged a b (mem_of_mem_append hm (by simp))
  | @coincide a b e f t ha hb _ =>
    have hab : Coincident (ss ++ [coincide a b]) a b := .rel _ _ (by simp)
    refine ⟨hlabels, fun x y hm => ?_, fun x y id hx hy => ?_⟩
    · simp only [id?_relabel]
      rcases List.mem_append.mp hm with hm | hm
      · obtain ⟨id, hx, hy⟩ := h.merged x y hm
        exact ⟨_, by rw [hx]; rfl, by rw [hy]; rfl⟩
      · cases List.mem_singleton.mp hm
        exact ⟨e, by simp [ha], by simp [hb]⟩
    · -- a label of the removed element goes by way of `b` and `a`
      have hlink : ∀ z, (NamedSketch.mk t (n.relabel e f)).id? z = some id →
          ∃ w, n.id? w = some id ∧ Coincident (ss ++ [coincide a b]) z w := by
        intro z hz
        rw [id?_relabel] at hz
        obtain ⟨j, hj, rfl⟩ := Option.map_eq_some_iff.mp hz
        by_cases hjf : j = f
        · rw [if_pos hjf]
          exact ⟨a, ha, ((h.linked z b f (hjf ▸ hj) hb).append _).trans _ _ _ (hab.symm _ _)⟩
        · rw [if_neg hjf]
          exact ⟨z, hj, .refl _⟩
      obtain ⟨x', hx', hxx⟩ := hlink x hx
      obtain ⟨y', hy', hyy⟩ := hlink y hy
      exact (hxx.trans _ _ _ ((h.linked x' y' id hx' hy').append _)).trans _ _ _ (hyy.symm _ _)

theorem Classed.exists_id {ss : List Statement} {n : NamedSketch} (h : Classed ss n)
    {st : Statement} (hst : st ∈ ss) {l : Label} (hl : st.label? = some l) :
    ∃ id, n.id? l = some id := by
  have hm : l ∈ n.labels.map Prod.fst := by
    rw [h.labels]
    exact List.mem_filterMap.mpr ⟨st, hst, hl⟩
  by_contra hne
  have hnone : n.id? l = none := Option.eq_none_iff_forall_ne_some.mpr (not_exists.mp hne)
  exact id?_eq_none_iff.mp hnone hm

/-- The element whose label a statement declares. -/
def declared? (n : NamedSketch) (st : Statement) : Option ElementId := st.label?.bind n.id?

/-- Each element has the shape that a statement declares for one of its labels, and is fixed if
and only if a statement says so of one of them. -/
structure Depicted (ss : List Statement) (n : NamedSketch) : Prop where
  fixed : ∀ st ∈ ss, st.isFixed = true → ∀ e ∈ n.sketch.elements.elements,
    n.declared? st = some e.id → e.fixed = true
  drawn : ∀ e ∈ n.sketch.elements.elements, ∃ st ∈ ss,
    n.declared? st = some e.id ∧ st.isFixed = e.fixed ∧ st.shape? = some e.shape

theorem declared?_declare {ss : List Statement} {n : NamedSketch} (h : Classed ss n)
    {st : Statement} (hst : st ∈ ss) (label : Label) (r : Sketch × ElementId) :
    (n.declare label r).declared? st = n.declared? st := by
  unfold declared?
  cases hl : st.label? with
  | none => rfl
  | some l =>
    obtain ⟨id, hid⟩ := h.exists_id hst hl
    rw [Option.bind_some, Option.bind_some, hid]
    exact id?_declare_of_some hid _ _

theorem declared?_relabel (n : NamedSketch) (keep remove : ElementId) (t : Sketch)
    (st : Statement) : (NamedSketch.mk t (n.relabel keep remove)).declared? st =
      (n.declared? st).map fun id => if id = remove then keep else id := by
  unfold declared?
  cases st.label? with
  | none => rfl
  | some l => exact id?_relabel n keep remove t l

theorem Labelled.declared?_fresh {n : NamedSketch} (h : Labelled n) (st : Statement) :
    n.declared? st ≠ some ⟨n.sketch.elements.next⟩ := by
  intro hst
  obtain ⟨l, _, hid⟩ := Option.bind_eq_some_iff.mp hst
  exact h.fresh l hid

theorem Depicted.declare {ss : List Statement} {n : NamedSketch} {st : Statement}
    (hn : Labelled n) (hc : Classed ss n) (h : Depicted ss n) {label : Label}
    {shape : Shape Float} (hlabel : st.label? = some label) (hshape : st.shape? = some shape)
    (hnew : n.id? label = none) :
    Depicted (ss ++ [st]) (n.declare label (n.sketch.addShape shape st.isFixed)) := by
  have hlast : (n.declare label (n.sketch.addShape shape st.isFixed)).declared? st =
      some ⟨n.sketch.elements.next⟩ := by
    rw [declared?, hlabel, Option.bind_some, id?_declare_self hnew]
    rfl
  refine ⟨fun st' hm hf e he hid => ?_, fun e he => ?_⟩
  · rcases List.mem_append.mp hm with hm | hm <;> rcases List.mem_append.mp he with he | he
    · rw [declared?_declare hc hm] at hid
      exact h.fixed st' hm hf e he hid
    · rw [declared?_declare hc hm, List.mem_singleton.mp he] at hid
      exact absurd hid (hn.declared?_fresh st')
    · rw [List.mem_singleton.mp hm, hlast] at hid
      obtain ⟨l, hl⟩ := (hn.live e.id).mpr ⟨e, he, rfl⟩
      exact absurd (hl.trans hid.symm) (hn.fresh l)
    · rw [List.mem_singleton.mp he]
      rw [List.mem_singleton.mp hm] at hf
      exact hf
  · rcases List.mem_append.mp he with he | he
    · obtain ⟨st', hm, hid, hdrawn⟩ := h.drawn e he
      refine ⟨st', List.mem_append_left _ hm, ?_, hdrawn⟩
      rw [declared?_declare hc hm, hid]
    · rw [List.mem_singleton.mp he]
      exact ⟨st, List.mem_append_right _ (List.mem_singleton_self st), hlast, rfl, hshape⟩

theorem Depicted.append {ss : List Statement} {n : NamedSketch} {st : Statement}
    (h : Depicted ss n) (hst : st.label? = none) : Depicted (ss ++ [st]) n := by
  refine ⟨fun st' hm hf e he hid => ?_, fun e he => ?_⟩
  · have hne : st' ≠ st := by
      rintro rfl
      rw [declared?, hst] at hid
      cases hid
    exact h.fixed st' (mem_of_mem_append hm hne) hf e he hid
  · obtain ⟨st', hm, hdrawn⟩ := h.drawn e he
    exact ⟨st', List.mem_append_left _ hm, hdrawn⟩

theorem Depicted.combine {ss : List Statement} {n : NamedSketch} (hn : Labelled n)
    (h : Depicted ss n) {keep remove : ElementId} {t : Sketch}
    (ht : n.sketch.combine keep remove = .ok t) :
    Depicted ss { sketch := t, labels := n.relabel keep remove } := by
  rcases Sketch.combine_eq_ok ht with ⟨rfl, rfl⟩ | ⟨hne, kept, removed, hkept, ⟨hremoved, _⟩, rfl⟩
  · rw [relabel_self]
    exact h
  obtain ⟨hkm, hkid⟩ := ElementTable.mem_of_get? hkept
  obtain ⟨hrm, hrid⟩ := ElementTable.mem_of_get? hremoved
  refine ⟨fun st hm hf e' he' hid => ?_, fun e' he' => ?_⟩
  · obtain ⟨x, hx, hxr, rfl⟩ := mem_elements_combine.mp he'
    rw [declared?_relabel, Sketch.id_heir] at hid
    obtain ⟨j, hj, hjx⟩ := Option.map_eq_some_iff.mp hid
    by_cases hjr : j = remove
    · -- the statement was about the removed point, so the kept one is fixed now
      rw [if_pos hjr] at hjx
      have hfixed : removed.fixed = true := h.fixed st hm hf removed hrm (by rw [hrid, hj, hjr])
      have hxk : x = kept := hn.grounded.element_ext hkm hx (by rw [hkid, hjx])
      cases hk : kept.fixed with
      | true => simp [Sketch.heir, hk, hxk]
      | false => simp [Sketch.heir, hk, hfixed, ← hjx]
    · rw [if_neg hjr] at hjx
      have hxf := h.fixed st hm hf x hx (by rw [hj, hjx])
      unfold Sketch.heir
      split
      · rfl
      · exact hxf
  · obtain ⟨x, hx, hxr, rfl⟩ := mem_elements_combine.mp he'
    by_cases hheir : (removed.fixed && !kept.fixed) = true ∧ x.id = keep
    · obtain ⟨st, hm, hid, hf, hs⟩ := h.drawn removed hrm
      rw [Bool.and_eq_true] at hheir
      refine ⟨st, hm, ?_, ?_, ?_⟩
      · rw [declared?_relabel, hid, hrid, Sketch.id_heir, hheir.2]
        simp
      · rw [hf, hheir.1.1]
        simp [Sketch.heir, hheir]
      · rw [hs]
        simp [Sketch.heir, hheir]
    · obtain ⟨st, hm, hid, hdrawn⟩ := h.drawn x hx
      have heq : Sketch.heir keep kept removed x = x := if_neg hheir
      refine ⟨st, hm, ?_, by rwa [heq]⟩
      rw [declared?_relabel, hid, heq, Option.map_some, if_neg hxr]

theorem Depicted.executes {ss : List Statement} {n n' : NamedSketch} {st : Statement}
    (hn : Labelled n) (hc : Classed ss n) (h : Depicted ss n) (hst : n.Executes st n') :
    Depicted (ss ++ [st]) n' := by
  cases hst with
  | declare hlabel hshape hnew => exact h.declare hn hc hlabel hshape hnew
  | relate _ _ ht =>
    obtain ⟨_, _, rfl⟩ := Sketch.constrain_eq_ok ht
    exact Depicted.append ⟨h.fixed, h.drawn⟩ rfl
  | coincide _ _ ht => exact (h.combine hn ht).append rfl

end NamedSketch

/-- A constraint without its identity, as a statement gives it. -/
def Constraint.relation (c : Constraint) :
    RelationKind × Option ElementId × Option ElementId × Float :=
  (c.kind, some c.first, some c.second, c.value)

namespace NamedSketch

open Statement

/-- What a statement asks for between the elements that its labels name, if they are two. -/
def relation? (n : NamedSketch) :
    Statement → Option (RelationKind × Option ElementId × Option ElementId × Float)
  | .relate kind a b value =>
    if n.id? a = n.id? b then none else some (kind, n.id? a, n.id? b, value)
  | _ => none

structure Constrained (ss : List Statement) (n : NamedSketch) : Prop where
  named : ∀ kind a b value, relate kind a b value ∈ ss →
    ∃ e f, n.id? a = some e ∧ n.id? b = some f
  constraints : n.sketch.constraints.constraints.map Constraint.relation = ss.filterMap n.relation?

theorem relation?_setSketch (n : NamedSketch) (t : Sketch) :
    (NamedSketch.mk t n.labels).relation? = n.relation? := by
  funext st
  cases st <;> rfl

theorem relation?_declare {ss : List Statement} {n : NamedSketch} (h : Constrained ss n)
    {st : Statement} (hst : st ∈ ss) (label : Label) (r : Sketch × ElementId) :
    (n.declare label r).relation? st = n.relation? st := by
  cases st with
  | relate kind a b value =>
    obtain ⟨e, f, ha, hb⟩ := h.named kind a b value hst
    simp only [relation?, ha, hb, id?_declare_of_some ha, id?_declare_of_some hb]
  | _ => rfl

theorem relation?_relabel (n : NamedSketch) (keep remove : ElementId) (t : Sketch)
    (st : Statement) : (NamedSketch.mk t (n.relabel keep remove)).relation? st =
      ((n.relation? st).map fun r => (r.1, r.2.1.map fun id => if id = remove then keep else id,
        r.2.2.1.map fun id => if id = remove then keep else id, r.2.2.2)).filter
          fun r => r.2.1 ≠ r.2.2.1 := by
  cases st with
  | relate kind a b value =>
    simp only [relation?, id?_relabel]
    by_cases hab : n.id? a = n.id? b
    · simp [hab]
    · simp only [hab, if_false, Option.map_some, Option.filter_some]
      split <;> simp_all
  | _ => rfl

theorem Constrained.append {ss : List Statement} {n : NamedSketch} (h : Constrained ss n)
    {st : Statement} (hst : ∀ kind a b value, relate kind a b value ≠ st) :
    Constrained (ss ++ [st]) n := by
  have hnone : n.relation? st = none := by
    cases st with
    | relate kind a b value => exact absurd rfl (hst kind a b value)
    | _ => rfl
  refine ⟨fun kind a b value hm => ?_, ?_⟩
  · exact h.named kind a b value (mem_of_mem_append hm (hst kind a b value))
  · rw [List.filterMap_append, List.filterMap_cons_none hnone, List.filterMap_nil,
      List.append_nil]
    exact h.constraints

theorem Constrained.declare {ss : List Statement} {n : NamedSketch} (h : Constrained ss n)
    (label : Label) (shape : Shape Float) (fixed : Bool) :
    Constrained ss (n.declare label (n.sketch.addShape shape fixed)) := by
  refine ⟨fun kind a b value hm => ?_, ?_⟩
  · obtain ⟨e, f, ha, hb⟩ := h.named kind a b value hm
    exact ⟨e, f, id?_declare_of_some ha _ _, id?_declare_of_some hb _ _⟩
  · refine h.constraints.trans (List.filterMap_congr fun st hst => ?_)
    exact (relation?_declare h hst _ _).symm

theorem Constrained.combine {ss : List Statement} {n : NamedSketch} (hn : Labelled n)
    (h : Constrained ss n) {keep remove : ElementId} {t : Sketch}
    (ht : n.sketch.combine keep remove = .ok t) :
    Constrained ss { sketch := t, labels := n.relabel keep remove } := by
  rcases Sketch.combine_eq_ok ht with ⟨rfl, rfl⟩ | ⟨hne, kept, removed, _, _, rfl⟩
  · rw [relabel_self]
    exact h
  refine ⟨fun kind a b value hm => ?_, ?_⟩
  · obtain ⟨e, f, ha, hb⟩ := h.named kind a b value hm
    simp only [id?_relabel, ha, hb]
    exact ⟨_, _, rfl, rfl⟩
  · have hg := hn.grounded
    rw [ConstraintTable.constraints_redirect keep hg.constraints (hg.indexed remove) hg.proper,
      funext (relation?_relabel n keep remove _), ← List.filter_filterMap, ← List.map_filterMap,
      ← h.constraints, List.map_map]
    simp [List.filter_map, Function.comp_def, Constraint.relation, Constraint.redirect]

theorem Constrained.executes {ss : List Statement} {n n' : NamedSketch} {st : Statement}
    (hn : Labelled n) (h : Constrained ss n) (hst : n.Executes st n') :
    Constrained (ss ++ [st]) n' := by
  cases hst with
  | @declare _ label shape hlabel _ _ =>
    refine (h.declare label shape st.isFixed).append fun kind a b value heq => ?_
    rw [← heq] at hlabel
    cases hlabel
  | @relate kind a b value e f t id ha hb ht =>
    obtain ⟨hne, _, heq⟩ := Sketch.constrain_eq_ok ht
    refine ⟨fun kind' a' b' value' hm => ?_, ?_⟩
    · rcases List.mem_append.mp hm with hm | hm
      · exact h.named kind' a' b' value' hm
      · cases List.mem_singleton.mp hm
        exact ⟨e, f, ha, hb⟩
    · have hlast : n.relation? (relate kind a b value) = some (kind, some e, some f, value) := by
        simp [relation?, ha, hb, hne]
      rw [relation?_setSketch n t, List.filterMap_append, List.filterMap_cons_some hlast,
        ← h.constraints, heq, ConstraintTable.constraints_insert, List.map_append]
      rfl
  | coincide _ _ ht => exact (h.combine hn ht).append (by simp)

structure Tells (ss : List Statement) (n : NamedSketch) : Prop where
  labelled : Labelled n
  classed : Classed ss n
  depicted : Depicted ss n
  constrained : Constrained ss n

theorem tells_nil : Tells [] {} where
  labelled := ⟨.new {}, .nil, by simp [id?]⟩
  classed := ⟨rfl, by simp, by simp [id?]⟩
  depicted := ⟨by simp, by simp⟩
  constrained := ⟨by simp, rfl⟩

theorem Tells.executes {ss : List Statement} {n n' : NamedSketch} {st : Statement}
    (h : Tells ss n) (hst : n.Executes st n') : Tells (ss ++ [st]) n' where
  labelled := h.labelled.executes hst
  classed := h.classed.executes h.labelled hst
  depicted := h.depicted.executes h.labelled h.classed hst
  constrained := h.constrained.executes h.labelled hst

theorem Tells.foldlM {ss ss' : List Statement} {n n' : NamedSketch} (h : Tells ss n)
    (hr : ss'.foldlM execute n = .ok n') : Tells (ss ++ ss') n' := by
  induction ss' generalizing ss n with
  | nil =>
    cases hr
    rwa [List.append_nil]
  | cons st ss' ih =>
    rw [List.foldlM_cons, bind_eq_ok_iff] at hr
    obtain ⟨m, hm, hr⟩ := hr
    have hnext := ih (h.executes (execute_eq_ok_iff.mp hm)) hr
    rwa [List.append_assoc, List.singleton_append] at hnext

open Classical in
/-- What a statement asks for between labels that do not coincide, with the elements that they
name. -/
noncomputable def asked? (ss : List Statement) (n : NamedSketch) :
    Statement → Option (RelationKind × Option ElementId × Option ElementId × Float)
  | relate kind a b value =>
    if Coincident ss a b then none else some (kind, n.id? a, n.id? b, value)
  | _ => none

/-- The sketch has what the statements say, and nothing else. -/
structure Describes (ss : List Statement) (n : NamedSketch) : Prop where
  labels : n.labels.map Prod.fst = ss.filterMap label?
  distinct : (n.labels.map Prod.fst).Nodup
  live : ∀ id, id ∈ n.labels.map Prod.snd ↔ id ∈ n.sketch.elements.elements.map (·.id)
  classes : ∀ a ∈ n.labels.map Prod.fst, ∀ b ∈ n.labels.map Prod.fst,
    n.id? a = n.id? b ↔ Coincident ss a b
  fixed : ∀ e ∈ n.sketch.elements.elements,
    e.fixed = true ↔ ∃ st ∈ ss, n.declared? st = some e.id ∧ st.isFixed = true
  shapes : ∀ e ∈ n.sketch.elements.elements, ∃ st ∈ ss,
    n.declared? st = some e.id ∧ st.isFixed = e.fixed ∧ st.shape? = some e.shape
  constraints : n.sketch.constraints.constraints.map Constraint.relation =
    ss.filterMap (asked? ss n)

theorem Tells.id?_eq_iff {ss : List Statement} {n : NamedSketch} (h : Tells ss n) {a b : Label}
    {id : ElementId} (ha : n.id? a = some id) : n.id? a = n.id? b ↔ Coincident ss a b := by
  constructor
  · intro hab
    exact h.classed.linked a b id ha (hab.symm.trans ha)
  · exact h.classed.eq_of_coincident

theorem Tells.asked?_eq {ss : List Statement} {n : NamedSketch} (h : Tells ss n) {st : Statement}
    (hst : st ∈ ss) : asked? ss n st = n.relation? st := by
  cases st with
  | relate kind a b value =>
    obtain ⟨e, f, ha, _⟩ := h.constrained.named kind a b value hst
    have hiff := h.id?_eq_iff (b := b) ha
    by_cases hab : n.id? a = n.id? b
    · rw [asked?, relation?, if_pos hab, if_pos (hiff.mp hab)]
    · rw [asked?, relation?, if_neg hab, if_neg (mt hiff.mpr hab)]
  | _ => rfl

theorem Tells.describes {ss : List Statement} {n : NamedSketch} (h : Tells ss n) :
    Describes ss n := by
  have hnodup := h.labelled.nodup
  have hmem : ∀ l, l ∈ n.labels.map Prod.fst → ∃ id, n.id? l = some id := by
    intro l hl
    obtain ⟨p, hp, rfl⟩ := List.mem_map.mp hl
    exact ⟨p.2, (id?_eq_some_iff hnodup).mpr hp⟩
  refine ⟨h.classed.labels, hnodup, fun id => ?_, fun a ha b _ => ?_, fun e he => ⟨?_, ?_⟩,
    h.depicted.drawn, ?_⟩
  · have hlive : (∃ l, n.id? l = some id) ↔ id ∈ n.labels.map Prod.snd := by
      simp [id?_eq_some_iff hnodup]
    rw [← hlive, h.labelled.live id]
    exact List.mem_map.symm
  · obtain ⟨id, hid⟩ := hmem a ha
    exact h.id?_eq_iff hid
  · intro hf
    obtain ⟨st, hst, hid, hfixed, _⟩ := h.depicted.drawn e he
    exact ⟨st, hst, hid, hfixed.trans hf⟩
  · rintro ⟨st, hst, hid, hf⟩
    exact h.depicted.fixed st hst hf e he hid
  · rw [h.constrained.constraints]
    exact List.filterMap_congr fun st hst => (h.asked?_eq hst).symm

/-- Every script that is accepted is a list of statements, and its sketch has what they say. -/
theorem describes_of_ofScript {text : String} {n : NamedSketch} (h : ofScript text = .ok n) :
    ∃ ss, List.Forall₂ (fun cs st => Statement.ofChars cs = .ok st) (statementLines text) ss ∧
      Describes ss n := by
  obtain ⟨ss, hread, hrun⟩ := ofScript_eq_ok_iff.mp h
  exact ⟨ss, hread, (tells_nil.foldlM hrun).describes⟩

/-- Points that come to coincide in a chain, after distances between them were given. -/
def chainScript : String :=
  "point a (0, 0)\nfixed point b (3, 4)\npoint c (1, 1)\nline l (0, 1, 0)\n" ++
  "distance(a, b) = 5\ndistance(b, c) = 2\ncoincident(a, b)\n# d is c\npoint d (2, 2)\n" ++
  "distance(d, l) = 3\ncoincident(d, c)\ncoincident(c, d)\n"

theorem describes_chainScript :
    ∃ n ss, ofScript chainScript = .ok n ∧
      List.Forall₂ (fun cs st => Statement.ofChars cs = .ok st) (statementLines chainScript) ss ∧
      Describes ss n := by
  have hok : (ofScript chainScript).isOk = true := by decide +kernel
  cases h : ofScript chainScript with
  | error e => simp [h, Except.isOk, Except.toBool] at hok
  | ok n =>
    obtain ⟨ss, hss⟩ := describes_of_ofScript h
    exact ⟨n, ss, rfl, hss⟩

end NamedSketch

end RigidSketch
