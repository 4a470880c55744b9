import RigidSketch.Proofs.Copies
import RigidSketch.Proofs.ConstraintIndex
import RigidSketch.Sketch.Edit

/-! The problem that a sketch poses: which elements there are, which of them are fixed, and
the constraints between them. Edits keep it sound, and solving leaves it as it is. -/

namespace RigidSketch

namespace ElementTable

/-- The elements in order, each with whether it is fixed. -/
def roster (t : ElementTable) : List (ElementId × Bool) :=
  t.elements.map fun e => (e.id, e.fixed)

theorem roster_map {t : ElementTable} {f : Element → Element}
    (hf : ∀ e ∈ t.elements, (f e).id = e.id ∧ (f e).fixed = e.fixed) :
    (t.map f).roster = t.roster := by
  unfold roster map
  rw [List.map_map]
  apply List.map_congr_left
  intro e he
  simp [hf e he]

theorem roster_mapWhere {t : ElementTable} {p : ElementId → Bool} {f : Element → Element}
    (hf : ∀ e ∈ t.elements, p e.id → (f e).id = e.id ∧ (f e).fixed = e.fixed) :
    (t.mapWhere p f).roster = t.roster := by
  apply roster_map (f := fun e => if p e.id then f e else e)
  intro e he
  split
  · rename_i hp
    exact hf e he hp
  · exact ⟨rfl, rfl⟩

theorem numbers_eq_of_roster {t t' : ElementTable} (h : t'.roster = t.roster) :
    t'.numbers = t.numbers := by
  have hn : ∀ u : ElementTable, u.numbers = u.roster.map (·.1.number) := by
    intro u
    simp [numbers, roster, Function.comp_def]
  rw [hn, hn, h]

theorem isFixed_eq_lookup (t : ElementTable) (id : ElementId) :
    t.isFixed id = (t.roster.lookup id).getD false := by
  unfold isFixed get? roster
  induction t.elements with
  | nil => rfl
  | cons e es ih =>
    by_cases he : e.id = id
    · simp [he]
    · have hne : (id == e.id) = false := by simpa using fun h => he h.symm
      simpa [he, List.lookup_cons, hne] using ih

theorem isFixed_congr {t t' : ElementTable} (h : t'.roster = t.roster) (id : ElementId) :
    t'.isFixed id = t.isFixed id := by
  rw [isFixed_eq_lookup, isFixed_eq_lookup, h]

theorem mem_of_roster {t t' : ElementTable} (h : t'.roster = t.roster) {e : Element}
    (he : e ∈ t.elements) : ∃ e' ∈ t'.elements, e'.id = e.id ∧ e'.fixed = e.fixed := by
  have hm : (e.id, e.fixed) ∈ t'.roster := by
    rw [h]
    exact List.mem_map_of_mem (f := fun e : Element => (e.id, e.fixed)) he
  obtain ⟨e', he', heq⟩ := List.mem_map.mp hm
  exact ⟨e', he', by simpa using heq⟩

theorem isFixed_of_mem {t : ElementTable} (hn : Numbered t.numbers t.next) {e : Element}
    (he : e ∈ t.elements) : t.isFixed e.id = e.fixed := by
  simp [isFixed, (get?_eq_some_iff hn).mpr ⟨he, rfl⟩]

end ElementTable

structure Constraint.Same (c d : Constraint) : Prop where
  id : d.id = c.id
  kind : d.kind = c.kind
  first : d.first = c.first
  second : d.second = c.second
  value : d.value = c.value

theorem Constraint.Same.ends {c d : Constraint} (h : c.Same d) : d.ends = c.ends := by
  simp [Constraint.ends, h.first, h.second]

namespace ConstraintTable

/-- The constraints without what the last solve found of them. -/
def unsolved (t : ConstraintTable) : ConstraintTable := t.map ({ · with solved := false })

@[simp] theorem next_unsolved (t : ConstraintTable) : t.unsolved.next = t.next := rfl

@[simp] theorem index_unsolved (t : ConstraintTable) : t.unsolved.index = t.index := rfl

theorem mem_of_unsolved {t t' : ConstraintTable} (h : t'.unsolved = t.unsolved) {c : Constraint}
    (hc : c ∈ t.constraints) : ∃ d ∈ t'.constraints, c.Same d := by
  have hm : { c with solved := false } ∈ t'.unsolved.constraints := by
    rw [h]
    exact List.mem_map_of_mem (f := fun c : Constraint => { c with solved := false }) hc
  obtain ⟨d, hd, heq⟩ := List.mem_map.mp hm
  simp only [Constraint.mk.injEq] at heq
  exact ⟨d, hd, heq.1, heq.2.1, heq.2.2.1, heq.2.2.2.1, heq.2.2.2.2.1⟩

theorem ids_eq_of_unsolved {t t' : ConstraintTable} (h : t'.unsolved = t.unsolved) :
    t'.ids = t.ids := by
  have hi : ∀ u : ConstraintTable, u.ids = u.unsolved.ids := by
    intro u
    simp [ids, unsolved, map, Function.comp_def]
  rw [hi t', hi t, h]

theorem unsolved_map {t : ConstraintTable} (f : Constraint → Bool) :
    (t.map fun c => { c with solved := f c }).unsolved = t.unsolved := by
  simp [unsolved, map, Function.comp_def]

end ConstraintTable

namespace Sketch

/-- Elements and constraints are numbered and indexed, and every constraint is between two
different elements of the sketch. -/
structure Grounded (s : Sketch) : Prop where
  elements : Numbered s.elements.numbers s.elements.next
  constraints : Numbered s.constraints.numbers s.constraints.next
  indexed : ∀ e, s.constraints.Indexed e
  proper : ∀ c ∈ s.constraints.constraints, c.first ≠ c.second
  ends : ∀ c ∈ s.constraints.constraints, ∀ e ∈ c.ends, ∃ x ∈ s.elements.elements, x.id = e

/-- Two sketches that differ only in shapes, levels, decomposition and outcome. -/
structure SameProblem (s t : Sketch) : Prop where
  settings : t.settings = s.settings
  roster : t.elements.roster = s.elements.roster
  next : t.elements.next = s.elements.next
  constraints : t.constraints.unsolved = s.constraints.unsolved

theorem SameProblem.refl (s : Sketch) : SameProblem s s := ⟨rfl, rfl, rfl, rfl⟩

theorem SameProblem.trans {s t u : Sketch} (h : SameProblem s t) (h' : SameProblem t u) :
    SameProblem s u :=
  ⟨h'.settings.trans h.settings, h'.roster.trans h.roster, h'.next.trans h.next,
    h'.constraints.trans h.constraints⟩

theorem Grounded.congr {s t : Sketch} (hg : Grounded s) (h : SameProblem s t) : Grounded t := by
  have hnum : t.constraints.numbers = s.constraints.numbers := by
    have hu : ∀ u : ConstraintTable, u.unsolved.numbers = u.numbers := fun u =>
      ConstraintTable.numbers_map fun _ => rfl
    rw [← hu, h.constraints, hu]
  have hnext : t.constraints.next = s.constraints.next := by
    simpa using congrArg ConstraintTable.next h.constraints
  have hon : ∀ e, t.constraints.on e = s.constraints.on e := by
    have hi : t.constraints.index = s.constraints.index := by
      simpa using congrArg ConstraintTable.index h.constraints
    intro e
    rw [ConstraintTable.on, hi, ConstraintTable.on]
  have hback : ∀ c ∈ t.constraints.constraints, ∃ d ∈ s.constraints.constraints, c.Same d :=
    fun c hc => ConstraintTable.mem_of_unsolved h.constraints.symm hc
  refine ⟨?_, ?_, fun e => ⟨?_, fun id => ?_⟩, ?_, ?_⟩
  · rw [ElementTable.numbers_eq_of_roster h.roster, h.next]
    exact hg.elements
  · rw [hnum, hnext]
    exact hg.constraints
  · rw [hon]
    exact (hg.indexed e).nodup
  · rw [hon, (hg.indexed e).mem_on]
    constructor
    · rintro ⟨c, hc, hid, he⟩
      obtain ⟨d, hd, hsame⟩ := ConstraintTable.mem_of_unsolved h.constraints hc
      exact ⟨d, hd, hsame.id.trans hid, hsame.ends ▸ he⟩
    · rintro ⟨c, hc, hid, he⟩
      obtain ⟨d, hd, hsame⟩ := hback c hc
      exact ⟨d, hd, hsame.id.trans hid, hsame.ends ▸ he⟩
  · intro c hc
    obtain ⟨d, hd, hsame⟩ := hback c hc
    rw [← hsame.first, ← hsame.second]
    exact hg.proper d hd
  · intro c hc e he
    obtain ⟨d, hd, hsame⟩ := hback c hc
    obtain ⟨x, hx, hid⟩ := hg.ends d hd e (hsame.ends ▸ he)
    obtain ⟨y, hy, hyx, _⟩ := ElementTable.mem_of_roster h.roster hx
    exact ⟨y, hy, hyx.trans hid⟩

theorem constrain_eq_ok {s t : Sketch} {kind : RelationKind} {first second : ElementId}
    {value : Float} {id : ConstraintId}
    (h : s.constrain kind first second value = .ok (t, id)) :
    first ≠ second ∧
      (∃ a b, s.elements.get? first = some a ∧ s.elements.get? second = some b ∧
        kind.accepts a.shape.kind b.shape.kind = true ∧ kind.allows value = true) ∧
      t = { s with constraints := (s.constraints.insert kind first second value).1,
                   edited := true } := by
  unfold constrain getElement checkValue at h
  by_cases hne : first = second
  · simp [hne, bind, Except.bind, throw, throwThe, MonadExceptOf.throw] at h
  cases ha : s.elements.get? first with
  | none => simp [hne, ha, bind, Except.bind] at h
  | some a =>
    cases hb : s.elements.get? second with
    | none => simp [hne, ha, hb, bind, Except.bind] at h
    | some b =>
      cases hk : kind.accepts a.shape.kind b.shape.kind with
      | false =>
        simp [hne, ha, hb, hk, bind, Except.bind, throw, throwThe, MonadExceptOf.throw] at h
      | true =>
        cases hv : kind.allows value with
        | false => simp [hne, ha, hb, hk, hv, bind, Except.bind] at h
        | true =>
          simp only [hne, ha, hb, hk, hv, bind, Except.bind, pure, Except.pure, if_true, if_false,
            Bool.not_true, Bool.false_eq_true, Except.ok.injEq, Prod.mk.injEq] at h
          exact ⟨hne, ⟨a, b, rfl, rfl, hk, rfl⟩, h.1.symm⟩

theorem setValue_eq_ok {s t : Sketch} {id : ConstraintId} {value : Float}
    (h : s.setValue id value = .ok t) :
    ∃ c, s.constraints.get? id = some c ∧ c.kind.allows value = true ∧
      t = { s with constraints := s.constraints.modify id ({ · with value }), edited := true } := by
  unfold setValue checkValue at h
  cases hc : s.constraints.get? id with
  | none => simp [hc, throw, throwThe, MonadExceptOf.throw] at h
  | some c =>
    cases hv : c.kind.allows value with
    | false => simp [hc, hv, bind, Except.bind] at h
    | true =>
      simp only [hc, hv, bind, Except.bind, pure, Except.pure, if_true, Except.ok.injEq] at h
      exact ⟨c, rfl, hv, h.symm⟩

/-- What combining makes of an element that stays: if only the removed point was fixed, the
kept one is fixed in its place. -/
def heir (keep : ElementId) (kept removed : Element) (e : Element) : Element :=
  if (removed.fixed && !kept.fixed) = true ∧ e.id = keep then
    { e with shape := removed.shape, fixed := true }
  else e

theorem id_heir (keep : ElementId) (kept removed e : Element) :
    (heir keep kept removed e).id = e.id := by
  unfold heir
  split <;> rfl

theorem combine_eq_ok {s t : Sketch} {keep remove : ElementId}
    (h : s.combine keep remove = .ok t) :
    (keep = remove ∧ t = s) ∨
      (keep ≠ remove ∧ ∃ kept removed, s.elements.get? keep = some kept ∧
        (s.elements.get? remove = some removed ∧
          kept.shape.kind = .point ∧ removed.shape.kind = .point) ∧
        t = { s with elements := (s.elements.map (heir keep kept removed)).erase remove,
                     constraints := s.constraints.redirect remove keep,
                     edited := true }) := by
  unfold combine getElement at h
  by_cases hne : keep = remove
  · simp only [hne, if_true, pure, Except.pure, Except.ok.injEq] at h
    exact Or.inl ⟨hne, h.symm⟩
  refine Or.inr ⟨hne, ?_⟩
  cases ha : s.elements.get? keep with
  | none => simp [hne, ha, bind, Except.bind] at h
  | some kept =>
    cases hb : s.elements.get? remove with
    | none => simp [hne, ha, hb, bind, Except.bind] at h
    | some removed =>
      refine ⟨kept, removed, rfl, ?_⟩
      cases hp : kept.shape with
      | line l =>
        simp [hne, ha, hb, hp, bind, Except.bind, throw, throwThe, MonadExceptOf.throw] at h
      | point p =>
        cases hq : removed.shape with
        | line l =>
          simp [hne, ha, hb, hp, hq, bind, Except.bind, throw, throwThe,
            MonadExceptOf.throw] at h
        | point q =>
          simp only [hne, ha, hb, hp, hq, bind, Except.bind, pure, Except.pure, if_false] at h
          split at h
          · simp [throw, throwThe, MonadExceptOf.throw] at h
          · simp only [Except.ok.injEq] at h
            rw [← h]
            refine ⟨⟨rfl, rfl, rfl⟩, ?_⟩
            cases hf : removed.fixed && !kept.fixed with
            | true =>
              have hheir : heir keep kept removed = fun e =>
                  if e.id = keep then { e with shape := .point q, fixed := true } else e := by
                funext e
                simp [heir, hf, hq]
              simp [hheir, ElementTable.modify, ElementTable.mapWhere, ElementTable.map]
            | false =>
              have hheir : heir keep kept removed = fun e => e := by
                funext e
                simp [heir, hf]
              simp [hheir, ElementTable.map]

/-- Points that are both fixed, and farther apart than is tolerated. -/
def Apart (s : Sketch) (kept removed : Element) (p q : Vec Float) : Prop :=
  (kept.fixed && removed.fixed && decide (s.tolerance < p.distance q)) = true

section

variable {s : Sketch} {keep remove : ElementId} {kept removed : Element} {p q : Vec Float}
  (hne : keep ≠ remove) (hk : s.getElement keep = .ok kept)
  (hr : s.getElement remove = .ok removed) (hp : kept.shape = .point p)
  (hq : removed.shape = .point q)
include hne hk hr hp hq

theorem combine_of_apart (h : s.Apart kept removed p q) :
    s.combine keep remove = .error (.fixedPointsDisagree keep remove) := by
  unfold Apart at h
  simp only [combine, hne, if_false, hk, hr, hp, hq, h, if_true, bind, Except.bind, throw,
    throwThe, MonadExceptOf.throw]

theorem combine_of_not_apart (h : ¬ s.Apart kept removed p q) :
    s.combine keep remove =
      .ok { s with elements := (s.elements.map (heir keep kept removed)).erase remove,
                   constraints := s.constraints.redirect remove keep,
                   edited := true } := by
  have hok : ∃ t, s.combine keep remove = .ok t := by
    unfold Apart at h
    simp only [combine, hne, if_false, hk, hr, hp, hq, h, bind, Except.bind, pure, Except.pure]
    exact ⟨_, rfl⟩
  obtain ⟨t, ht⟩ := hok
  rcases combine_eq_ok ht with ⟨heq, _⟩ | ⟨_, a, b, ha, ⟨hb, _⟩, rfl⟩
  · exact absurd heq hne
  · simp only [getElement, ha, Except.ok.injEq] at hk
    simp only [getElement, hb, Except.ok.injEq] at hr
    rw [ht, hk, hr]

end

theorem Grounded.addShape {s : Sketch} (h : Grounded s) (shape : Shape Float) (fixed : Bool) :
    Grounded (s.addShape shape fixed).1 where
  elements := by
    have hn : (s.addShape shape fixed).1.elements.numbers =
        s.elements.numbers ++ [s.elements.next] := by
      simp [Sketch.addShape, ElementTable.insert, ElementTable.numbers]
    rw [hn]
    exact h.elements.append_next
  constraints := h.constraints
  indexed := h.indexed
  proper := h.proper
  ends := by
    intro c hc e he
    obtain ⟨x, hx, hid⟩ := h.ends c hc e he
    exact ⟨x, List.mem_append_left _ hx, hid⟩

theorem Grounded.constrain {s t : Sketch} {kind : RelationKind} {first second : ElementId}
    {value : Float} {id : ConstraintId} (h : Grounded s)
    (ht : s.constrain kind first second value = .ok (t, id)) : Grounded t := by
  obtain ⟨hne, ⟨a, b, ha, hb, _⟩, rfl⟩ := constrain_eq_ok ht
  have hcons := ConstraintTable.constraints_insert s.constraints kind first second value
  refine ⟨h.elements, ?_, fun e => ConstraintTable.indexed_insert h.constraints h.indexed hne _ _ e,
    ?_, ?_⟩
  · have hn : (s.constraints.insert kind first second value).1.numbers =
        s.constraints.numbers ++ [s.constraints.next] := by
      simp [ConstraintTable.numbers, hcons]
    rw [hn]
    exact h.constraints.append_next
  · intro c hc
    rw [hcons] at hc
    rcases List.mem_append.mp hc with hc | hc
    · exact h.proper c hc
    · rw [List.mem_singleton.mp hc]
      exact hne
  · intro c hc e he
    rw [hcons] at hc
    rcases List.mem_append.mp hc with hc | hc
    · exact h.ends c hc e he
    · rw [List.mem_singleton.mp hc, Constraint.mem_ends] at he
      rcases he with rfl | rfl
      · exact ⟨a, ElementTable.mem_of_get? ha⟩
      · exact ⟨b, ElementTable.mem_of_get? hb⟩

theorem Grounded.setValue {s t : Sketch} {id : ConstraintId} {value : Float} (h : Grounded s)
    (ht : s.setValue id value = .ok t) : Grounded t := by
  obtain ⟨_, _, _, rfl⟩ := setValue_eq_ok ht
  let f : Constraint → Constraint := fun c => if c.id = id then { c with value } else c
  have hid : ∀ c, (f c).id = c.id := by intro c; simp only [f]; split <;> rfl
  have hends : ∀ c, (f c).ends = c.ends := by intro c; simp only [f]; split <;> rfl
  refine ⟨h.elements, ?_, fun e => (h.indexed e).map hid hends, ?_, ?_⟩
  · have hn := ConstraintTable.numbers_map (t := s.constraints) hid
    exact hn ▸ h.constraints
  · intro c hc
    obtain ⟨d, hd, rfl⟩ := List.mem_map.mp hc
    have := h.proper d hd
    split <;> exact this
  · intro c hc e he
    obtain ⟨d, hd, rfl⟩ := List.mem_map.mp hc
    exact h.ends d hd e (hends d ▸ he)

theorem next_redirect (t : ConstraintTable) (old new : ElementId) :
    (t.redirect old new).next = t.next := by
  have hone : ∀ (u : ConstraintTable) id, (u.redirectOne old new id).next = u.next := by
    intro u id
    unfold ConstraintTable.redirectOne
    split
    · rfl
    · dsimp only
      split <;> rfl
  have hall : ∀ (ids : List ConstraintId) (u : ConstraintTable),
      (ids.foldl (ConstraintTable.redirectOne old new) u).next = u.next := by
    intro ids
    induction ids with
    | nil => intro u; rfl
    | cons id ids ih => intro u; rw [List.foldl_cons, ih, hone]
  exact hall _ _

theorem Grounded.combine {s t : Sketch} {keep remove : ElementId} (h : Grounded s)
    (ht : s.combine keep remove = .ok t) : Grounded t := by
  rcases combine_eq_ok ht with ⟨_, rfl⟩ | ⟨hne, kept, removed, hkept, _, rfl⟩
  · exact h
  have hcons := ConstraintTable.constraints_redirect keep h.constraints (h.indexed remove) h.proper
  refine ⟨?_, ?_, ConstraintTable.indexed_redirect h.constraints h.indexed h.proper hne, ?_, ?_⟩
  · have hsub : ((s.elements.map (heir keep kept removed)).erase remove).numbers.Sublist
        (s.elements.map (heir keep kept removed)).numbers := List.filter_sublist.map _
    rw [ElementTable.numbers_map (id_heir keep kept removed)] at hsub
    exact h.elements.sublist hsub
  · have hsub : (s.constraints.redirect remove keep).numbers.Sublist s.constraints.numbers := by
      unfold ConstraintTable.numbers
      rw [hcons]
      refine (List.filter_sublist.map _).trans ?_
      rw [List.map_map]
      exact List.Sublist.refl _
    have hn := h.constraints.sublist hsub
    rwa [← next_redirect s.constraints remove keep] at hn
  · intro c hc
    rw [hcons] at hc
    simpa using (List.mem_filter.mp hc).2
  · intro c hc e he
    rw [hcons] at hc
    obtain ⟨d, hd, rfl⟩ := List.mem_map.mp (List.mem_filter.mp hc).1
    have hstay : ∀ x ∈ s.elements.elements, x.id ≠ remove →
        ∃ y ∈ ((s.elements.map (heir keep kept removed)).erase remove).elements, y.id = x.id := by
      intro x hx hxr
      refine ⟨heir keep kept removed x, List.mem_filter.mpr ⟨List.mem_map_of_mem hx, ?_⟩,
        id_heir keep kept removed x⟩
      simpa [id_heir] using hxr
    rcases Constraint.mem_ends_redirect.mp he with ⟨rfl, _⟩ | ⟨her, hed⟩
    · obtain ⟨hx, hid⟩ := ElementTable.mem_of_get? hkept
      obtain ⟨y, hy, hyx⟩ := hstay kept hx (hid ▸ hne)
      exact ⟨y, hy, hyx.trans hid⟩
    · obtain ⟨x, hx, hid⟩ := h.ends d hd e hed
      obtain ⟨y, hy, hyx⟩ := hstay x hx (hid ▸ her)
      exact ⟨y, hy, hyx.trans hid⟩

end Sketch

end RigidSketch
