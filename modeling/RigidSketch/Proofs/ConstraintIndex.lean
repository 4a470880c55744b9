import RigidSketch.Proofs.Tables

/-! The index of the constraints on each element. It stays exact when constraints are added,
and when those on one element are redirected to another. -/

namespace RigidSketch

namespace Constraint

theorem mem_ends {c : Constraint} {e : ElementId} : e ∈ c.ends ↔ e = c.first ∨ e = c.second := by
  simp [ends]

theorem mem_ends_redirect {c : Constraint} {old new e : ElementId} :
    e ∈ (c.redirect old new).ends ↔ (e = new ∧ old ∈ c.ends) ∨ (e ≠ old ∧ e ∈ c.ends) := by
  simp only [mem_ends, redirect]
  grind

theorem redirect_of_not_mem {c : Constraint} {old new : ElementId} (h : old ∉ c.ends) :
    c.redirect old new = c := by
  have h₁ : c.first ≠ old := fun he => h (mem_ends.mpr (Or.inl he.symm))
  have h₂ : c.second ≠ old := fun he => h (mem_ends.mpr (Or.inr he.symm))
  simp [redirect, h₁, h₂]

theorem ends_of_redirect_eq {c : Constraint} {old new : ElementId} (hold : old ∈ c.ends)
    (heq : (c.redirect old new).first = (c.redirect old new).second) :
    (c.redirect old new).first = new ∧ ∀ e ∈ c.ends, e = old ∨ e = new := by
  have hnew : (c.redirect old new).first = new := by
    have hmem : new ∈ (c.redirect old new).ends := mem_ends_redirect.mpr (Or.inl ⟨rfl, hold⟩)
    rw [mem_ends, ← heq, or_self] at hmem
    exact hmem.symm
  refine ⟨hnew, fun e he => ?_⟩
  by_cases ho : e = old
  · exact Or.inl ho
  · have hmem : e ∈ (c.redirect old new).ends := mem_ends_redirect.mpr (Or.inr ⟨ho, he⟩)
    rw [mem_ends, ← heq, or_self, hnew] at hmem
    exact Or.inr hmem

theorem not_mem_ends_of_redirect_ne {c : Constraint} {old new : ElementId} (hold : old ∈ c.ends)
    (hne : new ≠ old) (h : (c.redirect old new).first ≠ (c.redirect old new).second) :
    new ∉ c.ends := by
  intro hnew
  rw [mem_ends] at hold hnew
  apply h
  rcases hold with ho | ho <;> rcases hnew with hn | hn <;> simp_all [redirect]

end Constraint

namespace ConstraintTable

/-- The index leads from an element to the constraints on it, to each of them once. -/
structure Indexed (t : ConstraintTable) (e : ElementId) : Prop where
  nodup : (t.on e).Nodup
  mem_on : ∀ id, id ∈ t.on e ↔ ∃ c ∈ t.constraints, c.id = id ∧ e ∈ c.ends

theorem on_setIndex (t : ConstraintTable) (e e' : ElementId) (ids : List ConstraintId) :
    (t.setIndex e ids).on e' = if e' = e then ids else t.on e' := by
  unfold on setIndex
  rw [lookup_put]
  split <;> rfl

theorem on_addToIndex (t : ConstraintTable) (id : ConstraintId) (e e' : ElementId) :
    (t.addToIndex id e).on e' = if e' = e then t.on e ++ [id] else t.on e' :=
  on_setIndex t e e' _

theorem on_dropFromIndex (t : ConstraintTable) (id : ConstraintId) (e e' : ElementId) :
    (t.dropFromIndex id e).on e' = if e' = e then (t.on e).filter (· ≠ id) else t.on e' :=
  on_setIndex t e e' _

theorem constraints_insert (t : ConstraintTable) (kind : RelationKind) (first second : ElementId)
    (value : Float) : (t.insert kind first second value).1.constraints =
      t.constraints ++ [{ id := ⟨t.next⟩, kind, first, second, value }] := rfl

theorem indexed_insert {t : ConstraintTable} (hn : Numbered t.numbers t.next)
    (ht : ∀ e, t.Indexed e) {first second : ElementId} (hne : first ≠ second)
    (kind : RelationKind) (value : Float) (e : ElementId) :
    (t.insert kind first second value).1.Indexed e := by
  have hon : (t.insert kind first second value).1.on e =
      if e ∈ [first, second] then t.on e ++ [⟨t.next⟩] else t.on e := by
    simp only [insert, on_addToIndex]
    by_cases h₁ : e = first
    · simp [h₁, hne, on]
    · by_cases h₂ : e = second <;> simp [h₁, h₂, hne.symm, on]
  have hfresh : (⟨t.next⟩ : ConstraintId) ∉ t.on e := by
    intro hm
    obtain ⟨c, hc, hid, _⟩ := ((ht e).mem_on _).mp hm
    have := hn.below c.id.number (List.mem_map_of_mem hc)
    simp [hid] at this
  refine ⟨?_, fun id => ?_⟩
  · rw [hon]
    split
    · refine List.nodup_append.mpr ⟨(ht e).nodup, by simp, ?_⟩
      rintro a ha b hb rfl
      exact hfresh (List.mem_singleton.mp hb ▸ ha)
    · exact (ht e).nodup
  · rw [hon, constraints_insert]
    have hm := (ht e).mem_on id
    by_cases he : e ∈ [first, second]
    · simp only [he, if_true, List.mem_append, hm, List.mem_singleton]
      constructor
      · rintro (⟨c, hc, hce⟩ | rfl)
        · exact ⟨c, Or.inl hc, hce⟩
        · exact ⟨_, Or.inr rfl, rfl, he⟩
      · rintro ⟨c, hc | rfl, hid, hce⟩
        · exact Or.inl ⟨c, hc, hid, hce⟩
        · exact Or.inr hid.symm
    · simp only [he, if_false, List.mem_append, hm, List.mem_singleton]
      constructor
      · rintro ⟨c, hc, hce⟩
        exact ⟨c, Or.inl hc, hce⟩
      · rintro ⟨c, hc | rfl, hid, hce⟩
        · exact ⟨c, hc, hid, hce⟩
        · exact absurd hce he

theorem Indexed.map {t : ConstraintTable} {e : ElementId} (h : t.Indexed e)
    {f : Constraint → Constraint} (hid : ∀ c, (f c).id = c.id) (hends : ∀ c, (f c).ends = c.ends) :
    (t.map f).Indexed e := by
  refine ⟨h.nodup, fun id => ?_⟩
  have hon : (t.map f).on e = t.on e := rfl
  rw [hon, h.mem_on]
  constructor
  · rintro ⟨c, hc, hce⟩
    exact ⟨f c, List.mem_map_of_mem hc, by rwa [hid, hends]⟩
  · rintro ⟨d, hd, hce⟩
    obtain ⟨c, hc, rfl⟩ := List.mem_map.mp hd
    rw [hid, hends] at hce
    exact ⟨c, hc, hce⟩

/-- What redirecting makes of one constraint among those with the given identities. -/
def redirected? (old new : ElementId) (ids : List ConstraintId) (c : Constraint) :
    Option Constraint :=
  if c.id ∈ ids then
    if (c.redirect old new).first = (c.redirect old new).second then none
    else some (c.redirect old new)
  else some c

theorem constraints_redirectOne (old new : ElementId) {t : ConstraintTable}
    (hn : (t.constraints.map (·.id)).Nodup) (id : ConstraintId) :
    (redirectOne old new t id).constraints =
      t.constraints.filterMap (redirected? old new [id]) := by
  have hget : ∀ c, t.get? id = some c ↔ c ∈ t.constraints ∧ c.id = id :=
    fun c => find?_key_eq_some_iff hn
  unfold redirectOne
  split
  · rename_i hnone
    have hid : ∀ c ∈ t.constraints, redirected? old new [id] c = some c := by
      intro c hc
      have hne : c.id ≠ id := fun he => by simp [(hget c).mpr ⟨hc, he⟩] at hnone
      simp [redirected?, hne]
    rw [List.filterMap_congr hid, List.filterMap_some]
  · rename_i c hc
    obtain ⟨hm, hid⟩ := (hget c).mp hc
    have hsame : ∀ d ∈ t.constraints, d.id = id → d = c := by
      intro d hd he
      exact Option.some.inj (((hget d).mpr ⟨hd, he⟩).symm.trans hc)
    dsimp only
    split
    · rename_i heq
      have hpick : ∀ d ∈ t.constraints,
          redirected? old new [id] d = Option.guard (fun d => d.id ≠ id) d := by
        intro d hd
        by_cases hne : d.id = id
        · simp [redirected?, hsame d hd hne, heq, hid, Option.guard]
        · simp [redirected?, hne, Option.guard]
      rw [List.filterMap_congr hpick, List.filterMap_eq_filter]
      simp [erase, dropFromIndex, setIndex, Constraint.redirect, hid]
    · rename_i heq
      have hpick : ∀ d ∈ t.constraints, redirected? old new [id] d =
          some (if d.id = id then c.redirect old new else d) := by
        intro d hd
        by_cases hne : d.id = id
        · simp [redirected?, hsame d hd hne, heq, hid]
        · simp [redirected?, hne]
      rw [List.filterMap_congr hpick]
      simp [modify, addToIndex, setIndex]

theorem id_of_redirected? {old new : ElementId} {ids : List ConstraintId} {c d : Constraint}
    (h : redirected? old new ids c = some d) : d.id = c.id := by
  unfold redirected? at h
  split at h
  · split at h
    · cases h
    · rw [← Option.some.inj h]
      rfl
  · rw [Option.some.inj h]

theorem ids_filterMap_sublist {f : Constraint → Option Constraint} {cs : List Constraint}
    (hf : ∀ c d, f c = some d → d.id = c.id) :
    ((cs.filterMap f).map (·.id)).Sublist (cs.map (·.id)) := by
  induction cs with
  | nil => simp
  | cons c cs ih =>
    cases hc : f c with
    | none => simpa [List.filterMap_cons, hc] using ih.cons _
    | some d => simpa [List.filterMap_cons, hc, hf c d hc] using ih

theorem constraints_foldl_redirectOne (old new : ElementId) {t : ConstraintTable}
    (hn : (t.constraints.map (·.id)).Nodup) {ids : List ConstraintId} (hd : ids.Nodup) :
    (ids.foldl (redirectOne old new) t).constraints =
      t.constraints.filterMap (redirected? old new ids) := by
  induction ids generalizing t with
  | nil =>
    have hid : ∀ c ∈ t.constraints, redirected? old new [] c = some c :=
      fun c _ => by simp [redirected?]
    rw [List.filterMap_congr hid, List.filterMap_some]
    rfl
  | cons id rest ih =>
    have hone := constraints_redirectOne old new hn id
    have hn' : ((redirectOne old new t id).constraints.map (·.id)).Nodup := by
      rw [hone]
      exact hn.sublist (ids_filterMap_sublist fun c d => id_of_redirected?)
    rw [List.nodup_cons] at hd
    rw [List.foldl_cons, ih hn' hd.2, hone, List.filterMap_filterMap]
    apply List.filterMap_congr
    intro c _
    by_cases hc : c.id = id
    · cases hr : redirected? old new [id] c with
      | none => simpa [redirected?, hc] using hr
      | some d =>
        have hdid := id_of_redirected? hr
        have hrest : redirected? old new rest d = some d := by simp [redirected?, hdid, hc, hd.1]
        rw [Option.bind_some, hrest, ← hr]
        simp [redirected?, hc]
    · simp [redirected?, hc]

theorem constraints_redirect {t : ConstraintTable} {old : ElementId} (new : ElementId)
    (hn : Numbered t.numbers t.next) (hi : t.Indexed old)
    (hp : ∀ c ∈ t.constraints, c.first ≠ c.second) :
    (t.redirect old new).constraints = (t.constraints.map (·.redirect old new)).filter
      (fun c => c.first ≠ c.second) := by
  have h := constraints_foldl_redirectOne old new
    (t := { t with index := t.index.filter (·.1 ≠ old) }) (nodup_ids hn) hi.nodup
  refine h.trans ?_
  rw [← List.filterMap_eq_filter (p := fun c : Constraint => decide (c.first ≠ c.second)),
    List.filterMap_map]
  apply List.filterMap_congr
  intro c hc
  by_cases ho : old ∈ c.ends
  · have hm : c.id ∈ t.on old := (hi.mem_on _).mpr ⟨c, hc, rfl, ho⟩
    by_cases heq : (c.redirect old new).first = (c.redirect old new).second
    · simp [redirected?, hm, heq, Option.guard]
    · simp [redirected?, hm, heq, Option.guard]
  · have hm : c.id ∉ t.on old := by
      intro hm
      obtain ⟨d, hd, hid, hde⟩ := (hi.mem_on _).mp hm
      have hget := (get?_eq_some_iff hn).mpr ⟨hd, hid⟩
      have hdc := Option.some.inj (hget.symm.trans ((get?_eq_some_iff hn).mpr ⟨hc, rfl⟩))
      exact ho (hdc ▸ hde)
    simp [redirected?, hm, Constraint.redirect_of_not_mem ho, Option.guard, hp c hc]

/-- A table in the course of redirecting: of the constraints on the old element those with
the given identities are still to be redirected, and the index is exact elsewhere. -/
structure Redirecting (old : ElementId) (rest : List ConstraintId) (t : ConstraintTable) :
    Prop where
  nodup_ids : (t.constraints.map (·.id)).Nodup
  nodup : rest.Nodup
  proper : ∀ c ∈ t.constraints, c.first ≠ c.second
  rest : ∀ c ∈ t.constraints, old ∈ c.ends ↔ c.id ∈ rest
  on_old : t.on old = []
  indexed : ∀ e, e ≠ old → t.Indexed e

theorem Redirecting.skip {old : ElementId} {id : ConstraintId} {rest : List ConstraintId}
    {t : ConstraintTable} (h : Redirecting old (id :: rest) t) (hid : id ∉ t.ids) :
    Redirecting old rest t where
  nodup_ids := h.nodup_ids
  nodup := (List.nodup_cons.mp h.nodup).2
  proper := h.proper
  rest := by
    intro c hc
    have hne : c.id ≠ id := fun he => hid (mem_ids.mpr ⟨c, hc, he⟩)
    rw [h.rest c hc, List.mem_cons, or_iff_right hne]
  on_old := h.on_old
  indexed := h.indexed

theorem Redirecting.eq_of_id_eq {old : ElementId} {rest : List ConstraintId}
    {t : ConstraintTable} (h : Redirecting old rest t) {c d : Constraint}
    (hc : c ∈ t.constraints) (hd : d ∈ t.constraints) (hid : d.id = c.id) : d = c :=
  List.inj_on_of_nodup_map h.nodup_ids hd hc hid

theorem on_erase (t : ConstraintTable) {c : Constraint} (h : c.first = c.second)
    (e : ElementId) :
    (t.erase c).on e = if e = c.first then (t.on e).filter (· ≠ c.id) else t.on e := by
  simp only [ConstraintTable.erase, on_dropFromIndex, ← h]
  by_cases he : e = c.first
  · simp [he, List.filter_filter, on]
  · simp [he, on]

theorem Indexed.erase {t : ConstraintTable} {e : ElementId} (hi : t.Indexed e) {c : Constraint}
    (h : c.first = c.second) (hon : c.id ∈ t.on e → e = c.first) : (t.erase c).Indexed e := by
  have hmem : ∀ id, id ∈ (t.erase c).on e ↔ id ∈ t.on e ∧ id ≠ c.id := by
    intro id
    rw [on_erase t h]
    split
    · simp
    · rename_i hne
      refine ⟨fun hm => ⟨hm, fun hid => hne (hon (hid ▸ hm))⟩, And.left⟩
  refine ⟨?_, fun id => ?_⟩
  · rw [on_erase t h]
    split
    · exact hi.nodup.sublist List.filter_sublist
    · exact hi.nodup
  · have hcons : (t.erase c).constraints = t.constraints.filter (·.id ≠ c.id) := rfl
    rw [hmem, hi.mem_on, hcons]
    constructor
    · rintro ⟨⟨d, hd, hid, hde⟩, hne⟩
      exact ⟨d, List.mem_filter.mpr ⟨hd, by simpa [hid] using hne⟩, hid, hde⟩
    · rintro ⟨d, hd, hid, hde⟩
      rw [List.mem_filter] at hd
      exact ⟨⟨d, hd.1, hid, hde⟩, by simpa [hid] using hd.2⟩

theorem Redirecting.erase {old new : ElementId} {rest : List ConstraintId} {t : ConstraintTable}
    {c : Constraint} (h : Redirecting old (c.id :: rest) t) (hc : c ∈ t.constraints)
    (hne : new ≠ old) (heq : (c.redirect old new).first = (c.redirect old new).second) :
    Redirecting old rest (t.erase (c.redirect old new)) := by
  have hcons : (t.erase (c.redirect old new)).constraints =
      t.constraints.filter (·.id ≠ c.id) := rfl
  obtain ⟨hnew, hends⟩ := Constraint.ends_of_redirect_eq ((h.rest c hc).mpr List.mem_cons_self) heq
  refine ⟨?_, (List.nodup_cons.mp h.nodup).2, ?_, ?_, ?_, ?_⟩
  · rw [hcons]
    exact h.nodup_ids.sublist (List.filter_sublist.map _)
  · intro d hd
    exact h.proper d (List.mem_of_mem_filter hd)
  · intro d hd
    rw [hcons, List.mem_filter] at hd
    have hid : d.id ≠ c.id := by simpa using hd.2
    rw [h.rest d hd.1, List.mem_cons, or_iff_right hid]
  · rw [on_erase t heq, hnew, if_neg hne.symm]
    exact h.on_old
  · intro e he
    refine (h.indexed e he).erase heq fun hm => ?_
    obtain ⟨d, hd, hid, hde⟩ := ((h.indexed e he).mem_on _).mp hm
    rw [hnew]
    exact (hends e (h.eq_of_id_eq hc hd hid ▸ hde)).resolve_left he

theorem mem_constraints_modify {t : ConstraintTable} {c c' d : Constraint}
    (hc : c ∈ t.constraints) :
    d ∈ (t.modify c.id fun _ => c').constraints ↔
      d = c' ∨ (d ∈ t.constraints ∧ d.id ≠ c.id) := by
  unfold ConstraintTable.modify
  rw [List.mem_map]
  constructor
  · rintro ⟨a, ha, rfl⟩
    by_cases hid : a.id = c.id
    · simp [hid]
    · simp [hid, ha]
  · rintro (rfl | ⟨hd, hid⟩)
    · exact ⟨c, hc, by simp⟩
    · exact ⟨d, hd, by simp [hid]⟩

theorem ids_modify {t : ConstraintTable} {c c' : Constraint} (h : c'.id = c.id) :
    (t.modify c.id fun _ => c').constraints.map (·.id) = t.constraints.map (·.id) := by
  unfold ConstraintTable.modify
  rw [List.map_map]
  refine List.map_congr_left fun d _ => ?_
  by_cases hid : d.id = c.id
  · simp [hid, h]
  · simp [hid]

theorem Redirecting.indexed_modify {old new : ElementId} {rest : List ConstraintId}
    {t : ConstraintTable} {c : Constraint} (h : Redirecting old rest t) (hc : c ∈ t.constraints)
    (hold : old ∈ c.ends) (hnew : new ∉ c.ends) (hne : new ≠ old) {e : ElementId}
    (he : e ≠ old) :
    ((t.modify c.id fun _ => c.redirect old new).addToIndex c.id new).Indexed e := by
  have hi := h.indexed e he
  have hon : ((t.modify c.id fun _ => c.redirect old new).addToIndex c.id new).on e =
      if e = new then t.on new ++ [c.id] else t.on e := on_addToIndex _ _ _ _
  have hcons : ((t.modify c.id fun _ => c.redirect old new).addToIndex c.id new).constraints =
      (t.modify c.id fun _ => c.redirect old new).constraints := rfl
  have hfresh : c.id ∉ t.on new := by
    intro hm
    obtain ⟨d, hd, hid, hde⟩ := ((h.indexed new hne).mem_on _).mp hm
    exact hnew (h.eq_of_id_eq hc hd hid ▸ hde)
  refine ⟨?_, fun id => ?_⟩
  · rw [hon]
    split
    · refine List.nodup_append.mpr ⟨(h.indexed new hne).nodup, by simp, ?_⟩
      rintro a ha b hb rfl
      exact hfresh (List.mem_singleton.mp hb ▸ ha)
    · exact hi.nodup
  · have hleft : id ∈ ((t.modify c.id fun _ => c.redirect old new).addToIndex c.id new).on e ↔
        id ∈ t.on e ∨ (id = c.id ∧ e = new) := by
      rw [hon]
      split
      · simp_all
      · simp_all
    rw [hleft, hi.mem_on, hcons]
    constructor
    · rintro (⟨d, hd, hid, hde⟩ | ⟨rfl, rfl⟩)
      · by_cases hdc : d.id = c.id
        · obtain rfl := h.eq_of_id_eq hc hd hdc
          exact ⟨d.redirect old new, (mem_constraints_modify hc).mpr (Or.inl rfl), hid,
            Constraint.mem_ends_redirect.mpr (Or.inr ⟨he, hde⟩)⟩
        · exact ⟨d, (mem_constraints_modify hc).mpr (Or.inr ⟨hd, hdc⟩), hid, hde⟩
      · exact ⟨c.redirect old e, (mem_constraints_modify hc).mpr (Or.inl rfl), rfl,
          Constraint.mem_ends_redirect.mpr (Or.inl ⟨rfl, hold⟩)⟩
    · rintro ⟨d, hd, hid, hde⟩
      rcases (mem_constraints_modify hc).mp hd with rfl | ⟨hd, _⟩
      · rcases Constraint.mem_ends_redirect.mp hde with ⟨hen, _⟩ | ⟨_, hce⟩
        · exact Or.inr ⟨hid.symm, hen⟩
        · exact Or.inl ⟨c, hc, hid, hce⟩
      · exact Or.inl ⟨d, hd, hid, hde⟩

theorem Redirecting.modify {old new : ElementId} {rest : List ConstraintId} {t : ConstraintTable}
    {c : Constraint} (h : Redirecting old (c.id :: rest) t) (hc : c ∈ t.constraints)
    (hne : new ≠ old) (heq : (c.redirect old new).first ≠ (c.redirect old new).second) :
    Redirecting old rest ((t.modify c.id fun _ => c.redirect old new).addToIndex c.id new) := by
  have hold : old ∈ c.ends := (h.rest c hc).mpr List.mem_cons_self
  have hnew := Constraint.not_mem_ends_of_redirect_ne hold hne heq
  have hid : (c.redirect old new).id = c.id := rfl
  obtain ⟨hnot, hrest⟩ := List.nodup_cons.mp h.nodup
  refine ⟨?_, hrest, ?_, ?_, ?_, fun e he => h.indexed_modify hc hold hnew hne he⟩
  · exact (ids_modify hid).symm ▸ h.nodup_ids
  · intro d hd
    rcases (mem_constraints_modify hc).mp hd with rfl | ⟨hd, _⟩
    · exact heq
    · exact h.proper d hd
  · intro d hd
    rcases (mem_constraints_modify hc).mp hd with rfl | ⟨hd, hdc⟩
    · rw [Constraint.mem_ends_redirect, hid]
      simp [hne.symm, hnot]
    · rw [h.rest d hd, List.mem_cons, or_iff_right hdc]
  · rw [on_addToIndex, if_neg hne.symm]
    exact h.on_old

theorem Redirecting.redirectOne {old new : ElementId} {id : ConstraintId}
    {rest : List ConstraintId} {t : ConstraintTable} (h : Redirecting old (id :: rest) t)
    (hne : new ≠ old) : Redirecting old rest (redirectOne old new t id) := by
  unfold ConstraintTable.redirectOne
  split
  · rename_i hnone
    exact h.skip fun hid => by simpa [hnone] using get?_isSome_iff.mpr hid
  · rename_i c hget
    obtain ⟨hc, rfl⟩ := mem_of_get? hget
    dsimp only
    split
    · rename_i heq
      exact h.erase hc hne heq
    · rename_i heq
      exact h.modify hc hne heq

theorem Redirecting.foldl {old new : ElementId} (hne : new ≠ old) {rest : List ConstraintId}
    {t : ConstraintTable} (h : Redirecting old rest t) :
    Redirecting old [] (rest.foldl (ConstraintTable.redirectOne old new) t) := by
  induction rest generalizing t with
  | nil => exact h
  | cons id rest ih => exact ih (h.redirectOne hne)

theorem redirecting_start {t : ConstraintTable} (hn : Numbered t.numbers t.next)
    (hi : ∀ e, t.Indexed e) (hp : ∀ c ∈ t.constraints, c.first ≠ c.second) (old : ElementId) :
    Redirecting old (t.on old) { t with index := t.index.filter (·.1 ≠ old) } where
  nodup_ids := nodup_ids hn
  nodup := (hi old).nodup
  proper := hp
  rest := by
    intro c hc
    rw [(hi old).mem_on]
    constructor
    · intro ho
      exact ⟨c, hc, rfl, ho⟩
    · rintro ⟨d, hd, hid, hde⟩
      exact List.inj_on_of_nodup_map (nodup_ids hn) hd hc hid ▸ hde
  on_old := by
    unfold on
    rw [lookup_filter_ne, if_pos rfl]
    rfl
  indexed := by
    intro e he
    have hon : on { t with index := t.index.filter (·.1 ≠ old) } e = t.on e := by
      unfold on
      rw [lookup_filter_ne, if_neg he]
    exact ⟨hon ▸ (hi e).nodup, fun id => hon ▸ (hi e).mem_on id⟩

theorem indexed_redirect {t : ConstraintTable} (hn : Numbered t.numbers t.next)
    (hi : ∀ e, t.Indexed e) (hp : ∀ c ∈ t.constraints, c.first ≠ c.second)
    {old new : ElementId} (hne : new ≠ old) (e : ElementId) : (t.redirect old new).Indexed e := by
  have h := (redirecting_start hn hi hp old).foldl hne
  by_cases he : e = old
  · subst e
    refine ⟨by rw [redirect, h.on_old]; exact List.nodup_nil, fun id => ?_⟩
    rw [redirect, h.on_old]
    constructor
    · intro hm
      simp at hm
    · rintro ⟨c, hc, _, hce⟩
      simpa using (h.rest c hc).mp hce
  · exact h.indexed e he

end ConstraintTable

end RigidSketch
