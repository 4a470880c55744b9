import Mathlib.Data.List.Forall2
import Mathlib.Logic.Relation
import RigidSketch.Proofs.Atomicity

/-! Points that become one. A constraint follows the points that its ends become part of, and is
dropped once both have become the same. -/

namespace RigidSketch

open LeastSquares (LinearSolver solveLinear)

namespace Constraint

/-- The ends are the two elements, in one order or the other. -/
def IsBetween (c : Constraint) (a b : ElementId) : Prop :=
  c.first = a ∧ c.second = b ∨ c.first = b ∧ c.second = a

instance (c : Constraint) (a b : ElementId) : Decidable (c.IsBetween a b) :=
  inferInstanceAs (Decidable (_ ∨ _))

def moveEnds (f : ElementId → ElementId) (c : Constraint) : Constraint :=
  { c with first := f c.first, second := f c.second }

theorem redirect_ends_ne_iff {c : Constraint} (hc : c.first ≠ c.second) {keep remove : ElementId} :
    (c.redirect remove keep).first ≠ (c.redirect remove keep).second ↔
      ¬ c.IsBetween keep remove := by
  unfold redirect IsBetween
  grind

end Constraint

/-- The point that an element has become part of, after a sequence of kept and removed points. -/
def survivor (pairs : List (ElementId × ElementId)) (e : ElementId) : ElementId :=
  pairs.foldl (fun e p => if e = p.2 then p.1 else e) e

theorem survivor_cons (p : ElementId × ElementId) (pairs : List (ElementId × ElementId))
    (e : ElementId) : survivor (p :: pairs) e = survivor pairs (if e = p.2 then p.1 else e) := rfl

theorem survivor_cons_self (e : ElementId) (pairs : List (ElementId × ElementId)) :
    survivor ((e, e) :: pairs) = survivor pairs := by
  funext d
  rw [survivor_cons]
  split
  · rename_i h
    rw [h]
  · rfl

theorem Constraint.moveEnds_survivor_cons (c : Constraint) (keep remove : ElementId)
    (pairs : List (ElementId × ElementId)) :
    c.moveEnds (survivor ((keep, remove) :: pairs)) =
      (c.redirect remove keep).moveEnds (survivor pairs) := rfl

/-- A class of a sequence that starts with a pair is what the rest makes of the point that is
kept, if no other pair is of the one that is removed. -/
theorem eqvGen_cons_iff {keep remove : ElementId} {pairs : List (ElementId × ElementId)}
    (h : keep = remove ∨ ∀ p ∈ pairs, p.1 = p.2 ∨ p.1 ≠ remove ∧ p.2 ≠ remove) (a b : ElementId) :
    Relation.EqvGen (fun x y => (x, y) ∈ pairs) (if a = remove then keep else a)
        (if b = remove then keep else b) ↔
      Relation.EqvGen (fun x y => (x, y) ∈ (keep, remove) :: pairs) a b := by
  have hkept : ∀ x, Relation.EqvGen (fun x y => (x, y) ∈ (keep, remove) :: pairs) x
      (if x = remove then keep else x) := by
    intro x
    split
    · rename_i hx
      subst hx
      exact .symm _ _ (.rel _ _ List.mem_cons_self)
    · exact .refl x
  constructor
  · intro hrest
    have hmono := hrest.mono fun x y hxy => List.mem_cons_of_mem (keep, remove) hxy
    exact .trans _ _ _ (hkept a) (.trans _ _ _ hmono (.symm _ _ (hkept b)))
  · intro hall
    induction hall with
    | refl x => exact .refl _
    | symm x y _ ih => exact .symm _ _ ih
    | trans x y z _ _ first second => exact .trans _ _ _ first second
    | rel x y hxy =>
      rcases List.mem_cons.mp hxy with hpair | hrest
      · cases hpair
        simpa using Relation.EqvGen.refl keep
      · rcases h with rfl | h
        · have hself : ∀ z, (if z = keep then keep else z) = z := fun z => by grind
          rw [hself, hself]
          exact .rel _ _ hrest
        · rcases h _ hrest with heq | ⟨hx, hy⟩
          · obtain rfl : x = y := heq
            exact .refl _
          · rw [if_neg hx, if_neg hy]
            exact .rel _ _ hrest

def Call.combinations (pairs : List (ElementId × ElementId)) : List Call :=
  pairs.map fun p => .combine p.1 p.2

namespace Sketch

def HasElement (s : Sketch) (id : ElementId) : Prop := ∃ e ∈ s.elements.elements, e.id = id

/-- What combining two different points makes of a sketch. -/
structure Combined (s t : Sketch) (keep remove : ElementId) (kept removed : Element) : Prop where
  elements : t.elements.elements =
    (s.elements.elements.filter (·.id ≠ remove)).map (heir keep kept removed)
  constraints : t.constraints.constraints =
    (s.constraints.constraints.filter fun c => ¬ c.IsBetween keep remove).map
      (·.redirect remove keep)
  indexed : ∀ e, t.constraints.Indexed e
  next : t.elements.next = s.elements.next ∧ t.constraints.next = s.constraints.next
  rest : t = { s with elements := t.elements, constraints := t.constraints, edited := true }

theorem combined_of_combine {s t : Sketch} (hg : Grounded s) {keep remove : ElementId}
    (hne : keep ≠ remove) (h : s.combine keep remove = .ok t) :
    ∃ kept removed, s.elements.get? keep = some kept ∧ s.elements.get? remove = some removed ∧
      Combined s t keep remove kept removed := by
  have hindexed := (hg.combine h).indexed
  rcases combine_eq_ok h with ⟨heq, _⟩ | ⟨_, kept, removed, hkept, ⟨hremoved, _⟩, rfl⟩
  · exact absurd heq hne
  refine ⟨kept, removed, hkept, hremoved, ?_, ?_, hindexed, ⟨rfl, next_redirect _ _ _⟩, rfl⟩
  · show (s.elements.elements.map _).filter _ = _
    rw [List.filter_map]
    refine congrArg _ (List.filter_congr fun e _ => ?_)
    simp [id_heir]
  · show (s.constraints.redirect remove keep).constraints = _
    rw [ConstraintTable.constraints_redirect keep hg.constraints (hg.indexed remove) hg.proper,
      List.filter_map]
    refine congrArg _ (List.filter_congr fun c hc => ?_)
    exact decide_eq_decide.mpr (Constraint.redirect_ends_ne_iff (hg.proper c hc))

theorem Combined.hasElement_iff {s t : Sketch} {keep remove : ElementId} {kept removed : Element}
    (h : Combined s t keep remove kept removed) {id : ElementId} :
    t.HasElement id ↔ s.HasElement id ∧ id ≠ remove := by
  unfold HasElement
  rw [h.elements]
  constructor
  · rintro ⟨_, hmap, rfl⟩
    obtain ⟨e, hfilter, rfl⟩ := List.mem_map.mp hmap
    obtain ⟨he, hne⟩ := List.mem_filter.mp hfilter
    rw [id_heir]
    exact ⟨⟨e, he, rfl⟩, by simpa using hne⟩
  · rintro ⟨⟨e, he, rfl⟩, hne⟩
    exact ⟨_, List.mem_map_of_mem (List.mem_filter.mpr ⟨he, by simpa using hne⟩), id_heir ..⟩

/-- The combinations of a sequence that are not refused, each in the sketch that those before it
have left. -/
def accepted : List (ElementId × ElementId) → Sketch → List (ElementId × ElementId)
  | [], _ => []
  | p :: pairs, s =>
    match s.combine p.1 p.2 with
    | .ok t => p :: accepted pairs t
    | .error _ => accepted pairs s

/-- A sketch comes of another by combining pairs of points in turn. -/
inductive Combines : List (ElementId × ElementId) → Sketch → Sketch → Prop
  | nil (s : Sketch) : Combines [] s s
  | same {pairs : List (ElementId × ElementId)} {s u : Sketch} (e : ElementId)
      (h : Combines pairs s u) : Combines ((e, e) :: pairs) s u
  | cons {pairs : List (ElementId × ElementId)} {s t u : Sketch} {keep remove : ElementId}
      (hne : keep ≠ remove) (ht : s.combine keep remove = .ok t) (h : Combines pairs t u) :
      Combines ((keep, remove) :: pairs) s u

theorem combines_runAll (solver : LinearSolver) (pairs : List (ElementId × ElementId))
    (s : Sketch) :
    Combines (accepted pairs s) s (Call.runAll solver (Call.combinations pairs) s) := by
  induction pairs generalizing s with
  | nil => exact .nil s
  | cons p pairs ih =>
    have hrun : Call.runAll solver (Call.combinations (p :: pairs)) s =
        Call.runAll solver (Call.combinations pairs) ((s.combine p.1 p.2).toOption.getD s) := rfl
    rw [hrun]
    unfold accepted
    cases hc : s.combine p.1 p.2 with
    | error e => exact ih s
    | ok t =>
      obtain ⟨keep, remove⟩ := p
      by_cases hne : keep = remove
      · subst hne
        rcases combine_eq_ok hc with ⟨_, rfl⟩ | ⟨hne, _⟩
        · exact .same keep (ih t)
        · exact absurd rfl hne
      · exact .cons hne hc (ih t)

namespace Combines

variable {pairs : List (ElementId × ElementId)} {s u : Sketch}

theorem grounded (h : Combines pairs s u) (hg : Grounded s) : Grounded u := by
  induction h with
  | nil s => exact hg
  | same e _ ih => exact ih hg
  | cons _ ht _ ih => exact ih (hg.combine ht)

theorem hasElement (h : Combines pairs s u) (hg : Grounded s) {id : ElementId}
    (hid : u.HasElement id) : s.HasElement id := by
  induction h with
  | nil s => exact hid
  | same e _ ih => exact ih hg hid
  | cons hne ht _ ih =>
    obtain ⟨_, _, _, _, hc⟩ := combined_of_combine hg hne ht
    exact (hc.hasElement_iff.mp (ih (hg.combine ht) hid)).1

theorem hasElement_survivor (h : Combines pairs s u) (hg : Grounded s) {id : ElementId}
    (hid : s.HasElement id) : u.HasElement (survivor pairs id) := by
  induction h generalizing id with
  | nil s => exact hid
  | same e _ ih =>
    rw [survivor_cons_self]
    exact ih hg hid
  | cons hne ht _ ih =>
    obtain ⟨kept, removed, hkept, _, hc⟩ := combined_of_combine hg hne ht
    refine ih (hg.combine ht) (hc.hasElement_iff.mpr ?_)
    dsimp only
    split
    · exact ⟨⟨kept, ElementTable.mem_of_get? hkept⟩, hne⟩
    · rename_i hid'
      exact ⟨hid, hid'⟩

theorem of_mem (h : Combines pairs s u) (hg : Grounded s) {p : ElementId × ElementId}
    (hp : p ∈ pairs) : p.1 = p.2 ∨ s.HasElement p.1 ∧ s.HasElement p.2 := by
  induction h with
  | nil s => cases hp
  | same e _ ih =>
    rcases List.mem_cons.mp hp with rfl | hp
    · exact Or.inl rfl
    · exact ih hg hp
  | cons hne ht _ ih =>
    obtain ⟨kept, removed, hkept, hremoved, hc⟩ := combined_of_combine hg hne ht
    rcases List.mem_cons.mp hp with rfl | hp
    · exact Or.inr ⟨⟨kept, ElementTable.mem_of_get? hkept⟩,
        ⟨removed, ElementTable.mem_of_get? hremoved⟩⟩
    · exact (ih (hg.combine ht) hp).imp_right fun h =>
        ⟨(hc.hasElement_iff.mp h.1).1, (hc.hasElement_iff.mp h.2).1⟩

/-- Two elements become part of the same point just if the pairs lead from one to the other. -/
theorem survivor_eq_iff (h : Combines pairs s u) (hg : Grounded s) (a b : ElementId) :
    survivor pairs a = survivor pairs b ↔
      Relation.EqvGen (fun x y => (x, y) ∈ pairs) a b := by
  induction h generalizing a b with
  | nil s =>
    constructor
    · intro hab
      obtain rfl : a = b := hab
      exact .refl a
    · intro hab
      induction hab with
      | rel x y hxy => cases hxy
      | refl x => rfl
      | symm x y _ ih => exact ih.symm
      | trans x y z _ _ first second => exact first.trans second
  | same e _ ih => rw [← eqvGen_cons_iff (Or.inl rfl), survivor_cons, survivor_cons, ih hg]
  | cons hne ht hrest ih =>
    obtain ⟨_, _, _, _, hc⟩ := combined_of_combine hg hne ht
    rw [← eqvGen_cons_iff (Or.inr fun p hp => ?_), survivor_cons, survivor_cons,
      ih (hg.combine ht)]
    exact (hrest.of_mem (hg.combine ht) hp).imp_right fun h =>
      ⟨(hc.hasElement_iff.mp h.1).2, (hc.hasElement_iff.mp h.2).2⟩

theorem constraints (h : Combines pairs s u) (hg : Grounded s) :
    u.constraints.constraints = (s.constraints.constraints.map (·.moveEnds (survivor pairs))).filter
      fun c => c.first ≠ c.second := by
  induction h with
  | nil s =>
    have hall : s.constraints.constraints.map (·.moveEnds (survivor [])) =
        s.constraints.constraints := List.map_id _
    rw [hall]
    exact (List.filter_eq_self.mpr fun c hc => by simpa using hg.proper c hc).symm
  | same e _ ih =>
    rw [survivor_cons_self]
    exact ih hg
  | @cons pairs s t u keep remove hne ht _ ih =>
    obtain ⟨_, _, _, _, hc⟩ := combined_of_combine hg hne ht
    rw [ih (hg.combine ht), hc.constraints, List.map_map, List.filter_map, List.filter_map,
      List.filter_filter]
    refine congrArg _ (List.filter_congr fun c hc => ?_)
    -- what the first pair drops has two equal ends, and these stay equal
    have hdrop : (c.moveEnds (survivor ((keep, remove) :: pairs))).first ≠
        (c.moveEnds (survivor ((keep, remove) :: pairs))).second → ¬ c.IsBetween keep remove := by
      rw [← Constraint.redirect_ends_ne_iff (hg.proper c hc), Constraint.moveEnds_survivor_cons]
      exact fun hends heq => hends (congrArg (survivor pairs) heq)
    simp only [Function.comp_apply, ← Constraint.moveEnds_survivor_cons]
    grind

end Combines

theorem heir_cases (keep : ElementId) (kept removed e : Element) :
    heir keep kept removed e = e ∨
      removed.fixed = true ∧ kept.fixed = false ∧ e.id = keep ∧
        heir keep kept removed e = { e with shape := removed.shape, fixed := true } := by
  unfold heir
  split
  · rename_i h
    obtain ⟨hfixed, hid⟩ := h
    rw [Bool.and_eq_true, Bool.not_eq_true'] at hfixed
    exact Or.inr ⟨hfixed.1, hfixed.2, hid, rfl⟩
  · exact Or.inl rfl

theorem fixed_heir {keep : ElementId} {kept removed e : Element} (h : e.fixed = true) :
    (heir keep kept removed e).fixed = true := by
  rcases heir_cases keep kept removed e with heq | ⟨_, _, _, heq⟩
  · rw [heq, h]
  · rw [heq]

theorem fixed_heir_kept {keep : ElementId} {kept removed : Element} (hid : kept.id = keep)
    (h : removed.fixed = true) : (heir keep kept removed kept).fixed = true := by
  cases hk : kept.fixed with
  | true => exact fixed_heir hk
  | false => simp [heir, hid, h, hk]

/-- What becomes of an element: it is as it was, or it was not fixed and now is, in the place of
a fixed one that has become part of it. -/
def Inherits (s : Sketch) (pairs : List (ElementId × ElementId)) (e e' : Element) : Prop :=
  e' = e ∧ (e.fixed = true ∨
      ∀ d ∈ s.elements.elements, survivor pairs d.id = e.id → d.fixed = false) ∨
    e.fixed = false ∧ ∃ d ∈ s.elements.elements, survivor pairs d.id = e.id ∧ d.fixed = true ∧
      e' = { e with shape := d.shape, fixed := true }

theorem Inherits.of_heir {s t : Sketch} (hg : Grounded s) {keep remove : ElementId}
    {kept removed : Element} (hne : keep ≠ remove) (hkept : s.elements.get? keep = some kept)
    (hremoved : s.elements.get? remove = some removed)
    (hc : Combined s t keep remove kept removed) {pairs : List (ElementId × ElementId)}
    {e e' : Element} (he : e ∈ s.elements.elements) (hself : survivor pairs e.id = e.id)
    (h : t.Inherits pairs (heir keep kept removed e) e') :
    s.Inherits ((keep, remove) :: pairs) e e' := by
  obtain ⟨hkeptin, hkeptid⟩ := ElementTable.mem_of_get? hkept
  obtain ⟨hremovedin, hremovedid⟩ := ElementTable.mem_of_get? hremoved
  have hmem : ∀ d ∈ s.elements.elements, d.id ≠ remove →
      heir keep kept removed d ∈ t.elements.elements := by
    intro d hd hdne
    rw [hc.elements]
    exact List.mem_map_of_mem (List.mem_filter.mpr ⟨hd, by simpa using hdne⟩)
  have hremovedto : survivor ((keep, remove) :: pairs) removed.id = survivor pairs keep := by
    rw [survivor_cons, if_pos hremovedid]
  have hstay : ∀ d : Element, d.id ≠ remove →
      survivor ((keep, remove) :: pairs) d.id = survivor pairs d.id := by
    intro d hdne
    rw [survivor_cons, if_neg hdne]
  rcases heir_cases keep kept removed e with heq | ⟨hfixed, hloose, hid, heq⟩
  · rw [heq] at h
    rcases h with ⟨rfl, hfixed | hloose⟩ | ⟨hloose, d', hd', hto, hdfixed, rfl⟩
    · exact Or.inl ⟨rfl, Or.inl hfixed⟩
    · refine Or.inl ⟨rfl, Or.inr fun d hd hto => Bool.eq_false_iff.mpr fun hdfixed => ?_⟩
      by_cases hdid : d.id = remove
      · obtain rfl := hg.element_ext hremovedin hd (hdid.trans hremovedid.symm)
        have hnow := hloose _ (hmem kept hkeptin (hkeptid ▸ hne))
          (by rw [id_heir, hkeptid, ← hremovedto, hto])
        rw [fixed_heir_kept hkeptid hdfixed] at hnow
        cases hnow
      · have hnow := hloose _ (hmem d hd hdid) (by rw [id_heir, ← hstay d hdid, hto])
        rw [fixed_heir hdfixed] at hnow
        cases hnow
    · rw [hc.elements] at hd'
      obtain ⟨d, hfilter, rfl⟩ := List.mem_map.mp hd'
      obtain ⟨hd, hdid⟩ := List.mem_filter.mp hfilter
      rw [id_heir] at hto
      refine Or.inr ⟨hloose, ?_⟩
      rcases heir_cases keep kept removed d with hsame | ⟨hrfixed, _, hdkeep, hchanged⟩
      · rw [hsame] at hdfixed ⊢
        exact ⟨d, hd, by rw [hstay d (by simpa using hdid), hto], hdfixed, rfl⟩
      · rw [hchanged]
        exact ⟨removed, hremovedin, by rw [hremovedto, ← hdkeep, hto], hrfixed, rfl⟩
  · obtain rfl := hg.element_ext hkeptin he (hid.trans hkeptid.symm)
    rw [heq] at h
    rcases h with ⟨rfl, _⟩ | ⟨hnot, _⟩
    · exact Or.inr ⟨hloose, removed, hremovedin, by rw [hremovedto, ← hid, hself], hfixed, rfl⟩
    · cases hnot

theorem Combines.elements {pairs : List (ElementId × ElementId)} {s u : Sketch}
    (h : Combines pairs s u) (hg : Grounded s) :
    List.Forall₂ (s.Inherits pairs)
      (s.elements.elements.filter fun e => survivor pairs e.id = e.id) u.elements.elements := by
  induction h with
  | nil s =>
    have hall : (s.elements.elements.filter fun e => survivor [] e.id = e.id) =
        s.elements.elements := List.filter_eq_self.mpr fun e _ => by simp [survivor]
    rw [hall, List.forall₂_same]
    intro e he
    refine Or.inl ⟨rfl, ?_⟩
    cases hf : e.fixed with
    | true => exact Or.inl rfl
    | false =>
      refine Or.inr fun d hd hid => ?_
      rw [hg.element_ext he hd hid, hf]
  | same e _ ih =>
    unfold Inherits
    rw [survivor_cons_self]
    exact ih hg
  | @cons pairs s t u keep remove hne ht hrest ih =>
    obtain ⟨kept, removed, hkept, hremoved, hc⟩ := combined_of_combine hg hne ht
    have hlist : (s.elements.elements.filter fun e =>
        survivor ((keep, remove) :: pairs) e.id = e.id) =
        (s.elements.elements.filter (·.id ≠ remove)).filter
          fun e => survivor pairs e.id = e.id := by
      rw [List.filter_filter]
      refine List.filter_congr fun e _ => ?_
      by_cases hid : e.id = remove
      · -- the kept point outlives the removed one
        have hkeep := hrest.hasElement_survivor (hg.combine ht)
          (hc.hasElement_iff.mpr ⟨⟨kept, ElementTable.mem_of_get? hkept⟩, hne⟩)
        have hgone := (hc.hasElement_iff.mp (hrest.hasElement (hg.combine ht) hkeep)).2
        simp [survivor_cons, hid, hgone]
      · simp [survivor_cons, hid]
    have hforall := ih (hg.combine ht)
    rw [hc.elements, List.filter_map, List.forall₂_map_left_iff] at hforall
    have hself : ((fun e => decide (survivor pairs e.id = e.id)) ∘ heir keep kept removed) =
        fun e => decide (survivor pairs e.id = e.id) := by
      funext e
      simp [id_heir]
    rw [hself] at hforall
    rw [hlist]
    refine List.Forall₂.imp (fun e e' he => ?_)
      ((List.forall₂_and_left _ _).mpr ⟨fun e he => he, hforall⟩)
    obtain ⟨hin, hinherits⟩ := he
    obtain ⟨hfilter, hsurvives⟩ := List.mem_filter.mp hin
    exact hinherits.of_heir hg hne hkept hremoved hc (List.mem_filter.mp hfilter).1
      (by simpa using hsurvives)

/-- What a sequence of combinations makes of a sketch, where the pairs are those that were
combined. -/
structure Fused (s t : Sketch) (pairs : List (ElementId × ElementId)) : Prop where
  classes : ∀ a b, survivor pairs a = survivor pairs b ↔
    Relation.EqvGen (fun x y => (x, y) ∈ pairs) a b
  elements : List.Forall₂ (s.Inherits pairs)
    (s.elements.elements.filter fun e => survivor pairs e.id = e.id) t.elements.elements
  constraints : t.constraints.constraints =
    (s.constraints.constraints.filter fun c => survivor pairs c.first ≠ survivor pairs c.second).map
      (·.moveEnds (survivor pairs))
  indexed : ∀ e, t.constraints.Indexed e

theorem Combines.fused {pairs : List (ElementId × ElementId)} {s u : Sketch}
    (h : Combines pairs s u) (hg : Grounded s) : s.Fused u pairs := by
  refine ⟨h.survivor_eq_iff hg, h.elements hg, ?_, (h.grounded hg).indexed⟩
  rw [h.constraints hg, List.filter_map]
  rfl

/-- Two different points that are not fixed apart are combined into the first, and nothing else
changes than that the constraints follow. Any sequence of combinations leaves the constraints
whose ends are in different classes of combined points. -/
theorem Reachable.fused_of_combinations {s : Sketch} (hs : Reachable s) (solver : LinearSolver) :
    (∀ keep remove kept removed p q, keep ≠ remove → s.elements.get? keep = some kept →
      s.elements.get? remove = some removed → kept.shape = .point p → removed.shape = .point q →
      ¬ s.Apart kept removed p q →
      ((Call.combine keep remove).perform solver s).1 = .ok (.element keep) ∧
        s.Combined ((Call.combine keep remove).perform solver s).2 keep remove kept removed) ∧
    ∀ pairs, s.Fused (Call.runAll solver (Call.combinations pairs) s) (accepted pairs s) := by
  have hg := hs.sound.grounded
  refine ⟨fun keep remove kept removed p q hne hkept hremoved hp hq happart => ?_,
    fun pairs => (combines_runAll solver pairs s).fused hg⟩
  have hcombine := combine_of_not_apart hne (by rw [getElement, hkept])
    (by rw [getElement, hremoved]) hp hq happart
  obtain ⟨kept', removed', hkept', hremoved', hc⟩ := combined_of_combine hg hne hcombine
  cases hkept.symm.trans hkept'
  cases hremoved.symm.trans hremoved'
  rw [Call.perform_eq, Call.reply, Call.run, hcombine]
  exact ⟨rfl, hc⟩

end Sketch

/-- Two struts between the same two points, one each way round, and two that lead away. -/
def Call.braid : List Call :=
  [addPoint false 0 0, addPoint true 1 0, addPoint false 4 0, addPoint true 9 0,
    constrain .distance ⟨0⟩ ⟨1⟩ 2, constrain .distance ⟨1⟩ ⟨0⟩ 3, constrain .distance ⟨2⟩ ⟨1⟩ 4,
    constrain .distance ⟨2⟩ ⟨3⟩ 5]

namespace Sketch

/-- The struts go when their ends become one point, which stays where the fixed end was. The two
fixed points are too far apart to become one. -/
theorem fused_of_combinations_braid :
    ((Call.combine ⟨0⟩ ⟨1⟩).perform solveLinear (Call.runAll solveLinear Call.braid {})).1 =
      .ok (.element ⟨0⟩) ∧
    accepted [(⟨0⟩, ⟨1⟩), (⟨0⟩, ⟨3⟩), (⟨2⟩, ⟨0⟩)] (Call.runAll solveLinear Call.braid {}) =
      [(⟨0⟩, ⟨1⟩), (⟨2⟩, ⟨0⟩)] ∧
    (Call.runAll solveLinear (Call.combinations [(⟨0⟩, ⟨1⟩), (⟨0⟩, ⟨3⟩), (⟨2⟩, ⟨0⟩)])
        (Call.runAll solveLinear Call.braid {})).constraints.constraints =
      [⟨⟨3⟩, .distance, ⟨2⟩, ⟨3⟩, 5, false⟩] := by
  have hs := (Reachable.new {}).runAll solveLinear Call.braid
  obtain ⟨hone, hmany⟩ := Reachable.fused_of_combinations hs solveLinear
  have haccepted : accepted [(⟨0⟩, ⟨1⟩), (⟨0⟩, ⟨3⟩), (⟨2⟩, ⟨0⟩)]
      (Call.runAll solveLinear Call.braid {}) =
      [(⟨0⟩, ⟨1⟩), (⟨2⟩, ⟨0⟩)] := by
    decide +kernel
  have hkept : (Call.runAll solveLinear Call.braid {}).elements.get? ⟨0⟩ =
      some { id := ⟨0⟩, shape := .point ⟨0, 0⟩, fixed := false } := by
    decide +kernel
  have hremoved : (Call.runAll solveLinear Call.braid {}).elements.get? ⟨1⟩ =
      some { id := ⟨1⟩, shape := .point ⟨1, 0⟩, fixed := true } := by
    decide +kernel
  refine ⟨(hone ⟨0⟩ ⟨1⟩ _ _ ⟨0, 0⟩ ⟨1, 0⟩ (by decide) hkept hremoved rfl rfl ?_).1, haccepted, ?_⟩
  · simp [Apart]
  · rw [(hmany _).constraints, haccepted]
    decide +kernel

end Sketch

end RigidSketch
