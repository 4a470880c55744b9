import RigidSketch.Proofs.Kinds

/-! The constraints of a sketch make sense: each is between two elements that it can relate, its
value is one that it can ask for, and the index leads to it from these elements alone. -/

namespace RigidSketch

open LeastSquares (LinearSolver solveLinear)

namespace ElementTable

theorem kind?_insert {t : ElementTable} {id : ElementId} {kind : ShapeKind}
    (h : t.kind? id = some kind) (shape : Shape Float) (fixed : Bool) :
    (t.insert shape fixed).1.kind? id = some kind := by
  obtain ⟨e, he, hk⟩ := Option.map_eq_some_iff.mp h
  unfold ElementTable.kind? get? insert at *
  rw [List.find?_append, he]
  simpa using hk

theorem exists_of_kind? {t : ElementTable} {id : ElementId} {kind : ShapeKind}
    (h : t.kind? id = some kind) : ∃ e ∈ t.elements, e.id = id ∧ e.shape.kind = kind := by
  obtain ⟨e, he, hk⟩ := Option.map_eq_some_iff.mp h
  obtain ⟨hm, hid⟩ := mem_of_get? he
  exact ⟨e, hm, hid, hk⟩

end ElementTable

/-- The constraint is one that its two ends can meet. -/
structure Constraint.Fits (c : Constraint) (t : ElementTable) : Prop where
  kinds : ∃ g h, t.kind? c.first = some g ∧ t.kind? c.second = some h ∧
    c.kind.accepts g h = true
  value : c.kind.allows c.value = true

theorem Constraint.Fits.mono {c d : Constraint} {t t' : ElementTable} (h : c.Fits t)
    (hkind : d.kind = c.kind) (hvalue : d.value = c.value)
    (hfirst : ∀ g, t.kind? c.first = some g → t'.kind? d.first = some g)
    (hsecond : ∀ g, t.kind? c.second = some g → t'.kind? d.second = some g) : d.Fits t' := by
  obtain ⟨⟨g, g', hg, hg', haccepts⟩, hallows⟩ := h
  refine ⟨⟨g, g', hfirst g hg, hsecond g' hg', ?_⟩, ?_⟩
  · rw [hkind]
    exact haccepts
  · rw [hkind, hvalue]
    exact hallows

namespace Sketch

structure Posed (s : Sketch) : Prop where
  uniform : s.elements.Uniform
  fits : ∀ c ∈ s.constraints.constraints, c.Fits s.elements

theorem Posed.congr {s t : Sketch} (h : Posed s) (he : s.elements.Akin t.elements)
    (hc : t.constraints.unsolved = s.constraints.unsolved) : Posed t := by
  refine ⟨he.uniform, fun c hm => ?_⟩
  obtain ⟨d, hd, hsame⟩ := ConstraintTable.mem_of_unsolved hc.symm hm
  refine (h.fits d hd).mono hsame.kind.symm hsame.value.symm (fun g hg => ?_) (fun g hg => ?_)
  · rw [he.kind?, ← hsame.first, hg]
  · rw [he.kind?, ← hsame.second, hg]

theorem Posed.addShape {s : Sketch} (h : Posed s) (shape : Shape Float) (fixed : Bool) :
    Posed (s.addShape shape fixed).1 := by
  refine ⟨fun e he => ?_, fun c hc => ?_⟩
  · rcases List.mem_append.mp he with he | he
    · exact h.uniform e he
    · rw [List.mem_singleton.mp he]
      exact nofun
  · exact (h.fits c hc).mono rfl rfl (fun _ hg => ElementTable.kind?_insert hg shape fixed)
      (fun _ hg => ElementTable.kind?_insert hg shape fixed)

theorem Posed.constrain {s t : Sketch} {kind : RelationKind} {first second : ElementId}
    {value : Float} {id : ConstraintId} (h : Posed s)
    (ht : s.constrain kind first second value = .ok (t, id)) : Posed t := by
  obtain ⟨_, ⟨a, b, ha, hb, haccepts, hallows⟩, rfl⟩ := constrain_eq_ok ht
  refine ⟨h.uniform, fun c hc => ?_⟩
  have hcons := ConstraintTable.constraints_insert s.constraints kind first second value
  rw [hcons] at hc
  rcases List.mem_append.mp hc with hc | hc
  · exact h.fits c hc
  · rw [List.mem_singleton.mp hc]
    refine ⟨⟨a.shape.kind, b.shape.kind, ?_, ?_, haccepts⟩, hallows⟩
    · simp [ElementTable.kind?, ha]
    · simp [ElementTable.kind?, hb]

theorem Posed.setValue {s t : Sketch} {id : ConstraintId} {value : Float} (hg : Grounded s)
    (h : Posed s) (ht : s.setValue id value = .ok t) : Posed t := by
  obtain ⟨c, hget, hallows, rfl⟩ := setValue_eq_ok ht
  refine ⟨h.uniform, fun d hd => ?_⟩
  obtain ⟨d, hm, rfl⟩ := List.mem_map.mp hd
  by_cases hid : d.id = id
  · have hdc := (ConstraintTable.get?_eq_some_iff hg.constraints).mpr ⟨hm, hid⟩
    obtain rfl := Option.some.inj (hdc.symm.trans hget)
    rw [if_pos hid]
    exact ⟨(h.fits d hm).kinds, hallows⟩
  · rw [if_neg hid]
    exact h.fits d hm

theorem kind_heir {keep : ElementId} {kept removed e : Element} (hr : removed.shape.kind = .point)
    (he : e.id = keep → e.shape.kind = .point) :
    (heir keep kept removed e).shape.kind = e.shape.kind := by
  unfold heir
  split
  · rename_i h
    rw [he h.2]
    exact hr
  · rfl

theorem copies_heir (keep : ElementId) (kept removed e : Element) :
    (heir keep kept removed e).copies = e.copies := by
  unfold heir
  split <;> rfl

theorem kind?_erase {t : ElementTable} {id remove : ElementId} (h : id ≠ remove) :
    (t.erase remove).kind? id = t.kind? id := by
  unfold ElementTable.kind? ElementTable.get? ElementTable.erase
  rw [List.find?_filter]
  congr 2
  funext x
  by_cases hx : x.id = id <;> simp [hx, h]

theorem kind_heir_of_mem {s : Sketch} (hg : Grounded s) {keep : ElementId}
    {kept removed e : Element} (hkept : s.elements.get? keep = some kept)
    (hp : kept.shape.kind = .point) (hq : removed.shape.kind = .point)
    (he : e ∈ s.elements.elements) :
    (heir keep kept removed e).shape.kind = e.shape.kind := by
  refine kind_heir hq fun hid => ?_
  have hget := (ElementTable.get?_eq_some_iff hg.elements).mpr ⟨he, hid⟩
  obtain rfl := Option.some.inj (hget.symm.trans hkept)
  exact hp

/-- Combining leaves the kind that an identity stands for, that of the removed point with the
kept one. -/
theorem kind?_of_combine {s t : Sketch} {keep remove : ElementId} (hg : Grounded s)
    (ht : s.combine keep remove = .ok t) {id : ElementId} {g : ShapeKind}
    (hk : s.elements.kind? id = some g) :
    t.elements.kind? (if id = remove then keep else id) = some g := by
  rcases combine_eq_ok ht with ⟨rfl, rfl⟩ | ⟨hne, kept, removed, hkept, ⟨hremoved, hp, hq⟩, rfl⟩
  · by_cases hid : id = keep
    · rwa [if_pos hid, ← hid]
    · rwa [if_neg hid]
  have hlive : ∀ {id}, id ≠ remove → s.elements.kind? id = some g →
      ((s.elements.map (heir keep kept removed)).erase remove).kind? id = some g := by
    intro id hid hk
    obtain ⟨e, he, rfl⟩ := Option.map_eq_some_iff.mp hk
    rw [kind?_erase hid, ElementTable.kind?, ElementTable.get?_map (id_heir keep kept removed), he]
    simpa using kind_heir_of_mem hg hkept hp hq (ElementTable.mem_of_get? he).1
  by_cases hid : id = remove
  · rw [if_pos hid]
    refine hlive hne ?_
    rw [hid] at hk
    simp only [ElementTable.kind?, hremoved, Option.map_some, hq] at hk
    simp only [ElementTable.kind?, hkept, Option.map_some, hp]
    exact hk
  · rw [if_neg hid]
    exact hlive hid hk

theorem Posed.combine {s t : Sketch} {keep remove : ElementId} (hg : Grounded s) (h : Posed s)
    (ht : s.combine keep remove = .ok t) : Posed t := by
  have hkind : ∀ id g, s.elements.kind? id = some g →
      t.elements.kind? (if id = remove then keep else id) = some g :=
    fun _ _ => kind?_of_combine hg ht
  rcases combine_eq_ok ht with ⟨_, rfl⟩ | ⟨hne, kept, removed, hkept, ⟨_, hp, hq⟩, rfl⟩
  · exact h
  refine ⟨fun e' he' => ?_, fun c hc => ?_⟩
  · obtain ⟨e, he, rfl⟩ := List.mem_map.mp (List.mem_filter.mp he').1
    intro p hpc
    rw [copies_heir] at hpc
    rw [kind_heir_of_mem hg hkept hp hq he]
    exact h.uniform e he p hpc
  · have hcons := ConstraintTable.constraints_redirect keep hg.constraints (hg.indexed remove)
      hg.proper
    have hc' : c ∈ (s.constraints.redirect remove keep).constraints := hc
    rw [hcons] at hc'
    obtain ⟨d, hd, rfl⟩ := List.mem_map.mp (List.mem_filter.mp hc').1
    exact (h.fits d hd).mono rfl rfl (hkind d.first) (hkind d.second)

theorem Posed.call {s : Sketch} (hs : Sound s) (h : Posed s) (solver : LinearSolver) (c : Call) :
    Posed (c.run solver s) := by
  cases c with
  | addPoint fixed x y => exact h.addShape _ _
  | addLine fixed a b c =>
    dsimp only [Call.run, addLine]
    cases Line.ofCoefficients? a b c with
    | none => exact h
    | some l => exact h.addShape _ _
  | constrain kind first second value =>
    dsimp only [Call.run]
    cases hr : s.constrain kind first second value with
    | error e => exact h
    | ok r => exact h.constrain hr
  | setValue id value =>
    dsimp only [Call.run]
    cases hr : s.setValue id value with
    | error e => exact h
    | ok t => exact h.setValue hs.grounded hr
  | combine keep remove =>
    dsimp only [Call.run]
    cases hr : s.combine keep remove with
    | error e => exact h
    | ok t => exact h.combine hs.grounded hr
  | reset => exact h.congr (akin_reset s) (sameProblem_reset s).constraints
  | build => exact h.congr (akin_build hs.grounded h.uniform) (sameProblem_build s).constraints
  | solve =>
    exact h.congr (hs.akin_solve h.uniform solver) (hs.sameProblem_solve solver).constraints

theorem Reachable.posed {s : Sketch} (hs : Reachable s) : Posed s := by
  induction hs with
  | new => exact ⟨nofun, nofun⟩
  | call hs solver c ih => exact ih.call hs.sound solver c

theorem constraintLifetime_run {s : Sketch} (h : Sound s) (solver : LinearSolver) (c : Call) :
    s.constraints.next ≤ (c.run solver s).constraints.next ∧
      ∀ id ∈ (c.run solver s).constraints.ids, id.number < s.constraints.next →
        id ∈ s.constraints.ids := by
  have hsame : ∀ {t : Sketch}, SameProblem s t → s.constraints.next ≤ t.constraints.next ∧
      ∀ id ∈ t.constraints.ids, id.number < s.constraints.next → id ∈ s.constraints.ids := by
    intro t ht
    have hnext : t.constraints.next = s.constraints.next := by
      simpa using congrArg ConstraintTable.next ht.constraints
    refine ⟨hnext.ge, fun id hid _ => ?_⟩
    rwa [ConstraintTable.ids_eq_of_unsolved ht.constraints] at hid
  cases c with
  | addPoint fixed x y => exact ⟨Nat.le_refl _, fun _ hid _ => hid⟩
  | addLine fixed a b c =>
    dsimp only [Call.run, addLine]
    cases Line.ofCoefficients? a b c <;> exact ⟨Nat.le_refl _, fun _ hid _ => hid⟩
  | constrain kind first second value =>
    dsimp only [Call.run]
    cases hr : s.constrain kind first second value with
    | error e => exact hsame (.refl s)
    | ok r =>
      obtain ⟨_, _, heq⟩ := constrain_eq_ok hr
      have hcons := ConstraintTable.constraints_insert s.constraints kind first second value
      refine ⟨?_, fun id hid hlt => ?_⟩
      · have hnext : r.1.constraints.next = s.constraints.next + 1 := by rw [heq]; rfl
        exact hnext ▸ Nat.le_succ _
      · have hids : r.1.constraints.ids = s.constraints.ids ++ [⟨s.constraints.next⟩] := by
          rw [heq]
          simp [ConstraintTable.ids, hcons]
        have hid' : id ∈ r.1.constraints.ids := hid
        rw [hids, List.mem_append, List.mem_singleton] at hid'
        rcases hid' with hid' | rfl
        · exact hid'
        · exact absurd hlt (Nat.lt_irrefl _)
  | setValue id value =>
    dsimp only [Call.run]
    cases hr : s.setValue id value with
    | error e => exact hsame (.refl s)
    | ok t =>
      obtain ⟨_, _, _, rfl⟩ := setValue_eq_ok hr
      refine ⟨Nat.le_refl _, fun id' hid' _ => ?_⟩
      obtain ⟨d, hd, rfl⟩ := ConstraintTable.mem_ids.mp hid'
      obtain ⟨c, hc, rfl⟩ := List.mem_map.mp hd
      refine ConstraintTable.mem_ids.mpr ⟨c, hc, ?_⟩
      split <;> rfl
  | combine keep remove =>
    dsimp only [Call.run]
    cases hr : s.combine keep remove with
    | error e => exact hsame (.refl s)
    | ok t =>
      rcases combine_eq_ok hr with ⟨_, heq⟩ | ⟨_, kept, removed, _, _, rfl⟩
      · exact hsame (heq ▸ .refl s)
      · have hcons := ConstraintTable.constraints_redirect keep h.grounded.constraints
          (h.grounded.indexed remove) h.grounded.proper
        refine ⟨(next_redirect s.constraints remove keep).ge, fun id hid _ => ?_⟩
        obtain ⟨d, hd, rfl⟩ := ConstraintTable.mem_ids.mp hid
        have hd' : d ∈ (s.constraints.redirect remove keep).constraints := hd
        rw [hcons] at hd'
        obtain ⟨c, hc, rfl⟩ := List.mem_map.mp (List.mem_filter.mp hd').1
        exact ConstraintTable.mem_ids.mpr ⟨c, hc, rfl⟩
  | reset => exact hsame (sameProblem_reset s)
  | build => exact hsame (sameProblem_build s)
  | solve => exact hsame (h.sameProblem_solve solver)

/-- Constraints are not given the identity of one that was there before. -/
theorem mem_ids_of_runAll {solver : LinearSolver} {s : Sketch} (h : Sound s) {calls : List Call}
    {id : ConstraintId}     (hid : id.number < s.constraints.next)
    (hlive : id ∈ (Call.runAll solver calls s).constraints.ids) : id ∈ s.constraints.ids := by
  induction calls generalizing s with
  | nil => exact hlive
  | cons c calls ih =>
    obtain ⟨hnext, hborn⟩ := constraintLifetime_run h solver c
    have hmem := ih (h.call solver c) (Nat.lt_of_lt_of_le hid hnext) hlive
    exact hborn id hmem hid

theorem next_runAll_le {s : Sketch} (h : Sound s) (solver : LinearSolver) (calls : List Call) :
    s.elements.next ≤ (Call.runAll solver calls s).elements.next ∧
      s.constraints.next ≤ (Call.runAll solver calls s).constraints.next := by
  induction calls generalizing s with
  | nil => exact ⟨Nat.le_refl _, Nat.le_refl _⟩
  | cons c calls ih =>
    have hrest := ih (h.call solver c)
    exact ⟨(lifetime_run h solver c).1.trans hrest.1,
      (constraintLifetime_run h solver c).1.trans hrest.2⟩

/-- Identities that the first sketch has and the second, a later one, lacks do not come back. -/
structure Outgrown (s t : Sketch) : Prop where
  elements : ∀ e ∈ s.elements.elements, (∀ x ∈ t.elements.elements, x.id ≠ e.id) →
    ∀ solver calls, ∀ x ∈ (Call.runAll solver calls t).elements.elements, x.id ≠ e.id
  constraints : ∀ c ∈ s.constraints.constraints, (∀ d ∈ t.constraints.constraints, d.id ≠ c.id) →
    ∀ solver calls, ∀ d ∈ (Call.runAll solver calls t).constraints.constraints, d.id ≠ c.id

theorem Sound.outgrown {s : Sketch} (h : Sound s)
    (ht : ∀ solver calls, Sound (Call.runAll solver calls s)) (solver : LinearSolver)
    (calls : List Call) : Outgrown s (Call.runAll solver calls s) := by
  obtain ⟨helements, hconstraints⟩ := next_runAll_le h solver calls
  constructor
  · intro e he hgone next later x hx heq
    have hlt := h.grounded.elements.below _ (List.mem_map.mpr ⟨e, he, rfl⟩)
    obtain ⟨y, hy, hid⟩ := exists_of_runAll (ht solver calls) (Nat.lt_of_lt_of_le hlt helements)
      ⟨x, hx, heq⟩
    exact hgone y hy hid
  · intro c hc hgone next later d hd heq
    have hlt := h.grounded.constraints.below _ (List.mem_map.mpr ⟨c, hc, rfl⟩)
    have hmem := mem_ids_of_runAll (ht solver calls) (Nat.lt_of_lt_of_le hlt hconstraints)
      (ConstraintTable.mem_ids.mpr ⟨d, hd, heq⟩)
    obtain ⟨y, hy, hid⟩ := ConstraintTable.mem_ids.mp hmem
    exact hgone y hy hid

/-- The constraint is between two different elements of the kinds that it is for, and asks for
a value that there is. -/
structure Meaningful (s : Sketch) (c : Constraint) : Prop where
  proper : c.first ≠ c.second
  ends : ∃ a ∈ s.elements.elements, ∃ b ∈ s.elements.elements, a.id = c.first ∧ b.id = c.second ∧
    (c.kind = .angle → a.shape.kind = .line ∧ b.shape.kind = .line) ∧
    (c.kind = .distance → ¬ (a.shape.kind = .line ∧ b.shape.kind = .line))
  finite : c.value.isFinite = true
  nonneg : c.kind = .distance → 0 ≤ c.value

structure WellPosed (s : Sketch) : Prop where
  meaningful : ∀ c ∈ s.constraints.constraints, s.Meaningful c
  indexed : ∀ e, (s.constraints.on e).Nodup ∧
    ∀ id, id ∈ s.constraints.on e ↔ ∃ c ∈ s.constraints.constraints, c.id = id ∧ e ∈ c.ends
  elements : (s.elements.elements.map (·.id.number)).Pairwise (· < ·)
  constraints : (s.constraints.constraints.map (·.id.number)).Pairwise (· < ·)

theorem Posed.meaningful {s : Sketch} (h : Posed s) (hg : Grounded s) {c : Constraint}
    (hc : c ∈ s.constraints.constraints) : s.Meaningful c := by
  obtain ⟨⟨g, g', hfirst, hsecond, haccepts⟩, hallows⟩ := h.fits c hc
  obtain ⟨a, ha, hida, rfl⟩ := ElementTable.exists_of_kind? hfirst
  obtain ⟨b, hb, hidb, rfl⟩ := ElementTable.exists_of_kind? hsecond
  have hfinite : c.value.isFinite = true ∧ (c.kind = .distance → 0 ≤ c.value) := by
    cases hk : c.kind with
    | distance =>
      rw [hk, RelationKind.allows, Bool.and_eq_true, decide_eq_true_eq] at hallows
      exact ⟨hallows.1, fun _ => hallows.2⟩
    | angle =>
      rw [hk] at hallows
      exact ⟨hallows, nofun⟩
  refine ⟨hg.proper c hc, ⟨a, ha, b, hb, hida, hidb, fun hk => ?_, fun hk hlines => ?_⟩,
    hfinite.1, hfinite.2⟩
  · rw [hk] at haccepts
    cases hka : a.shape.kind <;> cases hkb : b.shape.kind <;> simp_all [RelationKind.accepts]
  · rw [hk, hlines.1, hlines.2] at haccepts
    cases haccepts

/-- Whatever calls are made, constraints stay meaningful and indexed, and identities are given
out in order and once. -/
theorem Reachable.wellPosed {s : Sketch} (hs : Reachable s) :
    s.WellPosed ∧ ∀ solver calls, s.Outgrown (Call.runAll solver calls s) := by
  have hg := hs.sound.grounded
  refine ⟨⟨fun c hc => hs.posed.meaningful hg hc, fun e => ?_, hg.elements.increasing,
    hg.constraints.increasing⟩, ?_⟩
  · exact ⟨(hg.indexed e).nodup, (hg.indexed e).mem_on⟩
  · exact hs.sound.outgrown fun solver calls => (hs.runAll solver calls).sound

end Sketch

/-- A line and four points of which the last two are merged into the second one after the
other, with a distance between them and an angle of the line that is refused. -/
def Call.merged : List Call :=
  [addLine true 0 2 0, addPoint true 0 0, addPoint false 4 1, addPoint false 4 2,
    addPoint false 5 1, constrain .distance ⟨1⟩ ⟨3⟩ 4, constrain .distance ⟨3⟩ ⟨4⟩ 1,
    constrain .distance ⟨0⟩ ⟨4⟩ 0, constrain .angle ⟨0⟩ ⟨2⟩ 1, build, combine ⟨3⟩ ⟨4⟩,
    combine ⟨2⟩ ⟨3⟩, build]

namespace Sketch

theorem wellPosed_merged :
    (Call.runAll solveLinear Call.merged {}).constraints.on ⟨2⟩ = [⟨0⟩, ⟨2⟩] ∧
    (Call.runAll solveLinear Call.merged {}).WellPosed ∧
    ∀ solver calls, (Call.runAll solveLinear Call.merged {}).Outgrown
      (Call.runAll solver calls (Call.runAll solveLinear Call.merged {})) := by
  refine ⟨by decide +kernel, ?_⟩
  exact Reachable.wellPosed ((Reachable.new {}).runAll solveLinear Call.merged)

end Sketch

end RigidSketch
