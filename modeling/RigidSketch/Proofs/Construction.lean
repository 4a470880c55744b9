import RigidSketch.Proofs.Tally
import RigidSketch.Proofs.WellPosed

/-! The growth steps of a cluster are a construction: the first places two elements, and each
later one an element that two constraints tie to elements placed before. The two constraints
may lead to one and the same element, and then they do not hold the new one in its place. -/

namespace RigidSketch

open LeastSquares (solveLinear)

theorem Cluster.other?_of_outsideEnd? {k : Cluster} {c : Constraint} {e : ElementId}
    (h : k.outsideEnd? c = some e) : ∃ a ∈ k.elements, c.other? e = some a := by
  have hout := Cluster.not_mem_of_outsideEnd? h
  rcases Cluster.outsideEnd?_eq_some h with ⟨hin, rfl⟩ | ⟨hin, rfl⟩
  · have hne : c.first ≠ c.second := fun heq => hout (heq ▸ hin)
    exact ⟨c.first, hin, by simp [Constraint.other?, hne]⟩
  · exact ⟨c.second, hin, by simp [Constraint.other?]⟩

theorem Constraint.mem_ends_of_other? {c : Constraint} {e a x : ElementId}
    (h : c.other? e = some a) : x ∈ c.ends ↔ x = e ∨ x = a := by
  unfold other? at h
  rw [mem_ends]
  split at h
  · rename_i he
    rw [he, Option.some.inj h]
  · split at h
    · rename_i he
      rw [he, Option.some.inj h, or_comm]
    · cases h

namespace Sketch

/-- The constraint joins an element to another one. -/
def Joins (s : Sketch) (id : ConstraintId) (e a : ElementId) : Prop :=
  ∃ c, s.constraints.get? id = some c ∧ c.other? e = some a

/-- The constraints do not leave a line without a place, as two angles do. -/
def CanPlace (s : Sketch) (e : ElementId) (c₁ c₂ : ConstraintId) : Prop :=
  ∃ kind, s.elements.kind? e = some kind ∧
    (kind = .line → s.isOfKind .angle c₁ = false ∨ s.isOfKind .angle c₂ = false)

/-- Steps and the elements that they place, in order. The first step places the two ends of a
constraint, and each later one an element that two constraints join to elements before it. -/
inductive Construction (s : Sketch) : List GrowthStep → List ElementId → Prop
  | seed {id : ConstraintId} {c : Constraint} (hc : s.constraints.get? id = some c) :
      Construction s [.seed id] c.ends
  | place {steps : List GrowthStep} {placed : List ElementId} {e a₁ a₂ : ElementId}
      {c₁ c₂ : ConstraintId} (before : Construction s steps placed) (hnew : e ∉ placed)
      (hne : c₁ ≠ c₂) (ha₁ : a₁ ∈ placed) (h₁ : s.Joins c₁ e a₁) (ha₂ : a₂ ∈ placed)
      (h₂ : s.Joins c₂ e a₂) (hcan : s.CanPlace e c₁ c₂) :
      Construction s (steps ++ [.place e c₁ c₂]) (placed ++ [e])

theorem joins_iff {s : Sketch} {id : ConstraintId} {e a : ElementId} :
    s.Joins id e a ↔ (s.constraints.get? id).bind (·.other? e) = some a :=
  Option.bind_eq_some_iff.symm

instance (s : Sketch) (id : ConstraintId) (e a : ElementId) : Decidable (s.Joins id e a) :=
  decidable_of_iff _ joins_iff.symm

theorem Joins.unique {s : Sketch} {id : ConstraintId} {e a b : ElementId} (h : s.Joins id e a)
    (h' : s.Joins id e b) : a = b :=
  Option.some.inj ((joins_iff.mp h).symm.trans (joins_iff.mp h'))

theorem Construction.congr {s t : Sketch} {steps : List GrowthStep} {placed : List ElementId}
    (h : s.Construction steps placed) (hc : t.constraints = s.constraints)
    (he : s.elements.Akin t.elements) : t.Construction steps placed := by
  have hjoins : ∀ {id e a}, s.Joins id e a → t.Joins id e a := by
    intro id e a hj
    unfold Joins
    rwa [hc]
  induction h with
  | seed hget =>
    rw [← hc] at hget
    exact .seed hget
  | place _ hnew hne ha₁ h₁ ha₂ h₂ hcan ih =>
    refine .place ih hnew hne ha₁ (hjoins h₁) ha₂ (hjoins h₂) ?_
    unfold CanPlace isOfKind at *
    rwa [hc, he.kind?]

theorem canPlace_of_usablePair? {s : Sketch} {e : ElementId} {ids : List ConstraintId}
    {p : ConstraintId × ConstraintId} (h : s.usablePair? e ids = some p) :
    s.CanPlace e p.1 p.2 := by
  unfold usablePair? at h
  split at h
  · rename_i x hx
    have hp := List.find?_some h
    refine ⟨x.shape.kind, by simp [ElementTable.kind?, hx], fun hline => ?_⟩
    simpa [hline] using hp
  · cases h

theorem canPlace_of_admission? {s : Sketch} {k : Cluster} {a : Admission}
    (h : s.admission? k = some a) : s.CanPlace a.element a.first a.second := by
  obtain ⟨e, _, he⟩ := List.exists_of_findSome?_eq_some h
  obtain ⟨p, hp, rfl⟩ := Option.map_eq_some_iff.mp he
  exact canPlace_of_usablePair? hp

theorem joins_of_admission? {s : Sketch} {k : Cluster} {a : Admission}
    (h : s.admission? k = some a) {id : ConstraintId} (hid : id ∈ a.constraints) :
    ∃ x ∈ k.elements, s.Joins id a.element x := by
  obtain ⟨_, c, hc, hout⟩ := mem_links.mp (mem_links_of_admission? h hid)
  obtain ⟨x, hx, hother⟩ := Cluster.other?_of_outsideEnd? hout
  exact ⟨x, hx, c, hc, hother⟩

theorem Construction.take {s : Sketch} {g : Growth} {a : Admission}
    (h : s.Construction g.cluster.steps g.cluster.elements.toList)
    (ha : s.admission? g.cluster = some a) :
    s.Construction (g.take a).cluster.steps (g.take a).cluster.elements.toList := by
  have hfirst : a.first ∈ a.constraints := List.mem_cons_self
  have hsecond : a.second ∈ a.constraints := List.mem_cons_of_mem _ List.mem_cons_self
  obtain ⟨_, c, _, hout⟩ := mem_links.mp (mem_links_of_admission? ha hfirst)
  have hnew : a.element ∉ g.cluster.elements := Cluster.not_mem_of_outsideEnd? hout
  have hne : a.first ≠ a.second := by
    intro heq
    have hnodup := (List.nodup_cons.mp (nodup_of_admission? ha)).1
    exact hnodup (heq ▸ List.mem_cons_self)
  obtain ⟨x, hx, h₁⟩ := joins_of_admission? ha hfirst
  obtain ⟨y, hy, h₂⟩ := joins_of_admission? ha hsecond
  have helements : (g.take a).cluster.elements.toList =
      g.cluster.elements.toList ++ [a.element] := by
    show (g.cluster.elements.insert a.element).toList = _
    rw [OrderedSet.toList_insert, if_neg hnew]
  rw [helements]
  exact .place h hnew hne hx h₁ hy h₂ (canPlace_of_admission? ha)

theorem Construction.grow {s : Sketch} {g : Growth}
    (h : s.Construction g.cluster.steps g.cluster.elements.toList) :
    s.Construction (s.grow g).cluster.steps (s.grow g).cluster.elements.toList := by
  fun_induction Sketch.grow s g with
  | case1 g a ha ih => exact ih (h.take ha)
  | case2 => exact h

theorem construction_growFrom {s : Sketch} (hg : Grounded s) {seed : ConstraintId}
    {c : Constraint} (hc : s.constraints.get? seed = some c) (k : ClusterId) :
    s.Construction (s.growFrom k seed).cluster.steps
      (s.growFrom k seed).cluster.elements.toList := by
  apply Construction.grow
  have hends : c.ends.Nodup := by
    simpa [Constraint.ends] using hg.proper c (ConstraintTable.mem_of_get? hc).1
  have helements : (s.seedGrowth k seed).cluster.elements.toList = c.ends := by
    simp only [seedGrowth, hc]
    exact OrderedSet.toList_insertAll hends fun _ _ => OrderedSet.not_mem_empty _
  rw [helements]
  exact .seed hc

/-- The steps of every cluster construct its elements, so that each of these is placed once. -/
def Constructed (s : Sketch) : Prop :=
  ∀ k ∈ s.clusters, s.Construction k.steps k.elements.toList

theorem Constructed.commit {s : Sketch} (hg : Grounded s) (hu : s.elements.Uniform)
    (h : s.Constructed) {seed : ConstraintId} {c : Constraint}
    (hc : s.constraints.get? seed = some c) (k : ClusterId) :
    (s.commit (s.growFrom k seed)).Constructed := by
  intro l hl
  rcases mem_clusters_commit.mp hl with hl | rfl
  · exact (h l hl).congr rfl (akin_commit hu _)
  · exact (construction_growFrom hg hc k).congr rfl (akin_commit hu _)

theorem constructed_build {s : Sketch} (hg : Grounded s) (hb : s.built = false) :
    s.build.Constructed := by
  refine (build_induction (P := fun t => t.elements.Uniform ∧ t.Constructed) hg hb
    ⟨(akin_reset s).uniform, nofun⟩ ?_ ?_).2
  · intro t n b h
    exact ⟨h.1, fun k hk => (h.2 k hk).congr rfl h.1.akin⟩
  · intro t k seed ht ha hseed h
    obtain ⟨c, hc⟩ := ha.partitioned.exists_get? hseed
    exact ⟨(akin_commit h.1 _).uniform, h.2.commit ht h.1 hc k⟩

theorem constructed_of_builds? {s b : Sketch} {c : Call} (h : Sound s)
    (hb : c.builds? s = some b) : b.Constructed := by
  obtain ⟨⟨t, ht, hbuilt, _, rfl⟩, _⟩ := builds?_eq_some h hb
  exact constructed_build ht hbuilt

/-- Two constraints are between the same elements. -/
def Parallel (s : Sketch) (c₁ c₂ : ConstraintId) : Prop :=
  ∃ d₁ d₂, s.constraints.get? c₁ = some d₁ ∧ s.constraints.get? c₂ = some d₂ ∧
    ∀ e, e ∈ d₁.ends ↔ e ∈ d₂.ends

theorem Joins.ne {s : Sketch} (hg : Grounded s) {id : ConstraintId} {e a : ElementId}
    (h : s.Joins id e a) : a ≠ e := by
  obtain ⟨c, hc, hother⟩ := h
  have hproper := hg.proper c (ConstraintTable.mem_of_get? hc).1
  unfold Constraint.other? at hother
  split at hother
  · rename_i he
    rw [← he, ← Option.some.inj hother]
    exact hproper.symm
  · split at hother
    · rename_i he
      rw [← he, ← Option.some.inj hother]
      exact hproper
    · cases hother

theorem Joins.eq_iff_parallel {s : Sketch} (hg : Grounded s) {c₁ c₂ : ConstraintId}
    {e a₁ a₂ : ElementId} (h₁ : s.Joins c₁ e a₁) (h₂ : s.Joins c₂ e a₂) :
    a₁ = a₂ ↔ s.Parallel c₁ c₂ := by
  have hne := h₁.ne hg
  obtain ⟨d₁, hd₁, ho₁⟩ := h₁
  obtain ⟨d₂, hd₂, ho₂⟩ := h₂
  constructor
  · rintro rfl
    refine ⟨d₁, d₂, hd₁, hd₂, fun x => ?_⟩
    rw [Constraint.mem_ends_of_other? ho₁, Constraint.mem_ends_of_other? ho₂]
  · rintro ⟨d₁', d₂', hd₁', hd₂', hends⟩
    obtain rfl := Option.some.inj (hd₁.symm.trans hd₁')
    obtain rfl := Option.some.inj (hd₂.symm.trans hd₂')
    have hin := (hends a₁).mp ((Constraint.mem_ends_of_other? ho₁).mpr (Or.inr rfl))
    exact ((Constraint.mem_ends_of_other? ho₂).mp hin).resolve_left hne

/-- A step places an element after the elements of the steps before it. -/
theorem Construction.exists_of_append {s : Sketch} {steps : List GrowthStep}
    {placed : List ElementId} (h : s.Construction steps placed) {done rest : List GrowthStep}
    {e : ElementId} {c₁ c₂ : ConstraintId} (hsteps : steps = done ++ .place e c₁ c₂ :: rest) :
    ∃ before, s.Construction done before ∧ (∃ a ∈ before, s.Joins c₁ e a) ∧
      (∃ a ∈ before, s.Joins c₂ e a) ∧ s.CanPlace e c₁ c₂ := by
  induction h generalizing rest with
  | seed =>
    cases done with
    | nil => cases hsteps
    | cons step done => simp at hsteps
  | @place steps placed e' a₁ a₂ c₁' c₂' before hnew hne ha₁ h₁ ha₂ h₂ hcan ih =>
    rcases List.eq_nil_or_concat rest with rfl | ⟨rest, last, rfl⟩
    · -- it is the last step
      obtain ⟨rfl, hlast⟩ := List.append_inj' hsteps rfl
      cases hlast
      exact ⟨placed, before, ⟨a₁, ha₁, h₁⟩, ⟨a₂, ha₂, h₂⟩, hcan⟩
    · rw [List.concat_eq_append, ← List.cons_append, ← List.append_assoc] at hsteps
      exact ih (List.append_inj' hsteps rfl).1

/-- The two constraints of a step lead to two different elements before it unless they are
between the same elements. -/
theorem Reachable.apart_iff_of_builds? {s b : Sketch} {c : Call} (hs : Reachable s)
    (hb : Call.builds? c s = some b) {k : Cluster} (hk : k ∈ b.clusters)
    {done rest : List GrowthStep} {e : ElementId} {c₁ c₂ : ConstraintId}
    (hsteps : k.steps = done ++ .place e c₁ c₂ :: rest) :
    ∃ before, b.Construction done before ∧ ∃ a₁ ∈ before, ∃ a₂ ∈ before,
      b.Joins c₁ e a₁ ∧ b.Joins c₂ e a₂ ∧ (a₁ ≠ a₂ ↔ ¬ b.Parallel c₁ c₂) := by
  have hg : Grounded b := by
    obtain ⟨⟨t, ht, _, _, rfl⟩, _⟩ := builds?_eq_some hs.sound hb
    exact ht.congr (sameProblem_build t)
  obtain ⟨before, hbefore, ⟨a₁, ha₁, h₁⟩, ⟨a₂, ha₂, h₂⟩, _⟩ :=
    (constructed_of_builds? hs.sound hb k hk).exists_of_append hsteps
  exact ⟨before, hbefore, a₁, ha₁, a₂, ha₂, h₁, h₂, not_congr (h₁.eq_iff_parallel hg h₂)⟩

/-- The third corner of a triangle is placed from the two others. -/
theorem apart_iff_triangle : ∃ k ∈ (Call.runAll solveLinear Call.triangle {}).build.clusters,
    k.steps = [.seed ⟨0⟩] ++ .place ⟨2⟩ ⟨1⟩ ⟨2⟩ :: [] ∧
    ∃ before, (Call.runAll solveLinear Call.triangle {}).build.Construction [.seed ⟨0⟩] before ∧
      ∃ a₁ ∈ before, ∃ a₂ ∈ before,
        (Call.runAll solveLinear Call.triangle {}).build.Joins ⟨1⟩ ⟨2⟩ a₁ ∧
        (Call.runAll solveLinear Call.triangle {}).build.Joins ⟨2⟩ ⟨2⟩ a₂ ∧
        (a₁ ≠ a₂ ↔ ¬ (Call.runAll solveLinear Call.triangle {}).build.Parallel ⟨1⟩ ⟨2⟩) := by
  have hsteps : ∃ k ∈ (Call.runAll solveLinear Call.triangle {}).build.clusters,
      k.steps = [.seed ⟨0⟩] ++ .place ⟨2⟩ ⟨1⟩ ⟨2⟩ :: [] := by decide +kernel
  have hb : (Call.runAll solveLinear Call.triangle {}).built = false := by decide +kernel
  obtain ⟨k, hk, hsteps⟩ := hsteps
  have hs := (Reachable.new {}).runAll solveLinear Call.triangle
  exact ⟨k, hk, hsteps,
    Reachable.apart_iff_of_builds? hs (Call.builds?_build hb) hk hsteps⟩

end Sketch

/-- Two bars that meet in a point, the second of them doubled. -/
def Call.doubled : List Call :=
  [addPoint false 0 0, addPoint false 4 0, addPoint false 0 5, constrain .distance ⟨0⟩ ⟨1⟩ 4,
    constrain .distance ⟨0⟩ ⟨2⟩ 5, constrain .distance ⟨0⟩ ⟨2⟩ 5]

namespace Sketch

/-- The bars turn about the point in which they meet, and yet they are taken for one cluster. -/
theorem not_apart_doubled :
    ¬ ∀ s, Reachable s → ∀ c b, Call.builds? c s = some b → ∀ k ∈ b.clusters,
      ∀ done rest e c₁ c₂, k.steps = done ++ .place e c₁ c₂ :: rest →
        ∃ a₁ a₂, b.Joins c₁ e a₁ ∧ b.Joins c₂ e a₂ ∧ a₁ ≠ a₂ := by
  intro hall
  have hsteps : ∃ k ∈ (Call.runAll solveLinear Call.doubled {}).build.clusters,
      k.steps = [.seed ⟨0⟩] ++ .place ⟨2⟩ ⟨1⟩ ⟨2⟩ :: [] := by decide +kernel
  have hb : (Call.runAll solveLinear Call.doubled {}).built = false := by decide +kernel
  obtain ⟨k, hk, hsteps⟩ := hsteps
  obtain ⟨a₁, a₂, h₁, h₂, hne⟩ := hall _ ((Reachable.new {}).runAll solveLinear Call.doubled)
    .build _ (Call.builds?_build hb) k hk _ _ _ _ _ hsteps
  have hfirst : (Call.runAll solveLinear Call.doubled {}).build.Joins ⟨1⟩ ⟨2⟩ ⟨0⟩ := by
    decide +kernel
  have hsecond : (Call.runAll solveLinear Call.doubled {}).build.Joins ⟨2⟩ ⟨2⟩ ⟨0⟩ := by
    decide +kernel
  exact hne ((h₁.unique hfirst).trans (hsecond.unique h₂))

end Sketch

end RigidSketch
