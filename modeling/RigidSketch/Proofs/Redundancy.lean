import RigidSketch.Proofs.Saturation

/-! Where redundant constraints come from. A growth leaves out no free constraint between its
elements but those parallel to its seed, and every other one that it does not need it has in
excess, on an element that is overconstrained then. -/

namespace RigidSketch

open LeastSquares (solveLinear)

theorem Constraint.exists_other? {c : Constraint} {e : ElementId} (h : e ∈ c.ends) :
    ∃ a ∈ c.ends, c.other? e = some a := by
  unfold other?
  rcases mem_ends.mp h with rfl | rfl
  · exact ⟨c.second, mem_ends.mpr (Or.inr rfl), if_pos rfl⟩
  · by_cases hloop : c.first = c.second
    · exact ⟨c.second, h, if_pos hloop⟩
    · exact ⟨c.first, mem_ends.mpr (Or.inl rfl), by rw [if_neg hloop, if_pos rfl]⟩

/-- Four points with all distances between them, the first of these distances twice. -/
def Call.overbraced : List Call := braced ++ [constrain .distance ⟨0⟩ ⟨1⟩ 5]

namespace Sketch

/-- An element is taken in with all remaining constraints that tie it to the cluster. -/
theorem mem_constraints_of_mem_links {s : Sketch} {k : Cluster} {a : Admission}
    (h : s.admission? k = some a) {id : ConstraintId} (hid : (a.element, id) ∈ s.links k) :
    id ∈ a.constraints := by
  obtain ⟨e, _, he⟩ := List.exists_of_findSome?_eq_some h
  obtain ⟨p, _, rfl⟩ := Option.map_eq_some_iff.mp he
  have hmem : id ∈ ((s.links k).filter (·.1 = e)).map (·.2) :=
    List.mem_map.mpr ⟨(e, id), List.mem_filter.mpr ⟨hid, by simp⟩, rfl⟩
  simp only [Admission.constraints, List.mem_cons, List.mem_filter, decide_eq_true_eq]
  tauto

/-- What a growth knows of its elements: the overconstrained ones have constraints in excess,
and of the free constraints between any of them only parallels of the seed are not taken. -/
structure Surveyed (s : Sketch) (seed : ConstraintId) (g : Growth) : Prop where
  start : g.cluster.steps.head? = some (.seed seed)
  crowded : ∀ e ∈ g.crowded, ∃ id ∈ g.excess, ∃ c, s.constraints.get? id = some c ∧ e ∈ c.ends
  excess : ∀ id ∈ g.excess, ∃ c, s.constraints.get? id = some c ∧ ∃ e ∈ g.crowded, e ∈ c.ends
  inside : ∀ id ∈ s.free, ∀ c, s.constraints.get? id = some c →
    (∀ e ∈ c.ends, e ∈ g.cluster.elements) → id ∉ g.cluster.constraints → s.Parallel id seed

/-- A free constraint that the new element brings inside is taken in with it. -/
theorem mem_constraints_of_inside_take {s : Sketch} (hg : Grounded s) {g : Growth}
    {a : Admission} (ha : s.admission? g.cluster = some a) {id : ConstraintId} (hf : id ∈ s.free)
    {c : Constraint} (hc : s.constraints.get? id = some c)
    (hin : ∀ e ∈ c.ends, e ∈ (g.take a).cluster.elements) (he : a.element ∈ c.ends)
    (hnew : id ∉ g.cluster.constraints) : id ∈ a.constraints := by
  have hout : a.element ∉ g.cluster.elements := by
    obtain ⟨_, _, _, hout⟩ := mem_links.mp (mem_links_of_admission? ha (List.mem_cons_self))
    exact Cluster.not_mem_of_outsideEnd? hout
  obtain ⟨x, hx, hother⟩ := Constraint.exists_other? he
  have hne : x ≠ a.element := Joins.ne hg ⟨c, hc, hother⟩
  have hxin : x ∈ g.cluster.elements := (OrderedSet.mem_insert.mp (hin x hx)).resolve_right hne
  refine mem_constraints_of_mem_links ha (mem_links.mpr ⟨?_, c, hc, ?_⟩)
  · exact List.mem_filter.mpr ⟨hf, decide_eq_true hnew⟩
  · exact Cluster.outsideEnd?_of_other? hother hxin hout

theorem Surveyed.take {s : Sketch} (hg : Grounded s) {seed : ConstraintId} {g : Growth}
    {a : Admission} (h : s.Surveyed seed g) (ha : s.admission? g.cluster = some a) :
    s.Surveyed seed (g.take a) := by
  have hcrowded : ∀ e, e ∈ (g.take a).crowded ↔
      e ∈ g.crowded ∨ (e = a.element ∧ a.excess ≠ []) := by
    intro e
    simp only [Growth.take]
    split
    · rename_i hnil
      simp [List.isEmpty_iff.mp hnil]
    · rename_i hne
      simp [List.isEmpty_iff.not.mp hne]
  have hexcess : ∀ id ∈ a.excess, ∃ c, s.constraints.get? id = some c ∧ a.element ∈ c.ends := by
    intro id hid
    have hmem : id ∈ a.constraints :=
      List.mem_cons_of_mem _ (List.mem_cons_of_mem _ hid)
    obtain ⟨_, _, c, hc, hother⟩ := joins_of_admission? ha hmem
    exact ⟨c, hc, (Constraint.mem_ends_of_other? hother).mpr (Or.inl rfl)⟩
  have hstart : (g.take a).cluster.steps.head? = some (.seed seed) := by
    simp [Growth.take, List.head?_append, h.start]
  refine ⟨hstart, fun e he => ?_, fun id hid => ?_, fun id hf c hc hin hout => ?_⟩
  · rcases (hcrowded e).mp he with he | ⟨rfl, hne⟩
    · obtain ⟨id, hid, hc⟩ := h.crowded e he
      exact ⟨id, List.mem_append_left _ hid, hc⟩
    · obtain ⟨id, hid⟩ := List.exists_mem_of_ne_nil _ hne
      exact ⟨id, List.mem_append_right _ hid, hexcess id hid⟩
  · rcases List.mem_append.mp hid with hid | hid
    · obtain ⟨c, hc, e, he, hend⟩ := h.excess id hid
      exact ⟨c, hc, e, (hcrowded e).mpr (Or.inl he), hend⟩
    · obtain ⟨c, hc, hend⟩ := hexcess id hid
      exact ⟨c, hc, a.element, (hcrowded _).mpr (Or.inr ⟨rfl, List.ne_nil_of_mem hid⟩), hend⟩
  · have hsplit : id ∉ g.cluster.constraints ∧ id ∉ a.constraints := by
      simpa [Growth.take] using hout
    refine h.inside id hf c hc (fun e he => ?_) hsplit.1
    rcases OrderedSet.mem_insert.mp (hin e he) with hold | rfl
    · exact hold
    · exact absurd (mem_constraints_of_inside_take hg ha hf hc hin he hsplit.1) hsplit.2

theorem Surveyed.grow {s : Sketch} (hg : Grounded s) {seed : ConstraintId} {g : Growth}
    (h : s.Surveyed seed g) : s.Surveyed seed (s.grow g) := by
  fun_induction Sketch.grow s g with
  | case1 g a ha ih => exact ih (h.take hg ha)
  | case2 => exact h

theorem surveyed_growFrom {s : Sketch} (hg : Grounded s) {seed : ConstraintId} {c : Constraint}
    (hc : s.constraints.get? seed = some c) (k : ClusterId) :
    s.Surveyed seed (s.growFrom k seed) := by
  refine Surveyed.grow hg ⟨rfl, nofun, nofun, fun id _ d hd hin _ => ⟨d, c, hd, hc, ?_⟩⟩
  -- two ends among two elements are both of these
  have hin' : ∀ e ∈ d.ends, e ∈ c.ends := by simpa [seedGrowth, hc] using hin
  have hproper := hg.proper d (ConstraintTable.mem_of_get? hd).1
  have hfirst := Constraint.mem_ends.mp (hin' d.first (by simp [Constraint.ends]))
  have hsecond := Constraint.mem_ends.mp (hin' d.second (by simp [Constraint.ends]))
  intro e
  simp only [Constraint.mem_ends]
  rcases hfirst with h₁ | h₁ <;> rcases hsecond with h₂ | h₂ <;>
    simp only [h₁, h₂, ne_eq, not_true_eq_false] at hproper ⊢
  exact or_comm

def IsOver (s : Sketch) (e : ElementId) : Prop :=
  ∃ x ∈ s.elements.elements, x.id = e ∧ x.level = .over

/-- The elements with their levels. -/
def levels (s : Sketch) : List (ElementId × Level) :=
  s.elements.elements.map fun e => (e.id, e.level)

theorem levels_commit (s : Sketch) (g : Growth) :
    (s.commit g).levels = s.levels.map fun p =>
      (p.1, if p.1 ∈ g.crowded then .over
        else if p.1 ∈ g.cluster.elements ∧ p.2 = .under then .full else p.2) := by
  simp only [levels, commit, ElementTable.mapWhere, List.map_map]
  refine List.map_congr_left fun e _ => ?_
  have hid := (e.claim_frame g.cluster.id).1
  have hlevel := (e.claim_frame g.cluster.id).2.2.2
  simp only [Function.comp_apply, decide_eq_true_eq]
  by_cases hin : e.id ∈ g.cluster.elements
  · by_cases hunder : e.level = .under <;> by_cases hover : e.id ∈ g.crowded <;>
      simp [hin, hid, hlevel, hunder, hover]
  · by_cases hover : e.id ∈ g.crowded <;> simp [hin, hover]

theorem isOver_iff {s : Sketch} {e : ElementId} : s.IsOver e ↔ (e, .over) ∈ s.levels := by
  simp [IsOver, levels]

theorem isOver_commit {s : Sketch} {g : Growth} {e : ElementId} :
    (s.commit g).IsOver e ↔ (∃ level, (e, level) ∈ s.levels) ∧ (s.IsOver e ∨ e ∈ g.crowded) := by
  simp only [isOver_iff, levels_commit, List.mem_map, Prod.mk.injEq, Prod.exists]
  constructor
  · rintro ⟨_, level, hmem, rfl, hover⟩
    refine ⟨⟨level, hmem⟩, ?_⟩
    split at hover
    · exact Or.inr ‹_›
    · split at hover
      · cases hover
      · exact Or.inl (hover ▸ hmem)
  · rintro ⟨⟨level, hmem⟩, hover | hcrowded⟩
    · exact ⟨e, .over, hover, rfl, by simp⟩
    · exact ⟨e, level, hmem, rfl, if_pos hcrowded⟩

/-- Overconstrained elements have conflicting constraints, and a conflicting constraint has an
overconstrained end unless it is parallel to the one that its cluster grew from. -/
structure MarksAgree (s : Sketch) : Prop where
  overconstrained : ∀ e ∈ s.elements.elements, e.level = .over →
    ∃ c ∈ s.constraints.constraints, c.id ∈ s.conflicting ∧ e.id ∈ c.ends
  held : ∀ id ∈ s.conflicting, ∃ k ∈ s.clusters, id ∈ k.constraints
  conflicting : ∀ k ∈ s.clusters, ∀ c ∈ s.constraints.constraints, c.id ∈ k.constraints →
    c.id ∈ s.conflicting → (∃ e ∈ s.elements.elements, e.id ∈ c.ends ∧ e.level = .over) ∨
      ∃ seed, k.steps.head? = some (.seed seed) ∧ s.Parallel c.id seed

theorem marksAgree_reset (s : Sketch) : MarksAgree s.reset := by
  refine ⟨fun e he hover => ?_, nofun, nofun⟩
  obtain ⟨x, _, rfl⟩ := List.mem_map.mp he
  cases hover

theorem MarksAgree.commit {s : Sketch} (hg : Grounded s) (hp : Partitioned s) (h : MarksAgree s)
    {seed : ConstraintId} {g : Growth} (hgrown : Grown s g) (hs : s.Surveyed seed g) :
    MarksAgree (s.commit g) := by
  have hover : ∀ {c : Constraint} {e : ElementId}, c ∈ s.constraints.constraints → e ∈ c.ends →
      s.IsOver e ∨ e ∈ g.crowded →
      ∃ x ∈ (s.commit g).elements.elements, x.id ∈ c.ends ∧ x.level = .over := by
    intro c e hc he hor
    obtain ⟨x, hx, rfl⟩ := hg.ends c hc e he
    have hlevel : (x.id, x.level) ∈ s.levels := List.mem_map.mpr ⟨x, hx, rfl⟩
    obtain ⟨y, hy, hid, hlevel⟩ := isOver_commit.mpr ⟨⟨_, hlevel⟩, hor⟩
    exact ⟨y, hy, hid ▸ he, hlevel⟩
  refine ⟨fun e he hlevel => ?_, fun id hid => ?_, fun k hk c hc hin hconf => ?_⟩
  · rcases (isOver_commit.mp ⟨e, he, rfl, hlevel⟩).2 with ⟨x, hx, hid, hx'⟩ | hcrowded
    · obtain ⟨c, hc, hconf, hend⟩ := h.overconstrained x hx hx'
      exact ⟨c, hc, mem_conflicting_commit_iff.mpr (Or.inl hconf), hid ▸ hend⟩
    · obtain ⟨id, hid, c, hc, hend⟩ := hs.crowded e.id hcrowded
      obtain ⟨hmem, rfl⟩ := ConstraintTable.mem_of_get? hc
      exact ⟨c, hmem, mem_conflicting_commit_iff.mpr (Or.inr (Or.inl hid)), hend⟩
  · exact (hp.commit hg hgrown).conflicting id hid
  · have hget : s.constraints.get? c.id = some c :=
      (ConstraintTable.get?_eq_some_iff hg.constraints).mpr ⟨hc, rfl⟩
    have hcases := mem_conflicting_commit_iff.mp hconf
    rcases mem_clusters_commit.mp hk with hk | rfl
    · -- the growth took free constraints only
      have hnot : c.id ∉ s.free := hp.taken k hk c.id hin
      have hold : c.id ∈ s.conflicting := by
        rcases hcases with hold | hexcess | hinside
        · exact hold
        · exact absurd (hgrown.free _ (hgrown.excess _ hexcess)) hnot
        · exact absurd (OrderedSet.mem_eraseAll.mp (mem_inside.mp hinside).1).1 hnot
      rcases h.conflicting k hk c hc hin hold with ⟨x, hx, hend, hlevel⟩ | hparallel
      · exact Or.inl (hover hc hend (Or.inl ⟨x, hx, rfl, hlevel⟩))
      · exact Or.inr hparallel
    · rcases hcases with hold | hexcess | hinside
      · obtain ⟨l, hl, hm⟩ := hp.conflicting c.id hold
        have hfree : c.id ∈ s.free := by
          rcases mem_committed.mp hin with hin | hin
          · exact hgrown.free _ hin
          · exact hin.1
        exact absurd hfree (hp.taken l hl c.id hm)
      · obtain ⟨d, hd, e, he, hend⟩ := hs.excess c.id hexcess
        obtain rfl := Option.some.inj (hget.symm.trans hd)
        exact Or.inl (hover hc hend (Or.inr he))
      · obtain ⟨hf, d, hd, hends⟩ := mem_inside.mp hinside
        obtain ⟨hf, hnew⟩ := OrderedSet.mem_eraseAll.mp hf
        exact Or.inr ⟨seed, hs.start, hs.inside c.id hf d hd hends hnew⟩

theorem marksAgree_build {s : Sketch} (hg : Grounded s) (hb : s.built = false) :
    MarksAgree s.build := by
  refine build_induction hg hb (marksAgree_reset s)
    (fun _ _ _ h => ⟨h.overconstrained, h.held, h.conflicting⟩) fun t k seed ht ha hseed h => ?_
  obtain ⟨c, hc⟩ := ha.partitioned.exists_get? hseed
  exact h.commit ht ha.partitioned (grown_growFrom hseed hc k) (surveyed_growFrom ht hc k)

/-- Right after clusters are built, overconstrained elements and conflicting constraints point
at each other, but for constraints parallel to the one that their cluster grew from. -/
theorem Reachable.marksAgree_of_builds? {s b : Sketch} {c : Call} (hs : Reachable s)
    (hb : c.builds? s = some b) : b.MarksAgree := by
  obtain ⟨⟨t, ht, hbuilt, _, rfl⟩, _⟩ := builds?_eq_some hs.sound hb
  exact marksAgree_build ht hbuilt

/-- One conflicting constraint is in excess on the last element, the other parallel to the seed. -/
theorem marksAgree_overbraced :
    let b := (Call.runAll solveLinear Call.overbraced {}).build
    b.conflicting.toList = [⟨6⟩, ⟨5⟩] ∧
    b.elements.elements.map (·.level) = [.full, .full, .full, .over] ∧ b.MarksAgree := by
  intro b
  have hs := (Reachable.new {}).runAll solveLinear Call.overbraced
  have hb : (Call.runAll solveLinear Call.overbraced {}).built = false := by decide +kernel
  exact ⟨by decide +kernel, by decide +kernel,
    Reachable.marksAgree_of_builds? hs (Call.builds?_build hb)⟩

end Sketch

end RigidSketch
