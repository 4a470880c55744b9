import RigidSketch.Proofs.Problem
import RigidSketch.Sketch.Partition

/-! What a cluster holds once it has grown: free constraints with both ends inside, and
elements that these constraints are on. -/

namespace RigidSketch

theorem Cluster.outsideEnd?_eq_some {k : Cluster} {c : Constraint} {e : ElementId}
    (h : k.outsideEnd? c = some e) :
    (c.first ∈ k.elements ∧ e = c.second) ∨ (c.second ∈ k.elements ∧ e = c.first) := by
  unfold outsideEnd? at h
  split at h
  · rename_i h₁ _
    exact Or.inl ⟨of_decide_eq_true h₁, (Option.some.inj h).symm⟩
  · rename_i _ h₂
    exact Or.inr ⟨of_decide_eq_true h₂, (Option.some.inj h).symm⟩
  · cases h

/-- The steps place elements of the cluster, the first two by a constraint of the cluster. -/
structure Cluster.Founded (k : Cluster) : Prop where
  seeds : ∀ c, .seed c ∈ k.steps → c ∈ k.constraints
  places : ∀ e c₁ c₂, .place e c₁ c₂ ∈ k.steps → e ∈ k.elements

namespace Sketch

theorem mem_links {s : Sketch} {k : Cluster} {e : ElementId} {id : ConstraintId} :
    (e, id) ∈ s.links k ↔
      id ∈ s.remaining k ∧ ∃ c, s.constraints.get? id = some c ∧ k.outsideEnd? c = some e := by
  unfold links
  rw [List.mem_filterMap]
  constructor
  · rintro ⟨id', hid, h⟩
    obtain ⟨e', he, heq⟩ := Option.map_eq_some_iff.mp h
    obtain ⟨c, hc, hout⟩ := Option.bind_eq_some_iff.mp he
    simp only [Prod.mk.injEq] at heq
    obtain ⟨rfl, rfl⟩ := heq
    exact ⟨hid, c, hc, hout⟩
  · rintro ⟨hid, c, hc, hout⟩
    exact ⟨id, hid, by simp [hc, hout]⟩

theorem mem_links_of_admission? {s : Sketch} {k : Cluster} {a : Admission}
    (h : s.admission? k = some a) {id : ConstraintId} (hid : id ∈ a.constraints) :
    (a.element, id) ∈ s.links k := by
  obtain ⟨e, _, he⟩ := List.exists_of_findSome?_eq_some h
  obtain ⟨p, hp, rfl⟩ := Option.map_eq_some_iff.mp he
  have hpair := mem_of_usablePair? hp
  have hmem : id ∈ ((s.links k).filter (·.1 = e)).map (·.2) := by
    rcases List.mem_cons.mp hid with rfl | hid
    · exact hpair.1
    · rcases List.mem_cons.mp hid with rfl | hid
      · exact hpair.2
      · exact (List.mem_filter.mp hid).1
  obtain ⟨q, hq, rfl⟩ := List.mem_map.mp hmem
  obtain ⟨hq, hqe⟩ := List.mem_filter.mp hq
  have : q.1 = e := by simpa using hqe
  exact this ▸ hq

/-- A growth has taken free constraints only, and no element without one of these. -/
structure Grown (s : Sketch) (g : Growth) : Prop where
  free : ∀ id ∈ g.cluster.constraints, id ∈ s.free
  inside : ∀ id ∈ g.cluster.constraints, ∀ c, s.constraints.get? id = some c →
    ∀ e ∈ c.ends, e ∈ g.cluster.elements
  touched : ∀ e ∈ g.cluster.elements, ∃ c ∈ s.constraints.constraints, e ∈ c.ends
  excess : ∀ id ∈ g.excess, id ∈ g.cluster.constraints
  founded : g.cluster.Founded

theorem Grown.take {s : Sketch} {g : Growth} {a : Admission} (h : Grown s g)
    (ha : s.admission? g.cluster = some a) : Grown s (g.take a) := by
  have hlink : ∀ id ∈ a.constraints, id ∈ s.remaining g.cluster ∧
      ∃ c, s.constraints.get? id = some c ∧ g.cluster.outsideEnd? c = some a.element :=
    fun id hid => mem_links.mp (mem_links_of_admission? ha hid)
  have hcons : ∀ id, id ∈ (g.take a).cluster.constraints ↔
      id ∈ g.cluster.constraints ∨ id ∈ a.constraints := by
    intro id
    simp [Growth.take]
  have helem : ∀ e, e ∈ (g.take a).cluster.elements ↔ e ∈ g.cluster.elements ∨ e = a.element := by
    intro e
    simp [Growth.take]
  refine ⟨?_, ?_, ?_, ?_, ?_, ?_⟩
  · intro id hid
    rcases (hcons id).mp hid with hid | hid
    · exact h.free id hid
    · exact (List.mem_filter.mp (hlink id hid).1).1
  · intro id hid c hc e he
    rw [helem]
    rcases (hcons id).mp hid with hid | hid
    · exact Or.inl (h.inside id hid c hc e he)
    · -- one end is in the cluster and the other is the element that joins it
      obtain ⟨_, d, hd, hout⟩ := hlink id hid
      obtain rfl := Option.some.inj (hc.symm.trans hd)
      rw [Constraint.mem_ends] at he
      rcases Cluster.outsideEnd?_eq_some hout with ⟨hf, hs⟩ | ⟨hs, hf⟩
      · rcases he with rfl | rfl
        · exact Or.inl hf
        · exact Or.inr hs.symm
      · rcases he with rfl | rfl
        · exact Or.inr hf.symm
        · exact Or.inl hs
  · intro e he
    rcases (helem e).mp he with he | rfl
    · exact h.touched e he
    · obtain ⟨_, c, hc, hout⟩ := hlink a.first (by simp [Admission.constraints])
      refine ⟨c, (ConstraintTable.mem_of_get? hc).1, Constraint.mem_ends.mpr ?_⟩
      rcases Cluster.outsideEnd?_eq_some hout with ⟨_, hs⟩ | ⟨_, hf⟩
      · exact Or.inr hs
      · exact Or.inl hf
  · intro id hid
    rw [hcons]
    rcases List.mem_append.mp hid with hid | hid
    · exact Or.inl (h.excess id hid)
    · exact Or.inr (by simp [Admission.constraints, hid])
  · intro c hc
    rw [hcons]
    rcases List.mem_append.mp hc with hc | hc
    · exact Or.inl (h.founded.seeds c hc)
    · simp at hc
  · intro e c₁ c₂ he
    rw [helem]
    rcases List.mem_append.mp he with he | he
    · exact Or.inl (h.founded.places e c₁ c₂ he)
    · simp only [List.mem_singleton, GrowthStep.place.injEq] at he
      exact Or.inr he.1

theorem Grown.grow {s : Sketch} {g : Growth} (h : Grown s g) : Grown s (s.grow g) := by
  fun_induction Sketch.grow s g with
  | case1 g a ha ih => exact ih (h.take ha)
  | case2 => exact h

theorem grown_growFrom {s : Sketch} {seed : ConstraintId} {c : Constraint} (hs : seed ∈ s.free)
    (hc : s.constraints.get? seed = some c) (k : ClusterId) : Grown s (s.growFrom k seed) := by
  apply Grown.grow
  have hcons : ∀ id, id ∈ (s.seedGrowth k seed).cluster.constraints ↔ id = seed := by
    intro id
    simp [seedGrowth]
  have helem : ∀ e, e ∈ (s.seedGrowth k seed).cluster.elements ↔ e ∈ c.ends := by
    intro e
    simp [seedGrowth, hc]
  refine ⟨?_, ?_, ?_, ?_, ?_, ?_⟩
  · intro id hid
    exact (hcons id).mp hid ▸ hs
  · intro id hid d hd e he
    rw [(hcons id).mp hid, hc] at hd
    exact (helem e).mpr (Option.some.inj hd ▸ he)
  · intro e he
    exact ⟨c, (ConstraintTable.mem_of_get? hc).1, (helem e).mp he⟩
  · intro id hid
    simp [seedGrowth] at hid
  · intro d hd
    rw [hcons]
    simpa [seedGrowth] using hd
  · intro e c₁ c₂ he
    simp [seedGrowth] at he

theorem id_grow (s : Sketch) (g : Growth) : (s.grow g).cluster.id = g.cluster.id := by
  fun_induction Sketch.grow s g with
  | case1 g a _ ih => exact ih
  | case2 => rfl

theorem id_growFrom (s : Sketch) (k : ClusterId) (seed : ConstraintId) :
    (s.growFrom k seed).cluster.id = k :=
  id_grow s _

/-- When no seed is left, every free constraint is between elements of clusters. -/
theorem isClaimed_of_seed?_eq_none {s : Sketch} {cancelled : List ConstraintId}
    (h : s.seed? cancelled = none) {id : ConstraintId} (hid : id ∈ s.free) {c : Constraint}
    (hc : s.constraints.get? id = some c) {e : ElementId} (he : e ∈ c.ends) :
    s.elements.isClaimed e = true := by
  unfold seed? at h
  split at h
  · cases h
  · rename_i hpref
    by_cases hcan : id ∈ cancelled
    · rw [Option.map_eq_none_iff, List.find?_eq_none] at h
      have hnot := h id (List.mem_filter.mpr ⟨hid, by simpa using hcan⟩)
      simp only [hc, List.any_eq_true, not_exists, not_and, Bool.not_eq_true] at hnot
      simpa using hnot e he
    · -- the first constraint not put aside would be a seed
      have hnil : (s.untried cancelled).filterMap s.constraints.get? = [] := by
        simp only [preferred?, Option.or_eq_none_iff] at hpref
        exact List.head?_eq_none_iff.mp hpref.2.2.2
      have hmem : c ∈ (s.untried cancelled).filterMap s.constraints.get? :=
        List.mem_filterMap.mpr ⟨id, List.mem_filter.mpr ⟨hid, by simpa using hcan⟩, hc⟩
      simp [hnil] at hmem

end Sketch

end RigidSketch
