import Mathlib.Logic.Relation
import Mathlib.Order.Bounds.Basic
import RigidSketch.Proofs.Construction

/-! What grows from a seed is the least set around it that free constraints cannot extend any
further. The order in which elements are taken in, and with it the order of the free
constraints, makes no difference to the set. -/

namespace RigidSketch

open LeastSquares (solveLinear)

theorem mem_pairs_of_ne {α : Type} {a b : α} {xs : List α} (ha : a ∈ xs) (hb : b ∈ xs)
    (hne : a ≠ b) : (a, b) ∈ pairs xs ∨ (b, a) ∈ pairs xs := by
  induction xs with
  | nil => cases ha
  | cons x xs ih =>
    simp only [pairs, List.mem_append, List.mem_map, Prod.mk.injEq]
    rcases List.mem_cons.mp ha with rfl | hax
    · have hbx := (List.mem_cons.mp hb).resolve_left hne.symm
      exact Or.inl (Or.inl ⟨b, hbx, rfl, rfl⟩)
    · rcases List.mem_cons.mp hb with rfl | hbx
      · exact Or.inr (Or.inl ⟨a, hax, rfl, rfl⟩)
      · rcases ih hax hbx with h | h
        · exact Or.inl (Or.inr h)
        · exact Or.inr (Or.inr h)

theorem Cluster.outsideEnd?_of_other? {k : Cluster} {c : Constraint} {e a : ElementId}
    (h : c.other? e = some a) (ha : a ∈ k.elements) (he : e ∉ k.elements) :
    k.outsideEnd? c = some e := by
  unfold Constraint.other? at h
  unfold outsideEnd?
  split at h
  · rename_i hfirst
    obtain rfl := Option.some.inj h
    rw [hfirst, decide_eq_false he, decide_eq_true ha]
  · split at h
    · rename_i hsecond
      obtain rfl := Option.some.inj h
      rw [hsecond, decide_eq_false he, decide_eq_true ha]
    · cases h

namespace Sketch

/-- Two different free constraints join the element to members of the set and can place it. -/
def Admits (s : Sketch) (S : Set ElementId) (e : ElementId) : Prop :=
  ∃ c₁ ∈ s.free, ∃ c₂ ∈ s.free, c₁ ≠ c₂ ∧ (∃ a ∈ S, s.Joins c₁ e a) ∧
    (∃ a ∈ S, s.Joins c₂ e a) ∧ s.CanPlace e c₁ c₂

def Saturated (s : Sketch) (S : Set ElementId) : Prop := ∀ e, s.Admits S e → e ∈ S

theorem Admits.mono {s : Sketch} {S T : Set ElementId} (h : S ⊆ T) {e : ElementId}
    (he : s.Admits S e) : s.Admits T e := by
  obtain ⟨c₁, h₁, c₂, h₂, hne, ⟨a₁, ha₁, hj₁⟩, ⟨a₂, ha₂, hj₂⟩, hcan⟩ := he
  exact ⟨c₁, h₁, c₂, h₂, hne, ⟨a₁, h ha₁, hj₁⟩, ⟨a₂, h ha₂, hj₂⟩, hcan⟩

theorem saturated_congr {s t : Sketch} (he : t.elements = s.elements)
    (hc : t.constraints = s.constraints) (hf : ∀ id, id ∈ t.free ↔ id ∈ s.free)
    {S : Set ElementId} : t.Saturated S ↔ s.Saturated S := by
  simp only [Saturated, Admits, Joins, CanPlace, isOfKind, he, hc, hf]

theorem admits_of_admission? {s : Sketch} {k : Cluster} {a : Admission}
    (h : s.admission? k = some a) : s.Admits {e | e ∈ k.elements} a.element := by
  have hfirst : a.first ∈ a.constraints := List.mem_cons_self
  have hsecond : a.second ∈ a.constraints := List.mem_cons_of_mem _ List.mem_cons_self
  have hfree : ∀ id ∈ a.constraints, id ∈ s.free := fun id hid =>
    (List.mem_filter.mp (mem_links.mp (mem_links_of_admission? h hid)).1).1
  have hne : a.first ≠ a.second := by
    intro heq
    exact (List.nodup_cons.mp (nodup_of_admission? h)).1 (heq ▸ List.mem_cons_self)
  exact ⟨a.first, hfree _ hfirst, a.second, hfree _ hsecond, hne, joins_of_admission? h hfirst,
    joins_of_admission? h hsecond, canPlace_of_admission? h⟩

theorem usablePair?_ne_none {s : Sketch} {e : ElementId} {ids : List ConstraintId}
    {c₁ c₂ : ConstraintId} (h₁ : c₁ ∈ ids) (h₂ : c₂ ∈ ids) (hne : c₁ ≠ c₂)
    (hcan : s.CanPlace e c₁ c₂) : s.usablePair? e ids ≠ none := by
  obtain ⟨kind, hkind, hline⟩ := hcan
  obtain ⟨x, hx, rfl⟩ := Option.map_eq_some_iff.mp hkind
  intro hnone
  simp only [usablePair?, hx, List.find?_eq_none] at hnone
  have hplaces : ∀ p ∈ [(c₁, c₂), (c₂, c₁)], (decide (x.shape.kind ≠ .line) ||
      !(s.isOfKind .angle p.1 && s.isOfKind .angle p.2)) = true := by
    intro p hp
    by_cases hk : x.shape.kind = .line
    · rcases List.mem_pair.mp hp with rfl | rfl <;> rcases hline hk with h | h <;> simp [h]
    · simp [hk]
  rcases mem_pairs_of_ne h₁ h₂ hne with hp | hp
  · exact hnone _ hp (hplaces _ (by simp))
  · exact hnone _ hp (hplaces _ (by simp))

/-- Where nothing is admitted any more, nothing can be. -/
theorem saturated_of_admission?_eq_none {s : Sketch} {k : Cluster}
    (hin : ∀ id ∈ k.constraints, ∀ c, s.constraints.get? id = some c →
      ∀ e ∈ c.ends, e ∈ k.elements)
    (h : s.admission? k = none) : s.Saturated {e | e ∈ k.elements} := by
  rintro e ⟨c₁, h₁, c₂, h₂, hne, ⟨a₁, ha₁, hj₁⟩, ⟨a₂, ha₂, hj₂⟩, hcan⟩
  by_contra he
  have hlink : ∀ {id a}, id ∈ s.free → a ∈ k.elements → s.Joins id e a →
      (e, id) ∈ s.links k := by
    rintro id a hid ha ⟨c, hc, hother⟩
    have hend : e ∈ c.ends := (Constraint.mem_ends_of_other? hother).mpr (Or.inl rfl)
    have hout : id ∉ k.constraints := fun hm => he (hin id hm c hc e hend)
    refine mem_links.mpr ⟨List.mem_filter.mpr ⟨hid, by simpa using hout⟩, c, hc, ?_⟩
    exact Cluster.outsideEnd?_of_other? hother ha he
  have hids : ∀ {id}, (e, id) ∈ s.links k → id ∈ ((s.links k).filter (·.1 = e)).map (·.2) := by
    intro id hid
    exact List.mem_map.mpr ⟨(e, id), List.mem_filter.mpr ⟨hid, by simp⟩, rfl⟩
  have hl₁ := hlink h₁ ha₁ hj₁
  have hcandidate : e ∈ ((s.links k).map (·.1)).eraseDups :=
    List.mem_eraseDups.mpr (List.mem_map.mpr ⟨(e, c₁), hl₁, rfl⟩)
  have hnone := List.findSome?_eq_none_iff.mp h e hcandidate
  exact usablePair?_ne_none (hids hl₁) (hids (hlink h₂ ha₂ hj₂)) hne hcan
    (Option.map_eq_none_iff.mp hnone)

theorem admission?_grow (s : Sketch) (g : Growth) : s.admission? (s.grow g).cluster = none := by
  fun_induction Sketch.grow s g with
  | case1 g a _ ih => exact ih
  | case2 g hnone => exact hnone

theorem mem_elements_grow {s : Sketch} {g : Growth} {e : ElementId}
    (h : e ∈ g.cluster.elements) : e ∈ (s.grow g).cluster.elements := by
  fun_induction Sketch.grow s g with
  | case1 g a _ ih => exact ih (by simp [Growth.take, h])
  | case2 => exact h

theorem Saturated.mem_of_mem_grow {s : Sketch} {S : Set ElementId} (hS : s.Saturated S)
    {g : Growth} (hg : ∀ e ∈ g.cluster.elements, e ∈ S) :
    ∀ e ∈ (s.grow g).cluster.elements, e ∈ S := by
  fun_induction Sketch.grow s g with
  | case1 g a ha ih =>
    apply ih
    intro e he
    rcases OrderedSet.mem_insert.mp he with he | rfl
    · exact hg e he
    · exact hS a.element ((admits_of_admission? ha).mono hg)
  | case2 => exact hg

theorem isLeast_growFrom {s : Sketch} {seed : ConstraintId} {c : Constraint}
    (hs : seed ∈ s.free) (hc : s.constraints.get? seed = some c) (k : ClusterId) :
    IsLeast {S | (∀ e ∈ c.ends, e ∈ S) ∧ s.Saturated S}
      {e | e ∈ (s.growFrom k seed).cluster.elements} := by
  have hseed : ∀ e, e ∈ (s.seedGrowth k seed).cluster.elements ↔ e ∈ c.ends := by
    intro e
    simp [seedGrowth, hc]
  refine ⟨⟨?_, ?_⟩, ?_⟩
  · intro e he
    exact mem_elements_grow ((hseed e).mpr he)
  · exact saturated_of_admission?_eq_none (grown_growFrom hs hc k).inside (admission?_grow s _)
  · rintro S ⟨hends, hS⟩
    exact hS.mem_of_mem_grow fun e he => hends e ((hseed e).mp he)

theorem reserve_frame (s : Sketch) (spare : Option ClusterId) :
    (s.reserve spare).1.elements = s.elements ∧
      (s.reserve spare).1.constraints = s.constraints ∧
      (s.reserve spare).1.clusters = s.clusters := by
  cases spare <;> exact ⟨rfl, rfl, rfl⟩

theorem mem_constraints_committed {s : Sketch} {g : Growth} (hg : Grown s g)
    (hget : ∀ id ∈ s.free, ∃ c, s.constraints.get? id = some c) {id : ConstraintId} :
    id ∈ (s.committed g).constraints ↔ id ∈ s.free ∧
      ∃ c, s.constraints.get? id = some c ∧ ∀ e ∈ c.ends, e ∈ g.cluster.elements := by
  rw [mem_committed]
  refine ⟨?_, Or.inr⟩
  rintro (hid | h)
  · obtain ⟨c, hc⟩ := hget id (hg.free id hid)
    exact ⟨hg.free id hid, c, hc, hg.inside id hid c hc⟩
  · exact h

end Sketch

/-- The clusters so far, the seeds put aside and the identity left over for the next cluster. -/
structure Draft where
  sketch : Sketch
  aside : List ConstraintId := []
  spare : Option ClusterId := none

namespace Draft

def growth (d : Draft) (seed : ConstraintId) : Growth :=
  let r := d.sketch.reserve d.spare
  r.1.growFrom r.2 seed

/-- The sketch with what grows from a seed as its next cluster. -/
def commit (d : Draft) (seed : ConstraintId) : Sketch :=
  (d.sketch.reserve d.spare).1.commit (d.growth seed)

/-- The draft after one more seed, unless every element is in a cluster or no seed is left. -/
def next? (d : Draft) : Option Draft :=
  if d.sketch.elements.elements.all (·.isClaimed) then none
  else
    (d.sketch.seed? d.aside).map fun p =>
      if (d.growth p.1).cluster.steps.length = 1 ∧ p.2 = false then
        let r := d.sketch.reserve d.spare
        ⟨r.1, p.1 :: d.aside, some r.2⟩
      else ⟨d.commit p.1, d.aside, none⟩

def finish (d : Draft) : Sketch := d.sketch.commitAll d.aside d.spare

/-- The same draft with its free constraints in another order. -/
def reorder (d : Draft) (free : OrderedSet ConstraintId) : Draft :=
  { d with sketch := { d.sketch with free } }

abbrev Leads : Draft → Draft → Prop := Relation.ReflTransGen fun d d' => d.next? = some d'

theorem finish_eq (d : Draft) : d.finish = d.next?.elim d.sketch finish := by
  unfold finish next?
  rw [Sketch.commitAll]
  split
  · rfl
  · split
    · rename_i hseed
      rw [hseed]
      rfl
    · rename_i seed retry hseed
      rw [hseed, Option.map_some, Option.elim_some]
      by_cases hlone : (d.growth seed).cluster.steps.length = 1 ∧ retry = false
      · rw [if_pos hlone]
        exact dif_pos hlone
      · rw [if_neg hlone]
        exact dif_neg hlone

theorem Leads.finish_eq {d d' : Draft} (h : d.Leads d') : d'.finish = d.finish := by
  induction h with
  | refl => rfl
  | @tail b c _ hnext ih => rw [← ih, b.finish_eq, hnext, Option.elim_some]

/-- What building keeps of a draft. -/
structure Kept (base : Nat) (d : Draft) : Prop where
  grounded : Sketch.Grounded d.sketch
  assembled : Sketch.Assembled base d.sketch
  vacant : ∀ k, d.spare = some k → d.sketch.Vacant base k

theorem Kept.next {base : Nat} {d d' : Draft} (h : d.Kept base) (hd : d.next? = some d') :
    d'.Kept base := by
  obtain ⟨hr, hv⟩ := h.assembled.reserve h.vacant
  have hg := h.grounded.congr (Sketch.sameProblem_reserve d.sketch d.spare)
  unfold next? at hd
  split at hd
  · cases hd
  · obtain ⟨⟨seed, retry⟩, hseed, rfl⟩ := Option.map_eq_some_iff.mp hd
    have hfree : seed ∈ (d.sketch.reserve d.spare).1.free := by
      simpa only [Sketch.free_reserve] using (Sketch.mem_free_of_seed? hseed).1
    dsimp only
    split
    · exact ⟨hg, hr, fun k hk => Option.some.inj hk ▸ hv⟩
    · exact ⟨hg.congr (Sketch.sameProblem_commit _ _), hr.commit_growFrom hg hv hfree, nofun⟩

theorem Kept.leads {base : Nat} {d d' : Draft} (h : d.Kept base) (hd : d.Leads d') :
    d'.Kept base := by
  induction hd with
  | refl => exact h
  | tail _ hnext ih => exact ih.next hnext

theorem Kept.exists_get? {base : Nat} {d : Draft} (h : d.Kept base) {id : ConstraintId}
    (hid : id ∈ d.sketch.free) : ∃ c, d.sketch.constraints.get? id = some c :=
  h.assembled.partitioned.exists_get? hid

theorem isLeast_elements {d : Draft} {seed : ConstraintId} {c : Constraint}
    (hs : seed ∈ d.sketch.free) (hc : d.sketch.constraints.get? seed = some c) :
    IsLeast {S | (∀ e ∈ c.ends, e ∈ S) ∧ d.sketch.Saturated S}
      {e | e ∈ (d.growth seed).cluster.elements} := by
  obtain ⟨he, hcs, _⟩ := Sketch.reserve_frame d.sketch d.spare
  have hfree := Sketch.free_reserve d.sketch d.spare
  have hsat : ∀ S, (d.sketch.reserve d.spare).1.Saturated S ↔ d.sketch.Saturated S := fun S =>
    Sketch.saturated_congr he hcs fun id => by rw [hfree]
  have hleast := Sketch.isLeast_growFrom (s := (d.sketch.reserve d.spare).1) (hfree.symm ▸ hs)
    (hcs.symm ▸ hc) (d.sketch.reserve d.spare).2
  simp only [hsat] at hleast
  exact hleast

theorem mem_growth_reorder {d : Draft} {free : OrderedSet ConstraintId}
    (hfree : ∀ id, id ∈ free ↔ id ∈ d.sketch.free) {seed : ConstraintId} {c : Constraint}
    (hs : seed ∈ d.sketch.free) (hc : d.sketch.constraints.get? seed = some c) (e : ElementId) :
    e ∈ ((d.reorder free).growth seed).cluster.elements ↔
      e ∈ (d.growth seed).cluster.elements := by
  have hsat : ∀ S, (d.reorder free).sketch.Saturated S ↔ d.sketch.Saturated S := fun S =>
    Sketch.saturated_congr (s := d.sketch) (t := (d.reorder free).sketch) rfl rfl hfree
  have hleast := isLeast_elements (d := d.reorder free) ((hfree seed).mpr hs) hc
  simp only [hsat] at hleast
  exact Set.ext_iff.mp (hleast.unique (isLeast_elements hs hc)) e

theorem Kept.clusters_commit {base : Nat} {d : Draft} (h : d.Kept base) {seed : ConstraintId}
    (hs : seed ∈ d.sketch.free) :
    ∃ k, (d.commit seed).clusters = d.sketch.clusters ++ [k] ∧
      k.elements = (d.growth seed).cluster.elements ∧
      ∀ id, id ∈ k.constraints ↔ id ∈ d.sketch.free ∧
        ∃ c, d.sketch.constraints.get? id = some c ∧ ∀ e ∈ c.ends, e ∈ k.elements := by
  obtain ⟨_, hcs, hclusters⟩ := Sketch.reserve_frame d.sketch d.spare
  have hfree := Sketch.free_reserve d.sketch d.spare
  obtain ⟨c, hc⟩ := h.exists_get? hs
  have hgrown := Sketch.grown_growFrom (hfree.symm ▸ hs) (hcs.symm ▸ hc)
    (d.sketch.reserve d.spare).2
  have hget : ∀ id ∈ (d.sketch.reserve d.spare).1.free,
      ∃ c, (d.sketch.reserve d.spare).1.constraints.get? id = some c := by
    intro id hid
    rw [hcs]
    exact h.exists_get? (hfree ▸ hid)
  refine ⟨(d.sketch.reserve d.spare).1.committed (d.growth seed), ?_, rfl, fun id => ?_⟩
  · rw [commit, Sketch.clusters_commit, hclusters]
  · rw [growth, Sketch.mem_constraints_committed hgrown hget, hcs, hfree]
    rfl

end Draft

namespace Sketch

/-- Where building starts. -/
def draft (s : Sketch) : Draft := ⟨s.reset, [], none⟩

theorem Grounded.kept_draft {s : Sketch} (h : Grounded s) : s.draft.Kept s.nextCluster :=
  ⟨h.reset, assembled_reset s, nofun⟩

/-- At every moment of building, what grows from a free constraint is the least saturated set
with its ends, in whatever order the free constraints are, and the cluster then takes every free
constraint inside the set. -/
theorem Reachable.isLeast_growth {s : Sketch} (hs : Reachable s) {d : Draft}
    (hd : s.draft.Leads d) {seed : ConstraintId} (hseed : seed ∈ d.sketch.free) :
    (s.built = false → s.build = { d.finish with built := true }) ∧
    (∃ c, d.sketch.constraints.get? seed = some c ∧
      IsLeast {S | (∀ e ∈ c.ends, e ∈ S) ∧ d.sketch.Saturated S}
        {e | e ∈ (d.growth seed).cluster.elements}) ∧
    (∀ free : OrderedSet ConstraintId, free.toList.Perm d.sketch.free.toList →
      ∀ e, e ∈ ((d.reorder free).growth seed).cluster.elements ↔
        e ∈ (d.growth seed).cluster.elements) ∧
    ∃ k, (d.commit seed).clusters = d.sketch.clusters ++ [k] ∧
      k.elements = (d.growth seed).cluster.elements ∧
      ∀ id, id ∈ k.constraints ↔ id ∈ d.sketch.free ∧
        ∃ c, d.sketch.constraints.get? id = some c ∧ ∀ e ∈ c.ends, e ∈ k.elements := by
  have hkept := hs.sound.grounded.kept_draft.leads hd
  obtain ⟨c, hc⟩ := hkept.exists_get? hseed
  refine ⟨fun hb => ?_, ⟨c, hc, Draft.isLeast_elements hseed hc⟩, fun free hperm => ?_,
    hkept.clusters_commit hseed⟩
  · rw [build_eq hb, hd.finish_eq]
    rfl
  · exact Draft.mem_growth_reorder (fun id => hperm.mem_iff) hseed hc

/-- Once the first triangle is a cluster, the second one grows, and no bar lets it go on. -/
theorem isLeast_growth_prism :
    let d := (Call.runAll solveLinear Call.prism {}).draft.next?.getD
      (Call.runAll solveLinear Call.prism {}).draft
    d.sketch.clusters.length = 1 ∧ (⟨3⟩ : ConstraintId) ∈ d.sketch.free ∧
    (d.growth ⟨3⟩).cluster.elements.toList = [⟨3⟩, ⟨4⟩, ⟨5⟩] ∧
    ∃ c, d.sketch.constraints.get? ⟨3⟩ = some c ∧
      IsLeast {S | (∀ e ∈ c.ends, e ∈ S) ∧ d.sketch.Saturated S}
        {e | e ∈ (d.growth ⟨3⟩).cluster.elements} := by
  intro d
  have hs := (Reachable.new {}).runAll solveLinear Call.prism
  have hsome : (Call.runAll solveLinear Call.prism {}).draft.next?.isSome = true := by
    decide +kernel
  have hnext : (Call.runAll solveLinear Call.prism {}).draft.next? = some d := by
    obtain ⟨d', hd'⟩ := Option.isSome_iff_exists.mp hsome
    simp only [d, hd', Option.getD_some]
  have hseed : (⟨3⟩ : ConstraintId) ∈ d.sketch.free := by decide +kernel
  exact ⟨by decide +kernel, hseed, by decide +kernel,
    (Reachable.isLeast_growth hs (.single hnext) hseed).2.1⟩

end Sketch

end RigidSketch
