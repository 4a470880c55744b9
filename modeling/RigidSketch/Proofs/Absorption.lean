import Mathlib.Data.List.Pairwise
import RigidSketch.Proofs.Decomposition
import RigidSketch.Sketch.Join.Basic

/-! One cluster absorbs another. The decomposition stays sound: what the two clusters held
is held by one, with every free constraint that has both ends in it now. -/

namespace RigidSketch

namespace Sketch

theorem nodup_clusterIds {s : Sketch} (hn : Numbered s.clusterNumbers s.nextCluster) :
    (s.clusters.map (·.id)).Nodup :=
  nodup_of_numbered hn fun _ _ he => congrArg ClusterId.number he

theorem cluster?_eq_some_iff {s : Sketch} (hn : Numbered s.clusterNumbers s.nextCluster)
    {id : ClusterId} {k : Cluster} : s.cluster? id = some k ↔ k ∈ s.clusters ∧ k.id = id :=
  find?_key_eq_some_iff (nodup_clusterIds hn)

theorem cluster_ext {s : Sketch} (hn : Numbered s.clusterNumbers s.nextCluster) {k l : Cluster}
    (hk : k ∈ s.clusters) (hl : l ∈ s.clusters) (h : k.id = l.id) : k = l := by
  have hk' := (cluster?_eq_some_iff hn).mpr ⟨hk, h⟩
  have hl' := (cluster?_eq_some_iff hn).mpr ⟨hl, rfl⟩
  exact Option.some.inj (hk'.symm.trans hl')

def Spans (s : Sketch) (a b : Cluster) (id : ConstraintId) : Prop :=
  ∃ c, s.constraints.get? id = some c ∧ ∀ e ∈ c.ends, e ∈ a.elements ∨ e ∈ b.elements

/-- Two clusters that are to be joined by some free constraints. -/
structure Joinable (s : Sketch) (a b : Cluster) (links : List ConstraintId) : Prop where
  anchor : a ∈ s.clusters
  moving : b ∈ s.clusters
  distinct : a.id ≠ b.id
  links : ∀ id ∈ links, id ∈ s.free ∧ s.Spans a b id

/-- The cluster that two are joined into, before it is searched for constraints inside. -/
def merged (a b : Cluster) (links : List ConstraintId) : Cluster :=
  { a with
    elements := a.elements.insertAll b.elements.toList
    constraints := (a.constraints.insertAll b.constraints.toList).insertAll links }

def enclosed (s : Sketch) (a b : Cluster) (links : List ConstraintId) : List ConstraintId :=
  { s with free := s.free.eraseAll links }.inside (merged a b links)

def joined (s : Sketch) (a b : Cluster) (links : List ConstraintId) : Cluster :=
  { merged a b links with
    constraints := (merged a b links).constraints.insertAll (s.enclosed a b links) }

/-- What comes to lie inside is conflicting if the joined cluster does not see it satisfied. -/
theorem absorb_eq {s : Sketch} {a b : Cluster} {links : List ConstraintId}
    (hn : Numbered s.clusterNumbers s.nextCluster) (h : s.Joinable a b links) :
    ∃ unmet, (∀ id, id ∈ unmet ↔ id ∈ s.enclosed a b links ∧
        (s.absorb a.id b.id links).isMet ((s.absorb a.id b.id links).residualBy
          ((s.absorb a.id b.id links).shapeIn? a.id) id) = false) ∧
      s.absorb a.id b.id links =
      { s with
        clusters := (s.clusters.eraseP (·.id = b.id)).map fun l =>
          if l.id = a.id then s.joined a b links else l
        elements := s.elements.mapWhere (· ∈ b.elements) (·.reassign b.id a.id)
        free := (s.free.eraseAll links).eraseAll (s.enclosed a b links)
        conflicting := s.conflicting.insertAll unmet } := by
  let t : Sketch := { s with
    clusters := s.clusters.eraseP (·.id = b.id)
    elements := s.elements.mapWhere (· ∈ b.elements) (·.reassign b.id a.id)
    free := s.free.eraseAll links }
  have hb : s.cluster? b.id = some b := (cluster?_eq_some_iff hn).mpr ⟨h.moving, rfl⟩
  have ht : Numbered t.clusterNumbers t.nextCluster :=
    hn.sublist (List.eraseP_sublist.map _)
  have ha : t.cluster? a.id = some a := by
    refine (cluster?_eq_some_iff ht).mpr ⟨?_, rfl⟩
    exact (List.mem_eraseP_of_neg (by simpa using h.distinct)).mpr h.anchor
  have heq : s.absorb a.id b.id links =
      { s with
        clusters := (s.clusters.eraseP (·.id = b.id)).map fun l =>
          if l.id = a.id then s.joined a b links else l
        elements := s.elements.mapWhere (· ∈ b.elements) (·.reassign b.id a.id)
        free := (s.free.eraseAll links).eraseAll (s.enclosed a b links)
        conflicting := s.conflicting.insertAll ((s.enclosed a b links).filter fun id =>
          !t.isMet (t.residualBy (t.shapeIn? a.id) id)) } := by
    unfold absorb
    rw [hb]
    dsimp only
    rw [show Sketch.cluster? _ a.id = some a from ha]
    rfl
  refine ⟨_, fun id => ?_, heq⟩
  rw [List.mem_filter, heq, Bool.not_eq_true']
  rfl

theorem mem_elements_joined {s : Sketch} {a b : Cluster} {links : List ConstraintId}
    {e : ElementId} : e ∈ (s.joined a b links).elements ↔ e ∈ a.elements ∨ e ∈ b.elements := by
  rw [joined, merged, OrderedSet.mem_insertAll]
  rfl

theorem mem_enclosed {s : Sketch} {a b : Cluster} {links : List ConstraintId}
    {id : ConstraintId} :
    id ∈ s.enclosed a b links ↔ (id ∈ s.free ∧ id ∉ links) ∧ s.Spans a b id := by
  rw [enclosed, mem_inside, OrderedSet.mem_eraseAll]
  simp only [merged, OrderedSet.mem_insertAll]
  rfl

theorem mem_constraints_joined {s : Sketch} {a b : Cluster} {links : List ConstraintId}
    (h : s.Joinable a b links) {id : ConstraintId} :
    id ∈ (s.joined a b links).constraints ↔
      (id ∈ a.constraints ∨ id ∈ b.constraints) ∨ (id ∈ s.free ∧ s.Spans a b id) := by
  simp only [joined, merged, OrderedSet.mem_insertAll, mem_enclosed, or_assoc]
  refine or_congr_right (or_congr_right ?_)
  constructor
  · rintro (hl | hl)
    · exact h.links id hl
    · exact ⟨hl.1.1, hl.2⟩
  · rintro ⟨hf, hs⟩
    by_cases hl : id ∈ links
    · exact Or.inl hl
    · exact Or.inr ⟨⟨hf, hl⟩, hs⟩

section

variable {s : Sketch} {a b : Cluster} {links : List ConstraintId}

theorem clusters_absorb (hn : Numbered s.clusterNumbers s.nextCluster)
    (h : s.Joinable a b links) :
    (s.absorb a.id b.id links).clusters = (s.clusters.filter (·.id ≠ b.id)).map fun l =>
      if l.id = a.id then s.joined a b links else l := by
  obtain ⟨_, _, heq⟩ := absorb_eq hn h
  rw [heq, eraseP_key_eq_filter (nodup_clusterIds hn)]

theorem mem_clusters_absorb (hn : Numbered s.clusterNumbers s.nextCluster)
    (h : s.Joinable a b links) {k : Cluster} :
    k ∈ (s.absorb a.id b.id links).clusters ↔
      k = s.joined a b links ∨ (k ∈ s.clusters ∧ k.id ≠ a.id ∧ k.id ≠ b.id) := by
  rw [clusters_absorb hn h, List.mem_map]
  constructor
  · rintro ⟨l, hl, rfl⟩
    obtain ⟨hm, hne⟩ := List.mem_filter.mp hl
    by_cases hid : l.id = a.id
    · exact Or.inl (if_pos hid)
    · rw [if_neg hid]
      exact Or.inr ⟨hm, hid, by simpa using hne⟩
  · rintro (rfl | ⟨hm, ha, hb⟩)
    · exact ⟨a, List.mem_filter.mpr ⟨h.anchor, by simpa using h.distinct⟩, if_pos rfl⟩
    · exact ⟨k, List.mem_filter.mpr ⟨hm, by simpa using hb⟩, if_neg ha⟩

theorem mem_free_absorb (hn : Numbered s.clusterNumbers s.nextCluster)
    (h : s.Joinable a b links) {id : ConstraintId} :
    id ∈ (s.absorb a.id b.id links).free ↔ id ∈ s.free ∧ ¬ s.Spans a b id := by
  obtain ⟨_, _, heq⟩ := absorb_eq hn h
  rw [heq]
  simp only [OrderedSet.mem_eraseAll, mem_enclosed]
  constructor
  · rintro ⟨⟨hf, hl⟩, hin⟩
    exact ⟨hf, fun hs => hin ⟨⟨hf, hl⟩, hs⟩⟩
  · rintro ⟨hf, hs⟩
    exact ⟨⟨hf, fun hl => hs (h.links id hl).2⟩, fun hin => hs hin.2⟩

theorem mem_conflicting_absorb (hn : Numbered s.clusterNumbers s.nextCluster)
    (h : s.Joinable a b links) {id : ConstraintId}
    (hid : id ∈ (s.absorb a.id b.id links).conflicting) :
    id ∈ s.conflicting ∨ (id ∈ s.free ∧ s.Spans a b id) := by
  obtain ⟨unmet, hunmet, heq⟩ := absorb_eq hn h
  rw [heq] at hid
  rcases OrderedSet.mem_insertAll.mp hid with hid | hid
  · exact Or.inl hid
  · have hin := mem_enclosed.mp ((hunmet id).mp hid).1
    exact Or.inr ⟨hin.1.1, hin.2⟩

theorem clusterNumbers_absorb (hn : Numbered s.clusterNumbers s.nextCluster)
    (h : s.Joinable a b links) :
    (s.absorb a.id b.id links).clusterNumbers =
      (s.clusters.filter (·.id ≠ b.id)).map (·.id.number) := by
  unfold clusterNumbers
  rw [clusters_absorb hn h, List.map_map]
  refine List.map_congr_left fun l _ => ?_
  dsimp only [Function.comp]
  split
  · rename_i hid
    rw [hid]
    rfl
  · rfl

theorem absorb_frame (hn : Numbered s.clusterNumbers s.nextCluster) (h : s.Joinable a b links) :
    (s.absorb a.id b.id links).settings = s.settings ∧
      (s.absorb a.id b.id links).constraints = s.constraints ∧
      (s.absorb a.id b.id links).nextCluster = s.nextCluster ∧
      (s.absorb a.id b.id links).elements =
        s.elements.mapWhere (· ∈ b.elements) (·.reassign b.id a.id) ∧
      (s.absorb a.id b.id links).built = s.built := by
  obtain ⟨_, _, heq⟩ := absorb_eq hn h
  rw [heq]
  exact ⟨rfl, rfl, rfl, rfl, rfl⟩

/-- What a cluster held is still held by one cluster. -/
theorem exists_heir (hn : Numbered s.clusterNumbers s.nextCluster) (h : s.Joinable a b links)
    {k : Cluster} (hk : k ∈ s.clusters) : ∃ k' ∈ (s.absorb a.id b.id links).clusters,
      (∀ e ∈ k.elements, e ∈ k'.elements) ∧ ∀ id ∈ k.constraints, id ∈ k'.constraints := by
  have hj := (mem_clusters_absorb hn h).mpr (Or.inl rfl)
  by_cases ha : k.id = a.id
  · obtain rfl := cluster_ext hn hk h.anchor ha
    exact ⟨_, hj, fun e he => mem_elements_joined.mpr (Or.inl he),
      fun id hid => (mem_constraints_joined h).mpr (Or.inl (Or.inl hid))⟩
  · by_cases hb : k.id = b.id
    · obtain rfl := cluster_ext hn hk h.moving hb
      exact ⟨_, hj, fun e he => mem_elements_joined.mpr (Or.inr he),
        fun id hid => (mem_constraints_joined h).mpr (Or.inl (Or.inr hid))⟩
    · exact ⟨k, (mem_clusters_absorb hn h).mpr (Or.inr ⟨hk, ha, hb⟩), fun _ he => he,
        fun _ hid => hid⟩

theorem holds_absorb (hn : Numbered s.clusterNumbers s.nextCluster) (h : s.Joinable a b links)
    (e : ElementId) : (s.absorb a.id b.id links).Holds e ↔ s.Holds e := by
  constructor
  · rintro ⟨k, hk, he⟩
    rcases (mem_clusters_absorb hn h).mp hk with rfl | ⟨hm, _⟩
    · rcases mem_elements_joined.mp he with he | he
      · exact ⟨a, h.anchor, he⟩
      · exact ⟨b, h.moving, he⟩
    · exact ⟨k, hm, he⟩
  · rintro ⟨k, hk, he⟩
    obtain ⟨k', hk', hel, _⟩ := exists_heir hn h hk
    exact ⟨k', hk', hel e he⟩

theorem mem_owners_of_moving (ho : Owned s) (h : s.Joinable a b links) {e : Element}
    (he : e ∈ s.elements.elements) (hb : e.id ∈ b.elements) : b.id ∈ e.owners :=
  (ho.owners e he b.id).mpr ⟨b, h.moving, rfl, hb⟩

theorem mem_elements_absorb (hn : Numbered s.clusterNumbers s.nextCluster)
    (h : s.Joinable a b links) {e' : Element}
    (he' : e' ∈ (s.absorb a.id b.id links).elements.elements) :
    ∃ e ∈ s.elements.elements, e' = if e.id ∈ b.elements then e.reassign b.id a.id else e := by
  rw [(absorb_frame hn h).2.2.2.1] at he'
  obtain ⟨e, he, rfl⟩ := List.mem_map.mp he'
  exact ⟨e, he, by simp only [decide_eq_true_eq]⟩

theorem Owned.absorb (hn : Numbered s.clusterNumbers s.nextCluster) (ho : Owned s)
    (h : s.Joinable a b links) : Owned (s.absorb a.id b.id links) where
  copied := by
    intro e' he'
    obtain ⟨e, he, rfl⟩ := mem_elements_absorb hn h he'
    have hw := ho.copied e he
    split
    · rename_i hb
      exact hw.toCopied.reassign h.distinct.symm (mem_owners_of_moving ho h he hb)
    · exact hw
  owners := by
    intro e' he' k
    obtain ⟨e, he, rfl⟩ := mem_elements_absorb hn h he'
    have hown := ho.owners e he
    have hjoined : (s.joined a b links).id = a.id := rfl
    simp only [mem_clusters_absorb hn h]
    by_cases hb : e.id ∈ b.elements
    · have hold := mem_owners_of_moving ho h he hb
      rw [if_pos hb, Element.mem_owners_reassign hold, (Element.reassign_frame hold).1, hown]
      constructor
      · rintro (rfl | ⟨⟨c, hc, rfl, hm⟩, hne⟩)
        · exact ⟨_, Or.inl rfl, rfl, mem_elements_joined.mpr (Or.inr hb)⟩
        · by_cases hca : c.id = a.id
          · exact ⟨_, Or.inl rfl, hca.symm, mem_elements_joined.mpr (Or.inr hb)⟩
          · exact ⟨c, Or.inr ⟨hc, hca, hne⟩, rfl, hm⟩
      · rintro ⟨c, rfl | ⟨hc, _, hcb⟩, rfl, hm⟩
        · exact Or.inl rfl
        · exact Or.inr ⟨⟨c, hc, rfl, hm⟩, hcb⟩
    · rw [if_neg hb, hown]
      constructor
      · rintro ⟨c, hc, rfl, hm⟩
        have hcb : c.id ≠ b.id := by
          intro hid
          obtain rfl := cluster_ext hn hc h.moving hid
          exact hb hm
        by_cases hca : c.id = a.id
        · obtain rfl := cluster_ext hn hc h.anchor hca
          exact ⟨_, Or.inl rfl, rfl, mem_elements_joined.mpr (Or.inl hm)⟩
        · exact ⟨c, Or.inr ⟨hc, hca, hcb⟩, rfl, hm⟩
      · rintro ⟨c, rfl | ⟨hc, _⟩, rfl, hm⟩
        · exact ⟨a, h.anchor, rfl, (mem_elements_joined.mp hm).resolve_right hb⟩
        · exact ⟨c, hc, rfl, hm⟩

theorem Partitioned.not_mem_of_ne (hp : Partitioned s) {k l : Cluster} (hk : k ∈ s.clusters)
    (hl : l ∈ s.clusters) (hne : k.id ≠ l.id) {id : ConstraintId} (hid : id ∈ k.constraints) :
    id ∉ l.constraints := by
  have : Std.Symm fun k l : Cluster => ∀ id ∈ k.constraints, id ∉ l.constraints :=
    ⟨fun _ _ h id hl hk => h id hk hl⟩
  exact hp.disjoint.forall hk hl (fun he => hne (congrArg Cluster.id he)) id hid

theorem numbered_absorb (hn : Numbered s.clusterNumbers s.nextCluster)
    (h : s.Joinable a b links) :
    Numbered (s.absorb a.id b.id links).clusterNumbers
      (s.absorb a.id b.id links).nextCluster := by
  rw [clusterNumbers_absorb hn h, (absorb_frame hn h).2.2.1]
  exact hn.sublist (List.filter_sublist.map _)

theorem Partitioned.not_mem_joined (hp : Partitioned s) (h : s.Joinable a b links) {k : Cluster}
    (hk : k ∈ s.clusters) (ha : k.id ≠ a.id) (hb : k.id ≠ b.id) {id : ConstraintId}
    (hid : id ∈ k.constraints) : id ∉ (s.joined a b links).constraints := by
  intro hj
  rcases (mem_constraints_joined h).mp hj with (hj | hj) | hj
  · exact hp.not_mem_of_ne hk h.anchor ha hid hj
  · exact hp.not_mem_of_ne hk h.moving hb hid hj
  · exact hp.taken k hk id hid hj.1

theorem Partitioned.disjoint_absorb (hn : Numbered s.clusterNumbers s.nextCluster)
    (hp : Partitioned s) (h : s.Joinable a b links) :
    (s.absorb a.id b.id links).clusters.Pairwise
      fun k l => ∀ id ∈ k.constraints, id ∉ l.constraints := by
  have hnd := List.Nodup.of_map _ (nodup_clusterIds (numbered_absorb hn h))
  refine hnd.pairwise_of_forall_ne fun k hk l hl hne id hid hidl => ?_
  -- of two clusters one at most is the joined one
  rcases (mem_clusters_absorb hn h).mp hk with rfl | ⟨hk, hka, hkb⟩
  · rcases (mem_clusters_absorb hn h).mp hl with rfl | ⟨hl, hla, hlb⟩
    · exact hne rfl
    · exact hp.not_mem_joined h hl hla hlb hidl hid
  · rcases (mem_clusters_absorb hn h).mp hl with rfl | ⟨hl, hla, hlb⟩
    · exact hp.not_mem_joined h hk hka hkb hid hidl
    · have hids : k.id ≠ l.id := fun he => hne (cluster_ext hn hk hl he)
      exact hp.not_mem_of_ne hk hl hids hid hidl

theorem Grounded.spans_iff (hg : Grounded s) {c : Constraint}
    (hc : c ∈ s.constraints.constraints) :
    s.Spans a b c.id ↔ ∀ e ∈ c.ends, e ∈ a.elements ∨ e ∈ b.elements := by
  have hget := (ConstraintTable.get?_eq_some_iff hg.constraints).mpr ⟨hc, rfl⟩
  simp [Spans, hget]

theorem Partitioned.absorb (hg : Grounded s) (hn : Numbered s.clusterNumbers s.nextCluster)
    (hp : Partitioned s) (h : s.Joinable a b links) :
    Partitioned (s.absorb a.id b.id links) := by
  have hconstraints := (absorb_frame hn h).2.1
  have hnew := (mem_clusters_absorb hn h).mpr (Or.inl rfl)
  refine ⟨?_, hp.disjoint_absorb hn h, ?_, ?_, ?_, ?_⟩
  · intro k hk id hid
    rw [mem_free_absorb hn h]
    rintro ⟨hf, hs⟩
    rcases (mem_clusters_absorb hn h).mp hk with rfl | ⟨hm, _⟩
    · rcases (mem_constraints_joined h).mp hid with (hid | hid) | hid
      · exact hp.taken a h.anchor id hid hf
      · exact hp.taken b h.moving id hid hf
      · exact hs hid.2
    · exact hp.taken k hm id hid hf
  · intro id
    rw [hconstraints, hp.cover id, mem_free_absorb hn h]
    constructor
    · rintro (hf | ⟨k, hk, hid⟩)
      · by_cases hs : s.Spans a b id
        · exact Or.inr ⟨_, hnew, (mem_constraints_joined h).mpr (Or.inr ⟨hf, hs⟩)⟩
        · exact Or.inl ⟨hf, hs⟩
      · obtain ⟨k', hk', _, hcs⟩ := exists_heir hn h hk
        exact Or.inr ⟨k', hk', hcs id hid⟩
    · rintro (hf | ⟨k, hk, hid⟩)
      · exact Or.inl hf.1
      · rcases (mem_clusters_absorb hn h).mp hk with rfl | ⟨hk, _⟩
        · rcases (mem_constraints_joined h).mp hid with (hid | hid) | hid
          · exact Or.inr ⟨a, h.anchor, hid⟩
          · exact Or.inr ⟨b, h.moving, hid⟩
          · exact Or.inl hid.1
        · exact Or.inr ⟨k, hk, hid⟩
  · rw [hconstraints]
    intro k hk c hc hid e he
    rcases (mem_clusters_absorb hn h).mp hk with rfl | ⟨hk, _⟩
    · rw [mem_elements_joined]
      rcases (mem_constraints_joined h).mp hid with (hid | hid) | hid
      · exact Or.inl (hp.inside a h.anchor c hc hid e he)
      · exact Or.inr (hp.inside b h.moving c hc hid e he)
      · exact (hg.spans_iff hc).mp hid.2 e he
    · exact hp.inside k hk c hc hid e he
  · rw [hconstraints]
    intro k hk c hc hid hin
    obtain ⟨hf, hs⟩ := (mem_free_absorb hn h).mp hid
    rcases (mem_clusters_absorb hn h).mp hk with rfl | ⟨hk, _⟩
    · exact hs ((hg.spans_iff hc).mpr fun e he => mem_elements_joined.mp (hin e he))
    · exact hp.between k hk c hc hf hin
  · intro id hid
    rcases mem_conflicting_absorb hn h hid with hid | hid
    · obtain ⟨k, hk, hm⟩ := hp.conflicting id hid
      obtain ⟨k', hk', _, hcs⟩ := exists_heir hn h hk
      exact ⟨k', hk', hcs id hm⟩
    · exact ⟨_, hnew, (mem_constraints_joined h).mpr (Or.inr hid)⟩

theorem Decomposed.absorb (hg : Grounded s) (hd : Decomposed s) (h : s.Joinable a b links) :
    Decomposed (s.absorb a.id b.id links) := by
  have hn := hd.numbered
  have hholds := holds_absorb hn h
  refine ⟨hd.owned.absorb hn h, hd.partitioned.absorb hg hn h, numbered_absorb hn h, ?_, ?_⟩
  · intro e he
    rw [(absorb_frame hn h).2.1]
    exact hd.touched e ((hholds e).mp he)
  · rw [(absorb_frame hn h).2.1]
    intro c hc e he
    exact (hholds e).mpr (hd.claimed c hc e he)

theorem sameProblem_absorb (hd : Decomposed s) (h : s.Joinable a b links) :
    SameProblem s (s.absorb a.id b.id links) := by
  obtain ⟨hset, hcs, _, hel, _⟩ := absorb_frame hd.numbered h
  refine ⟨hset, ?_, ?_, by rw [hcs]⟩
  · rw [hel]
    refine ElementTable.roster_mapWhere fun e he hb => ?_
    exact Element.reassign_frame (mem_owners_of_moving hd.owned h he (by simpa using hb))
  · rw [hel]
    rfl

end

end Sketch

end RigidSketch
