import RigidSketch.Proofs.Growth

/-! The decomposition of a sketch into clusters, as building leaves it. Elements know the
clusters that hold them, and every constraint is either free or in one cluster. -/

namespace RigidSketch

theorem Cluster.encloses_iff {k : Cluster} {c : Constraint} :
    k.encloses c = true ↔ ∀ e ∈ c.ends, e ∈ k.elements := by
  simp [encloses, Constraint.ends]

namespace Sketch

/-- The owners of an element are the clusters that hold it, and copies follow the owners. -/
structure Owned (s : Sketch) : Prop where
  copied : ∀ e ∈ s.elements.elements, e.WellCopied
  owners : ∀ e ∈ s.elements.elements, ∀ k,
    k ∈ e.owners ↔ ∃ c ∈ s.clusters, c.id = k ∧ e.id ∈ c.elements

/-- Every constraint is free or in one cluster, and in a cluster exactly if its ends are. -/
structure Partitioned (s : Sketch) : Prop where
  taken : ∀ k ∈ s.clusters, ∀ id ∈ k.constraints, id ∉ s.free
  disjoint : s.clusters.Pairwise fun k l => ∀ id ∈ k.constraints, id ∉ l.constraints
  cover : ∀ id, id ∈ s.constraints.ids ↔ id ∈ s.free ∨ ∃ k ∈ s.clusters, id ∈ k.constraints
  inside : ∀ k ∈ s.clusters, ∀ c ∈ s.constraints.constraints, c.id ∈ k.constraints →
    ∀ e ∈ c.ends, e ∈ k.elements
  between : ∀ k ∈ s.clusters, ∀ c ∈ s.constraints.constraints, c.id ∈ s.free →
    ¬ ∀ e ∈ c.ends, e ∈ k.elements
  conflicting : ∀ id ∈ s.conflicting, ∃ k ∈ s.clusters, id ∈ k.constraints

def clusterNumbers (s : Sketch) : List Nat := s.clusters.map (·.id.number)

def Holds (s : Sketch) (e : ElementId) : Prop := ∃ k ∈ s.clusters, e ∈ k.elements

/-- What is kept from the end of building to the end of solving. -/
structure Decomposed (s : Sketch) : Prop where
  owned : Owned s
  partitioned : Partitioned s
  numbered : Numbered s.clusterNumbers s.nextCluster
  touched : ∀ e, s.Holds e → ∃ c ∈ s.constraints.constraints, e ∈ c.ends
  claimed : ∀ c ∈ s.constraints.constraints, ∀ e ∈ c.ends, s.Holds e

/-- What building keeps from one cluster to the next, if `base` was the first number that
was left for a cluster. -/
structure Assembled (base : Nat) (s : Sketch) : Prop where
  owned : Owned s
  sheltered : ∀ e ∈ s.elements.elements, e.Sheltered
  partitioned : Partitioned s
  numbered : Numbered s.clusterNumbers s.nextCluster
  since : base ≤ s.nextCluster ∧ ∀ n ∈ s.clusterNumbers, base ≤ n
  touched : ∀ e, s.Holds e → ∃ c ∈ s.constraints.constraints, e ∈ c.ends
  founded : ∀ k ∈ s.clusters, k.Founded

theorem mem_inside {s : Sketch} {k : Cluster} {id : ConstraintId} :
    id ∈ s.inside k ↔ id ∈ s.free ∧ ∃ c, s.constraints.get? id = some c ∧
      ∀ e ∈ c.ends, e ∈ k.elements := by
  unfold inside
  rw [List.mem_filter]
  cases hc : s.constraints.get? id with
  | none => simp
  | some c => simp [Cluster.encloses_iff, OrderedSet.mem_def]

theorem isClaimed_iff {s : Sketch} (ho : Owned s) {e : Element} (he : e ∈ s.elements.elements) :
    e.isClaimed = true ↔ s.Holds e.id := by
  have hown := ho.owners e he
  unfold Element.isClaimed
  rw [Bool.not_eq_true', List.isEmpty_eq_false_iff_exists_mem]
  constructor
  · rintro ⟨k, hk⟩
    obtain ⟨c, hc, _, hm⟩ := (hown k).mp hk
    exact ⟨c, hc, hm⟩
  · rintro ⟨c, hc, hm⟩
    exact ⟨c.id, (hown c.id).mpr ⟨c, hc, rfl, hm⟩⟩

theorem holds_of_isClaimed {s : Sketch} (ho : Owned s) {id : ElementId}
    (h : s.elements.isClaimed id = true) : s.Holds id := by
  unfold ElementTable.isClaimed at h
  split at h
  · rename_i e he
    obtain ⟨hm, rfl⟩ := ElementTable.mem_of_get? he
    exact (isClaimed_iff ho hm).mp h
  · cases h

theorem mem_elements_commit {s : Sketch} {g : Growth} {e' : Element}
    (h : e' ∈ (s.commit g).elements.elements) :
    ∃ e ∈ s.elements.elements, ∃ level, e' =
      { (if e.id ∈ g.cluster.elements then e.claim g.cluster.id else e) with level } := by
  obtain ⟨e₂, h₂, rfl⟩ := List.mem_map.mp h
  obtain ⟨e₁, h₁, rfl⟩ := List.mem_map.mp h₂
  obtain ⟨e, he, rfl⟩ := List.mem_map.mp h₁
  refine ⟨e, he, ?_⟩
  simp only [decide_eq_true_eq]
  generalize (if e.id ∈ g.cluster.elements then e.claim g.cluster.id else e) = a
  have hraise : ∃ level, (if a.id ∈ g.cluster.elements then
      if a.level = .under then { a with level := .full } else a else a) = { a with level } := by
    split
    · split
      · exact ⟨_, rfl⟩
      · exact ⟨a.level, rfl⟩
    · exact ⟨a.level, rfl⟩
  obtain ⟨level, hl⟩ := hraise
  rw [hl]
  split
  · exact ⟨_, rfl⟩
  · exact ⟨level, rfl⟩

theorem roster_commit (s : Sketch) (g : Growth) :
    (s.commit g).elements.roster = s.elements.roster := by
  refine (ElementTable.roster_mapWhere ?_).trans
    ((ElementTable.roster_mapWhere ?_).trans (ElementTable.roster_mapWhere ?_))
  · intro e _ _
    exact ⟨rfl, rfl⟩
  · intro e _ _
    split <;> exact ⟨rfl, rfl⟩
  · intro e _ _
    exact ⟨(Element.claim_frame _ e).1, (Element.claim_frame _ e).2.2.1⟩

theorem sameProblem_commit (s : Sketch) (g : Growth) : SameProblem s (s.commit g) :=
  ⟨rfl, roster_commit s g, rfl, rfl⟩

def committed (s : Sketch) (g : Growth) : Cluster :=
  let rest : Sketch := { s with free := s.free.eraseAll g.cluster.constraints.toList }
  { g.cluster with constraints := g.cluster.constraints.insertAll (rest.inside g.cluster) }

theorem clusters_commit (s : Sketch) (g : Growth) :
    (s.commit g).clusters = s.clusters ++ [s.committed g] := rfl

theorem mem_clusters_commit {s : Sketch} {g : Growth} {k : Cluster} :
    k ∈ (s.commit g).clusters ↔ k ∈ s.clusters ∨ k = s.committed g := by
  rw [clusters_commit, List.mem_append, List.mem_singleton]

theorem mem_committed {s : Sketch} {g : Growth} {id : ConstraintId} :
    id ∈ (s.committed g).constraints ↔ id ∈ g.cluster.constraints ∨
      (id ∈ s.free ∧ ∃ c, s.constraints.get? id = some c ∧
        ∀ e ∈ c.ends, e ∈ g.cluster.elements) := by
  rw [committed, OrderedSet.mem_insertAll, mem_inside]
  by_cases h : id ∈ g.cluster.constraints
  · simp [h]
  · simp only [h, false_or, OrderedSet.mem_eraseAll, and_congr_left_iff]
    intro _
    exact and_iff_left h

theorem mem_free_commit_iff {s : Sketch} {g : Growth} {id : ConstraintId} :
    id ∈ (s.commit g).free ↔ id ∈ s.free ∧ id ∉ (s.committed g).constraints := by
  simp only [commit, committed, OrderedSet.mem_eraseAll, OrderedSet.mem_insertAll, not_or,
    and_assoc]
  rfl

theorem mem_conflicting_commit {s : Sketch} {g : Growth} (hg : Grown s g) {id : ConstraintId}
    (h : id ∈ (s.commit g).conflicting) :
    id ∈ s.conflicting ∨ id ∈ (s.committed g).constraints := by
  simp only [commit, OrderedSet.mem_insertAll] at h
  rcases h with (h | h) | h
  · exact Or.inl h
  · refine Or.inr (mem_committed.mpr (Or.inr ?_))
    obtain ⟨hf, hc⟩ := mem_inside.mp h
    exact ⟨(OrderedSet.mem_eraseAll.mp hf).1, hc⟩
  · exact Or.inr (mem_committed.mpr (Or.inl (hg.excess id h)))

theorem Owned.commit {s : Sketch} {g : Growth} (ho : Owned s)
    (hs : ∀ e ∈ s.elements.elements, e.Sheltered) : Owned (s.commit g) where
  copied := by
    intro e' he'
    obtain ⟨e, he, level, rfl⟩ := mem_elements_commit he'
    have hw := ho.copied e he
    have hc : (if e.id ∈ g.cluster.elements then e.claim g.cluster.id else e).WellCopied := by
      split
      · exact hw.claim (hs e he) _
      · exact hw
    exact ⟨⟨hc.nodup, hc.owned, hc.shared⟩, hc.sole⟩
  owners := by
    intro e' he' k
    obtain ⟨e, he, level, rfl⟩ := mem_elements_commit he'
    have hown := ho.owners e he k
    simp only [mem_clusters_commit]
    by_cases hm : e.id ∈ g.cluster.elements
    · simp only [hm, if_true, Element.mem_owners_claim, hown, (Element.claim_frame _ e).1]
      constructor
      · rintro (⟨c, hc, hck⟩ | rfl)
        · exact ⟨c, Or.inl hc, hck⟩
        · exact ⟨_, Or.inr rfl, rfl, hm⟩
      · rintro ⟨c, hc | rfl, hck⟩
        · exact Or.inl ⟨c, hc, hck⟩
        · exact Or.inr hck.1.symm
    · simp only [hm, if_false, hown]
      constructor
      · rintro ⟨c, hc, hck⟩
        exact ⟨c, Or.inl hc, hck⟩
      · rintro ⟨c, hc | rfl, hck⟩
        · exact ⟨c, hc, hck⟩
        · exact absurd hck.2 hm

theorem sheltered_commit {s : Sketch} {g : Growth}
    (hs : ∀ e ∈ s.elements.elements, e.Sheltered) :
    ∀ e ∈ (s.commit g).elements.elements, e.Sheltered := by
  intro e' he'
  obtain ⟨e, he, level, rfl⟩ := mem_elements_commit he'
  have hc : (if e.id ∈ g.cluster.elements then e.claim g.cluster.id else e).Sheltered := by
    split
    · exact (hs e he).claim _
    · exact hs e he
  exact hc

theorem Partitioned.commit {s : Sketch} {g : Growth} (hg : Grounded s) (h : Partitioned s)
    (hgrown : Grown s g) : Partitioned (s.commit g) := by
  have hget : ∀ c ∈ s.constraints.constraints, s.constraints.get? c.id = some c :=
    fun c hc => (ConstraintTable.get?_eq_some_iff hg.constraints).mpr ⟨hc, rfl⟩
  have hfree : ∀ id ∈ (s.committed g).constraints, id ∈ s.free := by
    intro id hid
    rcases mem_committed.mp hid with hid | hid
    · exact hgrown.free id hid
    · exact hid.1
  refine ⟨?_, ?_, ?_, ?_, ?_, ?_⟩
  · intro k hk id hid
    rw [mem_free_commit_iff]
    rcases mem_clusters_commit.mp hk with hk | rfl
    · exact fun hf => h.taken k hk id hid hf.1
    · exact fun hf => hf.2 hid
  · refine List.pairwise_append.mpr ⟨h.disjoint, List.pairwise_singleton _ _, ?_⟩
    intro k hk l hl id hid hidl
    obtain rfl : l = s.committed g := List.mem_singleton.mp hl
    exact h.taken k hk id hid (hfree id hidl)
  · intro id
    rw [mem_free_commit_iff]
    refine (h.cover id).trans ?_
    constructor
    · rintro (hf | ⟨k, hk, hid⟩)
      · by_cases hn : id ∈ (s.committed g).constraints
        · exact Or.inr ⟨_, mem_clusters_commit.mpr (Or.inr rfl), hn⟩
        · exact Or.inl ⟨hf, hn⟩
      · exact Or.inr ⟨k, mem_clusters_commit.mpr (Or.inl hk), hid⟩
    · rintro (hf | ⟨k, hk, hid⟩)
      · exact Or.inl hf.1
      · rcases mem_clusters_commit.mp hk with hk | rfl
        · exact Or.inr ⟨k, hk, hid⟩
        · exact Or.inl (hfree id hid)
  · intro k hk c hc hid e he
    rcases mem_clusters_commit.mp hk with hk | rfl
    · exact h.inside k hk c hc hid e he
    · rcases mem_committed.mp hid with hid | ⟨_, d, hd, hin⟩
      · exact hgrown.inside c.id hid c (hget c hc) e he
      · obtain rfl := Option.some.inj (hd.symm.trans (hget c hc))
        exact hin e he
  · intro k hk c hc hf hin
    rw [mem_free_commit_iff] at hf
    rcases mem_clusters_commit.mp hk with hk | rfl
    · exact h.between k hk c hc hf.1 hin
    · exact hf.2 (mem_committed.mpr (Or.inr ⟨hf.1, c, hget c hc, hin⟩))
  · intro id hid
    rcases mem_conflicting_commit hgrown hid with hid | hid
    · obtain ⟨k, hk, hm⟩ := h.conflicting id hid
      exact ⟨k, mem_clusters_commit.mpr (Or.inl hk), hm⟩
    · exact ⟨s.committed g, mem_clusters_commit.mpr (Or.inr rfl), hid⟩

theorem Owned.congr {s t : Sketch} (h : Owned s) (he : t.elements = s.elements)
    (hc : t.clusters = s.clusters) : Owned t := by
  refine ⟨?_, ?_⟩
  · rw [he]
    exact h.copied
  · rw [he, hc]
    exact h.owners

theorem Partitioned.congr {s t : Sketch} (h : Partitioned s)
    (hcs : t.constraints.unsolved = s.constraints.unsolved) (hc : t.clusters = s.clusters)
    (hf : t.free = s.free) (hx : t.conflicting = s.conflicting) : Partitioned t := by
  have hback : ∀ c ∈ t.constraints.constraints, ∃ d ∈ s.constraints.constraints, c.Same d :=
    fun c hm => ConstraintTable.mem_of_unsolved hcs.symm hm
  refine ⟨?_, ?_, ?_, ?_, ?_, ?_⟩
  · rw [hc, hf]
    exact h.taken
  · rw [hc]
    exact h.disjoint
  · intro id
    rw [hc, hf, ConstraintTable.ids_eq_of_unsolved hcs]
    exact h.cover id
  · intro k hk c hm hid e he
    obtain ⟨d, hd, hsame⟩ := hback c hm
    exact h.inside k (hc ▸ hk) d hd (hsame.id ▸ hid) e (hsame.ends ▸ he)
  · intro k hk c hm hid hin
    obtain ⟨d, hd, hsame⟩ := hback c hm
    exact h.between k (hc ▸ hk) d hd (hsame.id ▸ hf ▸ hid) (hsame.ends ▸ hin)
  · rw [hc, hx]
    exact h.conflicting

/-- An identity above all clusters, for the next one to be given. -/
structure Vacant (s : Sketch) (base : Nat) (k : ClusterId) : Prop where
  since : base ≤ k.number
  above : ∀ n ∈ s.clusterNumbers, n < k.number
  drawn : k.number < s.nextCluster

theorem Assembled.reserve {base : Nat} {s : Sketch} (h : Assembled base s)
    {spare : Option ClusterId} (hs : ∀ k, spare = some k → s.Vacant base k) :
    Assembled base (s.reserve spare).1 ∧ (s.reserve spare).1.Vacant base (s.reserve spare).2 := by
  cases spare with
  | some k => exact ⟨h, hs k rfl⟩
  | none =>
    have hbelow := h.numbered.below
    refine ⟨⟨h.owned.congr rfl rfl, h.sheltered, h.partitioned.congr rfl rfl rfl rfl,
      ⟨h.numbered.increasing, ?_⟩, ⟨?_, h.since.2⟩, h.touched, h.founded⟩,
      ⟨h.since.1, hbelow, Nat.lt_succ_self _⟩⟩
    · intro n hn
      exact Nat.lt_succ_of_lt (hbelow n hn)
    · exact Nat.le_succ_of_le h.since.1

theorem Assembled.commit {base : Nat} {s : Sketch} {g : Growth} (hg : Grounded s)
    (h : Assembled base s) (hgrown : Grown s g) (hk : s.Vacant base g.cluster.id) :
    Assembled base (s.commit g) := by
  have hnum : (s.commit g).clusterNumbers = s.clusterNumbers ++ [g.cluster.id.number] := by
    simp [clusterNumbers, clusters_commit, committed]
  refine ⟨h.owned.commit h.sheltered, sheltered_commit h.sheltered,
    h.partitioned.commit hg hgrown, ⟨?_, ?_⟩, ⟨h.since.1, ?_⟩, ?_, ?_⟩
  · rw [hnum]
    refine List.pairwise_append.mpr ⟨h.numbered.increasing, List.pairwise_singleton _ _, ?_⟩
    intro a ha b hb
    rw [List.mem_singleton.mp hb]
    exact hk.above a ha
  · intro n hn
    rw [hnum] at hn
    rcases List.mem_append.mp hn with hn | hn
    · exact h.numbered.below n hn
    · rw [List.mem_singleton.mp hn]
      exact hk.drawn
  · intro n hn
    rw [hnum] at hn
    rcases List.mem_append.mp hn with hn | hn
    · exact h.since.2 n hn
    · rw [List.mem_singleton.mp hn]
      exact hk.since
  · rintro e ⟨k, hm, he⟩
    rcases mem_clusters_commit.mp hm with hm | rfl
    · exact h.touched e ⟨k, hm, he⟩
    · exact hgrown.touched e he
  · intro k hm
    rcases mem_clusters_commit.mp hm with hm | rfl
    · exact h.founded k hm
    · exact ⟨fun c hc => mem_committed.mpr (Or.inl (hgrown.founded.seeds c hc)),
        hgrown.founded.places⟩

theorem Partitioned.exists_get? {s : Sketch} (h : Partitioned s) {id : ConstraintId}
    (hid : id ∈ s.free) : ∃ c, s.constraints.get? id = some c := by
  have hm := (h.cover id).mpr (Or.inl hid)
  exact Option.isSome_iff_exists.mp (ConstraintTable.get?_isSome_iff.mpr hm)

theorem Assembled.commit_growFrom {base : Nat} {s : Sketch} {k : ClusterId} {seed : ConstraintId}
    (hg : Grounded s) (h : Assembled base s) (hk : s.Vacant base k) (hs : seed ∈ s.free) :
    Assembled base (s.commit (s.growFrom k seed)) := by
  obtain ⟨c, hc⟩ := h.partitioned.exists_get? hs
  exact h.commit hg (grown_growFrom hs hc k) ((id_growFrom s k seed).symm ▸ hk)

/-- Building stops with an end of a constraint in no cluster neither when every element is
claimed nor when no seed is left. -/
theorem holds_of_stopped {base : Nat} {s : Sketch} (hg : Grounded s) (h : Assembled base s)
    (hstop : s.elements.elements.all (·.isClaimed) = true ∨
      ∃ cancelled, s.seed? cancelled = none) :
    ∀ c ∈ s.constraints.constraints, ∀ e ∈ c.ends, s.Holds e := by
  intro c hc e he
  rcases hstop with hall | ⟨cancelled, hnone⟩
  · obtain ⟨x, hx, rfl⟩ := hg.ends c hc e he
    exact (isClaimed_iff h.owned hx).mp (List.all_eq_true.mp hall x hx)
  · have hid : c.id ∈ s.constraints.ids := ConstraintTable.mem_ids.mpr ⟨c, hc, rfl⟩
    rcases (h.partitioned.cover c.id).mp hid with hf | ⟨k, hk, hm⟩
    · have hget := (ConstraintTable.get?_eq_some_iff hg.constraints).mpr ⟨hc, rfl⟩
      exact holds_of_isClaimed h.owned (isClaimed_of_seed?_eq_none hnone hf hget he)
    · exact ⟨k, hk, h.partitioned.inside k hk c hc hm e he⟩

theorem sameProblem_reserve (s : Sketch) (spare : Option ClusterId) :
    SameProblem s (s.reserve spare).1 := by
  cases spare <;> exact ⟨rfl, rfl, rfl, rfl⟩

theorem sameProblem_commitAll (s : Sketch) (cancelled : List ConstraintId)
    (spare : Option ClusterId) : SameProblem s (s.commitAll cancelled spare) := by
  fun_induction commitAll s cancelled spare with
  | case1 => exact .refl _
  | case2 => exact .refl _
  | case3 s cancelled spare _ seed retry _ r g _ ih => exact (sameProblem_reserve s spare).trans ih
  | case4 s cancelled spare _ seed retry _ r g _ ih =>
    exact ((sameProblem_reserve s spare).trans (sameProblem_commit _ _)).trans ih

theorem Assembled.commitAll {base : Nat} {s : Sketch} (hg : Grounded s) (h : Assembled base s)
    (cancelled : List ConstraintId) {spare : Option ClusterId}
    (hs : ∀ k, spare = some k → s.Vacant base k) :
    Assembled base (s.commitAll cancelled spare) ∧
      ∀ c ∈ (s.commitAll cancelled spare).constraints.constraints, ∀ e ∈ c.ends,
        (s.commitAll cancelled spare).Holds e := by
  fun_induction Sketch.commitAll s cancelled spare with
  | case1 s cancelled spare hall => exact ⟨h, holds_of_stopped hg h (Or.inl hall)⟩
  | case2 s cancelled spare _ hnone => exact ⟨h, holds_of_stopped hg h (Or.inr ⟨_, hnone⟩)⟩
  | case3 s cancelled spare _ seed retry _ r g _ ih =>
    obtain ⟨hr, hv⟩ := h.reserve hs
    apply ih (hg.congr (sameProblem_reserve s spare)) hr
    rintro k hk
    exact Option.some.inj hk ▸ hv
  | case4 s cancelled spare _ seed retry hseed r g _ ih =>
    obtain ⟨hr, hv⟩ := h.reserve hs
    have hgr := hg.congr (sameProblem_reserve s spare)
    have hfree : seed ∈ r.1.free := by
      simpa only [r, free_reserve] using (mem_free_of_seed? hseed).1
    apply ih (hgr.congr (sameProblem_commit _ _)) (hr.commit_growFrom hgr hv hfree)
    intro k hk
    cases hk

theorem sameProblem_reset (s : Sketch) : SameProblem s s.reset :=
  ⟨rfl, ElementTable.roster_map fun _ _ => ⟨rfl, rfl⟩, rfl, ConstraintTable.unsolved_map _⟩

theorem assembled_reset (s : Sketch) : Assembled s.nextCluster s.reset := by
  have hmem : ∀ e ∈ s.reset.elements.elements, e.owners = [] ∧ e.copies = [] := by
    intro e he
    obtain ⟨x, _, rfl⟩ := List.mem_map.mp he
    exact ⟨rfl, rfl⟩
  have hids : s.reset.constraints.ids = s.constraints.ids :=
    ConstraintTable.ids_eq_of_unsolved (sameProblem_reset s).constraints
  have hnone : s.reset.clusters = [] := rfl
  refine ⟨⟨?_, ?_⟩, ?_, ⟨?_, ?_, ?_, ?_, ?_, ?_⟩, ⟨?_, ?_⟩, ⟨Nat.le_refl _, ?_⟩, ?_, ?_⟩
  · intro e he
    obtain ⟨ho, hc⟩ := hmem e he
    have hcopy : ∀ k, e.copy? k = none := by
      intro k
      simp [Element.copy?, hc]
    refine ⟨⟨by simp [ho], ?_, ?_⟩, fun _ _ => hcopy⟩
    · intro k hk
      simp [hcopy] at hk
    · intro hl
      simp [ho] at hl
  · intro e he k
    simp [(hmem e he).1, hnone]
  · intro e he _ k hk
    simp [(hmem e he).1] at hk
  · simp [hnone]
  · simp [hnone]
  · intro id
    rw [hids, hnone]
    simp [reset]
  · simp [hnone]
  · simp [hnone]
  · intro id hid
    simp [reset] at hid
  · simp [clusterNumbers, hnone]
  · simp [clusterNumbers, hnone]
  · simp [clusterNumbers, hnone]
  · rintro e ⟨k, hk, _⟩
    simp [hnone] at hk
  · simp [hnone]

theorem Grounded.reset {s : Sketch} (h : Grounded s) : Grounded s.reset :=
  h.congr (sameProblem_reset s)

theorem sameProblem_build (s : Sketch) : SameProblem s s.build := by
  unfold build
  split
  · exact .refl s
  · have h := (sameProblem_reset s).trans (sameProblem_commitAll s.reset [] none)
    exact ⟨h.settings, h.roster, h.next, h.constraints⟩

theorem build_eq {s : Sketch} (h : s.built = false) :
    s.build = { s.reset.commitAll [] none with built := true } := by
  simp [build, h]

theorem assembled_commitAll {s : Sketch} (hg : Grounded s) :
    Assembled s.nextCluster (s.reset.commitAll [] none) ∧
      ∀ c ∈ (s.reset.commitAll [] none).constraints.constraints, ∀ e ∈ c.ends,
        (s.reset.commitAll [] none).Holds e := by
  apply (assembled_reset s).commitAll hg.reset
  intro k hk
  cases hk

theorem assembled_build {s : Sketch} (hg : Grounded s) (hb : s.built = false) :
    Assembled s.nextCluster s.build := by
  obtain ⟨h, _⟩ := assembled_commitAll hg
  rw [build_eq hb]
  exact ⟨h.owned.congr rfl rfl, h.sheltered, h.partitioned.congr rfl rfl rfl rfl,
    h.numbered, h.since, h.touched, h.founded⟩

theorem holds_build {s : Sketch} (hg : Grounded s) (hb : s.built = false) :
    ∀ c ∈ s.build.constraints.constraints, ∀ e ∈ c.ends, s.build.Holds e := by
  rw [build_eq hb]
  exact (assembled_commitAll hg).2

theorem decomposed_build {s : Sketch} (hg : Grounded s) (hb : s.built = false) :
    Decomposed s.build :=
  have h := assembled_build hg hb
  ⟨h.owned, h.partitioned, h.numbered, h.touched, holds_build hg hb⟩

/-- What holds after a reset and is kept whenever a cluster is committed holds once clusters
are built, if the numbers given out and the mark that they are built make no difference. -/
theorem build_induction {P : Sketch → Prop} {s : Sketch} (hg : Grounded s)
    (hb : s.built = false) (hreset : P s.reset)
    (hmark : ∀ t n b, P t → P { t with nextCluster := n, built := b })
    (hcommit : ∀ t k seed, Grounded t → Assembled s.nextCluster t → seed ∈ t.free → P t →
      P (t.commit (t.growFrom k seed))) : P s.build := by
  have hreserve : ∀ (t : Sketch) spare, P t → P (t.reserve spare).1 := by
    intro t spare hp
    cases spare with
    | none => exact hmark t (t.nextCluster + 1) t.built hp
    | some k => exact hp
  have hall : ∀ (t : Sketch) cancelled spare, Grounded t → Assembled s.nextCluster t →
      (∀ k, spare = some k → t.Vacant s.nextCluster k) → P t → P (t.commitAll cancelled spare) := by
    intro t cancelled spare hg h hs hp
    fun_induction Sketch.commitAll t cancelled spare with
    | case1 => exact hp
    | case2 => exact hp
    | case3 t cancelled spare _ seed retry _ r g _ ih =>
      obtain ⟨hr, hv⟩ := h.reserve hs
      refine ih (hg.congr (sameProblem_reserve t spare)) hr ?_ (hreserve t spare hp)
      intro k hk
      exact Option.some.inj hk ▸ hv
    | case4 t cancelled spare _ seed retry hseed r g _ ih =>
      obtain ⟨hr, hv⟩ := h.reserve hs
      have hgr := hg.congr (sameProblem_reserve t spare)
      have hfree : seed ∈ r.1.free := by
        simpa only [r, free_reserve] using (mem_free_of_seed? hseed).1
      exact ih (hgr.congr (sameProblem_commit _ _)) (hr.commit_growFrom hgr hv hfree) nofun
        (hcommit r.1 r.2 seed hgr hr hfree (hreserve t spare hp))
  rw [build_eq hb]
  exact hmark _ _ true (hall s.reset [] none hg.reset (assembled_reset s) nofun hreset)

theorem commitAll_frame (s : Sketch) (cancelled : List ConstraintId) (spare : Option ClusterId) :
    (s.commitAll cancelled spare).status = s.status ∧
      (s.commitAll cancelled spare).edited = s.edited := by
  have hr : ∀ (s : Sketch) (spare : Option ClusterId),
      (s.reserve spare).1.status = s.status ∧ (s.reserve spare).1.edited = s.edited := by
    intro s spare
    cases spare <;> exact ⟨rfl, rfl⟩
  fun_induction Sketch.commitAll s cancelled spare with
  | case1 => exact ⟨rfl, rfl⟩
  | case2 => exact ⟨rfl, rfl⟩
  | case3 s cancelled spare _ seed retry _ r g _ ih =>
    exact ⟨ih.1.trans (hr s spare).1, ih.2.trans (hr s spare).2⟩
  | case4 s cancelled spare _ seed retry _ r g _ ih =>
    exact ⟨ih.1.trans (hr s spare).1, ih.2.trans (hr s spare).2⟩

end Sketch

end RigidSketch
