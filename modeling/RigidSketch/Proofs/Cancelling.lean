import RigidSketch.Proofs.Effort

/-! Seeds that are put aside. Building only takes free constraints away, so that a seed from which
nothing grows stays one from which nothing grows, and the cluster that it becomes when it is tried
again has no elements but its two ends. -/

namespace RigidSketch

open LeastSquares (solveLinear)

namespace Sketch

theorem prefix_steps_grow (s : Sketch) (g : Growth) :
    g.cluster.steps <+: (s.grow g).cluster.steps := by
  fun_induction Sketch.grow s g with
  | case1 g a _ ih => exact (List.prefix_append _ _).trans ih
  | case2 => exact List.prefix_rfl

theorem grow_of_admission?_eq_none {s : Sketch} {g : Growth}
    (h : s.admission? g.cluster = none) : s.grow g = g := by
  fun_cases Sketch.grow s g with
  | case1 a ha => cases ha.symm.trans h
  | case2 => rfl

theorem steps_grow_eq_iff {s : Sketch} {g : Growth} :
    (s.grow g).cluster.steps = g.cluster.steps ↔ s.admission? g.cluster = none := by
  constructor
  · fun_cases Sketch.grow s g with
    | case1 a _ =>
      intro heq
      have hle := (s.prefix_steps_grow (g.take a)).length_le
      rw [heq] at hle
      simp only [Growth.take, List.length_append, List.length_singleton] at hle
      omega
    | case2 hnone => exact fun _ => hnone
  · intro hnone
    rw [grow_of_admission?_eq_none hnone]

theorem admission?_eq_none_iff {s : Sketch} {k : Cluster}
    (hin : ∀ id ∈ k.constraints, ∀ c, s.constraints.get? id = some c →
      ∀ e ∈ c.ends, e ∈ k.elements) :
    s.admission? k = none ↔ s.Saturated {e | e ∈ k.elements} := by
  refine ⟨saturated_of_admission?_eq_none hin, fun hsat => ?_⟩
  cases ha : s.admission? k with
  | none => rfl
  | some a =>
    obtain ⟨_, _, _, hout⟩ := mem_links.mp (mem_links_of_admission? ha List.mem_cons_self)
    exact absurd (hsat a.element (admits_of_admission? ha)) (Cluster.not_mem_of_outsideEnd? hout)

/-- The elements that a constraint is on. -/
def endsOf (s : Sketch) (id : ConstraintId) : Set ElementId :=
  {e | ∃ c, s.constraints.get? id = some c ∧ e ∈ c.ends}

theorem mem_seedGrowth {s : Sketch} {k : ClusterId} {seed : ConstraintId} {e : ElementId} :
    e ∈ (s.seedGrowth k seed).cluster.elements ↔ e ∈ s.endsOf seed := by
  cases hc : s.constraints.get? seed with
  | none => simp [seedGrowth, endsOf, hc]
  | some c => simp [seedGrowth, endsOf, hc]

/-- Nothing grows from a seed exactly if its ends are saturated. -/
theorem steps_growFrom_eq_iff {s : Sketch} {k : ClusterId} {seed : ConstraintId} :
    (s.growFrom k seed).cluster.steps = [.seed seed] ↔ s.Saturated (s.endsOf seed) := by
  have hset : {e | e ∈ (s.seedGrowth k seed).cluster.elements} = s.endsOf seed :=
    Set.ext fun e => mem_seedGrowth
  have hin : ∀ id ∈ (s.seedGrowth k seed).cluster.constraints, ∀ c,
      s.constraints.get? id = some c → ∀ e ∈ c.ends,
        e ∈ (s.seedGrowth k seed).cluster.elements := by
    intro id hid c hc e he
    obtain rfl : id = seed := by simpa [seedGrowth] using hid
    exact mem_seedGrowth.mpr ⟨c, hc, he⟩
  rw [← hset, ← admission?_eq_none_iff hin]
  exact steps_grow_eq_iff

/-- What becomes of a sketch while clusters are built: the constraints and the kinds of the elements
are the same, and no constraint comes free. -/
structure Narrows (s t : Sketch) : Prop where
  constraints : t.constraints = s.constraints
  kinds : s.elements.Akin t.elements
  free : ∀ id ∈ t.free, id ∈ s.free

theorem Narrows.trans {s t u : Sketch} (h : s.Narrows t) (h' : t.Narrows u) : s.Narrows u :=
  ⟨h'.constraints.trans h.constraints, h.kinds.trans h'.kinds,
    fun id hid => h.free id (h'.free id hid)⟩

theorem narrows_reserve {s : Sketch} (hu : s.elements.Uniform) (spare : Option ClusterId) :
    s.Narrows (s.reserve spare).1 := by
  cases spare <;> exact ⟨rfl, hu.akin, fun _ hid => hid⟩

theorem narrows_commit {s : Sketch} (hu : s.elements.Uniform) (g : Growth) :
    s.Narrows (s.commit g) :=
  ⟨rfl, akin_commit hu g, fun _ hid => (mem_free_commit hid).1⟩

section

variable {s t : Sketch} (h : s.Narrows t)
include h

theorem Narrows.admits {S : Set ElementId} {e : ElementId} (he : t.Admits S e) :
    s.Admits S e := by
  have hjoins : ∀ {id a}, t.Joins id e a → s.Joins id e a := by
    intro id a hj
    unfold Joins at hj ⊢
    rwa [h.constraints] at hj
  obtain ⟨c₁, h₁, c₂, h₂, hne, ⟨a₁, ha₁, hj₁⟩, ⟨a₂, ha₂, hj₂⟩, hcan⟩ := he
  refine ⟨c₁, h.free c₁ h₁, c₂, h.free c₂ h₂, hne, ⟨a₁, ha₁, hjoins hj₁⟩, ⟨a₂, ha₂, hjoins hj₂⟩, ?_⟩
  unfold CanPlace isOfKind at hcan ⊢
  rwa [h.constraints, h.kinds.kind?] at hcan

theorem Narrows.saturated {S : Set ElementId} (hS : s.Saturated S) : t.Saturated S :=
  fun e he => hS e (h.admits he)

theorem Narrows.endsOf (id : ConstraintId) : t.endsOf id = s.endsOf id := by
  unfold Sketch.endsOf
  rw [h.constraints]

end

end Sketch

namespace Draft

/-- Nothing grows from the seed: the only step is the one that places its ends. -/
def Idle (d : Draft) (seed : ConstraintId) : Prop :=
  (d.growth seed).cluster.steps = [.seed seed]

theorem idle_iff_saturated {d : Draft} {seed : ConstraintId} :
    d.Idle seed ↔ d.sketch.Saturated (d.sketch.endsOf seed) := by
  obtain ⟨he, hcs, _⟩ := Sketch.reserve_frame d.sketch d.spare
  have hfree := Sketch.free_reserve d.sketch d.spare
  have hends : (d.sketch.reserve d.spare).1.endsOf seed = d.sketch.endsOf seed := by
    unfold Sketch.endsOf
    rw [hcs]
  unfold Idle growth
  rw [Sketch.steps_growFrom_eq_iff, hends]
  exact Sketch.saturated_congr he hcs fun id => by rw [hfree]

theorem seed_prefix_growth (d : Draft) (seed : ConstraintId) :
    [GrowthStep.seed seed] <+: (d.growth seed).cluster.steps :=
  Sketch.prefix_steps_grow (d.sketch.reserve d.spare).1
    ((d.sketch.reserve d.spare).1.seedGrowth (d.sketch.reserve d.spare).2 seed)

theorem idle_iff_length {d : Draft} {seed : ConstraintId} :
    d.Idle seed ↔ (d.growth seed).cluster.steps.length = 1 := by
  constructor
  · intro hidle
    rw [hidle, List.length_singleton]
  · intro hlen
    exact ((d.seed_prefix_growth seed).eq_of_length hlen.symm).symm

theorem Idle.narrows {d d' : Draft} {seed : ConstraintId} (h : d.Idle seed)
    (hd : d.sketch.Narrows d'.sketch) : d'.Idle seed := by
  rw [idle_iff_saturated] at h ⊢
  rw [hd.endsOf]
  exact hd.saturated h

/-- A trial puts its seed aside, or commits what grows from it. -/
inductive Trial (d d' : Draft) (seed : ConstraintId) : Bool → Prop
  | aside (hidle : d.Idle seed) (haside : d'.aside = seed :: d.aside)
      (hsketch : d'.sketch = (d.sketch.reserve d.spare).1) : Trial d d' seed false
  | commit {retry : Bool} (hgrows : d.Idle seed → retry = true) (haside : d'.aside = d.aside)
      (hsketch : d'.sketch = d.commit seed) : Trial d d' seed retry

theorem exists_trial {d d' : Draft} (h : d.next? = some d') :
    ∃ seed retry, d.sketch.seed? d.aside = some (seed, retry) ∧ d.Trial d' seed retry := by
  unfold next? at h
  split at h
  · cases h
  · obtain ⟨⟨seed, retry⟩, hseed, rfl⟩ := Option.map_eq_some_iff.mp h
    refine ⟨seed, retry, hseed, ?_⟩
    dsimp only
    split
    · rename_i hput
      obtain ⟨hlen, rfl⟩ := hput
      exact .aside (idle_iff_length.mpr hlen) rfl rfl
    · rename_i hput
      refine .commit (fun hidle => ?_) rfl rfl
      exact Bool.eq_true_of_not_eq_false fun hr => hput ⟨idle_iff_length.mp hidle, hr⟩

theorem Trial.narrows {d d' : Draft} {seed : ConstraintId} {retry : Bool}
    (h : d.Trial d' seed retry) (hu : d.sketch.elements.Uniform) :
    d.sketch.Narrows d'.sketch := by
  have hreserve := Sketch.narrows_reserve hu d.spare
  cases h with
  | aside _ _ hsketch => exact hsketch ▸ hreserve
  | commit _ _ hsketch =>
    rw [hsketch]
    exact hreserve.trans (Sketch.narrows_commit hreserve.kinds.uniform _)

theorem Leads.narrows {d d' : Draft} (h : d.Leads d') (hu : d.sketch.elements.Uniform) :
    d.sketch.Narrows d'.sketch := by
  induction h with
  | refl => exact ⟨rfl, hu.akin, fun _ hid => hid⟩
  | tail _ hnext ih =>
    obtain ⟨_, _, _, htrial⟩ := exists_trial hnext
    exact ih.trans (htrial.narrows ih.kinds.uniform)

/-- What was put aside is idle for the rest of the build. -/
theorem Leads.idle {d d' : Draft} (h : d.Leads d') (hu : d.sketch.elements.Uniform)
    {seed : ConstraintId} (hidle : d.Idle seed) : d'.Idle seed :=
  hidle.narrows (h.narrows hu)

theorem Leads.idle_of_mem_aside {d d' : Draft} (h : d.Leads d') (hu : d.sketch.elements.Uniform)
    (haside : ∀ seed ∈ d.aside, d.Idle seed) : ∀ seed ∈ d'.aside, d'.Idle seed := by
  induction h with
  | refl => exact haside
  | @tail d₁ d₂ hleads hnext ih =>
    have hleads : d.Leads d₁ := hleads
    obtain ⟨tried, _, _, htrial⟩ := exists_trial hnext
    have hnarrows := htrial.narrows (hleads.narrows hu).kinds.uniform
    intro seed hseed
    cases htrial with
    | aside hidle haside _ =>
      rw [haside] at hseed
      rcases List.mem_cons.mp hseed with rfl | hseed
      · exact hidle.narrows hnarrows
      · exact (ih seed hseed).narrows hnarrows
    | commit _ haside _ => exact (ih seed (haside ▸ hseed)).narrows hnarrows

theorem Kept.size_elements_growth {base : Nat} {d : Draft} (h : d.Kept base) {seed : ConstraintId}
    (hs : seed ∈ d.sketch.free) :
    (d.growth seed).cluster.elements.size = (d.growth seed).cluster.steps.length + 1 := by
  obtain ⟨c, hc⟩ := h.exists_get? hs
  rw [← (Sketch.reserve_frame d.sketch d.spare).2.1] at hc
  have hg := h.grounded.congr (Sketch.sameProblem_reserve d.sketch d.spare)
  exact (Sketch.construction_growFrom hg hc _).length_steps.symm

theorem mem_of_retried {s : Sketch} {aside : List ConstraintId} {seed : ConstraintId}
    (h : s.seed? aside = some (seed, true)) : seed ∈ aside := by
  unfold Sketch.seed? at h
  split at h
  · cases h
  · obtain ⟨id, hid, heq⟩ := Option.map_eq_some_iff.mp h
    obtain rfl : id = seed := congrArg Prod.fst heq
    simpa using (List.mem_filter.mp (List.mem_of_find?_eq_some hid)).2

/-- A step of the build that makes what grows from a seed its next cluster, and whether the seed had
been put aside before. -/
structure Adds (d d' : Draft) (seed : ConstraintId) (retry : Bool) (k : Cluster) : Prop where
  next : d.next? = some d'
  seed : d.sketch.seed? d.aside = some (seed, retry)
  clusters : d'.sketch.clusters = d.sketch.clusters ++ [k]

theorem clusters_of_commit {d d' : Draft} {seed : ConstraintId} (h : d'.sketch = d.commit seed) :
    d'.sketch.clusters =
      d.sketch.clusters ++ [(d.sketch.reserve d.spare).1.committed (d.growth seed)] := by
  rw [h, commit, Sketch.clusters_commit, (Sketch.reserve_frame d.sketch d.spare).2.2]

theorem Adds.growth {d d' : Draft} {seed : ConstraintId} {retry : Bool} {k : Cluster}
    (h : d.Adds d' seed retry k) :
    k.elements = (d.growth seed).cluster.elements ∧ (d.Idle seed → retry = true) := by
  obtain ⟨_, _, hseed, htrial⟩ := exists_trial h.next
  obtain ⟨rfl, rfl⟩ := Prod.mk.inj (Option.some.inj (hseed.symm.trans h.seed))
  have hclusters := h.clusters
  cases htrial with
  | aside _ _ hsketch =>
    rw [hsketch, (Sketch.reserve_frame d.sketch d.spare).2.2] at hclusters
    simp at hclusters
  | commit hgrows _ hsketch =>
    rw [clusters_of_commit hsketch, List.append_cancel_left_eq, List.singleton_inj] at hclusters
    exact ⟨hclusters ▸ rfl, hgrows⟩

theorem Adds.size {base : Nat} {d d' : Draft} {seed : ConstraintId} {retry : Bool} {k : Cluster}
    (h : d.Adds d' seed retry k) (hd : d.Kept base) (haside : ∀ seed ∈ d.aside, d.Idle seed) :
    if retry then k.elements.size = 2 else 3 ≤ k.elements.size := by
  obtain ⟨helements, hgrows⟩ := h.growth
  have hsize := hd.size_elements_growth (Sketch.mem_free_of_seed? h.seed).1
  rw [← helements] at hsize
  cases retry with
  | true =>
    have hlen := idle_iff_length.mp (haside seed (mem_of_retried h.seed))
    rw [if_pos rfl, hsize, hlen]
  | false =>
    have hlen : (d.growth seed).cluster.steps.length ≠ 1 :=
      fun hlen => Bool.false_ne_true (hgrows (idle_iff_length.mpr hlen))
    have hpos : 1 ≤ (d.growth seed).cluster.steps.length := (d.seed_prefix_growth seed).length_le
    rw [if_neg Bool.false_ne_true]
    omega

/-- Every cluster has been added by a step of the build. -/
theorem Leads.exists_adds {d d' : Draft} (h : d.Leads d') {k : Cluster}
    (hk : k ∈ d'.sketch.clusters) : k ∈ d.sketch.clusters ∨
      ∃ d₁ d₂ seed retry, d.Leads d₁ ∧ d₁.Adds d₂ seed retry k ∧ d₂.Leads d' := by
  induction h with
  | refl => exact Or.inl hk
  | @tail d₁ d₂ hleads hnext ih =>
    have hlater : k ∈ d₁.sketch.clusters → k ∈ d.sketch.clusters ∨
        ∃ a b seed retry, d.Leads a ∧ a.Adds b seed retry k ∧ b.Leads d₂ := by
      intro hk
      refine (ih hk).imp_right ?_
      rintro ⟨a, b, seed, retry, ha, hadds, hb⟩
      exact ⟨a, b, seed, retry, ha, hadds, hb.tail hnext⟩
    obtain ⟨seed, retry, hseed, htrial⟩ := exists_trial hnext
    cases htrial with
    | aside _ _ hsketch =>
      rw [hsketch, (Sketch.reserve_frame d₁.sketch d₁.spare).2.2] at hk
      exact hlater hk
    | commit _ _ hsketch =>
      have hclusters := clusters_of_commit hsketch
      rw [hclusters] at hk
      rcases List.mem_append.mp hk with hk | hk
      · exact hlater hk
      · rw [List.mem_singleton.mp hk]
        exact Or.inr ⟨d₁, d₂, seed, retry, hleads, ⟨hnext, hseed, hclusters⟩, .refl⟩

end Draft

namespace Sketch

/-- Wherever a build stands, a seed from which nothing grows is one from which nothing grows later,
and so are all the seeds that were put aside. A cluster that comes of a seed that had been put aside
has two elements, every other one at least three. -/
theorem Reachable.idle_throughout {s : Sketch} (hs : Reachable s) {d : Draft}
    (hd : s.draft.Leads d) :
    (s.built = false → s.build = { d.finish with built := true }) ∧
    (∀ seed, d.Idle seed → ∀ d', d.Leads d' → d'.Idle seed) ∧
    (∀ seed ∈ d.aside, d.Idle seed) ∧
    (∀ d', d.next? = some d' →
      ∃ seed retry, d.sketch.seed? d.aside = some (seed, retry) ∧ d.Trial d' seed retry) ∧
    (∀ d' seed retry k, d.Adds d' seed retry k →
      if retry then k.elements.size = 2 else 3 ≤ k.elements.size) ∧
    ∀ k ∈ d.sketch.clusters, ∃ d₁ d₂ seed retry,
      s.draft.Leads d₁ ∧ d₁.Adds d₂ seed retry k ∧ d₂.Leads d := by
  have hu : s.draft.sketch.elements.Uniform := (akin_reset s).uniform
  have haside := hd.idle_of_mem_aside hu nofun
  refine ⟨fun hb => ?_, fun seed hidle d' hd' => hd'.idle (hd.narrows hu).kinds.uniform hidle,
    haside, fun d' => Draft.exists_trial, fun d' seed retry k hadds => ?_, fun k hk => ?_⟩
  · rw [build_eq hb, hd.finish_eq]
    rfl
  · exact hadds.size (hs.sound.grounded.kept_draft.leads hd) haside
  · exact (hd.exists_adds hk).resolve_left nofun

end Sketch

/-- The prism with a bar from one of its corners to a point of its own. -/
def Call.pennant : List Call := prism ++ [addPoint false 2 9, constrain .distance ⟨2⟩ ⟨6⟩ 6]

namespace Sketch

/-- The bars are put aside before the second triangle is a cluster, and the one to the loose point
is tried again after that. -/
theorem idle_throughout_pennant :
    ∃ d d', Draft.after? 6 (Call.runAll solveLinear Call.pennant {}).draft = some d ∧
      d.next? = some d' ∧
      d.aside = [⟨7⟩, ⟨6⟩, ⟨9⟩, ⟨8⟩] ∧ (∀ seed ∈ d.aside, d.Idle seed) ∧
      ∃ k, d.Adds d' ⟨9⟩ true k ∧ k.elements.size = 2 := by
  have hs := (Reachable.new {}).runAll solveLinear Call.pennant
  have hfind : ∃ d ∈ Draft.after? 6 (Call.runAll solveLinear Call.pennant {}).draft,
      ∃ d' ∈ d.next?,
      d.aside = [⟨7⟩, ⟨6⟩, ⟨9⟩, ⟨8⟩] ∧ d.sketch.seed? d.aside = some (⟨9⟩, true) := by
    decide +kernel
  obtain ⟨d, hd, d', hnext, haside, hseed⟩ := hfind
  obtain ⟨_, _, hidle, htrial, hsize, _⟩ := Reachable.idle_throughout hs (Draft.leads_of_after? hd)
  refine ⟨d, d', hd, hnext, haside, hidle, ?_⟩
  obtain ⟨seed, retry, hseed', htrial⟩ := htrial d' hnext
  obtain ⟨rfl, rfl⟩ := Prod.mk.inj (Option.some.inj (hseed.symm.trans hseed'))
  cases htrial with
  | commit _ _ hsketch =>
    have hadds : d.Adds d' ⟨9⟩ true _ := ⟨hnext, hseed, Draft.clusters_of_commit hsketch⟩
    exact ⟨_, hadds, hsize d' ⟨9⟩ true _ hadds⟩

end Sketch

end RigidSketch
