import RigidSketch.Proofs.Agreement
import RigidSketch.Proofs.Saturation

/-! How long building and joining take. A seed that is tried is put aside for the first time or
leaves the free constraints for good, and a round that joins clusters leaves fewer of them. -/

namespace RigidSketch

open LeastSquares (LinearSolver solveLinear)

namespace Sketch

/-- A construction has one step for its first two elements and one for each further one. -/
theorem Construction.length_steps {s : Sketch} {steps : List GrowthStep}
    {placed : List ElementId} (h : s.Construction steps placed) :
    steps.length + 1 = placed.length := by
  induction h with
  | seed => rfl
  | place _ _ _ _ _ _ _ _ ih => simp only [List.length_append, List.length_singleton, ih]

/-- A step takes two free constraints, and the first step one. -/
theorem length_steps_growFrom {s : Sketch} (hg : Grounded s) {seed : ConstraintId}
    {c : Constraint} (hs : seed ∈ s.free) (hc : s.constraints.get? seed = some c)
    (k : ClusterId) : 2 * (s.growFrom k seed).cluster.steps.length ≤ s.free.size + 1 := by
  have hgrown := grown_growFrom hs hc k
  have hplaced := (construction_growFrom hg hc k).length_steps
  have hused := (balanced_growFrom hg hc k).used
  have hfree : (s.growFrom k seed).used.length ≤ s.free.size := by
    have hnodup := (s.growFrom k seed).cluster.constraints.nodup.sublist
      (List.filter_sublist (p := (· ∉ (s.growFrom k seed).excess)))
    refine (hnodup.subperm fun id hid => ?_).length_le
    exact hgrown.free id (List.mem_filter.mp hid).1
  unfold OrderedSet.size at hused hfree
  unfold OrderedSet.size
  omega

end Sketch

namespace Draft

theorem Kept.length_steps_growth {base : Nat} {d : Draft} (h : d.Kept base) {seed : ConstraintId}
    {c : Constraint} (hs : seed ∈ d.sketch.free) (hc : d.sketch.constraints.get? seed = some c) :
    2 * (d.growth seed).cluster.steps.length ≤ d.sketch.free.size + 1 := by
  have hfree := Sketch.free_reserve d.sketch d.spare
  have hconstraints := (Sketch.reserve_frame d.sketch d.spare).2.1
  have hg := h.grounded.congr (Sketch.sameProblem_reserve d.sketch d.spare)
  rw [← hfree] at hs ⊢
  rw [← hconstraints] at hc
  exact Sketch.length_steps_growFrom hg hs hc _

/-- The draft after a number of seeds, if building comes to try as many. -/
def after? : Nat → Draft → Option Draft
  | 0, d => some d
  | n + 1, d => d.next?.bind (after? n)

/-- What the trial of a seed does to a draft. -/
inductive Spends (d d' : Draft) (seed : ConstraintId) : Prop
  | aside (hnew : seed ∉ d.aside) (haside : d'.aside = seed :: d.aside)
      (hfree : d'.sketch.free = d.sketch.free) (hclusters : d'.sketch.clusters = d.sketch.clusters)
  | commit {k : Cluster} (hgone : seed ∉ d'.sketch.free)
      (hfree : d'.sketch.free.toList.Sublist d.sketch.free.toList) (haside : d'.aside = d.aside)
      (hclusters : d'.sketch.clusters = d.sketch.clusters ++ [k])

theorem exists_spends {d d' : Draft} (h : d.next? = some d') :
    ∃ seed ∈ d.sketch.free, d.Spends d' seed := by
  have hfree := Sketch.free_reserve d.sketch d.spare
  have hclusters := (Sketch.reserve_frame d.sketch d.spare).2.2
  unfold next? at h
  split at h
  · cases h
  · obtain ⟨⟨seed, retry⟩, hseed, rfl⟩ := Option.map_eq_some_iff.mp h
    obtain ⟨hmem, hnew⟩ := Sketch.mem_free_of_seed? hseed
    refine ⟨seed, hmem, ?_⟩
    dsimp only
    split
    · rename_i hlone
      exact .aside (hnew hlone.2) rfl hfree hclusters
    · have hin : seed ∈ (d.growth seed).cluster.constraints := Sketch.seed_mem_growFrom _ _ _
      have hsub := Sketch.free_commit_sublist (d.sketch.reserve d.spare).1 (d.growth seed)
      refine .commit (k := (d.sketch.reserve d.spare).1.committed (d.growth seed))
        (fun hf => (Sketch.mem_free_commit hf).2 hin) (hfree ▸ hsub) rfl ?_
      rw [commit, Sketch.clusters_commit, hclusters]

/-- The trials that are left at most. -/
def budget (d : Draft) : Nat := d.sketch.free.size + (d.sketch.untried d.aside).length

/-- Every trial costs, and every cluster costs a free constraint. -/
theorem Spends.costs {d d' : Draft} {seed : ConstraintId} (hseed : seed ∈ d.sketch.free)
    (h : d.Spends d' seed) : d'.budget < d.budget ∧
      d'.sketch.clusters.length + d'.sketch.free.size ≤
        d.sketch.clusters.length + d.sketch.free.size := by
  unfold budget OrderedSet.size
  cases h with
  | aside hnew haside hfree hclusters =>
    have hless := Sketch.length_untried_cons_lt hseed hnew
    unfold Sketch.untried at hless ⊢
    rw [haside, hfree, hclusters]
    exact ⟨Nat.add_lt_add_left hless _, Nat.le_refl _⟩
  | commit hgone hfree haside hclusters =>
    have hless : d'.sketch.free.toList.length < d.sketch.free.toList.length := by
      refine Nat.lt_of_le_of_ne hfree.length_le fun heq => hgone ?_
      rw [OrderedSet.mem_def, hfree.eq_of_length heq]
      exact hseed
    have huntried := (hfree.filter (· ∉ d.aside)).length_le
    unfold Sketch.untried
    rw [haside, hclusters, List.length_append, List.length_singleton]
    omega

theorem Leads.clusters_add_free_le {d d' : Draft} (h : d.Leads d') :
    d'.sketch.clusters.length + d'.sketch.free.size ≤
      d.sketch.clusters.length + d.sketch.free.size := by
  induction h with
  | refl => exact Nat.le_refl _
  | tail _ hnext ih =>
    obtain ⟨seed, hseed, hspends⟩ := exists_spends hnext
    exact (hspends.costs hseed).2.trans ih

theorem leads_of_after? {n : Nat} {d d' : Draft} (h : after? n d = some d') : d.Leads d' := by
  induction n generalizing d with
  | zero =>
    cases h
    exact .refl
  | succ n ih =>
    obtain ⟨next, hnext, h⟩ := Option.bind_eq_some_iff.mp h
    exact .head hnext (ih h)

/-- Building stops before the budget is overspent. -/
theorem exists_after? (d : Draft) :
    ∃ n ≤ d.budget, ∃ d', after? n d = some d' ∧ d'.next? = none := by
  induction hb : d.budget using Nat.strong_induction_on generalizing d with
  | _ b ih =>
    cases hnext : d.next? with
    | none => exact ⟨0, Nat.zero_le _, d, rfl, hnext⟩
    | some next =>
      obtain ⟨seed, hseed, hspends⟩ := exists_spends hnext
      have hless := (hspends.costs hseed).1
      obtain ⟨n, hn, d', hafter, hstop⟩ := ih next.budget (hb ▸ hless) next rfl
      refine ⟨n + 1, by omega, d', ?_, hstop⟩
      rw [after?, hnext]
      exact hafter

end Draft

namespace Sketch

theorem size_free_reset {s : Sketch} (hg : Grounded s) :
    s.reset.free.size = s.constraints.constraints.length := by
  have hlist : s.reset.free.toList = s.constraints.ids :=
    OrderedSet.toList_insertAll (ConstraintTable.nodup_ids hg.constraints)
      fun _ _ => OrderedSet.not_mem_empty _
  rw [OrderedSet.size, hlist, ConstraintTable.ids, List.length_map]

theorem budget_draft {s : Sketch} (hg : Grounded s) :
    s.draft.budget = 2 * s.constraints.constraints.length := by
  have hall : s.reset.untried [] = s.reset.free.toList := by simp [untried]
  have hsize := size_free_reset hg
  unfold OrderedSet.size at hsize
  unfold Draft.budget draft OrderedSet.size
  rw [hall, hsize]
  omega

theorem length_clusters_absorb {s : Sketch} {a b : Cluster} {links : List ConstraintId}
    (hn : Numbered s.clusterNumbers s.nextCluster) (h : s.Joinable a b links) :
    (s.absorb a.id b.id links).clusters.length + 1 = s.clusters.length := by
  obtain ⟨_, _, heq⟩ := absorb_eq hn h
  have hpos := List.length_pos_of_mem h.moving
  have herase := List.length_eraseP_of_mem (p := fun k : Cluster => decide (k.id = b.id)) h.moving
    (decide_eq_true rfl)
  rw [heq, List.length_map, herase]
  omega

theorem Absorbs.length_clusters {anchor : ClusterId} {links : List ConstraintId}
    {movers : List ClusterId} {s : Sketch} (h : Absorbs anchor links movers s) (hg : Grounded s)
    (hd : Decomposed s) :
    (absorbAll anchor links movers s).clusters.length + movers.length = s.clusters.length := by
  refine (h.forall_absorptions (P := fun rest t =>
    t.clusters.length + movers.length = s.clusters.length + rest.length) ?_ hg hd rfl).2
  intro t a b rest _ hd _ hj hlen
  have hstep := length_clusters_absorb hd.numbered hj
  rw [List.length_cons] at hlen
  omega

theorem Join.movers_ne_nil (s : Sketch) (j : Join) : j.movers s ≠ [] := by
  cases j <;> exact List.cons_ne_nil _ _

theorem movers_of_roundMerger? {s : Sketch} {m : Merger} (h : s.roundMerger? = some m) :
    m.movers ≠ [] := by
  unfold roundMerger? at h
  obtain ⟨j, _, h⟩ := Option.bind_eq_some_iff.mp h
  split at h
  · obtain ⟨moves, _, rfl⟩ := Option.map_eq_some_iff.mp h
    exact j.movers_ne_nil s
  · cases h

/-- A round that joins clusters finds the clusters that it absorbs. -/
theorem Underpinned.joined {s t : Sketch} (h : s.Underpinned)
    (hj : s.joinOnce = (t, some .joined)) :
    t.Underpinned ∧ t.clusters.length < s.clusters.length := by
  have hfollows : Follows s s.joinOnce.1 := follows_joinOnce h.grounded h.decomposed
  have hregroups := s.regroups_joinOnce
  rw [hj] at hfollows hregroups
  refine ⟨⟨h.grounded.congr hfollows.problem, hfollows.decomposed,
    h.supplied.regroups hregroups⟩, ?_⟩
  cases hm : s.roundMerger? with
  | none => exact absurd (congrArg Prod.snd hj) (h.round.2 hm).1
  | some m =>
    obtain ⟨heq, hfits⟩ := h.round.1 m hm
    obtain ⟨moves, hstart, _⟩ := hfits.moved
    have hmoved := moved_drag s moves
    have hdrag := hmoved.follows h.decomposed
    rw [hj] at heq
    obtain rfl : t = m.result := congrArg Prod.fst heq
    rw [← hstart] at hmoved hdrag
    have hlen := hfits.absorbs.length_clusters (h.grounded.congr hdrag.problem) hdrag.decomposed
    have hmovers := List.length_pos_of_ne_nil (movers_of_roundMerger? hm)
    rw [hmoved.clusters] at hlen
    unfold Merger.result
    omega

/-- Joining as it goes on for as long as it can: what it comes to, and after how many rounds that
join clusters. -/
inductive JoinsUp : Sketch → Nat → Sketch × Status → Prop
  | single {s : Sketch} (h : s.clusters.length ≤ 1) : JoinsUp s 0 (s, .solved)
  | stalled {s t : Sketch} (h : 1 < s.clusters.length) (hj : s.joinOnce = (t, none)) :
      JoinsUp s 0 (t, .solved)
  | failed {s t : Sketch} {status : Status} (h : 1 < s.clusters.length)
      (hj : s.joinOnce = (t, some (.failed status))) : JoinsUp s 0 (t, status)
  | joined {s t : Sketch} {n : Nat} {r : Sketch × Status} (h : 1 < s.clusters.length)
      (hj : s.joinOnce = (t, some .joined)) (hless : t.clusters.length < s.clusters.length)
      (hrest : JoinsUp t n r) : JoinsUp s (n + 1) r

theorem Underpinned.exists_joinsUp {s : Sketch} (h : s.Underpinned) {rounds : Nat}
    (hr : s.clusters.length ≤ rounds) :
    ∃ n ≤ s.clusters.length - 1, s.JoinsUp n (s.joinRounds rounds) := by
  induction rounds generalizing s with
  | zero => exact ⟨0, Nat.zero_le _, .single (by omega)⟩
  | succ rounds ih =>
    unfold joinRounds
    split
    · rename_i hone
      exact ⟨0, Nat.zero_le _, .single hone⟩
    · rename_i hmany
      have hmany : 1 < s.clusters.length := Nat.lt_of_not_le hmany
      split
      · rename_i t hj
        obtain ⟨ht, hless⟩ := h.joined hj
        obtain ⟨n, hn, hrest⟩ := ih ht (by omega)
        exact ⟨n + 1, by omega, .joined hmany hj hless hrest⟩
      · rename_i t status hj
        exact ⟨0, Nat.zero_le _, .failed hmany hj⟩
      · rename_i t hj
        exact ⟨0, Nat.zero_le _, .stalled hmany hj⟩

/-- With `m` constraints a build tries at most `2 m` seeds and commits at most `m` clusters, and no
growth has more than `m / 2 + 1` steps. Wherever a solve stands, joining `k` clusters ends after
at most `k - 1` rounds that join some, each of which leaves fewer. -/
theorem Reachable.efforts {s : Sketch} (hs : Reachable s) (solver : LinearSolver) :
    (∃ n ≤ 2 * s.constraints.constraints.length, ∃ d, Draft.after? n s.draft = some d ∧
      d.next? = none ∧ d.sketch.clusters.length ≤ s.constraints.constraints.length ∧
      (s.built = false → s.build = { d.sketch with built := true })) ∧
    (∀ d, s.draft.Leads d →
      (∀ d', d.next? = some d' → ∃ seed ∈ d.sketch.free, d.Spends d' seed) ∧
      ∀ seed ∈ d.sketch.free,
        2 * (d.growth seed).cluster.steps.length ≤ s.constraints.constraints.length + 1) ∧
    (s.isSettled = false → ∀ p ∈ s.prepared.points solver,
      ∃ n ≤ p.sketch.clusters.length - 1, p.sketch.JoinsUp n p.sketch.joinAll) := by
  have hg := hs.sound.grounded
  have hless : ∀ d, s.draft.Leads d →
      d.sketch.clusters.length + d.sketch.free.size ≤ s.constraints.constraints.length := by
    intro d hd
    have hle := hd.clusters_add_free_le
    have hstart : s.draft.sketch.clusters.length = 0 := rfl
    have hsize : s.draft.sketch.free.size = _ := size_free_reset hg
    omega
  refine ⟨?_, fun d hd => ⟨fun d' => Draft.exists_spends, fun seed hseed => ?_⟩,
    fun hn p hp => (hs.underpinned hn hp).exists_joinsUp (Nat.le_refl _)⟩
  · obtain ⟨n, hn, d, hafter, hstop⟩ := s.draft.exists_after?
    have hd := Draft.leads_of_after? hafter
    refine ⟨n, budget_draft hg ▸ hn, d, hafter, hstop, ?_, fun hb => ?_⟩
    · have hle := hless d hd
      omega
    · have hlast : d.finish = d.sketch := by
        rw [Draft.finish_eq, hstop]
        rfl
      rw [build_eq hb, ← hlast, hd.finish_eq]
      rfl
  · obtain ⟨c, hc⟩ := (hg.kept_draft.leads hd).exists_get? hseed
    have hsteps := (hg.kept_draft.leads hd).length_steps_growth hseed hc
    have hle := hless d hd
    omega

end Sketch

/-- The gate with a bar from its far end to one more point. -/
def Call.latch : List Call :=
  gate ++ [addPoint false 1 7, constrain .distance ⟨5⟩ ⟨6⟩ 2]

namespace Sketch

/-- Two bars are put aside, and one of them becomes a cluster when it is tried again. -/
theorem efforts_latch :
    (Draft.after? 5 (Call.runAll solveLinear Call.latch {}).draft).isSome = true ∧
    (∃ n ≤ 2 * (Call.runAll solveLinear Call.latch {}).constraints.constraints.length, ∃ d,
      Draft.after? n (Call.runAll solveLinear Call.latch {}).draft = some d ∧ d.next? = none ∧
      d.sketch.clusters.length ≤
        (Call.runAll solveLinear Call.latch {}).constraints.constraints.length) ∧
    ∃ p ∈ (Call.runAll solveLinear Call.latch {}).prepared.points solveLinear,
      p.stage = .joining 3 ∧
      ∃ n ≤ p.sketch.clusters.length - 1, p.sketch.JoinsUp n p.sketch.joinAll := by
  have hs := (Reachable.new {}).runAll solveLinear Call.latch
  have hn : (Call.runAll solveLinear Call.latch {}).isSettled = false := by decide +kernel
  obtain ⟨⟨n, hle, d, hafter, hstop, hclusters, _⟩, _, hjoins⟩ := Reachable.efforts hs solveLinear
  have hstage : ∃ p ∈ (Call.runAll solveLinear Call.latch {}).prepared.points solveLinear,
      p.stage = .joining 3 := by
    decide +kernel
  obtain ⟨p, hp, hp3⟩ := hstage
  exact ⟨by decide +kernel, ⟨n, hle, d, hafter, hstop, hclusters⟩, p, hp, hp3, hjoins hn p hp⟩

end Sketch

end RigidSketch
