import RigidSketch.Proofs.Coverage
import RigidSketch.Proofs.Preparation
import RigidSketch.Proofs.Tally

/-! What a solve leaves that succeeds. All constraints are in one cluster then, and no copies
are left, so that this cluster sees the elements as they are. -/

namespace RigidSketch

open LeastSquares (LinearSolver solveLinear)

theorem Element.copies_eq_nil {e : Element} (h : ∀ k, e.copy? k = none) : e.copies = [] := by
  cases hc : e.copies with
  | nil => rfl
  | cons p rest =>
    have hp := h p.1
    simp [copy?, hc] at hp

namespace Sketch

def Populated (s : Sketch) : Prop := ∀ k ∈ s.clusters, ∃ e, e ∈ k.elements

theorem populated_build {s : Sketch} (hg : Grounded s) (hb : s.built = false) :
    Populated s.build := by
  intro k hk
  have hcount := tallied_build hg hb k hk
  have hne : k.elements.toList ≠ [] := by
    intro hnil
    simp [OrderedSet.size, hnil] at hcount
  exact List.exists_mem_of_ne_nil _ hne

theorem Moved.populated {s t : Sketch} (h : Moved s t) (hp : Populated s) : Populated t := by
  obtain ⟨f, _, rfl⟩ := h
  exact hp

theorem Change.populated {s t : Sketch} (h : Change s t) (hd : Decomposed s) (hp : Populated s) :
    Populated t := by
  cases h with
  | @absorb a b links h =>
    intro k hk
    rcases (mem_clusters_absorb hd.numbered h).mp hk with rfl | ⟨hk, _⟩
    · obtain ⟨e, he⟩ := hp a h.anchor
      exact ⟨e, mem_elements_joined.mpr (Or.inl he)⟩
    · exact hp k hk
  | _ => exact hp

theorem Changes.populated {s t : Sketch} (h : Changes s t) (hg : Grounded s)
    (hd : Decomposed s) (hp : Populated s) : Populated t := by
  induction h with
  | refl => exact hp
  | tail hrun hstep ih => exact hstep.populated (Changes.follows hrun hg hd).decomposed ih

theorem populated_solveBuilt {b : Sketch} (hg : Grounded b) (hf : Fresh b) (hp : Populated b)
    (solver : LinearSolver) : Populated (b.solveBuilt solver).1 := by
  refine solveBuilt_induction hg hf hp fun p h ih => ?_
  have hdragged := h.dragged (p.moves solver)
  exact Changes.populated (Point.changes_step hg h solver _) (hg.congr hdragged.problem)
    hdragged.decomposed ((moved_drag p.sketch (p.moves solver)).populated ih)

theorem length_clusters_joinIntoFirst {s : Sketch} (hg : Grounded s) (hd : Decomposed s) :
    s.joinIntoFirst.clusters.length ≤ 1 := by
  unfold joinIntoFirst
  split
  · rename_i hc
    simp [hc]
  · rename_i first rest hc
    obtain ⟨_, k, hone⟩ := changes_foldl_absorb hg hd hc
    simp [hone]

variable {solver : LinearSolver}

theorem length_clusters_relax {s : Sketch} (hg : Grounded s) (hd : Decomposed s)
    (h : (s.relax solver).2 = .solved) : (s.relax solver).1.clusters.length ≤ 1 := by
  unfold relax at h ⊢
  cases hr : s.relaxation? solver with
  | none => simp [hr] at h
  | some p =>
    obtain ⟨members, target⟩ := p
    simp only [hr] at h ⊢
    have hdrag := (moveOnto_eq_drag target members s).1
    have hmoved := moved_drag s (ontoMoves target members s)
    rw [← hdrag] at hmoved
    rcases ho : moveOnto target members s with ⟨t, status⟩
    rw [ho] at h hmoved
    have hfollows := hmoved.follows hd
    have hloosen := (Change.loosen t target).follows (hg.congr hfollows.problem)
      hfollows.decomposed
    have hloose := hfollows.trans hloosen
    cases status with
    | solved => exact length_clusters_joinIntoFirst (hg.congr hloose.problem) hloose.decomposed
    | _ => cases h

theorem follows_relax {s : Sketch} (hg : Grounded s) (hd : Decomposed s) :
    Follows s (s.relax solver).1 := by
  have hdrag := (moved_drag s (s.relaxMoves solver)).follows hd
  exact hdrag.trans (Changes.follows (changes_relax solver hg hd).1 (hg.congr hdrag.problem)
    hdrag.decomposed)

theorem joinClusters_of_solved {s : Sketch} (hg : Grounded s) (hd : Decomposed s)
    (h : (s.joinClusters solver).2 = .solved) :
    Follows s (s.joinClusters solver).1 ∧ (s.joinClusters solver).1.clusters.length ≤ 1 := by
  obtain ⟨hfollows, _⟩ := joinRounds_status hg hd s.clusters.length
  unfold joinClusters joinAll at h ⊢
  rcases hj : s.joinRounds s.clusters.length with ⟨t, status⟩
  rw [hj] at h hfollows
  cases status with
  | solved =>
    have ht := hg.congr hfollows.problem
    dsimp only at h hfollows ⊢
    by_cases hlen : 1 < t.clusters.length
    · rw [if_pos hlen] at h ⊢
      exact ⟨hfollows.trans (follows_relax ht hfollows.decomposed),
        length_clusters_relax ht hfollows.decomposed h⟩
    · rw [if_neg hlen]
      exact ⟨hfollows, Nat.le_of_not_lt hlen⟩
  | _ => cases h

theorem exists_joined {b : Sketch} (hg : Grounded b) (hf : Fresh b)
    (hs : b.StagesSucceed solver) :
    ∃ u : Sketch, Decomposed u ∧ u.clusters.length ≤ 1 ∧
      (b.solveBuilt solver).1.elements = u.elements.map (·.settle) ∧
      (b.solveBuilt solver).1.clusters = u.clusters := by
  have hrealized := realized_realizeAll hf fun _ hk => hk
  have hfollows := hrealized.moved.follows hf.decomposed
  have hjoined := joinClusters_of_solved (hg.congr hfollows.problem) hfollows.decomposed hs.2
  refine ⟨(b.realizeClusters.1.joinClusters solver).1, hjoined.1.decomposed, hjoined.2, ?_⟩
  obtain ⟨hr, hj⟩ := hs
  unfold solveBuilt
  rcases hrc : b.realizeClusters with ⟨t, status⟩
  rw [hrc] at hr hj
  obtain rfl : status = .solved := hr
  dsimp only at hj ⊢
  rcases hjc : t.joinClusters solver with ⟨u, status⟩
  rw [hjc] at hj
  obtain rfl : status = .solved := hj
  dsimp only
  rw [finish_of_marked (marked_markSolved _)]
  exact ⟨rfl, rfl⟩

/-- All that is constrained is in one cluster, which sees the elements as they are. -/
structure Whole (s : Sketch) : Prop where
  single : s.constraints.constraints ≠ [] → ∃ k, s.clusters = [k]
  none : s.constraints.constraints = [] → s.clusters = []
  elements : ∀ k ∈ s.clusters, ∀ e,
    e ∈ k.elements ↔ ∃ c ∈ s.constraints.constraints, e ∈ c.ends
  constraints : ∀ k ∈ s.clusters, ∀ id, id ∈ k.constraints ↔ id ∈ s.constraints.ids
  free : s.free = ∅
  copies : ∀ e ∈ s.elements.elements, e.copies = []
  views : ∀ k ∈ s.clusters, ∀ e,
    s.elements.shapeIn? k.id e = (s.elements.get? e).map (·.shape)

theorem Owned.length_owners_le {s : Sketch} (h : Owned s) {e : Element}
    (he : e ∈ s.elements.elements) : e.owners.length ≤ s.clusters.length := by
  have hsub : e.owners ⊆ s.clusters.map (·.id) := by
    intro k hk
    obtain ⟨c, hc, hid, _⟩ := (h.owners e he k).mp hk
    exact List.mem_map.mpr ⟨c, hc, hid⟩
  have hle := (List.subperm_of_subset (h.copied e he).nodup hsub).length_le
  rwa [List.length_map] at hle

theorem Owned.copy?_settle_eq_none {s : Sketch} (h : Owned s) (hl : s.clusters.length ≤ 1)
    {e : Element} (he : e ∈ s.elements.elements) (k : ClusterId) : e.settle.copy? k = none := by
  have hcopied := (h.copied e he).toCopied
  have hlen := h.length_owners_le he
  rw [Element.copy?_settle hcopied]
  split
  · rfl
  · rename_i hne
    have hnil : e.owners = [] := List.length_eq_zero_iff.mp (by omega)
    refine Option.not_isSome_iff_eq_none.mp fun hsome => ?_
    simpa [hnil] using hcopied.owned k hsome

theorem Decomposed.whole {s : Sketch} (hd : Decomposed s) (hp : Populated s)
    (hl : s.clusters.length ≤ 1) (hc : ∀ e ∈ s.elements.elements, e.copies = []) : Whole s := by
  have hnone : s.constraints.constraints = [] → s.clusters = [] := by
    intro hnil
    refine List.eq_nil_iff_forall_not_mem.mpr fun k hk => ?_
    obtain ⟨e, he⟩ := hp k hk
    obtain ⟨c, hm, _⟩ := hd.touched e ⟨k, hk, he⟩
    simp [hnil] at hm
  have hsingle : ∀ k ∈ s.clusters, s.clusters = [k] := by
    intro k hk
    obtain ⟨l, hcs⟩ := List.length_eq_one_iff.mp
      (Nat.le_antisymm hl (List.length_pos_of_mem hk))
    rw [hcs, List.mem_singleton] at hk
    rw [hcs, hk]
  have hfree : s.free = ∅ := by
    match hcs : s.clusters with
    | k :: _ => exact free_eq_empty hd (hsingle k (by simp [hcs]))
    | [] =>
      -- without clusters there is no constraint that could be free
      refine OrderedSet.ext (List.eq_nil_iff_forall_not_mem.mpr fun id hid => ?_)
      obtain ⟨c, hget⟩ := hd.partitioned.exists_get? hid
      obtain ⟨k, hk, _⟩ := hd.claimed c (ConstraintTable.mem_of_get? hget).1 c.first
        (by simp [Constraint.ends])
      simp [hcs] at hk
  refine ⟨fun hne => ?_, hnone, fun k hk e => ⟨fun he => ?_, ?_⟩, fun k hk id => ?_, hfree, hc,
    fun k _ e => ?_⟩
  · obtain ⟨c, hm⟩ := List.exists_mem_of_ne_nil _ hne
    obtain ⟨k, hk, _⟩ := hd.claimed c hm c.first (by simp [Constraint.ends])
    exact ⟨k, hsingle k hk⟩
  · exact hd.touched e ⟨k, hk, he⟩
  · rintro ⟨c, hm, he⟩
    obtain ⟨l, hlm, hel⟩ := hd.claimed c hm e he
    rw [hsingle k hk, List.mem_singleton] at hlm
    exact hlm ▸ hel
  · rw [hd.partitioned.cover, hfree, hsingle k hk]
    simp
  · unfold ElementTable.shapeIn?
    cases hget : s.elements.get? e with
    | none => rfl
    | some x =>
      have hx := hc x (ElementTable.mem_of_get? hget).1
      simp [Element.shapeIn, Element.copy?, hx]

/-- A solve that finds the sketch solved or underconstrained, and does not repeat the last
outcome, has joined all clusters into one and folded every copy back. -/
theorem Reachable.whole_of_solve {s : Sketch} (hs : Reachable s) (hn : s.isSettled = false)
    {solver : LinearSolver}
    (hc : (s.solve solver).2 = .solved ∨ (s.solve solver).2 = .underconstrained) :
    Whole (s.solve solver).1 := by
  obtain ⟨hg, hf⟩ := hs.sound.prepared hn
  obtain ⟨t, ht, hbuilt, _, hprepared⟩ := hs.prepared_eq_build hn
  have hp : Populated s.prepared := hprepared ▸ populated_build ht.sound.grounded hbuilt
  rw [solve_eq_of_not_isSettled hn] at hc ⊢
  have hsucceed : s.prepared.StagesSucceed solver := by
    by_contra hfail
    rcases (concluded_solveBuilt hg hf solver).failed hfail with h | h
    · simp [h] at hc
    · simp [h] at hc
  obtain ⟨u, hu, hlen, helements, hclusters⟩ := exists_joined hg hf hsucceed
  refine (follows_solveBuilt hg hf solver).decomposed.whole (populated_solveBuilt hg hf hp solver)
    ?_ ?_
  · rw [hclusters]
    exact hlen
  · intro e he
    rw [helements] at he
    obtain ⟨x, hx, rfl⟩ := List.mem_map.mp he
    exact Element.copies_eq_nil (hu.owned.copy?_settle_eq_none hlen hx)

/-- Four bars that only relaxation joins, and a point that stays outside. -/
theorem whole_of_solve_square :
    ((Call.runAll solveLinear Call.square {}).solve solveLinear).2 = .underconstrained ∧
      Whole ((Call.runAll solveLinear Call.square {}).solve solveLinear).1 := by
  have hs := (Reachable.new {}).runAll solveLinear Call.square
  have hn : (Call.runAll solveLinear Call.square {}).isSettled = false := by decide +kernel
  have hc : ((Call.runAll solveLinear Call.square {}).solve solveLinear).2 =
      .underconstrained := by
    decide +kernel
  exact ⟨hc, Reachable.whole_of_solve hs hn (Or.inr hc)⟩

end Sketch

end RigidSketch
