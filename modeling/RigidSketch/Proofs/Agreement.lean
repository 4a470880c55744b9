import RigidSketch.Proofs.Mergers

/-! Nothing is lost unseen when clusters are joined. Copies that are given up agree with those that
are kept, and a constraint that is free no longer is satisfied or known to be conflicting. -/

namespace RigidSketch

open LeastSquares (LinearSolver solveLinear)

namespace Sketch

/-- A constraint holds up to the tolerance as a cluster sees its ends. -/
def HoldsIn (tolerance : Float) (s : Sketch) (k : ClusterId) (id : ConstraintId) : Prop :=
  ∃ r, s.residualBy (s.shapeIn? k) id = some r ∧ r.abs ≤ tolerance

theorem isMet_iff {s : Sketch} {residual : Option Float} :
    s.isMet residual = true ↔ ∃ r, residual = some r ∧ r.abs ≤ s.tolerance := by
  cases residual with
  | none => simp [isMet]
  | some r => simp [isMet]

/-- One cluster absorbs another of which it knows what is given up: the two agree on what they
share, and a constraint that is free no longer holds in what they come to or is conflicting. -/
structure Lossless (tolerance : Float) (Q : ElementId → Shape Float → Shape Float → Prop)
    (links : List ConstraintId) (s : Sketch) (a b : Cluster) : Prop where
  joinable : s.Joinable a b links
  shared : ∀ e ∈ a.elements, e ∈ b.elements →
    ∃ g h, s.shapeIn? a.id e = some g ∧ s.shapeIn? b.id e = some h ∧ Q e g h
  freed : ∀ id ∈ s.free, id ∉ (s.absorb a.id b.id links).free →
    (s.absorb a.id b.id links).HoldsIn tolerance a.id id ∨
      id ∈ (s.absorb a.id b.id links).conflicting

section

variable {s : Sketch} {a b : Cluster} {links : List ConstraintId}

theorem residualBy_absorb (hd : Decomposed s) (h : s.Joinable a b links)
    (hloose : s.hasFixed b = false) {id : ConstraintId} (hspans : s.Spans a b id) :
    (s.absorb a.id b.id links).residualBy ((s.absorb a.id b.id links).shapeIn? a.id) id =
      s.residualBy (s.shapeAcross? a.id b.id) id := by
  obtain ⟨c, hc, hends⟩ := hspans
  have hview : ∀ e ∈ c.ends,
      (s.absorb a.id b.id links).shapeIn? a.id e = s.shapeAcross? a.id b.id e := by
    intro e he
    refine shapeIn?_absorb hd h (hends e he) fun hr => ?_
    have hfixed := isFixed_of_hasFixed hloose hr.mem
    rw [hr.fixed] at hfixed
    cases hfixed
  have hfirst := hview c.first (by simp [Constraint.ends])
  have hsecond := hview c.second (by simp [Constraint.ends])
  simp only [residualBy, (absorb_frame hd.numbered h).2.1, hc, hfirst, hsecond,
    Option.bind_eq_bind, Option.bind_some]

theorem freed_absorb (hd : Decomposed s) (h : s.Joinable a b links)
    (hlinks : ∀ id ∈ links, s.linkHolds id a.id b.id = true ∧ s.hasFixed b = false)
    {id : ConstraintId} (hid : id ∈ s.free) (hgone : id ∉ (s.absorb a.id b.id links).free) :
    (s.absorb a.id b.id links).HoldsIn s.tolerance a.id id ∨
      id ∈ (s.absorb a.id b.id links).conflicting := by
  have htolerance : (s.absorb a.id b.id links).tolerance = s.tolerance :=
    congrArg Settings.tolerance (absorb_frame hd.numbered h).1
  have hspans : s.Spans a b id := by
    by_contra hno
    exact hgone ((mem_free_absorb hd.numbered h).mpr ⟨hid, hno⟩)
  by_cases hlink : id ∈ links
  · obtain ⟨hholds, hloose⟩ := hlinks id hlink
    obtain ⟨r, hr, hle⟩ := isMet_iff.mp hholds
    exact Or.inl ⟨r, (residualBy_absorb hd h hloose hspans).trans hr, hle⟩
  · obtain ⟨unmet, hunmet, heq⟩ := absorb_eq hd.numbered h
    by_cases hmet : id ∈ unmet
    · right
      rw [heq]
      exact OrderedSet.mem_insertAll.mpr (Or.inr hmet)
    · left
      have hin : id ∈ s.enclosed a b links := mem_enclosed.mpr ⟨⟨hid, hlink⟩, hspans⟩
      have hholds := isMet_iff.mp (by simpa [hin] using mt (hunmet id).mpr hmet)
      rwa [htolerance] at hholds

end

def Merger.Lossless (tolerance : Float) (Q : ElementId → Shape Float → Shape Float → Prop)
    (m : Merger) : Prop :=
  ∀ q ∈ m.moments, ∃ a b, a.id = m.anchor ∧ b.id = q.2 ∧
    Sketch.Lossless tolerance Q m.links q.1 a b

theorem Linked.absorb {s : Sketch} (hd : Decomposed s) {a b : Cluster}
    {links : List ConstraintId} (h : s.Joinable a b links) (rest : List ClusterId) :
    (s.absorb a.id b.id links).Linked a.id links rest := by
  -- links are free at the first absorption alone
  intro id hid hfree
  exact absurd (h.links id hid).2 ((mem_free_absorb hd.numbered h).mp hfree).2

theorem Merger.lossless {m : Merger} (hg : Grounded m.start) (hd : Decomposed m.start)
    {Q : ElementId → Shape Float → Shape Float → Prop}
    (habsorbs : Absorbs m.anchor m.links m.movers m.start)
    (hagree : m.start.Agreeing Q (m.anchor :: m.movers))
    (hlinked : m.start.Linked m.anchor m.links m.movers) :
    m.Lossless m.start.tolerance Q := by
  have hrun := habsorbs.forall_absorptions
    (P := fun rest t => t.tolerance = m.start.tolerance ∧ t.Agreeing Q (m.anchor :: rest) ∧
      t.Linked m.anchor m.links rest) ?_ hg hd ⟨rfl, hagree, hlinked⟩
  · intro q hq
    obtain ⟨a, b, rest, _, hd, ha, hb, hj, htolerance, hagree, hlinked⟩ := hrun.1 q hq
    refine ⟨a, b, ha, hb, hj, fun e hea heb => ?_, fun id hid hgone => ?_⟩
    · exact hagree a hj.anchor b hj.moving (by simp [ha]) (by simp) hj.distinct e hea heb
    · rw [← htolerance]
      refine freed_absorb hd hj (fun link hlink => ?_) hid hgone
      rw [ha]
      exact hlinked link hlink (hj.links link hlink).1 b hj.moving (by simp)
  · intro t a b rest _ hd ha hj ⟨htolerance, hagree, _⟩
    rw [← ha] at hagree ⊢
    have hsettings := (absorb_frame hd.numbered hj).1
    exact ⟨(congrArg Settings.tolerance hsettings).trans htolerance, hagree.absorb hd hj,
      Linked.absorb hd hj rest⟩

theorem Merger.Fits.lossless {s : Sketch} (hg : Grounded s) (hd : Decomposed s) {m : Merger}
    (h : m.Fits s) : m.Lossless s.tolerance (Close s.tolerance) := by
  obtain ⟨moves, hstart, _⟩ := h.moved
  have hfollows := (moved_drag s moves).follows hd
  rw [← hstart] at hfollows
  have htolerance : m.start.tolerance = s.tolerance := hstart ▸ (moved_drag s moves).tolerance
  rw [← htolerance]
  exact m.lossless (hg.congr hfollows.problem) hfollows.decomposed h.absorbs h.agreeing h.linked

/-- Two shapes of an element are close to the one place that was found for it. -/
def Onto (tolerance : Float) (target : ElementId → Option (Shape Float)) (e : ElementId)
    (g h : Shape Float) : Prop :=
  ∃ t, target e = some t ∧ g.isClose tolerance t = true ∧ h.isClose tolerance t = true

/-- The merger that relaxation comes to, if every cluster lands on its targets. -/
def relaxMerger? (solver : LinearSolver) (s : Sketch) :
    Option (Merger × (ElementId → Option (Shape Float))) :=
  match s.relaxation? solver, s.clusters with
  | some (members, target), first :: rest =>
    if (moveOnto target members s).2 = .solved then
      some (⟨first.id, rest.map (·.id), [], (moveOnto target members s).1⟩, target)
    else none
  | _, _ => none

theorem eq_map_of_mapM {α β : Type} {f : α → Option β} {g : α → β}
    (hf : ∀ x y, f x = some y → y = g x) {xs : List α} {ys : List β} (h : xs.mapM f = some ys) :
    ys = xs.map g := by
  induction xs generalizing ys with
  | nil =>
    cases h
    rfl
  | cons x xs ih =>
    rw [List.mapM_cons] at h
    obtain ⟨y, hy, h⟩ := Option.bind_eq_some_iff.mp h
    obtain ⟨zs, hzs, h⟩ := Option.bind_eq_some_iff.mp h
    cases h
    rw [List.map_cons, ← hf x y hy, ← ih hzs]

theorem linkMembers?_eq_some {s : Sketch} {members : List (Cluster × List ElementId)}
    (h : s.linkMembers? = some members) :
    members = s.clusters.map fun k => (k, k.elements.toList.filter (· ∈ s.linking)) := by
  refine eq_map_of_mapM (fun k p hp => ?_) h
  dsimp only at hp
  split at hp
  · cases hp
  · cases hp
    rfl

variable {solver : LinearSolver}

theorem relaxation?_eq_some {s : Sketch} {members : List (Cluster × List ElementId)}
    {target : ElementId → Option (Shape Float)}
    (h : s.relaxation? solver = some (members, target)) :
    s.linkMembers? = some members := by
  unfold relaxation? at h
  obtain ⟨_, hmembers, h⟩ := Option.bind_eq_some_iff.mp h
  obtain ⟨_, _, h⟩ := Option.bind_eq_some_iff.mp h
  obtain ⟨_, _, h⟩ := Option.bind_eq_some_iff.mp h
  cases h
  exact hmembers

theorem fst_mem_of_mem_ontoMoves {target : ElementId → Option (Shape Float)}
    {ms : List (Cluster × List ElementId)} {s : Sketch} :
    ∀ q ∈ ontoMoves target ms s, q.1 ∈ ms.map (·.1.id) := by
  induction ms generalizing s with
  | nil => exact nofun
  | cons p ms ih =>
    obtain ⟨k, members⟩ := p
    unfold ontoMoves
    split
    · exact nofun
    · rename_i m _
      intro q hq
      dsimp only at hq
      rcases List.mem_cons.mp hq with rfl | hq
      · exact List.mem_cons_self
      · split at hq
        · exact List.mem_cons_of_mem _ (ih q hq)
        · cases hq

theorem landsOn_drag {s : Sketch} (hd : Decomposed s) {k : Cluster} (hk : k ∈ s.clusters)
    {members : List ElementId} (hin : ∀ e ∈ members, e ∈ k.elements)
    {moves : List (ClusterId × Motion Float)} (hmoves : ∀ p ∈ moves, p.1 ≠ k.id)
    (target : ElementId → Option (Shape Float)) (move : Shape Float → Shape Float) :
    (s.drag moves).landsOn target k members move = s.landsOn target k members move := by
  unfold landsOn
  rw [(moved_drag s moves).tolerance, Bool.eq_iff_iff, List.all_eq_true, List.all_eq_true]
  refine forall₂_congr fun e he => ?_
  rw [shapeIn?_drag_of_ne hd hk (hin e he) hmoves]

/-- A cluster that has landed on its targets stays there while others are moved. -/
theorem landsOn_moveOnto {target : ElementId → Option (Shape Float)}
    {ms : List (Cluster × List ElementId)} {s : Sketch} (hd : Decomposed s)
    (hms : ∀ p ∈ ms, p.1 ∈ s.clusters ∧ ∀ e ∈ p.2, e ∈ p.1.elements)
    (hnd : (ms.map (·.1.id)).Nodup) (h : (moveOnto target ms s).2 = .solved) :
    ∀ p ∈ ms, (moveOnto target ms s).1.landsOn target p.1 p.2 id = true := by
  induction ms generalizing s with
  | nil => exact nofun
  | cons q ms ih =>
    obtain ⟨k, members⟩ := q
    rw [List.map_cons, List.nodup_cons] at hnd
    obtain ⟨hk, hin⟩ := hms (k, members) List.mem_cons_self
    unfold moveOnto at h ⊢
    split at h
    · cases h
    · rename_i m _
      have hmoved := moved_moveCluster s k.id m
      have hd' := (hmoved.follows hd).decomposed
      have hclusters := hmoved.clusters
      have hms' : ∀ p ∈ ms, p.1 ∈ (s.moveCluster k.id m).clusters ∧
          ∀ e ∈ p.2, e ∈ p.1.elements := by
        rw [hclusters]
        exact fun p hp => hms p (List.mem_cons_of_mem _ hp)
      dsimp only at h ⊢
      split at h
      · rename_i hlands
        rw [if_pos hlands]
        intro p hp
        rcases List.mem_cons.mp hp with rfl | hp
        · -- the moves that follow are of other clusters
          have hothers : ∀ q ∈ ontoMoves target ms (s.moveCluster k.id m), q.1 ≠ k.id :=
            fun q hq hid => hnd.1 (hid ▸ fst_mem_of_mem_ontoMoves q hq)
          rw [(moveOnto_eq_drag target ms _).1,
            landsOn_drag hd' (by rw [hclusters]; exact hk) hin hothers]
          exact hlands
        · exact ih hd' hms' hnd.2 h p hp
      · cases h

theorem mem_linking_of_shared {s : Sketch} (hg : Grounded s) (hd : Decomposed s) {k l : Cluster}
    (hk : k ∈ s.clusters) (hl : l ∈ s.clusters) (hne : k.id ≠ l.id) {e : ElementId}
    (hek : e ∈ k.elements) (hel : e ∈ l.elements) : e ∈ s.linking := by
  obtain ⟨c, hc, hend⟩ := hd.touched e ⟨k, hk, hek⟩
  obtain ⟨x, hx, rfl⟩ := hg.ends c hc e hend
  have hkx : k.id ∈ x.owners := (hd.owned.owners x hx k.id).mpr ⟨k, hk, rfl, hek⟩
  have hlx : l.id ∈ x.owners := (hd.owned.owners x hx l.id).mpr ⟨l, hl, rfl, hel⟩
  have htwo := Element.two_le_owners hkx hlx hne
  rw [linking, OrderedSet.mem_ofList]
  refine List.mem_append_left _ (List.mem_append_left _ (List.mem_map.mpr ⟨x, ?_, rfl⟩))
  exact List.mem_filter.mpr ⟨hx, decide_eq_true htwo⟩

theorem agreeing_moveOnto {s : Sketch} (hg : Grounded s) (hd : Decomposed s)
    {members : List (Cluster × List ElementId)} {target : ElementId → Option (Shape Float)}
    (h : s.relaxation? solver = some (members, target))
    (hsolved : (moveOnto target members s).2 = .solved) :
    (moveOnto target members s).1.Agreeing (Onto s.tolerance target) (s.clusters.map (·.id)) := by
  have hmembers := linkMembers?_eq_some (relaxation?_eq_some h)
  have hids : members.map (·.1.id) = s.clusters.map (·.id) := by
    simp [hmembers]
  have hlands := landsOn_moveOnto hd (fun p hp => mem_of_linkMembers? (relaxation?_eq_some h) hp)
    (by rw [hids]; exact nodup_clusterIds hd.numbered) hsolved
  have hmoved := moved_drag s (ontoMoves target members s)
  rw [← (moveOnto_eq_drag target members s).1] at hmoved
  generalize (moveOnto target members s).1 = t at hlands hmoved
  have hclusters := hmoved.clusters
  have hclose : ∀ k ∈ t.clusters, ∀ e ∈ k.elements, e ∈ s.linking →
      ∃ g u, t.shapeIn? k.id e = some g ∧ target e = some u ∧ g.isClose s.tolerance u = true := by
    intro k hk e he hlink
    have hin : (k, k.elements.toList.filter (· ∈ s.linking)) ∈ members := by
      rw [hmembers, ← hclusters]
      exact List.mem_map.mpr ⟨k, hk, rfl⟩
    have hone := List.all_eq_true.mp (hlands _ hin) e
      (List.mem_filter.mpr ⟨he, by simpa using hlink⟩)
    split at hone
    · rename_i g u hg hu
      rw [hmoved.tolerance] at hone
      exact ⟨g, u, hg, hu, hone⟩
    · cases hone
  intro k hk l hl _ _ hne e hek hel
  have hlink : e ∈ s.linking := by
    rw [hclusters] at hk hl
    exact mem_linking_of_shared hg hd hk hl hne hek hel
  obtain ⟨g, u, hg', hu, hgu⟩ := hclose k hk e hek hlink
  obtain ⟨g', u', hg'', hu', hgu'⟩ := hclose l hl e hel hlink
  cases hu.symm.trans hu'
  exact ⟨g, g', hg', hg'', u, hu, hgu, hgu'⟩

theorem relax_eq {s t : Sketch} (hd : Decomposed s) {members : List (Cluster × List ElementId)}
    {target : ElementId → Option (Shape Float)} {status : Status}
    (h : s.relaxation? solver = some (members, target))
    (hm : moveOnto target members s = (t, status)) :
    s.relax solver = if status = .solved then (t.joinIntoFirst, .solved) else (t, status) := by
  have hmoved := moved_drag s (ontoMoves target members s)
  rw [← (moveOnto_eq_drag target members s).1, hm] at hmoved
  unfold relax
  rw [h]
  dsimp only
  rw [hm]
  by_cases hs : status = .solved
  · subst hs
    rw [if_pos rfl]
    dsimp only
    rw [map_placeLoose hd h hmoved]
  · rw [if_neg hs]
    cases status with
    | solved => exact absurd rfl hs
    | _ => rfl

theorem absorbs_first {s : Sketch} (hg : Grounded s) (hd : Decomposed s) {first : Cluster}
    {rest : List Cluster} (hc : s.clusters = first :: rest) :
    Absorbs first.id [] (rest.map (·.id)) s := by
  have hnd := nodup_clusterIds hd.numbered
  rw [hc] at hnd
  refine absorbs_of_nodup hg hd ?_ (fun b hb => ?_) hnd
  · simp [hc]
  · simp [hc, hb]

/-- What relaxation comes to if every cluster lands on its targets. -/
theorem lossless_of_moveOnto {s t : Sketch} (hg : Grounded s) (hd : Decomposed s)
    {members : List (Cluster × List ElementId)} {target : ElementId → Option (Shape Float)}
    (h : s.relaxation? solver = some (members, target))
    (hm : moveOnto target members s = (t, .solved))
    {first : Cluster} {rest : List Cluster} (hc : s.clusters = first :: rest) :
    t.joinIntoFirst = Merger.result ⟨first.id, rest.map (·.id), [], t⟩ ∧
      t.Agreeing (Onto s.tolerance target) (first.id :: rest.map (·.id)) ∧
      Merger.Lossless s.tolerance (Onto s.tolerance target)
        ⟨first.id, rest.map (·.id), [], t⟩ := by
  have hmoved := moved_drag s (ontoMoves target members s)
  have hagree := agreeing_moveOnto hg hd h (by rw [hm])
  rw [← (moveOnto_eq_drag target members s).1] at hmoved
  rw [hc, List.map_cons] at hagree
  rw [hm] at hmoved hagree
  dsimp only at hmoved hagree
  have hfollows := hmoved.follows hd
  have hg' := hg.congr hfollows.problem
  have hclusters : t.clusters = first :: rest := hmoved.clusters.trans hc
  refine ⟨?_, hagree, ?_⟩
  · rw [joinIntoFirst_eq hg' hfollows.decomposed hclusters, Merger.result, absorbAll,
      List.foldl_map]
  · rw [← hmoved.tolerance] at hagree ⊢
    exact Merger.lossless (m := ⟨first.id, rest.map (·.id), [], t⟩) hg' hfollows.decomposed
      (absorbs_first hg' hfollows.decomposed hclusters) hagree nofun

/-- Relaxation joins clusters that agree with its targets, or it moves clusters at most. -/
theorem Underpinned.relaxation {s : Sketch} (h : s.Underpinned) (hne : s.clusters ≠ [])
    (solver : LinearSolver) :
    (∀ m target, s.relaxMerger? solver = some (m, target) →
      s.relax solver = (m.result, .solved) ∧
      m.start.Agreeing (Onto s.tolerance target) (m.anchor :: m.movers) ∧
      m.Lossless s.tolerance (Onto s.tolerance target)) ∧
    (s.relaxMerger? solver = none → Moved s (s.relax solver).1) := by
  obtain ⟨hg, hd, _⟩ := h
  obtain ⟨first, rest, hc⟩ := List.exists_cons_of_ne_nil hne
  unfold relaxMerger?
  cases hr : s.relaxation? solver with
  | none =>
    unfold relax
    rw [hr]
    exact ⟨nofun, fun _ => .refl s⟩
  | some p =>
    obtain ⟨members, target⟩ := p
    have hmoved := moved_drag s (ontoMoves target members s)
    rw [← (moveOnto_eq_drag target members s).1] at hmoved
    rcases hm : moveOnto target members s with ⟨t, status⟩
    rw [relax_eq hd hr hm, hc]
    dsimp only
    rw [hm] at hmoved ⊢
    by_cases hs : status = .solved
    · subst hs
      obtain ⟨heq, hagree, hlossless⟩ := lossless_of_moveOnto hg hd hr hm hc
      rw [if_pos rfl, if_pos rfl, heq]
      refine ⟨fun m target' hsome => ?_, nofun⟩
      cases hsome
      exact ⟨rfl, hagree, hlossless⟩
    · rw [if_neg hs, if_neg hs]
      exact ⟨nofun, fun _ => hmoved⟩

end Sketch

namespace Point

/-- The merger of the next step, if that is a round that joins clusters. -/
def joining? : Point → Option Sketch.Merger
  | ⟨.joining (_ + 1), s⟩ => if s.clusters.length ≤ 1 then none else s.roundMerger?
  | _ => none

/-- The merger of the next step and its targets, if that is a relaxation that joins clusters. -/
def relaxing? (solver : LinearSolver) :
    Point → Option (Sketch.Merger × (ElementId → Option (Shape Float)))
  | ⟨.relaxing, s⟩ => if 1 < s.clusters.length then s.relaxMerger? solver else none
  | _ => none

/-- The next step joins clusters that agree, or it leaves clusters and free constraints alone. -/
structure Lossless (solver : LinearSolver) (coverage : Status) (tolerance : Float) (p : Point) :
    Prop where
  joining : ∀ m, p.joining? = some m → (step solver coverage p).sketch = m.result ∧
    m.Lossless tolerance (Sketch.Close tolerance)
  relaxing : ∀ m target, p.relaxing? solver = some (m, target) →
    (step solver coverage p).sketch = m.result ∧
    m.start.Agreeing (Sketch.Onto tolerance target) (m.anchor :: m.movers) ∧
    m.Lossless tolerance (Sketch.Onto tolerance target)
  otherwise : p.joining? = none → p.relaxing? solver = none →
    (step solver coverage p).sketch.clusters = p.sketch.clusters ∧
      (step solver coverage p).sketch.free = p.sketch.free

theorem lossless_joining {s : Sketch} (h : s.Underpinned) (solver : LinearSolver)
    (coverage : Status) (rounds : Nat) :
    Lossless solver coverage s.tolerance ⟨.joining (rounds + 1), s⟩ := by
  by_cases hone : s.clusters.length ≤ 1
  · refine ⟨fun m hm => ?_, nofun, fun _ _ => ?_⟩
    · simp [joining?, hone] at hm
    · simp [step, hone]
  · obtain ⟨hjoined, hmoved⟩ := h.round
    refine ⟨fun m hm => ?_, nofun, fun hnone _ => ?_⟩
    · simp only [joining?, hone, if_false] at hm
      obtain ⟨heq, hfits⟩ := hjoined m hm
      refine ⟨?_, hfits.lossless h.grounded h.decomposed⟩
      simp only [step, hone, if_false, heq]
    · simp only [joining?, hone, if_false] at hnone
      obtain ⟨hout, hmoved⟩ := hmoved hnone
      have hsketch : (step solver coverage ⟨.joining (rounds + 1), s⟩).sketch = s.joinOnce.1 := by
        simp only [step, hone, if_false]
        split <;> simp_all
      rw [hsketch]
      exact ⟨hmoved.clusters, hmoved.free⟩

theorem lossless_relaxing {s : Sketch} (h : s.Underpinned) (solver : LinearSolver)
    (coverage : Status) :
    Lossless solver coverage s.tolerance ⟨.relaxing, s⟩ := by
  by_cases hmany : 1 < s.clusters.length
  · obtain ⟨hjoined, hmoved⟩ := h.relaxation (List.ne_nil_of_length_pos (by omega)) solver
    have hsketch : (step solver coverage ⟨.relaxing, s⟩).sketch = (s.relax solver).1 := by
      simp only [step, hmany, if_true]
    refine ⟨nofun, fun m target hm => ?_, fun _ hnone => ?_⟩
    · simp only [relaxing?, hmany, if_true] at hm
      obtain ⟨heq, hagree, hlossless⟩ := hjoined m target hm
      rw [hsketch, heq]
      exact ⟨rfl, hagree, hlossless⟩
    · simp only [relaxing?, hmany, if_true] at hnone
      rw [hsketch]
      exact ⟨(hmoved hnone).clusters, (hmoved hnone).free⟩
  · refine ⟨nofun, fun m target hm => ?_, fun _ _ => ?_⟩
    · simp [relaxing?, hmany] at hm
    · simp [step, hmany]

theorem lossless_step {p : Point} (h : p.sketch.Underpinned) (solver : LinearSolver)
    (coverage : Status) :
    p.Lossless solver coverage p.sketch.tolerance := by
  obtain ⟨stage, s⟩ := p
  cases stage with
  | joining rounds =>
    cases rounds with
    | zero => exact ⟨nofun, nofun, fun _ _ => ⟨rfl, rfl⟩⟩
    | succ rounds => exact lossless_joining h solver coverage rounds
  | relaxing => exact lossless_relaxing h solver coverage
  | realizing todo => cases todo <;> exact ⟨nofun, nofun, fun _ _ => ⟨rfl, rfl⟩⟩
  | closing status =>
    refine ⟨nofun, nofun, fun _ _ => ?_⟩
    dsimp only [step, Sketch.finish]
    split <;> exact ⟨rfl, rfl⟩
  | _ => exact ⟨nofun, nofun, fun _ _ => ⟨rfl, rfl⟩⟩

end Point

namespace Sketch

/-- Whenever a solve joins clusters, the copies of what they share agree up to the tolerance, with
each other or with the places that relaxation found, and a constraint that is free no longer
holds in the joined cluster or is conflicting. -/
theorem Reachable.lossless_throughout {s : Sketch} (hs : Reachable s) (hn : s.isSettled = false)
    (solver : LinearSolver) :
    (∀ p ∈ s.prepared.points solver, p.Lossless solver s.prepared.coverage s.tolerance) ∧
      (s.prepared.points solver).getLast? =
        some ⟨.closed (s.solve solver).2, (s.solve solver).1⟩ := by
  refine ⟨fun p hp => ?_, getLast?_points_prepared hn solver⟩
  have hfollows := hs.sound.follows_of_mem_points hn hp
  have htolerance : p.sketch.tolerance = s.tolerance :=
    congrArg Settings.tolerance ((sameProblem_prepared s).trans hfollows.problem).settings
  rw [← htolerance]
  exact Point.lossless_step (hs.underpinned hn hp) solver s.prepared.coverage

end Sketch

/-- A triangle and a quadrangle that share a corner, with a bar between their far ends. -/
def Call.gate : List Call :=
  triangle ++ [addPoint false 8 0, addPoint false 8 3, addPoint false 12 0,
    constrain .distance ⟨1⟩ ⟨3⟩ 4, constrain .distance ⟨1⟩ ⟨4⟩ 5, constrain .distance ⟨3⟩ ⟨4⟩ 3,
    constrain .distance ⟨3⟩ ⟨5⟩ 4, constrain .distance ⟨4⟩ ⟨5⟩ 5, constrain .distance ⟨2⟩ ⟨5⟩ 11]

namespace Sketch

/-- The gate is joined at its hinge, and the square is joined by relaxation. -/
theorem lossless_throughout_gate :
    ((((Call.runAll solveLinear Call.gate {}).prepared.points solveLinear).any fun p =>
        p.joining?.isSome) = true ∧
      ∀ p ∈ (Call.runAll solveLinear Call.gate {}).prepared.points solveLinear,
        p.Lossless solveLinear (Call.runAll solveLinear Call.gate {}).prepared.coverage
          (Call.runAll solveLinear Call.gate {}).tolerance) ∧
    (((Call.runAll solveLinear Call.square {}).prepared.points solveLinear).any fun p =>
        (p.relaxing? solveLinear).isSome) = true ∧
      ∀ p ∈ (Call.runAll solveLinear Call.square {}).prepared.points solveLinear,
        p.Lossless solveLinear (Call.runAll solveLinear Call.square {}).prepared.coverage
          (Call.runAll solveLinear Call.square {}).tolerance := by
  have hgate := Reachable.lossless_throughout ((Reachable.new {}).runAll solveLinear Call.gate)
    (by decide +kernel) solveLinear
  have hsquare := Reachable.lossless_throughout ((Reachable.new {}).runAll solveLinear Call.square)
    (by decide +kernel) solveLinear
  exact ⟨⟨by decide +kernel, hgate.1⟩, by decide +kernel, hsquare.1⟩

end Sketch

end RigidSketch
