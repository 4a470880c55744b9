import RigidSketch.Proofs.Changes

/-! One round of joining. Only clusters that share elements may be dragged along with fixed
elements; for all other patterns the moving cluster holds none. -/

namespace RigidSketch

theorem key_ne_of_mem_pairs {α β : Type} {key : α → β} {xs : List α} (h : (xs.map key).Nodup)
    {p : α × α} (hp : p ∈ pairs xs) : key p.1 ≠ key p.2 := by
  induction xs with
  | nil => simp [pairs] at hp
  | cons x xs ih =>
    rw [List.map_cons, List.nodup_cons] at h
    rcases List.mem_append.mp hp with hp | hp
    · obtain ⟨y, hy, rfl⟩ := List.mem_map.mp hp
      exact fun he => h.1 (List.mem_map.mpr ⟨y, hy, he.symm⟩)
    · exact ih h.2 hp

theorem key_ne_of_mem_triples {α β : Type} {key : α → β} {xs : List α}
    (h : (xs.map key).Nodup) {p : α × α × α} (hp : p ∈ triples xs) :
    (p.1 ∈ xs ∧ p.2.1 ∈ xs ∧ p.2.2 ∈ xs) ∧
      key p.1 ≠ key p.2.1 ∧ key p.2.1 ≠ key p.2.2 ∧ key p.2.2 ≠ key p.1 := by
  induction xs with
  | nil => simp [triples] at hp
  | cons x xs ih =>
    rw [List.map_cons, List.nodup_cons] at h
    rcases List.mem_append.mp hp with hp | hp
    · obtain ⟨q, hq, rfl⟩ := List.mem_map.mp hp
      obtain ⟨hy, hz⟩ := mem_of_mem_pairs hq
      have hne : ∀ y ∈ xs, key x ≠ key y := fun y hy he => h.1 (List.mem_map.mpr ⟨y, hy, he.symm⟩)
      exact ⟨⟨List.mem_cons_self, List.mem_cons_of_mem _ hy, List.mem_cons_of_mem _ hz⟩,
        hne _ hy, key_ne_of_mem_pairs h.2 hq, (hne _ hz).symm⟩
    · obtain ⟨⟨hx, hy, hz⟩, hne⟩ := ih h.2 hp
      exact ⟨⟨List.mem_cons_of_mem _ hx, List.mem_cons_of_mem _ hy, List.mem_cons_of_mem _ hz⟩,
        hne⟩

namespace Sketch

/-- Elements or their copies were moved, and nothing else happened. -/
def Moved (s t : Sketch) : Prop :=
  ∃ f : Element → Element, (∀ e : Element, e.Reshaped (f e)) ∧
    t = { s with elements := s.elements.map f }

theorem Moved.refl (s : Sketch) : Moved s s := by
  refine ⟨id, fun e => .refl e, ?_⟩
  simp [ElementTable.map]

theorem Moved.trans {s t u : Sketch} (h : Moved s t) (h' : Moved t u) : Moved s u := by
  obtain ⟨f, hf, rfl⟩ := h
  obtain ⟨g, hg, rfl⟩ := h'
  refine ⟨g ∘ f, fun e => ?_, by simp [ElementTable.map]⟩
  have h₁ := hf e
  have h₂ := hg (f e)
  exact ⟨h₂.id.trans h₁.id, h₂.fixed.trans h₁.fixed, h₂.owners.trans h₁.owners,
    fun k => (h₂.copies k).trans (h₁.copies k)⟩

theorem Moved.clusters {s t : Sketch} (h : Moved s t) : t.clusters = s.clusters := by
  obtain ⟨_, _, rfl⟩ := h
  rfl

theorem Moved.free {s t : Sketch} (h : Moved s t) : t.free = s.free := by
  obtain ⟨_, _, rfl⟩ := h
  rfl

theorem Moved.tolerance {s t : Sketch} (h : Moved s t) : t.tolerance = s.tolerance := by
  obtain ⟨_, _, rfl⟩ := h
  rfl

theorem Moved.follows {s t : Sketch} (h : Moved s t) (hd : Decomposed s) : Follows s t := by
  obtain ⟨f, hf, rfl⟩ := h
  exact follows_reshape hd fun e _ => hf e

theorem Moved.hasFixed {s t : Sketch} (h : Moved s t) (hd : Decomposed s) (k : Cluster) :
    t.hasFixed k = s.hasFixed k := by
  have hr := (h.follows hd).problem.roster
  exact congrArg k.elements.toList.any (funext fun e => ElementTable.isFixed_congr hr e)

theorem moved_moveCluster (s : Sketch) (k : ClusterId) (m : Motion Float) :
    Moved s (s.moveCluster k m) := by
  unfold moveCluster
  split
  · rename_i c _
    refine ⟨fun e => if e.id ∈ c.elements then e.moveIn c.id m else e, fun e => ?_, ?_⟩
    · dsimp only
      split
      · exact e.reshaped_moveIn c.id m
      · exact .refl e
    · simp [Cluster.move, ElementTable.mapWhere, ElementTable.map]
  · exact .refl s

theorem moveCluster_eq {s : Sketch} (hd : Decomposed s) {k : Cluster} (hk : k ∈ s.clusters)
    (m : Motion Float) : s.moveCluster k.id m = { s with elements := k.move m s.elements } := by
  simp [moveCluster, (cluster?_eq_some_iff hd.numbered).mpr ⟨hk, rfl⟩]

def drag (s : Sketch) (moves : List (ClusterId × Motion Float)) : Sketch :=
  moves.foldl (fun s p => s.moveCluster p.1 p.2) s

theorem moved_drag (s : Sketch) (moves : List (ClusterId × Motion Float)) :
    Moved s (s.drag moves) := by
  induction moves generalizing s with
  | nil => exact .refl s
  | cons p moves ih => exact (moved_moveCluster s p.1 p.2).trans (ih _)

theorem isFixed_of_hasFixed {s : Sketch} {k : Cluster} (h : s.hasFixed k = false)
    {e : ElementId} (he : e ∈ k.elements) : s.elements.isFixed e = false := by
  have hall := List.any_eq_false.mp h e he
  simpa using hall

theorem shelters_of_hasFixed {s : Sketch} (hg : Grounded s) {k : Cluster}
    (h : s.hasFixed k = false) : s.Shelters k := by
  intro e he hf hk
  have hfalse := isFixed_of_hasFixed h hk
  rw [ElementTable.isFixed_of_mem hg.elements he, hf] at hfalse
  cases hfalse

/-- Two clusters that are to be joined, the second of which may be moved freely. -/
structure Movable (s : Sketch) (a b : Cluster) (links : List ConstraintId) : Prop extends
    Joinable s a b links where
  loose : s.hasFixed b = false

theorem Moved.joinable {s t : Sketch} (h : Moved s t) {a b : Cluster}
    {links : List ConstraintId} (hj : s.Joinable a b links) : t.Joinable a b links := by
  obtain ⟨f, _, rfl⟩ := h
  exact ⟨hj.anchor, hj.moving, hj.distinct, hj.links⟩

theorem Moved.movable {s t : Sketch} (h : Moved s t) (hd : Decomposed s) {a b : Cluster}
    {links : List ConstraintId} (hm : s.Movable a b links) : t.Movable a b links :=
  ⟨h.joinable hm.toJoinable, (h.hasFixed hd b).trans hm.loose⟩

/-- What an attempt at joining may leave: without an outcome, only moved clusters. -/
structure Attempt (s : Sketch) (r : Sketch × Option JoinOutcome) : Prop where
  changes : Changes s r.1
  moved : r.2 = none → Moved s r.1
  failed : ∀ status, r.2 = some (.failed status) →
    status = .unconverged ∨ status = .overconstrained

theorem attempt_none (s : Sketch) : Attempt s (s, none) := ⟨.refl, fun _ => .refl s, nofun⟩

theorem attempt_failed (s : Sketch) {status : Status}
    (h : status = .unconverged ∨ status = .overconstrained) :
    Attempt s (s, some (.failed status)) := by
  refine ⟨.refl, nofun, fun _ he => ?_⟩
  cases he
  exact h

theorem attempt_absorb {s : Sketch} {a b : Cluster} {links : List ConstraintId}
    (h : s.Joinable a b links) : Attempt s (s.absorb a.id b.id links, some .joined) :=
  ⟨.single (.absorb h), nofun, nofun⟩

theorem attempt_move {s : Sketch} {b : Cluster} {r : Sketch × Option JoinOutcome}
    (hg : Grounded s) (hd : Decomposed s) (hb : b ∈ s.clusters) (hl : s.hasFixed b = false)
    (m : Motion Float)
    (h : Grounded (s.moveCluster b.id m) → Decomposed (s.moveCluster b.id m) →
      Moved s (s.moveCluster b.id m) → Attempt (s.moveCluster b.id m) r) : Attempt s r := by
  have hmoved := moved_moveCluster s b.id m
  have hfollows := hmoved.follows hd
  have hrest := h (hg.congr hfollows.problem) hfollows.decomposed hmoved
  have hstep := Change.move hb (shelters_of_hasFixed hg hl) m
  rw [← moveCluster_eq hd hb m] at hstep
  exact ⟨.head hstep hrest.changes, fun hr => hmoved.trans (hrest.moved hr), hrest.failed⟩

theorem attempt_firstOutcome {α : Type} {attempt : α → Sketch → Sketch × Option JoinOutcome}
    {xs : List α} {s : Sketch}
    (h : ∀ a ∈ xs, ∀ t, Moved s t → Attempt t (attempt a t)) :
    Attempt s (firstOutcome attempt xs s) := by
  induction xs generalizing s with
  | nil => exact attempt_none s
  | cons a xs ih =>
    have ha := h a List.mem_cons_self s (.refl s)
    unfold firstOutcome
    split
    · rename_i t heq
      rw [heq] at ha
      have hst : Moved s t := ha.moved rfl
      have hrest := ih (s := t) fun b hb u hu => h b (List.mem_cons_of_mem _ hb) u (hst.trans hu)
      exact ⟨ha.changes.trans hrest.changes, fun hr => hst.trans (hrest.moved hr), hrest.failed⟩
    · exact ha

theorem Spans.symm {s : Sketch} {a b : Cluster} {id : ConstraintId} (h : s.Spans a b id) :
    s.Spans b a id := by
  obtain ⟨c, hc, he⟩ := h
  exact ⟨c, hc, fun e hm => (he e hm).symm⟩

theorem mem_linksBetween {s : Sketch} {k l : Cluster} {id : ConstraintId}
    (h : id ∈ s.linksBetween k l) : id ∈ s.free ∧ s.Spans k l id := by
  unfold linksBetween at h
  obtain ⟨hf, hc⟩ := List.mem_filter.mp h
  split at hc
  · rename_i c hget
    refine ⟨hf, c, hget, ?_⟩
    simp only [Bool.or_eq_true, Bool.and_eq_true, decide_eq_true_eq] at hc
    simp only [Constraint.ends, List.mem_cons, List.not_mem_nil, or_false, forall_eq_or_imp,
      forall_eq]
    rcases hc with ⟨⟨h₁, _⟩, h₂, _⟩ | ⟨⟨h₁, _⟩, h₂, _⟩
    · exact ⟨Or.inl h₁, Or.inr h₂⟩
    · exact ⟨Or.inr h₁, Or.inl h₂⟩
  · cases hc

/-- The moving cluster holds fixed elements only if the anchor does, too. -/
theorem anchorOrder_cases (s : Sketch) (k l : Cluster) :
    ∃ a b, s.anchorOrder k l = (a.id, b.id) ∧ ((a = k ∧ b = l) ∨ (a = l ∧ b = k)) ∧
      (s.hasFixed b = true → s.hasFixed a = true) := by
  unfold anchorOrder
  split
  · rename_i h
    simp only [Bool.and_eq_true, Bool.not_eq_true'] at h
    exact ⟨l, k, rfl, Or.inr ⟨rfl, rfl⟩, fun _ => h.1⟩
  · rename_i h
    refine ⟨k, l, rfl, Or.inl ⟨rfl, rfl⟩, fun hl => ?_⟩
    simpa [hl] using h

theorem joinable_of_pair {s : Sketch} (hd : Decomposed s) {k l a b : Cluster}
    {links : List ConstraintId} (hp : (k, l) ∈ pairs s.clusters)
    (hab : (a = k ∧ b = l) ∨ (a = l ∧ b = k))
    (hlinks : ∀ id ∈ links, id ∈ s.linksBetween k l) : s.Joinable a b links := by
  have hne : k.id ≠ l.id := key_ne_of_mem_pairs (nodup_clusterIds hd.numbered) hp
  obtain ⟨hk, hl⟩ := mem_of_mem_pairs hp
  have hspan := fun id hid => mem_linksBetween (hlinks id hid)
  rcases hab with ⟨rfl, rfl⟩ | ⟨rfl, rfl⟩
  · exact ⟨hk, hl, hne, hspan⟩
  · exact ⟨hl, hk, hne.symm, fun id hid => ⟨(hspan id hid).1, (hspan id hid).2.symm⟩⟩

theorem exists_movable {s : Sketch} (hd : Decomposed s) {k l : Cluster}
    (hp : (k, l) ∈ pairs s.clusters) (hf : (s.hasFixed k && s.hasFixed l) = false) :
    ∃ a b, s.anchorOrder k l = (a.id, b.id) ∧
      ∀ links, (∀ id ∈ links, id ∈ s.linksBetween k l) → s.Movable a b links := by
  obtain ⟨a, b, horder, hab, hfixed⟩ := s.anchorOrder_cases k l
  refine ⟨a, b, horder, fun links hlinks => ⟨joinable_of_pair hd hp hab hlinks, ?_⟩⟩
  cases hb : s.hasFixed b with
  | false => rfl
  | true =>
    rcases hab with ⟨rfl, rfl⟩ | ⟨rfl, rfl⟩
    · simp [hb, hfixed hb] at hf
    · simp [hb, hfixed hb] at hf

theorem movable_of_mem_hinges {s : Sketch} (hd : Decomposed s) {k l : Cluster}
    (hp : (k, l) ∈ pairs s.clusters) {h : Hinge} (hh : h ∈ s.hinges k l) :
    ∃ a b, h.anchor = a.id ∧ h.moving = b.id ∧ s.Movable a b [h.link] := by
  unfold hinges at hh
  split at hh
  · split at hh
    · cases hh
    · rename_i hfixed
      obtain ⟨a, b, horder, hm⟩ := exists_movable hd hp (by simpa using hfixed)
      rw [horder] at hh
      obtain ⟨link, hlink, rfl⟩ := List.mem_map.mp hh
      exact ⟨a, b, rfl, rfl, hm [link] (by simpa using hlink)⟩
  · cases hh

theorem movable_of_linkage? {s : Sketch} (hd : Decomposed s) {i j : Cluster}
    (hp : (i, j) ∈ pairs s.clusters) {l : Linkage} (hl : s.linkage? i j = some l) :
    ∃ a b, l.anchor = a.id ∧ l.moving = b.id ∧ s.Movable a b [l.angle, l.distance] := by
  unfold linkage? at hl
  split at hl
  · cases hl
  · rename_i hfixed
    simp only [Bool.or_eq_true, not_or, Bool.not_eq_true] at hfixed
    obtain ⟨a, b, horder, hm⟩ := exists_movable hd hp hfixed.2
    dsimp only at hl
    split at hl
    · rename_i angle distance hangle hdistance
      rw [horder] at hl
      cases hl
      refine ⟨a, b, rfl, rfl, hm _ fun id hid => ?_⟩
      rcases List.mem_cons.mp hid with rfl | hid
      · exact List.mem_of_find?_eq_some hangle
      · exact List.mem_singleton.mp hid ▸ List.mem_of_find?_eq_some hdistance
    · cases hl

theorem movable_of_triangle? {s : Sketch} (hd : Decomposed s) {i j k : Cluster}
    (hp : (i, j, k) ∈ triples s.clusters) {t : Triangle} (ht : s.triangle? i j k = some t) :
    ∃ a b c, (t.a = a.id ∧ t.b = b.id ∧ t.c = c.id) ∧
      s.Movable a b [] ∧ s.Movable a c [] ∧ b.id ≠ c.id := by
  obtain ⟨⟨hi, hj, hk⟩, hij, hjk, hki⟩ := key_ne_of_mem_triples (nodup_clusterIds hd.numbered) hp
  dsimp only at hi hj hk hij hjk hki
  have hmovable : ∀ {a b : Cluster}, a ∈ s.clusters → b ∈ s.clusters → a.id ≠ b.id →
      s.hasFixed b = false → s.Movable a b [] := fun ha hb hne hl => ⟨⟨ha, hb, hne, nofun⟩, hl⟩
  unfold triangle? at ht
  split at ht
  · cases ht
  · rename_i hcount
    simp only [List.countP_cons, List.countP_nil] at hcount
    -- whichever of the three is the anchor, the other two hold no fixed elements
    obtain ⟨a, b, c, hsel, hab, hac, hbc⟩ : ∃ a b c,
        (if s.hasFixed j then (j, k, i) else if s.hasFixed k then (k, i, j) else (i, j, k)) =
          (a, b, c) ∧ s.Movable a b [] ∧ s.Movable a c [] ∧ b.id ≠ c.id := by
      cases hfj : s.hasFixed j with
      | true =>
        have hfi : s.hasFixed i = false := by
          refine Bool.eq_false_iff.mpr fun h => ?_
          simp only [hfj, h, if_true] at hcount
          omega
        have hfk : s.hasFixed k = false := by
          refine Bool.eq_false_iff.mpr fun h => ?_
          simp only [hfj, h, if_true] at hcount
          omega
        exact ⟨j, k, i, by simp, hmovable hj hk hjk hfk, hmovable hj hi hij.symm hfi, hki⟩
      | false =>
        cases hfk : s.hasFixed k with
        | true =>
          have hfi : s.hasFixed i = false := by
            refine Bool.eq_false_iff.mpr fun h => ?_
            simp only [hfk, h, if_true] at hcount
            omega
          exact ⟨k, i, j, by simp, hmovable hk hi hki hfi, hmovable hk hj hjk.symm hfj, hij⟩
        | false =>
          exact ⟨i, j, k, by simp, hmovable hi hj hij hfj, hmovable hi hk hki.symm hfk, hjk⟩
    rw [hsel] at ht
    dsimp only at ht
    split at ht
    · split at ht
      · cases ht
      · cases ht
        exact ⟨a, b, c, ⟨rfl, rfl, rfl⟩, hab, hac, hbc⟩
    · cases ht

theorem attempt_joinHinged {s : Sketch} (hg : Grounded s) (hd : Decomposed s) {h : Hinge}
    {a b : Cluster} (ha : h.anchor = a.id) (hb : h.moving = b.id)
    (hm : s.Movable a b [h.link]) : Attempt s (joinHinged h s) := by
  unfold joinHinged
  split
  · rename_i p _
    rw [hb]
    refine attempt_move hg hd hm.moving hm.loose p.align fun hg' hd' hmoved => ?_
    have hm' := hmoved.movable hd hm
    unfold turnHinged
    split
    · split
      · exact attempt_failed _ (Or.inl rfl)
      · split
        · exact attempt_failed _ (Or.inl rfl)
        · rename_i m _
          rw [ha, hb]
          refine attempt_move hg' hd' hm'.moving hm'.loose m fun _ _ hmoved' => ?_
          dsimp only
          split
          · exact attempt_absorb (hmoved'.joinable hm'.toJoinable)
          · exact attempt_failed _ (Or.inl rfl)
    · exact attempt_none _
  · exact attempt_none s

theorem attempt_joinLinked {s : Sketch} (hg : Grounded s) (hd : Decomposed s) {l : Linkage}
    {a b : Cluster} (ha : l.anchor = a.id) (hb : l.moving = b.id)
    (hm : s.Movable a b [l.angle, l.distance]) : Attempt s (joinLinked l s) := by
  unfold joinLinked
  split
  · rename_i p _
    rw [hb]
    refine attempt_move hg hd hm.moving hm.loose p.turn fun hg' hd' hmoved => ?_
    have hm' := hmoved.movable hd hm
    unfold slideLinked
    split
    · split
      · exact attempt_none _
      · rename_i shift _
        rw [ha, hb]
        refine attempt_move hg' hd' hm'.moving hm'.loose (.slide shift) fun _ _ hmoved' => ?_
        dsimp only
        split
        · exact attempt_absorb (hmoved'.joinable hm'.toJoinable)
        · exact attempt_failed _ (Or.inl rfl)
    · exact attempt_none _
  · exact attempt_none s

theorem attempt_absorb_two {s : Sketch} (hd : Decomposed s) {a b c : Cluster}
    (hb : s.Joinable a b []) (hc : s.Joinable a c []) (hbc : b.id ≠ c.id) :
    Attempt s ((s.absorb a.id b.id []).absorb a.id c.id [], some .joined) := by
  have hsecond : (s.absorb a.id b.id []).Joinable (s.joined a b []) c [] :=
    ⟨(mem_clusters_absorb hd.numbered hb).mpr (Or.inl rfl),
      (mem_clusters_absorb hd.numbered hb).mpr (Or.inr ⟨hc.moving, hc.distinct.symm, hbc.symm⟩),
      hc.distinct, nofun⟩
  have hstep := Change.absorb hsecond
  exact ⟨.head (.absorb hb) (.single hstep), nofun, nofun⟩

theorem attempt_joinTriangle {s : Sketch} (hg : Grounded s) (hd : Decomposed s) {t : Triangle}
    {a b c : Cluster} (ha : t.a = a.id) (hb : t.b = b.id) (hc : t.c = c.id)
    (hab : s.Movable a b []) (hac : s.Movable a c []) (hbc : b.id ≠ c.id) :
    Attempt s (joinTriangle t s) := by
  unfold joinTriangle
  split
  · rename_i p _
    rw [hb]
    refine attempt_move hg hd hab.moving hab.loose p.align fun hg₁ hd₁ hmoved₁ => ?_
    have hab₁ := hmoved₁.movable hd hab
    have hac₁ := hmoved₁.movable hd hac
    unfold closeTriangle
    split
    · exact attempt_none _
    · split
      · exact attempt_failed _ (Or.inl rfl)
      · split
        · exact attempt_none _
        · exact attempt_failed _ (Or.inl rfl)
        · rename_i m n _
          rw [ha, hb, hc]
          refine attempt_move hg₁ hd₁ hab₁.moving hab₁.loose m fun hg₂ hd₂ hmoved₂ => ?_
          have hab₂ := hmoved₂.movable hd₁ hab₁
          have hac₂ := hmoved₂.movable hd₁ hac₁
          refine attempt_move hg₂ hd₂ hac₂.moving hac₂.loose n fun _ hd₃ hmoved₃ => ?_
          dsimp only
          split
          · exact attempt_absorb_two hd₃ (hmoved₃.joinable hab₂.toJoinable)
              (hmoved₃.joinable hac₂.toJoinable) hbc
          · exact attempt_failed _ (Or.inl rfl)
  · exact attempt_none s

theorem attempt_trySharedOne {s : Sketch} (hg : Grounded s) (hd : Decomposed s) :
    Attempt s s.trySharedOne := by
  refine attempt_firstOutcome fun h hh t ht => ?_
  obtain ⟨⟨k, l⟩, hp, hin⟩ := List.mem_flatMap.mp hh
  obtain ⟨a, b, ha, hb, hm⟩ := movable_of_mem_hinges hd hp hin
  have hfollows := ht.follows hd
  exact attempt_joinHinged (hg.congr hfollows.problem) hfollows.decomposed ha hb
    (ht.movable hd hm)

theorem attempt_tryLinked {s : Sketch} (hg : Grounded s) (hd : Decomposed s) :
    Attempt s s.tryLinked := by
  refine attempt_firstOutcome fun l hl t ht => ?_
  obtain ⟨⟨i, j⟩, hp, hin⟩ := List.mem_filterMap.mp hl
  obtain ⟨a, b, ha, hb, hm⟩ := movable_of_linkage? hd hp hin
  have hfollows := ht.follows hd
  exact attempt_joinLinked (hg.congr hfollows.problem) hfollows.decomposed ha hb
    (ht.movable hd hm)

theorem attempt_tryTriangle {s : Sketch} (hg : Grounded s) (hd : Decomposed s) :
    Attempt s s.tryTriangle := by
  refine attempt_firstOutcome fun t ht u hu => ?_
  obtain ⟨⟨i, j, k⟩, hp, hin⟩ := List.mem_filterMap.mp ht
  obtain ⟨a, b, c, ⟨ha, hb, hc⟩, hab, hac, hbc⟩ := movable_of_triangle? hd hp hin
  have hfollows := hu.follows hd
  exact attempt_joinTriangle (hg.congr hfollows.problem) hfollows.decomposed ha hb hc
    (hu.movable hd hab) (hu.movable hd hac) hbc

def pairMotion (s : Sketch) (p : Cluster × Cluster) : Except FitError (ClusterId × Motion Float) :=
  let (anchor, moving) := s.anchorOrder p.1 p.2
  (s.sharingMotion anchor moving (p.1.shared p.2)).map (moving, ·)

/-- The moves up to the first pair that is joined or found not to fit: one at most. -/
def sharingMoves (s : Sketch) : List (Cluster × Cluster) → List (ClusterId × Motion Float)
  | [] => []
  | p :: rest =>
    match s.pairMotion p with
    | .ok move => [move]
    | .error .mismatch => []
    | .error .degenerate => s.sharingMoves rest

theorem attempt_joinPair {s : Sketch} (hd : Decomposed s) {p : Cluster × Cluster}
    (hp : p ∈ pairs s.clusters) :
    match s.pairMotion p with
    | .ok move => Attempt (s.drag [move]) (joinPair p s) ∧ (joinPair p s).2 ≠ none
    | .error .mismatch => joinPair p s = (s, some (.failed .overconstrained))
    | .error .degenerate => joinPair p s = (s, none) := by
  obtain ⟨a, b, horder, hab, _⟩ := s.anchorOrder_cases p.1 p.2
  have hj : s.Joinable a b [] := joinable_of_pair hd hp hab nofun
  unfold pairMotion joinPair joinSharing
  rw [horder]
  dsimp only
  cases s.sharingMotion a.id b.id (p.1.shared p.2) with
  | error e => cases e <;> rfl
  | ok m =>
    have hmoved := moved_moveCluster s b.id m
    dsimp only [Except.map, drag, List.foldl]
    split
    · exact ⟨attempt_absorb (hmoved.joinable hj), nofun⟩
    · exact ⟨attempt_failed _ (Or.inr rfl), nofun⟩

theorem firstOutcome_of_ne_none {α : Type} {attempt : α → Sketch → Sketch × Option JoinOutcome}
    {a : α} {xs : List α} {s : Sketch} (h : (attempt a s).2 ≠ none) :
    firstOutcome attempt (a :: xs) s = attempt a s := by
  unfold firstOutcome
  split
  · rename_i heq
    exact absurd (by rw [heq]) h
  · rfl

theorem attempt_firstPair {s : Sketch} (hd : Decomposed s) (ps : List (Cluster × Cluster))
    (hps : ∀ p ∈ ps, p ∈ pairs s.clusters) :
    Attempt (s.drag (s.sharingMoves ps)) (firstOutcome joinPair ps s) ∧
      ((firstOutcome joinPair ps s).2 = none →
        firstOutcome joinPair ps s = (s, none) ∧ s.sharingMoves ps = []) := by
  induction ps with
  | nil => exact ⟨attempt_none s, fun _ => ⟨rfl, rfl⟩⟩
  | cons p ps ih =>
    have hp := attempt_joinPair hd (hps p List.mem_cons_self)
    have hrest := ih fun q hq => hps q (List.mem_cons_of_mem _ hq)
    unfold sharingMoves
    revert hp
    cases s.pairMotion p with
    | ok move =>
      rintro ⟨hattempt, hsome⟩
      rw [firstOutcome_of_ne_none hsome]
      exact ⟨hattempt, fun h => absurd h hsome⟩
    | error e =>
      unfold firstOutcome
      cases e with
      | mismatch =>
        intro heq
        rw [heq]
        exact ⟨attempt_failed s (Or.inr rfl), nofun⟩
      | degenerate =>
        intro heq
        rw [heq]
        exact hrest

/-- The moves of one round that may take fixed elements along. -/
def roundMoves (s : Sketch) : List (ClusterId × Motion Float) := s.sharingMoves s.sharingPairs

theorem attempt_joinOnce {s : Sketch} (hg : Grounded s) (hd : Decomposed s) :
    Attempt (s.drag s.roundMoves) s.joinOnce := by
  obtain ⟨hfirst, hnone⟩ := attempt_firstPair hd s.sharingPairs
    fun p hp => (List.mem_filter.mp hp).1
  have hrest : Attempt s
      (firstOutcome (fun attempt s => attempt s) [trySharedOne, tryTriangle, tryLinked] s) := by
    refine attempt_firstOutcome fun attempt ha t ht => ?_
    have hfollows := ht.follows hd
    have hg' := hg.congr hfollows.problem
    simp only [List.mem_cons, List.not_mem_nil, or_false] at ha
    rcases ha with rfl | rfl | rfl
    · exact attempt_trySharedOne hg' hfollows.decomposed
    · exact attempt_tryTriangle hg' hfollows.decomposed
    · exact attempt_tryLinked hg' hfollows.decomposed
  unfold joinOnce firstOutcome
  split
  · rename_i heq
    have hkept := hnone (by rw [← trySharedPair, heq])
    rw [← trySharedPair, heq] at hkept
    cases hkept.1
    rw [roundMoves, hkept.2]
    exact hrest
  · exact hfirst

end Sketch

end RigidSketch
