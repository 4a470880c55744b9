import RigidSketch.Proofs.Attempts
import RigidSketch.Proofs.Closeness
import RigidSketch.Proofs.Views

/-! Mergers: clusters are moved to an anchor, which then absorbs them one after the other. An
attempt at joining that comes off is a merger of clusters that agree on what they share, and any
other attempt moves clusters at most. -/

namespace RigidSketch

namespace Sketch

def absorbAll (anchor : ClusterId) (links : List ConstraintId) (movers : List ClusterId)
    (s : Sketch) : Sketch :=
  movers.foldl (fun s k => s.absorb anchor k links) s

/-- The sketch before each absorption, with the cluster that is absorbed. -/
def absorptions (anchor : ClusterId) (links : List ConstraintId) :
    List ClusterId → Sketch → List (Sketch × ClusterId)
  | [], _ => []
  | k :: rest, s => (s, k) :: absorptions anchor links rest (s.absorb anchor k links)

/-- Each absorption finds its two clusters. -/
inductive Absorbs (anchor : ClusterId) (links : List ConstraintId) :
    List ClusterId → Sketch → Prop
  | nil {s : Sketch} {a : Cluster} (ha : a.id = anchor) (hs : a ∈ s.clusters) :
      Absorbs anchor links [] s
  | cons {s : Sketch} {a b : Cluster} {rest : List ClusterId} (ha : a.id = anchor)
      (h : s.Joinable a b links) (hrest : Absorbs anchor links rest (s.absorb a.id b.id links)) :
      Absorbs anchor links (b.id :: rest) s

theorem Joinable.absorbs {s : Sketch} (hd : Decomposed s) {a b : Cluster}
    {links : List ConstraintId} (h : s.Joinable a b links) : Absorbs a.id links [b.id] s := by
  have hjoined := (mem_clusters_absorb hd.numbered h).mpr (Or.inl rfl)
  exact .cons rfl h (.nil (a := s.joined a b links) rfl hjoined)

theorem absorbs_of_nodup {s : Sketch} (hg : Grounded s) (hd : Decomposed s) {a : Cluster}
    (ha : a ∈ s.clusters) {bs : List Cluster} (hbs : ∀ b ∈ bs, b ∈ s.clusters)
    (hnd : ((a :: bs).map (·.id)).Nodup) : Absorbs a.id [] (bs.map (·.id)) s := by
  induction bs generalizing s a with
  | nil => exact .nil rfl ha
  | cons b bs ih =>
    simp only [List.map_cons, List.nodup_cons, List.mem_cons, List.mem_map, not_or, not_exists,
      not_and] at hnd
    obtain ⟨⟨hab, hna⟩, hnb, hnd⟩ := hnd
    have hj : s.Joinable a b [] := ⟨ha, hbs b List.mem_cons_self, hab, nofun⟩
    have hstep := (Change.absorb hj).follows hg hd
    have hmem := fun k => mem_clusters_absorb hd.numbered hj (k := k)
    refine .cons rfl hj (ih (a := s.joined a b []) (hg.congr hstep.problem) hstep.decomposed
      ((hmem _).mpr (Or.inl rfl)) (fun c hc => (hmem c).mpr (Or.inr ?_)) ?_)
    · exact ⟨hbs c (List.mem_cons_of_mem _ hc), hna c hc, hnb c hc⟩
    · refine List.nodup_cons.mpr ⟨?_, hnd⟩
      rintro hm
      obtain ⟨c, hc, hid⟩ := List.mem_map.mp hm
      exact hna c hc hid

/-- What each absorption keeps holds at all of them and in the end. -/
theorem Absorbs.forall_absorptions {anchor : ClusterId} {links : List ConstraintId}
    {P : List ClusterId → Sketch → Prop}
    (hP : ∀ {s a b rest}, Grounded s → Decomposed s → a.id = anchor → s.Joinable a b links →
      P (b.id :: rest) s → P rest (s.absorb a.id b.id links))
    {movers : List ClusterId} {s : Sketch} (h : Absorbs anchor links movers s) (hg : Grounded s)
    (hd : Decomposed s) (hs : P movers s) :
    (∀ q ∈ absorptions anchor links movers s, ∃ a b rest, Grounded q.1 ∧ Decomposed q.1 ∧
      a.id = anchor ∧ b.id = q.2 ∧ q.1.Joinable a b links ∧ P (b.id :: rest) q.1) ∧
    P [] (absorbAll anchor links movers s) := by
  induction h with
  | nil => exact ⟨nofun, hs⟩
  | @cons s a b rest ha h hrest ih =>
    have hstep := (Change.absorb h).follows hg hd
    obtain ⟨hlater, hend⟩ := ih (hg.congr hstep.problem) hstep.decomposed (hP hg hd ha h hs)
    rw [ha] at hlater hend
    refine ⟨fun q hq => ?_, hend⟩
    rcases List.mem_cons.mp hq with rfl | hq
    · exact ⟨a, b, rest, hg, hd, ha, rfl, h, hs⟩
    · exact hlater q hq

/-- Two clusters among some see an element that both hold in shapes that fit. -/
def Agreeing (Q : ElementId → Shape Float → Shape Float → Prop) (ids : List ClusterId)
    (s : Sketch) : Prop :=
  ∀ k ∈ s.clusters, ∀ l ∈ s.clusters, k.id ∈ ids → l.id ∈ ids → k.id ≠ l.id →
    ∀ e ∈ k.elements, e ∈ l.elements →
      ∃ g h, s.shapeIn? k.id e = some g ∧ s.shapeIn? l.id e = some h ∧ Q e g h

/-- Clusters that agree on what they share still do once two of them are joined. -/
theorem Agreeing.absorb {Q : ElementId → Shape Float → Shape Float → Prop} {s : Sketch}
    (hd : Decomposed s) {a b : Cluster} {links : List ConstraintId} (h : s.Joinable a b links)
    {rest : List ClusterId} (hagree : s.Agreeing Q (a.id :: b.id :: rest)) :
    (s.absorb a.id b.id links).Agreeing Q (a.id :: rest) := by
  -- beside a third cluster, the joined one sees an element as one of the two did
  have hview : ∀ l ∈ s.clusters, l.id ≠ a.id → l.id ≠ b.id → ∀ e ∈ (s.joined a b links).elements,
      e ∈ l.elements → ∃ k ∈ s.clusters, (k.id ∈ a.id :: b.id :: rest ∧ k.id ≠ l.id) ∧
        e ∈ k.elements ∧ (s.absorb a.id b.id links).shapeIn? a.id e = s.shapeIn? k.id e := by
    intro l hl hla hlb e he hel
    have hkept : ¬ s.Repins a b e := fun hr =>
      (hr.sole l hl hel).elim (fun hid => hla hid) fun hid => hlb hid
    have hsee := shapeIn?_absorb hd h (mem_elements_joined.mp he) hkept
    rw [shapeAcross?_eq hd h] at hsee
    by_cases hea : e ∈ a.elements
    · rw [if_pos hea] at hsee
      exact ⟨a, h.anchor, ⟨by simp, hla.symm⟩, hea, hsee⟩
    · rw [if_neg hea] at hsee
      exact ⟨b, h.moving, ⟨by simp, hlb.symm⟩, (mem_elements_joined.mp he).resolve_left hea, hsee⟩
  have hold : ∀ {l : Cluster}, l.id ≠ a.id → l.id ∈ a.id :: rest →
      l.id ∈ a.id :: b.id :: rest := by
    intro l hla hl
    exact List.mem_cons_of_mem _ (List.mem_cons_of_mem _ ((List.mem_cons.mp hl).resolve_left hla))
  intro k hk l hl hkid hlid hne e hek hel
  rcases (mem_clusters_absorb hd.numbered h).mp hk with rfl | ⟨hk, hka, hkb⟩
  · rcases (mem_clusters_absorb hd.numbered h).mp hl with rfl | ⟨hl, hla, hlb⟩
    · exact absurd rfl hne
    · obtain ⟨k, hk, ⟨hkid, hids⟩, hek, hsee⟩ := hview l hl hla hlb e hek hel
      have hthird := shapeIn?_absorb_of_ne hd h hl hla hlb hel
      obtain ⟨g, g', hg, hg', hQ⟩ := hagree k hk l hl hkid (hold hla hlid) hids e hek hel
      exact ⟨g, g', hsee.trans hg, hthird.trans hg', hQ⟩
  · have hthird := shapeIn?_absorb_of_ne hd h hk hka hkb hek
    rcases (mem_clusters_absorb hd.numbered h).mp hl with rfl | ⟨hl, hla, hlb⟩
    · obtain ⟨l, hl, ⟨hlid, hids⟩, hel, hsee⟩ := hview k hk hka hkb e hel hek
      obtain ⟨g, g', hg, hg', hQ⟩ := hagree k hk l hl (hold hka hkid) hlid hids.symm e hek hel
      exact ⟨g, g', hthird.trans hg, hsee.trans hg', hQ⟩
    · have hother := shapeIn?_absorb_of_ne hd h hl hla hlb hel
      obtain ⟨g, g', hg, hg', hQ⟩ :=
        hagree k hk l hl (hold hka hkid) (hold hla hlid) hne e hek hel
      exact ⟨g, g', hthird.trans hg, hother.trans hg', hQ⟩

/-- Clusters that have been brought together, for the anchor to absorb the others. -/
structure Merger where
  anchor : ClusterId
  movers : List ClusterId
  links : List ConstraintId
  start : Sketch

namespace Merger

def result (m : Merger) : Sketch := absorbAll m.anchor m.links m.movers m.start

/-- The sketch at each absorption, with the cluster that is absorbed. -/
def moments (m : Merger) : List (Sketch × ClusterId) :=
  absorptions m.anchor m.links m.movers m.start

end Merger

def Hinge.turn? (h : Hinge) (p : JoinPlan) (s : Sketch) : Option (Motion Float) := do
  let prior ← s.shapeIn? h.moving p.mover
  let start ← s.shapeIn? h.moving h.shared
  let placed ← (Placement.place s.tolerance prior p.kept p.asked).toOption
  (Motion.fit s.tolerance (start, prior) (p.kept.known, placed)).toOption

def Triangle.turns? (t : Triangle) (p : JoinPlan) (s : Sketch) :
    Option (Motion Float × Motion Float) := do
  let prior ← s.shapeIn? t.b t.bc
  let placed ← (Placement.place s.tolerance prior p.kept p.asked).toOption
  (← s.triangleMotions? t p prior placed).toOption

def Linkage.shift? (l : Linkage) (p : LinkagePlan) (s : Sketch) : Option (Vec Float) := do
  let keeper ← s.shapeIn? l.anchor p.keeper
  let mover ← s.shapeIn? l.moving p.mover
  keeper.slideTo? p.distance mover

namespace Join

def anchor (s : Sketch) : Join → ClusterId
  | sharing p => (s.anchorOrder p.1 p.2).1
  | hinged h => h.anchor
  | closing t => t.a
  | linked l => l.anchor

def movers (s : Sketch) : Join → List ClusterId
  | sharing p => [(s.anchorOrder p.1 p.2).2]
  | hinged h => [h.moving]
  | closing t => [t.b, t.c]
  | linked l => [l.moving]

def links : Join → List ConstraintId
  | sharing _ => []
  | hinged h => [h.link]
  | closing _ => []
  | linked l => [l.angle, l.distance]

/-- The moves of an attempt up to its last check. -/
def moves? (s : Sketch) : Join → Option (List (ClusterId × Motion Float))
  | sharing p => (s.pairMotion p).toOption.map fun move => [move]
  | hinged h => do
    let p ← s.hingePlan? h
    let turn ← h.turn? p (s.moveCluster h.moving p.align)
    return [(h.moving, p.align), (h.moving, turn)]
  | closing t => do
    let p ← s.trianglePlan? t
    let (m, n) ← t.turns? p (s.moveCluster t.b p.align)
    return [(t.b, p.align), (t.b, m), (t.c, n)]
  | linked l => do
    let p ← s.linkagePlan? l
    let shift ← l.shift? p (s.moveCluster l.moving p.turn)
    return [(l.moving, p.turn), (l.moving, .slide shift)]

def merger (s : Sketch) (j : Join) (moves : List (ClusterId × Motion Float)) : Merger :=
  ⟨j.anchor s, j.movers s, j.links, s.drag moves⟩

/-- What the last check of an attempt makes sure of. -/
def Checked (s : Sketch) : Join → Sketch → Prop
  | sharing p, t => ∀ e ∈ p.1.shared p.2,
      t.agree e (s.anchorOrder p.1 p.2).1 (s.anchorOrder p.1 p.2).2
  | hinged h, t => t.agree h.shared h.anchor h.moving ∧ t.linkHolds h.link h.anchor h.moving
  | closing c, t => t.agree c.ab c.a c.b ∧ t.agree c.bc c.b c.c ∧ t.agree c.ca c.c c.a
  | linked l, t => ∀ link ∈ [l.angle, l.distance], t.linkHolds link l.anchor l.moving

end Join

/-- An attempt moves clusters and joins them, or it moves them at most. -/
inductive Tried (s : Sketch) (j : Join) : Sketch × Option JoinOutcome → Prop
  | joined {moves : List (ClusterId × Motion Float)} (hm : j.moves? s = some moves)
      (hc : j.Checked s (s.drag moves)) : Tried s j ((j.merger s moves).result, some .joined)
  | moved {t : Sketch} {outcome : Option JoinOutcome} (ho : outcome ≠ some .joined)
      (hm : Moved s t) : Tried s j (t, outcome)

theorem tried_sharing (s : Sketch) (p : Cluster × Cluster) :
    s.Tried (.sharing p) (joinPair p s) := by
  unfold joinPair joinSharing
  rcases horder : s.anchorOrder p.1 p.2 with ⟨a, b⟩
  dsimp only
  split
  · exact .moved nofun (.refl s)
  · exact .moved nofun (.refl s)
  · rename_i m hm
    split
    · rename_i hcheck
      rw [Bool.and_eq_true, List.all_eq_true] at hcheck
      have hmoves : (Join.sharing p).moves? s = some [(b, m)] := by
        simp [Join.moves?, pairMotion, horder, hm, Except.map, Except.toOption]
      have htried := Tried.joined hmoves (by rw [Join.Checked, horder]; exact hcheck.1)
      rwa [Join.merger, Join.anchor, Join.movers, horder] at htried
    · exact .moved nofun (moved_moveCluster s b m)

theorem tried_hinged (s : Sketch) (h : Hinge) : s.Tried (.hinged h) (joinHinged h s) := by
  unfold joinHinged
  split
  · rename_i p hp
    have hfirst := moved_moveCluster s h.moving p.align
    unfold turnHinged
    split
    · rename_i prior start hprior hstart
      split
      · exact .moved nofun hfirst
      · rename_i placed hplaced
        split
        · exact .moved nofun hfirst
        · rename_i m hm
          dsimp only
          split
          · rename_i hcheck
            rw [Bool.and_eq_true, Bool.and_eq_true] at hcheck
            have hmoves : (Join.hinged h).moves? s =
                some [(h.moving, p.align), (h.moving, m)] := by
              simp [Join.moves?, Hinge.turn?, hp, hprior, hstart, hplaced, hm, Except.toOption]
            exact .joined hmoves hcheck.1
          · exact .moved nofun (hfirst.trans (moved_moveCluster _ h.moving m))
    · exact .moved nofun hfirst
  · exact .moved nofun (.refl s)

theorem tried_closing (s : Sketch) (t : Triangle) : s.Tried (.closing t) (joinTriangle t s) := by
  unfold joinTriangle
  split
  · rename_i p hp
    have hfirst := moved_moveCluster s t.b p.align
    unfold closeTriangle
    split
    · exact .moved nofun hfirst
    · rename_i prior hprior
      split
      · exact .moved nofun hfirst
      · rename_i placed hplaced
        split
        · exact .moved nofun hfirst
        · exact .moved nofun hfirst
        · rename_i m n hmn
          dsimp only
          split
          · rename_i hcheck
            simp only [Bool.and_eq_true] at hcheck
            obtain ⟨⟨⟨⟨hab, hbc⟩, hca⟩, _⟩, _⟩ := hcheck
            have hmoves : (Join.closing t).moves? s =
                some [(t.b, p.align), (t.b, m), (t.c, n)] := by
              simp [Join.moves?, Triangle.turns?, hp, hprior, hplaced, hmn, Except.toOption]
            exact .joined hmoves ⟨hab, hbc, hca⟩
          · exact .moved nofun
              ((hfirst.trans (moved_moveCluster _ t.b m)).trans (moved_moveCluster _ t.c n))
  · exact .moved nofun (.refl s)

theorem tried_linked (s : Sketch) (l : Linkage) : s.Tried (.linked l) (joinLinked l s) := by
  unfold joinLinked
  split
  · rename_i p hp
    have hfirst := moved_moveCluster s l.moving p.turn
    unfold slideLinked
    split
    · rename_i keeper mover hkeeper hmover
      split
      · exact .moved nofun hfirst
      · rename_i shift hshift
        dsimp only
        split
        · rename_i hcheck
          rw [Bool.and_eq_true] at hcheck
          have hmoves : (Join.linked l).moves? s =
              some [(l.moving, p.turn), (l.moving, .slide shift)] := by
            simp [Join.moves?, Linkage.shift?, hp, hkeeper, hmover, hshift]
          refine .joined hmoves fun link hlink => ?_
          rcases List.mem_pair.mp hlink with rfl | rfl
          · exact hcheck.1
          · exact hcheck.2
        · exact .moved nofun (hfirst.trans (moved_moveCluster _ l.moving (.slide shift)))
    · exact .moved nofun hfirst
  · exact .moved nofun (.refl s)

theorem tried_attempt (s : Sketch) (j : Join) : s.Tried j (j.attempt s) := by
  cases j with
  | sharing p => exact s.tried_sharing p
  | hinged h => exact s.tried_hinged h
  | closing t => exact s.tried_closing t
  | linked l => exact s.tried_linked l

theorem shared_of_mem_hinges {s : Sketch} {k l : Cluster} {h : Hinge} (hh : h ∈ s.hinges k l) :
    k.shared l = [h.shared] ∧ s.anchorOrder k l = (h.anchor, h.moving) := by
  unfold hinges at hh
  split at hh
  · rename_i e hshared
    split at hh
    · cases hh
    · obtain ⟨link, _, rfl⟩ := List.mem_map.mp hh
      exact ⟨hshared, rfl⟩
  · cases hh

theorem shared_of_linkage? {s : Sketch} {i j : Cluster} {l : Linkage}
    (hl : s.linkage? i j = some l) :
    i.shared j = [] ∧ s.anchorOrder i j = (l.anchor, l.moving) := by
  unfold linkage? at hl
  split at hl
  · cases hl
  · rename_i hnone
    simp only [Bool.or_eq_true, not_or, Bool.not_eq_true, Bool.not_eq_false',
      List.isEmpty_iff] at hnone
    dsimp only at hl
    split at hl
    · cases hl
      exact ⟨hnone.1, rfl⟩
    · cases hl

theorem shared_of_triangle? {s : Sketch} {i j k : Cluster} {t : Triangle}
    (ht : s.triangle? i j k = some t) :
    ∃ a b c : Cluster, (∀ x ∈ [a, b, c], x ∈ [i, j, k]) ∧ (t.a = a.id ∧ t.b = b.id ∧ t.c = c.id) ∧
      a.shared b = [t.ab] ∧ b.shared c = [t.bc] ∧ c.shared a = [t.ca] := by
  unfold triangle? at ht
  split at ht
  · cases ht
  · obtain ⟨a, b, c, hsel, hmem⟩ : ∃ a b c,
        (if s.hasFixed j then (j, k, i) else if s.hasFixed k then (k, i, j) else (i, j, k)) =
          (a, b, c) ∧ ∀ x ∈ [a, b, c], x ∈ [i, j, k] := by
      split
      · exact ⟨j, k, i, rfl, by simp⟩
      · split
        · exact ⟨k, i, j, rfl, by simp⟩
        · exact ⟨i, j, k, rfl, by simp⟩
    rw [hsel] at ht
    dsimp only at ht
    split at ht
    · rename_i hab hbc hca
      split at ht
      · cases ht
      · cases ht
        exact ⟨a, b, c, hmem, ⟨rfl, rfl, rfl⟩, hab, hbc, hca⟩
    · cases ht

theorem agree_comm (s : Sketch) (e : ElementId) (k l : ClusterId) :
    s.agree e k l = s.agree e l k := by
  unfold agree
  cases s.shapeIn? k e with
  | none => cases s.shapeIn? l e <;> rfl
  | some g =>
    cases s.shapeIn? l e with
    | none => rfl
    | some h => exact g.isClose_comm s.tolerance h

theorem exists_of_agree {s : Sketch} {e : ElementId} {k l : ClusterId} (h : s.agree e k l) :
    ∃ g g', s.shapeIn? k e = some g ∧ s.shapeIn? l e = some g' ∧ g.isClose s.tolerance g' := by
  unfold agree at h
  split at h
  · rename_i g g' hg hg'
    exact ⟨g, g', hg, hg', h⟩
  · cases h

/-- Two shapes of an element are close to each other. -/
def Close (tolerance : Float) (_ : ElementId) (g h : Shape Float) : Prop :=
  g.isClose tolerance h = true

theorem agreeing_of_agree {s : Sketch} (hd : Decomposed s) (ks : List Cluster)
    (hks : ∀ k ∈ ks, k ∈ s.clusters)
    (h : ks.Pairwise fun k l => ∀ e ∈ k.elements, e ∈ l.elements → s.agree e k.id l.id) :
    s.Agreeing (Close s.tolerance) (ks.map (·.id)) := by
  have : Std.Symm fun k l : Cluster =>
      ∀ e ∈ k.elements, e ∈ l.elements → s.agree e k.id l.id = true :=
    ⟨fun _ _ h e hl hk => (s.agree_comm e _ _).trans (h e hk hl)⟩
  have hmem : ∀ k ∈ s.clusters, k.id ∈ ks.map (·.id) → k ∈ ks := by
    intro k hk hid
    obtain ⟨k', hk', hid'⟩ := List.mem_map.mp hid
    exact cluster_ext hd.numbered (hks k' hk') hk hid' ▸ hk'
  intro k hk l hl hkid hlid hne e hek hel
  have hpair := h.forall (hmem k hk hkid) (hmem l hl hlid) fun heq => hne (congrArg Cluster.id heq)
  exact exists_of_agree (hpair e hek hel)

/-- The links that are still free hold across the anchor and a cluster without fixed elements. -/
def Linked (anchor : ClusterId) (links : List ConstraintId) (movers : List ClusterId)
    (s : Sketch) : Prop :=
  ∀ id ∈ links, id ∈ s.free → ∀ b ∈ s.clusters, b.id ∈ movers →
    s.linkHolds id anchor b.id = true ∧ s.hasFixed b = false

/-- The clusters of a merger are brought together by moving all but the anchor, and then agree. -/
structure Merger.Fits (s : Sketch) (m : Merger) : Prop where
  absorbs : Absorbs m.anchor m.links m.movers m.start
  agreeing : m.start.Agreeing (Close m.start.tolerance) (m.anchor :: m.movers)
  linked : m.start.Linked m.anchor m.links m.movers
  moved : ∃ moves, m.start = s.drag moves ∧ ∀ p ∈ moves, p.1 ∈ m.movers

theorem Join.mem_movers_of_moves? {s : Sketch} {j : Join} {moves : List (ClusterId × Motion Float)}
    (hm : j.moves? s = some moves) : ∀ p ∈ moves, p.1 ∈ j.movers s := by
  cases j with
  | sharing q =>
    obtain ⟨move, hmove, rfl⟩ := Option.map_eq_some_iff.mp hm
    unfold pairMotion at hmove
    cases hr : s.sharingMotion (s.anchorOrder q.1 q.2).1 (s.anchorOrder q.1 q.2).2
        (q.1.shared q.2) with
    | error e => simp [hr, Except.map, Except.toOption] at hmove
    | ok m =>
      simp only [hr, Except.map, Except.toOption, Option.some.injEq] at hmove
      simp [Join.movers, ← hmove]
  | hinged h =>
    simp only [Join.moves?, Option.bind_eq_bind, Option.bind_eq_some_iff, Option.pure_def,
      Option.some.injEq] at hm
    obtain ⟨p, _, turn, _, rfl⟩ := hm
    simp [Join.movers]
  | closing t =>
    simp only [Join.moves?, Option.bind_eq_bind, Option.bind_eq_some_iff, Option.pure_def,
      Option.some.injEq] at hm
    obtain ⟨p, _, turns, _, rfl⟩ := hm
    simp [Join.movers]
  | linked l =>
    simp only [Join.moves?, Option.bind_eq_bind, Option.bind_eq_some_iff, Option.pure_def,
      Option.some.injEq] at hm
    obtain ⟨p, _, shift, _, rfl⟩ := hm
    simp [Join.movers]

theorem mem_shared {k l : Cluster} {e : ElementId} :
    e ∈ k.shared l ↔ e ∈ k.elements ∧ e ∈ l.elements := by
  rw [Cluster.shared, List.mem_filter, decide_eq_true_eq]
  rfl

theorem mem_shared_of_order {k l a b : Cluster} (hab : (a = k ∧ b = l) ∨ (a = l ∧ b = k))
    {e : ElementId} (ha : e ∈ a.elements) (hb : e ∈ b.elements) : e ∈ k.shared l := by
  rcases hab with ⟨rfl, rfl⟩ | ⟨rfl, rfl⟩
  · exact mem_shared.mpr ⟨ha, hb⟩
  · exact mem_shared.mpr ⟨hb, ha⟩

theorem fits_of_pair {s : Sketch} (hd : Decomposed s) {moves : List (ClusterId × Motion Float)}
    {a b : Cluster} {links : List ConstraintId} (h : s.Joinable a b links)
    (hmoves : ∀ p ∈ moves, p.1 ∈ [b.id])
    (hagree : ∀ e ∈ a.elements, e ∈ b.elements → (s.drag moves).agree e a.id b.id)
    (hlinks : ∀ id ∈ links, (s.drag moves).linkHolds id a.id b.id ∧ s.hasFixed b = false) :
    Merger.Fits s ⟨a.id, [b.id], links, s.drag moves⟩ := by
  have hmoved := moved_drag s moves
  have hdrag := (hmoved.follows hd).decomposed
  have hj := hmoved.joinable h
  refine ⟨hj.absorbs hdrag, agreeing_of_agree hdrag [a, b] ?_ ?_, ?_,
    moves, rfl, hmoves⟩
  · intro k hk
    rcases List.mem_pair.mp hk with rfl | rfl
    · exact hj.anchor
    · exact hj.moving
  · simpa using hagree
  · intro id hid _ c hc hcid
    obtain rfl := cluster_ext hdrag.numbered hc hj.moving (List.mem_singleton.mp hcid)
    exact ⟨(hlinks id hid).1, (hmoved.hasFixed hd c).trans (hlinks id hid).2⟩

theorem fits_of_three {s : Sketch} (hg : Grounded s) (hd : Decomposed s)
    {moves : List (ClusterId × Motion Float)} {a b c : Cluster} (hab : s.Joinable a b [])
    (hac : s.Joinable a c []) (hbc : b.id ≠ c.id) (hmoves : ∀ p ∈ moves, p.1 ∈ [b.id, c.id])
    (hagree : ∀ e ∈ a.elements, e ∈ b.elements → (s.drag moves).agree e a.id b.id)
    (hagree' : ∀ e ∈ b.elements, e ∈ c.elements → (s.drag moves).agree e b.id c.id)
    (hagree'' : ∀ e ∈ c.elements, e ∈ a.elements → (s.drag moves).agree e c.id a.id) :
    Merger.Fits s ⟨a.id, [b.id, c.id], [], s.drag moves⟩ := by
  have hmoved := moved_drag s moves
  have hfollows := hmoved.follows hd
  have hdrag := hfollows.decomposed
  have hb := hmoved.joinable hab
  have hc := hmoved.joinable hac
  have habsorbs : Absorbs a.id [] ([b, c].map (·.id)) (s.drag moves) :=
    absorbs_of_nodup (hg.congr hfollows.problem) hdrag hb.anchor (by simp [hb.moving, hc.moving])
      (by simp [hab.distinct, hac.distinct, hbc])
  refine ⟨habsorbs, agreeing_of_agree hdrag [a, b, c] ?_ ?_, nofun, moves, rfl, hmoves⟩
  · simp [hb.anchor, hb.moving, hc.moving]
  · have hca : ∀ e ∈ a.elements, e ∈ c.elements → (s.drag moves).agree e a.id c.id :=
      fun e hea hec => ((s.drag moves).agree_comm e a.id c.id).trans (hagree'' e hec hea)
    simpa using ⟨⟨hagree, hca⟩, hagree'⟩

theorem order_of_ids {s : Sketch} (hd : Decomposed s) {k l a b : Cluster}
    {links : List ConstraintId} (hp : (k, l) ∈ pairs s.clusters) (h : s.Joinable a b links)
    (horder : s.anchorOrder k l = (a.id, b.id)) : (a = k ∧ b = l) ∨ (a = l ∧ b = k) := by
  obtain ⟨a', b', horder', hab, _⟩ := s.anchorOrder_cases k l
  obtain ⟨hk, hl⟩ := mem_of_mem_pairs hp
  obtain ⟨ha, hb⟩ := Prod.mk.inj (horder.symm.trans horder')
  rcases hab with ⟨rfl, rfl⟩ | ⟨rfl, rfl⟩
  · exact Or.inl ⟨cluster_ext hd.numbered h.anchor hk ha, cluster_ext hd.numbered h.moving hl hb⟩
  · exact Or.inr ⟨cluster_ext hd.numbered h.anchor hl ha, cluster_ext hd.numbered h.moving hk hb⟩

theorem Arises.fits {s : Sketch} (hg : Grounded s) (hd : Decomposed s) {j : Join}
    (hj : s.Arises j) {moves : List (ClusterId × Motion Float)} (hm : j.moves? s = some moves)
    (hc : j.Checked s (s.drag moves)) : (j.merger s moves).Fits s := by
  have hmovers := Join.mem_movers_of_moves? hm
  have hmoved := moved_drag s moves
  cases hj with
  | @sharing p hp _ =>
    obtain ⟨a, b, horder, hab, _⟩ := s.anchorOrder_cases p.1 p.2
    rw [Join.Checked, horder] at hc
    rw [Join.movers, horder] at hmovers
    rw [Join.merger, Join.anchor, Join.movers, horder]
    refine fits_of_pair hd (joinable_of_pair hd hp hab nofun) hmovers (fun e ha hb => ?_) nofun
    exact hc e (mem_shared_of_order hab ha hb)
  | @hinged k l hp h hh =>
    obtain ⟨a, b, ha, hb, hmov⟩ := movable_of_mem_hinges hd hp hh
    obtain ⟨hshared, horder⟩ := shared_of_mem_hinges hh
    have hab := order_of_ids hd hp hmov.toJoinable (by rw [horder, ha, hb])
    simp only [Join.Checked, ha, hb] at hc
    simp only [Join.movers, hb] at hmovers
    simp only [Join.merger, Join.anchor, Join.movers, Join.links, ha, hb]
    refine fits_of_pair hd hmov.toJoinable hmovers (fun e hea heb => ?_) fun id hid => ?_
    · have he := mem_shared_of_order hab hea heb
      rw [hshared, List.mem_singleton] at he
      exact he ▸ hc.1
    · exact ⟨List.mem_singleton.mp hid ▸ hc.2, hmov.loose⟩
  | @closing i j k hp t ht =>
    obtain ⟨a, b, c, ⟨ha, hb, hid⟩, hab, hac, hbc⟩ := movable_of_triangle? hd hp ht
    obtain ⟨⟨hi, hj, hk⟩, _⟩ := key_ne_of_mem_triples (nodup_clusterIds hd.numbered) hp
    obtain ⟨a', b', c', hin, ⟨ha', hb', hc'⟩, hsab, hsbc, hsca⟩ := shared_of_triangle? ht
    have hmem : ∀ x ∈ [i, j, k], x ∈ s.clusters := by simp [hi, hj, hk]
    have hmem' := fun x hx => hmem x (hin x hx)
    obtain rfl := cluster_ext hd.numbered (hmem' a' (by simp)) hab.anchor (ha'.symm.trans ha)
    obtain rfl := cluster_ext hd.numbered (hmem' b' (by simp)) hab.moving (hb'.symm.trans hb)
    obtain rfl := cluster_ext hd.numbered (hmem' c' (by simp)) hac.moving (hc'.symm.trans hid)
    simp only [Join.Checked, ha, hb, hid] at hc
    simp only [Join.movers, hb, hid] at hmovers
    simp only [Join.merger, Join.anchor, Join.movers, Join.links, ha, hb, hid]
    refine fits_of_three hg hd hab.toJoinable hac.toJoinable hbc hmovers ?_ ?_ ?_
    · intro e hea heb
      have he := mem_shared.mpr ⟨hea, heb⟩
      rw [hsab, List.mem_singleton] at he
      exact he ▸ hc.1
    · intro e heb hec
      have he := mem_shared.mpr ⟨heb, hec⟩
      rw [hsbc, List.mem_singleton] at he
      exact he ▸ hc.2.1
    · intro e hec hea
      have he := mem_shared.mpr ⟨hec, hea⟩
      rw [hsca, List.mem_singleton] at he
      exact he ▸ hc.2.2
  | @linked i j hp l hl =>
    obtain ⟨a, b, ha, hb, hmov⟩ := movable_of_linkage? hd hp hl
    obtain ⟨hshared, horder⟩ := shared_of_linkage? hl
    have hab := order_of_ids hd hp hmov.toJoinable (by rw [horder, ha, hb])
    simp only [Join.Checked, ha, hb] at hc
    simp only [Join.movers, hb] at hmovers
    simp only [Join.merger, Join.anchor, Join.movers, Join.links, ha, hb]
    refine fits_of_pair hd hmov.toJoinable hmovers (fun e hea heb => ?_) fun id hid => ?_
    · have he := mem_shared_of_order hab hea heb
      rw [hshared] at he
      cases he
    · exact ⟨hc id hid, hmov.loose⟩

/-- The merger that a round comes to, if it joins clusters. -/
def roundMerger? (s : Sketch) : Option Merger := do
  let j ← s.joins.find? fun j => (j.attempt s).2.isSome
  if (j.attempt s).2 = some .joined then (j.moves? s).map (j.merger s) else none

/-- A round joins clusters by a merger that fits, or it moves clusters at most. -/
theorem Underpinned.round {s : Sketch} (h : s.Underpinned) :
    (∀ m, s.roundMerger? = some m → s.joinOnce = (m.result, some .joined) ∧ m.Fits s) ∧
      (s.roundMerger? = none → s.joinOnce.2 ≠ some .joined ∧ Moved s s.joinOnce.1) := by
  rw [h.supplied.joinOnce_eq h.decomposed]
  unfold roundMerger? firstOn
  cases hfind : s.joins.find? fun j => (j.attempt s).2.isSome with
  | none => exact ⟨nofun, fun _ => ⟨nofun, .refl s⟩⟩
  | some j =>
    have harises := arises_of_mem_joins (List.mem_of_find?_eq_some hfind)
    have htried := s.tried_attempt j
    revert htried
    dsimp only [Option.bind_eq_bind, Option.bind_some]
    generalize j.attempt s = r
    intro htried
    cases htried with
    | joined hm hc =>
      rw [if_pos rfl, hm]
      refine ⟨fun m hs => ?_, nofun⟩
      cases hs
      exact ⟨rfl, harises.fits h.grounded h.decomposed hm hc⟩
    | moved ho hm =>
      rw [if_neg ho]
      exact ⟨nofun, fun _ => ⟨ho, hm⟩⟩

end Sketch

end RigidSketch
