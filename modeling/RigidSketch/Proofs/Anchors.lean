import RigidSketch.Proofs.Mergers

/-! What a merger changes. The anchor sees its elements as before and the elements that are brought
to it where they were moved to, and no other cluster sees any of it. Only fixed elements that are
left to the joined cluster alone are seen at their places again. -/

namespace RigidSketch

open LeastSquares (LinearSolver solveLinear)

namespace Sketch

/-- One of the named clusters holds an element. -/
def HeldBy (s : Sketch) (ids : List ClusterId) (e : ElementId) : Prop :=
  ∃ k ∈ s.clusters, k.id ∈ ids ∧ e ∈ k.elements

/-- A cluster other than the named ones holds an element. -/
def HeldBeside (s : Sketch) (ids : List ClusterId) (e : ElementId) : Prop :=
  ∃ k ∈ s.clusters, k.id ∉ ids ∧ e ∈ k.elements

/-- A fixed element that a moving cluster holds and no cluster beside the merged ones. -/
structure Sinks (s : Sketch) (anchor : ClusterId) (movers : List ClusterId) (e : ElementId) :
    Prop where
  fixed : s.elements.isFixed e = true
  brought : s.HeldBy movers e
  within : ¬ s.HeldBeside (anchor :: movers) e

section

variable {s : Sketch} {a b : Cluster} {links : List ConstraintId} {rest : List ClusterId}

theorem heldBy_absorb (hd : Decomposed s) (h : s.Joinable a b links) {e : ElementId} :
    (s.absorb a.id b.id links).HeldBy (a.id :: rest) e ↔ s.HeldBy (a.id :: b.id :: rest) e := by
  have hmem := fun k => mem_clusters_absorb hd.numbered h (k := k)
  constructor
  · rintro ⟨k, hk, hid, he⟩
    rcases (hmem k).mp hk with rfl | ⟨hk, hka, _⟩
    · rcases mem_elements_joined.mp he with he | he
      · exact ⟨a, h.anchor, by simp, he⟩
      · exact ⟨b, h.moving, by simp, he⟩
    · have hrest := (List.mem_cons.mp hid).resolve_left hka
      exact ⟨k, hk, by simp [hrest], he⟩
  · rintro ⟨k, hk, hid, he⟩
    have hjoined := (hmem _).mpr (Or.inl rfl)
    by_cases hka : k.id = a.id
    · obtain rfl := cluster_ext hd.numbered hk h.anchor hka
      exact ⟨_, hjoined, List.mem_cons_self, mem_elements_joined.mpr (Or.inl he)⟩
    · by_cases hkb : k.id = b.id
      · obtain rfl := cluster_ext hd.numbered hk h.moving hkb
        exact ⟨_, hjoined, List.mem_cons_self, mem_elements_joined.mpr (Or.inr he)⟩
      · exact ⟨k, (hmem k).mpr (Or.inr ⟨hk, hka, hkb⟩), by simpa [hka, hkb] using hid, he⟩

theorem heldBy_rest_absorb (hd : Decomposed s) (h : s.Joinable a b links) (ha : a.id ∉ rest)
    (hb : b.id ∉ rest) {e : ElementId} :
    (s.absorb a.id b.id links).HeldBy rest e ↔ s.HeldBy rest e := by
  have hmem := fun k => mem_clusters_absorb hd.numbered h (k := k)
  constructor
  · rintro ⟨k, hk, hid, he⟩
    rcases (hmem k).mp hk with rfl | ⟨hk, _⟩
    · exact absurd hid ha
    · exact ⟨k, hk, hid, he⟩
  · rintro ⟨k, hk, hid, he⟩
    have hka : k.id ≠ a.id := fun heq => ha (heq ▸ hid)
    have hkb : k.id ≠ b.id := fun heq => hb (heq ▸ hid)
    exact ⟨k, (hmem k).mpr (Or.inr ⟨hk, hka, hkb⟩), hid, he⟩

theorem heldBeside_absorb (hd : Decomposed s) (h : s.Joinable a b links) {e : ElementId} :
    (s.absorb a.id b.id links).HeldBeside (a.id :: rest) e ↔
      s.HeldBeside (a.id :: b.id :: rest) e := by
  have hmem := fun k => mem_clusters_absorb hd.numbered h (k := k)
  constructor
  · rintro ⟨k, hk, hid, he⟩
    rcases (hmem k).mp hk with rfl | ⟨hk, hka, hkb⟩
    · exact absurd List.mem_cons_self hid
    · exact ⟨k, hk, by simpa [hka, hkb] using hid, he⟩
  · rintro ⟨k, hk, hid, he⟩
    simp only [List.mem_cons, not_or] at hid
    exact ⟨k, (hmem k).mpr (Or.inr ⟨hk, hid.1, hid.2.1⟩), by simp [hid.1, hid.2.2], he⟩

theorem isFixed_absorb (hd : Decomposed s) (h : s.Joinable a b links) (e : ElementId) :
    (s.absorb a.id b.id links).elements.isFixed e = s.elements.isFixed e :=
  ElementTable.isFixed_congr (sameProblem_absorb hd h).roster e

theorem sinks_of_repins {e : ElementId} (hb : b ∈ s.clusters) (hr : s.Repins a b e) :
    s.Sinks a.id (b.id :: rest) e := by
  refine ⟨hr.fixed, ⟨b, hb, List.mem_cons_self, hr.mem⟩, ?_⟩
  rintro ⟨k, hk, hid, he⟩
  simp only [List.mem_cons, not_or] at hid
  exact (hr.sole k hk he).elim hid.1 hid.2.1

theorem sinks_of_absorb (hd : Decomposed s) (h : s.Joinable a b links) (ha : a.id ∉ rest)
    (hb : b.id ∉ rest) {e : ElementId} (hs : (s.absorb a.id b.id links).Sinks a.id rest e) :
    s.Sinks a.id (b.id :: rest) e := by
  have hfixed := (isFixed_absorb hd h e).symm.trans hs.fixed
  obtain ⟨k, hk, hid, he⟩ := (heldBy_rest_absorb hd h ha hb).mp hs.brought
  exact ⟨hfixed, ⟨k, hk, List.mem_cons_of_mem _ hid, he⟩,
    mt (heldBeside_absorb hd h).mpr hs.within⟩

/-- An element that is to be seen at its place is given up at once or later. -/
theorem Sinks.absorb (hd : Decomposed s) (h : s.Joinable a b links) (ha : a.id ∉ rest)
    (hb : b.id ∉ rest) {e : ElementId} (hs : s.Sinks a.id (b.id :: rest) e)
    (hlater : ¬ (s.absorb a.id b.id links).Sinks a.id rest e) : s.Repins a b e := by
  have hfixed := (isFixed_absorb hd h e).trans hs.fixed
  have hwithin := mt (heldBeside_absorb hd h).mp hs.within
  -- none of the clusters that are left to be absorbed holds it
  have hnot : ¬ s.HeldBy rest e := fun hheld =>
    hlater ⟨hfixed, (heldBy_rest_absorb hd h ha hb).mpr hheld, hwithin⟩
  have hsole : ∀ k ∈ s.clusters, e ∈ k.elements → k.id = a.id ∨ k.id = b.id := by
    intro k hk he
    by_contra hne
    rw [not_or] at hne
    by_cases hid : k.id ∈ rest
    · exact hnot ⟨k, hk, hid, he⟩
    · exact hs.within ⟨k, hk, by simp [hne.1, hne.2, hid], he⟩
  obtain ⟨k, hk, hid, he⟩ := hs.brought
  have hkb : k.id = b.id := (List.mem_cons.mp hid).resolve_right fun hin => hnot ⟨k, hk, hin, he⟩
  exact ⟨cluster_ext hd.numbered hk h.moving hkb ▸ he, hs.fixed, hsole⟩

end

/-- The clusters of a merger and what they see before and after it. An element that comes with one
cluster alone has gone along with the motions of that cluster. -/
structure Gathers (anchor : ClusterId) (movers : List ClusterId)
    (motions : ClusterId → List (Motion Float)) (s t : Sketch) : Prop where
  present : ∀ id ∈ anchor :: movers, ∃ k ∈ s.clusters, k.id = id
  joined : ∃ k ∈ t.clusters, k.id = anchor ∧ ∀ e, e ∈ k.elements ↔ s.HeldBy (anchor :: movers) e
  others : ∀ k, k.id ∉ anchor :: movers → (k ∈ t.clusters ↔ k ∈ s.clusters)
  gone : ∀ k ∈ t.clusters, k.id ∉ movers
  third : ∀ k ∈ s.clusters, k.id ∉ anchor :: movers → ∀ e ∈ k.elements,
    t.shapeIn? k.id e = s.shapeIn? k.id e
  kept : ∀ a ∈ s.clusters, a.id = anchor → ∀ e ∈ a.elements, ¬ s.Sinks anchor movers e →
    t.shapeIn? anchor e = s.shapeIn? anchor e
  sunk : ∀ a ∈ s.clusters, a.id = anchor → ∀ e ∈ a.elements, s.Sinks anchor movers e →
    t.shapeIn? anchor e = t.fixedAt? e ∧ t.fixedAt? e = s.fixedAt? e
  brought : ∀ b ∈ s.clusters, b.id ∈ movers → ∀ e ∈ b.elements, s.elements.isFixed e = false →
    (∀ k ∈ s.clusters, k.id ∈ anchor :: movers → e ∈ k.elements → k = b) →
    t.shapeIn? anchor e = (s.shapeIn? b.id e).map (follow (motions b.id))

theorem gathers_refl {s : Sketch} (hd : Decomposed s) {a : Cluster} (ha : a ∈ s.clusters) :
    Gathers a.id [] (fun _ => []) s s where
  present _ hid := ⟨a, ha, (List.mem_singleton.mp hid).symm⟩
  joined := by
    refine ⟨a, ha, rfl, fun e => ⟨fun he => ⟨a, ha, by simp, he⟩, ?_⟩⟩
    rintro ⟨k, hk, hid, he⟩
    exact cluster_ext hd.numbered hk ha (List.mem_singleton.mp hid) ▸ he
  others _ _ := Iff.rfl
  gone := nofun
  third _ _ _ _ _ := rfl
  kept _ _ _ _ _ _ := rfl
  sunk _ _ _ e _ hs := by
    obtain ⟨_, _, hid, _⟩ := hs.brought
    cases hid
  brought := nofun

section

variable {s t : Sketch} {a b : Cluster} {links : List ConstraintId} {rest : List ClusterId}

/-- What the joined cluster sees is what is seen in the end. -/
theorem Gathers.shapeIn?_later (hd : Decomposed s) (h : s.Joinable a b links)
    (hrest : Gathers a.id rest (fun _ => []) (s.absorb a.id b.id links) t) {e : ElementId}
    (he : e ∈ a.elements ∨ e ∈ b.elements)
    (hs : ¬ (s.absorb a.id b.id links).Sinks a.id rest e) :
    t.shapeIn? a.id e = (s.absorb a.id b.id links).shapeIn? a.id e :=
  hrest.kept (s.joined a b links) ((mem_clusters_absorb hd.numbered h).mpr (Or.inl rfl)) rfl e
    (mem_elements_joined.mpr he) hs

theorem Gathers.sunk_cons (hg : Grounded s) (hd : Decomposed s) (h : s.Joinable a b links)
    (ha : a.id ∉ rest) (hb : b.id ∉ rest)
    (hrest : Gathers a.id rest (fun _ => []) (s.absorb a.id b.id links) t)
    (hpin : ∀ e, t.fixedAt? e = (s.absorb a.id b.id links).fixedAt? e) {e : ElementId}
    (he : e ∈ a.elements) (hs : s.Sinks a.id (b.id :: rest) e) :
    t.shapeIn? a.id e = t.fixedAt? e ∧ t.fixedAt? e = s.fixedAt? e := by
  have hroot : t.fixedAt? e = s.fixedAt? e := (hpin e).trans (fixedAt?_absorb hg hd h e)
  refine ⟨?_, hroot⟩
  by_cases hlate : (s.absorb a.id b.id links).Sinks a.id rest e
  · exact (hrest.sunk (s.joined a b links)
      ((mem_clusters_absorb hd.numbered h).mpr (Or.inl rfl)) rfl e
      (mem_elements_joined.mpr (Or.inl he)) hlate).1
  · have hr := hs.absorb hd h ha hb hlate
    rw [hrest.shapeIn?_later hd h (Or.inl he) hlate, shapeIn?_absorb_of_repins hd h hr, hroot]

theorem Gathers.brought_cons (hd : Decomposed s) (h : s.Joinable a b links)
    (ha : a.id ∉ rest) (hrest : Gathers a.id rest (fun _ => []) (s.absorb a.id b.id links) t)
    {c : Cluster} (hc : c ∈ s.clusters) (hid : c.id ∈ b.id :: rest) {e : ElementId}
    (he : e ∈ c.elements) (hfixed : s.elements.isFixed e = false)
    (hsole : ∀ k ∈ s.clusters, k.id ∈ a.id :: b.id :: rest → e ∈ k.elements → k = c) :
    t.shapeIn? a.id e = s.shapeIn? c.id e := by
  have hfixed' := (isFixed_absorb hd h e).trans hfixed
  have hnotA : c.id ≠ a.id := by
    intro hca
    rcases List.mem_cons.mp hid with hcb | hcr
    · exact h.distinct (hca.symm.trans hcb)
    · exact ha (hca ▸ hcr)
  by_cases hcb : c.id = b.id
  · obtain rfl := cluster_ext hd.numbered hc h.moving hcb
    have hea : e ∉ a.elements := by
      intro hea
      exact hnotA (congrArg Cluster.id (hsole a h.anchor (by simp) hea)).symm
    have hlater := hrest.shapeIn?_later hd h (Or.inr he) fun hs => by
      rw [hs.fixed] at hfixed'
      cases hfixed'
    have hview := shapeIn?_absorb hd h (Or.inr he) fun hr => by
      rw [hr.fixed] at hfixed
      cases hfixed
    rw [hlater, hview, shapeAcross?_eq hd h, if_neg hea]
  · have hold := (mem_clusters_absorb hd.numbered h).mpr (Or.inr ⟨hc, hnotA, hcb⟩)
    have hin := (List.mem_cons.mp hid).resolve_left hcb
    have hlater := hrest.brought c hold hin e he hfixed' fun k hk hkid hek => by
      rcases (mem_clusters_absorb hd.numbered h).mp hk with rfl | ⟨hk, hka, _⟩
      · rcases mem_elements_joined.mp hek with hea | heb
        · exact absurd (congrArg Cluster.id (hsole a h.anchor (by simp) hea)).symm hnotA
        · exact absurd (congrArg Cluster.id (hsole b h.moving (by simp) heb)).symm hcb
      · have hkr := (List.mem_cons.mp hkid).resolve_left hka
        exact hsole k hk (by simp [hkr]) hek
    rw [hlater, follow_nil, Option.map_id, shapeIn?_absorb_of_ne hd h hc hnotA hcb he]
    rfl

/-- One more absorption before the others. -/
theorem Gathers.cons (hg : Grounded s) (hd : Decomposed s) (h : s.Joinable a b links)
    (ha : a.id ∉ rest) (hb : b.id ∉ rest)
    (hrest : Gathers a.id rest (fun _ => []) (s.absorb a.id b.id links) t)
    (hpin : ∀ e, t.fixedAt? e = (s.absorb a.id b.id links).fixedAt? e) :
    Gathers a.id (b.id :: rest) (fun _ => []) s t where
  present := by
    intro id hid
    by_cases hida : id = a.id
    · exact ⟨a, h.anchor, hida.symm⟩
    · rcases List.mem_cons.mp ((List.mem_cons.mp hid).resolve_left hida) with rfl | hid
      · exact ⟨b, h.moving, rfl⟩
      · obtain ⟨k, hk, rfl⟩ := hrest.present id (List.mem_cons_of_mem _ hid)
        rcases (mem_clusters_absorb hd.numbered h).mp hk with rfl | ⟨hk, _⟩
        · exact absurd rfl hida
        · exact ⟨k, hk, rfl⟩
  joined := by
    obtain ⟨k, hk, hid, helements⟩ := hrest.joined
    exact ⟨k, hk, hid, fun e => (helements e).trans (heldBy_absorb hd h)⟩
  others := by
    intro k hk
    simp only [List.mem_cons, not_or] at hk
    rw [hrest.others k (by simp [hk.1, hk.2.2]), mem_clusters_absorb hd.numbered h]
    constructor
    · rintro (rfl | ⟨hk, _⟩)
      · exact absurd rfl hk.1
      · exact hk
    · exact fun hm => Or.inr ⟨hm, hk.1, hk.2.1⟩
  gone := by
    intro k hk hid
    rcases List.mem_cons.mp hid with hid | hid
    · have hold := (hrest.others k (by simp [hid, h.distinct.symm, hb])).mp hk
      rcases (mem_clusters_absorb hd.numbered h).mp hold with rfl | ⟨_, _, hne⟩
      · exact h.distinct hid
      · exact hne hid
    · exact hrest.gone k hk hid
  third := by
    intro k hk hid e he
    simp only [List.mem_cons, not_or] at hid
    have hold := (mem_clusters_absorb hd.numbered h).mpr (Or.inr ⟨hk, hid.1, hid.2.1⟩)
    rw [hrest.third k hold (by simp [hid.1, hid.2.2]) e he,
      shapeIn?_absorb_of_ne hd h hk hid.1 hid.2.1 he]
  kept := by
    intro a' ha' hid e he hs
    obtain rfl := cluster_ext hd.numbered ha' h.anchor hid
    have hlater := hrest.shapeIn?_later hd h (Or.inl he) (mt (sinks_of_absorb hd h ha hb) hs)
    have hview := shapeIn?_absorb hd h (Or.inl he) (mt (sinks_of_repins h.moving) hs)
    rw [hlater, hview, shapeAcross?_eq hd h, if_pos he]
  sunk := by
    intro a' ha' hid e he hs
    obtain rfl := cluster_ext hd.numbered ha' h.anchor hid
    exact hrest.sunk_cons hg hd h ha hb hpin he hs
  brought := by
    intro c hc hid e he hfixed hsole
    rw [hrest.brought_cons hd h ha hc hid he hfixed hsole, follow_nil, Option.map_id]
    rfl

end

theorem Absorbs.anchor_not_mem {anchor : ClusterId} {links : List ConstraintId}
    {movers : List ClusterId} {s : Sketch} (h : Absorbs anchor links movers s) :
    anchor ∉ movers := by
  induction h with
  | nil => exact List.not_mem_nil
  | cons ha h _ ih =>
    intro hin
    rcases List.mem_cons.mp hin with heq | hin
    · exact h.distinct (ha.trans heq)
    · exact ih hin

theorem Absorbs.gathers {anchor : ClusterId} {links : List ConstraintId}
    {movers : List ClusterId} {s : Sketch} (h : Absorbs anchor links movers s) (hg : Grounded s)
    (hd : Decomposed s) :
    Gathers anchor movers (fun _ => []) s (absorbAll anchor links movers s) ∧
      ∀ e, (absorbAll anchor links movers s).fixedAt? e = s.fixedAt? e := by
  induction h with
  | @nil s a ha hs => exact ⟨ha ▸ gathers_refl hd hs, fun _ => rfl⟩
  | @cons s a b rest ha h hrest ih =>
    have hstep := (Change.absorb h).follows hg hd
    obtain ⟨hgathers, hpin⟩ := ih (hg.congr hstep.problem) hstep.decomposed
    subst ha
    have hb : b.id ∉ rest := by
      intro hb
      obtain ⟨k, hk, hid⟩ := hgathers.present b.id (List.mem_cons_of_mem _ hb)
      rcases (mem_clusters_absorb hd.numbered h).mp hk with rfl | ⟨_, _, hne⟩
      · exact h.distinct hid
      · exact hne hid
    exact ⟨hgathers.cons hg hd h hrest.anchor_not_mem hb hpin,
      fun e => (hpin e).trans (fixedAt?_absorb hg hd h e)⟩

theorem isBare_of_shared {s : Sketch} (hd : Decomposed s) {k l : Cluster} (hk : k ∈ s.clusters)
    (hl : l ∈ s.clusters) (hne : k.id ≠ l.id) {e : ElementId} (hek : e ∈ k.elements)
    (hel : e ∈ l.elements) (id : ClusterId) : s.isBare e id = false := by
  unfold isBare
  split
  · rename_i c x hc hx
    obtain ⟨hmem, rfl⟩ := ElementTable.mem_of_get? hx
    obtain ⟨hcs, rfl⟩ := (cluster?_eq_some_iff hd.numbered).mp hc
    have howns : ∀ {j : Cluster}, j ∈ s.clusters → x.id ∈ j.elements → j.id ∈ x.owners :=
      fun hj he => (hd.owned.owners x hmem _).mpr ⟨_, hj, rfl, he⟩
    have htwo := Element.two_le_owners (howns hk hek) (howns hl hel) hne
    by_cases hce : x.id ∈ c.elements
    · have hcopy := (hd.owned.copied x hmem).toCopied.shared htwo c.id (howns hcs hce)
      simp [hcopy]
    · simp [hce]
  · rfl

theorem fixedAt?_drag_of_shared {s : Sketch} (hd : Decomposed s) {k l : Cluster}
    (hk : k ∈ s.clusters) (hl : l ∈ s.clusters) (hne : k.id ≠ l.id) {e : ElementId}
    (hek : e ∈ k.elements) (hel : e ∈ l.elements) (moves : List (ClusterId × Motion Float)) :
    (s.drag moves).fixedAt? e = s.fixedAt? e := by
  have hnone : s.strays e moves = [] := by
    simp [strays, isBare_of_shared hd hk hl hne hek hel]
  rw [fixedAt?_drag, hnone, follow_nil, Option.map_id]
  rfl

theorem sinks_drag {s : Sketch} (hd : Decomposed s) (moves : List (ClusterId × Motion Float))
    {anchor : ClusterId} {movers : List ClusterId} {e : ElementId} :
    (s.drag moves).Sinks anchor movers e ↔ s.Sinks anchor movers e := by
  have hfixed : (s.drag moves).elements.isFixed e = s.elements.isFixed e :=
    ElementTable.isFixed_congr ((moved_drag s moves).follows hd).problem.roster e
  have hheld : ∀ ids, (s.drag moves).HeldBy ids e ↔ s.HeldBy ids e := by
    simp [HeldBy, (moved_drag s moves).clusters]
  have hbeside : ∀ ids, (s.drag moves).HeldBeside ids e ↔ s.HeldBeside ids e := by
    simp [HeldBeside, (moved_drag s moves).clusters]
  constructor
  · rintro ⟨hf, hb, hw⟩
    exact ⟨hfixed.symm.trans hf, (hheld movers).mp hb, mt (hbeside _).mpr hw⟩
  · rintro ⟨hf, hb, hw⟩
    exact ⟨hfixed.trans hf, (hheld movers).mpr hb, mt (hbeside _).mp hw⟩

/-- The clusters that are to be absorbed are moved before. -/
theorem Gathers.drag {s t : Sketch} (hd : Decomposed s) {anchor : ClusterId}
    {movers : List ClusterId} {moves : List (ClusterId × Motion Float)}
    (hmoves : ∀ p ∈ moves, p.1 ∈ movers) (hanchor : anchor ∉ movers)
    (h : Gathers anchor movers (fun _ => []) (s.drag moves) t) :
    Gathers anchor movers (fun k => motionsOf k moves) s t := by
  have hclusters := (moved_drag s moves).clusters
  have hfixed := fun e =>
    ElementTable.isFixed_congr ((moved_drag s moves).follows hd).problem.roster e
  have hstill : ∀ k ∈ s.clusters, k.id ∉ movers → ∀ e ∈ k.elements,
      (s.drag moves).shapeIn? k.id e = s.shapeIn? k.id e := by
    intro k hk hid e he
    exact shapeIn?_drag_of_ne hd hk he fun p hp heq => hid (heq ▸ hmoves p hp)
  obtain ⟨present, joined, others, gone, third, kept, sunk, brought⟩ := h
  simp only [hclusters, HeldBy] at present joined others third kept sunk brought
  refine ⟨present, joined, others, gone, ?_, ?_, ?_, ?_⟩
  · intro k hk hid e he
    rw [third k hk hid e he]
    exact hstill k hk (fun hm => hid (List.mem_cons_of_mem _ hm)) e he
  · intro a ha hid e he hs
    rw [kept a ha hid e he (mt (sinks_drag hd moves).mp hs), ← hid]
    exact hstill a ha (hid ▸ hanchor) e he
  · intro a ha hid e he hs
    obtain ⟨hview, hroot⟩ := sunk a ha hid e he ((sinks_drag hd moves).mpr hs)
    -- two clusters hold the element, so that only copies of it were moved
    obtain ⟨b, hb, hbid, heb⟩ := hs.brought
    have hne : a.id ≠ b.id := fun heq => hanchor (hid ▸ heq ▸ hbid)
    exact ⟨hview, hroot.trans (fixedAt?_drag_of_shared hd ha hb hne he heb moves)⟩
  · intro b hb hid e he hloose hsole
    rw [brought b hb hid e he ((hfixed e).trans hloose) hsole, shapeIn?_drag hd hb he,
      follow_nil, Option.map_id]
    rfl

theorem Merger.Fits.gathers {s : Sketch} (hg : Grounded s) (hd : Decomposed s) {m : Merger}
    (h : m.Fits s) :
    ∃ motions, Gathers m.anchor m.movers motions s m.result := by
  obtain ⟨anchor, movers, links, start⟩ := m
  obtain ⟨habsorbs, _, _, moves, rfl, hmovers⟩ := h
  have hfollows := (moved_drag s moves).follows hd
  have hgathers := (habsorbs.gathers (hg.congr hfollows.problem) hfollows.decomposed).1
  exact ⟨_, hgathers.drag hd hmovers habsorbs.anchor_not_mem⟩

/-- Whenever a round of a solve joins clusters, the anchor stays put: it takes over the elements
of the others and sees its own as before, unless a fixed one is left to it alone. -/
theorem Reachable.gathers_throughout {s : Sketch} (hs : Reachable s) (hn : s.isSettled = false)
    {solver : LinearSolver} {p : Point} (hp : p ∈ s.prepared.points solver)
    (hj : p.sketch.joinOnce.2 = some .joined) :
    ∃ m motions, p.sketch.roundMerger? = some m ∧
      Gathers m.anchor m.movers motions p.sketch p.sketch.joinOnce.1 := by
  have hunder := hs.underpinned hn hp
  obtain ⟨hjoined, hmoved⟩ := hunder.round
  cases hm : p.sketch.roundMerger? with
  | none => exact absurd hj (hmoved hm).1
  | some m =>
    obtain ⟨heq, hfits⟩ := hjoined m hm
    obtain ⟨motions, hgathers⟩ := hfits.gathers hunder.grounded hunder.decomposed
    rw [heq]
    exact ⟨m, motions, rfl, hgathers⟩

end Sketch

/-- Two trusses on a triangle with two fixed feet, with which both share one foot and the tip. The
feet are farther apart than the triangle would have them, by less than the tolerance. -/
def Call.trestle : List Call :=
  [addPoint true 0 0, addPoint true 6.25 0, addPoint false 3 4, addPoint false 9 4,
    addPoint false 6 4, addPoint false 6 8, addPoint false 3 8, addPoint false 0 (-8),
    addPoint false 6 (-8), addPoint false 3 (-4), addPoint false 9 (-4)] ++
  ([(0, 1, 6), (0, 2, 5), (1, 2, 5), (1, 3, 5), (1, 4, 4), (3, 4, 3), (3, 5, 5), (4, 5, 4),
    (5, 6, 3), (4, 6, 5), (5, 2, 5), (6, 2, 4), (1, 7, 10), (1, 8, 8), (7, 8, 6), (7, 9, 5),
    (8, 9, 5), (9, 10, 6), (8, 10, 5), (9, 2, 8), (10, 2, 10)] : List (Nat × Nat × Float)).map
    fun (i, j, d) => constrain .distance ⟨i⟩ ⟨j⟩ d

namespace Sketch

def trestle : Sketch := Call.runAll solveLinear Call.trestle { settings := { tolerance := 0.5 } }

theorem reachable_trestle : Reachable trestle :=
  (Reachable.new _).runAll solveLinear Call.trestle

instance (s : Sketch) (ids : List ClusterId) (e : ElementId) : Decidable (s.HeldBy ids e) :=
  inferInstanceAs (Decidable (∃ k ∈ s.clusters, k.id ∈ ids ∧ e ∈ k.elements))

theorem exists_foot_trestle :
    ∃ p ∈ trestle.prepared.points solveLinear, p.sketch.joinOnce.2 = some .joined ∧
      ∃ m ∈ p.sketch.roundMerger?, ∃ a ∈ p.sketch.clusters, a.id = m.anchor ∧
      ∃ e ∈ a.elements.toList, p.sketch.elements.isFixed e = true ∧
      p.sketch.HeldBy m.movers e ∧
      p.sketch.joinOnce.1.shapeIn? m.anchor e ≠ p.sketch.joinOnce.1.fixedAt? e := by
  decide +kernel

theorem gathers_throughout_trestle :
    ∃ p ∈ trestle.prepared.points solveLinear, p.sketch.joinOnce.2 = some .joined ∧
      ∃ m motions, p.sketch.roundMerger? = some m ∧
        Gathers m.anchor m.movers motions p.sketch p.sketch.joinOnce.1 := by
  obtain ⟨p, hp, hj, _⟩ := exists_foot_trestle
  exact ⟨p, hp, hj, Reachable.gathers_throughout reachable_trestle (by decide +kernel) hp hj⟩

/-- The triangle absorbs the first truss while the second still holds the foot that all three
share, and goes on seeing the foot where it put it and not at its place. -/
theorem foot_off_place_trestle :
    ¬ ∀ s, Reachable s → s.isSettled = false → ∀ p ∈ s.prepared.points solveLinear,
      p.sketch.joinOnce.2 = some .joined → ∀ m, p.sketch.roundMerger? = some m →
      ∀ a ∈ p.sketch.clusters, a.id = m.anchor → ∀ e ∈ a.elements,
      p.sketch.elements.isFixed e = true → p.sketch.HeldBy m.movers e →
      p.sketch.joinOnce.1.shapeIn? m.anchor e = p.sketch.joinOnce.1.fixedAt? e := by
  intro hall
  obtain ⟨p, hp, hj, m, hm, a, ha, hid, e, he, hfixed, hheld, hoff⟩ := exists_foot_trestle
  have hseen := hall trestle reachable_trestle (by decide +kernel) p hp hj m hm a ha hid e he
  exact hoff (hseen hfixed hheld)

end Sketch

end RigidSketch
