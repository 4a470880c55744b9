import RigidSketch.Proofs.FixedElements
import RigidSketch.Proofs.Levels

/-! What clusters see of their elements while clusters are moved and joined. A cluster that takes
no part sees nothing of it, and the joined cluster sees each element as the anchor did, or as the
moving cluster did where the anchor did not hold it. -/

namespace RigidSketch

namespace Element

theorem shapeIn_eq_of_copy? {x y : Element} {k l : ClusterId} (hcopy : y.copy? l = x.copy? k)
    (hshape : y.shape = x.shape) : y.shapeIn l = x.shapeIn k := by
  unfold shapeIn
  rw [hcopy, hshape]

theorem shapeIn_moveIn (x : Element) (k : ClusterId) (m : Motion Float) :
    (x.moveIn k m).shapeIn k = m.move (x.shapeIn k) := by
  unfold moveIn setShapeIn
  cases hc : x.copy? k with
  | some c => rw [shapeIn, copy?_putCopy, if_pos rfl]
  | none =>
    have hnone : copy? { x with shape := m.move (x.shapeIn k) } k = none := hc
    rw [shapeIn, hnone]

theorem two_le_owners {x : Element} {k l : ClusterId} (hk : k ∈ x.owners) (hl : l ∈ x.owners)
    (hne : k ≠ l) : 2 ≤ x.owners.length := by
  by_contra hlen
  rw [owners_eq_of_sole hk hlen, List.mem_singleton] at hl
  exact hne hl.symm

theorem shapeIn_moveIn_of_ne {x : Element} (hx : x.Copied) {k l : ClusterId} (hk : k ∈ x.owners)
    (hl : l ∈ x.owners) (hne : l ≠ k) (m : Motion Float) :
    (x.moveIn k m).shapeIn l = x.shapeIn l :=
  shapeIn_setShapeIn_of_ne hne (hx.shared (two_le_owners hk hl hne.symm) k hk) _

theorem id_reassign (x : Element) (old new : ClusterId) : (x.reassign old new).id = x.id := by
  unfold reassign
  dsimp only
  split
  · rfl
  · split
    · exact (settle_frame _).1
    · split <;> exact (settle_frame _).1

theorem shape_settle_of_loose {x : Element} {k : ClusterId} (ho : x.owners = [k])
    (hf : x.fixed = false) : x.settle.shape = x.shapeIn k := by
  cases hc : x.copy? k with
  | some c => simp [settle, shapeIn, dropCopy, ho, hc, hf]
  | none => simp [settle, shapeIn, ho, hc]

theorem shapeIn_settle {x : Element} (hx : x.Copied) {k : ClusterId} (hk : k ∈ x.owners)
    (h : 2 ≤ x.owners.length ∨ x.fixed = false) : x.settle.shapeIn k = x.shapeIn k := by
  by_cases hlen : 2 ≤ x.owners.length
  · have hsame : x.settle = x := by
      unfold settle
      split
      · rename_i o ho
        simp [ho] at hlen
      · rfl
    rw [hsame]
  · have ho := owners_eq_of_sole hk hlen
    have hnone : x.settle.copy? k = none := by rw [copy?_settle hx, if_pos (by simp [ho])]
    rw [← shape_settle_of_loose ho (h.resolve_left hlen), shapeIn, hnone]

theorem shapeIn_settle_of_fixed {x : Element} (hx : x.Copied) {k : ClusterId}
    (ho : x.owners = [k]) (hf : x.fixed = true) : x.settle.shapeIn k = x.shape := by
  have hnone : x.settle.copy? k = none := by rw [copy?_settle hx, if_pos (by simp [ho])]
  rw [shapeIn, hnone]
  exact shape_settle_of_fixed hf

section

variable {x : Element} {old new : ClusterId}

theorem shapeIn_handOver_of_ne {k : ClusterId} (hx : x.Copied) (hne : old ≠ new) (hold : k ≠ old)
    (hnew : k ≠ new) : (x.handOver old new).shapeIn k = x.shapeIn k := by
  refine shapeIn_eq_of_copy? ?_ (handOver_frame old new x).2.2
  by_cases hm : new ∈ x.owners
  · rw [copy?_handOver_of_mem hne hm, if_neg hold]
  · rw [copy?_handOver_of_not_mem hx hne hm, if_neg hnew, if_neg hold]

theorem shapeIn_handOver (hx : x.Copied) (hne : old ≠ new) :
    (x.handOver old new).shapeIn new = x.shapeIn (if new ∈ x.owners then new else old) := by
  refine shapeIn_eq_of_copy? ?_ (handOver_frame old new x).2.2
  by_cases hm : new ∈ x.owners
  · rw [copy?_handOver_of_mem hne hm, if_neg hne.symm, if_pos hm]
  · rw [copy?_handOver_of_not_mem hx hne hm, if_pos rfl, if_neg hm]

theorem shapeIn_reassign_of_ne {k : ClusterId} (hx : x.Copied) (hne : old ≠ new)
    (ho : old ∈ x.owners) (hk : k ∈ x.owners) (hold : k ≠ old) (hnew : k ≠ new) :
    (x.reassign old new).shapeIn k = x.shapeIn k := by
  have hmem : k ∈ (x.handOver old new).owners := mem_owners_handOver.mpr (Or.inr ⟨hk, hold⟩)
  have htwo := two_le_owners hmem (mem_owners_handOver.mpr (Or.inl rfl)) hnew
  rw [reassign_eq ho, shapeIn_settle (hx.handOver hne ho) hmem (Or.inl htwo),
    shapeIn_handOver_of_ne hx hne hold hnew]

/-- The cluster that an element is handed to sees it as it did before, or as the other one did. -/
theorem shapeIn_reassign (hx : x.Copied) (hne : old ≠ new) (ho : old ∈ x.owners)
    (h : x.fixed = false ∨ ∃ k ∈ x.owners, k ≠ old ∧ k ≠ new) :
    (x.reassign old new).shapeIn new = x.shapeIn (if new ∈ x.owners then new else old) := by
  have hnew : new ∈ (x.handOver old new).owners := mem_owners_handOver.mpr (Or.inl rfl)
  have hkept : 2 ≤ (x.handOver old new).owners.length ∨ (x.handOver old new).fixed = false := by
    rcases h with hf | ⟨k, hk, hold, hkn⟩
    · exact Or.inr ((handOver_frame old new x).2.1.trans hf)
    · exact Or.inl (two_le_owners (mem_owners_handOver.mpr (Or.inr ⟨hk, hold⟩)) hnew hkn)
  rw [reassign_eq ho, shapeIn_settle (hx.handOver hne ho) hnew hkept, shapeIn_handOver hx hne]

/-- Once no other cluster holds it, a fixed element is seen where it is. -/
theorem shapeIn_reassign_of_fixed (hx : x.Copied) (hne : old ≠ new) (ho : old ∈ x.owners)
    (hf : x.fixed = true) (hall : ∀ k ∈ x.owners, k = old ∨ k = new) :
    (x.reassign old new).shapeIn new = x.shape := by
  have hcopied := hx.handOver hne ho
  have hsole : (x.handOver old new).owners = [new] := by
    have hnew : ∀ k ∈ (x.handOver old new).owners, k = new := by
      intro k hk
      rcases mem_owners_handOver.mp hk with hk | ⟨hk, hold⟩
      · exact hk
      · exact (hall k hk).resolve_left hold
    have hnd := hcopied.nodup
    refine owners_eq_of_sole (mem_owners_handOver.mpr (Or.inl rfl)) fun hlen => ?_
    rw [List.eq_replicate_iff.mpr ⟨rfl, hnew⟩, List.nodup_replicate] at hnd
    omega
  obtain ⟨_, hfixed, hshape⟩ := handOver_frame old new x
  rw [reassign_eq ho, shapeIn_settle_of_fixed hcopied hsole (hfixed.trans hf), hshape]

end

end Element

namespace Sketch

/-- The motions of one cluster among some moves. -/
def motionsOf (k : ClusterId) (moves : List (ClusterId × Motion Float)) : List (Motion Float) :=
  (moves.filter (·.1 = k)).map (·.2)

theorem shapeIn?_moveCluster {s : Sketch} (hd : Decomposed s) {l : Cluster} (hl : l ∈ s.clusters)
    {e : ElementId} (he : e ∈ l.elements) (k : ClusterId) (m : Motion Float) :
    (s.moveCluster k m).shapeIn? l.id e =
      (s.shapeIn? l.id e).map (follow (motionsOf l.id [(k, m)])) := by
  cases hc : s.cluster? k with
  | none =>
    have hne : k ≠ l.id := by
      rintro rfl
      rw [(cluster?_eq_some_iff hd.numbered).mpr ⟨hl, rfl⟩] at hc
      cases hc
    simp [moveCluster, hc, motionsOf, hne]
  | some c =>
    obtain ⟨hcs, rfl⟩ := (cluster?_eq_some_iff hd.numbered).mp hc
    unfold shapeIn? ElementTable.shapeIn? moveCluster
    rw [hc]
    dsimp only [Cluster.move]
    rw [ElementTable.get?_mapWhere fun x => (x.reshaped_moveIn c.id m).id]
    cases hx : s.elements.get? e with
    | none => rfl
    | some x =>
      obtain ⟨hmem, rfl⟩ := ElementTable.mem_of_get? hx
      have hlx : l.id ∈ x.owners := (hd.owned.owners x hmem l.id).mpr ⟨l, hl, rfl, he⟩
      by_cases hcl : c.id = l.id
      · obtain rfl := cluster_ext hd.numbered hcs hl hcl
        simp [motionsOf, he, follow, Element.shapeIn_moveIn]
      · by_cases hce : x.id ∈ c.elements
        · have hcx : c.id ∈ x.owners := (hd.owned.owners x hmem c.id).mpr ⟨c, hcs, rfl, hce⟩
          have hsame := Element.shapeIn_moveIn_of_ne (hd.owned.copied x hmem).toCopied hcx hlx
            (Ne.symm hcl) m
          simp [motionsOf, hce, hcl, hsame]
        · simp [motionsOf, hce, hcl]

/-- Moves of other clusters make no difference to what a cluster sees. -/
theorem shapeIn?_drag {s : Sketch} (hd : Decomposed s) {l : Cluster} (hl : l ∈ s.clusters)
    {e : ElementId} (he : e ∈ l.elements) (moves : List (ClusterId × Motion Float)) :
    (s.drag moves).shapeIn? l.id e =
      (s.shapeIn? l.id e).map (follow (motionsOf l.id moves)) := by
  induction moves generalizing s with
  | nil => simp [drag, motionsOf]
  | cons p moves ih =>
    have hmoved := moved_moveCluster s p.1 p.2
    have hl' : l ∈ (s.moveCluster p.1 p.2).clusters := by rwa [hmoved.clusters]
    have hcons : motionsOf l.id (p :: moves) = motionsOf l.id [p] ++ motionsOf l.id moves := by
      unfold motionsOf
      rw [← List.map_append, ← List.filter_append, List.singleton_append]
    have hdrag : s.drag (p :: moves) = (s.moveCluster p.1 p.2).drag moves := rfl
    rw [hdrag, ih (hmoved.follows hd).decomposed hl', shapeIn?_moveCluster hd hl he, hcons,
      follow_append, Option.map_map]

theorem shapeIn?_drag_of_ne {s : Sketch} (hd : Decomposed s) {l : Cluster} (hl : l ∈ s.clusters)
    {e : ElementId} (he : e ∈ l.elements) {moves : List (ClusterId × Motion Float)}
    (hmoves : ∀ p ∈ moves, p.1 ≠ l.id) :
    (s.drag moves).shapeIn? l.id e = s.shapeIn? l.id e := by
  have hnone : motionsOf l.id moves = [] := by
    simpa [motionsOf] using hmoves
  rw [shapeIn?_drag hd hl he, hnone]
  exact Option.map_id'

section

variable {s : Sketch} {a b : Cluster} {links : List ConstraintId}

theorem get?_absorb (hd : Decomposed s) (h : s.Joinable a b links) (e : ElementId) :
    (s.absorb a.id b.id links).elements.get? e = (s.elements.get? e).map fun x =>
      if e ∈ b.elements then x.reassign b.id a.id else x := by
  rw [(absorb_frame hd.numbered h).2.2.2.1,
    ElementTable.get?_mapWhere fun x => x.id_reassign b.id a.id]
  simp only [decide_eq_true_eq]

theorem shapeIn?_absorb_of_not_mem (hd : Decomposed s) (h : s.Joinable a b links)
    {e : ElementId} (he : e ∉ b.elements) (k : ClusterId) :
    (s.absorb a.id b.id links).shapeIn? k e = s.shapeIn? k e := by
  unfold shapeIn? ElementTable.shapeIn?
  rw [get?_absorb hd h]
  simp [he]

theorem shapeIn?_absorb_of_ne (hd : Decomposed s) (h : s.Joinable a b links) {k : Cluster}
    (hk : k ∈ s.clusters) (hka : k.id ≠ a.id) (hkb : k.id ≠ b.id) {e : ElementId}
    (he : e ∈ k.elements) : (s.absorb a.id b.id links).shapeIn? k.id e = s.shapeIn? k.id e := by
  by_cases hb : e ∈ b.elements
  · unfold shapeIn? ElementTable.shapeIn?
    rw [get?_absorb hd h]
    cases hx : s.elements.get? e with
    | none => rfl
    | some x =>
      obtain ⟨hmem, rfl⟩ := ElementTable.mem_of_get? hx
      have hkx : k.id ∈ x.owners := (hd.owned.owners x hmem k.id).mpr ⟨k, hk, rfl, he⟩
      have hbx := mem_owners_of_moving hd.owned h hmem hb
      have hsame := Element.shapeIn_reassign_of_ne (hd.owned.copied x hmem).toCopied
        h.distinct.symm hbx hkx hkb hka
      simp [hb, hsame]
  · exact shapeIn?_absorb_of_not_mem hd h hb k.id

theorem shapeAcross?_eq (hd : Decomposed s) (h : s.Joinable a b links) (e : ElementId) :
    s.shapeAcross? a.id b.id e = s.shapeIn? (if e ∈ a.elements then a.id else b.id) e := by
  have ha := (cluster?_eq_some_iff hd.numbered).mpr ⟨h.anchor, rfl⟩
  simp [shapeAcross?, ha]

/-- A fixed element is left to the joined cluster alone, which gives its copy up for it. -/
structure Repins (s : Sketch) (a b : Cluster) (e : ElementId) : Prop where
  mem : e ∈ b.elements
  fixed : s.elements.isFixed e = true
  sole : ∀ k ∈ s.clusters, e ∈ k.elements → k.id = a.id ∨ k.id = b.id

theorem shapeIn?_absorb (hd : Decomposed s) (h : s.Joinable a b links) {e : ElementId}
    (he : e ∈ a.elements ∨ e ∈ b.elements) (hkept : ¬ s.Repins a b e) :
    (s.absorb a.id b.id links).shapeIn? a.id e = s.shapeAcross? a.id b.id e := by
  rw [shapeAcross?_eq hd h]
  by_cases hb : e ∈ b.elements
  · unfold shapeIn? ElementTable.shapeIn?
    rw [get?_absorb hd h]
    cases hx : s.elements.get? e with
    | none => rfl
    | some x =>
      have hisFixed : s.elements.isFixed e = x.fixed := by simp [ElementTable.isFixed, hx]
      obtain ⟨hmem, rfl⟩ := ElementTable.mem_of_get? hx
      have hown := hd.owned.owners x hmem
      have hbx := mem_owners_of_moving hd.owned h hmem hb
      have hax : a.id ∈ x.owners ↔ x.id ∈ a.elements := by
        rw [hown]
        constructor
        · rintro ⟨c, hc, hid, hm⟩
          exact cluster_ext hd.numbered hc h.anchor hid ▸ hm
        · exact fun hm => ⟨a, h.anchor, rfl, hm⟩
      have hthird : x.fixed = false ∨ ∃ k ∈ x.owners, k ≠ b.id ∧ k ≠ a.id := by
        by_contra hno
        simp only [not_or, not_exists, not_and, Bool.not_eq_false, ne_eq, not_not] at hno
        refine hkept ⟨hb, hisFixed.trans hno.1, fun k hk hm => ?_⟩
        by_cases hkb : k.id = b.id
        · exact Or.inr hkb
        · exact Or.inl (hno.2 k.id ((hown k.id).mpr ⟨k, hk, rfl, hm⟩) hkb)
      have hview := Element.shapeIn_reassign (hd.owned.copied x hmem).toCopied h.distinct.symm
        hbx hthird
      simp only [hax] at hview
      simp [hb, hview]
  · rw [shapeIn?_absorb_of_not_mem hd h hb, if_pos (he.resolve_right hb)]

theorem shapeIn?_absorb_of_repins (hd : Decomposed s) (h : s.Joinable a b links) {e : ElementId}
    (he : s.Repins a b e) :
    (s.absorb a.id b.id links).shapeIn? a.id e = s.fixedAt? e := by
  unfold shapeIn? ElementTable.shapeIn? fixedAt? ElementTable.fixedAt?
  rw [get?_absorb hd h]
  cases hx : s.elements.get? e with
  | none => rfl
  | some x =>
    have hf : x.fixed = true := by simpa [ElementTable.isFixed, hx] using he.fixed
    obtain ⟨hmem, rfl⟩ := ElementTable.mem_of_get? hx
    have hown := hd.owned.owners x hmem
    have hall : ∀ k ∈ x.owners, k = b.id ∨ k = a.id := by
      intro k hk
      obtain ⟨c, hc, rfl, hm⟩ := (hown k).mp hk
      exact (he.sole c hc hm).symm
    have hview := Element.shapeIn_reassign_of_fixed (hd.owned.copied x hmem).toCopied
      h.distinct.symm (mem_owners_of_moving hd.owned h hmem he.mem) hf hall
    simp [he.mem, hview, hf]

theorem fixedAt?_absorb (hg : Grounded s) (hd : Decomposed s) (h : s.Joinable a b links)
    (e : ElementId) : (s.absorb a.id b.id links).fixedAt? e = s.fixedAt? e :=
  fixedAt?_congr (Changes.pinned (.single (.absorb h)) hg hd) e

end

end Sketch

end RigidSketch
