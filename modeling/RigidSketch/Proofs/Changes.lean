import Mathlib.Logic.Relation
import RigidSketch.Proofs.Absorption
import RigidSketch.Sketch.Solve

/-! What solving does to a sketch, change by change. No change of these kinds moves a fixed
element; clusters that may take one along are dragged instead. -/

namespace RigidSketch

/-- The elements in order, each fixed one with its place. -/
def ElementTable.pinned (t : ElementTable) : List (ElementId × Option (Shape Float)) :=
  t.elements.map fun e => (e.id, if e.fixed then some e.shape else none)

theorem ElementTable.pinned_map {t : ElementTable} {f : Element → Element}
    (hf : ∀ e ∈ t.elements, (f e).id = e.id ∧ (f e).fixed = e.fixed ∧
      (e.fixed = true → (f e).shape = e.shape)) : (t.map f).pinned = t.pinned := by
  unfold pinned map
  rw [List.map_map]
  refine List.map_congr_left fun e he => ?_
  obtain ⟨hid, hfixed, hshape⟩ := hf e he
  cases hfe : e.fixed with
  | false => simp [hid, hfixed, hfe]
  | true => simp [hid, hfixed, hfe, hshape hfe]

theorem ElementTable.pinned_mapWhere {t : ElementTable} {p : ElementId → Bool}
    {f : Element → Element} (hf : ∀ e ∈ t.elements, p e.id → (f e).id = e.id ∧
      (f e).fixed = e.fixed ∧ (e.fixed = true → (f e).shape = e.shape)) :
    (t.mapWhere p f).pinned = t.pinned := by
  refine pinned_map fun e he => ?_
  split
  · rename_i hp
    exact hf e he hp
  · exact ⟨rfl, rfl, fun _ => rfl⟩

namespace Sketch

/-- The cluster moves about copies of its fixed elements, not these themselves. -/
def Shelters (s : Sketch) (k : Cluster) : Prop :=
  ∀ e ∈ s.elements.elements, e.fixed = true → e.id ∈ k.elements → (e.copy? k.id).isSome

inductive Change : Sketch → Sketch → Prop
  | write {s : Sketch} {k : Cluster} {e : ElementId} (hk : k ∈ s.clusters)
      (he : e ∈ k.elements) (hs : s.Shelters k) (g : Shape Float) :
      Change s { s with elements := s.elements.setShapeIn k.id e g }
  | move {s : Sketch} {k : Cluster} (hk : k ∈ s.clusters) (hs : s.Shelters k)
      (m : Motion Float) : Change s { s with elements := k.move m s.elements }
  | absorb {s : Sketch} {a b : Cluster} {links : List ConstraintId}
      (h : s.Joinable a b links) : Change s (s.absorb a.id b.id links)
  | loosen (s : Sketch) (target : ElementId → Option (Shape Float)) :
      Change s { s with elements := s.elements.map (placeLoose target) }
  | settle (s : Sketch) : Change s { s with elements := s.elements.map (·.settle) }
  | mark (s : Sketch) : Change s s.markSolved
  | close (s : Sketch) (status : Status) : Change s { s with status, edited := false }

abbrev Changes := Relation.ReflTransGen Change

/-- The decomposition is sound again, of the same problem and holding the same elements. -/
structure Follows (s t : Sketch) : Prop where
  decomposed : Decomposed t
  problem : SameProblem s t
  holds : ∀ e, t.Holds e ↔ s.Holds e
  next : t.nextCluster = s.nextCluster
  built : t.built = s.built

theorem Decomposed.follows {s : Sketch} (hd : Decomposed s) : Follows s s :=
  ⟨hd, .refl s, fun _ => Iff.rfl, rfl, rfl⟩

theorem Follows.trans {s t u : Sketch} (h : Follows s t) (h' : Follows t u) : Follows s u :=
  ⟨h'.decomposed, h.problem.trans h'.problem, fun e => (h'.holds e).trans (h.holds e),
    h'.next.trans h.next, h'.built.trans h.built⟩

theorem follows_map {s : Sketch} (hd : Decomposed s) {f : Element → Element}
    (hf : ∀ e ∈ s.elements.elements, (f e).id = e.id ∧ (f e).fixed = e.fixed ∧
      (f e).owners = e.owners ∧ (f e).WellCopied) :
    Follows s { s with elements := s.elements.map f } := by
  refine ⟨⟨⟨?_, ?_⟩, hd.partitioned.congr rfl rfl rfl rfl, hd.numbered, hd.touched, hd.claimed⟩,
    ⟨rfl, ?_, rfl, rfl⟩, fun _ => Iff.rfl, rfl, rfl⟩
  · intro e' he'
    obtain ⟨e, he, rfl⟩ := List.mem_map.mp he'
    exact (hf e he).2.2.2
  · intro e' he' k
    obtain ⟨e, he, rfl⟩ := List.mem_map.mp he'
    rw [(hf e he).2.2.1, (hf e he).1]
    exact hd.owned.owners e he k
  · exact ElementTable.roster_map fun e he => ⟨(hf e he).1, (hf e he).2.1⟩

theorem follows_reshape {s : Sketch} (hd : Decomposed s) {f : Element → Element}
    (hf : ∀ e ∈ s.elements.elements, e.Reshaped (f e)) :
    Follows s { s with elements := s.elements.map f } := by
  refine follows_map hd fun e he => ?_
  have h := hf e he
  exact ⟨h.id, h.fixed, h.owners, h.wellCopied (hd.owned.copied e he)⟩

theorem follows_constraints {s : Sketch} (hd : Decomposed s) {cs : ConstraintTable}
    (hcs : cs.unsolved = s.constraints.unsolved) : Follows s { s with constraints := cs } := by
  refine ⟨⟨hd.owned.congr rfl rfl, hd.partitioned.congr hcs rfl rfl rfl, hd.numbered, ?_, ?_⟩,
    ⟨rfl, rfl, rfl, hcs⟩, fun _ => Iff.rfl, rfl, rfl⟩
  · intro e he
    obtain ⟨c, hc, hce⟩ := hd.touched e he
    obtain ⟨d, hdm, hsame⟩ := ConstraintTable.mem_of_unsolved hcs hc
    exact ⟨d, hdm, hsame.ends ▸ hce⟩
  · intro c hc e he
    obtain ⟨d, hdm, hsame⟩ := ConstraintTable.mem_of_unsolved hcs.symm hc
    exact hd.claimed d hdm e (hsame.ends ▸ he)

theorem follows_absorb {s : Sketch} {a b : Cluster} {links : List ConstraintId}
    (hg : Grounded s) (hd : Decomposed s) (h : s.Joinable a b links) :
    Follows s (s.absorb a.id b.id links) := by
  obtain ⟨_, _, hnext, _, hbuilt⟩ := absorb_frame hd.numbered h
  exact ⟨hd.absorb hg h, sameProblem_absorb hd h, holds_absorb hd.numbered h, hnext, hbuilt⟩

theorem follows_mapWhere {s : Sketch} (hd : Decomposed s) {p : ElementId → Bool}
    {f : Element → Element} (hf : ∀ e : Element, e.Reshaped (f e)) :
    Follows s { s with elements := s.elements.mapWhere p f } := by
  refine follows_reshape hd fun e _ => ?_
  split
  · exact hf e
  · exact .refl e

theorem reshaped_placeLoose (target : ElementId → Option (Shape Float)) (e : Element) :
    e.Reshaped (placeLoose target e) := by
  unfold placeLoose
  split
  · exact .refl e
  · split
    · exact ⟨rfl, rfl, rfl, fun _ => rfl⟩
    · exact .refl e

theorem Change.follows {s t : Sketch} (h : Change s t) (hg : Grounded s) (hd : Decomposed s) :
    Follows s t := by
  cases h with
  | @write k id hk he hs g =>
    exact follows_mapWhere (p := (· = id)) hd fun e => e.reshaped_setShapeIn k.id g
  | @move k hk hs m => exact follows_mapWhere hd fun e => e.reshaped_moveIn k.id m
  | absorb h => exact follows_absorb hg hd h
  | loosen target => exact follows_reshape hd fun e _ => reshaped_placeLoose target e
  | settle =>
    refine follows_map hd fun e he => ?_
    obtain ⟨hid, hfixed, howners⟩ := e.settle_frame
    exact ⟨hid, hfixed, howners, (hd.owned.copied e he).toCopied.settle⟩
  | mark => exact follows_constraints hd (ConstraintTable.unsolved_map _)
  | close status =>
    exact ⟨⟨hd.owned.congr rfl rfl, hd.partitioned.congr rfl rfl rfl rfl, hd.numbered,
      hd.touched, hd.claimed⟩, ⟨rfl, rfl, rfl, rfl⟩, fun _ => Iff.rfl, rfl, rfl⟩

theorem Change.pinned {s t : Sketch} (h : Change s t) (hd : Decomposed s) :
    t.elements.pinned = s.elements.pinned := by
  cases h with
  | @write k id hk he hs g =>
    refine ElementTable.pinned_mapWhere fun e hm hid => ?_
    obtain rfl : e.id = id := by simpa using hid
    have hr := e.reshaped_setShapeIn k.id g
    refine ⟨hr.id, hr.fixed, fun hf => ?_⟩
    rw [Element.shape_setShapeIn, if_pos (hs e hm hf he)]
  | @move k hk hs m =>
    refine ElementTable.pinned_mapWhere fun e hm hin => ?_
    have hr := e.reshaped_moveIn k.id m
    refine ⟨hr.id, hr.fixed, fun hf => ?_⟩
    rw [Element.shape_moveIn, if_pos (hs e hm hf (by simpa using hin))]
  | @absorb a b links h =>
    rw [(absorb_frame hd.numbered h).2.2.2.1]
    refine ElementTable.pinned_mapWhere fun e hm hin => ?_
    have ho := mem_owners_of_moving hd.owned h hm (by simpa using hin)
    exact ⟨(Element.reassign_frame ho).1, (Element.reassign_frame ho).2,
      Element.shape_reassign_of_fixed ho⟩
  | loosen target =>
    refine ElementTable.pinned_map fun e _ => ?_
    have hr := reshaped_placeLoose target e
    exact ⟨hr.id, hr.fixed, fun hf => by simp [placeLoose, hf]⟩
  | settle =>
    refine ElementTable.pinned_map fun e _ => ?_
    exact ⟨e.settle_frame.1, e.settle_frame.2.1, Element.shape_settle_of_fixed⟩
  | mark => rfl
  | close => rfl

theorem Changes.follows {s t : Sketch} (h : Changes s t) (hg : Grounded s) (hd : Decomposed s) :
    Follows s t := by
  induction h with
  | refl => exact hd.follows
  | tail _ hstep ih => exact ih.trans (hstep.follows (hg.congr ih.problem) ih.decomposed)

theorem Changes.pinned {s t : Sketch} (h : Changes s t) (hg : Grounded s) (hd : Decomposed s) :
    t.elements.pinned = s.elements.pinned := by
  induction h with
  | refl => rfl
  | tail hrun hstep ih =>
    exact (hstep.pinned (Changes.follows hrun hg hd).decomposed).trans ih

end Sketch

end RigidSketch
