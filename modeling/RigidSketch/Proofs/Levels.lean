import RigidSketch.Proofs.Coverage

/-! What becomes of the levels that building finds. A copy has the level that the element had
when the copy was taken, and once a single cluster is left with the element, the level of that
cluster's copy takes the place of the one that was found. -/

namespace RigidSketch

open LeastSquares (LinearSolver solveLinear)

namespace Element

/-- The level is that of a copy that some cluster had, and of the cluster's own if it had one. -/
def Stems (e : Element) (k : ClusterId) (level : Level) : Prop :=
  ∃ l ∈ e.owners, ∃ c, e.copy? l = some c ∧ c.level = level ∧ (k ∈ e.owners → l = k)

theorem Stems.handOver {e : Element} {old new : ClusterId} {level : Level}
    (h : e.Stems old level) (hnew : new ∉ e.owners) : e.Stems new level := by
  obtain ⟨l, hl, c, hc, hlevel, _⟩ := h
  exact ⟨l, hl, c, hc, hlevel, fun hin => absurd hin hnew⟩

/-- An element as it was built and as it is later. Its level stays until a single cluster is
left with it and gives its copy up. -/
structure Carried (e x : Element) : Prop where
  id : x.id = e.id
  fixed : x.fixed = e.fixed
  kept : e.fixed = true ∨ e.owners.length ≤ 1 ∨ x.owners.length ≠ 1 → x.level = e.level
  copies : ∀ k c, x.copy? k = some c → e.Stems k c.level
  handed : e.fixed = false → 2 ≤ e.owners.length → ∀ k, x.owners = [k] → x.copy? k = none →
    e.Stems k x.level

theorem WellCopied.carried {e : Element} (h : e.WellCopied) : e.Carried e := by
  refine ⟨rfl, rfl, fun _ => rfl, fun k c hc => ?_, fun _ hlen k hk => ?_⟩
  · exact ⟨k, h.owned k (by simp [hc]), c, hc, rfl, fun _ => rfl⟩
  · simp [hk] at hlen

/-- The same element with the same copies, each at the level that it had. -/
structure SameLevels (x y : Element) : Prop where
  id : y.id = x.id
  fixed : y.fixed = x.fixed
  owners : y.owners = x.owners
  level : y.level = x.level
  copies : ∀ k, (y.copy? k).map (·.level) = (x.copy? k).map (·.level)

theorem SameLevels.refl (x : Element) : x.SameLevels x := ⟨rfl, rfl, rfl, rfl, fun _ => rfl⟩

theorem sameLevels_setShapeIn (x : Element) (k : ClusterId) (g : Shape Float) :
    x.SameLevels (x.setShapeIn k g) := by
  unfold setShapeIn
  split
  · rename_i c hc
    refine ⟨rfl, rfl, rfl, rfl, fun k' => ?_⟩
    rw [copy?_putCopy]
    by_cases hk : k' = k
    · simp [hk, hc]
    · simp [hk]
  · exact ⟨rfl, rfl, rfl, rfl, fun _ => rfl⟩

theorem sameLevels_moveIn (x : Element) (k : ClusterId) (m : Motion Float) :
    x.SameLevels (x.moveIn k m) :=
  sameLevels_setShapeIn x k _

theorem Carried.sameLevels {e x y : Element} (h : e.Carried x) (hy : x.SameLevels y) :
    e.Carried y := by
  refine ⟨hy.id.trans h.id, hy.fixed.trans h.fixed, ?_, fun k c hc => ?_, ?_⟩
  · rw [hy.owners, hy.level]
    exact h.kept
  · have hlevel := hy.copies k
    rw [hc] at hlevel
    obtain ⟨d, hd, heq⟩ := Option.map_eq_some_iff.mp hlevel.symm
    have hstems := h.copies k d hd
    rwa [heq] at hstems
  · rw [hy.owners, hy.level]
    intro hf hlen k hk hnone
    refine h.handed hf hlen k hk ?_
    have hlevel := hy.copies k
    rw [hnone] at hlevel
    exact Option.map_eq_none_iff.mp hlevel.symm

theorem Carried.settle {e x : Element} (he : e.WellCopied) (h : e.Carried x) :
    e.Carried x.settle := by
  unfold Element.settle
  split
  · rename_i k hk
    split
    · rename_i c hc
      have hcopies : ∀ l d, (x.dropCopy k).copy? l = some d → e.Stems l d.level := by
        intro l d hd
        rw [copy?_dropCopy] at hd
        split at hd
        · cases hd
        · exact h.copies l d hd
      have hstems := h.copies k c hc
      dsimp only
      split
      · rename_i hf
        have hfixed : e.fixed = true := h.fixed.symm.trans hf
        refine ⟨h.id, h.fixed, fun _ => h.kept (Or.inl hfixed), hcopies, fun hnot => ?_⟩
        rw [hfixed] at hnot
        cases hnot
      · rename_i hf
        refine ⟨h.id, h.fixed, ?_, hcopies, fun _ _ l hl _ => ?_⟩
        · -- a copy to give up means that several clusters had the element
          rintro (hfixed | hlen | hone)
          · exact absurd (h.fixed.trans hfixed) hf
          · obtain ⟨l, hl, d, hd, _⟩ := hstems
            have hfixed : e.fixed = false := h.fixed ▸ Bool.not_eq_true _ ▸ hf
            have hpos := List.length_pos_of_mem hl
            rw [he.sole hfixed (by omega) l] at hd
            cases hd
          · exact absurd (congrArg List.length hk) hone
        · have hkl : k = l := List.singleton_injective (hk.symm.trans hl)
          exact hkl ▸ hstems
    · exact h
  · exact h

theorem level_handOver (old new : ClusterId) (x : Element) :
    (x.handOver old new).level = x.level := by
  unfold handOver
  dsimp only
  split
  · rfl
  · split <;> rfl

/-- What an element has copies of once a claim is handed to a cluster that has it already. -/
theorem copy?_handOver_of_mem {x : Element} {old new : ClusterId} (hne : old ≠ new)
    (hnew : new ∈ x.owners) (k : ClusterId) :
    (x.handOver old new).copy? k = if k = old then none else x.copy? k := by
  have hm : new ∈ x.owners.filter (· ≠ old) := by simpa using ⟨hnew, hne.symm⟩
  unfold handOver
  dsimp only
  rw [if_pos hm, copy?_withOwners, copy?_dropCopy]

/-- The same once it is handed to one that has not: that one gets the copy. -/
theorem copy?_handOver_of_not_mem {x : Element} (hx : x.Copied) {old new : ClusterId}
    (hne : old ≠ new) (hnew : new ∉ x.owners) (k : ClusterId) :
    (x.handOver old new).copy? k =
      if k = new then x.copy? old else if k = old then none else x.copy? k := by
  have hm : new ∉ x.owners.filter (· ≠ old) := fun h => hnew (List.mem_filter.mp h).1
  have hnone : x.copy? new = none :=
    Option.not_isSome_iff_eq_none.mp fun hc => hnew (hx.owned new hc)
  unfold handOver
  dsimp only
  rw [if_neg hm]
  split
  · rename_i c hc
    rw [copy?_withOwners, copy?_putCopy, copy?_dropCopy, hc]
  · rename_i hc
    rw [copy?_withOwners, copy?_dropCopy, hc]
    by_cases hk : k = new
    · rw [if_pos hk, hk, if_neg hne.symm, hnone]
    · rw [if_neg hk]

theorem Carried.handOver {e x : Element} (h : e.Carried x) (hx : x.Copied) {old new : ClusterId}
    (hne : old ≠ new) (hold : old ∈ x.owners) (hback : new ∈ e.owners → new ∈ x.owners) :
    e.Carried (x.handOver old new) := by
  obtain ⟨hid, hfixed, _⟩ := handOver_frame old new x
  have hlevel := level_handOver old new x
  have howners := owners_handOver old new x
  by_cases hnew : new ∈ x.owners
  · have hm : new ∈ x.owners.filter (· ≠ old) := by simpa using ⟨hnew, hne.symm⟩
    have htwo : 2 ≤ x.owners.length := by
      by_contra hlen
      rw [owners_eq_of_sole hold hlen, List.mem_singleton] at hnew
      exact hne hnew.symm
    have hcopy := copy?_handOver_of_mem hne hnew
    refine ⟨hid.trans h.id, hfixed.trans h.fixed, fun _ => ?_, fun k c hc => ?_, ?_⟩
    · rw [hlevel]
      exact h.kept (Or.inr (Or.inr (by omega)))
    · rw [hcopy] at hc
      split at hc
      · cases hc
      · exact h.copies k c hc
    · -- the cluster that is left has a copy still to be given up
      intro _ _ k hk hnone
      rw [howners, if_pos hm] at hk
      rw [hk, List.mem_singleton] at hm
      rw [← hm, hcopy, if_neg hne.symm] at hnone
      exact absurd hnone (Option.isSome_iff_ne_none.mp (hx.shared htwo new hnew))
  · have hm : new ∉ x.owners.filter (· ≠ old) := fun h => hnew (List.mem_filter.mp h).1
    have hout : new ∉ e.owners := fun hin => hnew (hback hin)
    have hcopy := copy?_handOver_of_not_mem hx hne hnew
    rw [if_neg hm] at howners
    have hlen : (x.handOver old new).owners.length = x.owners.length := by
      rw [howners, hx.length_others hold, List.length_append, List.length_singleton]
    refine ⟨hid.trans h.id, hfixed.trans h.fixed, ?_, fun k c hc => ?_, ?_⟩
    · rw [hlevel, hlen]
      exact h.kept
    · rw [hcopy] at hc
      split at hc
      · rename_i hk
        exact hk ▸ (h.copies old c hc).handOver hout
      · split at hc
        · cases hc
        · exact h.copies k c hc
    · intro hf htwo k hk hnone
      have hk' : k = new := by
        rw [howners] at hk
        have := congrArg List.getLast? hk
        simpa using this.symm
      have hsole : x.owners = [old] := by
        refine owners_eq_of_sole hold ?_
        rw [← hlen, hk]
        simp
      rw [hk', hcopy, if_pos rfl] at hnone
      rw [hlevel, hk']
      exact (h.handed hf htwo old hsole hnone).handOver hout

theorem Carried.reassign {e x : Element} (he : e.WellCopied) (h : e.Carried x) (hx : x.Copied)
    {old new : ClusterId} (hne : old ≠ new) (hold : old ∈ x.owners)
    (hback : new ∈ e.owners → new ∈ x.owners) : e.Carried (x.reassign old new) := by
  rw [reassign_eq hold]
  exact (h.handOver hx hne hold hback).settle he

end Element

namespace Sketch

/-- Every element is one that was built, later on. Clusters that had it have it still. -/
def Relevels (b s : Sketch) : Prop :=
  ∀ x ∈ s.elements.elements, ∃ e ∈ b.elements.elements, e.Carried x ∧
    ∀ k ∈ s.clusters, k.id ∈ e.owners → k.id ∈ x.owners

theorem Decomposed.relevels {b : Sketch} (h : Decomposed b) : Relevels b b :=
  fun e he => ⟨e, he, (h.owned.copied e he).carried, fun _ _ hk => hk⟩

theorem Relevels.map {b s : Sketch} (h : Relevels b s) {f : Element → Element}
    (hf : ∀ e ∈ b.elements.elements, ∀ x ∈ s.elements.elements, e.Carried x →
      e.Carried (f x) ∧ (f x).owners = x.owners) :
    Relevels b { s with elements := s.elements.map f } := by
  intro y hy
  obtain ⟨x, hx, rfl⟩ := List.mem_map.mp hy
  obtain ⟨e, he, hcarried, hback⟩ := h x hx
  obtain ⟨hy, howners⟩ := hf e he x hx hcarried
  refine ⟨e, he, hy, fun k hk hin => ?_⟩
  rw [howners]
  exact hback k hk hin

theorem Relevels.mapWhere {b s : Sketch} (h : Relevels b s) {p : ElementId → Bool}
    {f : Element → Element} (hf : ∀ x : Element, x.SameLevels (f x)) :
    Relevels b { s with elements := s.elements.mapWhere p f } := by
  refine h.map fun e _ x _ hcarried => ?_
  split
  · exact ⟨hcarried.sameLevels (hf x), (hf x).owners⟩
  · exact ⟨hcarried, rfl⟩

theorem sameLevels_placeLoose (target : ElementId → Option (Shape Float)) (x : Element) :
    x.SameLevels (placeLoose target x) := by
  unfold placeLoose
  split
  · exact .refl x
  · split
    · exact ⟨rfl, rfl, rfl, rfl, fun _ => rfl⟩
    · exact .refl x

theorem Relevels.absorb {b s : Sketch} (hb : Decomposed b) (hd : Decomposed s)
    (h : Relevels b s) {k l : Cluster} {links : List ConstraintId} (hj : s.Joinable k l links) :
    Relevels b (s.absorb k.id l.id links) := by
  intro y hy
  obtain ⟨x, hx, heq⟩ := mem_elements_absorb hd.numbered hj hy
  obtain ⟨e, he, hcarried, hback⟩ := h x hx
  -- a cluster that is left was there before, under the same name
  have hbefore : ∀ m ∈ (s.absorb k.id l.id links).clusters, m.id ∈ e.owners →
      m.id ∈ x.owners ∧ m.id ≠ l.id := by
    intro m hm hin
    rcases (mem_clusters_absorb hd.numbered hj).mp hm with rfl | ⟨hold, _, hne⟩
    · exact ⟨hback k hj.anchor hin, hj.distinct⟩
    · exact ⟨hback m hold hin, hne⟩
  by_cases hin : x.id ∈ l.elements
  · rw [if_pos hin] at heq
    have hlx := mem_owners_of_moving hd.owned hj hx hin
    have hcopied := (hd.owned.copied x hx).toCopied
    refine ⟨e, he, ?_, fun m hm hme => ?_⟩
    · rw [heq]
      exact hcarried.reassign (hb.owned.copied e he) hcopied hj.distinct.symm hlx
        (hback k hj.anchor)
    · rw [heq, Element.mem_owners_reassign hlx]
      exact Or.inr (hbefore m hm hme)
  · rw [if_neg hin] at heq
    rw [heq]
    exact ⟨e, he, hcarried, fun m hm hme => (hbefore m hm hme).1⟩

theorem Change.relevels {b s t : Sketch} (hb : Decomposed b) (hd : Decomposed s)
    (hc : Change s t) (h : Relevels b s) : Relevels b t := by
  cases hc with
  | @write k e hk he hs g =>
    exact h.mapWhere (p := (· = e)) fun x => x.sameLevels_setShapeIn k.id g
  | @move k hk hs m => exact h.mapWhere fun x => x.sameLevels_moveIn k.id m
  | absorb hj => exact h.absorb hb hd hj
  | loosen target =>
    refine h.map fun e _ x _ hcarried => ?_
    have hsame := sameLevels_placeLoose target x
    exact ⟨hcarried.sameLevels hsame, hsame.owners⟩
  | settle =>
    refine h.map fun e he x _ hcarried => ?_
    exact ⟨hcarried.settle (hb.owned.copied e he), x.settle_frame.2.2⟩
  | mark => exact h
  | close => exact h

theorem Changes.relevels {b s t : Sketch} (hb : Decomposed b) (hg : Grounded s)
    (hd : Decomposed s) (hc : Changes s t) (h : Relevels b s) : Relevels b t := by
  induction hc with
  | refl => exact h
  | tail hrun hstep ih => exact hstep.relevels hb (Changes.follows hrun hg hd).decomposed ih

theorem Relevels.moveCluster {b s : Sketch} (h : Relevels b s) (k : ClusterId)
    (m : Motion Float) : Relevels b (s.moveCluster k m) := by
  unfold Sketch.moveCluster
  split
  · rename_i c _
    exact h.mapWhere fun x => x.sameLevels_moveIn c.id m
  · exact h

theorem Relevels.drag {b s : Sketch} (h : Relevels b s)
    (moves : List (ClusterId × Motion Float)) : Relevels b (s.drag moves) := by
  induction moves generalizing s with
  | nil => exact h
  | cons p moves ih => exact ih (h.moveCluster p.1 p.2)

theorem relevels_solveBuilt {b : Sketch} (hg : b.Grounded) (hf : b.Fresh)
    (solver : LinearSolver) : Relevels b (b.solveBuilt solver).1 := by
  refine solveBuilt_induction hg hf hf.decomposed.relevels fun p h ih => ?_
  have hdragged := h.dragged (p.moves solver)
  exact Changes.relevels hf.decomposed (hg.congr hdragged.problem) hdragged.decomposed
    (Point.changes_step hg h solver _) (ih.drag (p.moves solver))

/-- A cluster is committed with an element as it is, or claims it and may raise its level. -/
theorem exists_claim_of_mem_commit {s : Sketch} {g : Growth}
    (hg : ∀ e ∈ g.crowded, e ∈ g.cluster.elements) {y : Element}
    (h : y ∈ (s.commit g).elements.elements) :
    ∃ x ∈ s.elements.elements, y = x ∨ ∃ level, y = { x.claim g.cluster.id with level } ∧
      (level = x.level ∨ level = .over ∨ x.level = .under) := by
  obtain ⟨y₂, h₂, rfl⟩ := List.mem_map.mp h
  obtain ⟨y₁, h₁, rfl⟩ := List.mem_map.mp h₂
  obtain ⟨x, hx, rfl⟩ := List.mem_map.mp h₁
  refine ⟨x, hx, ?_⟩
  obtain ⟨hid, _, _, hlevel⟩ := x.claim_frame g.cluster.id
  by_cases hin : x.id ∈ g.cluster.elements
  · right
    simp only [hin, decide_true, if_true]
    generalize x.claim g.cluster.id = a at hid hlevel ⊢
    rw [← hid] at hin
    rw [← hlevel]
    by_cases hunder : a.level = .under
    · simp only [hin, hunder, decide_true, if_true]
      split
      · exact ⟨.over, rfl, Or.inr (Or.inl rfl)⟩
      · exact ⟨.full, rfl, Or.inr (Or.inr trivial)⟩
    · simp only [hin, hunder, decide_true, if_true, if_false]
      split
      · exact ⟨.over, rfl, Or.inr (Or.inl rfl)⟩
      · exact ⟨a.level, rfl, Or.inl rfl⟩
  · have hout : x.id ∉ g.crowded := fun hc => hin (hg x.id hc)
    left
    simp [hin, hout]

end Sketch

namespace Element

/-- Copies have the level of the element, or were taken before it was overconstrained. -/
def Lagging (e : Element) : Prop :=
  e.fixed = false → ∀ k c, e.copy? k = some c →
    c.level = e.level ∨ (e.level = .over ∧ c.level = .full)

theorem copy?_of_claim {e : Element} {k l : ClusterId} {c : Copy}
    (h : (e.claim k).copy? l = some c) : e.copy? l = some c ∨ c.level = e.level := by
  have hput : ∀ (x : Element) (m : ClusterId), (x.putCopy m ⟨e.shape, e.level⟩).copy? l = some c →
      x.copy? l = some c ∨ c.level = e.level := by
    intro x m hx
    rw [copy?_putCopy] at hx
    split at hx
    · cases hx
      exact Or.inr rfl
    · exact Or.inl hx
  unfold claim at h
  split at h
  · exact Or.inl h
  · rw [copy?_withOwners] at h
    split at h
    · split at h
      · exact hput e k h
      · exact Or.inl h
    · split at h
      · exact hput e k h
      · exact (hput _ k h).elim (hput e _) Or.inr
    · exact hput e k h

theorem Lagging.claim {e : Element} (h : e.Lagging) (hw : e.Copied)
    (hlevel : e.level = .under → e.owners = []) (k : ClusterId) {level : Level}
    (hraised : level = e.level ∨ level = .over ∨ e.level = .under) :
    Lagging { e.claim k with level } := by
  intro hfixed l c hc
  have hf : e.fixed = false := (claim_frame k e).2.2.1.symm.trans hfixed
  by_cases howners : e.owners = []
  · -- the first cluster takes no copy
    have hcopy : e.copy? l = some c := (copy?_claim_first howners hf).symm.trans hc
    have hin := hw.owned l (by simp [hcopy])
    simp [howners] at hin
  · have hclaimed : e.level ≠ .under := fun hu => howners (hlevel hu)
    have hold : c.level = e.level ∨ (e.level = .over ∧ c.level = .full) :=
      (copy?_of_claim hc).elim (h hf l c) Or.inl
    show c.level = level ∨ (level = .over ∧ c.level = .full)
    rcases hraised with rfl | rfl | hunder
    · exact hold
    · cases he : e.level <;> simp_all
    · exact absurd hunder hclaimed

end Element

namespace Sketch

theorem lagging_build {s : Sketch} (hg : Grounded s) (hb : s.built = false) :
    ∀ e ∈ s.build.elements.elements, e.Lagging := by
  refine (build_induction
    (P := fun t => Levelled t ∧ ∀ e ∈ t.elements.elements, e.Lagging) hg hb ?_
    (fun _ _ _ h => h) fun t k seed _ ha _ h => ⟨h.1.commit k seed, fun y hy => ?_⟩).2
  · refine ⟨levelled_reset s, fun e he => ?_⟩
    obtain ⟨x, _, rfl⟩ := List.mem_map.mp he
    intro _ k c hc
    cases hc
  · obtain ⟨x, hx, heq⟩ := exists_claim_of_mem_commit (t.crowded_growFrom k seed) hy
    rcases heq with rfl | ⟨level, rfl, hraised⟩
    · exact h.2 y hx
    · refine (h.2 x hx).claim (ha.owned.copied x hx).toCopied (fun hunder => ?_) _ hraised
      have hclaimed := (h.1 x hx).mp hunder
      simpa [Element.isClaimed] using hclaimed

end Sketch

/-- The level of an element at the end of a solve beside the one that building found. -/
structure Element.Relevelled (e x : Element) : Prop where
  kept : e.fixed = true ∨ e.owners.length ≤ 1 ∨ x.owners.length ≠ 1 → x.level = e.level
  handed : e.fixed = false → 2 ≤ e.owners.length → ∀ k, x.owners = [k] → e.Stems k x.level
  lapse : x.level = e.level ∨ (e.level = .over ∧ x.level = .full)

theorem Element.Carried.relevelled {e x : Element} (h : e.Carried x) (he : e.Lagging)
    (hx : x.WellCopied) : e.Relevelled x := by
  have hhanded : e.fixed = false → 2 ≤ e.owners.length → ∀ k, x.owners = [k] →
      e.Stems k x.level := by
    intro hf htwo k hk
    have hsole := hx.sole (h.fixed.trans hf) (by simp [hk]) k
    exact h.handed hf htwo k hk hsole
  refine ⟨h.kept, hhanded, ?_⟩
  by_cases hkept : e.fixed = true ∨ e.owners.length ≤ 1 ∨ x.owners.length ≠ 1
  · exact Or.inl (h.kept hkept)
  · simp only [not_or, Bool.not_eq_true, not_le, ne_eq, not_not] at hkept
    obtain ⟨hf, htwo, hone⟩ := hkept
    obtain ⟨k, hk⟩ := List.length_eq_one_iff.mp hone
    obtain ⟨l, _, c, hc, hlevel, _⟩ := hhanded hf htwo k hk
    rw [← hlevel]
    exact he hf l c hc

namespace Sketch

theorem builds?_solve_eq_some {s b : Sketch} (hb : Call.builds? .solve s = some b) :
    s.isSettled = false ∧ b = s.prepared := by
  dsimp only [Call.builds?] at hb
  split at hb
  · cases hb
  · rename_i hcond
    refine ⟨?_, (Option.some.inj hb).symm⟩
    rw [Bool.or_eq_true, not_or, Bool.not_eq_true] at hcond
    exact hcond.1

/-- A solve that builds clusters leaves an element at the level that building found, unless
several clusters had the element and one is left with it. Then it has the level of a copy,
which may have been taken before the element was found to be overconstrained. -/
theorem Reachable.relevelled_of_solve {s b : Sketch} (hs : Reachable s)
    (hb : Call.builds? .solve s = some b) (solver : LinearSolver) :
    ∀ e ∈ b.elements.elements,
      ∃ x, (s.solve solver).1.elements.get? e.id = some x ∧ e.Relevelled x := by
  obtain ⟨hn, rfl⟩ := builds?_solve_eq_some hb
  obtain ⟨hg, hf⟩ := hs.sound.prepared hn
  obtain ⟨⟨t, ht, hbuilt, _, hbuild⟩, _⟩ := builds?_eq_some hs.sound hb
  rw [solve_eq_of_not_isSettled hn]
  intro e he
  have hfollows := follows_solveBuilt hg hf solver
  have hg' := hg.congr hfollows.problem
  obtain ⟨x, hx, hid, _⟩ := ElementTable.mem_of_roster hfollows.problem.roster he
  obtain ⟨e', he', hcarried, _⟩ := relevels_solveBuilt hg hf solver x hx
  obtain rfl := hg.element_ext he he' (hcarried.id.symm.trans hid)
  refine ⟨x, (ElementTable.get?_eq_some_iff hg'.elements).mpr ⟨hx, hid⟩, ?_⟩
  refine hcarried.relevelled ?_ (hfollows.decomposed.owned.copied x hx)
  rw [hbuild] at he
  exact lagging_build ht hbuilt e' he

end Sketch

/-- A triangle on two fixed feet, and a second one above it. Three bars lead from the corners of
the second to the tip of the first, one more than it takes. -/
def Call.twoTents : List Call :=
  [addPoint true 0 0, addPoint true 6 0, addPoint false 3 4, addPoint true 0 8, addPoint true 6 8,
    addPoint false 3 12, constrain .distance ⟨0⟩ ⟨1⟩ 6, constrain .distance ⟨0⟩ ⟨2⟩ 5,
    constrain .distance ⟨1⟩ ⟨2⟩ 5, constrain .distance ⟨3⟩ ⟨4⟩ 6, constrain .distance ⟨3⟩ ⟨5⟩ 5,
    constrain .distance ⟨4⟩ ⟨5⟩ 5, constrain .distance ⟨3⟩ ⟨2⟩ 5, constrain .distance ⟨4⟩ ⟨2⟩ 5,
    constrain .distance ⟨5⟩ ⟨2⟩ 8]

theorem Call.builds?_twoTents : Call.builds? .solve (Call.runAll solveLinear Call.twoTents {}) =
    some (Call.runAll solveLinear Call.twoTents {}).prepared := by
  have hedited : (Call.runAll solveLinear Call.twoTents {}).edited = true := by decide +kernel
  simp [Call.builds?, Sketch.isSettled, hedited]

namespace Sketch

theorem relevelled_of_solve_twoTents :
    Call.builds? .solve (Call.runAll solveLinear Call.twoTents {}) =
      some (Call.runAll solveLinear Call.twoTents {}).prepared ∧
    ∀ e ∈ (Call.runAll solveLinear Call.twoTents {}).prepared.elements.elements,
      ∃ x, ((Call.runAll solveLinear Call.twoTents {}).solve solveLinear).1.elements.get? e.id =
        some x ∧ e.Relevelled x :=
  ⟨Call.builds?_twoTents, Reachable.relevelled_of_solve
    ((Reachable.new {}).runAll solveLinear Call.twoTents) Call.builds?_twoTents solveLinear⟩

/-- The first triangle takes its copy of the tip before the second overconstrains it, and that
copy is what is left of the tip in the end. -/
theorem level_lapses_twoTents :
    ¬ ∀ s b, Reachable s → Call.builds? .solve s = some b → ∀ e ∈ b.elements.elements,
      ∀ x ∈ (s.solve solveLinear).1.elements.elements, x.id = e.id → x.level = e.level := by
  intro hall
  have hlapse : ∃ e ∈ (Call.runAll solveLinear Call.twoTents {}).prepared.elements.elements,
      ∃ x ∈ ((Call.runAll solveLinear Call.twoTents {}).solve solveLinear).1.elements.elements,
        x.id = e.id ∧ x.level ≠ e.level := by decide +kernel
  obtain ⟨e, he, x, hx, hid, hne⟩ := hlapse
  have hs := (Reachable.new {}).runAll solveLinear Call.twoTents
  exact hne (hall _ _ hs Call.builds?_twoTents e he x hx hid)

end Sketch

end RigidSketch
