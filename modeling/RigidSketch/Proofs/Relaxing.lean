import RigidSketch.Proofs.Joining

/-! Joining what is left by least squares: every cluster is moved onto its targets, and the
first one absorbs the others. -/

namespace RigidSketch

open LeastSquares (LinearSolver)

namespace OrderedSet

variable {α : Type} [DecidableEq α]

theorem insertAll_of_subset {s : OrderedSet α} {xs : List α} (h : ∀ x ∈ xs, x ∈ s) :
    s.insertAll xs = s := by
  induction xs with
  | nil => rfl
  | cons x xs ih =>
    have hx : s.insert x = s := by simp [insert, h x List.mem_cons_self]
    have hcons : s.insertAll (x :: xs) = (s.insert x).insertAll xs := rfl
    rw [hcons, hx, ih fun y hy => h y (List.mem_cons_of_mem _ hy)]

@[simp] theorem eraseAll_empty (xs : List α) : (∅ : OrderedSet α).eraseAll xs = ∅ := rfl

end OrderedSet

namespace Sketch

/-- The moves of clusters onto their targets, up to the first that does not fit. -/
def ontoMoves (target : ElementId → Option (Shape Float)) :
    List (Cluster × List ElementId) → Sketch → List (ClusterId × Motion Float)
  | [], _ => []
  | (k, members) :: rest, s =>
    match s.linkMotion? target k members with
    | none => []
    | some m =>
      let s := s.moveCluster k.id m
      (k.id, m) :: if s.landsOn target k members id then ontoMoves target rest s else []

def relaxMoves (solver : LinearSolver) (s : Sketch) : List (ClusterId × Motion Float) :=
  match s.relaxation? solver with
  | none => []
  | some (members, target) => ontoMoves target members s

theorem moveOnto_eq_drag (target : ElementId → Option (Shape Float))
    (ms : List (Cluster × List ElementId)) (s : Sketch) :
    (moveOnto target ms s).1 = s.drag (ontoMoves target ms s) ∧
      ((moveOnto target ms s).2 = .solved ∨ (moveOnto target ms s).2 = .unconverged) := by
  induction ms generalizing s with
  | nil => exact ⟨rfl, Or.inl rfl⟩
  | cons p ms ih =>
    obtain ⟨k, members⟩ := p
    unfold moveOnto ontoMoves
    cases s.linkMotion? target k members with
    | none => exact ⟨rfl, Or.inr rfl⟩
    | some m =>
      dsimp only
      split
      · exact ih (s.moveCluster k.id m)
      · exact ⟨rfl, Or.inr rfl⟩

theorem clusters_absorb_next {s : Sketch} (hn : Numbered s.clusterNumbers s.nextCluster)
    {a b : Cluster} {rest : List Cluster} (hc : s.clusters = a :: b :: rest) :
    s.Joinable a b [] ∧
      (s.absorb a.id b.id []).clusters = s.joined a b [] :: rest := by
  have hnd := nodup_clusterIds hn
  rw [hc, List.map_cons, List.map_cons, List.nodup_cons, List.nodup_cons] at hnd
  obtain ⟨ha, hb, _⟩ := hnd
  have hab : a.id ≠ b.id := fun he => ha (he ▸ List.mem_cons_self)
  have hj : s.Joinable a b [] := by
    refine ⟨?_, ?_, hab, nofun⟩
    · simp [hc]
    · simp [hc]
  refine ⟨hj, ?_⟩
  have hrest : ∀ l ∈ rest, l.id ≠ a.id ∧ l.id ≠ b.id := by
    intro l hl
    exact ⟨fun he => ha (List.mem_cons_of_mem _ (List.mem_map.mpr ⟨l, hl, he⟩)),
      fun he => hb (List.mem_map.mpr ⟨l, hl, he⟩)⟩
  rw [clusters_absorb hn hj, hc, List.filter_cons_of_pos (by simpa using hab),
    List.filter_cons_of_neg (by simp), List.map_cons, if_pos rfl]
  congr 1
  have hfilter : rest.filter (·.id ≠ b.id) = rest :=
    List.filter_eq_self.mpr fun l hl => by simpa using (hrest l hl).2
  rw [hfilter]
  calc rest.map (fun l => if l.id = a.id then s.joined a b [] else l)
      = rest.map id := List.map_congr_left fun l hl => if_neg (hrest l hl).1
    _ = rest := List.map_id rest

theorem changes_foldl_absorb {s : Sketch} (hg : Grounded s) (hd : Decomposed s) {a : Cluster}
    {rest : List Cluster} (hc : s.clusters = a :: rest) :
    Changes s (rest.foldl (fun s k => s.absorb a.id k.id []) s) ∧
      ∃ k, (rest.foldl (fun s k => s.absorb a.id k.id []) s).clusters = [k] := by
  induction rest generalizing s a with
  | nil => exact ⟨.refl, a, hc⟩
  | cons b rest ih =>
    obtain ⟨hj, hclusters⟩ := clusters_absorb_next hd.numbered hc
    have hstep := Change.absorb hj
    have hfollows := hstep.follows hg hd
    obtain ⟨hrun, hone⟩ := ih (hg.congr hfollows.problem) hfollows.decomposed hclusters
    exact ⟨.head hstep hrun, hone⟩

theorem free_eq_empty {s : Sketch} (hd : Decomposed s) {k : Cluster}
    (hc : s.clusters = [k]) : s.free = ∅ := by
  refine OrderedSet.ext (List.eq_nil_iff_forall_not_mem.mpr fun id hid => ?_)
  obtain ⟨c, hget⟩ := hd.partitioned.exists_get? hid
  obtain ⟨hm, rfl⟩ := ConstraintTable.mem_of_get? hget
  refine hd.partitioned.between k (by simp [hc]) c hm hid fun e he => ?_
  obtain ⟨l, hl, hel⟩ := hd.claimed c hm e he
  rw [hc, List.mem_singleton] at hl
  exact hl ▸ hel

theorem joinIntoFirst_eq {s : Sketch} (hg : Grounded s) (hd : Decomposed s) {first : Cluster}
    {rest : List Cluster} (hc : s.clusters = first :: rest) :
    s.joinIntoFirst = rest.foldl (fun s k => s.absorb first.id k.id []) s := by
  obtain ⟨hrun, k, hone⟩ := changes_foldl_absorb hg hd hc
  have hfollows := Changes.follows hrun hg hd
  have hfree := free_eq_empty hfollows.decomposed hone
  unfold joinIntoFirst
  rw [hc]
  dsimp only
  -- every constraint is in the one cluster already, so the last sweep finds nothing
  generalize rest.foldl (fun s k => s.absorb first.id k.id []) s = t at *
  have hall : ∀ id ∈ s.free.toList, id ∈ k.constraints := by
    intro id hid
    have hin := (hd.partitioned.cover id).mpr (Or.inl hid)
    rw [← ConstraintTable.ids_eq_of_unsolved hfollows.problem.constraints] at hin
    rcases (hfollows.decomposed.partitioned.cover id).mp hin with hf | ⟨l, hl, hm⟩
    · simp [hfree] at hf
    · rw [hone, List.mem_singleton] at hl
      exact hl ▸ hm
  have hk : (if k.id = first.id then
      { k with constraints := k.constraints.insertAll s.free.toList } else k) = k := by
    simp [OrderedSet.insertAll_of_subset hall]
  rw [hfree, OrderedSet.eraseAll_empty, hone, List.map_singleton, hk, ← hone, ← hfree]

theorem changes_joinIntoFirst {s : Sketch} (hg : Grounded s) (hd : Decomposed s) :
    Changes s s.joinIntoFirst := by
  cases hc : s.clusters with
  | nil =>
    unfold joinIntoFirst
    rw [hc]
  | cons first rest =>
    rw [joinIntoFirst_eq hg hd hc]
    exact (changes_foldl_absorb hg hd hc).1

theorem changes_relax (solver : LinearSolver) {s : Sketch} (hg : Grounded s) (hd : Decomposed s) :
    Changes (s.drag (s.relaxMoves solver)) (s.relax solver).1 ∧
      ((s.relax solver).2 = .solved ∨ (s.relax solver).2 = .unconverged) := by
  unfold relax relaxMoves
  cases s.relaxation? solver with
  | none => exact ⟨.refl, Or.inr rfl⟩
  | some p =>
    obtain ⟨members, target⟩ := p
    obtain ⟨hdrag, hstatus⟩ := moveOnto_eq_drag target members s
    dsimp only
    rw [← hdrag]
    split
    · rename_i t heq
      rw [heq] at hdrag ⊢
      have hfollows := (moved_drag s (ontoMoves target members s)).follows hd
      rw [← hdrag] at hfollows
      have hloosen := Change.loosen t target
      have hloose := hfollows.trans
        (hloosen.follows (hg.congr hfollows.problem) hfollows.decomposed)
      exact ⟨.head hloosen (changes_joinIntoFirst (hg.congr hloose.problem) hloose.decomposed),
        Or.inl rfl⟩
    · exact ⟨.refl, hstatus⟩

end Sketch

end RigidSketch
