import RigidSketch.Proofs.Session

/-! Where a solve starts from. A solve that does not repeat the last outcome goes on from
clusters that were built of the elements as they are now and of the constraints. -/

namespace RigidSketch

open LeastSquares (solveLinear)

/-- The elements in order, each with its place and whether it is fixed. -/
def ElementTable.drawing (t : ElementTable) : List (ElementId × Shape Float × Bool) :=
  t.elements.map fun e => (e.id, e.shape, e.fixed)

theorem ElementTable.drawing_map {t : ElementTable} {f : Element → Element}
    (hf : ∀ e : Element, (f e).id = e.id ∧ (f e).shape = e.shape ∧ (f e).fixed = e.fixed) :
    (t.map f).drawing = t.drawing := by
  unfold drawing map
  rw [List.map_map]
  refine List.map_congr_left fun e _ => ?_
  simp [hf e]

theorem ElementTable.drawing_mapWhere {t : ElementTable} {p : ElementId → Bool}
    {f : Element → Element}
    (hf : ∀ e : Element, (f e).id = e.id ∧ (f e).shape = e.shape ∧ (f e).fixed = e.fixed) :
    (t.mapWhere p f).drawing = t.drawing := by
  refine drawing_map fun e => ?_
  split
  · exact hf e
  · exact ⟨rfl, rfl, rfl⟩

namespace Sketch

/-- The same elements in the same places, and the same constraints between them, to be solved
with the same settings. -/
structure Alike (s t : Sketch) : Prop where
  settings : t.settings = s.settings
  elements : t.elements.drawing = s.elements.drawing
  constraints : t.constraints.constraints.map ({ · with solved := false }) =
    s.constraints.constraints.map ({ · with solved := false })

theorem Alike.refl (s : Sketch) : Alike s s := ⟨rfl, rfl, rfl⟩

theorem Alike.symm {s t : Sketch} (h : Alike s t) : Alike t s :=
  ⟨h.settings.symm, h.elements.symm, h.constraints.symm⟩

theorem Alike.trans {s t u : Sketch} (h : Alike s t) (h' : Alike t u) : Alike s u :=
  ⟨h'.settings.trans h.settings, h'.elements.trans h.elements,
    h'.constraints.trans h.constraints⟩

theorem alike_reset (s : Sketch) : Alike s s.reset := by
  refine ⟨rfl, ElementTable.drawing_map fun _ => ⟨rfl, rfl, rfl⟩, ?_⟩
  exact congrArg ConstraintTable.constraints (ConstraintTable.unsolved_map fun _ => false)

theorem alike_commit (s : Sketch) (g : Growth) : Alike s (s.commit g) := by
  refine ⟨rfl, ?_, rfl⟩
  calc (s.commit g).elements.drawing
      = _ := ElementTable.drawing_mapWhere fun _ => ⟨rfl, rfl, rfl⟩
    _ = _ := ElementTable.drawing_mapWhere fun _ => by split <;> exact ⟨rfl, rfl, rfl⟩
    _ = s.elements.drawing := ElementTable.drawing_mapWhere fun e => by
      obtain ⟨hid, hshape, hfixed, _⟩ := e.claim_frame g.cluster.id
      exact ⟨hid, hshape, hfixed⟩

theorem alike_build {s : Sketch} (hg : Grounded s) (hb : s.built = false) : Alike s s.build :=
  build_induction hg hb (alike_reset s) (fun _ _ _ h => ⟨h.settings, h.elements, h.constraints⟩)
    fun t _ _ _ _ _ h => h.trans (alike_commit t _)

/-- Clusters that no edit and no solve has touched are as they were built. -/
theorem Reachable.exists_build {s : Sketch} (hs : Reachable s) (hb : s.built = true)
    (he : s.edited = false) (hp : s.status = .pending) :
    ∃ t, Reachable t ∧ t.built = false ∧ s = t.build := by
  induction hs with
  | new => cases hb
  | @call s h solver c ih =>
    have hsame : c.run solver s = s →
        ∃ t, Reachable t ∧ t.built = false ∧ c.run solver s = t.build := by
      intro heq
      rw [heq] at hb he hp ⊢
      exact ih hb he hp
    by_cases hc : c = .solve
    · subst hc
      cases hn : s.isSettled with
      | true =>
        refine hsame ?_
        rw [Call.run, solve_eq_of_isSettled hn]
      | false =>
        obtain ⟨hg, hf⟩ := h.sound.prepared hn
        rw [Call.run, solve_eq_of_not_isSettled hn] at hp
        exact absurd hp (status_solveBuilt_ne_pending hg hf)
    · rcases run_cases h.sound.grounded hc with heq | hedit | heq | heq
      · exact hsame heq
      · rw [hedit.edited] at he
        cases he
      · rw [heq] at hb
        cases hb
      · cases hbuilt : s.built with
        | true =>
          refine hsame (heq.trans ?_)
          simp [build, hbuilt]
        | false => exact ⟨s, h, hbuilt, heq⟩

theorem Reachable.prepared_eq_build {s : Sketch} (hs : Reachable s) (hn : s.isSettled = false) :
    ∃ t, Reachable t ∧ t.built = false ∧ Alike s t ∧ s.prepared = t.build := by
  unfold prepared
  cases he : s.edited with
  | true => exact ⟨s.reset, hs.call solveLinear .reset, rfl, alike_reset s, rfl⟩
  | false =>
    have hp : s.status = .pending := by simpa [isSettled, he] using hn
    cases hb : s.built with
    | false => exact ⟨s, hs, hb, .refl s, rfl⟩
    | true =>
      obtain ⟨t, ht, hbuilt, heq⟩ := hs.exists_build hb he hp
      have halike := alike_build ht.sound.grounded hbuilt
      rw [← heq] at halike
      refine ⟨t, ht, hbuilt, halike.symm, ?_⟩
      rw [← heq]
      simp [build, hb]

end Sketch

end RigidSketch
