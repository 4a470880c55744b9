import RigidSketch.Proofs.Outcome

/-! Sketches that calls can lead to, and what holds of all of them. -/

namespace RigidSketch

open LeastSquares (LinearSolver)

theorem eq_ok_of_mem_toOption {ε α : Type} {r : Except ε α} {a : α} (h : a ∈ r.toOption) :
    r = .ok a := by
  cases r with
  | error e => cases h
  | ok b =>
    cases h
    rfl

inductive Call where
  | addPoint (fixed : Bool) (x y : Float)
  | addLine (fixed : Bool) (a b c : Float)
  | constrain (kind : RelationKind) (first second : ElementId) (value : Float)
  | setValue (id : ConstraintId) (value : Float)
  | combine (keep remove : ElementId)
  | reset
  | build
  | solve

namespace Call

/-- An edit that is refused leaves the sketch as it is. -/
def run (solver : LinearSolver) : Call → Sketch → Sketch
  | addPoint fixed x y, s => (s.addPoint fixed x y).1
  | addLine fixed a b c, s => ((s.addLine fixed a b c).toOption.map (·.1)).getD s
  | constrain kind first second value, s =>
    ((s.constrain kind first second value).toOption.map (·.1)).getD s
  | setValue id value, s => (s.setValue id value).toOption.getD s
  | combine keep remove, s => (s.combine keep remove).toOption.getD s
  | reset, s => s.reset
  | build, s => s.build
  | solve, s => (s.solve solver).1

def runAll (solver : LinearSolver) (calls : List Call) (s : Sketch) : Sketch :=
  calls.foldl (fun s c => c.run solver s) s

/-- Three points at given distances, the first of them fixed. -/
def triangle : List Call :=
  [addPoint true 0 0, addPoint false 4 0, addPoint false 3 2, constrain .distance ⟨0⟩ ⟨1⟩ 4,
    constrain .distance ⟨1⟩ ⟨2⟩ 3, constrain .distance ⟨0⟩ ⟨2⟩ 5]

end Call

namespace Sketch

/-- Every call may use a linear solver of its own, so what holds of all reachable sketches
rests on none. -/
inductive Reachable : Sketch → Prop
  | new (settings : Settings) : Reachable { settings }
  | call {s : Sketch} (h : Reachable s) (solver : LinearSolver) (c : Call) :
    Reachable (c.run solver s)

variable {solver : LinearSolver}

theorem Reachable.runAll {s : Sketch} (h : Reachable s) (solver : LinearSolver)
    (calls : List Call) : Reachable (Call.runAll solver calls s) := by
  induction calls generalizing s with
  | nil => exact h
  | cons c calls ih => exact ih (h.call solver c)

/-- Whether a solve would only repeat the last outcome. -/
def isSettled (s : Sketch) : Bool := !s.edited && decide (s.status ≠ .pending)

/-- The sketch that a solve starts from once clusters are built. -/
def prepared (s : Sketch) : Sketch := (if s.edited then s.reset else s).build

theorem solve_eq_of_not_isSettled {s : Sketch} (h : s.isSettled = false) :
    s.solve solver = s.prepared.solveBuilt solver := by
  unfold solve
  rw [if_neg]
  · rfl
  · simpa [isSettled] using h

theorem solve_eq_of_isSettled {s : Sketch} (h : s.isSettled = true) :
    s.solve solver = (s, s.status) := by
  unfold solve
  rw [if_pos]
  simpa [isSettled] using h

/-- What holds between calls. Clusters that were built stay sound until the next edit, and as
they were built until the next solve. -/
structure Sound (s : Sketch) : Prop where
  grounded : Grounded s
  numbered : Numbered s.clusterNumbers s.nextCluster
  decomposed : s.built = true → s.edited = false → Decomposed s
  fresh : s.built = true → s.edited = false → s.status = .pending → Fresh s

/-- An edit keeps clusters for the next solve to reset, and fixed elements in their place. -/
structure Edited (s t : Sketch) : Prop where
  grounded : Grounded t
  clusters : t.clusters = s.clusters
  next : t.nextCluster = s.nextCluster
  edited : t.edited = true
  drawn : s.elements.next ≤ t.elements.next
  born : ∀ e' ∈ t.elements.elements, e'.id.number < s.elements.next →
    ∃ e ∈ s.elements.elements, e.id = e'.id
  keeps : ∀ e ∈ s.elements.elements, e.fixed = true → ∀ e' ∈ t.elements.elements,
    e'.id = e.id → e'.fixed = true ∧ e'.shape = e.shape

theorem Grounded.element_ext {s : Sketch} (hg : Grounded s) {e e' : Element}
    (he : e ∈ s.elements.elements) (he' : e' ∈ s.elements.elements) (h : e'.id = e.id) :
    e' = e := by
  have hget := (ElementTable.get?_eq_some_iff hg.elements).mpr ⟨he, rfl⟩
  have hget' := (ElementTable.get?_eq_some_iff hg.elements).mpr ⟨he', h⟩
  exact Option.some.inj (hget'.symm.trans hget)

theorem edited_constraints {s t : Sketch} {cs : ConstraintTable} (hs : Grounded s)
    (hg : Grounded t) (ht : t = { s with constraints := cs, edited := true }) : Edited s t := by
  subst ht
  refine ⟨hg, rfl, rfl, rfl, Nat.le_refl _, fun e he _ => ⟨e, he, rfl⟩,
    fun e hm hf e' hm' hid => ?_⟩
  rw [hs.element_ext hm hm' hid]
  exact ⟨hf, rfl⟩

theorem edited_addShape {s : Sketch} (hg : Grounded s) (shape : Shape Float) (fixed : Bool) :
    Edited s (s.addShape shape fixed).1 := by
  have hborn : ∀ e' ∈ (s.addShape shape fixed).1.elements.elements,
      e'.id.number < s.elements.next → e' ∈ s.elements.elements := by
    intro e' he' hlt
    have happ : (s.addShape shape fixed).1.elements.elements =
        s.elements.elements ++ [{ id := ⟨s.elements.next⟩, shape, fixed }] := rfl
    rw [happ] at he'
    rcases List.mem_append.mp he' with he' | he'
    · exact he'
    · rw [List.mem_singleton.mp he'] at hlt
      exact absurd hlt (Nat.lt_irrefl _)
  refine ⟨hg.addShape shape fixed, rfl, rfl, rfl, Nat.le_succ _,
    fun e' he' hlt => ⟨e', hborn e' he' hlt, rfl⟩, fun e he hf e' he' hid => ?_⟩
  have hlt : e'.id.number < s.elements.next := by
    rw [hid]
    exact hg.elements.below _ (List.mem_map.mpr ⟨e, he, rfl⟩)
  rw [hg.element_ext he (hborn e' he' hlt) hid]
  exact ⟨hf, rfl⟩

theorem edited_combine {s t : Sketch} {keep remove : ElementId} (hg : Grounded s)
    (hr : s.combine keep remove = .ok t) (hne : t ≠ s) : Edited s t := by
  rcases combine_eq_ok hr with ⟨_, heq⟩ | ⟨_, kept, removed, hkept, _, heq⟩
  · exact absurd heq hne
  · have hmem : ∀ e' ∈ t.elements.elements,
        ∃ x ∈ s.elements.elements, e' = heir keep kept removed x := by
      intro e' he'
      rw [heq] at he'
      obtain ⟨x, hx, rfl⟩ := List.mem_map.mp (List.mem_filter.mp he').1
      exact ⟨x, hx, rfl⟩
    refine ⟨hg.combine hr, by rw [heq], by rw [heq], by rw [heq], by rw [heq]; exact Nat.le_refl _,
      fun e' he' _ => ?_, fun e he hf e' he' hid => ?_⟩
    · obtain ⟨x, hx, rfl⟩ := hmem e' he'
      exact ⟨x, hx, (id_heir keep kept removed x).symm⟩
    obtain ⟨x, hx, rfl⟩ := hmem e' he'
    rw [id_heir] at hid
    obtain rfl := hg.element_ext he hx hid
    have hsame : heir keep kept removed x = x := by
      unfold heir
      refine if_neg fun h => ?_
      have hget := (ElementTable.get?_eq_some_iff hg.elements).mpr ⟨hx, h.2⟩
      obtain rfl := Option.some.inj (hget.symm.trans hkept)
      simp [hf] at h
    rw [hsame]
    exact ⟨hf, rfl⟩

/-- A call other than to solve is refused, edits the sketch, resets it or builds clusters. -/
theorem run_cases {s : Sketch} (hg : Grounded s) {c : Call} (hc : c ≠ .solve) :
    c.run solver s = s ∨ Edited s (c.run solver s) ∨ c.run solver s = s.reset ∨
      c.run solver s = s.build := by
  cases c with
  | addPoint fixed x y => exact Or.inr (Or.inl (edited_addShape hg _ _))
  | addLine fixed a b c =>
    dsimp only [Call.run, addLine]
    cases Line.ofCoefficients? a b c with
    | none => exact Or.inl rfl
    | some l => exact Or.inr (Or.inl (edited_addShape hg _ _))
  | constrain kind first second value =>
    dsimp only [Call.run]
    cases hr : s.constrain kind first second value with
    | error e => exact Or.inl rfl
    | ok r =>
      obtain ⟨_, _, heq⟩ := constrain_eq_ok hr
      exact Or.inr (Or.inl (edited_constraints hg (hg.constrain hr) heq))
  | setValue id value =>
    dsimp only [Call.run]
    cases hr : s.setValue id value with
    | error e => exact Or.inl rfl
    | ok t =>
      obtain ⟨_, _, _, heq⟩ := setValue_eq_ok hr
      exact Or.inr (Or.inl (edited_constraints hg (hg.setValue hr) heq))
  | combine keep remove =>
    dsimp only [Call.run]
    cases hr : s.combine keep remove with
    | error e => exact Or.inl rfl
    | ok t =>
      by_cases hts : t = s
      · exact Or.inl hts
      · exact Or.inr (Or.inl (edited_combine hg hr hts))
  | reset => exact Or.inr (Or.inr (Or.inl rfl))
  | build => exact Or.inr (Or.inr (Or.inr rfl))
  | solve => exact absurd rfl hc

theorem Sound.edit {s t : Sketch} (h : Sound s) (he : Edited s t) : Sound t := by
  refine ⟨he.grounded, ?_, ?_, ?_⟩
  · rw [clusterNumbers, he.clusters, he.next]
    exact h.numbered
  · intro _ hf
    rw [he.edited] at hf
    cases hf
  · intro _ hf
    rw [he.edited] at hf
    cases hf

theorem sound_new (settings : Settings) : Sound { settings } := by
  refine ⟨⟨⟨.nil, nofun⟩, ⟨.nil, nofun⟩, fun e => ⟨.nil, fun id => ?_⟩, nofun, nofun⟩,
    ⟨.nil, nofun⟩, nofun, nofun⟩
  constructor
  · rintro h
    cases h
  · rintro ⟨c, hc, _⟩
    cases hc

theorem Sound.reset {s : Sketch} (h : Sound s) : Sound s.reset :=
  ⟨h.grounded.reset, ⟨.nil, nofun⟩, nofun, nofun⟩

theorem Sound.build {s : Sketch} (h : Sound s) : Sound s.build := by
  cases hb : s.built with
  | true =>
    have hs : s.build = s := by simp [Sketch.build, hb]
    rw [hs]
    exact h
  | false =>
    have hf := fresh_build h.grounded hb
    exact ⟨h.grounded.congr (sameProblem_build s), hf.decomposed.numbered,
      fun _ _ => hf.decomposed, fun _ _ _ => hf⟩

theorem built_build (s : Sketch) : s.build.built = true := by
  unfold build
  split
  · assumption
  · rfl

theorem edited_build (s : Sketch) : s.build.edited = s.edited := by
  unfold build
  split
  · rfl
  · exact (commitAll_frame s.reset [] none).2

theorem status_build {s : Sketch} (h : s.status = .pending) : s.build.status = .pending := by
  unfold build
  split
  · exact h
  · exact (commitAll_frame s.reset [] none).1

theorem Sound.prepared {s : Sketch} (h : Sound s) (hs : s.isSettled = false) :
    Grounded s.prepared ∧ Fresh s.prepared := by
  unfold Sketch.prepared
  cases he : s.edited with
  | true =>
    exact ⟨h.reset.build.grounded, fresh_build h.grounded.reset rfl⟩
  | false =>
    have hstatus : s.status = .pending := by simpa [isSettled, he] using hs
    refine ⟨h.build.grounded, h.build.fresh (built_build s) ?_ (status_build hstatus)⟩
    rw [edited_build, he]

theorem Sound.follows_of_mem_points {s : Sketch} (h : Sound s) (hs : s.isSettled = false)
    {p : Point} (hp : p ∈ s.prepared.points solver) : Follows s.prepared p.sketch := by
  obtain ⟨hg, hf⟩ := h.prepared hs
  exact Sketch.follows_of_mem_points hg hf hp

theorem sameProblem_prepared (s : Sketch) : SameProblem s s.prepared := by
  unfold prepared
  split
  · exact (sameProblem_reset s).trans (sameProblem_build s.reset)
  · exact sameProblem_build s

theorem Sound.sameProblem_solve {s : Sketch} (h : Sound s) (solver : LinearSolver) :
    SameProblem s (s.solve solver).1 := by
  cases hs : s.isSettled with
  | true =>
    rw [solve_eq_of_isSettled hs]
    exact .refl s
  | false =>
    obtain ⟨hg, hf⟩ := h.prepared hs
    rw [solve_eq_of_not_isSettled hs]
    exact (sameProblem_prepared s).trans (follows_solveBuilt hg hf solver).problem

theorem Sound.solve {s : Sketch} (h : Sound s) : Sound (s.solve solver).1 := by
  cases hs : s.isSettled with
  | true =>
    rw [solve_eq_of_isSettled hs]
    exact h
  | false =>
    obtain ⟨hg, hf⟩ := h.prepared hs
    rw [solve_eq_of_not_isSettled hs]
    have hfollows := follows_solveBuilt hg hf solver
    have hd := hfollows.decomposed
    refine ⟨hg.congr hfollows.problem, hd.numbered, fun _ _ => hd, fun _ _ hp => ?_⟩
    exact absurd hp (status_solveBuilt_ne_pending hg hf)

theorem Sound.call {s : Sketch} (h : Sound s) (solver : LinearSolver) (c : Call) :
    Sound (c.run solver s) := by
  by_cases hc : c = .solve
  · subst hc
    exact h.solve
  · rcases run_cases h.grounded hc with heq | he | heq | heq
    · rw [heq]
      exact h
    · exact h.edit he
    · rw [heq]
      exact h.reset
    · rw [heq]
      exact h.build

theorem Reachable.sound {s : Sketch} (h : Reachable s) : Sound s := by
  induction h with
  | new settings => exact sound_new settings
  | call _ _ c ih => exact ih.call _ c

theorem lifetime_run {s : Sketch} (h : Sound s) (solver : LinearSolver) (c : Call) :
    s.elements.next ≤ (c.run solver s).elements.next ∧
      ∀ e' ∈ (c.run solver s).elements.elements, e'.id.number < s.elements.next →
        ∃ e ∈ s.elements.elements, e.id = e'.id := by
  have hsame : ∀ {t : Sketch}, SameProblem s t → s.elements.next ≤ t.elements.next ∧
      ∀ e' ∈ t.elements.elements, e'.id.number < s.elements.next →
        ∃ e ∈ s.elements.elements, e.id = e'.id := by
    intro t ht
    refine ⟨ht.next.ge, fun e' he' _ => ?_⟩
    obtain ⟨e, he, hid, _⟩ := ElementTable.mem_of_roster ht.roster.symm he'
    exact ⟨e, he, hid⟩
  by_cases hc : c = .solve
  · subst hc
    exact hsame (h.sameProblem_solve solver)
  · rcases run_cases h.grounded hc with heq | he | heq | heq
    · rw [heq]
      exact hsame (.refl s)
    · exact ⟨he.drawn, he.born⟩
    · rw [heq]
      exact hsame (sameProblem_reset s)
    · rw [heq]
      exact hsame (sameProblem_build s)

/-- Elements are not given the identity of one that was there before. -/
theorem exists_of_runAll {s : Sketch} (h : Sound s) {calls : List Call} {id : ElementId}
    (hid : id.number < s.elements.next)
    (hlive : ∃ e ∈ (Call.runAll solver calls s).elements.elements, e.id = id) :
    ∃ e ∈ s.elements.elements, e.id = id := by
  induction calls generalizing s with
  | nil => exact hlive
  | cons c calls ih =>
    obtain ⟨hnext, hborn⟩ := lifetime_run h solver c
    obtain ⟨e', he', rfl⟩ := ih (h.call solver c) (Nat.lt_of_lt_of_le hid hnext) hlive
    exact hborn e' he' hid

end Sketch

/-- The sketch right after clusters were built, if the call comes to build them. -/
def Call.builds? : Call → Sketch → Option Sketch
  | build, s => if s.built then none else some s.build
  | solve, s => if s.isSettled || (!s.edited && s.built) then none else some s.prepared
  | _, _ => none

theorem Call.builds?_build {s : Sketch} (h : s.built = false) :
    Call.builds? .build s = some s.build := by
  simp [builds?, h]

namespace Sketch

theorem builds?_eq_some {s b : Sketch} {c : Call} (h : Sound s) (hb : c.builds? s = some b) :
    (∃ t, Grounded t ∧ t.built = false ∧ t.nextCluster = s.nextCluster ∧ b = t.build) ∧
      ∀ solver, (c.run solver s).nextCluster = b.nextCluster := by
  cases c with
  | build =>
    dsimp only [Call.builds?] at hb
    split at hb
    · cases hb
    · rename_i hbuilt
      cases hb
      exact ⟨⟨s, h.grounded, by simpa using hbuilt, rfl, rfl⟩, fun _ => rfl⟩
  | solve =>
    dsimp only [Call.builds?] at hb
    split at hb
    · cases hb
    · rename_i hcond
      simp only [Bool.or_eq_true, Bool.and_eq_true, Bool.not_eq_true', not_or, not_and,
        Bool.not_eq_true] at hcond
      cases hb
      obtain ⟨hg, hf⟩ := h.prepared hcond.1
      refine ⟨?_, fun solver => ?_⟩
      · unfold Sketch.prepared
        cases he : s.edited with
        | true => exact ⟨s.reset, h.grounded.reset, rfl, rfl, rfl⟩
        | false => exact ⟨s, h.grounded, hcond.2 he, rfl, rfl⟩
      · rw [← (follows_solveBuilt hg hf solver).next, ← solve_eq_of_not_isSettled hcond.1]
        rfl
  | _ => cases hb

theorem nextCluster_build_le {s : Sketch} (hg : Grounded s) :
    s.nextCluster ≤ s.build.nextCluster := by
  cases hb : s.built with
  | true =>
    have hs : s.build = s := by simp [build, hb]
    rw [hs]
  | false => exact (assembled_build hg hb).since.1

theorem nextCluster_solve_le {s : Sketch} (h : Sound s) (solver : LinearSolver) :
    s.nextCluster ≤ (s.solve solver).1.nextCluster := by
  cases hs : s.isSettled with
  | true => rw [solve_eq_of_isSettled hs]
  | false =>
    obtain ⟨hg, hf⟩ := h.prepared hs
    rw [solve_eq_of_not_isSettled hs, (follows_solveBuilt hg hf solver).next, prepared]
    split
    · exact nextCluster_build_le h.grounded.reset
    · exact nextCluster_build_le h.grounded

theorem nextCluster_run_le {s : Sketch} (h : Sound s) (solver : LinearSolver) (c : Call) :
    s.nextCluster ≤ (c.run solver s).nextCluster := by
  by_cases hc : c = .solve
  · subst hc
    exact nextCluster_solve_le h solver
  · rcases run_cases h.grounded hc with heq | he | heq | heq
    · rw [heq]
    · exact he.next.ge
    · rw [heq]
      exact Nat.le_refl _
    · rw [heq]
      exact nextCluster_build_le h.grounded

theorem nextCluster_runAll_le {s : Sketch} (h : Sound s) (solver : LinearSolver)
    (calls : List Call) : s.nextCluster ≤ (Call.runAll solver calls s).nextCluster := by
  induction calls generalizing s with
  | nil => exact Nat.le_refl _
  | cons c calls ih => exact (nextCluster_run_le h solver c).trans (ih (h.call solver c))

end Sketch

end RigidSketch
