import RigidSketch.Proofs.Session

/-! Where fixed elements end up. A cluster that alone holds a fixed element has no copy of
it, and a join of clusters that share elements, or relaxation, may still move that cluster.
The fixed element goes along then, and nothing else ever moves it. -/

namespace RigidSketch

open LeastSquares (LinearSolver solveLinear)

/-- The place of a fixed element. There is none for an element that may move. -/
def ElementTable.fixedAt? (t : ElementTable) (e : ElementId) : Option (Shape Float) :=
  (t.get? e).bind fun x => if x.fixed then some x.shape else none

theorem ElementTable.fixedAt?_eq_lookup (t : ElementTable) (e : ElementId) :
    t.fixedAt? e = (t.pinned.lookup e).bind id := by
  unfold fixedAt? get? pinned
  induction t.elements with
  | nil => rfl
  | cons x xs ih =>
    by_cases hx : x.id = e
    · simp [hx]
    · have hne : (e == x.id) = false := by simpa using fun h => hx h.symm
      simpa [hx, List.lookup_cons, hne] using ih

namespace Sketch

def fixedAt? (s : Sketch) (e : ElementId) : Option (Shape Float) := s.elements.fixedAt? e

theorem fixedAt?_congr {s t : Sketch} (h : t.elements.pinned = s.elements.pinned)
    (e : ElementId) : t.fixedAt? e = s.fixedAt? e := by
  rw [fixedAt?, fixedAt?, ElementTable.fixedAt?_eq_lookup, ElementTable.fixedAt?_eq_lookup, h]

/-- Whether a cluster holds an element and has no copy of it. -/
def isBare (s : Sketch) (e : ElementId) (k : ClusterId) : Bool :=
  match s.cluster? k, s.elements.get? e with
  | some c, some x => decide (e ∈ c.elements) && (x.copy? k).isNone
  | _, _ => false

/-- Those of some moves that take an element itself along. -/
def strays (s : Sketch) (e : ElementId) (moves : List (ClusterId × Motion Float)) :
    List (Motion Float) :=
  (moves.filter fun p => s.isBare e p.1).map (·.2)

/-- Where a shape gets by some motions, one after the other. -/
def follow (ms : List (Motion Float)) (g : Shape Float) : Shape Float :=
  ms.foldl (fun g m => m.move g) g

@[simp] theorem follow_nil : follow [] = id := rfl

theorem follow_append (ms ns : List (Motion Float)) :
    follow (ms ++ ns) = follow ns ∘ follow ms := by
  funext g
  exact List.foldl_append

theorem isBare_moved {s t : Sketch} (h : Moved s t) (e : ElementId) (k : ClusterId) :
    t.isBare e k = s.isBare e k := by
  obtain ⟨f, hf, rfl⟩ := h
  have hget : (s.elements.map f).get? e = (s.elements.get? e).map f :=
    ElementTable.get?_map (fun x => (hf x).id) e
  have hcluster : cluster? { s with elements := s.elements.map f } k = s.cluster? k := rfl
  unfold isBare
  rw [hget, hcluster]
  cases s.cluster? k with
  | none => rfl
  | some c =>
    cases s.elements.get? e with
    | none => rfl
    | some x =>
      dsimp only [Option.map]
      rw [← Option.not_isSome, ← Option.not_isSome, (hf x).copies k]

theorem fixedAt?_moveCluster (s : Sketch) (e : ElementId) (k : ClusterId) (m : Motion Float) :
    (s.moveCluster k m).fixedAt? e =
      (s.fixedAt? e).map fun g => if s.isBare e k then m.move g else g := by
  unfold fixedAt? ElementTable.fixedAt? moveCluster isBare
  cases hc : s.cluster? k with
  | none => simp
  | some c =>
    have hid : c.id = k := by simpa using List.find?_some hc
    dsimp only [Cluster.move]
    rw [ElementTable.get?_mapWhere fun x => (x.reshaped_moveIn c.id m).id]
    rw [hid]
    cases s.elements.get? e with
    | none => rfl
    | some x =>
      by_cases hm : e ∈ c.elements
      · have hshape := x.shape_moveIn k m
        have hfixed := (x.reshaped_moveIn k m).fixed
        cases hf : x.fixed with
        | false => simp [hm, hfixed, hf]
        | true =>
          cases hcopy : x.copy? k with
          | none => simp [hm, hfixed, hf, hshape, hcopy]
          | some c => simp [hm, hfixed, hf, hshape, hcopy]
      · simp [hm]

theorem fixedAt?_drag (s : Sketch) (e : ElementId) (moves : List (ClusterId × Motion Float)) :
    (s.drag moves).fixedAt? e = (s.fixedAt? e).map (follow (s.strays e moves)) := by
  induction moves generalizing s with
  | nil => simp [drag, strays]
  | cons p moves ih =>
    have hrest := ih (s.moveCluster p.1 p.2)
    have hstrays : (s.moveCluster p.1 p.2).strays e moves = s.strays e moves := by
      unfold strays
      simp only [isBare_moved (moved_moveCluster s p.1 p.2)]
    have hcons : s.drag (p :: moves) = (s.moveCluster p.1 p.2).drag moves := rfl
    rw [hcons, hrest, hstrays, fixedAt?_moveCluster, Option.map_map]
    congr 1
    funext g
    cases hb : s.isBare e p.1 with
    | true => simp [strays, hb, follow]
    | false => simp [strays, hb]

end Sketch

def Point.strays (solver : LinearSolver) (p : Point) (e : ElementId) : List (Motion Float) :=
  p.sketch.strays e (p.moves solver)

namespace Sketch

variable {solver : LinearSolver}

theorem fixedAt?_step {b : Sketch} (hg : b.Grounded) {p : Point} (h : p.Underway b)
    (coverage : Status) (e : ElementId) :
    (Point.step solver coverage p).sketch.fixedAt? e =
      (p.sketch.fixedAt? e).map (follow (p.strays solver e)) := by
  have hdragged := h.dragged (p.moves solver)
  have hpinned := Changes.pinned (Point.changes_step hg h solver coverage)
    (hg.congr hdragged.problem) hdragged.decomposed
  rw [fixedAt?_congr hpinned, fixedAt?_drag]
  rfl

theorem fixedAt?_iterate {b : Sketch} (hg : b.Grounded) (hf : b.Fresh) (solver : LinearSolver)
    (coverage : Status) (e : ElementId) (n : Nat) :
    ((Point.step solver coverage)^[n] ⟨.realizing b.clusters, b⟩).sketch.fixedAt? e =
      (b.fixedAt? e).map (follow ((List.iterate (Point.step solver coverage)
        ⟨.realizing b.clusters, b⟩ n).flatMap (·.strays solver e))) := by
  induction n with
  | zero => simp
  | succ n ih =>
    rw [Function.iterate_succ_apply',
      fixedAt?_step hg (Point.underway_iterate hg hf solver coverage n), ih, List.iterate_add,
      List.flatMap_append, follow_append, Option.map_map]
    simp

theorem strays_closed (status : Status) (s : Sketch) (e : ElementId) :
    Point.strays solver ⟨.closed status, s⟩ e = [] := rfl

theorem fixedAt?_solveBuilt {b : Sketch} (hg : b.Grounded) (hf : b.Fresh) (e : ElementId) :
    (b.solveBuilt solver).1.fixedAt? e =
      (b.fixedAt? e).map (follow ((b.points solver).flatMap (·.strays solver e))) := by
  have hlast := fixedAt?_iterate hg hf solver b.coverage e (3 * b.clusters.length + 5)
  rw [iterate_step_eq_closed] at hlast
  rw [points_eq_append, List.flatMap_append, List.flatMap_singleton, strays_closed,
    List.append_nil]
  exact hlast

theorem pinned_reset (s : Sketch) : s.reset.elements.pinned = s.elements.pinned :=
  ElementTable.pinned_map fun _ _ => ⟨rfl, rfl, fun _ => rfl⟩

theorem pinned_commit (s : Sketch) (g : Growth) :
    (s.commit g).elements.pinned = s.elements.pinned := by
  refine (ElementTable.pinned_mapWhere ?_).trans
    ((ElementTable.pinned_mapWhere ?_).trans (ElementTable.pinned_mapWhere ?_))
  · intro e _ _
    exact ⟨rfl, rfl, fun _ => rfl⟩
  · intro e _ _
    split <;> exact ⟨rfl, rfl, fun _ => rfl⟩
  · intro e _ _
    obtain ⟨hid, hshape, hfixed, _⟩ := Element.claim_frame g.cluster.id e
    exact ⟨hid, hfixed, fun _ => hshape⟩

theorem pinned_commitAll (s : Sketch) (cancelled : List ConstraintId)
    (spare : Option ClusterId) :
    (s.commitAll cancelled spare).elements.pinned = s.elements.pinned := by
  have hr : ∀ (s : Sketch) (spare : Option ClusterId),
      (s.reserve spare).1.elements = s.elements := by
    intro s spare
    cases spare <;> rfl
  fun_induction commitAll s cancelled spare with
  | case1 => rfl
  | case2 => rfl
  | case3 s cancelled spare _ seed retry _ r g _ ih => rw [ih, hr]
  | case4 s cancelled spare _ seed retry _ r g _ ih => rw [ih, pinned_commit, hr]

theorem pinned_build (s : Sketch) : s.build.elements.pinned = s.elements.pinned := by
  unfold build
  split
  · rfl
  · exact (pinned_commitAll s.reset [] none).trans (pinned_reset s)

theorem pinned_prepared (s : Sketch) : s.prepared.elements.pinned = s.elements.pinned := by
  unfold prepared
  split
  · exact (pinned_build s.reset).trans (pinned_reset s)
  · exact pinned_build s

end Sketch

/-- The motions by which a call takes a fixed element along. -/
def Call.strays (solver : LinearSolver) : Call → Sketch → ElementId → List (Motion Float)
  | solve, s, e =>
    if s.isSettled then [] else (s.prepared.points solver).flatMap (·.strays solver e)
  | _, _, _ => []

def Call.straysAll (solver : LinearSolver) : List Call → Sketch → ElementId → List (Motion Float)
  | [], _, _ => []
  | c :: calls, s, e => c.strays solver s e ++ straysAll solver calls (c.run solver s) e

theorem Call.strays_of_ne_solve {c : Call} (hc : c ≠ .solve) (solver : LinearSolver) (s : Sketch)
    (e : ElementId) : c.strays solver s e = [] := by
  cases c with
  | solve => exact absurd rfl hc
  | _ => rfl

namespace Sketch

variable {solver : LinearSolver}

theorem fixedAt?_eq_some_iff {s : Sketch} (hg : Grounded s) {e : ElementId} {g : Shape Float} :
    s.fixedAt? e = some g ↔
      ∃ x ∈ s.elements.elements, x.id = e ∧ x.fixed = true ∧ x.shape = g := by
  unfold fixedAt? ElementTable.fixedAt?
  simp only [Option.bind_eq_some_iff, ElementTable.get?_eq_some_iff hg.elements, and_assoc,
    Option.ite_none_right_eq_some, Option.some.injEq]

theorem fixedAt?_run {s : Sketch} (h : Sound s) (c : Call) {e : ElementId} {g : Shape Float}
    (hfixed : s.fixedAt? e = some g) (hlive : ∃ x ∈ (c.run solver s).elements.elements, x.id = e) :
    (c.run solver s).fixedAt? e = some (follow (c.strays solver s e) g) := by
  by_cases hc : c = .solve
  · subst hc
    dsimp only [Call.run, Call.strays]
    cases hs : s.isSettled with
    | true =>
      rw [solve_eq_of_isSettled hs]
      simpa using hfixed
    | false =>
      obtain ⟨hg, hf⟩ := h.prepared hs
      rw [solve_eq_of_not_isSettled hs, fixedAt?_solveBuilt hg hf,
        fixedAt?_congr (pinned_prepared s), hfixed]
      rfl
  · rw [Call.strays_of_ne_solve hc, follow_nil, id]
    rcases run_cases h.grounded hc with heq | he | heq | heq
    · rw [heq]
      exact hfixed
    · obtain ⟨x, hx, rfl, hxf, rfl⟩ := (fixedAt?_eq_some_iff h.grounded).mp hfixed
      obtain ⟨y, hy, hid⟩ := hlive
      obtain ⟨hyf, hshape⟩ := he.keeps x hx hxf y hy hid
      exact (fixedAt?_eq_some_iff he.grounded).mpr ⟨y, hy, hid, hyf, hshape⟩
    · rw [heq, fixedAt?_congr (pinned_reset s)]
      exact hfixed
    · rw [heq, fixedAt?_congr (pinned_build s)]
      exact hfixed

theorem exists_solve_of_fixedAt? {s : Sketch} (h : Sound s) (solver : LinearSolver)
    {e : ElementId} {g : Shape Float} (hfixed : s.fixedAt? e = some g) :
    ∃ x ∈ (Call.runAll solver [.solve] s).elements.elements, x.id = e := by
  obtain ⟨x, hx, rfl, _⟩ := (fixedAt?_eq_some_iff h.grounded).mp hfixed
  obtain ⟨y, hy, hid, _⟩ := ElementTable.mem_of_roster (h.sameProblem_solve solver).roster hx
  exact ⟨y, hy, hid⟩

/-- A fixed element stays fixed as long as it is there. It is where the motions that took it
along lead, and so where it was exactly if these bring it back. -/
theorem Reachable.fixedAt?_runAll {s : Sketch} (hs : Reachable s) {e : ElementId}
    {g : Shape Float} (hfixed : s.fixedAt? e = some g) (solver : LinearSolver) (calls : List Call)
    (hlive : ∃ x ∈ (Call.runAll solver calls s).elements.elements, x.id = e) :
    (Call.runAll solver calls s).fixedAt? e = some (follow (Call.straysAll solver calls s e) g) ∧
      ((Call.runAll solver calls s).fixedAt? e = some g ↔
        follow (Call.straysAll solver calls s e) g = g) := by
  have hplace : (Call.runAll solver calls s).fixedAt? e =
      some (follow (Call.straysAll solver calls s e) g) := by
    induction calls generalizing s g with
    | nil => exact hfixed
    | cons c calls ih =>
      obtain ⟨x, hx, hid, _⟩ := (fixedAt?_eq_some_iff hs.sound.grounded).mp hfixed
      have hnumber : e.number < s.elements.next :=
        hid ▸ hs.sound.grounded.elements.below _ (List.mem_map.mpr ⟨x, hx, rfl⟩)
      have hnext := (lifetime_run hs.sound solver c).1
      have hstill := exists_of_runAll (hs.call solver c).sound
        (Nat.lt_of_lt_of_le hnumber hnext) hlive
      have hrun := fixedAt?_run hs.sound c hfixed hstill
      rw [Call.straysAll, follow_append]
      exact ih (hs.call solver c) hrun hlive
  exact ⟨hplace, by rw [hplace, Option.some.injEq]⟩

/-- One of three points is fixed, and no cluster that holds it is dragged. -/
theorem fixedAt?_solve_triangle :
    (Call.runAll solveLinear [.solve] (Call.runAll solveLinear Call.triangle {})).fixedAt? ⟨0⟩ =
      some (.point ⟨0, 0⟩) := by
  have hs := (Reachable.new {}).runAll solveLinear Call.triangle
  have hbefore : (Call.runAll solveLinear Call.triangle {}).fixedAt? ⟨0⟩ =
      some (.point ⟨0, 0⟩) := by
    decide +kernel
  have hstrays : Call.straysAll solveLinear [.solve]
      (Call.runAll solveLinear Call.triangle {}) ⟨0⟩ = [] := by
    decide +kernel
  have hlive := exists_solve_of_fixedAt? hs.sound solveLinear hbefore
  refine (Reachable.fixedAt?_runAll hs hbefore solveLinear [.solve] hlive).2.mpr ?_
  rw [hstrays, follow_nil, id]

end Sketch

/-- Two fixed points. The clusters on the second of them join first, and the joined cluster,
which has no copy of that point any more, is then moved onto the first cluster. -/
def Call.twoFeet : List Call :=
  [.addPoint true 0 0, .addPoint false 4 1, .addPoint false 3 4, .addPoint true 4 (-3),
    .addPoint false 8 0, .addPoint false 7 4, .addPoint false 6 (-5), .addPoint false 9 5,
    .addPoint false 10 3] ++
  ([(0, 1, 4), (0, 2, 5), (1, 2, 3), (1, 3, 3), (1, 4, 4), (3, 4, 5), (3, 5, 7.615773105863909),
    (3, 6, 2.8284271247461903), (5, 6, 9.055385138137417), (7, 5, 2.23606797749979),
    (7, 6, 10.44030650891055), (8, 7, 2.23606797749979), (8, 5, 3.1622776601683795),
    (4, 7, 5.0990195135927845), (4, 8, 3.605551275463989), (2, 5, 3.1622776601683795),
    (2, 7, 5.385164807134504)] : List (Nat × Nat × Float)).map
      fun (i, j, d) => .constrain .distance ⟨i⟩ ⟨j⟩ d

namespace Sketch

theorem fixed_element_strays_twoFeet :
    ¬ ∀ (s : Sketch) (e : ElementId) (g : Shape Float) (calls : List Call), Reachable s →
      s.fixedAt? e = some g →
        (∃ x ∈ (Call.runAll solveLinear calls s).elements.elements, x.id = e) →
          (Call.runAll solveLinear calls s).fixedAt? e = some g := by
  intro h
  have hs := (Reachable.new {}).runAll solveLinear Call.twoFeet
  have hbefore : (Call.runAll solveLinear Call.twoFeet {}).fixedAt? ⟨3⟩ =
      some (.point ⟨4, -3⟩) := by
    decide +kernel
  have hafter : (Call.runAll solveLinear [.solve]
      (Call.runAll solveLinear Call.twoFeet {})).fixedAt? ⟨3⟩ ≠ some (.point ⟨4, -3⟩) := by
    decide +kernel
  have hlive := exists_solve_of_fixedAt? hs.sound solveLinear hbefore
  exact hafter (h _ ⟨3⟩ _ [.solve] hs hbefore hlive)

theorem exists_of_mem_sharingMoves {s : Sketch} {ps : List (Cluster × Cluster)}
    {move : ClusterId × Motion Float} (h : move ∈ s.sharingMoves ps) :
    ∃ p ∈ ps, s.pairMotion p = .ok move := by
  induction ps with
  | nil => cases h
  | cons p ps ih =>
    unfold sharingMoves at h
    split at h
    · rename_i m hm
      exact ⟨p, List.mem_cons_self, List.mem_singleton.mp h ▸ hm⟩
    · cases h
    · obtain ⟨q, hq, hmove⟩ := ih h
      exact ⟨q, List.mem_cons_of_mem _ hq, hmove⟩

/-- A cluster dragged to join another shares two elements with it, and if it holds fixed
elements, so does the other. -/
theorem exists_of_mem_roundMoves {s : Sketch} (hd : Decomposed s)
    {move : ClusterId × Motion Float} (h : move ∈ s.roundMoves) :
    ∃ a ∈ s.clusters, ∃ b ∈ s.clusters, b.id = move.1 ∧ a.id ≠ b.id ∧
      (2 ≤ (a.shared b).length ∨ 2 ≤ (b.shared a).length) ∧
      (s.hasFixed b = true → s.hasFixed a = true) := by
  obtain ⟨p, hp, hmove⟩ := exists_of_mem_sharingMoves h
  obtain ⟨hpair, hshared⟩ := List.mem_filter.mp hp
  have hshared : 2 ≤ (p.1.shared p.2).length := by simpa using hshared
  obtain ⟨a, b, horder, hab, hfixed⟩ := s.anchorOrder_cases p.1 p.2
  have hj : s.Joinable a b [] := joinable_of_pair hd hpair hab nofun
  have hid : b.id = move.1 := by
    unfold pairMotion at hmove
    rw [horder] at hmove
    dsimp only at hmove
    cases hm : s.sharingMotion a.id b.id (p.1.shared p.2) with
    | error err =>
      rw [hm] at hmove
      cases hmove
    | ok m =>
      rw [hm] at hmove
      cases hmove
      rfl
  refine ⟨a, hj.anchor, b, hj.moving, hid, hj.distinct, ?_, hfixed⟩
  rcases hab with ⟨rfl, rfl⟩ | ⟨rfl, rfl⟩
  · exact Or.inl hshared
  · exact Or.inr hshared

/-- Only the sole owner of a fixed element takes it along, once it has no copy of it: to join
a cluster that holds fixed elements, too, or in relaxation. -/
theorem Reachable.exposed_of_mem_strays {s : Sketch} (hs : Reachable s)
    (hn : s.isSettled = false) {solver : LinearSolver} {p : Point}
    (hp : p ∈ s.prepared.points solver) {x : Element} (hx : x ∈ p.sketch.elements.elements)
    (hf : x.fixed = true) {m : Motion Float} (hm : m ∈ p.strays solver x.id) :
    ∃ k ∈ p.sketch.clusters, x.owners = [k.id] ∧ x.copy? k.id = none ∧
      (k.id, m) ∈ p.moves solver ∧
      (p.stage = .relaxing ∨ ∃ a ∈ p.sketch.clusters, a.id ≠ k.id ∧
        (2 ≤ (a.shared k).length ∨ 2 ≤ (k.shared a).length) ∧ p.sketch.hasFixed a = true) := by
  have hfollows := hs.sound.follows_of_mem_points hn hp
  have hd := hfollows.decomposed
  have hg := (hs.sound.prepared hn).1.congr hfollows.problem
  have hget := (ElementTable.get?_eq_some_iff hg.elements).mpr ⟨hx, rfl⟩
  obtain ⟨move, hmove, rfl⟩ := List.mem_map.mp hm
  obtain ⟨hmem, hbare⟩ := List.mem_filter.mp hmove
  unfold isBare at hbare
  rw [hget] at hbare
  cases hc : p.sketch.cluster? move.1 with
  | none => simp [hc] at hbare
  | some k =>
    obtain ⟨hk, hid⟩ := (cluster?_eq_some_iff hd.numbered).mp hc
    simp only [hc, Bool.and_eq_true, decide_eq_true_eq, Option.isNone_iff_eq_none] at hbare
    obtain ⟨hin, hcopy⟩ := hbare
    rw [← hid] at hcopy
    have hown : k.id ∈ x.owners := (hd.owned.owners x hx k.id).mpr ⟨k, hk, rfl, hin⟩
    have hsole : x.owners = [k.id] := by
      have hlen : ¬ 2 ≤ x.owners.length := by
        intro hl
        have hsome := (hd.owned.copied x hx).shared hl k.id hown
        simp [hcopy] at hsome
      exact Element.owners_eq_of_sole hown hlen
    have hhas : p.sketch.hasFixed k = true :=
      List.any_eq_true.mpr ⟨x.id, hin, by rw [ElementTable.isFixed_of_mem hg.elements hx, hf]⟩
    refine ⟨k, hk, hsole, hcopy, by rw [hid]; exact hmem, ?_⟩
    obtain ⟨stage, t⟩ := p
    cases stage with
    | relaxing => exact Or.inl rfl
    | joining rounds =>
      cases rounds with
      | zero => cases hmem
      | succ rounds =>
        dsimp only [Point.moves] at hmem
        split at hmem
        · cases hmem
        · obtain ⟨a, ha, b, hb, hbid, hne, hshared, hfixed⟩ := exists_of_mem_roundMoves hd hmem
          obtain rfl := cluster_ext hd.numbered hb hk (hbid.trans hid.symm)
          exact Or.inr ⟨a, ha, hne, hshared, hfixed hhas⟩
    | _ => cases hmem

end Sketch

end RigidSketch
