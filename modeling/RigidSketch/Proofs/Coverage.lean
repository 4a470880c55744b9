import RigidSketch.Proofs.Invariants
import RigidSketch.Proofs.Verdict

/-! Which elements clusters hold: those that have a constraint. So checking the constraints
finds no end of one outside the clusters, and relaxation places nothing there. -/

namespace RigidSketch

open LeastSquares (LinearSolver solveLinear)

theorem foldlM_induction {α β : Type} {P : β → Prop} {f : β → α → Option β} {xs : List α}
    (hf : ∀ b, ∀ a ∈ xs, ∀ b', f b a = some b' → P b → P b') {b b' : β}
    (h : xs.foldlM f b = some b') (hb : P b) : P b' := by
  induction xs generalizing b with
  | nil =>
    cases h
    exact hb
  | cons a xs ih =>
    rw [List.foldlM_cons] at h
    obtain ⟨next, hnext, h⟩ := Option.bind_eq_some_iff.mp h
    exact ih (fun b a ha => hf b a (List.mem_cons_of_mem _ ha)) h
      (hf b a List.mem_cons_self next hnext hb)

/-- Four points with a bar from each to the next, and a point without constraints. -/
def Call.square : List Call :=
  [addPoint true 0 0, addPoint false 1 0, addPoint false 1 1, addPoint false 0 1,
    addPoint false 9 9, constrain .distance ⟨0⟩ ⟨1⟩ 1, constrain .distance ⟨1⟩ ⟨2⟩ 1,
    constrain .distance ⟨2⟩ ⟨3⟩ 1, constrain .distance ⟨3⟩ ⟨0⟩ 1]

theorem Element.isClaimed_claim (k : ClusterId) (e : Element) : (e.claim k).isClaimed = true := by
  have hk : k ∈ (e.claim k).owners := mem_owners_claim.mpr (Or.inr rfl)
  simpa [isClaimed] using List.ne_nil_of_mem hk

namespace Sketch

theorem crowded_grow {s : Sketch} {g : Growth} (h : ∀ e ∈ g.crowded, e ∈ g.cluster.elements) :
    ∀ e ∈ (s.grow g).crowded, e ∈ (s.grow g).cluster.elements := by
  fun_induction Sketch.grow s g with
  | case1 g a ha ih =>
    refine ih fun e he => ?_
    have hcases : e ∈ g.crowded ∨ e = a.element := by
      simp only [Growth.take] at he
      split at he
      · exact Or.inl he
      · simpa using he
    rcases hcases with he | rfl
    · simp [Growth.take, h e he]
    · simp [Growth.take]
  | case2 => exact h

theorem crowded_growFrom (s : Sketch) (k : ClusterId) (seed : ConstraintId) :
    ∀ e ∈ (s.growFrom k seed).crowded, e ∈ (s.growFrom k seed).cluster.elements :=
  crowded_grow nofun

/-- An element that a growth takes in is raised and claimed, and any other stays as it is. -/
theorem exists_of_mem_commit {s : Sketch} {g : Growth}
    (hg : ∀ e ∈ g.crowded, e ∈ g.cluster.elements) {e' : Element}
    (h : e' ∈ (s.commit g).elements.elements) :
    (e'.isClaimed = true ∧ e'.level ≠ .under) ∨ e' ∈ s.elements.elements := by
  obtain ⟨e₂, h₂, rfl⟩ := List.mem_map.mp h
  obtain ⟨e₁, h₁, rfl⟩ := List.mem_map.mp h₂
  obtain ⟨e, he, rfl⟩ := List.mem_map.mp h₁
  by_cases hin : e.id ∈ g.cluster.elements
  · have hid : (e.claim g.cluster.id).id = e.id := (Element.claim_frame _ e).1
    have hclaimed := e.isClaimed_claim g.cluster.id
    left
    simp only [hin, decide_true, if_true]
    generalize e.claim g.cluster.id = a at hid hclaimed ⊢
    by_cases hlevel : a.level = .under
    · simp only [hid, hin, hlevel, decide_true, if_true]
      split
      · exact ⟨hclaimed, nofun⟩
      · exact ⟨hclaimed, nofun⟩
    · simp only [hid, hin, hlevel, decide_true, if_true, if_false]
      split
      · exact ⟨hclaimed, nofun⟩
      · exact ⟨hclaimed, hlevel⟩
  · have hout : e.id ∉ g.crowded := fun hc => hin (hg e.id hc)
    right
    simpa [hin, hout] using he

def Levelled (s : Sketch) : Prop :=
  ∀ e ∈ s.elements.elements, e.level = .under ↔ e.isClaimed = false

theorem levelled_reset (s : Sketch) : Levelled s.reset := by
  intro e he
  obtain ⟨x, _, rfl⟩ := List.mem_map.mp he
  exact ⟨fun _ => rfl, fun _ => rfl⟩

theorem Levelled.commit {s : Sketch} (h : Levelled s) (k : ClusterId) (seed : ConstraintId) :
    Levelled (s.commit (s.growFrom k seed)) := by
  intro e he
  rcases exists_of_mem_commit (s.crowded_growFrom k seed) he with ⟨hclaim, hlevel⟩ | hold
  · simp [hclaim, hlevel]
  · exact h e hold

theorem levelled_build {s : Sketch} (hg : Grounded s) (hb : s.built = false) :
    Levelled s.build :=
  build_induction hg hb (levelled_reset s) (fun _ _ _ h => h)
    fun _ k seed _ _ _ h => h.commit k seed

theorem elements_add (sys : LeastSquares.System Float) (id : ElementId) (g : Shape Float)
    (fixed : Bool) : (sys.add id g fixed).elements = sys.elements ++ [id] := by
  unfold LeastSquares.System.add
  dsimp only
  split
  · rfl
  · split <;> rfl

theorem elements_keepPair {s : Sketch} {ids : List ElementId} {k : Cluster}
    {sys sys' : LeastSquares.System Float} {p : ElementId × ElementId}
    (h : s.keepPair ids k sys p = some sys') : sys'.elements = sys.elements := by
  unfold keepPair at h
  split at h
  · cases h
    rfl
  · obtain ⟨_, _, h⟩ := Option.bind_eq_some_iff.mp h
    obtain ⟨_, _, h⟩ := Option.bind_eq_some_iff.mp h
    cases h
    rfl

theorem elements_relateFree {s : Sketch} {ids : List ElementId}
    {sys sys' : LeastSquares.System Float} {id : ConstraintId}
    (h : s.relateFree ids sys id = some sys') : sys'.elements = sys.elements := by
  unfold relateFree at h
  obtain ⟨_, _, h⟩ := Option.bind_eq_some_iff.mp h
  obtain ⟨_, _, h⟩ := Option.bind_eq_some_iff.mp h
  obtain ⟨_, _, h⟩ := Option.bind_eq_some_iff.mp h
  cases h
  rfl

theorem elements_foldlM {α : Type}
    {f : LeastSquares.System Float → α → Option (LeastSquares.System Float)}
    (hf : ∀ sys a sys', f sys a = some sys' → sys'.elements = sys.elements) {xs : List α}
    {sys sys' : LeastSquares.System Float} (h : xs.foldlM f sys = some sys') :
    sys'.elements = sys.elements :=
  foldlM_induction (P := fun other => other.elements = sys.elements)
    (fun other a _ next hnext hother => (hf other a next hnext).trans hother) h rfl

theorem elements_unknowns {s : Sketch} {ids : List ElementId}
    {sys sys' : LeastSquares.System Float}
    (h : ids.foldlM (fun (sys : LeastSquares.System Float) id => do
      let e ← s.elements.get? id
      return sys.add id (startShape e) e.fixed) sys = some sys') :
    sys'.elements = sys.elements ++ ids := by
  induction ids generalizing sys with
  | nil =>
    cases h
    simp
  | cons id ids ih =>
    rw [List.foldlM_cons] at h
    obtain ⟨next, hnext, h⟩ := Option.bind_eq_some_iff.mp h
    obtain ⟨e, _, hadd⟩ := Option.bind_eq_some_iff.mp hnext
    cases hadd
    rw [ih h, elements_add, List.append_assoc]
    rfl

theorem elements_linkSystem? {s : Sketch} {members : List (Cluster × List ElementId)}
    {sys : LeastSquares.System Float} (h : s.linkSystem? members = some sys) :
    sys.elements = s.linking.toList := by
  unfold linkSystem? at h
  obtain ⟨unknowns, hunknowns, h⟩ := Option.bind_eq_some_iff.mp h
  obtain ⟨kept, hkept, h⟩ := Option.bind_eq_some_iff.mp h
  calc sys.elements
      = kept.elements := elements_foldlM (fun _ _ _ => elements_relateFree) h
    _ = unknowns.elements :=
      elements_foldlM (fun _ _ _ => elements_foldlM fun _ _ _ => elements_keepPair) hkept
    _ = s.linking.toList := by simpa using elements_unknowns hunknowns

theorem holds_of_mem_linking {s : Sketch} (hd : Decomposed s) {e : ElementId}
    (h : e ∈ s.linking) : s.Holds e := by
  simp only [linking, OrderedSet.mem_ofList, List.mem_append, List.mem_map, List.mem_filter,
    List.mem_flatMap] at h
  rcases h with (⟨x, ⟨hx, hshared⟩, rfl⟩ | ⟨id, hid, hend⟩) | ⟨k, hk, he, _⟩
  · have hlen : 1 < x.owners.length := by simpa using hshared
    have hclaimed : x.isClaimed = true := by
      simpa [Element.isClaimed] using List.ne_nil_of_length_pos (by omega)
    exact (isClaimed_iff hd.owned hx).mp hclaimed
  · split at hend
    · rename_i c hc
      exact hd.claimed c (ConstraintTable.mem_of_get? hc).1 e hend
    · cases hend
  · exact ⟨k, hk, he⟩

variable {solver : LinearSolver}

theorem mem_linking_of_relaxation? {s : Sketch} {members : List (Cluster × List ElementId)}
    {target : ElementId → Option (Shape Float)} (h : s.relaxation? solver = some (members, target))
    {e : ElementId} {g : Shape Float} (he : target e = some g) : e ∈ s.linking := by
  unfold relaxation? at h
  obtain ⟨_, _, h⟩ := Option.bind_eq_some_iff.mp h
  obtain ⟨sys, hsys, h⟩ := Option.bind_eq_some_iff.mp h
  obtain ⟨x, _, h⟩ := Option.bind_eq_some_iff.mp h
  cases h
  obtain ⟨before, after, hshapes, _⟩ := List.lookup_eq_some_iff.mp he
  have hmem : (e, g) ∈ solvedShapes sys x := by simp [hshapes]
  obtain ⟨⟨id, i⟩, hid, heq⟩ := List.mem_filterMap.mp hmem
  obtain ⟨_, _, hpair⟩ := Option.map_eq_some_iff.mp heq
  cases hpair
  have hin : e ∈ sys.elements := List.fst_mem_of_mem_zipIdx hid
  rwa [elements_linkSystem? hsys] at hin

/-- Relaxation has no target for an element outside every cluster. -/
theorem target_eq_none {s t : Sketch} (hd : Decomposed s)
    {members : List (Cluster × List ElementId)} {target : ElementId → Option (Shape Float)}
    (h : s.relaxation? solver = some (members, target)) (hm : Moved s t) {e : Element}
    (he : e ∈ t.elements.elements) (hc : e.isClaimed = false) : target e.id = none := by
  have hfollows := hm.follows hd
  have hout : ¬ s.Holds e.id := by
    rw [← hfollows.holds, ← isClaimed_iff hfollows.decomposed.owned he, hc]
    exact Bool.false_ne_true
  cases htarget : target e.id with
  | none => rfl
  | some g => exact absurd (holds_of_mem_linking hd (mem_linking_of_relaxation? h htarget)) hout

theorem map_placeLoose {s t : Sketch} (hd : Decomposed s)
    {members : List (Cluster × List ElementId)} {target : ElementId → Option (Shape Float)}
    (h : s.relaxation? solver = some (members, target)) (hm : Moved s t) :
    t.elements.map (placeLoose target) = t.elements := by
  have hself : ∀ e ∈ t.elements.elements, placeLoose target e = e := by
    intro e he
    unfold placeLoose
    cases hc : e.isClaimed with
    | true => rfl
    | false =>
      rw [target_eq_none hd h hm he hc]
      split <;> rfl
  simp only [ElementTable.map, List.map_congr_left hself, List.map_id']

/-- The elements that clusters hold are those with a constraint, and the others are
underconstrained. -/
structure ClaimsConstrained (s : Sketch) : Prop where
  unclaimed : ∀ e ∈ s.elements.elements,
    e.isClaimed = false ↔ ∀ c ∈ s.constraints.constraints, e.id ∉ c.ends
  under : ∀ e ∈ s.elements.elements,
    e.level = .under ↔ ∀ c ∈ s.constraints.constraints, e.id ∉ c.ends
  joined : ∀ c ∈ s.constraints.constraints, ∀ e ∈ c.ends, s.elements.isClaimed e = true

theorem Decomposed.isClaimed_eq_false_iff {s : Sketch} (hd : Decomposed s) {e : Element}
    (he : e ∈ s.elements.elements) :
    e.isClaimed = false ↔ ∀ c ∈ s.constraints.constraints, e.id ∉ c.ends := by
  rw [← Bool.not_eq_true, isClaimed_iff hd.owned he]
  constructor
  · intro hout c hc hm
    exact hout (hd.claimed c hc e.id hm)
  · intro hnone hin
    obtain ⟨c, hc, hm⟩ := hd.touched e.id hin
    exact hnone c hc hm

theorem Decomposed.isClaimed_of_mem_ends {s : Sketch} (hg : Grounded s) (hd : Decomposed s)
    {c : Constraint} (hc : c ∈ s.constraints.constraints) {e : ElementId} (he : e ∈ c.ends) :
    s.elements.isClaimed e = true := by
  obtain ⟨x, hx, rfl⟩ := hg.ends c hc e he
  unfold ElementTable.isClaimed
  rw [(ElementTable.get?_eq_some_iff hg.elements).mpr ⟨hx, rfl⟩]
  exact (isClaimed_iff hd.owned hx).mpr (hd.claimed c hc x.id he)

theorem claimsConstrained_build {s : Sketch} (hg : Grounded s) (hb : s.built = false) :
    ClaimsConstrained s.build := by
  have hd := decomposed_build hg hb
  have hlevel := levelled_build hg hb
  refine ⟨fun e he => hd.isClaimed_eq_false_iff he, fun e he => ?_, fun c hc e he => ?_⟩
  · exact (hlevel e he).trans (hd.isClaimed_eq_false_iff he)
  · exact hd.isClaimed_of_mem_ends (hg.congr (sameProblem_build s)) hc he

theorem blame_ne_underconstrained {s : Sketch} (hg : Grounded s) (hd : Decomposed s)
    {c : Constraint} (hc : c ∈ s.constraints.constraints) : s.blame c ≠ .underconstrained := by
  rw [blame_eq hg hd hc]
  split <;> exact nofun

/-- Right after clusters are built they hold the elements that have a constraint. All along
the solve that follows, no constraint is blamed on an end outside the clusters, and
relaxation has no place for an element there. -/
theorem Reachable.claimed_iff_constrained {s : Sketch} (hs : Reachable s)
    (solver : LinearSolver) :
    (∀ c b, Call.builds? c s = some b → b.ClaimsConstrained) ∧
    (s.isSettled = false → ∀ p ∈ s.prepared.points solver,
      (∀ c ∈ p.sketch.constraints.constraints, p.sketch.blame c ≠ .underconstrained) ∧
      ∀ members target t, p.sketch.relaxation? solver = some (members, target) →
        moveOnto target members p.sketch = (t, .solved) →
        ∀ e ∈ t.elements.elements, e.isClaimed = false → target e.id = none) := by
  refine ⟨fun c b hb => ?_, fun hn p hp => ?_⟩
  · obtain ⟨⟨t, ht, hbuilt, _, rfl⟩, _⟩ := builds?_eq_some hs.sound hb
    exact claimsConstrained_build ht hbuilt
  · have hfollows := hs.sound.follows_of_mem_points hn hp
    have hg := hs.sound.grounded.congr ((sameProblem_prepared s).trans hfollows.problem)
    have hd := hfollows.decomposed
    refine ⟨fun c hc => blame_ne_underconstrained hg hd hc, ?_⟩
    intro members target t hrelax honto e he hc
    have hdrag := (moveOnto_eq_drag target members p.sketch).1
    have hmoved := moved_drag p.sketch (ontoMoves target members p.sketch)
    rw [← hdrag, honto] at hmoved
    exact target_eq_none hd hrelax hmoved he hc

/-- No pattern joins the bars, so that relaxation runs, and the last point has no target. -/
theorem claimed_iff_constrained_square :
    (Call.runAll solveLinear Call.square {}).build.ClaimsConstrained ∧
    ∃ p ∈ (Call.runAll solveLinear Call.square {}).prepared.points solveLinear, ∃ members target t,
      p.sketch.relaxation? solveLinear = some (members, target) ∧
      moveOnto target members p.sketch = (t, .solved) ∧
      ∀ e ∈ t.elements.elements, e.isClaimed = false → target e.id = none := by
  have hs := (Reachable.new {}).runAll solveLinear Call.square
  have hb : (Call.runAll solveLinear Call.square {}).built = false := by decide +kernel
  have hn : (Call.runAll solveLinear Call.square {}).isSettled = false := by decide +kernel
  have hruns : ((Call.runAll solveLinear Call.square {}).prepared.points solveLinear).any (fun p =>
      match p.sketch.relaxation? solveLinear with
      | some (members, target) => decide ((moveOnto target members p.sketch).2 = .solved)
      | none => false) = true := by decide +kernel
  obtain ⟨hbuilt, hsolve⟩ := Reachable.claimed_iff_constrained hs solveLinear
  refine ⟨hbuilt .build _ (Call.builds?_build hb), ?_⟩
  obtain ⟨p, hp, hrelax⟩ := List.any_eq_true.mp hruns
  split at hrelax
  · rename_i members target hr
    have hmoved : moveOnto target members p.sketch =
        ((moveOnto target members p.sketch).1, .solved) :=
      Prod.ext rfl (of_decide_eq_true hrelax)
    exact ⟨p, hp, members, target, _, hr, hmoved,
      (hsolve hn p hp).2 members target _ hr hmoved⟩
  · cases hrelax

end Sketch

end RigidSketch
