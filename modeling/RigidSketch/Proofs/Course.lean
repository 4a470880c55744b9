import Mathlib.Data.List.Iterate
import RigidSketch.Proofs.Realizing
import RigidSketch.Proofs.Relaxing

/-! The course of a solve, as a machine that takes one step for every cluster placed, every
cluster anchored and every round of joining. What one step keeps holds at all points. -/

namespace RigidSketch

open LeastSquares (LinearSolver)

inductive Stage where
  | realizing (todo : List Cluster)
  | anchoring (k : Cluster) (todo : List Cluster)
  | joining (rounds : Nat)
  | relaxing
  | settling
  | closing (status : Status)
  | closed (status : Status)
deriving DecidableEq

structure Point where
  stage : Stage
  sketch : Sketch
deriving DecidableEq

def Status.onward (next : Stage) (status : Status) : Stage :=
  if status = .solved then next else .closing status

/-- What a solve finds if every constraint is satisfied at its end. -/
def Sketch.coverage (s : Sketch) : Status :=
  if s.elements.elements.all (·.isClaimed) then .solved else .underconstrained

namespace Point

/-- One step of a solve. `coverage` is what was found of the sketch before the first step. -/
def step (solver : LinearSolver) (coverage : Status) : Point → Point
  | ⟨.realizing [], s⟩ => ⟨.joining s.clusters.length, s⟩
  | ⟨.realizing (k :: todo), s⟩ =>
    let r := k.placeSteps s.tolerance s.constraints k.steps s.elements
    ⟨r.2.onward (.anchoring k todo), { s with elements := r.1 }⟩
  | ⟨.anchoring k todo, s⟩ =>
    let r := k.anchor s.tolerance s.elements
    ⟨r.2.onward (.realizing todo), { s with elements := r.1 }⟩
  | ⟨.joining 0, s⟩ => ⟨.relaxing, s⟩
  | ⟨.joining (rounds + 1), s⟩ =>
    if s.clusters.length ≤ 1 then ⟨.relaxing, s⟩
    else
      match s.joinOnce with
      | (s, some .joined) => ⟨.joining rounds, s⟩
      | (s, some (.failed status)) => ⟨status.onward .relaxing, s⟩
      | (s, none) => ⟨.relaxing, s⟩
  | ⟨.relaxing, s⟩ =>
    if 1 < s.clusters.length then
      ⟨(s.relax solver).2.onward .settling, (s.relax solver).1⟩
    else ⟨.settling, s⟩
  | ⟨.settling, s⟩ =>
    let s := { s with elements := s.elements.map (·.settle) }.markSolved
    ⟨.closing (coverage.worst s.verdict), s⟩
  | ⟨.closing status, s⟩ => ⟨.closed status, (s.finish status).1⟩
  | ⟨.closed status, s⟩ => ⟨.closed status, s⟩

end Point

namespace Sketch

/-- The points of a solve of a sketch whose clusters were built. A cluster takes two steps to
be placed and anchored and at most one to be joined. -/
def points (solver : LinearSolver) (s : Sketch) : List Point :=
  List.iterate (Point.step solver s.coverage) ⟨.realizing s.clusters, s⟩
    (3 * s.clusters.length + 5 + 1)

end Sketch

def Sketch.chain (next : Sketch → Sketch × Status) (r : Sketch × Status) : Sketch × Status :=
  if r.2 = .solved then next r.1 else r.1.finish r.2

namespace Point

def Closes (solver : LinearSolver) (coverage : Status) (p : Point) (n : Nat)
    (r : Sketch × Status) : Prop :=
  ∃ m ≤ n, (step solver coverage)^[m] p = ⟨.closed r.2, r.1⟩

variable {solver : LinearSolver} {coverage : Status}

theorem closes_of_step {p : Point} {n : Nat} {r : Sketch × Status}
    (h : Closes solver coverage (step solver coverage p) n r) :
    Closes solver coverage p (n + 1) r := by
  obtain ⟨m, hm, hr⟩ := h
  exact ⟨m + 1, by omega, hr⟩

theorem Closes.mono {p : Point} {m n : Nat} {r : Sketch × Status} (h : Closes solver coverage p m r)
    (hmn : m ≤ n) : Closes solver coverage p n r := by
  obtain ⟨i, hi, hr⟩ := h
  exact ⟨i, by omega, hr⟩

theorem closes_closing (s : Sketch) (status : Status) :
    Closes solver coverage ⟨.closing status, s⟩ 1 (s.finish status) :=
  ⟨1, by omega, rfl⟩

theorem closes_failed {s : Sketch} {status : Status} (h : status ≠ .solved) {n : Nat}
    (hn : 1 ≤ n) (next : Sketch → Sketch × Status) :
    Closes solver coverage ⟨.closing status, s⟩ n (Sketch.chain next (s, status)) := by
  rw [Sketch.chain, if_neg h]
  exact (closes_closing s status).mono hn

theorem closes_onward {stage : Stage} {s : Sketch} {status : Status} {n : Nat}
    {next : Sketch → Sketch × Status} (h : Closes solver coverage ⟨stage, s⟩ n (next s))
    (hn : 1 ≤ n) :
    Closes solver coverage ⟨status.onward stage, s⟩ n (Sketch.chain next (s, status)) := by
  unfold Status.onward
  split
  · rename_i hs
    rw [Sketch.chain, if_pos hs]
    exact h
  · rename_i hs
    exact closes_failed hs hn next

def settled (coverage : Status) (s : Sketch) : Sketch × Status :=
  let s := { s with elements := s.elements.map (·.settle) }.markSolved
  s.finish (coverage.worst s.verdict)

def relaxed (solver : LinearSolver) (coverage : Status) (s : Sketch) : Sketch × Status :=
  Sketch.chain (settled coverage) (if 1 < s.clusters.length then s.relax solver else (s, .solved))

def joinedUp (solver : LinearSolver) (coverage : Status) (rounds : Nat) (s : Sketch) :
    Sketch × Status :=
  Sketch.chain (relaxed solver coverage) (s.joinRounds rounds)

theorem closes_settling (s : Sketch) :
    Closes solver coverage ⟨.settling, s⟩ 2 (settled coverage s) :=
  closes_of_step (closes_closing _ _)

theorem closes_relaxing (s : Sketch) :
    Closes solver coverage ⟨.relaxing, s⟩ 3 (relaxed solver coverage s) := by
  refine closes_of_step ?_
  unfold step relaxed
  dsimp only
  split
  · exact closes_onward (closes_settling (s.relax solver).1) (by omega)
  · exact closes_settling s

theorem closes_joining (rounds : Nat) (s : Sketch) :
    Closes solver coverage ⟨.joining rounds, s⟩ (rounds + 4)
      (joinedUp solver coverage rounds s) := by
  induction rounds generalizing s with
  | zero => exact closes_of_step (closes_relaxing s)
  | succ rounds ih =>
    have hrelaxing : ∀ t : Sketch,
        Closes solver coverage ⟨.relaxing, t⟩ (rounds + 4) (relaxed solver coverage t) :=
      fun t => (closes_relaxing t).mono (by omega)
    rw [Nat.add_right_comm]
    refine closes_of_step ?_
    unfold step joinedUp Sketch.joinRounds
    dsimp only
    split
    · exact hrelaxing s
    · rcases s.joinOnce with ⟨t, outcome⟩
      cases outcome with
      | none => exact hrelaxing t
      | some outcome =>
        cases outcome with
        | joined => exact ih t
        | failed status => exact closes_onward (hrelaxing t) (by omega)

theorem realizeAll_cons (tolerance : Float) (cs : ConstraintTable) (k : Cluster)
    (todo : List Cluster) (t : ElementTable) :
    realizeAll tolerance cs (k :: todo) t =
      let placed := k.placeSteps tolerance cs k.steps t
      let anchored := k.anchor tolerance placed.1
      if placed.2 = .solved then
        if anchored.2 = .solved then realizeAll tolerance cs todo anchored.1 else anchored
      else placed := by
  rw [realizeAll, Cluster.realize]
  rcases k.placeSteps tolerance cs k.steps t with ⟨t, status⟩
  cases status with
  | solved =>
    dsimp only
    rcases k.anchor tolerance t with ⟨t, status⟩
    cases status <;> rfl
  | _ => rfl

theorem closes_realizing (solver : LinearSolver) (coverage : Status) (todo : List Cluster)
    (s : Sketch) :
    Closes solver coverage ⟨.realizing todo, s⟩ (2 * todo.length + s.clusters.length + 5)
      (Sketch.chain (fun t => joinedUp solver coverage t.clusters.length t)
        ({ s with elements := (realizeAll s.tolerance s.constraints todo s.elements).1 },
          (realizeAll s.tolerance s.constraints todo s.elements).2)) := by
  induction todo generalizing s with
  | nil => exact closes_of_step ((closes_joining s.clusters.length s).mono (by simp))
  | cons k todo ih =>
    have hlen : 2 * (k :: todo).length + s.clusters.length + 5 =
        2 * todo.length + s.clusters.length + 5 + 1 + 1 := by
      rw [List.length_cons]
      omega
    rw [hlen, realizeAll_cons]
    simp only [Sketch.tolerance] at ih ⊢
    refine closes_of_step ?_
    dsimp only [step, Sketch.tolerance]
    by_cases hplaced :
        (k.placeSteps s.settings.tolerance s.constraints k.steps s.elements).2 = .solved
    · simp only [hplaced, Status.onward, if_true]
      refine closes_of_step ?_
      dsimp only [step, Sketch.tolerance, Status.onward]
      by_cases hanchored : (k.anchor s.settings.tolerance
          (k.placeSteps s.settings.tolerance s.constraints k.steps s.elements).1).2 = .solved
      · simp only [hanchored, if_true]
        exact ih _
      · simp only [hanchored, if_false]
        exact closes_failed hanchored (by omega) _
    · simp only [hplaced, Status.onward, if_false]
      exact closes_failed hplaced (by omega) _

theorem iterate_closed (status : Status) (s : Sketch) (n : Nat) :
    (step solver coverage)^[n] ⟨.closed status, s⟩ = ⟨.closed status, s⟩ :=
  Function.iterate_fixed rfl n

end Point

namespace Sketch

variable (solver : LinearSolver)

theorem solveBuilt_eq_chain (s : Sketch) :
    s.solveBuilt solver = chain (fun t => Point.joinedUp solver s.coverage t.clusters.length t)
      s.realizeClusters := by
  unfold solveBuilt Point.joinedUp
  rcases s.realizeClusters with ⟨t, status⟩
  cases status with
  | solved =>
    dsimp only [chain, joinClusters, joinAll]
    rcases t.joinRounds t.clusters.length with ⟨u, status⟩
    cases status with
    | solved =>
      dsimp only [Point.relaxed, chain]
      rcases (if 1 < u.clusters.length then u.relax solver else (u, .solved)) with ⟨v, status⟩
      cases status <;> rfl
    | _ => rfl
  | _ => rfl

theorem iterate_step_eq_closed (s : Sketch) :
    (Point.step solver s.coverage)^[3 * s.clusters.length + 5] ⟨.realizing s.clusters, s⟩ =
      ⟨.closed (s.solveBuilt solver).2, (s.solveBuilt solver).1⟩ := by
  obtain ⟨m, hm, hclosed⟩ := Point.closes_realizing solver s.coverage s.clusters s
  have hsteps : 3 * s.clusters.length + 5 = (3 * s.clusters.length + 5 - m) + m := by omega
  rw [hsteps, Function.iterate_add_apply, hclosed, Point.iterate_closed,
    s.solveBuilt_eq_chain solver]
  rfl

theorem points_eq_append (s : Sketch) :
    s.points solver = List.iterate (Point.step solver s.coverage) ⟨.realizing s.clusters, s⟩
      (3 * s.clusters.length + 5) ++
        [⟨.closed (s.solveBuilt solver).2, (s.solveBuilt solver).1⟩] := by
  rw [points, List.iterate_add _ _ (3 * s.clusters.length + 5) 1, iterate_step_eq_closed]
  rfl

theorem getLast?_points (s : Sketch) :
    (s.points solver).getLast? =
      some ⟨.closed (s.solveBuilt solver).2, (s.solveBuilt solver).1⟩ := by
  rw [points_eq_append, List.getLast?_append_of_ne_nil _ (List.cons_ne_nil _ _)]
  rfl

end Sketch

namespace Stage

/-- The clusters that are still to be placed or anchored, while that goes on. -/
def pending? : Stage → Option (List Cluster)
  | realizing todo => some todo
  | anchoring k todo => some (k :: todo)
  | _ => none

theorem pending?_onward {status : Status} {next : Stage} {todo : List Cluster}
    (h : (status.onward next).pending? = some todo) : next.pending? = some todo := by
  unfold Status.onward at h
  split at h
  · exact h
  · cases h

end Stage

namespace Point

/-- The moves of the next step that may take fixed elements along. -/
def moves (solver : LinearSolver) : Point → List (ClusterId × Motion Float)
  | ⟨.joining (_ + 1), s⟩ => if s.clusters.length ≤ 1 then [] else s.roundMoves
  | ⟨.relaxing, s⟩ => if 1 < s.clusters.length then s.relaxMoves solver else []
  | _ => []

/-- The sketch follows the one that was built, and is fresh until its clusters are realized. -/
structure Underway (b : Sketch) (p : Point) : Prop where
  follows : b.Follows p.sketch
  fresh : ∀ todo, p.stage.pending? = some todo →
    p.sketch.Fresh ∧ ∀ k ∈ todo, k ∈ p.sketch.clusters

theorem underway_start {b : Sketch} (h : b.Fresh) : Underway b ⟨.realizing b.clusters, b⟩ := by
  refine ⟨h.decomposed.follows, fun todo htodo => ⟨h, ?_⟩⟩
  cases htodo
  exact fun k hk => hk

theorem changes_step {b : Sketch} (hg : b.Grounded) {p : Point} (h : Underway b p)
    (solver : LinearSolver) (coverage : Status) :
    Sketch.Changes (p.sketch.drag (p.moves solver)) (step solver coverage p).sketch := by
  obtain ⟨stage, s⟩ := p
  have hd := h.follows.decomposed
  have hs := hg.congr h.follows.problem
  cases stage with
  | realizing todo =>
    cases todo with
    | nil => exact .refl
    | cons k todo =>
      obtain ⟨hf, hin⟩ := h.fresh (k :: todo) rfl
      exact (Sketch.realized_placeSteps hf (hin k List.mem_cons_self) fun _ hm => hm).changes
  | anchoring k todo =>
    obtain ⟨hf, hin⟩ := h.fresh (k :: todo) rfl
    exact (Sketch.realized_anchor hf (hin k List.mem_cons_self)).changes
  | joining rounds =>
    cases rounds with
    | zero => exact .refl
    | succ rounds =>
      have hjoin := (Sketch.attempt_joinOnce hs hd).changes
      dsimp only [step, moves]
      split
      · exact .refl
      · rcases hr : s.joinOnce with ⟨t, outcome⟩
        rw [hr] at hjoin
        cases outcome with
        | none => exact hjoin
        | some outcome => cases outcome <;> exact hjoin
  | relaxing =>
    dsimp only [step, moves]
    split
    · exact (Sketch.changes_relax solver hs hd).1
    · exact .refl
  | settling => exact .head (.settle s) (.single (.mark _))
  | closing status =>
    dsimp only [step, moves, Sketch.finish]
    split
    · exact .single (.close s status)
    · exact .head (.mark s) (.single (.close _ status))
  | closed status => exact .refl

theorem Underway.dragged {b : Sketch} {p : Point} (h : Underway b p)
    (moves : List (ClusterId × Motion Float)) : b.Follows (p.sketch.drag moves) :=
  h.follows.trans ((Sketch.moved_drag p.sketch moves).follows h.follows.decomposed)

theorem Underway.step {b : Sketch} (hg : b.Grounded) {p : Point} (h : Underway b p)
    (solver : LinearSolver) (coverage : Status) : Underway b (step solver coverage p) := by
  have hdragged := h.dragged (p.moves solver)
  have hchanges := changes_step hg h solver coverage
  refine ⟨hdragged.trans (Sketch.Changes.follows hchanges (hg.congr hdragged.problem)
    hdragged.decomposed), ?_⟩
  obtain ⟨stage, s⟩ := p
  intro todo htodo
  cases stage with
  | realizing todo' =>
    cases todo' with
    | nil => cases htodo
    | cons k todo' =>
      obtain ⟨hf, hin⟩ := h.fresh (k :: todo') rfl
      have hr := Sketch.realized_placeSteps hf (hin k List.mem_cons_self) fun _ hm => hm
      cases Stage.pending?_onward htodo
      exact ⟨hf.moved hr.moved, hin⟩
  | anchoring k todo' =>
    obtain ⟨hf, hin⟩ := h.fresh (k :: todo') rfl
    have hr := Sketch.realized_anchor hf (hin k List.mem_cons_self)
    cases Stage.pending?_onward htodo
    exact ⟨hf.moved hr.moved, fun l hl => hin l (List.mem_cons_of_mem _ hl)⟩
  | joining rounds =>
    cases rounds with
    | zero => cases htodo
    | succ rounds =>
      dsimp only [Point.step] at htodo
      split at htodo
      · cases htodo
      · split at htodo
        · cases htodo
        · cases Stage.pending?_onward htodo
        · cases htodo
  | relaxing =>
    dsimp only [Point.step] at htodo
    split at htodo
    · cases Stage.pending?_onward htodo
    · cases htodo
  | settling => cases htodo
  | closing status => cases htodo
  | closed status => cases htodo

theorem underway_iterate {b : Sketch} (hg : b.Grounded) (h : b.Fresh) (solver : LinearSolver)
    (coverage : Status) (n : Nat) :
    Underway b ((step solver coverage)^[n] ⟨.realizing b.clusters, b⟩) := by
  induction n with
  | zero => exact underway_start h
  | succ n ih =>
    rw [Function.iterate_succ_apply']
    exact ih.step hg solver coverage

end Point

namespace Sketch

theorem follows_of_mem_points {solver : LinearSolver} {b : Sketch} (hg : b.Grounded)
    (h : b.Fresh) {p : Point} (hp : p ∈ b.points solver) : Follows b p.sketch := by
  obtain ⟨n, _, rfl⟩ := List.mem_iterate.mp hp
  exact (Point.underway_iterate hg h solver b.coverage n).follows

theorem follows_solveBuilt {b : Sketch} (hg : b.Grounded) (h : b.Fresh) (solver : LinearSolver) :
    Follows b (b.solveBuilt solver).1 := by
  have hlast := List.mem_of_getLast? (getLast?_points solver b)
  exact follows_of_mem_points hg h hlast

/-- What every step of a solve keeps holds at all its points. -/
theorem points_induction {solver : LinearSolver} {b : Sketch} (hg : b.Grounded) (hf : b.Fresh)
    {P : Sketch → Prop} (hstart : P b)
    (hstep : ∀ p, Point.Underway b p → P p.sketch → P (Point.step solver b.coverage p).sketch)
    {p : Point} (hp : p ∈ b.points solver) : P p.sketch := by
  have hall : ∀ n, P ((Point.step solver b.coverage)^[n] ⟨.realizing b.clusters, b⟩).sketch := by
    intro n
    induction n with
    | zero => exact hstart
    | succ n ih =>
      rw [Function.iterate_succ_apply']
      exact hstep _ (Point.underway_iterate hg hf solver b.coverage n) ih
  obtain ⟨n, _, rfl⟩ := List.mem_iterate.mp hp
  exact hall n

theorem solveBuilt_induction {solver : LinearSolver} {b : Sketch} (hg : b.Grounded)
    (hf : b.Fresh) {P : Sketch → Prop} (hstart : P b)
    (hstep : ∀ p, Point.Underway b p → P p.sketch → P (Point.step solver b.coverage p).sketch) :
    P (b.solveBuilt solver).1 := by
  have hlast := List.mem_of_getLast? (getLast?_points solver b)
  exact points_induction hg hf hstart hstep hlast

end Sketch

end RigidSketch
