import RigidSketch.Proofs.Feasibility

/-! The attempts that one round of joining makes. An attempt without an outcome leaves the sketch
as it was, so that every attempt of a round is made on the same sketch and the round comes to
the first of them that has an outcome. -/

namespace RigidSketch

open LeastSquares (LinearSolver solveLinear)

namespace Sketch

/-- An attempt at joining clusters, by one of the four patterns. -/
inductive Join where
  | sharing (p : Cluster × Cluster)
  | hinged (h : Hinge)
  | closing (t : Triangle)
  | linked (l : Linkage)

def Join.attempt : Join → Sketch → Sketch × Option JoinOutcome
  | sharing p => joinPair p
  | hinged h => joinHinged h
  | closing t => joinTriangle t
  | linked l => joinLinked l

def hingedJoins (s : Sketch) : List Hinge :=
  (pairs s.clusters).flatMap fun p => s.hinges p.1 p.2

def closingJoins (s : Sketch) : List Triangle :=
  (triples s.clusters).filterMap fun p => s.triangle? p.1 p.2.1 p.2.2

def linkedJoins (s : Sketch) : List Linkage :=
  (pairs s.clusters).filterMap fun p => s.linkage? p.1 p.2

/-- All attempts of a round, in their order. -/
def joins (s : Sketch) : List Join :=
  s.sharingPairs.map .sharing ++
    (s.hingedJoins.map .hinged ++ (s.closingJoins.map .closing ++ s.linkedJoins.map .linked))

/-- Where an attempt of a round comes from. -/
inductive Arises (s : Sketch) : Join → Prop
  | sharing {p : Cluster × Cluster} (hp : p ∈ pairs s.clusters)
      (hshared : 2 ≤ (p.1.shared p.2).length) : Arises s (.sharing p)
  | hinged {k l : Cluster} (hp : (k, l) ∈ pairs s.clusters) {h : Hinge}
      (hh : h ∈ s.hinges k l) : Arises s (.hinged h)
  | closing {i j k : Cluster} (hp : (i, j, k) ∈ triples s.clusters) {t : Triangle}
      (ht : s.triangle? i j k = some t) : Arises s (.closing t)
  | linked {i j : Cluster} (hp : (i, j) ∈ pairs s.clusters) {l : Linkage}
      (hl : s.linkage? i j = some l) : Arises s (.linked l)

theorem arises_of_mem_joins {s : Sketch} {j : Join} (h : j ∈ s.joins) : s.Arises j := by
  simp only [joins, List.mem_append, List.mem_map] at h
  rcases h with ⟨p, hp, rfl⟩ | ⟨h, hh, rfl⟩ | ⟨t, ht, rfl⟩ | ⟨l, hl, rfl⟩
  · obtain ⟨hp, hshared⟩ := List.mem_filter.mp hp
    exact .sharing hp (by simpa using hshared)
  · obtain ⟨p, hp, hh⟩ := List.mem_flatMap.mp hh
    exact .hinged hp hh
  · obtain ⟨p, hp, ht⟩ := List.mem_filterMap.mp ht
    exact .closing hp ht
  · obtain ⟨p, hp, hl⟩ := List.mem_filterMap.mp hl
    exact .linked hp hl

/-- The first attempt on a sketch that has an outcome. -/
def firstOn {α : Type} (attempt : α → Sketch → Sketch × Option JoinOutcome) (xs : List α)
    (s : Sketch) : Sketch × Option JoinOutcome :=
  match xs.find? fun a => (attempt a s).2.isSome with
  | some a => attempt a s
  | none => (s, none)

section

variable {α : Type} {attempt : α → Sketch → Sketch × Option JoinOutcome} {s : Sketch}

theorem firstOutcome_eq_firstOn {xs : List α}
    (h : ∀ a ∈ xs, (attempt a s).2 = none → (attempt a s).1 = s) :
    firstOutcome attempt xs s = firstOn attempt xs s := by
  induction xs with
  | nil => rfl
  | cons a xs ih =>
    have ha := h a List.mem_cons_self
    have hrest := ih fun b hb => h b (List.mem_cons_of_mem _ hb)
    unfold firstOutcome firstOn
    rcases hr : attempt a s with ⟨t, outcome⟩
    rw [hr] at ha
    cases outcome with
    | none =>
      obtain rfl : t = s := ha rfl
      rw [List.find?_cons_of_neg (by simp [hr])]
      exact hrest
    | some outcome =>
      rw [List.find?_cons_of_pos (by simp [hr])]
      exact hr.symm

theorem firstOn_nil : firstOn attempt [] s = (s, none) := rfl

theorem firstOn_cons (a : α) (xs : List α) :
    firstOn attempt (a :: xs) s =
      if (attempt a s).2.isSome then attempt a s else firstOn attempt xs s := by
  unfold firstOn
  cases ha : (attempt a s).2.isSome with
  | true => simp [ha]
  | false => simp [ha]

theorem firstOn_map {β : Type} (f : β → α) (xs : List β) :
    firstOn attempt (xs.map f) s = firstOn (fun b => attempt (f b)) xs s := by
  induction xs with
  | nil => rfl
  | cons b xs ih => rw [List.map_cons, firstOn_cons, firstOn_cons, ih]

theorem firstOn_append (xs ys : List α) :
    firstOn attempt (xs ++ ys) s =
      if (firstOn attempt xs s).2.isSome then firstOn attempt xs s
      else firstOn attempt ys s := by
  induction xs with
  | nil => rfl
  | cons a xs ih =>
    rw [List.cons_append, firstOn_cons, firstOn_cons, ih]
    cases ha : (attempt a s).2.isSome with
    | true => simp [ha]
    | false => rfl

theorem firstOn_cases (attempt : α → Sketch → Sketch × Option JoinOutcome) (xs : List α)
    (s : Sketch) :
    (∃ a ∈ xs, (attempt a s).2.isSome ∧ firstOn attempt xs s = attempt a s) ∨
      firstOn attempt xs s = (s, none) := by
  unfold firstOn
  cases ha : xs.find? fun a => (attempt a s).2.isSome with
  | some a =>
    have hsome : (attempt a s).2.isSome = true := by simpa using List.find?_some ha
    exact Or.inl ⟨a, List.mem_of_find?_eq_some ha, hsome, rfl⟩
  | none => exact Or.inr rfl

theorem firstOn_eq_of_none {xs : List α} (h : (firstOn attempt xs s).2 = none) :
    firstOn attempt xs s = (s, none) := by
  rcases firstOn_cases attempt xs s with ⟨a, _, hsome, heq⟩ | heq
  · rw [← heq, h] at hsome
    cases hsome
  · exact heq

end

theorem Supplied.unchanged_attempt {s : Sketch} (h : Supplied s) (hd : Decomposed s) {j : Join}
    (hj : s.Arises j) (hnone : (j.attempt s).2 = none) : (j.attempt s).1 = s := by
  cases hj with
  | @sharing p hp _ =>
    have hattempt := attempt_joinPair hd hp
    change (joinPair p s).1 = s
    change (joinPair p s).2 = none at hnone
    revert hattempt
    cases s.pairMotion p with
    | ok move => exact fun ha => absurd hnone ha.2
    | error e =>
      cases e with
      | mismatch => exact fun heq => by simp [heq] at hnone
      | degenerate => exact fun heq => by rw [heq]
  | hinged hp hh => exact (h.decides_joinHinged hp hh).2.unchanged hnone
  | closing hp ht => exact (h.decides_joinTriangle hp ht).2.unchanged hnone
  | linked hp hl => exact absurd hnone (Option.isSome_iff_ne_none.mp (h.joinLinked_isSome hp hl))

/-- The attempts of a round are made on one and the same sketch. -/
theorem Supplied.joinOnce_eq {s : Sketch} (h : Supplied s) (hd : Decomposed s) :
    s.joinOnce = firstOn Join.attempt s.joins s := by
  have hunchanged : ∀ j ∈ s.joins, (j.attempt s).2 = none → (j.attempt s).1 = s :=
    fun j hj => h.unchanged_attempt hd (arises_of_mem_joins hj)
  have hpart : ∀ {β : Type} (f : β → Join) (xs : List β), (∀ x ∈ xs, f x ∈ s.joins) →
      firstOutcome (fun x => (f x).attempt) xs s = firstOn Join.attempt (xs.map f) s := by
    intro β f xs hxs
    rw [firstOn_map, firstOutcome_eq_firstOn fun x hx => hunchanged (f x) (hxs x hx)]
  have h₁ : s.trySharedPair = firstOn Join.attempt (s.sharingPairs.map .sharing) s :=
    hpart .sharing s.sharingPairs fun p hp => by simp [joins, hp]
  have h₂ : s.trySharedOne = firstOn Join.attempt (s.hingedJoins.map .hinged) s :=
    hpart .hinged s.hingedJoins fun h hh => by simp [joins, hh]
  have h₃ : s.tryTriangle = firstOn Join.attempt (s.closingJoins.map .closing) s :=
    hpart .closing s.closingJoins fun t ht => by simp [joins, ht]
  have h₄ : s.tryLinked = firstOn Join.attempt (s.linkedJoins.map .linked) s :=
    hpart .linked s.linkedJoins fun l hl => by simp [joins, hl]
  have hpatterns : ∀ t ∈ [trySharedPair, trySharedOne, tryTriangle, tryLinked],
      ∃ xs, t s = firstOn Join.attempt xs s := by
    simp only [List.forall_mem_cons]
    exact ⟨⟨_, h₁⟩, ⟨_, h₂⟩, ⟨_, h₃⟩, ⟨_, h₄⟩, nofun⟩
  have hkept : ∀ t ∈ [trySharedPair, trySharedOne, tryTriangle, tryLinked],
      (t s).2 = none → (t s).1 = s := by
    intro t ht hn
    obtain ⟨xs, hxs⟩ := hpatterns t ht
    rw [hxs] at hn ⊢
    rw [firstOn_eq_of_none hn]
  have hlast : ∀ xs, (if (firstOn Join.attempt xs s).2.isSome then firstOn Join.attempt xs s
      else (s, none)) = firstOn Join.attempt xs s := by
    intro xs
    split
    · rfl
    · rename_i hn
      exact (firstOn_eq_of_none (by simpa using hn)).symm
  rw [joinOnce, firstOutcome_eq_firstOn hkept]
  simp only [joins, firstOn_cons, firstOn_append, firstOn_nil, h₁, h₂, h₃, h₄, hlast]

/-- A solve that has come to this point tries every pattern on the sketch as it is here. -/
structure Tries (s : Sketch) : Prop where
  unchanged : ∀ j ∈ s.joins, (j.attempt s).2 = none → (j.attempt s).1 = s
  round : s.joinOnce = firstOn Join.attempt s.joins s
  stalled : s.joinOnce.2 = none → s.joinOnce.1 = s

theorem Supplied.tries {s : Sketch} (h : Supplied s) (hd : Decomposed s) : s.Tries := by
  refine ⟨fun j hj => h.unchanged_attempt hd (arises_of_mem_joins hj), h.joinOnce_eq hd, ?_⟩
  rw [h.joinOnce_eq hd]
  intro hn
  rw [firstOn_eq_of_none hn]

/-- What the sketch has at every point of a solve. -/
structure Underpinned (s : Sketch) : Prop where
  grounded : Grounded s
  decomposed : Decomposed s
  supplied : Supplied s

theorem Reachable.underpinned {s : Sketch} (hs : Reachable s) (hn : s.isSettled = false)
    {solver : LinearSolver} {p : Point} (hp : p ∈ s.prepared.points solver) :
    p.sketch.Underpinned := by
  obtain ⟨hg, hf⟩ := hs.sound.prepared hn
  obtain ⟨t, ht, _, _, heq⟩ := hs.prepared_eq_build hn
  have hposed : Posed s.prepared := heq ▸ (ht.call solver .build).posed
  have hfollows := follows_of_mem_points hg hf hp
  have hground := hg.congr hfollows.problem
  have hnow := hposed.congr (akin_of_mem_points hg hf hposed.uniform hp)
    hfollows.problem.constraints
  exact ⟨hground, hfollows.decomposed, hfollows.decomposed.supplied hground hnow⟩

/-- At no point of a solve does an attempt without an outcome leave a trace, and neither does a
round in which no pattern applies. -/
theorem Reachable.tries_throughout {s : Sketch} (hs : Reachable s) (hn : s.isSettled = false)
    (solver : LinearSolver) :
    (∀ p ∈ s.prepared.points solver, p.sketch.Tries) ∧
      (s.prepared.points solver).getLast? =
        some ⟨.closed (s.solve solver).2, (s.solve solver).1⟩ := by
  refine ⟨fun p hp => ?_, getLast?_points_prepared hn solver⟩
  obtain ⟨_, hd, hsupplied⟩ := hs.underpinned hn hp
  exact hsupplied.tries hd

/-- The angles between lines give a round attempts, and none of them has an outcome. -/
theorem tries_fan :
    ((Call.runAll solveLinear Call.fan {}).build.joins.map fun j =>
      (j.attempt (Call.runAll solveLinear Call.fan {}).build).2) = [none] ∧
    ∀ p ∈ (Call.runAll solveLinear Call.fan {}).prepared.points solveLinear, p.sketch.Tries := by
  have hs := (Reachable.new {}).runAll solveLinear Call.fan
  have hn : (Call.runAll solveLinear Call.fan {}).isSettled = false := by decide +kernel
  exact ⟨by decide +kernel, (Reachable.tries_throughout hs hn solveLinear).1⟩

end Sketch

end RigidSketch
