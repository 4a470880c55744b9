import Mathlib.Data.Nat.Find
import Mathlib.Logic.Function.Iterate
import Mathlib.Tactic.SplitIfs
import RigidSketch.LeastSquares.Descent

/-! The descent as a machine that takes one step for every round it begins and for every damping
it tries. How often the machine raises the damping has no bound. -/

namespace RigidSketch.LeastSquares

inductive Standing where
  | round (rounds : Nat) (x : Array Float) (damping : Float)
  | trying (rounds : Nat) (x : Array Float) (damping : Float)
  | ended (result : Except DescentError (Array Float))

/-- There are as many variables as the system has, also in the result. -/
def Standing.Sized (n : Nat) : Standing → Prop
  | .round _ x _ | .trying _ x _ => x.size = n
  | .ended r => ∀ x, r = .ok x → x.size = n

/-- The damping after some raises. -/
def raised (k : Nat) (damping : Float) : Float := (· * 10)^[k] damping

namespace System

variable (sys : System Float) (solver : LinearSolver) (settings : Settings)

/-- The answer of a descent that goes no further. -/
def answer (x : Array Float) : Except DescentError (Array Float) :=
  if sys.isSolution settings x then .ok x else .error .unconverged

def cost (x : Array Float) : Float := halfSumSq (sys.residuals x)

/-- The step that the normal equations give at some damping. -/
def stepAt (x : Array Float) (damping : Float) : Array Float :=
  solver x.size (damp damping (normalEquations x.size (sys.evaluateAll x)))

/-- A try at some damping. There is no outcome if the damping is to be raised. -/
def tryAt (x : Array Float) (damping : Float) : Option Search :=
  if damping ≤ maxDamping then
    let d := sys.stepAt solver x damping
    if d.any fun v => !v.isFinite then some .singular
    else if sys.cost (addStep x d) < sys.cost x then some (.accepted d damping)
    else none
  else some .rejected

/-- Where a descent stands once a search is over. -/
def resolve (rounds : Nat) (x : Array Float) : Search → Standing
  | .accepted d damping =>
    let y := addStep x d
    let tol := settings.stepTolerance
    if largest d.toList ≤ tol * (largest x.toList + tol) then .ended (sys.answer settings y)
    else .round rounds y (Scalar.larger (damping / 10) minDamping)
  | .rejected => .ended (.error .unconverged)
  | .singular => .ended (.error .singular)
  | .unfinished => .ended (.error .unfinished)

/-- One step of a descent: a round is begun, or a step is tried at some damping. -/
def advance : Standing → Standing
  | .round 0 x _ => .ended (sys.answer settings x)
  | .round (rounds + 1) x damping =>
    if sys.isSolution settings x then .ended (.ok x) else .trying rounds x damping
  | .trying rounds x damping =>
    match sys.tryAt solver x damping with
    | some r => sys.resolve settings rounds x r
    | none => .trying rounds x (damping * 10)
  | .ended r => .ended r

def start : Standing :=
  if sys.initial.isEmpty then .ended (sys.answer settings sys.initial)
  else if sys.equations.isEmpty then .ended (.error .emptySystem)
  else .round settings.maxIterations sys.initial settings.initialDamping

def searchFrom (x : Array Float) (raises : Nat) (damping : Float) : Search :=
  search sys solver x (normalEquations x.size (sys.evaluateAll x)) (sys.cost x) raises damping

/-- The machine ends with a result after so many steps at the most. -/
def EndsWithin (n : Nat) (p : Standing) (r : Except DescentError (Array Float)) : Prop :=
  ∃ m ≤ n, (sys.advance solver settings)^[m] p = .ended r

variable {sys solver settings} {rounds : Nat} {x : Array Float} {damping : Float}

theorem searchFrom_succ (raises : Nat) :
    sys.searchFrom solver x (raises + 1) damping =
      (sys.tryAt solver x damping).getD (sys.searchFrom solver x raises (damping * 10)) := by
  change (if damping ≤ maxDamping then
      if (sys.stepAt solver x damping).any fun v => !v.isFinite then Search.singular
      else if sys.cost (addStep x (sys.stepAt solver x damping)) < sys.cost x then
        .accepted (sys.stepAt solver x damping) damping
      else sys.searchFrom solver x raises (damping * 10) else .rejected) = _
  unfold tryAt
  dsimp only
  split_ifs <;> rfl

theorem tryAt_ne_unfinished : sys.tryAt solver x damping ≠ some .unfinished := by
  unfold tryAt
  dsimp only
  split_ifs <;> exact nofun

theorem searchFrom_eq_unfinished_iff {raises : Nat} :
    sys.searchFrom solver x raises damping = .unfinished ↔
      ∀ k < raises, sys.tryAt solver x (raised k damping) = none := by
  induction raises generalizing damping with
  | zero => exact ⟨fun _ k hk => absurd hk (Nat.not_lt_zero k), fun _ => rfl⟩
  | succ raises ih =>
    rw [searchFrom_succ, Nat.forall_lt_succ_left]
    change _ ↔ sys.tryAt solver x damping = none ∧
      ∀ k < raises, sys.tryAt solver x (raised k (damping * 10)) = none
    cases htry : sys.tryAt solver x damping with
    | none => simpa using ih
    | some r =>
      have hne : r ≠ .unfinished := fun heq => tryAt_ne_unfinished (heq ▸ htry)
      simpa using hne

theorem advance_iterate_trying {k : Nat}
    (h : ∀ j < k, sys.tryAt solver x (raised j damping) = none) :
    (sys.advance solver settings)^[k] (.trying rounds x damping) =
      .trying rounds x (raised k damping) := by
  induction k generalizing damping with
  | zero => rfl
  | succ k ih =>
    have hfirst : sys.advance solver settings (.trying rounds x damping) =
        .trying rounds x (damping * 10) := by
      have htry : sys.tryAt solver x damping = none := h 0 (Nat.succ_pos k)
      simp [advance, htry]
    rw [Function.iterate_succ_apply, hfirst]
    exact ih fun j hj => h (j + 1) (Nat.succ_lt_succ hj)

theorem searchFrom_eq_of_tryAt {k raises : Nat} {r : Search}
    (h : ∀ j < k, sys.tryAt solver x (raised j damping) = none)
    (hr : sys.tryAt solver x (raised k damping) = some r) (hk : k < raises) :
    sys.searchFrom solver x raises damping = r := by
  induction k generalizing damping raises with
  | zero =>
    obtain ⟨raises, rfl⟩ := Nat.exists_eq_succ_of_ne_zero (Nat.ne_of_gt hk)
    have htry : sys.tryAt solver x damping = some r := hr
    rw [searchFrom_succ, htry]
    rfl
  | succ k ih =>
    obtain ⟨raises, rfl⟩ := Nat.exists_eq_succ_of_ne_zero (Nat.ne_of_gt (Nat.zero_lt_of_lt hk))
    have htry : sys.tryAt solver x damping = none := h 0 (Nat.succ_pos k)
    rw [searchFrom_succ, htry]
    exact ih (fun j hj => h (j + 1) (Nat.succ_lt_succ hj)) hr (Nat.lt_of_succ_lt_succ hk)

/-- The machine comes to the end of a search as soon as a try has an outcome. -/
theorem exists_advance_iterate_eq_resolve {b raises : Nat} (hb : b ≤ raises)
    (h : ∃ k < b, sys.tryAt solver x (raised k damping) ≠ none) :
    ∃ m ≤ b, (sys.advance solver settings)^[m] (.trying rounds x damping) =
      sys.resolve settings rounds x (sys.searchFrom solver x raises damping) := by
  classical
  have hbefore : ∀ j < Nat.find h, sys.tryAt solver x (raised j damping) = none := by
    intro j hj
    have hnot := Nat.find_min h hj
    by_contra hne
    exact hnot ⟨Nat.lt_trans hj (Nat.find_spec h).1, hne⟩
  obtain ⟨hlt, hne⟩ := Nat.find_spec h
  obtain ⟨r, hr⟩ := Option.ne_none_iff_exists'.mp hne
  refine ⟨Nat.find h + 1, hlt, ?_⟩
  rw [Function.iterate_succ_apply', advance_iterate_trying hbefore,
    searchFrom_eq_of_tryAt hbefore hr (Nat.lt_of_lt_of_le hlt hb)]
  simp [advance, hr]

theorem endsWithin_ended (n : Nat) (r : Except DescentError (Array Float)) :
    sys.EndsWithin solver settings n (.ended r) r := ⟨0, Nat.zero_le n, rfl⟩

theorem EndsWithin.of_iterate {m n : Nat} {p q : Standing} {r : Except DescentError (Array Float)}
    (hp : (sys.advance solver settings)^[m] p = q) (h : sys.EndsWithin solver settings n q r) :
    sys.EndsWithin solver settings (m + n) p r := by
  obtain ⟨k, hk, hr⟩ := h
  refine ⟨k + m, by omega, ?_⟩
  rw [Function.iterate_add_apply, hp, hr]

theorem EndsWithin.mono {m n : Nat} {p : Standing} {r : Except DescentError (Array Float)}
    (h : sys.EndsWithin solver settings m p r) (hmn : m ≤ n) :
    sys.EndsWithin solver settings n p r := by
  obtain ⟨k, hk, hr⟩ := h
  exact ⟨k, Nat.le_trans hk hmn, hr⟩

/-- What the recursion makes of the outcome of a search. -/
def afterSearch (sys : System Float) (solver : LinearSolver) (settings : Settings) (rounds : Nat)
    (x : Array Float) : Search → Except DescentError (Array Float)
  | .accepted d damping =>
    let y := addStep x d
    let tol := settings.stepTolerance
    if largest d.toList ≤ tol * (largest x.toList + tol) then sys.answer settings y
    else descend sys solver settings rounds y (Scalar.larger (damping / 10) minDamping)
  | .rejected => .error .unconverged
  | .singular => .error .singular
  | .unfinished => .error .unfinished

theorem descend_succ :
    descend sys solver settings (rounds + 1) x damping =
      if sys.isSolution settings x then .ok x
      else sys.afterSearch solver settings rounds x
        (sys.searchFrom solver x maxRaises damping) := by
  unfold descend
  split
  · rfl
  · unfold searchFrom cost residuals
    dsimp only
    split
    all_goals
      rename_i hs
      rw [hs]
      rfl

theorem endsWithin_resolve {n : Nat}
    (h : ∀ y damping, sys.EndsWithin solver settings n
      (.round rounds y (Scalar.larger (damping / 10) minDamping))
      (descend sys solver settings rounds y (Scalar.larger (damping / 10) minDamping)))
    (x : Array Float) (r : Search) :
    sys.EndsWithin solver settings n (sys.resolve settings rounds x r)
      (sys.afterSearch solver settings rounds x r) := by
  cases r with
  | accepted d damping =>
    unfold resolve afterSearch
    dsimp only
    split
    · exact endsWithin_ended n _
    · exact h _ damping
  | rejected => exact endsWithin_ended n _
  | singular => exact endsWithin_ended n _
  | unfinished => exact endsWithin_ended n _

/-- A round is over after so many tries, one of which has an outcome. -/
theorem endsWithin_round_succ {b n : Nat} (hb : b ≤ maxRaises)
    (htry : sys.isSolution settings x = false →
      ∃ k < b, sys.tryAt solver x (raised k damping) ≠ none)
    (h : ∀ y damping, sys.EndsWithin solver settings n
      (.round rounds y (Scalar.larger (damping / 10) minDamping))
      (descend sys solver settings rounds y (Scalar.larger (damping / 10) minDamping))) :
    sys.EndsWithin solver settings (1 + (b + n)) (.round (rounds + 1) x damping)
      (descend sys solver settings (rounds + 1) x damping) := by
  rw [descend_succ]
  cases hx : sys.isSolution settings x with
  | true => exact ⟨1, by omega, by simp [advance, hx]⟩
  | false =>
    have hsearch : ∃ m ≤ b, (sys.advance solver settings)^[m] (.trying rounds x damping) =
        sys.resolve settings rounds x (sys.searchFrom solver x maxRaises damping) :=
      exists_advance_iterate_eq_resolve hb (htry hx)
    obtain ⟨m, hm, hresolve⟩ := hsearch
    have hround : (sys.advance solver settings)^[1] (.round (rounds + 1) x damping) =
        .trying rounds x damping := by
      simp [advance, hx]
    refine .of_iterate hround (.mono (.of_iterate hresolve ?_) (Nat.add_le_add_right hm n))
    exact endsWithin_resolve h x _

theorem endsWithin_round_zero :
    sys.EndsWithin solver settings 1 (.round 0 x damping)
      (descend sys solver settings 0 x damping) :=
  ⟨1, le_rfl, rfl⟩

theorem sized_answer {n : Nat} (hx : x.size = n) :
    Standing.Sized n (.ended (sys.answer settings x)) := by
  unfold answer
  split
  · rintro _ ⟨⟩
    exact hx
  · exact nofun

theorem size_addStep (x d : Array Float) : (addStep x d).size = x.size := by
  simp [addStep]

theorem sized_resolve {n : Nat} (hx : x.size = n) (r : Search) :
    (sys.resolve settings rounds x r).Sized n := by
  cases r with
  | accepted d damping =>
    have hy : (addStep x d).size = n := (size_addStep x d).trans hx
    unfold resolve
    dsimp only
    split
    · exact sized_answer hy
    · exact hy
  | rejected => exact nofun
  | singular => exact nofun
  | unfinished => exact nofun

theorem Standing.Sized.advance {n : Nat} {p : Standing} (h : p.Sized n) :
    (sys.advance solver settings p).Sized n := by
  cases p with
  | round rounds x damping =>
    cases rounds with
    | zero => exact sized_answer h
    | succ rounds =>
      unfold System.advance
      dsimp only
      split
      · rintro _ ⟨⟩
        exact h
      · exact h
  | trying rounds x damping =>
    unfold System.advance
    dsimp only
    split
    · exact sized_resolve h _
    · exact h
  | ended r => exact h

theorem sized_start : (sys.start settings).Sized sys.initial.size := by
  unfold start
  split_ifs
  · exact sized_answer rfl
  · exact nofun
  · rfl

theorem sized_iterate_start (m : Nat) :
    ((sys.advance solver settings)^[m] (sys.start settings)).Sized sys.initial.size := by
  induction m with
  | zero => exact sized_start
  | succ m ih =>
    rw [Function.iterate_succ_apply']
    exact Standing.Sized.advance ih

end System

end RigidSketch.LeastSquares
