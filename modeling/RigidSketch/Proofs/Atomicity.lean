import RigidSketch.Proofs.Session

/-! Calls as procedures that write to a sketch piece by piece and may be refused on the way.
Every refusal comes before the first write. After a solve nothing is left to do, so that further
solves repeat its answer until an edit succeeds. -/

namespace RigidSketch

open LeastSquares (LinearSolver solveLinear)

inductive Reply where
  | element (e : ElementId)
  | constraint (c : ConstraintId)
  | status (status : Status)
  | done
deriving DecidableEq

namespace Call

/-- What a procedure has written stays written if it is refused afterwards. -/
abbrev Procedure := ExceptT EditError (StateM Sketch)

namespace Procedure

def element (e : ElementId) : Procedure Element := do
  MonadExcept.ofExcept ((← get).getElement e)

def checkValue (kind : RelationKind) (value : Float) : Procedure Unit :=
  MonadExcept.ofExcept (Sketch.checkValue kind value)

def touch : Procedure Unit := modify ({ · with edited := true })

def addShape (shape : Shape Float) (fixed : Bool) : Procedure Reply := do
  touch
  let id : ElementId := ⟨(← get).elements.next⟩
  modify fun s => { s with elements := (s.elements.insert shape fixed).1 }
  return .element id

def addLine (fixed : Bool) (a b c : Float) : Procedure Reply := do
  match Line.ofCoefficients? a b c with
  | some l => addShape (.line l) fixed
  | none => throw (.degenerateLine a b c)

def constrain (kind : RelationKind) (first second : ElementId) (value : Float) :
    Procedure Reply := do
  if first = second then throw (.selfConstraint first)
  let g := (← element first).shape.kind
  let h := (← element second).shape.kind
  if !kind.accepts g h then throw (.mismatchedShapes kind g h)
  checkValue kind value
  touch
  let id : ConstraintId := ⟨(← get).constraints.next⟩
  modify fun s => { s with constraints := (s.constraints.insert kind first second value).1 }
  return .constraint id

def setValue (id : ConstraintId) (value : Float) : Procedure Reply := do
  match (← get).constraints.get? id with
  | none => throw (.unknownConstraint id)
  | some c =>
    checkValue c.kind value
    modify fun s => { s with constraints := s.constraints.modify id ({ · with value }) }
    touch
    return .done

def combine (keep remove : ElementId) : Procedure Reply := do
  if keep = remove then return .element keep
  let kept ← element keep
  let removed ← element remove
  match kept.shape, removed.shape with
  | .point p, .point q =>
    if kept.fixed && removed.fixed && decide ((← get).tolerance < p.distance q) then
      throw (.fixedPointsDisagree keep remove)
    if removed.fixed && !kept.fixed then
      modify fun s => { s with
        elements := s.elements.modify keep ({ · with shape := .point q, fixed := true }) }
    modify fun s => { s with constraints := s.constraints.redirect remove keep }
    modify fun s => { s with elements := s.elements.erase remove }
    touch
    return .element keep
  | .line _, _ => throw (.notAPoint keep)
  | _, .line _ => throw (.notAPoint remove)

theorem run_bind {α β : Type} (p : Procedure α) (f : α → Procedure β) (s : Sketch) :
    (p >>= f).run.run s =
      match p.run.run s with
      | (.ok a, t) => (f a).run.run t
      | (.error e, t) => (.error e, t) := by
  rw [ExceptT.run_bind, StateT.run_bind]
  rcases p.run.run s with ⟨r, t⟩
  cases r <;> rfl

theorem run_ofExcept {α : Type} (r : Except EditError α) (s : Sketch) :
    (MonadExcept.ofExcept r : Procedure α).run.run s = (r, s) := by
  cases r <;> rfl

theorem run_element (e : ElementId) (s : Sketch) :
    (element e).run.run s = (s.getElement e, s) :=
  run_ofExcept _ s

end Procedure

def procedure (solver : LinearSolver) : Call → Procedure Reply
  | addPoint fixed x y => .addShape (.point ⟨x, y⟩) fixed
  | addLine fixed a b c => .addLine fixed a b c
  | constrain kind first second value => .constrain kind first second value
  | setValue id value => .setValue id value
  | combine keep remove => .combine keep remove
  | reset => do modify (·.reset); return .done
  | build => do modify (·.build); return .done
  | solve => do return .status (← modifyGet fun s => ((s.solve solver).2, (s.solve solver).1))

/-- What a call answers, and the sketch that it leaves behind. -/
def perform (solver : LinearSolver) (c : Call) (s : Sketch) : Except EditError Reply × Sketch :=
  (c.procedure solver).run.run s

/-- What a call answers. -/
def reply (solver : LinearSolver) : Call → Sketch → Except EditError Reply
  | addPoint fixed x y, s => .ok (.element (s.addPoint fixed x y).2)
  | addLine fixed a b c, s => (s.addLine fixed a b c).map fun r => .element r.2
  | constrain kind first second value, s =>
    (s.constrain kind first second value).map fun r => .constraint r.2
  | setValue id value, s => (s.setValue id value).map fun _ => .done
  | combine keep remove, s => (s.combine keep remove).map fun _ => .element keep
  | reset, _ | build, _ => .ok .done
  | solve, s => .ok (.status (s.solve solver).2)

variable {solver : LinearSolver}

theorem perform_addLine (fixed : Bool) (a b c : Float) (s : Sketch) :
    (addLine fixed a b c).perform solver s =
      ((addLine fixed a b c).reply solver s, (addLine fixed a b c).run solver s) := by
  dsimp only [perform, procedure, Procedure.addLine, reply, run, Sketch.addLine]
  cases Line.ofCoefficients? a b c <;> rfl

theorem perform_constrain (kind : RelationKind) (first second : ElementId) (value : Float)
    (s : Sketch) : (constrain kind first second value).perform solver s =
      ((constrain kind first second value).reply solver s,
        (constrain kind first second value).run solver s) := by
  dsimp only [perform, procedure, Procedure.constrain, reply, run, Sketch.constrain]
  by_cases hself : first = second
  · simp only [hself, if_true]
    rfl
  simp only [hself, if_false]
  rw [Procedure.run_bind, Procedure.run_element]
  cases s.getElement first with
  | error e => rfl
  | ok x =>
    dsimp only
    rw [Procedure.run_bind, Procedure.run_element]
    cases s.getElement second with
    | error e => rfl
    | ok y =>
      dsimp only [bind, Except.bind]
      cases kind.accepts x.shape.kind y.shape.kind with
      | false => rfl
      | true =>
        unfold Procedure.checkValue
        cases Sketch.checkValue kind value <;> rfl

theorem perform_setValue (id : ConstraintId) (value : Float) (s : Sketch) :
    (setValue id value).perform solver s =
      ((setValue id value).reply solver s, (setValue id value).run solver s) := by
  dsimp only [perform, procedure, Procedure.setValue, reply, run, Sketch.setValue]
  rw [Procedure.run_bind]
  have hget : (get : Procedure Sketch).run.run s = (.ok s, s) := rfl
  rw [hget]
  dsimp only
  cases s.constraints.get? id with
  | none => rfl
  | some c =>
    dsimp only
    unfold Procedure.checkValue
    cases Sketch.checkValue c.kind value <;> rfl

theorem perform_combine (keep remove : ElementId) (s : Sketch) :
    (combine keep remove).perform solver s =
      ((combine keep remove).reply solver s, (combine keep remove).run solver s) := by
  dsimp only [perform, procedure, Procedure.combine, reply, run, Sketch.combine]
  by_cases hsame : keep = remove
  · simp only [hsame, if_true]
    rfl
  simp only [hsame, if_false]
  rw [Procedure.run_bind, Procedure.run_element]
  cases s.getElement keep with
  | error e => rfl
  | ok kept =>
    dsimp only
    rw [Procedure.run_bind, Procedure.run_element]
    cases s.getElement remove with
    | error e => rfl
    | ok removed =>
      dsimp only [bind, Except.bind]
      cases kept.shape with
      | line l => rfl
      | point p =>
        cases removed.shape with
        | line l => rfl
        | point q =>
          cases kept.fixed with
          | false => cases removed.fixed <;> rfl
          | true =>
            cases removed.fixed with
            | false => rfl
            | true =>
              dsimp only [Bool.and_true]
              show (if decide (s.tolerance < p.distance q) = true then _ else _ :
                Procedure Reply).run.run s = _
              by_cases hfar : s.tolerance < p.distance q
              · simp only [hfar]
                rfl
              · simp only [hfar]
                rfl

/-- A call answers and leaves the sketch as its edit says. -/
theorem perform_eq (c : Call) (s : Sketch) :
    c.perform solver s = (c.reply solver s, c.run solver s) := by
  cases c with
  | addPoint fixed x y => rfl
  | addLine fixed a b c => exact perform_addLine fixed a b c s
  | constrain kind first second value => exact perform_constrain kind first second value s
  | setValue id value => exact perform_setValue id value s
  | combine keep remove => exact perform_combine keep remove s
  | reset => rfl
  | build => rfl
  | solve => rfl

theorem run_of_reply_eq_error {c : Call} {s : Sketch} {e : EditError}
    (h : c.reply solver s = .error e) :
    c.run solver s = s := by
  have hmap : ∀ {α : Type} {f : α → Reply} {r : Except EditError α}, r.map f = .error e →
      r.toOption = none := by
    intro α f r hr
    cases r with
    | error => rfl
    | ok a => cases hr
  cases c with
  | addLine fixed a b c => simp [run, hmap h]
  | constrain kind first second value => simp [run, hmap h]
  | setValue id value => simp [run, hmap h]
  | combine keep remove => simp [run, hmap h]
  | _ => cases h

/-- A refused call has written nothing. -/
theorem perform_of_error {c : Call} {s : Sketch} {e : EditError}
    (h : (c.perform solver s).1 = .error e) : (c.perform solver s).2 = s := by
  rw [perform_eq] at h ⊢
  exact run_of_reply_eq_error h

/-- A call to solve, to build or to merge a point with itself, or one that is refused. -/
def IsIdle (solver : LinearSolver) (c : Call) (s : Sketch) : Prop :=
  c = .solve ∨ c = .build ∨ (∃ p, c = .combine p p) ∨ ∃ e, (c.perform solver s).1 = .error e

/-- Every call is idle in the sketch that the calls before it have left. -/
def AllIdle (solver : LinearSolver) : List Call → Sketch → Prop
  | [], _ => True
  | c :: calls, s => c.IsIdle solver s ∧ AllIdle solver calls (c.perform solver s).2

structure Entry where
  call : Call
  reply : Except EditError Reply
  sketch : Sketch

/-- The calls in order, with what each of them answers and leaves behind. -/
def transcript (solver : LinearSolver) : List Call → Sketch → List Entry
  | [], _ => []
  | c :: calls, s =>
    ⟨c, (c.perform solver s).1, (c.perform solver s).2⟩ ::
      transcript solver calls (c.perform solver s).2

end Call

namespace Sketch

variable {solver : LinearSolver}

/-- A solve has come to its end, and no edit has succeeded since. -/
structure AtRest (s : Sketch) : Prop where
  settled : s.isSettled = true
  built : s.built = true

theorem AtRest.perform {s : Sketch} (h : s.AtRest) {c : Call} (hc : c.IsIdle solver s) :
    (c.perform solver s).2 = s ∧
      (c = .solve → (c.perform solver s).1 = .ok (.status s.status)) := by
  rcases hc with rfl | rfl | ⟨p, rfl⟩ | ⟨e, he⟩
  · rw [Call.perform_eq, Call.run, Call.reply, solve_eq_of_isSettled h.settled]
    exact ⟨rfl, fun _ => rfl⟩
  · refine ⟨?_, fun hc => ?_⟩
    · rw [Call.perform_eq, Call.run]
      simp [build, h.built]
    · cases hc
  · refine ⟨?_, fun hc => ?_⟩
    · rw [Call.perform_eq, Call.run]
      simp [combine, Except.toOption, pure, Except.pure]
    · cases hc
  · refine ⟨Call.perform_of_error he, ?_⟩
    rintro rfl
    rw [Call.perform_eq] at he
    cases he

theorem AtRest.transcript {s : Sketch} (h : s.AtRest) {calls : List Call}
    (hidle : Call.AllIdle solver calls s) : ∀ r ∈ Call.transcript solver calls s,
      r.sketch = s ∧ (r.call = .solve → r.reply = .ok (.status s.status)) := by
  induction calls with
  | nil => simp [Call.transcript]
  | cons c calls ih =>
    obtain ⟨hc, hrest⟩ := hidle
    obtain ⟨hsame, hreply⟩ := h.perform hc
    rw [hsame] at hrest
    intro r hr
    rw [Call.transcript, hsame] at hr
    rcases List.mem_cons.mp hr with rfl | hr
    · exact ⟨rfl, hreply⟩
    · exact ih hrest r hr

theorem AtRest.allIdle {s : Sketch} (h : s.AtRest) {calls : List Call}
    (hcalls : ∀ c ∈ calls, c.IsIdle solver s) : Call.AllIdle solver calls s := by
  induction calls with
  | nil => exact trivial
  | cons c calls ih =>
    have hc := hcalls c List.mem_cons_self
    refine ⟨hc, ?_⟩
    rw [(h.perform hc).1]
    exact ih fun d hd => hcalls d (List.mem_cons_of_mem c hd)

theorem built_solveBuilt {s : Sketch} (h : Sound s) (hs : s.isSettled = false) :
    (s.prepared.solveBuilt solver).1.built = true := by
  obtain ⟨hg, hf⟩ := h.prepared hs
  rw [(follows_solveBuilt hg hf solver).built]
  exact built_build _

theorem Reachable.built_of_isSettled {s : Sketch} (hs : Reachable s) (h : s.isSettled = true) :
    s.built = true := by
  induction hs with
  | new => cases h
  | @call s hs solver c ih =>
    by_cases hc : c = .solve
    · subst hc
      dsimp only [Call.run] at h ⊢
      cases hn : s.isSettled with
      | true =>
        rw [solve_eq_of_isSettled hn]
        exact ih hn
      | false =>
        rw [solve_eq_of_not_isSettled hn]
        exact built_solveBuilt hs.sound hn
    · rcases run_cases hs.sound.grounded hc with heq | hedit | heq | heq
      · rw [heq] at h ⊢
        exact ih h
      · simp [isSettled, hedit.edited] at h
      · rw [heq] at h
        simp [isSettled, reset] at h
      · rw [heq]
        exact built_build s

theorem Reachable.atRest_solve {s : Sketch} (hs : Reachable s) (solver : LinearSolver) :
    (s.solve solver).1.AtRest ∧ (s.solve solver).1.status = (s.solve solver).2 := by
  cases hn : s.isSettled with
  | true =>
    rw [solve_eq_of_isSettled hn]
    exact ⟨⟨hn, hs.built_of_isSettled hn⟩, rfl⟩
  | false =>
    obtain ⟨hg, hf⟩ := hs.sound.prepared hn
    have hc := concluded_solveBuilt hg hf solver
    rw [solve_eq_of_not_isSettled hn]
    refine ⟨⟨?_, built_solveBuilt hs.sound hn⟩, hc.status⟩
    simp [isSettled, hc.edited, status_solveBuilt_ne_pending hg hf]

/-- A refused call leaves the sketch as it is. So do, after a solve, further solves and builds
and whatever else changes nothing, and these solves give the answer of the first. -/
theorem Reachable.unchanged_of_idle {s : Sketch} (hs : Reachable s) (solver : LinearSolver) :
    (∀ (c : Call) e, (c.perform solver s).1 = .error e → (c.perform solver s).2 = s) ∧
    ∀ calls, Call.AllIdle solver calls (s.solve solver).1 →
      ∀ r ∈ Call.transcript solver calls (s.solve solver).1, r.sketch = (s.solve solver).1 ∧
        (r.call = .solve → r.reply = .ok (.status (s.solve solver).2)) := by
  refine ⟨fun c e => Call.perform_of_error, fun calls hidle => ?_⟩
  obtain ⟨hrest, hstatus⟩ := hs.atRest_solve solver
  rw [← hstatus]
  exact hrest.transcript hidle

end Sketch

/-- Calls that change nothing in a solved triangle. -/
def Call.idling : List Call :=
  [solve, constrain .angle ⟨0⟩ ⟨1⟩ 1, combine ⟨1⟩ ⟨1⟩, build, setValue ⟨7⟩ 2, solve]

namespace Sketch

theorem unchanged_of_idle_triangle :
    Call.AllIdle solveLinear Call.idling
      ((Call.runAll solveLinear Call.triangle {}).solve solveLinear).1 ∧
    ((Call.constrain .angle ⟨0⟩ ⟨1⟩ 1).perform solveLinear
        (Call.runAll solveLinear Call.triangle {})).2 =
      Call.runAll solveLinear Call.triangle {} ∧
    ∀ r ∈ Call.transcript solveLinear Call.idling
        ((Call.runAll solveLinear Call.triangle {}).solve solveLinear).1,
      r.sketch = ((Call.runAll solveLinear Call.triangle {}).solve solveLinear).1 ∧
        (r.call = .solve → r.reply = .ok (.status .solved)) := by
  have hs := (Reachable.new {}).runAll solveLinear Call.triangle
  obtain ⟨hrefused, hidle⟩ := Reachable.unchanged_of_idle hs solveLinear
  have hsolved : ((Call.runAll solveLinear Call.triangle {}).solve solveLinear).2 = .solved := by
    decide +kernel
  have hcalls : Call.AllIdle solveLinear Call.idling
      ((Call.runAll solveLinear Call.triangle {}).solve solveLinear).1 := by
    refine (hs.atRest_solve solveLinear).1.allIdle fun c hc => ?_
    simp only [Call.idling, List.mem_cons, List.not_mem_nil, or_false] at hc
    rcases hc with rfl | rfl | rfl | rfl | rfl | rfl
    · exact Or.inl rfl
    · exact Or.inr (Or.inr (Or.inr ⟨.mismatchedShapes .angle .point .point, by decide +kernel⟩))
    · exact Or.inr (Or.inr (Or.inl ⟨_, rfl⟩))
    · exact Or.inr (Or.inl rfl)
    · exact Or.inr (Or.inr (Or.inr ⟨.unknownConstraint ⟨7⟩, by decide +kernel⟩))
    · exact Or.inl rfl
  refine ⟨hcalls, hrefused _ (.mismatchedShapes .angle .point .point) ?_, ?_⟩
  · decide +kernel
  · rw [← hsolved]
    exact hidle Call.idling hcalls

end Sketch

end RigidSketch
