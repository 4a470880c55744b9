import RigidSketch.Proofs.Session
import RigidSketch.Script.Lines

/-! What the statements of a script do, one by one, and that a script is run by running the
statements on its lines. -/

namespace RigidSketch

open LeastSquares (solveLinear)

namespace Statement

/-- The label that a statement declares. -/
def label? : Statement → Option Label
  | point label _ _ _ | line label _ _ _ _ => some label
  | _ => none

/-- Whether a statement declares an element that may not be moved. -/
def isFixed : Statement → Bool
  | point _ fixed _ _ | line _ fixed _ _ _ => fixed
  | _ => false

/-- The shape of the element that a statement declares. -/
def shape? : Statement → Option (Shape Float)
  | point _ _ x y => some (.point ⟨x, y⟩)
  | line _ _ a b c => (Line.ofCoefficients? a b c).map .line
  | _ => none

end Statement

namespace NamedSketch

/-- The labels once every label of one element has come to name another. -/
def relabel (n : NamedSketch) (keep remove : ElementId) : List (Label × ElementId) :=
  n.labels.map fun p => (p.1, if p.2 = remove then keep else p.2)

/-- A statement and the sketch that it leads to. -/
inductive Executes (n : NamedSketch) : Statement → NamedSketch → Prop
  | declare {st : Statement} {label : Label} {shape : Shape Float} (hlabel : st.label? = some label)
      (hshape : st.shape? = some shape) (hnew : n.id? label = none) :
      Executes n st (n.declare label (n.sketch.addShape shape st.isFixed))
  | relate {kind : RelationKind} {a b : Label} {value : Float} {e f : ElementId} {t : Sketch}
      {id : ConstraintId} (ha : n.id? a = some e) (hb : n.id? b = some f)
      (ht : n.sketch.constrain kind e f value = .ok (t, id)) :
      Executes n (.relate kind a b value) { n with sketch := t }
  | coincide {a b : Label} {e f : ElementId} {t : Sketch} (ha : n.id? a = some e)
      (hb : n.id? b = some f) (ht : n.sketch.combine e f = .ok t) :
      Executes n (.coincide a b) { sketch := t, labels := n.relabel e f }

theorem lookup_eq_ok_iff {n : NamedSketch} {label : Label} {id : ElementId} :
    n.lookup label = .ok id ↔ n.id? label = some id := by
  unfold lookup
  cases n.id? label <;> simp

theorem checkNew_eq_ok_iff {n : NamedSketch} {label : Label} {u : Unit} :
    n.checkNew label = .ok u ↔ n.id? label = none := by
  unfold checkNew
  cases n.id? label <;> simp

theorem refuse_eq_ok_iff {α : Type} {r : Except EditError α} {a : α} :
    refuse r = .ok a ↔ r = .ok a := by
  cases r <;> simp [refuse]

theorem bind_eq_ok_iff {ε α β : Type} {r : Except ε α} {f : α → Except ε β} {b : β} :
    (r >>= f) = .ok b ↔ ∃ a, r = .ok a ∧ f a = .ok b := by
  cases r <;> simp [bind, Except.bind]

theorem execute_eq_ok_iff {n n' : NamedSketch} {st : Statement} :
    n.execute st = .ok n' ↔ n.Executes st n' := by
  constructor
  · intro h
    cases st with
    | point label fixed x y =>
      simp only [execute, bind_eq_ok_iff, checkNew_eq_ok_iff] at h
      obtain ⟨_, hnew, h⟩ := h
      cases h
      exact @Executes.declare n (.point label fixed x y) _ _ rfl rfl hnew
    | line label fixed a b c =>
      simp only [execute, bind_eq_ok_iff, checkNew_eq_ok_iff, refuse_eq_ok_iff] at h
      obtain ⟨_, hnew, r, hr, h⟩ := h
      cases h
      unfold Sketch.addLine at hr
      cases hl : Line.ofCoefficients? a b c with
      | none => simp [hl] at hr
      | some l =>
        simp only [hl, Except.ok.injEq] at hr
        rw [← hr]
        exact @Executes.declare n (.line label fixed a b c) _ _ rfl
          (by simp [Statement.shape?, hl]) hnew
    | relate kind first second value =>
      simp only [execute, bind_eq_ok_iff, lookup_eq_ok_iff, refuse_eq_ok_iff] at h
      obtain ⟨e, he, f, hf, ⟨t, id⟩, ht, h⟩ := h
      cases h
      exact .relate he hf ht
    | coincide keep remove =>
      simp only [execute, bind_eq_ok_iff, lookup_eq_ok_iff, refuse_eq_ok_iff] at h
      obtain ⟨e, he, f, hf, t, ht, h⟩ := h
      cases h
      exact .coincide he hf ht
  · rintro (⟨hlabel, hshape, hnew⟩ | ⟨ha, hb, ht⟩ | ⟨ha, hb, ht⟩)
    · cases st with
      | point label fixed x y =>
        cases hlabel
        cases hshape
        simp only [execute, bind_eq_ok_iff, checkNew_eq_ok_iff]
        exact ⟨(), hnew, rfl⟩
      | line label fixed a b c =>
        cases hlabel
        obtain ⟨l, hl, rfl⟩ := Option.map_eq_some_iff.mp hshape
        simp only [execute, bind_eq_ok_iff, checkNew_eq_ok_iff, refuse_eq_ok_iff]
        exact ⟨(), hnew, _, by rw [Sketch.addLine, hl]; rfl, rfl⟩
      | _ => cases hlabel
    · simp only [execute, bind_eq_ok_iff, lookup_eq_ok_iff, refuse_eq_ok_iff]
      exact ⟨_, ha, _, hb, _, ht, rfl⟩
    · simp only [execute, bind_eq_ok_iff, lookup_eq_ok_iff, refuse_eq_ok_iff]
      exact ⟨_, ha, _, hb, _, ht, rfl⟩

theorem id?_declare (n : NamedSketch) (label x : Label) (r : Sketch × ElementId) :
    (n.declare label r).id? x = (n.id? x).or (if x = label then some r.2 else none) := by
  unfold id? declare
  rw [List.lookup_append]
  by_cases hx : x = label
  · simp [hx]
  · simp [List.lookup_cons, beq_false_of_ne hx, hx]

theorem id?_declare_of_some {n : NamedSketch} {x : Label} {id : ElementId} (h : n.id? x = some id)
    (label : Label) (r : Sketch × ElementId) : (n.declare label r).id? x = some id := by
  rw [id?_declare, h, Option.some_or]

theorem id?_declare_self {n : NamedSketch} {label : Label} (h : n.id? label = none)
    (r : Sketch × ElementId) : (n.declare label r).id? label = some r.2 := by
  rw [id?_declare, h, Option.none_or, if_pos rfl]

theorem id?_of_declare {n : NamedSketch} {label x : Label} {r : Sketch × ElementId} {id : ElementId}
    (h : (n.declare label r).id? x = some id) : n.id? x = some id ∨ (x = label ∧ id = r.2) := by
  rw [id?_declare] at h
  cases hx : n.id? x with
  | some id' => exact Or.inl (by simpa [hx] using h)
  | none =>
    by_cases hl : x = label
    · subst hl
      exact Or.inr ⟨rfl, by simpa [hx, eq_comm] using h⟩
    · simp [hx, hl] at h

theorem relabel_self (n : NamedSketch) (id : ElementId) : n.relabel id id = n.labels := by
  unfold relabel
  refine (List.map_congr_left fun p _ => ?_).trans (List.map_id n.labels)
  by_cases hp : p.2 = id
  · rw [if_pos hp, ← hp]
    rfl
  · rw [if_neg hp]
    rfl

theorem id?_relabel (n : NamedSketch) (keep remove : ElementId) (t : Sketch) (x : Label) :
    (NamedSketch.mk t (n.relabel keep remove)).id? x =
      (n.id? x).map fun id => if id = remove then keep else id := by
  unfold id? relabel
  dsimp only
  induction n.labels with
  | nil => rfl
  | cons p ps ih =>
    rw [List.map_cons, List.lookup_cons, List.lookup_cons]
    cases x == p.1 with
    | true => rfl
    | false => exact ih

theorem id?_eq_some_iff {n : NamedSketch} (h : (n.labels.map Prod.fst).Nodup) {label : Label}
    {id : ElementId} : n.id? label = some id ↔ (label, id) ∈ n.labels := by
  unfold id?
  generalize n.labels = labels at h
  induction labels with
  | nil => simp
  | cons p ps ih =>
    rw [List.map_cons, List.nodup_cons] at h
    have hfirst : ∀ y, (p.1, y) ∉ ps := fun y hy => h.1 (List.mem_map.mpr ⟨_, hy, rfl⟩)
    rw [List.lookup_cons, List.mem_cons]
    by_cases hx : label = p.1
    · simp [hx, hfirst, Prod.ext_iff, eq_comm]
    · simp [beq_false_of_ne hx, ih h.2, Prod.ext_iff, hx]

theorem Executes.reachable {n n' : NamedSketch} {st : Statement} (h : n.Executes st n')
    (hn : Sketch.Reachable n.sketch) : Sketch.Reachable n'.sketch := by
  cases h with
  | @declare _ label shape hlabel hshape hnew =>
    cases st with
    | point _ fixed x y =>
      cases hshape
      exact hn.call solveLinear (.addPoint fixed x y)
    | line _ fixed a b c =>
      obtain ⟨l, hl, rfl⟩ := Option.map_eq_some_iff.mp hshape
      have hrun : Call.run solveLinear (.addLine fixed a b c) n.sketch =
          (n.sketch.addShape (.line l) fixed).1 := by
        simp [Call.run, Sketch.addLine, hl, Except.toOption]
      have hcall := hn.call solveLinear (.addLine fixed a b c)
      rw [hrun] at hcall
      exact hcall
    | _ => cases hlabel
  | @relate kind a b value e f t id ha hb ht =>
    have hrun : Call.run solveLinear (.constrain kind e f value) n.sketch = t := by
      simp [Call.run, ht, Except.toOption]
    exact hrun ▸ hn.call solveLinear (.constrain kind e f value)
  | @coincide a b e f t ha hb ht =>
    have hrun : Call.run solveLinear (.combine e f) n.sketch = t := by
      simp [Call.run, ht, Except.toOption]
    exact hrun ▸ hn.call solveLinear (.combine e f)

/-- Whether a line is neither blank nor a comment. -/
def isStatement (cs : List Char) : Bool := !(cs.isEmpty || cs.head? = some '#')

/-- The lines of a script that have a statement on them, without white space at their ends. -/
def statementLines (text : String) : List (List Char) :=
  ((splitLines text.toList).map trimWhite).filter isStatement

theorem runLines_eq_ok_iff {number : Nat} {lines : List (List Char)} {n n' : NamedSketch} :
    runLines number lines n = .ok n' ↔
      ∃ ss, List.Forall₂ (fun cs st => Statement.ofChars cs = .ok st)
        ((lines.map trimWhite).filter isStatement) ss ∧ ss.foldlM execute n = .ok n' := by
  induction lines generalizing number n with
  | nil => simp [runLines, List.forall₂_nil_left_iff, pure, Except.pure]
  | cons line rest ih =>
    rw [runLines, List.map_cons]
    by_cases hs : isStatement (trimWhite line)
    · rw [List.filter_cons_of_pos hs]
      have hline : ∀ {t}, n.runLine (trimWhite line) = .ok t ↔
          ∃ st, Statement.ofChars (trimWhite line) = .ok st ∧ n.execute st = .ok t := by
        intro t
        unfold runLine isStatement at *
        cases Statement.ofChars (trimWhite line) <;> simp_all
      constructor
      · intro h
        cases hr : n.runLine (trimWhite line) with
        | error cause => simp [hr] at h
        | ok t =>
          rw [hr] at h
          obtain ⟨st, hst, ht⟩ := hline.mp hr
          obtain ⟨ss, hss, hrun⟩ := ih.mp h
          exact ⟨st :: ss, .cons hst hss, by rw [List.foldlM_cons, ht]; exact hrun⟩
      · rintro ⟨_, hss, hrun⟩
        cases hss with
        | @cons _ st _ ss hst hss =>
          rw [List.foldlM_cons, bind_eq_ok_iff] at hrun
          obtain ⟨t, ht, hrun⟩ := hrun
          rw [hline.mpr ⟨st, hst, ht⟩]
          exact ih.mpr ⟨ss, hss, hrun⟩
    · have hskip : n.runLine (trimWhite line) = .ok n := by
        unfold runLine isStatement at *
        simp_all
      rw [List.filter_cons_of_neg hs, hskip]
      exact ih

theorem ofScript_eq_ok_iff {text : String} {n : NamedSketch} :
    ofScript text = .ok n ↔
      ∃ ss, List.Forall₂ (fun cs st => Statement.ofChars cs = .ok st) (statementLines text) ss ∧
        ss.foldlM execute {} = .ok n :=
  runLines_eq_ok_iff

end NamedSketch

end RigidSketch
