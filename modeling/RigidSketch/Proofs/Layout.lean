import RigidSketch.Proofs.Attempts
import RigidSketch.Proofs.Descending

/-! The system of a relaxation. The variables of its unknowns follow each other without a gap, and
each equation is about unknowns of the shapes that it asks for, so that none of its residuals is
missing and nothing outside the variables is read. -/

namespace RigidSketch

namespace LeastSquares

section

variable {S : Type}

namespace Unknown

/-- The variables of an unknown. -/
def columns : Unknown S → List Nat
  | .point o => [o, o + 1]
  | .segment o => [o, o + 1, o + 2, o + 3]
  | .fixed _ => []

def kind : Unknown S → ShapeKind
  | .point _ => .point
  | .segment _ => .line
  | .fixed g => g.kind

/-- The unknown is one for an element that is drawn so. Only one that is not fixed has
variables. -/
inductive StandsFor : Shape S → Bool → Unknown S → Prop
  | fixed (g : Shape S) : StandsFor g true (.fixed g)
  | point (p : Vec S) (o : Nat) : StandsFor (.point p) false (.point o)
  | segment (l : Line S) (o : Nat) : StandsFor (.line l) false (.segment o)

theorem StandsFor.kind_eq {g : Shape S} {fixed : Bool} {u : Unknown S} (h : StandsFor g fixed u) :
    u.kind = g.kind := by
  cases h <;> rfl

end Unknown

namespace Equation

/-- How many residuals an equation has. -/
def arity : Equation S → Nat
  | .coincident _ _ => 2
  | _ => 1

/-- The unknowns that an equation is about. -/
def about : Equation S → List Nat
  | .distance a b _ | .coincident a b | .angle a b _ => [a, b]
  | .segmentLength a => [a]

end Equation

namespace System

def kind? (sys : System S) (i : Nat) : Option ShapeKind := sys.unknowns[i]?.map (·.kind)

/-- The unknowns that the equation is about are there, of the shapes that it asks for. -/
def Admits (sys : System S) : Equation S → Prop
  | .distance a b _ => ∃ g h, sys.kind? a = some g ∧ sys.kind? b = some h ∧
      RelationKind.distance.accepts g h = true
  | .coincident a b => sys.kind? a = some .point ∧ sys.kind? b = some .point
  | .angle a b _ => sys.kind? a = some .line ∧ sys.kind? b = some .line
  | .segmentLength a => ∃ o, sys.unknowns[a]? = some (.segment o)

/-- The variables are those of the unknowns, in order, and the equations are about unknowns. -/
structure WellLaid (sys : System S) : Prop where
  columns : sys.unknowns.toList.flatMap (·.columns) = List.range sys.initial.size
  admits : ∀ eq ∈ sys.equations, sys.Admits eq

variable {sys : System S}

theorem kind?_eq_some_iff {i : Nat} {kind : ShapeKind} :
    sys.kind? i = some kind ↔ ∃ u, sys.unknowns[i]? = some u ∧ u.kind = kind :=
  Option.map_eq_some_iff

theorem Admits.mono {sys' : System S} {eq : Equation S} (h : sys.Admits eq)
    (hsys : ∀ (i : Nat) u, sys.unknowns[i]? = some u → sys'.unknowns[i]? = some u) :
    sys'.Admits eq := by
  have hkind : ∀ i kind, sys.kind? i = some kind → sys'.kind? i = some kind := by
    intro i kind hi
    obtain ⟨u, hu, rfl⟩ := kind?_eq_some_iff.mp hi
    exact kind?_eq_some_iff.mpr ⟨u, hsys i u hu, rfl⟩
  cases eq with
  | distance a b value =>
    obtain ⟨g, g', ha, hb, haccepts⟩ := h
    exact ⟨g, g', hkind a g ha, hkind b g' hb, haccepts⟩
  | coincident a b => exact ⟨hkind a _ h.1, hkind b _ h.2⟩
  | angle a b target => exact ⟨hkind a _ h.1, hkind b _ h.2⟩
  | segmentLength a =>
    obtain ⟨o, ho⟩ := h
    exact ⟨o, hsys a _ ho⟩

theorem Admits.lt_size {eq : Equation S} (h : sys.Admits eq) {i : Nat} (hi : i ∈ eq.about) :
    i < sys.unknowns.size := by
  have hkind : ∀ j kind, sys.kind? j = some kind → j < sys.unknowns.size := by
    intro j kind hj
    obtain ⟨u, hu, _⟩ := kind?_eq_some_iff.mp hj
    exact (Array.getElem?_eq_some_iff.mp hu).1
  cases eq with
  | distance a b value =>
    obtain ⟨g, g', ha, hb, _⟩ := h
    rcases List.mem_pair.mp hi with rfl | rfl
    · exact hkind _ _ ha
    · exact hkind _ _ hb
  | coincident a b =>
    rcases List.mem_pair.mp hi with rfl | rfl
    · exact hkind _ _ h.1
    · exact hkind _ _ h.2
  | angle a b target =>
    rcases List.mem_pair.mp hi with rfl | rfl
    · exact hkind _ _ h.1
    · exact hkind _ _ h.2
  | segmentLength a =>
    obtain ⟨o, ho⟩ := h
    rw [List.mem_singleton.mp hi]
    exact (Array.getElem?_eq_some_iff.mp ho).1

end System

end

namespace System

variable {S : Type}

theorem wellLaid_empty : WellLaid ({} : System S) := ⟨rfl, nofun⟩

variable [Scalar S] {sys : System S}

theorem exists_add (sys : System S) (id : ElementId) (g : Shape S) (fixed : Bool) :
    ∃ u, u.StandsFor g fixed ∧ (sys.add id g fixed).unknowns = sys.unknowns.push u ∧
      List.range (sys.add id g fixed).initial.size = List.range sys.initial.size ++ u.columns ∧
      ∀ eq ∈ (sys.add id g fixed).equations,
        eq ∈ sys.equations ∨ (∃ o, u = .segment o) ∧ eq = .segmentLength sys.unknowns.size := by
  cases fixed with
  | true => exact ⟨.fixed g, .fixed g, rfl, by simp [add, Unknown.columns], fun eq h => Or.inl h⟩
  | false =>
    cases g with
    | point p =>
      refine ⟨.point sys.initial.size, .point p _, rfl, ?_, fun eq h => Or.inl h⟩
      simp [add, Unknown.columns, List.range_succ]
    | line l =>
      refine ⟨.segment sys.initial.size, .segment l _, rfl, ?_, fun eq h => ?_⟩
      · simp [add, Unknown.columns, List.range_succ]
      · exact (List.mem_append.mp h).imp_right fun h => ⟨⟨_, rfl⟩, List.mem_singleton.mp h⟩

theorem columns_add (h : sys.unknowns.toList.flatMap (·.columns) = List.range sys.initial.size)
    (id : ElementId) (g : Shape S) (fixed : Bool) :
    (sys.add id g fixed).unknowns.toList.flatMap (·.columns) =
      List.range (sys.add id g fixed).initial.size := by
  obtain ⟨u, _, hunknowns, hcolumns, _⟩ := exists_add sys id g fixed
  rw [hunknowns, hcolumns, Array.toList_push, List.flatMap_append, h]
  simp

theorem WellLaid.add (h : sys.WellLaid) (id : ElementId) (g : Shape S) (fixed : Bool) :
    (sys.add id g fixed).WellLaid := by
  obtain ⟨u, _, hunknowns, _, hequations⟩ := exists_add sys id g fixed
  refine ⟨columns_add h.columns id g fixed, fun eq heq => ?_⟩
  rcases hequations eq heq with heq | ⟨⟨o, rfl⟩, rfl⟩
  · refine (h.admits eq heq).mono fun i u hi => ?_
    have hlt := (Array.getElem?_eq_some_iff.mp hi).1
    rw [hunknowns, Array.getElem?_push_lt hlt]
    rw [Array.getElem?_eq_getElem hlt] at hi
    exact hi
  · exact ⟨o, by rw [hunknowns]; simp⟩

theorem WellLaid.relate (h : sys.WellLaid) {kind : RelationKind} {a b : Nat} {g g' : Shape S}
    (ha : sys.kind? a = some g.kind) (hb : sys.kind? b = some g'.kind)
    (haccepts : kind.accepts g.kind g'.kind = true) (value : S) :
    (sys.relate kind a b value g g').WellLaid := by
  refine ⟨h.columns, fun eq heq => ?_⟩
  rcases List.mem_append.mp heq with hold | hnew
  · exact (h.admits eq hold).mono fun _ _ hi => hi
  · rw [List.mem_singleton.mp hnew]
    split
    · obtain ⟨hg, hg'⟩ := RelationKind.eq_line_of_accepts haccepts
      exact ⟨hg ▸ ha, hg' ▸ hb⟩
    · split
      · exact ⟨ha, hb⟩
      · exact ⟨_, _, ha, hb, haccepts⟩
    · exact ⟨_, _, ha, hb, haccepts⟩

end System

/-- The variables of the row are below a bound. -/
def RowBelow {S : Type} (n : Nat) (row : Row S) : Prop := ∀ c ∈ row, c.1 < n

def PointValue.Below {S : Type} (n : Nat) (p : PointValue S) : Prop :=
  ∀ o, p.offset = some o → o + 1 < n

def LineValue.Below {S : Type} (n : Nat) : LineValue S → Prop
  | .fixed _ => True
  | .segment o _ _ => o + 3 < n

section

variable {S : Type} {n : Nat}

theorem RowBelow.append {row row' : Row S} (h : RowBelow n row) (h' : RowBelow n row') :
    RowBelow n (row ++ row') :=
  List.forall_mem_append.mpr ⟨h, h'⟩

theorem rowBelow_vecRow {o : Nat} (h : o + 1 < n) (g : Vec S) : RowBelow n (vecRow o g) := by
  simp only [RowBelow, vecRow, List.forall_mem_cons]
  exact ⟨by omega, h, nofun⟩

theorem PointValue.Below.row {p : PointValue S} (h : p.Below n) (g : Vec S) :
    RowBelow n (p.row g) := by
  unfold PointValue.row
  split
  · rename_i o ho
    exact rowBelow_vecRow (h o ho) g
  · exact nofun

theorem PointValue.Below.axisRow {p : PointValue S} (h : p.Below n) {axis : Nat} (haxis : axis ≤ 1)
    (g : S) : RowBelow n (p.axisRow axis g) := by
  unfold PointValue.axisRow
  split
  · rename_i o ho
    have hlt := h o ho
    simp only [RowBelow, List.forall_mem_cons]
    exact ⟨by omega, nofun⟩
  · exact nofun

theorem rowBelow_signedDistance [Scalar S] {p : PointValue S} {l : LineValue S} (hp : p.Below n)
    (hl : l.Below n) : RowBelow n (signedDistance p l).2 := by
  cases l with
  | fixed l => exact hp.row _
  | segment o start stop =>
    have hlt : o + 3 < n := hl
    refine RowBelow.append ?_ (hp.row _)
    simp only [RowBelow, List.forall_mem_cons]
    exact ⟨by omega, by omega, by omega, hlt, nofun⟩

theorem rowBelow_angleRow [Scalar S] {l : LineValue S} (hl : l.Below n) (sign : S) :
    RowBelow n (angleRow sign l) := by
  cases l with
  | fixed l => exact nofun
  | segment o start stop =>
    have hlt : o + 3 < n := hl
    exact (rowBelow_vecRow (by omega) _).append (rowBelow_vecRow (by omega) _)

namespace System

variable {sys : System S}

theorem WellLaid.lt_of_mem_columns (h : sys.WellLaid) {i : Nat} {u : Unknown S}
    (hu : sys.unknowns[i]? = some u) {c : Nat} (hc : c ∈ u.columns) : c < sys.initial.size := by
  rw [← List.mem_range, ← h.columns]
  exact List.mem_flatMap.mpr ⟨u, Array.mem_toList_iff.mpr (Array.mem_of_getElem? hu), hc⟩

theorem WellLaid.exists_point? (h : sys.WellLaid) (x : Nat → S) {i : Nat}
    (hi : sys.kind? i = some .point) :
    ∃ p, sys.point? x i = some p ∧ p.Below sys.initial.size := by
  obtain ⟨u, hu, hkind⟩ := kind?_eq_some_iff.mp hi
  cases u with
  | point o =>
    refine ⟨⟨vecAt x o, some o⟩, by simp [point?, hu], ?_⟩
    rintro _ ⟨⟩
    exact h.lt_of_mem_columns hu (by simp [Unknown.columns])
  | segment o => cases hkind
  | fixed g =>
    cases g with
    | point p => exact ⟨⟨p, none⟩, by simp [point?, hu], nofun⟩
    | line l => cases hkind

theorem WellLaid.exists_line? (h : sys.WellLaid) (x : Nat → S) {i : Nat}
    (hi : sys.kind? i = some .line) :
    sys.point? x i = none ∧ ∃ l, sys.line? x i = some l ∧ l.Below sys.initial.size := by
  obtain ⟨u, hu, hkind⟩ := kind?_eq_some_iff.mp hi
  cases u with
  | point o => cases hkind
  | segment o =>
    refine ⟨by simp [point?, hu], .segment o (vecAt x o) (vecAt x (o + 2)), by simp [line?, hu], ?_⟩
    exact h.lt_of_mem_columns hu (by simp [Unknown.columns])
  | fixed g =>
    cases g with
    | point p => cases hkind
    | line l => exact ⟨by simp [point?, hu], .fixed l, by simp [line?, hu], trivial⟩

/-- An equation has all its residuals, and their rows are within the variables. -/
theorem WellLaid.evaluate [Scalar S] (h : sys.WellLaid) {eq : Equation S} (heq : sys.Admits eq)
    (x : Nat → S) : (sys.evaluate x eq).length = eq.arity ∧
      ∀ r ∈ sys.evaluate x eq, RowBelow sys.initial.size r.2 := by
  unfold System.evaluate
  cases eq with
  | coincident a b =>
    obtain ⟨p, hp, hpn⟩ := h.exists_point? x heq.1
    obtain ⟨q, hq, hqn⟩ := h.exists_point? x heq.2
    simp only [hp, hq, List.forall_mem_cons]
    exact ⟨rfl, (hpn.axisRow (by omega) _).append (hqn.axisRow (by omega) _),
      (hpn.axisRow (by omega) _).append (hqn.axisRow (by omega) _), nofun⟩
  | distance a b value =>
    obtain ⟨g, g', ha, hb, haccepts⟩ := heq
    cases g with
    | point =>
      obtain ⟨p, hp, hpn⟩ := h.exists_point? x ha
      cases g' with
      | point =>
        obtain ⟨q, hq, hqn⟩ := h.exists_point? x hb
        simp only [hp, hq, List.forall_mem_cons]
        exact ⟨rfl, (hpn.row _).append (hqn.row _), nofun⟩
      | line =>
        obtain ⟨hnone, l, hl, hln⟩ := h.exists_line? x hb
        simp only [hp, hnone, hl, List.forall_mem_cons]
        exact ⟨rfl, rowBelow_signedDistance hpn hln, nofun⟩
    | line =>
      obtain ⟨hnone, l, hl, hln⟩ := h.exists_line? x ha
      cases g' with
      | point =>
        obtain ⟨q, hq, hqn⟩ := h.exists_point? x hb
        simp only [hnone, hq, hl, List.forall_mem_cons]
        exact ⟨rfl, rowBelow_signedDistance hqn hln, nofun⟩
      | line => cases haccepts
  | angle a b target =>
    obtain ⟨_, l, hl, hln⟩ := h.exists_line? x heq.1
    obtain ⟨_, m, hm, hmn⟩ := h.exists_line? x heq.2
    simp only [hl, hm, List.forall_mem_cons]
    exact ⟨rfl, (rowBelow_angleRow hln _).append (rowBelow_angleRow hmn _), nofun⟩
  | segmentLength a =>
    obtain ⟨o, ho⟩ := heq
    have hlt : o + 3 < sys.initial.size := h.lt_of_mem_columns ho (by simp [Unknown.columns])
    simp only [line?, ho, List.forall_mem_cons]
    exact ⟨rfl, (rowBelow_vecRow (by omega) _).append (rowBelow_vecRow (by omega) _), nofun⟩

section

variable {x y : Nat → S} (h : sys.WellLaid) (hxy : ∀ c < sys.initial.size, x c = y c)
include h hxy

theorem WellLaid.vecAt_congr {i : Nat} {u : Unknown S} (hu : sys.unknowns[i]? = some u) {o : Nat}
    (ho : o ∈ u.columns) (hnext : o + 1 ∈ u.columns) : vecAt x o = vecAt y o := by
  rw [vecAt, vecAt, hxy o (h.lt_of_mem_columns hu ho), hxy _ (h.lt_of_mem_columns hu hnext)]

theorem WellLaid.point?_congr (i : Nat) : sys.point? x i = sys.point? y i := by
  cases hu : sys.unknowns[i]? with
  | none => simp [point?, hu]
  | some u =>
    cases u with
    | point o =>
      have hvec : vecAt x o = vecAt y o := h.vecAt_congr hxy hu (by simp [Unknown.columns])
        (by simp [Unknown.columns])
      simp [point?, hu, hvec]
    | segment o => simp [point?, hu]
    | fixed g => cases g <;> simp [point?, hu]

theorem WellLaid.line?_congr (i : Nat) : sys.line? x i = sys.line? y i := by
  cases hu : sys.unknowns[i]? with
  | none => simp [line?, hu]
  | some u =>
    cases u with
    | point o => simp [line?, hu]
    | segment o =>
      have hstart : vecAt x o = vecAt y o := h.vecAt_congr hxy hu (by simp [Unknown.columns])
        (by simp [Unknown.columns])
      have hstop : vecAt x (o + 2) = vecAt y (o + 2) := h.vecAt_congr hxy hu
        (by simp [Unknown.columns]) (by simp [Unknown.columns])
      simp [line?, hu, hstart, hstop]
    | fixed g => cases g <;> simp [line?, hu]

/-- Nothing but the variables is read. -/
theorem WellLaid.evaluate_congr [Scalar S] (eq : Equation S) :
    sys.evaluate x eq = sys.evaluate y eq := by
  unfold System.evaluate
  simp only [h.point?_congr hxy, h.line?_congr hxy]

end

end System

end

/-- There are `n` equations in `n` variables, each with its right-hand side. -/
def Square (n : Nat) (eqs : Array (Array Float)) : Prop :=
  eqs.size = n ∧ ∀ eq ∈ eqs, eq.size = n + 1

theorem Square.modify {n : Nat} {eqs : Array (Array Float)} (h : Square n eqs) (i : Nat)
    {f : Array Float → Array Float} (hf : ∀ eq, (f eq).size = eq.size) :
    Square n (eqs.modify i f) := by
  refine ⟨by simpa using h.1, fun eq heq => ?_⟩
  obtain ⟨j, hj, rfl⟩ := Array.mem_iff_getElem.mp heq
  rw [Array.getElem_modify]
  split
  · rw [hf]
    exact h.2 _ (Array.getElem_mem _)
  · exact h.2 _ (Array.getElem_mem _)

theorem normalEquations_square (n : Nat) (rows : List (Float × Row Float)) :
    (normalEquations n rows).length = n ∧ ∀ eq ∈ normalEquations n rows, eq.size = n + 1 := by
  have hstart : Square n (Array.replicate n (Array.replicate (n + 1) 0)) := by
    refine ⟨Array.size_replicate, fun eq heq => ?_⟩
    rw [Array.eq_of_mem_replicate heq, Array.size_replicate]
  suffices h : ∀ eqs, Square n eqs → eqs.toList.length = n ∧ ∀ eq ∈ eqs.toList, eq.size = n + 1 by
    refine h _ (List.foldlRecOn rows _ hstart fun eqs heqs q _ => ?_)
    refine List.foldlRecOn q.2 _ heqs fun eqs heqs c _ => ?_
    refine heqs.modify _ fun eq => ?_
    refine List.foldlRecOn (motive := fun d : Array Float => d.size = eq.size) q.2 _ ?_
      fun d hd c _ => ?_
    · exact Array.size_modify
    · rw [Array.size_modify, hd]
  rintro eqs ⟨hsize, hmem⟩
  exact ⟨hsize, fun eq heq => hmem eq (Array.mem_toList_iff.mp heq)⟩

/-- Nothing that a descent looks up is missing: not the unknowns of an equation, nor a variable,
nor the place of a derivative in the normal equations. -/
structure System.Bounded (sys : System Float) (solver : LinearSolver) (settings : Settings) :
    Prop where
  about : ∀ eq ∈ sys.equations, ∀ i ∈ eq.about, i < sys.unknowns.size
  sized : ∀ m, ((sys.advance solver settings)^[m] (sys.start settings)).Sized sys.initial.size
  steps : ∀ x d : Array Float, (addStep x d).size = x.size
  reads : ∀ x y, (∀ c < sys.initial.size, x c = y c) → ∀ eq, sys.evaluate x eq = sys.evaluate y eq
  residuals : ∀ x, ∀ eq ∈ sys.equations, (sys.evaluate x eq).length = eq.arity
  rows : ∀ x, ∀ eq ∈ sys.equations, ∀ r ∈ sys.evaluate x eq, RowBelow sys.initial.size r.2
  square : ∀ x : Array Float, (normalEquations x.size (sys.evaluateAll x)).length = x.size ∧
    ∀ eq ∈ normalEquations x.size (sys.evaluateAll x), eq.size = x.size + 1

theorem System.WellLaid.bounded {sys : System Float} (h : sys.WellLaid) (solver : LinearSolver)
    (settings : Settings) : sys.Bounded solver settings where
  about := fun eq heq _ hi => (h.admits eq heq).lt_size hi
  sized := System.sized_iterate_start
  steps := System.size_addStep
  reads := fun _ _ hxy => h.evaluate_congr hxy
  residuals := fun x eq heq => (h.evaluate (h.admits eq heq) x).1
  rows := fun x eq heq => (h.evaluate (h.admits eq heq) x).2
  square := fun x => normalEquations_square x.size _

end LeastSquares

namespace Sketch

open LeastSquares

/-- The unknown is one for the element, as it starts. -/
def Represents (s : Sketch) (id : ElementId) (u : Unknown Float) : Prop :=
  ∃ e, s.elements.get? id = some e ∧ u.StandsFor (startShape e) e.fixed

/-- A system for some elements of a sketch. -/
structure Lays (s : Sketch) (ids : List ElementId) (sys : System Float) : Prop where
  unknowns : List.Forall₂ s.Represents ids sys.unknowns.toList
  wellLaid : sys.WellLaid

theorem kind_startShape {e : Element} (h : e.Uniform) : (startShape e).kind = e.shape.kind := by
  unfold startShape
  split
  · exact h.kind_shapeIn _
  · rfl

section

variable {s : Sketch} {ids : List ElementId} {sys sys' : System Float}

theorem Lays.kind? (h : s.Lays ids sys) (hu : s.elements.Uniform) {id : ElementId}
    (hid : id ∈ ids) : sys.kind? (ids.idxOf id) = s.elements.kind? id := by
  have hlt := List.idxOf_lt_length_of_mem hid
  have hlen : ids.idxOf id < sys.unknowns.size := by
    rw [← Array.length_toList, ← h.unknowns.length_eq]
    exact hlt
  obtain ⟨e, he, hstands⟩ := h.unknowns.get hlt (by simpa using hlen)
  have hget : ids.get ⟨ids.idxOf id, hlt⟩ = id := List.idxOf_get hlt
  have hkind : s.elements.kind? id = some e.shape.kind := by
    rw [ElementTable.kind?, ← hget, he]
    rfl
  rw [hkind, System.kind?_eq_some_iff]
  refine ⟨_, Array.getElem?_eq_getElem hlen, ?_⟩
  rw [← kind_startShape (hu e (ElementTable.mem_of_get? he).1), ← hstands.kind_eq]
  rfl

theorem lays_unknowns {before : List ElementId} (hsys : s.Lays before sys)
    (h : ids.foldlM (fun (sys : System Float) id => do
      let e ← s.elements.get? id
      return sys.add id (startShape e) e.fixed) sys = some sys') : s.Lays (before ++ ids) sys' := by
  induction ids generalizing sys before with
  | nil =>
    cases h
    rwa [List.append_nil]
  | cons id ids ih =>
    rw [List.foldlM_cons] at h
    obtain ⟨next, hnext, h⟩ := Option.bind_eq_some_iff.mp h
    obtain ⟨e, he, hadd⟩ := Option.bind_eq_some_iff.mp hnext
    cases hadd
    obtain ⟨u, hstands, hunknowns, _⟩ := System.exists_add sys id (startShape e) e.fixed
    have hone : s.Lays (before ++ [id]) (sys.add id (startShape e) e.fixed) := by
      refine ⟨?_, hsys.wellLaid.add id _ _⟩
      rw [hunknowns, Array.toList_push]
      exact List.rel_append hsys.unknowns (.cons ⟨e, he, hstands⟩ .nil)
    rw [List.append_cons]
    exact ih hone h

theorem Lays.relate (h : s.Lays ids sys) (hu : s.elements.Uniform) {a b : ElementId}
    (ha : a ∈ ids) (hb : b ∈ ids) {g g' : Shape Float} (hg : s.elements.kind? a = some g.kind)
    (hg' : s.elements.kind? b = some g'.kind) {kind : RelationKind}
    (haccepts : kind.accepts g.kind g'.kind = true) (value : Float) :
    s.Lays ids (sys.relate kind (ids.idxOf a) (ids.idxOf b) value g g') :=
  ⟨h.unknowns, h.wellLaid.relate ((h.kind? hu ha).trans hg) ((h.kind? hu hb).trans hg') haccepts
    value⟩

theorem kind?_of_shapeIn? {k : ClusterId} {id : ElementId} {g : Shape Float}
    (hu : s.elements.Uniform) (h : s.shapeIn? k id = some g) :
    s.elements.kind? id = some g.kind := by
  obtain ⟨e, he, rfl⟩ := Option.map_eq_some_iff.mp h
  rw [(hu e (ElementTable.mem_of_get? he).1).kind_shapeIn, ElementTable.kind?, he]
  rfl

theorem Lays.keepPair (h : s.Lays ids sys) (hu : s.elements.Uniform) {k : Cluster}
    {p : ElementId × ElementId} (h₁ : p.1 ∈ ids) (h₂ : p.2 ∈ ids)
    (hsys : s.keepPair ids k sys p = some sys') : s.Lays ids sys' := by
  unfold Sketch.keepPair at hsys
  split at hsys
  · cases hsys
    exact h
  · obtain ⟨g, hg, hsys⟩ := Option.bind_eq_some_iff.mp hsys
    obtain ⟨g', hg', hsys⟩ := Option.bind_eq_some_iff.mp hsys
    cases hsys
    exact h.relate hu h₁ h₂ (kind?_of_shapeIn? hu hg) (kind?_of_shapeIn? hu hg')
      (Shape.accepts_measure g g') _

theorem Supplied.lays_relateFree (hs : Supplied s) (h : s.Lays ids sys) {id : ConstraintId}
    (hends : ∀ c, s.constraints.get? id = some c → ∀ e ∈ c.ends, e ∈ ids)
    (hsys : s.relateFree ids sys id = some sys') : s.Lays ids sys' := by
  have hu := hs.posed.uniform
  obtain ⟨c, hc, hsys⟩ := Option.bind_eq_some_iff.mp hsys
  obtain ⟨e, he, hsys⟩ := Option.bind_eq_some_iff.mp hsys
  obtain ⟨e', he', hsys⟩ := Option.bind_eq_some_iff.mp hsys
  cases hsys
  obtain ⟨⟨g, g', hg, hg', haccepts⟩, _⟩ := hs.posed.fits c (ConstraintTable.mem_of_get? hc).1
  have hkind : ∀ {id e}, s.elements.get? id = some e →
      s.elements.kind? id = some (startShape e).kind := by
    intro id e he
    rw [kind_startShape (hu e (ElementTable.mem_of_get? he).1), ElementTable.kind?, he]
    rfl
  rw [hkind he, Option.some.injEq] at hg
  rw [hkind he', Option.some.injEq] at hg'
  subst hg hg'
  exact h.relate hu (hends c hc _ (by simp [Constraint.ends]))
    (hends c hc _ (by simp [Constraint.ends])) (hkind he) (hkind he') haccepts _

end

theorem mem_linking_of_linkMembers? {s : Sketch} {members : List (Cluster × List ElementId)}
    (h : s.linkMembers? = some members) {p : Cluster × List ElementId} (hp : p ∈ members)
    {e : ElementId} (he : e ∈ p.2) : e ∈ s.linking := by
  obtain ⟨k, hk, heq⟩ := exists_of_mem_mapM h hp
  dsimp only at heq
  split at heq
  · cases heq
  · cases heq
    simpa using (List.mem_filter.mp he).2

theorem mem_linking_of_mem_free {s : Sketch} {id : ConstraintId} (hid : id ∈ s.free)
    {c : Constraint} (hc : s.constraints.get? id = some c) {e : ElementId} (he : e ∈ c.ends) :
    e ∈ s.linking := by
  simp only [linking, OrderedSet.mem_ofList, List.mem_append, List.mem_flatMap]
  exact Or.inl (Or.inr ⟨id, hid, by rw [hc]; exact he⟩)

theorem Supplied.lays_linkSystem? {s : Sketch} (hs : Supplied s)
    {members : List (Cluster × List ElementId)} (hm : s.linkMembers? = some members)
    {sys : System Float} (h : s.linkSystem? members = some sys) :
    s.Lays s.linking.toList sys := by
  obtain ⟨unknowns, hunknowns, h⟩ := Option.bind_eq_some_iff.mp h
  obtain ⟨kept, hkept, h⟩ := Option.bind_eq_some_iff.mp h
  have hnone : s.Lays [] {} := ⟨.nil, System.wellLaid_empty⟩
  have hfirst : s.Lays s.linking.toList unknowns := lays_unknowns hnone hunknowns
  have hsecond : s.Lays s.linking.toList kept := by
    refine foldlM_induction (fun sys p hp sys' hstep hsys => ?_) hkept hfirst
    refine foldlM_induction (fun sys q hq sys' hstep hsys => ?_) hstep hsys
    obtain ⟨h₁, h₂⟩ := mem_of_mem_pairs hq
    exact hsys.keepPair hs.posed.uniform (mem_linking_of_linkMembers? hm hp h₁)
      (mem_linking_of_linkMembers? hm hp h₂) hstep
  refine foldlM_induction (fun sys id hid sys' hstep hsys => ?_) h hsecond
  exact hs.lays_relateFree hsys (fun c hc e he => mem_linking_of_mem_free hid hc he) hstep

/-- Whenever least squares are tried, the linking elements are the unknowns of a system without
gaps, whose equations have all their residuals, and whatever is looked up on the way is there. -/
theorem Reachable.lays_throughout {s : Sketch} (hs : Reachable s) (hn : s.isSettled = false)
    {solver : LinearSolver} {p : Point} (hp : p ∈ s.prepared.points solver)
    {members : List (Cluster × List ElementId)}
    (hm : p.sketch.linkMembers? = some members) {sys : System Float}
    (hsys : p.sketch.linkSystem? members = some sys) :
    sys.elements = p.sketch.linking.toList ∧ p.sketch.Lays p.sketch.linking.toList sys ∧
    (∀ solver settings, sys.Bounded solver settings) ∧
    (∀ m ∈ members, ∀ e ∈ m.2, e ∈ p.sketch.linking) ∧
    ∀ id ∈ p.sketch.free, ∀ c, p.sketch.constraints.get? id = some c →
      ∀ e ∈ c.ends, e ∈ p.sketch.linking := by
  have hlays := (hs.underpinned hn hp).supplied.lays_linkSystem? hm hsys
  exact ⟨elements_linkSystem? hsys, hlays, hlays.wellLaid.bounded,
    fun _ hin _ => mem_linking_of_linkMembers? hm hin, fun _ hid _ => mem_linking_of_mem_free hid⟩

end Sketch

/-- A line between a fixed point and a point that is held from another fixed one. -/
def Call.pulley : List Call :=
  [addPoint true 0 0, addLine false 0 1 (-1), addPoint false 2 3, addPoint true 5 5,
    constrain .distance ⟨0⟩ ⟨1⟩ 1, constrain .distance ⟨1⟩ ⟨2⟩ 2, constrain .distance ⟨2⟩ ⟨3⟩ 4]

namespace Sketch

open LeastSquares

/-- The line has four variables and the loose point two. -/
theorem lays_throughout_pulley :
    ∃ p ∈ (Call.runAll solveLinear Call.pulley {}).prepared.points solveLinear, ∃ members sys,
      p.sketch.linkMembers? = some members ∧ p.sketch.linkSystem? members = some sys ∧
      sys.initial.size = 6 ∧ p.sketch.Lays p.sketch.linking.toList sys := by
  have hfind : ∃ p ∈ (Call.runAll solveLinear Call.pulley {}).prepared.points solveLinear,
      ∃ members ∈ p.sketch.linkMembers?, ∃ sys ∈ p.sketch.linkSystem? members,
        p.stage = .relaxing ∧ sys.initial.size = 6 := by
    decide +kernel
  obtain ⟨p, hp, members, hm, sys, hsys, _, hsize⟩ := hfind
  exact ⟨p, hp, members, sys, hm, hsys, hsize, (Reachable.lays_throughout
    ((Reachable.new {}).runAll solveLinear Call.pulley) (by decide +kernel) hp hm hsys).2.1⟩

end Sketch

end RigidSketch
