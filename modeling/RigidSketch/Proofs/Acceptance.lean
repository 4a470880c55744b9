import RigidSketch.Proofs.Legibility
import RigidSketch.Proofs.RoundTrip

/-! Which sketches can be read again from their own text. Every line of the text is a statement,
so it is accepted if and only if the statements are; and to these the coefficients of a line make
no difference, except that they have to be those of a line. -/

namespace RigidSketch

theorem Statement.legible_iff {st : Statement} : st.Legible ↔ ∀ l ∈ st.mentioned, IsWord l :=
  ⟨fun h => h.words, fun h => ⟨h, fun x _ => reads x⟩⟩

theorem ElementId.toList_text (id : ElementId) :
    id.text.toList = 'e' :: Nat.toDigits 10 id.number := by
  simp [text, Nat.repr]

theorem ElementId.isWord_text (id : ElementId) : Statement.IsWord id.text := by
  refine ⟨by simp [toList_text], fun c hc => ?_⟩
  rw [toList_text, List.mem_cons] at hc
  rcases hc with rfl | hc
  · decide
  · have hdigit := Nat.isDigit_of_mem_toDigits (by omega) (by omega) hc
    simp [Statement.isLabelChar, Char.isAlphanum, hdigit]

namespace NamedSketch

section

variable {n : NamedSketch} (hwords : ∀ p ∈ n.labels, Statement.IsWord p.1)
include hwords

theorem isWord_nameOf (id : ElementId) : Statement.IsWord (n.nameOf id) := by
  rcases n.nameOf_cases id with hm | ⟨_, htext⟩
  · exact hwords _ hm
  · rw [htext]
    exact id.isWord_text

theorem isWord_of_mem_declarations {d : Declaration} (hd : d ∈ n.declarations) :
    Statement.IsWord d.label := by
  rcases List.mem_append.mp hd with hd | hd
  · obtain ⟨e, _, rfl⟩ := List.mem_map.mp hd
    exact isWord_nameOf hwords e.id
  · obtain ⟨a, ha, hd⟩ := List.mem_filterMap.mp hd
    obtain ⟨_, _, _, _, rfl⟩ := aliasDeclared?_eq_some_iff.mp hd
    exact hwords a (List.mem_filter.mp ha).1

theorem legible_of_mem_statements {st : Statement} (hst : st ∈ n.statements) : st.Legible := by
  rw [statements, links, List.mem_append, List.mem_append] at hst
  rcases hst with hst | hst | hst
  · obtain ⟨d, hd, rfl⟩ := List.mem_map.mp hst
    exact legible_statement (isWord_of_mem_declarations hwords hd) fun x _ => Statement.reads x
  · obtain ⟨r, hr, rfl⟩ := List.mem_map.mp hst
    obtain ⟨c, _, rfl⟩ := List.mem_map.mp hr
    rw [Statement.legible_iff]
    simpa [relating, Statement.mentioned] using
      ⟨isWord_nameOf hwords c.first, isWord_nameOf hwords c.second⟩
  · obtain ⟨a, ha, rfl⟩ := List.mem_map.mp hst
    rw [Statement.legible_iff]
    simpa [Statement.mentioned] using
      ⟨isWord_nameOf hwords a.2, hwords a (List.mem_filter.mp ha).1⟩

theorem forall₂_statements : List.Forall₂ (fun cs st => Statement.ofChars cs = .ok st)
    (statementLines n.toScript) n.statements := by
  have hlegible : ∀ st ∈ n.statements, st.Legible := fun _ => legible_of_mem_statements hwords
  rw [statementLines_toScript hlegible, List.forall₂_map_left_iff]
  exact List.forall₂_same.mpr fun st hst => Statement.ofChars_text (hlegible st hst)

theorem ofScript_toScript_eq_ok_iff {m : NamedSketch} :
    ofScript n.toScript = .ok m ↔ n.statements.foldlM execute {} = .ok m := by
  have hread := forall₂_statements hwords
  rw [ofScript_eq_ok_iff]
  refine ⟨?_, fun hrun => ⟨_, hread, hrun⟩⟩
  rintro ⟨ss, hss, hrun⟩
  -- a text is read as one list of statements only
  have hunique : Relator.RightUnique fun (cs : List Char) st => Statement.ofChars cs = .ok st :=
    fun _ _ _ h h' => Except.ok.inj (h.symm.trans h')
  rwa [hunique.forall₂ hread hss]

end

end NamedSketch

/-- The shape, with one and the same line for every line. -/
def Shape.schematic : Shape Float → Shape Float
  | .point p => .point p
  | .line _ => .line ⟨1, 0, 0⟩

theorem Line.ofCoefficients?_schematic :
    Line.ofCoefficients? (1 : Float) 0 0 = some ⟨1, 0, 0⟩ := by decide +kernel

@[simp] theorem Shape.kind_schematic (g : Shape Float) : g.schematic.kind = g.kind := by
  cases g <;> rfl

def Element.schematic (e : Element) : Element := { e with shape := e.shape.schematic }

def Statement.schematic : Statement → Statement
  | line label fixed _ _ _ => line label fixed 1 0 0
  | st => st

/-- What a statement declares has a shape: a line has the coefficients of one. -/
def Statement.Drawable (st : Statement) : Prop := st.label?.isSome → st.shape?.isSome

namespace Sketch

def schematic (s : Sketch) : Sketch := { s with elements := s.elements.map Element.schematic }

theorem get?_schematic (s : Sketch) (id : ElementId) :
    s.schematic.elements.get? id = (s.elements.get? id).map Element.schematic :=
  ElementTable.get?_map (f := Element.schematic) (fun _ => rfl) id

theorem getElement_schematic (s : Sketch) (id : ElementId) :
    s.schematic.getElement id = (s.getElement id).map Element.schematic := by
  unfold getElement
  rw [get?_schematic]
  cases s.elements.get? id <;> rfl

theorem addShape_schematic (s : Sketch) (g : Shape Float) (fixed : Bool) :
    s.schematic.addShape g.schematic fixed =
      ((s.addShape g fixed).1.schematic, (s.addShape g fixed).2) := by
  simp [addShape, schematic, ElementTable.insert, ElementTable.map, Element.schematic]

theorem constrain_schematic (s : Sketch) (kind : RelationKind) (first second : ElementId)
    (value : Float) : s.schematic.constrain kind first second value =
      (s.constrain kind first second value).map fun r => (r.1.schematic, r.2) := by
  unfold constrain
  rw [getElement_schematic, getElement_schematic]
  by_cases hne : first = second
  · simp [hne, throw, throwThe, MonadExceptOf.throw, bind, Except.bind, Except.map]
  cases s.getElement first with
  | error e => simp [hne, bind, Except.bind, Except.map]
  | ok a =>
    cases s.getElement second with
    | error e => simp [hne, bind, Except.bind, Except.map]
    | ok b =>
      by_cases haccepts : kind.accepts a.shape.kind b.shape.kind <;>
        by_cases hallows : kind.allows value <;>
        simp [hne, haccepts, hallows, checkValue, throw, throwThe, MonadExceptOf.throw, bind,
          Except.bind, Except.map, pure, Except.pure, Element.schematic, schematic]

theorem erase_schematic (t : ElementTable) (id : ElementId) :
    (t.map Element.schematic).erase id = (t.erase id).map Element.schematic := by
  unfold ElementTable.map ElementTable.erase
  rw [List.filter_map]
  rfl

theorem heir_schematic (keep : ElementId) (kept removed e : Element) :
    heir keep kept.schematic removed.schematic e.schematic =
      (heir keep kept removed e).schematic := by
  unfold heir
  by_cases h : (removed.fixed && !kept.fixed) = true ∧ e.id = keep
  · rw [if_pos h]
    exact if_pos h
  · rw [if_neg h]
    exact if_neg h

theorem combine_schematic (s : Sketch) (keep remove : ElementId) :
    s.schematic.combine keep remove = (s.combine keep remove).map schematic := by
  by_cases hne : keep = remove
  · simp [combine, hne, pure, Except.pure, Except.map]
  have hk' := s.getElement_schematic keep
  have hr' := s.getElement_schematic remove
  cases hk : s.getElement keep with
  | error e =>
    rw [hk] at hk'
    simp [combine, hne, hk, hk', bind, Except.bind, Except.map]
  | ok kept =>
    cases hr : s.getElement remove with
    | error e =>
      rw [hk] at hk'
      rw [hr] at hr'
      simp [combine, hne, hk, hk', hr, hr', bind, Except.bind, Except.map]
    | ok removed =>
      rw [hk] at hk'
      rw [hr] at hr'
      cases hp : kept.shape with
      | line l =>
        simp [combine, hne, hk, hk', hr, hr', hp, throw, throwThe, MonadExceptOf.throw, bind,
          Except.bind, Except.map, Element.schematic, Shape.schematic]
      | point p =>
        cases hq : removed.shape with
        | line l =>
          simp [combine, hne, hk, hk', hr, hr', hp, hq, throw, throwThe, MonadExceptOf.throw, bind,
            Except.bind, Except.map, Element.schematic, Shape.schematic]
        | point q =>
          have hp' := congrArg Shape.schematic hp
          have hq' := congrArg Shape.schematic hq
          by_cases hapart : s.Apart kept removed p q
          · rw [combine_of_apart hne hk hr hp hq hapart]
            exact combine_of_apart hne hk' hr' hp' hq' hapart
          · rw [combine_of_not_apart hne hk hr hp hq hapart]
            refine (combine_of_not_apart hne hk' hr' hp' hq' hapart).trans ?_
            have helements : s.schematic.elements.map (heir keep kept.schematic removed.schematic) =
                (s.elements.map (heir keep kept removed)).map Element.schematic := by
              simp [schematic, ElementTable.map, heir_schematic]
            rw [helements, erase_schematic]
            rfl

end Sketch

namespace NamedSketch

def schematic (n : NamedSketch) : NamedSketch := { n with sketch := n.sketch.schematic }

theorem aliases_schematic (n : NamedSketch) : n.schematic.aliases = n.aliases := rfl

theorem lookup_schematic (n : NamedSketch) (l : Label) : n.schematic.lookup l = n.lookup l := rfl

theorem checkNew_schematic (n : NamedSketch) (l : Label) :
    n.schematic.checkNew l = n.checkNew l := rfl

theorem declare_schematic (n : NamedSketch) (l : Label) (g : Shape Float) (fixed : Bool) :
    n.schematic.declare l (n.schematic.sketch.addShape g.schematic fixed) =
      (n.declare l (n.sketch.addShape g fixed)).schematic := by
  simp only [declare, schematic, Sketch.addShape_schematic]

/-- A statement does the same to a sketch whose lines are drawn alike, unless it declares a line
with coefficients that no line has. -/
theorem execute_schematic (n : NamedSketch) {st : Statement}
    (hst : st.Drawable) :
    n.schematic.execute st.schematic = (n.execute st).map schematic := by
  cases st with
  | point l fixed x y =>
    simp only [Statement.schematic, execute, checkNew_schematic]
    cases n.checkNew l with
    | error e => rfl
    | ok u => exact congrArg Except.ok (declare_schematic n l (.point ⟨x, y⟩) fixed)
  | line l fixed a b c =>
    obtain ⟨k, hk⟩ : ∃ k, Line.ofCoefficients? a b c = some k := by
      simpa [Statement.Drawable, Statement.label?, Statement.shape?,
        Option.isSome_iff_exists] using hst
    simp only [Statement.schematic, execute, checkNew_schematic, Sketch.addLine, hk,
      Line.ofCoefficients?_schematic]
    cases n.checkNew l with
    | error e => rfl
    | ok u => exact congrArg Except.ok (declare_schematic n l (.line k) fixed)
  | relate kind a b value =>
    simp only [Statement.schematic, execute, lookup_schematic]
    cases n.lookup a with
    | error e => rfl
    | ok e =>
      cases n.lookup b with
      | error e => rfl
      | ok f =>
        have h := n.sketch.constrain_schematic kind e f value
        cases hr : n.sketch.constrain kind e f value <;> rw [hr] at h <;>
          simp [schematic, h, hr, refuse, bind, Except.bind, pure, Except.pure, Except.map]
  | coincide a b =>
    simp only [Statement.schematic, execute, lookup_schematic]
    cases n.lookup a with
    | error e => rfl
    | ok e =>
      cases n.lookup b with
      | error e => rfl
      | ok f =>
        have h := n.sketch.combine_schematic e f
        cases hr : n.sketch.combine e f <;> rw [hr] at h <;>
          simp [schematic, h, hr, refuse, bind, Except.bind, pure, Except.pure, Except.map]

theorem foldlM_schematic {ss : List Statement}
    (hss : ∀ st ∈ ss, st.Drawable) (n : NamedSketch) :
    (ss.map Statement.schematic).foldlM execute n.schematic =
      (ss.foldlM execute n).map schematic := by
  induction ss generalizing n with
  | nil => rfl
  | cons st ss ih =>
    rw [List.map_cons, List.foldlM_cons, List.foldlM_cons,
      execute_schematic n (hss st List.mem_cons_self)]
    cases n.execute st with
    | error e => rfl
    | ok m => exact ih (fun st' hst' => hss st' (List.mem_cons_of_mem _ hst')) m

theorem foldlM_schematic_eq_ok_iff {ss : List Statement}
    (hss : ∀ st ∈ ss, st.Drawable) {n : NamedSketch} :
    (∃ m, (ss.map Statement.schematic).foldlM execute n.schematic = .ok m) ↔
      ∃ m, ss.foldlM execute n = .ok m := by
  rw [foldlM_schematic hss]
  cases ss.foldlM execute n <;> simp [Except.map]

theorem drawable_of_foldlM {ss : List Statement} {n m : NamedSketch}
    (hrun : ss.foldlM execute n = .ok m) : ∀ st ∈ ss, st.Drawable := by
  induction ss generalizing n with
  | nil => simp
  | cons st ss ih =>
    rw [List.foldlM_cons, bind_eq_ok_iff] at hrun
    obtain ⟨k, hk, hrun⟩ := hrun
    intro st' hst' hlabel
    rcases List.mem_cons.mp hst' with rfl | hst'
    · cases execute_eq_ok_iff.mp hk with
      | declare _ hshape _ => exact Option.isSome_of_eq_some hshape
      | relate => cases hlabel
      | coincide => cases hlabel
    · exact ih hrun st' hst' hlabel

def Declaration.schematic (d : Declaration) : Declaration := { d with shape := d.shape.schematic }

theorem statement_schematic (d : Declaration) :
    d.schematic.statement = d.statement.schematic := by
  unfold Declaration.statement Declaration.schematic
  cases d.shape <;> rfl

theorem aliasDeclared?_schematic (n : NamedSketch) (a : Label × ElementId) :
    n.schematic.aliasDeclared? a = (n.aliasDeclared? a).map Declaration.schematic := by
  have hget := n.sketch.get?_schematic a.2
  unfold aliasDeclared? schematic
  dsimp only
  rw [hget]
  cases n.sketch.elements.get? a.2 with
  | none => rfl
  | some e =>
    cases hs : e.shape <;> simp [Element.schematic, Shape.schematic, Declaration.schematic, hs]

theorem declarations_schematic (n : NamedSketch) :
    n.schematic.declarations = n.declarations.map Declaration.schematic := by
  have helements : n.schematic.sketch.elements.elements =
      n.sketch.elements.elements.map Element.schematic := rfl
  rw [declarations, declarations, List.map_append, List.map_filterMap, List.map_map,
    aliases_schematic, funext (aliasDeclared?_schematic n), helements, List.map_map]
  rfl

theorem links_schematic (n : NamedSketch) :
    n.schematic.links = n.links.map Statement.schematic := by
  rw [links, links, List.map_append, List.map_map, List.map_map]
  rfl

theorem statements_schematic (n : NamedSketch) :
    n.schematic.statements = n.statements.map Statement.schematic := by
  rw [statements, statements, List.map_append, declarations_schematic, links_schematic,
    List.map_map, List.map_map]
  refine congrArg (· ++ _) (List.map_congr_left fun d _ => ?_)
  exact statement_schematic d

theorem writable_schematic {text : String} {n : NamedSketch} (h : ofScript text = .ok n) :
    Writable n.schematic := by
  obtain ⟨ss, _, hrun⟩ := ofScript_eq_ok_iff.mp h
  have hrun' : (ss.map Statement.schematic).foldlM execute {} = .ok n.schematic := by
    have hschematic := foldlM_schematic (drawable_of_foldlM hrun) {}
    rw [hrun] at hschematic
    exact hschematic
  refine ⟨(tells_nil.foldlM hrun').labelled, Shared.foldlM tells_nil ?_ hrun', ?_⟩
  · intro a b id ha
    cases ha
  · intro e he l hl
    obtain ⟨x, _, rfl⟩ := List.mem_map.mp he
    cases hs : x.shape with
    | point p => simp [Element.schematic, Shape.schematic, hs] at hl
    | line k =>
      simp only [Element.schematic, Shape.schematic, hs, Shape.line.injEq] at hl
      rw [← hl]
      exact Line.ofCoefficients?_schematic

theorem label?_of_mem_links {n : NamedSketch} {st : Statement} (hst : st ∈ n.links) :
    st.label? = none := by
  rcases List.mem_append.mp hst with hst | hst <;> obtain ⟨_, _, rfl⟩ := List.mem_map.mp hst <;> rfl

theorem drawable_statement_iff {d : Declaration} : d.statement.Drawable ↔
    ∀ l, d.shape = .line l → (Line.ofCoefficients? l.a l.b l.c).isSome := by
  unfold Declaration.statement
  cases d.shape <;> simp [Statement.Drawable, Statement.label?, Statement.shape?]

theorem drawable_statements_iff {n : NamedSketch} : (∀ st ∈ n.statements, st.Drawable) ↔
    ∀ e ∈ n.sketch.elements.elements, ∀ l, e.shape = .line l →
      (Line.ofCoefficients? l.a l.b l.c).isSome := by
  constructor
  · intro h e he
    have hd : ⟨n.nameOf e.id, e.fixed, e.shape⟩ ∈ n.declarations :=
      List.mem_append_left _ (List.mem_map.mpr ⟨e, he, rfl⟩)
    exact drawable_statement_iff.mp (h _ (List.mem_append_left _ (List.mem_map.mpr ⟨_, hd, rfl⟩)))
  · intro h st hst
    rcases List.mem_append.mp hst with hst | hst
    · obtain ⟨d, hd, rfl⟩ := List.mem_map.mp hst
      rw [drawable_statement_iff]
      rcases List.mem_append.mp hd with hd | hd
      · obtain ⟨e, he, rfl⟩ := List.mem_map.mp hd
        exact h e he
      · obtain ⟨a, _, hd⟩ := List.mem_filterMap.mp hd
        obtain ⟨_, _, _, _, rfl⟩ := aliasDeclared?_eq_some_iff.mp hd
        simp
    · intro hlabel
      rw [label?_of_mem_links hst] at hlabel
      cases hlabel

/-- A sketch that was read can be read again from its own text if and only if each of its lines
has the coefficients of a line. -/
theorem ofScript_toScript_isOk_iff {text : String} {n : NamedSketch} (h : ofScript text = .ok n) :
    (∃ m, ofScript n.toScript = .ok m) ↔
      ∀ e ∈ n.sketch.elements.elements, ∀ l, e.shape = .line l →
        (Line.ofCoefficients? l.a l.b l.c).isSome := by
  obtain ⟨ss, hread, hrun⟩ := ofScript_eq_ok_iff.mp h
  have hwords := (tells_nil.foldlM hrun).words hread
  rw [exists_congr fun m => ofScript_toScript_eq_ok_iff hwords, ← drawable_statements_iff]
  refine ⟨fun ⟨m, hm⟩ => drawable_of_foldlM hm, fun hdrawable => ?_⟩
  rw [← foldlM_schematic_eq_ok_iff hdrawable, ← statements_schematic]
  obtain ⟨m, hm, _⟩ := (writable_schematic h).exists_redrawn
  exact ⟨m, hm⟩

theorem ofScript_toScript_isOk_chainScript :
    ∃ n m, ofScript chainScript = .ok n ∧ ofScript n.toScript = .ok m := by
  have hread : ∃ n ∈ (ofScript chainScript).toOption, ∀ e ∈ n.sketch.elements.elements,
      ∀ l ∈ e.shape.line?, (Line.ofCoefficients? l.a l.b l.c).isSome := by
    decide +kernel
  obtain ⟨n, hn, hlines⟩ := hread
  have h := eq_ok_of_mem_toOption hn
  obtain ⟨m, hm⟩ := (ofScript_toScript_isOk_iff h).mpr fun e he l hl =>
    hlines e he l (by rw [hl]; rfl)
  exact ⟨n, m, h, hm⟩

/-- A line with a short normal and a large offset. Once the normal is scaled to a unit, the offset
is infinite. -/
def steepScript : String := "line l (1e-11, 0, 1e300)\n"

theorem ofScript_toScript_steepScript :
    ∃ n, ofScript steepScript = .ok n ∧
      ofScript n.toScript = .error ⟨2, .refused (.degenerateLine 1 0 (1 / 0))⟩ := by
  have hread : ∃ n ∈ (ofScript steepScript).toOption,
      ofScript n.toScript = .error ⟨2, .refused (.degenerateLine 1 0 (1 / 0))⟩ := by
    decide +kernel
  obtain ⟨n, hn, herror⟩ := hread
  exact ⟨n, eq_ok_of_mem_toOption hn, herror⟩

end NamedSketch

end RigidSketch
