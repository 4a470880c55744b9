import RigidSketch.Proofs.Form
import RigidSketch.Proofs.Rereading
import RigidSketch.Proofs.Writing

/-! A sketch that is written and read again is the same sketch, and is written the same. -/

namespace RigidSketch

open LeastSquares (LinearSolver solveLinear)

namespace NamedSketch

theorem Redrawn.id?_eq {n n' : NamedSketch} (hn : Labelled n) (hn' : Labelled n')
    (h : Redrawn n n') (a : Label) : n'.id? a = (n.id? a).map n.rank := by
  refine Option.ext fun id => ?_
  rw [id?_eq_some_iff hn'.nodup, h.labels, List.mem_map, Option.map_eq_some_iff]
  constructor
  · rintro ⟨p, hp, heq⟩
    cases heq
    exact ⟨p.2, (id?_eq_some_iff hn.nodup).mpr (hn.firsts_append_aliases_perm.mem_iff.mp hp), rfl⟩
  · rintro ⟨i, hi, rfl⟩
    have hm := (id?_eq_some_iff hn.nodup).mp hi
    exact ⟨(a, i), hn.firsts_append_aliases_perm.mem_iff.mpr hm, rfl⟩

theorem Redrawn.get?_rank {n n' : NamedSketch} (hn' : Labelled n') (h : Redrawn n n') {e : Element}
    (he : e ∈ n.sketch.elements.elements) :
    n'.sketch.elements.get? (n.rank e.id) = some (n.renumber e) := by
  rw [ElementTable.get?_eq_some_iff hn'.grounded.elements, h.elements]
  exact ⟨List.mem_map.mpr ⟨e, he, rfl⟩, rfl⟩

theorem Redrawn.nameOf_rank {n n' : NamedSketch} (hn : Labelled n) (h : Redrawn n n')
    {e : Element} (he : e ∈ n.sketch.elements.elements) :
    n'.nameOf (n.rank e.id) = n.nameOf e.id := by
  have hnodup : ((n.firsts.map fun p => (p.1, n.rank p.2)).map Prod.snd).Nodup := by
    rw [firsts, List.map_map, List.map_map]
    refine (List.Nodup.of_map _ (ElementTable.nodup_ids hn.grounded.elements)).map_on ?_
    intro x hx y hy heq
    exact hn.grounded.element_ext hy hx (rank_injective hx heq)
  have hfind : (n.firsts.map fun p => (p.1, n.rank p.2)).find? (·.2 = n.rank e.id) =
      some (n.nameOf e.id, n.rank e.id) := by
    refine (find?_key_eq_some_iff hnodup).mpr ⟨?_, rfl⟩
    exact List.mem_map.mpr ⟨(n.nameOf e.id, e.id), List.mem_map.mpr ⟨e, he, rfl⟩, rfl⟩
  rw [nameOf, h.labels, List.map_append, List.find?_append, hfind]
  rfl

theorem Redrawn.nameOf_of_mem {n n' : NamedSketch} (hn : Labelled n) (h : Redrawn n n')
    {p : Label × ElementId} (hp : p ∈ n.labels) : n'.nameOf (n.rank p.2) = n.nameOf p.2 := by
  obtain ⟨e, he, hid⟩ := (hn.live p.2).mp ⟨p.1, (id?_eq_some_iff hn.nodup).mpr hp⟩
  rw [← hid]
  exact h.nameOf_rank hn he

theorem Redrawn.aliases_eq {n n' : NamedSketch} (hn : Labelled n) (h : Redrawn n n') :
    n'.aliases = n.aliases.map fun p => (p.1, n.rank p.2) := by
  have hfirsts : (n.firsts.map fun p => (p.1, n.rank p.2)).filter
      (fun p => n'.nameOf p.2 ≠ p.1) = [] := by
    rw [List.filter_eq_nil_iff]
    intro p hp
    obtain ⟨q, hq, rfl⟩ := List.mem_map.mp hp
    obtain ⟨hm, hname⟩ := hn.mem_firsts.mp hq
    simpa [h.nameOf_of_mem hn hm] using hname
  have haliases : (n.aliases.map fun p => (p.1, n.rank p.2)).filter
      (fun p => n'.nameOf p.2 ≠ p.1) = n.aliases.map fun p => (p.1, n.rank p.2) := by
    rw [List.filter_eq_self]
    intro p hp
    obtain ⟨q, hq, rfl⟩ := List.mem_map.mp hp
    obtain ⟨hm, hne⟩ := List.mem_filter.mp hq
    simpa [h.nameOf_of_mem hn hm] using hne
  calc n'.aliases = n'.labels.filter fun p => n'.nameOf p.2 ≠ p.1 := rfl
    _ = n.aliases.map fun p => (p.1, n.rank p.2) := by
      rw [h.labels, List.map_append, List.filter_append, hfirsts, haliases, List.nil_append]

theorem Redrawn.declarations_eq {n n' : NamedSketch} (hn : Labelled n) (hn' : Labelled n')
    (h : Redrawn n n') : n'.declarations = n.declarations := by
  have helements : (n'.sketch.elements.elements.map fun e =>
      Declaration.mk (n'.nameOf e.id) e.fixed e.shape) =
      n.sketch.elements.elements.map fun e => ⟨n.nameOf e.id, e.fixed, e.shape⟩ := by
    rw [h.elements, List.map_map]
    refine List.map_congr_left fun e he => ?_
    simp only [Function.comp_apply, renumber, h.nameOf_rank hn he]
  rw [declarations, declarations, helements, h.aliases_eq hn, List.filterMap_map]
  refine congrArg (_ ++ ·) (List.filterMap_congr fun a ha => ?_)
  have hm := (List.mem_filter.mp ha).1
  obtain ⟨e, he, hid⟩ := (hn.live a.2).mp ⟨a.1, (id?_eq_some_iff hn.nodup).mpr hm⟩
  have hget := (ElementTable.get?_eq_some_iff hn.grounded.elements).mpr ⟨he, hid⟩
  have hget' := h.get?_rank hn' he
  rw [hid] at hget'
  simp only [Function.comp_apply, aliasDeclared?, hget, hget', renumber]

theorem Redrawn.relations_eq {n n' : NamedSketch} (hn : Labelled n) (h : Redrawn n n') :
    n'.relations = n.relations := by
  let named : RelationKind × Option ElementId × Option ElementId × Float →
      RelationKind × Label × Label × Float := fun r =>
    (r.1, (r.2.1.map n'.nameOf).getD "", (r.2.2.1.map n'.nameOf).getD "", r.2.2.2)
  have hnamed : n'.relations = (n'.sketch.constraints.constraints.map Constraint.relation).map
      named := by
    rw [relations, List.map_map]
    rfl
  rw [hnamed, h.constraints, List.map_map, relations]
  refine List.map_congr_left fun c hc => ?_
  obtain ⟨e, he, f, hf, hid, hid'⟩ := hn.grounded.exists_ends hc
  simp only [Function.comp_apply, named, rankedRelation, ← hid, ← hid', Option.map_some,
    Option.getD_some, h.nameOf_rank hn he, h.nameOf_rank hn hf]

theorem text_statement (d : Declaration) :
    d.statement.text = declaration d.fixed d.label d.shape := by
  unfold Declaration.statement
  cases hs : d.shape <;> rfl

theorem aliasDeclaration?_eq (n : NamedSketch) (a : Label × ElementId) :
    n.aliasDeclaration? a = (n.aliasDeclared? a).map (·.statement.text) := by
  unfold aliasDeclaration? aliasDeclared?
  cases n.sketch.elements.get? a.2 with
  | none => rfl
  | some e =>
    dsimp only
    cases e.shape with
    | point p => simp [text_statement]
    | line l => rfl

theorem scriptLines_eq (n : NamedSketch) :
    n.scriptLines = ["# elements"] ++ (n.declarations.map (·.statement)).map Statement.text ++
      ["", "# constraints"] ++ n.links.map Statement.text := by
  have helements : (n.sketch.elements.elements.map fun e =>
      declaration e.fixed (n.nameOf e.id) e.shape) ++ n.aliases.filterMap n.aliasDeclaration? =
      (n.declarations.map (·.statement)).map Statement.text := by
    rw [declarations, List.map_append, List.map_append, List.map_map, List.map_map,
      List.map_filterMap, List.map_filterMap, funext (aliasDeclaration?_eq n)]
    simp [Function.comp_def, text_statement]
  have hlinks : n.sketch.constraints.constraints.map n.constraintText ++
      n.aliases.map (fun a => "coincident" ++ pairText (n.nameOf a.2) a.1) =
      n.links.map Statement.text := by
    rw [links, relations, List.map_append, List.map_map, List.map_map, List.map_map]
    rfl
  rw [scriptLines, ← helements, ← hlinks]
  simp only [List.append_assoc]

theorem Redrawn.toScript_eq {n n' : NamedSketch} (hn : Labelled n) (hn' : Labelled n')
    (h : Redrawn n n') : n'.toScript = n.toScript := by
  have hlinks : n'.links = n.links := by
    rw [links, links, h.relations_eq hn, h.aliases_eq hn, List.map_map]
    refine congrArg (_ ++ ·) (List.map_congr_left fun a ha => ?_)
    simp only [Function.comp_apply, h.nameOf_of_mem hn (List.mem_filter.mp ha).1]
  rw [toScript, toScript, scriptLines_eq, scriptLines_eq, h.declarations_eq hn hn', hlinks]

end NamedSketch

def Shape.numbers : Shape Float → List Float
  | .point p => [p.x, p.y]
  | .line l => [l.a, l.b, l.c]

namespace NamedSketch

/-- The numbers that a sketch is written with. -/
def numbers (n : NamedSketch) : List Float :=
  n.sketch.elements.elements.flatMap (·.shape.numbers) ++
    n.sketch.constraints.constraints.map (·.value)

theorem legible_statement {d : Declaration} (hl : Statement.IsWord d.label)
    (hx : ∀ x ∈ d.shape.numbers, Statement.Reads x) : d.statement.Legible := by
  unfold Declaration.statement
  cases hs : d.shape with
  | point p =>
    rw [hs] at hx
    exact ⟨by simpa [Statement.mentioned] using hl, hx⟩
  | line l =>
    rw [hs] at hx
    exact ⟨by simpa [Statement.mentioned] using hl, hx⟩

theorem shape_of_aliasDeclared? {n : NamedSketch} {a : Label × ElementId} {d : Declaration}
    (h : n.aliasDeclared? a = some d) : ∃ e ∈ n.sketch.elements.elements, d.shape = e.shape := by
  obtain ⟨e, p, hget, hs, rfl⟩ := aliasDeclared?_eq_some_iff.mp h
  exact ⟨e, (ElementTable.mem_of_get? hget).1, hs.symm⟩

theorem Writable.legible {n : NamedSketch} (h : Writable n)
    (hwords : ∀ p ∈ n.labels, Statement.IsWord p.1) (hnumbers : ∀ x ∈ n.numbers, Statement.Reads x)
    {st : Statement} (hst : st ∈ n.statements) : st.Legible := by
  have hname : ∀ e ∈ n.sketch.elements.elements, Statement.IsWord (n.nameOf e.id) :=
    fun e he => hwords _ (h.labelled.nameOf_mem he)
  have hshape : ∀ e ∈ n.sketch.elements.elements, ∀ x ∈ e.shape.numbers, Statement.Reads x :=
    fun e he x hx => hnumbers x (List.mem_append_left _ (List.mem_flatMap.mpr ⟨e, he, hx⟩))
  rw [statements, links, List.mem_append, List.mem_append] at hst
  rcases hst with hst | hst | hst
  · obtain ⟨d, hd, rfl⟩ := List.mem_map.mp hst
    rcases List.mem_append.mp hd with hd | hd
    · obtain ⟨e, he, rfl⟩ := List.mem_map.mp hd
      exact legible_statement (hname e he) (hshape e he)
    · obtain ⟨a, ha, hd, hloose⟩ := h.isLoose hd
      obtain ⟨e, he, hs⟩ := shape_of_aliasDeclared? hd
      refine legible_statement ?_ ?_
      · rw [hloose.label]
        exact hwords a (List.mem_filter.mp ha).1
      · rw [hs]
        exact hshape e he
  · obtain ⟨r, hr, rfl⟩ := List.mem_map.mp hst
    obtain ⟨c, hc, rfl⟩ := List.mem_map.mp hr
    obtain ⟨e, he, f, hf, hid, hid'⟩ := h.labelled.grounded.exists_ends hc
    have hvalue := hnumbers c.value (List.mem_append_right _ (List.mem_map.mpr ⟨c, hc, rfl⟩))
    refine ⟨?_, by simpa [relating, Statement.numbers] using hvalue⟩
    simpa [relating, Statement.mentioned, ← hid, ← hid'] using ⟨hname e he, hname f hf⟩
  · obtain ⟨a, ha, rfl⟩ := List.mem_map.mp hst
    obtain ⟨e, he, hid, _⟩ := h.exists_of_mem_aliases ha
    have hlabel := hwords a (List.mem_filter.mp ha).1
    refine ⟨?_, by simp [Statement.numbers]⟩
    simpa [Statement.mentioned, ← hid] using ⟨hname e he, hlabel⟩

theorem filter_isStatement_texts {ss : List Statement} (h : ∀ st ∈ ss, st.Legible) :
    (((ss.map Statement.text).map String.toList).map trimWhite).filter isStatement =
      ss.map (·.text.toList) := by
  have htrim : ((ss.map Statement.text).map String.toList).map trimWhite =
      ss.map (·.text.toList) := by
    rw [List.map_map, List.map_map]
    exact List.map_congr_left fun st hst => Statement.trimWhite_text (h st hst)
  rw [htrim, List.filter_eq_self]
  intro cs hcs
  obtain ⟨st, _, rfl⟩ := List.mem_map.mp hcs
  exact Statement.isStatement_text st

theorem newline_not_mem_scriptLines {n : NamedSketch} (h : ∀ st ∈ n.statements, st.Legible) :
    ∀ l ∈ n.scriptLines, '\n' ∉ l.toList := by
  have htexts : ∀ ss : List Statement, (∀ st ∈ ss, st ∈ n.statements) →
      ∀ l ∈ ss.map Statement.text, '\n' ∉ l.toList := by
    intro ss hss l hl
    obtain ⟨st, hst, rfl⟩ := List.mem_map.mp hl
    exact Statement.newline_not_mem_text (h st (hss st hst))
  rw [scriptLines_eq]
  intro l hl
  simp only [List.mem_append, List.mem_cons, List.not_mem_nil, or_false] at hl
  rcases hl with ((rfl | hl) | rfl | rfl) | hl
  · decide
  · exact htexts _ (fun st hst => List.mem_append_left _ hst) l hl
  · decide
  · decide
  · exact htexts _ (fun st hst => List.mem_append_right _ hst) l hl

theorem statementLines_toScript {n : NamedSketch} (h : ∀ st ∈ n.statements, st.Legible) :
    statementLines n.toScript = n.statements.map (·.text.toList) := by
  rw [statementLines, toScript, splitLines_join (newline_not_mem_scriptLines h), scriptLines_eq,
    statements]
  have helements : ((["# elements"].map String.toList).map trimWhite).filter isStatement = [] := by
    decide
  have hconstraints : ((["", "# constraints"].map String.toList).map trimWhite).filter
      isStatement = [] := by
    decide
  have hlast : ([[]].map trimWhite).filter isStatement = [] := by
    decide
  simp only [List.map_append, List.filter_append, helements, hconstraints, hlast,
    List.nil_append, List.append_nil]
  rw [filter_isStatement_texts fun st hst => h st (List.mem_append_left _ hst),
    filter_isStatement_texts fun st hst => h st (List.mem_append_right _ hst)]

theorem ofScript_toScript_of_legible {n n' : NamedSketch} (h : ∀ st ∈ n.statements, st.Legible)
    (hrun : n.statements.foldlM execute {} = .ok n') : ofScript n.toScript = .ok n' := by
  refine ofScript_eq_ok_iff.mpr ⟨n.statements, ?_, hrun⟩
  rw [statementLines_toScript h, List.forall₂_map_left_iff]
  exact List.forall₂_same.mpr fun st hst => Statement.ofChars_text (h st hst)

theorem isWord_of_forall₂ {lines : List (List Char)} {ss : List Statement}
    (h : List.Forall₂ (fun cs st => Statement.ofChars cs = .ok st) lines ss) :
    ∀ st ∈ ss, ∀ l, st.label? = some l → Statement.IsWord l := by
  induction h with
  | nil => simp
  | cons hst _ ih =>
    intro st hm l hl
    rcases List.mem_cons.mp hm with rfl | hm
    · exact Statement.isWord_of_ofChars hst hl
    · exact ih st hm l hl

theorem Tells.words {lines : List (List Char)} {ss : List Statement} {n : NamedSketch}
    (h : Tells ss n) (hread : List.Forall₂ (fun cs st => Statement.ofChars cs = .ok st) lines ss) :
    ∀ p ∈ n.labels, Statement.IsWord p.1 := by
  intro p hp
  have hm : p.1 ∈ ss.filterMap Statement.label? := by
    rw [← h.classed.labels]
    exact List.mem_map.mpr ⟨p, hp, rfl⟩
  obtain ⟨st, hst, hl⟩ := List.mem_filterMap.mp hm
  exact isWord_of_forall₂ hread st hst p.1 hl

theorem Labelled.setSketch {n : NamedSketch} (h : Labelled n) {t : Sketch}
    (ht : Sketch.Reachable t) (hform : Sketch.SameForm n.sketch t) :
    Labelled { n with sketch := t } := by
  refine ⟨ht, h.nodup, fun id => (h.live id).trans ⟨?_, ?_⟩⟩
  · rintro ⟨e, he, rfl⟩
    obtain ⟨e', he', hid, _⟩ := ElementTable.mem_of_roster hform.roster he
    exact ⟨e', he', hid⟩
  · rintro ⟨e, he, rfl⟩
    obtain ⟨e', he', hid, _⟩ := ElementTable.mem_of_roster hform.roster.symm he
    exact ⟨e', he', hid⟩

theorem Shared.setSketch {n : NamedSketch} (h : Shared n) {t : Sketch}
    (hform : Sketch.SameForm n.sketch t) : Shared { n with sketch := t } := by
  intro a b id ha hb hne
  have hkind := h a b id ha hb hne
  rw [ElementTable.kind?_eq_lookup, ← hform.kinds, ← ElementTable.kind?_eq_lookup] at hkind
  exact hkind

def element? (n : NamedSketch) (label : Label) : Option Element :=
  (n.id? label).bind n.sketch.elements.get?

/-- The same drawing, whatever its elements are numbered and in whatever order its labels
stand. -/
structure SameDrawing (n n' : NamedSketch) : Prop where
  labels : (n'.labels.map Prod.fst).Perm (n.labels.map Prod.fst)
  classes : ∀ a b, n'.id? a = n'.id? b ↔ n.id? a = n.id? b
  elements : ∀ a, (n'.element? a).map (fun e => (e.shape, e.fixed)) =
    (n.element? a).map fun e => (e.shape, e.fixed)
  constraints : List.Forall₂ (fun c c' => c'.kind = c.kind ∧ c'.value = c.value ∧
      (∀ a, n'.id? a = some c'.first ↔ n.id? a = some c.first) ∧
      ∀ a, n'.id? a = some c'.second ↔ n.id? a = some c.second)
    n.sketch.constraints.constraints n'.sketch.constraints.constraints

theorem Redrawn.id?_eq_some_iff {n n' : NamedSketch} (hn : Labelled n) (hn' : Labelled n')
    (h : Redrawn n n') {e : Element} (he : e ∈ n.sketch.elements.elements) (a : Label) :
    n'.id? a = some (n.rank e.id) ↔ n.id? a = some e.id := by
  rw [h.id?_eq hn hn']
  constructor
  · intro ha
    obtain ⟨i, hi, heq⟩ := Option.map_eq_some_iff.mp ha
    rw [hi, rank_injective he heq.symm]
  · intro ha
    rw [ha, Option.map_some]

theorem Redrawn.sameDrawing {n n' : NamedSketch} (hn : Labelled n) (hn' : Labelled n')
    (h : Redrawn n n') : SameDrawing n n' := by
  have hlive : ∀ {a id}, n.id? a = some id → ∃ e ∈ n.sketch.elements.elements, e.id = id :=
    fun {a id} ha => (hn.live id).mp ⟨a, ha⟩
  refine ⟨?_, fun a b => ?_, fun a => ?_, ?_⟩
  · have hperm := hn.firsts_append_aliases_perm.map Prod.fst
    rw [h.labels, List.map_map]
    exact hperm
  · cases ha : n.id? a with
    | none =>
      rw [h.id?_eq hn hn', h.id?_eq hn hn', ha]
      cases n.id? b <;> simp
    | some i =>
      obtain ⟨e, he, rfl⟩ := hlive ha
      rw [(h.id?_eq_some_iff hn hn' he a).mpr ha, eq_comm, h.id?_eq_some_iff hn hn' he b, eq_comm]
  · cases ha : n.id? a with
    | none => simp [element?, h.id?_eq hn hn', ha]
    | some i =>
      obtain ⟨e, he, rfl⟩ := hlive ha
      have hget := (ElementTable.get?_eq_some_iff hn.grounded.elements).mpr ⟨he, rfl⟩
      simp [element?, h.id?_eq hn hn', ha, h.get?_rank hn' he, hget, renumber]
  · have hsame : List.Forall₂ (· = ·) (n.sketch.constraints.constraints.map n.rankedRelation)
        (n'.sketch.constraints.constraints.map Constraint.relation) := by
      rw [List.forall₂_eq_eq_eq]
      exact h.constraints.symm
    rw [List.forall₂_map_left_iff, List.forall₂_map_right_iff] at hsame
    have hends := fun c hc => hn.grounded.exists_ends (c := c) hc
    refine ((List.forall₂_and_left _ _).mpr ⟨hends, hsame⟩).imp ?_
    rintro c c' ⟨⟨e, he, f, hf, hid, hid'⟩, heq⟩
    simp only [rankedRelation, Constraint.relation, Prod.mk.injEq, Option.some.injEq] at heq
    obtain ⟨hkind, hfirst, hsecond, hvalue⟩ := heq
    refine ⟨hkind.symm, hvalue.symm, fun a => ?_, fun a => ?_⟩
    · rw [← hfirst, ← hid]
      exact h.id?_eq_some_iff hn hn' he a
    · rw [← hsecond, ← hid']
      exact h.id?_eq_some_iff hn hn' hf a

/-- A sketch that was read, and solved or built any number of times, can be written: the text is
accepted, gives the same drawing, and is its own text. -/
theorem ofScript_toScript {text : String} {n m : NamedSketch} (h : ofScript text = .ok n)
    (solver : LinearSolver) (calls : List Call) (hcalls : ∀ c ∈ calls, c.KeepsForm)
    (hm : m = { n with sketch := Call.runAll solver calls n.sketch })
    (hlines : ∀ e ∈ m.sketch.elements.elements, ∀ l, e.shape = .line l →
      Line.ofCoefficients? l.a l.b l.c = some l)
    (hnumbers : ∀ x ∈ m.numbers,
      Statement.readNumber (Decimal.text x).toList = .ok (x, [])) :
    ∃ m', ofScript m.toScript = .ok m' ∧ SameDrawing m m' ∧ m'.toScript = m.toScript := by
  subst hm
  obtain ⟨ss, hread, hrun⟩ := ofScript_eq_ok_iff.mp h
  have htells := tells_nil.foldlM hrun
  have hshared := Shared.foldlM tells_nil (by intro a b id ha; cases ha) hrun
  have hreachable := htells.labelled.reachable
  have hform := hreachable.sameForm_runAll solver hcalls
  have hwritable : Writable { n with sketch := Call.runAll solver calls n.sketch } :=
    ⟨htells.labelled.setSketch (hreachable.runAll solver calls) hform, hshared.setSketch hform,
      hlines⟩
  obtain ⟨m', hrun', hm', hredrawn⟩ := hwritable.exists_redrawn
  have hlegible : ∀ st ∈
      NamedSketch.statements { n with sketch := Call.runAll solver calls n.sketch },
      st.Legible := fun _ hst => hwritable.legible (htells.words hread) hnumbers hst
  exact ⟨m', ofScript_toScript_of_legible hlegible hrun',
    hredrawn.sameDrawing hwritable.labelled hm', hredrawn.toScript_eq hwritable.labelled hm'⟩

theorem ofScript_toScript_chainScript :
    ∃ n m m', ofScript chainScript = .ok n ∧
      m = { n with sketch := Call.runAll solveLinear [.build, .reset, .solve] n.sketch } ∧
      ofScript m.toScript = .ok m' ∧ SameDrawing m m' ∧ m'.toScript = m.toScript := by
  have hread : ∃ n ∈ (ofScript chainScript).toOption,
      (∀ e ∈ (Call.runAll solveLinear [.build, .reset, .solve] n.sketch).elements.elements,
        ∀ l ∈ e.shape.line?, Line.ofCoefficients? l.a l.b l.c = some l) ∧
      ∀ x ∈ numbers { n with sketch := Call.runAll solveLinear [.build, .reset, .solve] n.sketch },
        Statement.readNumber (Decimal.text x).toList = .ok (x, []) := by
    decide +kernel
  obtain ⟨n, hn, hlines, hnumbers⟩ := hread
  have h : ofScript chainScript = .ok n := by
    cases hr : ofScript chainScript with
    | error e => simp [hr, Except.toOption] at hn
    | ok n' => simpa [hr, Except.toOption] using hn
  obtain ⟨m', hm'⟩ := ofScript_toScript h solveLinear [.build, .reset, .solve]
    (by simp [Call.KeepsForm]) rfl (fun e he l hl => hlines e he l (by rw [hl]; rfl)) hnumbers
  exact ⟨n, _, m', h, rfl, hm'⟩

end NamedSketch

end RigidSketch
