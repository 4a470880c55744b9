import RigidSketch.Proofs.Acceptance

/-! Sketches whose points were edited after they were read. Points may have come without a label,
and are written under their identity; and labels may be left of points that are gone. What is
written then is accepted unless such names get in the way of each other. -/

namespace RigidSketch

open LeastSquares (LinearSolver solveLinear)

theorem ElementId.text_injective : Function.Injective ElementId.text := by
  intro a b h
  have hdigits := congrArg String.toList h
  rw [toList_text, toList_text, List.cons.injEq] at hdigits
  have hvalue := congrArg Numeral.digitsValue hdigits.2
  have hdigitsValue := Numeral.digitsValue_digits
  unfold Decimal.digits at hdigitsValue
  rw [hdigitsValue, hdigitsValue] at hvalue
  obtain ⟨a⟩ := a
  obtain ⟨b⟩ := b
  exact congrArg ElementId.mk hvalue

namespace NamedSketch

def Live (n : NamedSketch) (id : ElementId) : Prop :=
  ∃ e ∈ n.sketch.elements.elements, e.id = id

/-- The label is the identity of an element without labels, which is written under it. -/
def Borrowed (n : NamedSketch) (l : Label) : Prop :=
  ∃ e ∈ n.sketch.elements.elements, (∀ p ∈ n.labels, p.2 ≠ e.id) ∧ e.id.text = l

instance (n : NamedSketch) (id : ElementId) : Decidable (n.Live id) :=
  inferInstanceAs (Decidable (∃ e ∈ n.sketch.elements.elements, e.id = id))

instance (n : NamedSketch) (l : Label) : Decidable (n.Borrowed l) :=
  inferInstanceAs (Decidable (∃ e ∈ n.sketch.elements.elements,
    (∀ p ∈ n.labels, p.2 ≠ e.id) ∧ e.id.text = l))

/-- No label is given twice, and elements with several labels are points. -/
structure Tagged (n : NamedSketch) : Prop where
  reachable : Sketch.Reachable n.sketch
  nodup : (n.labels.map Prod.fst).Nodup
  points : ∀ a ∈ n.aliases, ∀ e ∈ n.sketch.elements.elements, e.id = a.2 → e.shape.kind = .point

/-- The labels that elements are declared under. -/
def written (n : NamedSketch) : List (Label × ElementId) :=
  n.firsts ++ n.aliases.filter fun a => n.Live a.2

theorem mem_firsts_iff {n : NamedSketch} {p : Label × ElementId} :
    p ∈ n.firsts ↔ n.Live p.2 ∧ n.nameOf p.2 = p.1 := by
  constructor
  · intro hp
    obtain ⟨e, he, rfl⟩ := List.mem_map.mp hp
    exact ⟨⟨e, he, rfl⟩, rfl⟩
  · rintro ⟨⟨e, he, hid⟩, hname⟩
    exact List.mem_map.mpr ⟨e, he, by rw [hid, hname]⟩

theorem mem_written_iff {n : NamedSketch} {p : Label × ElementId} :
    p ∈ n.written ↔ n.Live p.2 ∧ (p ∈ n.labels ∨ (∀ q ∈ n.labels, q.2 ≠ p.2) ∧ p.1 = p.2.text) := by
  rw [written, List.mem_append, mem_firsts_iff, List.mem_filter, decide_eq_true_eq]
  constructor
  · rintro (⟨hlive, hname⟩ | ⟨hp, hlive⟩)
    · have hcases := n.nameOf_cases p.2
      rw [hname] at hcases
      exact ⟨hlive, hcases⟩
    · exact ⟨hlive, Or.inl (List.mem_filter.mp hp).1⟩
  · rintro ⟨hlive, hp | ⟨hnone, htext⟩⟩
    · by_cases hname : n.nameOf p.2 = p.1
      · exact Or.inl ⟨hlive, hname⟩
      · exact Or.inr ⟨List.mem_filter.mpr ⟨hp, by simpa using hname⟩, hlive⟩
    · rcases n.nameOf_cases p.2 with hm | ⟨_, hname⟩
      · exact absurd rfl (hnone (n.nameOf p.2, p.2) hm)
      · exact Or.inl ⟨hlive, hname.trans htext.symm⟩

theorem Tagged.grounded {n : NamedSketch} (h : Tagged n) : n.sketch.Grounded :=
  h.reachable.sound.grounded

theorem Tagged.eq_of_label {n : NamedSketch} (h : Tagged n) {p q : Label × ElementId}
    (hp : p ∈ n.labels) (hq : q ∈ n.labels) (heq : p.1 = q.1) : p = q :=
  List.inj_on_of_nodup_map h.nodup hp hq heq

theorem Tagged.nodup_written {n : NamedSketch} (h : Tagged n) : n.written.Nodup := by
  have hfirsts : n.firsts.Nodup := List.Nodup.of_map _ (nodup_ids_firsts h.grounded)
  have haliases : n.aliases.Nodup := (List.Nodup.of_map _ h.nodup).filter _
  refine List.nodup_append.mpr ⟨hfirsts, haliases.filter _, ?_⟩
  rintro p hp _ hq rfl
  have hname := (mem_firsts_iff.mp hp).2
  simpa [hname] using (List.mem_filter.mp (List.mem_filter.mp hq).1).2

theorem Tagged.nodup_labels_written_iff {n : NamedSketch} (h : Tagged n) :
    (n.written.map Prod.fst).Nodup ↔ ∀ p ∈ n.labels, n.Live p.2 → ¬ n.Borrowed p.1 := by
  rw [List.nodup_map_iff_inj_on h.nodup_written]
  constructor
  · rintro hinj p hp hlive ⟨e, he, hnone, htext⟩
    have hm := mem_written_iff.mpr ⟨hlive, Or.inl hp⟩
    have hm' : (e.id.text, e.id) ∈ n.written :=
      mem_written_iff.mpr ⟨⟨e, he, rfl⟩, Or.inr ⟨hnone, rfl⟩⟩
    have heq := hinj _ hm _ hm' htext.symm
    exact hnone p hp (congrArg Prod.snd heq)
  · intro hclear p hp q hq heq
    obtain ⟨⟨e, he, hid⟩, hp⟩ := mem_written_iff.mp hp
    obtain ⟨⟨f, hf, hid'⟩, hq⟩ := mem_written_iff.mp hq
    rcases hp with hp | ⟨hnone, htext⟩ <;> rcases hq with hq | ⟨hnone', htext'⟩
    · exact h.eq_of_label hp hq heq
    · exact absurd ⟨f, hf, by rwa [hid'], by rw [hid', ← htext', heq]⟩ (hclear p hp ⟨e, he, hid⟩)
    · exact absurd ⟨e, he, by rwa [hid], by rw [hid, ← htext, heq]⟩ (hclear q hq ⟨f, hf, hid'⟩)
    · have hids := ElementId.text_injective (htext.symm.trans (heq.trans htext'))
      exact Prod.ext heq hids

/-- A label of an element that is gone is declared only if another element borrows it. -/
theorem Tagged.mem_labels_written_iff {n : NamedSketch} (h : Tagged n) {p : Label × ElementId}
    (hp : p ∈ n.labels) (hgone : ¬ n.Live p.2) :
    p.1 ∈ n.written.map Prod.fst ↔ n.Borrowed p.1 := by
  rw [List.mem_map]
  constructor
  · rintro ⟨q, hq, heq⟩
    obtain ⟨hlive, hq | ⟨hnone, htext⟩⟩ := mem_written_iff.mp hq
    · rw [h.eq_of_label hp hq heq.symm] at hgone
      exact absurd hlive hgone
    · obtain ⟨e, he, hid⟩ := hlive
      exact ⟨e, he, by rwa [hid], by rw [hid, ← htext, heq]⟩
  · rintro ⟨e, he, hnone, htext⟩
    exact ⟨(e.id.text, e.id), mem_written_iff.mpr ⟨⟨e, he, rfl⟩, Or.inr ⟨hnone, rfl⟩⟩, htext⟩

end NamedSketch

/-- The labels that a statement refers to. -/
def Statement.used : Statement → List Label
  | relate _ a b _ | coincide a b => [a, b]
  | _ => []

namespace NamedSketch

theorem Tagged.label_aliasDeclared? {n : NamedSketch} (h : Tagged n) {a : Label × ElementId}
    (ha : a ∈ n.aliases) :
    (n.aliasDeclared? a).map (·.label) = if n.Live a.2 then some a.1 else none := by
  by_cases hlive : n.Live a.2
  · obtain ⟨e, he, hid⟩ := hlive
    have hget := (ElementTable.get?_eq_some_iff h.grounded.elements).mpr ⟨he, hid⟩
    cases hs : e.shape with
    | line l =>
      have hkind := h.points a ha e he hid
      rw [hs] at hkind
      cases hkind
    | point p =>
      rw [if_pos ⟨e, he, hid⟩, aliasDeclared?_eq_some_iff.mpr ⟨e, p, hget, hs, rfl⟩]
      rfl
  · rw [if_neg hlive, Option.map_eq_none_iff, Option.eq_none_iff_forall_ne_some]
    intro d hd
    obtain ⟨e, _, hget, _⟩ := aliasDeclared?_eq_some_iff.mp hd
    obtain ⟨he, hid⟩ := ElementTable.mem_of_get? hget
    exact hlive ⟨e, he, hid⟩

theorem Tagged.labels_statements {n : NamedSketch} (h : Tagged n) :
    n.statements.filterMap Statement.label? = n.written.map Prod.fst := by
  have hlinks : n.links.filterMap Statement.label? = [] :=
    List.filterMap_eq_nil_iff.mpr fun st hst => label?_of_mem_links hst
  have hlabels : (n.declarations.map (·.statement)).filterMap Statement.label? =
      n.declarations.map (·.label) := by
    simp [List.filterMap_map]
  have haliases : (n.aliases.filterMap n.aliasDeclared?).map (·.label) =
      (n.aliases.filter fun a => n.Live a.2).map Prod.fst := by
    rw [List.map_filterMap, ← List.filterMap_eq_map, List.filterMap_filter]
    refine List.filterMap_congr fun a ha => ?_
    simpa using h.label_aliasDeclared? ha
  rw [statements, List.filterMap_append, hlinks, List.append_nil, hlabels, declarations,
    List.map_append, haliases, written, firsts, List.map_append, List.map_map, List.map_map]
  rfl

theorem used_statement {d : Declaration} : d.statement.used = [] := by
  unfold Declaration.statement
  split <;> rfl

theorem mem_written_nameOf {n : NamedSketch} {id : ElementId} (h : n.Live id) :
    n.nameOf id ∈ n.written.map Prod.fst :=
  List.mem_map.mpr ⟨(n.nameOf id, id), List.mem_append_left _ (mem_firsts_iff.mpr ⟨h, rfl⟩), rfl⟩

theorem Tagged.used_statements_iff {n : NamedSketch} (h : Tagged n) :
    (∀ st ∈ n.statements, ∀ l ∈ st.used, l ∈ n.written.map Prod.fst) ↔
      ∀ a ∈ n.aliases, ¬ n.Live a.2 → n.Borrowed a.1 ∧ n.Borrowed (n.nameOf a.2) := by
  have hname : ∀ a ∈ n.aliases, (n.nameOf a.2, a.2) ∈ n.labels := by
    intro a ha
    rcases n.nameOf_cases a.2 with hm | ⟨hnone, _⟩
    · exact hm
    · exact absurd rfl (hnone a (List.mem_filter.mp ha).1)
  constructor
  · intro hused a ha hgone
    have hst : Statement.coincide (n.nameOf a.2) a.1 ∈ n.statements :=
      List.mem_append_right _ (List.mem_append_right _ (List.mem_map.mpr ⟨a, ha, rfl⟩))
    refine ⟨(h.mem_labels_written_iff (List.mem_filter.mp ha).1 hgone).mp ?_,
      (h.mem_labels_written_iff (hname a ha) hgone).mp ?_⟩
    · exact hused _ hst _ (by simp [Statement.used])
    · exact hused _ hst _ (by simp [Statement.used])
  · intro hborrowed st hst l hl
    rw [statements, links, List.mem_append, List.mem_append] at hst
    rcases hst with hst | hst | hst
    · obtain ⟨d, _, rfl⟩ := List.mem_map.mp hst
      rw [used_statement] at hl
      cases hl
    · obtain ⟨r, hr, rfl⟩ := List.mem_map.mp hst
      obtain ⟨c, hc, rfl⟩ := List.mem_map.mp hr
      have hends := h.grounded.ends c hc
      simp only [relating, Statement.used, List.mem_cons, List.not_mem_nil, or_false] at hl
      rcases hl with rfl | rfl
      · exact mem_written_nameOf (hends c.first (Constraint.mem_ends.mpr (Or.inl rfl)))
      · exact mem_written_nameOf (hends c.second (Constraint.mem_ends.mpr (Or.inr rfl)))
    · obtain ⟨a, ha, rfl⟩ := List.mem_map.mp hst
      have hm := (List.mem_filter.mp ha).1
      simp only [Statement.used, List.mem_cons, List.not_mem_nil, or_false] at hl
      by_cases hlive : n.Live a.2
      · rcases hl with rfl | rfl
        · exact mem_written_nameOf hlive
        · exact List.mem_map.mpr ⟨a, mem_written_iff.mpr ⟨hlive, Or.inl hm⟩, rfl⟩
      · obtain ⟨hlabel, hfirst⟩ := hborrowed a ha hlive
        rcases hl with rfl | rfl
        · exact (h.mem_labels_written_iff (hname a ha) hlive).mpr hfirst
        · exact (h.mem_labels_written_iff hm hlive).mpr hlabel

/-- Statements that are accepted declare no label twice, and use only what they declare. -/
theorem nodup_and_used_of_foldlM {ss : List Statement} {n : NamedSketch}
    (hrun : ss.foldlM execute {} = .ok n) :
    (ss.filterMap Statement.label?).Nodup ∧
      ∀ st ∈ ss, ∀ l ∈ st.used, l ∈ ss.filterMap Statement.label? := by
  have htells := tells_nil.foldlM hrun
  rw [List.nil_append] at htells
  have hmem : ∀ {l id}, n.id? l = some id → l ∈ ss.filterMap Statement.label? := by
    intro l id hl
    rw [← htells.classed.labels]
    by_contra hnot
    rw [id?_eq_none_iff.mpr hnot] at hl
    cases hl
  refine ⟨htells.classed.labels ▸ htells.labelled.nodup, fun st hst l hl => ?_⟩
  cases st with
  | point | line => cases hl
  | relate kind a b value =>
    obtain ⟨e, f, ha, hb⟩ := htells.constrained.named kind a b value hst
    simp only [Statement.used, List.mem_cons, List.not_mem_nil, or_false] at hl
    rcases hl with rfl | rfl
    · exact hmem ha
    · exact hmem hb
  | coincide a b =>
    obtain ⟨id, ha, hb⟩ := htells.classed.merged a b hst
    simp only [Statement.used, List.mem_cons, List.not_mem_nil, or_false] at hl
    rcases hl with rfl | rfl
    · exact hmem ha
    · exact hmem hb

/-- The sketch with the labels that its elements are declared under. -/
def titled (n : NamedSketch) : NamedSketch := { n with labels := n.written }

theorem nameOf_titled {n : NamedSketch} (h : Tagged n) {id : ElementId} (hid : n.Live id) :
    n.titled.nameOf id = n.nameOf id := by
  have hfind : n.firsts.find? (·.2 = id) = some (n.nameOf id, id) :=
    (find?_key_eq_some_iff (nodup_ids_firsts h.grounded)).mpr
      ⟨mem_firsts_iff.mpr ⟨hid, rfl⟩, rfl⟩
  have hlabels : n.titled.labels = n.firsts ++ n.aliases.filter fun a => n.Live a.2 := rfl
  rw [nameOf, hlabels, List.find?_append, hfind]
  rfl

theorem aliases_titled {n : NamedSketch} (h : Tagged n) (hlive : ∀ a ∈ n.aliases, n.Live a.2) :
    n.titled.aliases = n.aliases := by
  have hfirsts : n.firsts.filter (fun p => n.titled.nameOf p.2 ≠ p.1) = [] := by
    rw [List.filter_eq_nil_iff]
    intro p hp
    obtain ⟨hid, hname⟩ := mem_firsts_iff.mp hp
    simpa [nameOf_titled h hid] using hname
  have haliases : n.aliases.filter (fun p => n.titled.nameOf p.2 ≠ p.1) = n.aliases := by
    rw [List.filter_eq_self]
    intro p hp
    simpa [nameOf_titled h (hlive p hp)] using (List.mem_filter.mp hp).2
  have hall : (n.aliases.filter fun a => n.Live a.2) = n.aliases :=
    List.filter_eq_self.mpr fun a ha => by simpa using hlive a ha
  calc n.titled.aliases = n.written.filter fun p => n.titled.nameOf p.2 ≠ p.1 := rfl
    _ = n.aliases := by rw [written, hall, List.filter_append, hfirsts, haliases, List.nil_append]

theorem statements_titled {n : NamedSketch} (h : Tagged n) (hlive : ∀ a ∈ n.aliases, n.Live a.2) :
    n.titled.statements = n.statements := by
  have haliases := aliases_titled h hlive
  have hdeclarations : n.titled.declarations = n.declarations := by
    rw [declarations, declarations, haliases]
    refine congrArg (· ++ _) (List.map_congr_left fun e he => ?_)
    rw [nameOf_titled h ⟨e, he, rfl⟩]
  have hrelations : n.titled.relations = n.relations := by
    refine List.map_congr_left fun c hc => ?_
    have hends := h.grounded.ends c hc
    rw [nameOf_titled h (hends c.first (Constraint.mem_ends.mpr (Or.inl rfl))),
      nameOf_titled h (hends c.second (Constraint.mem_ends.mpr (Or.inr rfl)))]
  have hlinks : n.titled.links = n.links := by
    rw [links, links, hrelations, haliases]
    refine congrArg (_ ++ ·) (List.map_congr_left fun a ha => ?_)
    rw [nameOf_titled h (hlive a ha)]
  rw [statements, statements, hdeclarations, hlinks]

theorem Tagged.writable_titled {n : NamedSketch} (h : Tagged n)
    (hclear : ∀ p ∈ n.labels, n.Live p.2 → ¬ n.Borrowed p.1)
    (hlines : ∀ e ∈ n.sketch.elements.elements, ∀ l, e.shape = .line l →
      Line.ofCoefficients? l.a l.b l.c = some l) : Writable n.titled := by
  have hnodup := h.nodup_labels_written_iff.mpr hclear
  have hid : ∀ {l id}, n.titled.id? l = some id ↔ (l, id) ∈ n.written := id?_eq_some_iff hnodup
  refine ⟨⟨h.reachable, hnodup, fun id => ?_⟩, ?_, hlines⟩
  · constructor
    · rintro ⟨l, hl⟩
      exact (mem_written_iff.mp (hid.mp hl)).1
    · intro hlive
      exact ⟨n.nameOf id, hid.mpr (List.mem_append_left _ (mem_firsts_iff.mpr ⟨hlive, rfl⟩))⟩
  · -- of two labels one is not the first, so it is an alias, and its element is a point
    intro a b id ha hb hne
    have hpoint : ∀ l, (l, id) ∈ n.aliases.filter (fun p => n.Live p.2) →
        n.sketch.elements.kind? id = some .point := by
      intro l hl
      obtain ⟨hm, hlive⟩ := List.mem_filter.mp hl
      obtain ⟨e, he, hid'⟩ := of_decide_eq_true hlive
      have hget := (ElementTable.get?_eq_some_iff h.grounded.elements).mpr ⟨he, hid'⟩
      have hkind := h.points _ hm e he hid'
      simp [ElementTable.kind?, hget, hkind]
    rcases List.mem_append.mp (hid.mp ha) with ha | ha
    · rcases List.mem_append.mp (hid.mp hb) with hb | hb
      · exact absurd ((mem_firsts_iff.mp ha).2.symm.trans (mem_firsts_iff.mp hb).2) hne
      · exact hpoint b hb
    · exact hpoint a ha

end NamedSketch

/-- Edits that add points, merge them, set distances and change values. -/
def Call.EditsPoints : Call → Prop
  | addPoint _ _ _ | combine _ _ | constrain .distance _ _ _ | setValue _ _ => True
  | _ => False

namespace Sketch

variable {solver : LinearSolver}

theorem mem_of_line_run {s : Sketch} {c : Call} (hc : c.EditsPoints) {e : Element}
    (he : e ∈ (c.run solver s).elements.elements) (hline : e.shape.kind = .line) :
    e ∈ s.elements.elements := by
  cases c with
  | addPoint fixed x y =>
    rcases List.mem_append.mp he with he | he
    · exact he
    · rw [List.mem_singleton.mp he] at hline
      cases hline
  | constrain kind first second value =>
    dsimp only [Call.run] at he
    cases hr : s.constrain kind first second value with
    | error _ => rwa [hr] at he
    | ok r =>
      obtain ⟨_, _, heq⟩ := constrain_eq_ok hr
      rw [hr] at he
      dsimp only [Except.toOption, Option.map_some, Option.getD_some] at he
      rwa [heq] at he
  | setValue id value =>
    dsimp only [Call.run] at he
    cases hr : s.setValue id value with
    | error _ => rwa [hr] at he
    | ok t =>
      obtain ⟨_, _, _, heq⟩ := setValue_eq_ok hr
      rw [hr] at he
      dsimp only [Except.toOption, Option.getD_some] at he
      rwa [heq] at he
  | combine keep remove =>
    dsimp only [Call.run] at he
    cases hr : s.combine keep remove with
    | error _ => rwa [hr] at he
    | ok t =>
      rw [hr] at he
      dsimp only [Except.toOption, Option.getD_some] at he
      rcases combine_eq_ok hr with ⟨_, rfl⟩ | ⟨_, kept, removed, _, ⟨_, _, hpoint⟩, rfl⟩
      · exact he
      · obtain ⟨x, hx, _, rfl⟩ := NamedSketch.mem_elements_combine.mp he
        unfold heir at hline ⊢
        split at hline
        · rw [hpoint] at hline
          cases hline
        · rw [if_neg ‹_›]
          exact hx
  | _ => cases hc

theorem mem_of_line_runAll {s : Sketch} {calls : List Call} (hcalls : ∀ c ∈ calls, c.EditsPoints)
    {e : Element} (he : e ∈ (Call.runAll solver calls s).elements.elements)
    (hline : e.shape.kind = .line) : e ∈ s.elements.elements := by
  induction calls generalizing s with
  | nil => exact he
  | cons c calls ih =>
    have hrest := ih (fun d hd => hcalls d (.tail _ hd)) he
    exact mem_of_line_run (hcalls c (.head _)) hrest hline

end Sketch

namespace NamedSketch

theorem tagged_of_edits {text : String} {n : NamedSketch} (h : ofScript text = .ok n)
    (solver : LinearSolver) {calls : List Call} (hcalls : ∀ c ∈ calls, c.EditsPoints) :
    Tagged { n with sketch := Call.runAll solver calls n.sketch } := by
  obtain ⟨ss, _, hrun⟩ := ofScript_eq_ok_iff.mp h
  have htells := tells_nil.foldlM hrun
  have hshared : Shared n := Shared.foldlM tells_nil (by intro a b id ha; cases ha) hrun
  refine ⟨htells.labelled.reachable.runAll solver calls, htells.labelled.nodup, ?_⟩
  intro a ha e he hid
  cases hkind : e.shape.kind with
  | point => rfl
  | line =>
    -- lines are those that were read, and none of these has several labels
    have hread := Sketch.mem_of_line_runAll hcalls he hkind
    have hget := (ElementTable.get?_eq_some_iff htells.labelled.grounded.elements).mpr ⟨hread, hid⟩
    have hpoint := hshared.kind?_of_mem_aliases htells.labelled ha
    simp [ElementTable.kind?, hget, hkind] at hpoint

/-- A sketch whose points were edited after it was read is always written as statements. They
declare no label twice if and only if no label of an element that is there is the identity of one
without labels, and use only what they declare if and only if all labels of a point that is gone,
where it had several, are such identities. The text is accepted only if both hold, and it is
accepted if no such identity is in the way and no point that is gone had several labels. -/
theorem ofScript_toScript_of_edits {text : String} {n m : NamedSketch} (h : ofScript text = .ok n)
    (solver : LinearSolver) (calls : List Call) (hcalls : ∀ c ∈ calls, c.EditsPoints)
    (hm : m = { n with sketch := Call.runAll solver calls n.sketch })
    (hlines : ∀ e ∈ m.sketch.elements.elements, ∀ l, e.shape = .line l →
      Line.ofCoefficients? l.a l.b l.c = some l) :
    ∃ ss, List.Forall₂ (fun cs st => Statement.ofChars cs = .ok st) (statementLines m.toScript) ss ∧
      ((ss.filterMap Statement.label?).Nodup ↔ ∀ p ∈ m.labels, m.Live p.2 → ¬ m.Borrowed p.1) ∧
      ((∀ st ∈ ss, ∀ l ∈ st.used, l ∈ ss.filterMap Statement.label?) ↔
        ∀ a ∈ m.aliases, ¬ m.Live a.2 → m.Borrowed a.1 ∧ m.Borrowed (m.nameOf a.2)) ∧
      ((∃ m', ofScript m.toScript = .ok m') → (ss.filterMap Statement.label?).Nodup ∧
        ∀ st ∈ ss, ∀ l ∈ st.used, l ∈ ss.filterMap Statement.label?) ∧
      ((∀ p ∈ m.labels, m.Live p.2 → ¬ m.Borrowed p.1) → (∀ a ∈ m.aliases, m.Live a.2) →
        ∃ m', ofScript m.toScript = .ok m') := by
  have htagged : Tagged m := hm ▸ tagged_of_edits h solver hcalls
  obtain ⟨ss, hread, hrun⟩ := ofScript_eq_ok_iff.mp h
  have hwords : ∀ p ∈ m.labels, Statement.IsWord p.1 := by
    rw [hm]
    exact (tells_nil.foldlM hrun).words hread
  have hlabels := htagged.labels_statements
  refine ⟨m.statements, forall₂_statements hwords, ?_, ?_, ?_, ?_⟩
  · rw [hlabels]
    exact htagged.nodup_labels_written_iff
  · rw [hlabels]
    exact htagged.used_statements_iff
  · rintro ⟨m', hm'⟩
    exact nodup_and_used_of_foldlM ((ofScript_toScript_eq_ok_iff hwords).mp hm')
  · intro hclear hlive
    obtain ⟨m', hm', _⟩ := (htagged.writable_titled hclear hlines).exists_redrawn
    rw [statements_titled htagged hlive] at hm'
    exact ⟨m', (ofScript_toScript_eq_ok_iff hwords).mpr hm'⟩

theorem ofScript_toScript_of_edits_chainScript :
    ∃ n m m', ofScript chainScript = .ok n ∧
      m = { n with sketch := Call.runAll solveLinear [.addPoint false 7 7,
        .constrain .distance ⟨0⟩ ⟨5⟩ 2, .setValue ⟨0⟩ 3, .addPoint true 1 2,
        .combine ⟨5⟩ ⟨6⟩] n.sketch } ∧
      ofScript m.toScript = .ok m' := by
  let calls : List Call := [.addPoint false 7 7, .constrain .distance ⟨0⟩ ⟨5⟩ 2, .setValue ⟨0⟩ 3,
    .addPoint true 1 2, .combine ⟨5⟩ ⟨6⟩]
  let after (n : NamedSketch) : NamedSketch :=
    { n with sketch := Call.runAll solveLinear calls n.sketch }
  have hread : ∃ n ∈ (ofScript chainScript).toOption,
      (∀ e ∈ (after n).sketch.elements.elements, ∀ l ∈ e.shape.line?,
        Line.ofCoefficients? l.a l.b l.c = some l) ∧
      (∀ p ∈ (after n).labels, (after n).Live p.2 → ¬ (after n).Borrowed p.1) ∧
      ∀ a ∈ (after n).aliases, (after n).Live a.2 := by
    decide +kernel
  obtain ⟨n, hn, hlines, hclear, hlive⟩ := hread
  have h := eq_ok_of_mem_toOption hn
  obtain ⟨_, _, _, _, _, haccepted⟩ := ofScript_toScript_of_edits (m := after n) h solveLinear calls
    (by simp [calls, Call.EditsPoints]) rfl fun e he l hl => hlines e he l (by rw [hl]; rfl)
  obtain ⟨m', hm'⟩ := haccepted hclear hlive
  exact ⟨n, after n, m', h, rfl, hm'⟩

/-- Its point has the identity of the next one for a label. -/
def borrowedScript : String := "point e1 (0, 0)\n"

/-- A point with two labels, and another one that it can be merged into. -/
def danglingScript : String :=
  "point a (0, 0)\npoint b (0, 0)\npoint c (5, 5)\ncoincident(a, b)\n"

theorem toScript_of_edits_refused :
    (∃ n, ofScript borrowedScript = .ok n ∧
      ofScript (toScript { n with sketch := (n.sketch.addPoint false 1 1).1 }) =
        .error ⟨3, .redeclared "e1"⟩) ∧
    ∃ n t, ofScript danglingScript = .ok n ∧ n.sketch.combine ⟨2⟩ ⟨0⟩ = .ok t ∧
      ofScript (toScript { n with sketch := t }) = .error ⟨5, .undeclared "a"⟩ := by
  have hborrowed : ∃ n ∈ (ofScript borrowedScript).toOption,
      ofScript (toScript { n with sketch := (n.sketch.addPoint false 1 1).1 }) =
        .error ⟨3, .redeclared "e1"⟩ := by
    decide +kernel
  have hdangling : ∃ n ∈ (ofScript danglingScript).toOption,
      ∃ t ∈ (n.sketch.combine ⟨2⟩ ⟨0⟩).toOption,
        ofScript (toScript { n with sketch := t }) = .error ⟨5, .undeclared "a"⟩ := by
    decide +kernel
  obtain ⟨n, hn, herror⟩ := hborrowed
  obtain ⟨k, hk, t, ht, herror'⟩ := hdangling
  exact ⟨⟨n, eq_ok_of_mem_toOption hn, herror⟩,
    ⟨k, t, eq_ok_of_mem_toOption hk, eq_ok_of_mem_toOption ht, herror'⟩⟩

end NamedSketch

end RigidSketch
