import RigidSketch.Proofs.Redrawing

/-! The statements that a sketch is written as. Executing them leads to the same sketch, with its
elements numbered anew. -/

namespace RigidSketch

theorem Sketch.Grounded.exists_ends {s : Sketch} (hg : Grounded s) {c : Constraint}
    (hc : c ∈ s.constraints.constraints) : ∃ e ∈ s.elements.elements, ∃ f ∈ s.elements.elements,
      e.id = c.first ∧ f.id = c.second := by
  obtain ⟨e, he, hid⟩ := hg.ends c hc c.first (Constraint.mem_ends.mpr (Or.inl rfl))
  obtain ⟨f, hf, hid'⟩ := hg.ends c hc c.second (Constraint.mem_ends.mpr (Or.inr rfl))
  exact ⟨e, he, f, hf, hid, hid'⟩

namespace NamedSketch

/-- Only points have several labels. -/
def Shared (n : NamedSketch) : Prop :=
  ∀ a b id, n.id? a = some id → n.id? b = some id → a ≠ b →
    n.sketch.elements.kind? id = some .point

theorem Shared.executes {n n' : NamedSketch} {st : Statement} (hn : Labelled n) (h : Shared n)
    (hst : n.Executes st n') : Shared n' := by
  intro a b id ha hb hne
  cases hst with
  | @declare _ label shape _ _ hnew =>
    rcases id?_of_declare ha with ha | ⟨rfl, rfl⟩
    · rcases id?_of_declare hb with hb | ⟨_, rfl⟩
      · exact ElementTable.kind?_insert (h a b id ha hb hne) _ _
      · exact absurd ha (hn.fresh a)
    · rcases id?_of_declare hb with hb | ⟨rfl, _⟩
      · exact absurd hb (hn.fresh b)
      · exact absurd rfl hne
  | relate _ _ ht =>
    obtain ⟨_, _, rfl⟩ := Sketch.constrain_eq_ok ht
    exact h a b id ha hb hne
  | @coincide _ _ e f t _ _ ht =>
    rw [id?_relabel] at ha hb
    obtain ⟨i, hi, rfl⟩ := Option.map_eq_some_iff.mp ha
    obtain ⟨j, hj, hij⟩ := Option.map_eq_some_iff.mp hb
    refine Sketch.kind?_of_combine hn.grounded ht ?_
    by_cases heq : i = j
    · exact h a b i hi (heq ▸ hj) hne
    · -- the labels were of the two points that are merged now
      rcases Sketch.combine_eq_ok ht with ⟨rfl, _⟩ | ⟨_, kept, removed, hk, ⟨hr, hp, hq⟩, _⟩
      · grind
      · have hi' : i = f ∨ i = e := by grind
        rcases hi' with rfl | rfl
        · simp [ElementTable.kind?, hr, hq]
        · simp [ElementTable.kind?, hk, hp]

theorem Shared.foldlM {ss ss' : List Statement} {n n' : NamedSketch} (hn : Tells ss n)
    (h : Shared n) (hr : ss'.foldlM execute n = .ok n') : Shared n' := by
  induction ss' generalizing ss n with
  | nil =>
    cases hr
    exact h
  | cons st ss' ih =>
    rw [List.foldlM_cons, bind_eq_ok_iff] at hr
    obtain ⟨m, hm, hr⟩ := hr
    have hst := execute_eq_ok_iff.mp hm
    exact ih (hn.executes hst) (h.executes hn.labelled hst) hr

/-- The elements in order, each with the label that it is written under. -/
def firsts (n : NamedSketch) : List (Label × ElementId) :=
  n.sketch.elements.elements.map fun e => (n.nameOf e.id, e.id)

theorem nameOf_cases (n : NamedSketch) (id : ElementId) :
    (n.nameOf id, id) ∈ n.labels ∨ (∀ p ∈ n.labels, p.2 ≠ id) ∧ n.nameOf id = id.text := by
  unfold nameOf
  cases hfind : n.labels.find? (·.2 = id) with
  | none => exact Or.inr ⟨by simpa using hfind, rfl⟩
  | some p =>
    have hid : p.2 = id := by simpa using List.find?_some hfind
    left
    rw [← hid]
    exact List.mem_of_find?_eq_some hfind

theorem Labelled.nameOf_mem {n : NamedSketch} (h : Labelled n) {e : Element}
    (he : e ∈ n.sketch.elements.elements) : (n.nameOf e.id, e.id) ∈ n.labels := by
  obtain ⟨l, hl⟩ := (h.live e.id).mpr ⟨e, he, rfl⟩
  have hm := (id?_eq_some_iff h.nodup).mp hl
  rcases n.nameOf_cases e.id with hname | ⟨hnone, _⟩
  · exact hname
  · exact absurd rfl (hnone _ hm)

theorem Labelled.mem_firsts {n : NamedSketch} (h : Labelled n) {p : Label × ElementId} :
    p ∈ n.firsts ↔ p ∈ n.labels ∧ n.nameOf p.2 = p.1 := by
  constructor
  · intro hp
    obtain ⟨e, he, rfl⟩ := List.mem_map.mp hp
    exact ⟨h.nameOf_mem he, rfl⟩
  · rintro ⟨hp, hname⟩
    obtain ⟨e, he, hid⟩ := (h.live p.2).mp ⟨p.1, (id?_eq_some_iff h.nodup).mpr hp⟩
    exact List.mem_map.mpr ⟨e, he, by rw [hid, hname]⟩

theorem Labelled.nodup_labels {n : NamedSketch} (h : Labelled n) : n.labels.Nodup :=
  List.Nodup.of_map _ h.nodup

theorem nodup_ids_firsts {n : NamedSketch} (h : n.sketch.Grounded) :
    (n.firsts.map Prod.snd).Nodup := by
  rw [firsts, List.map_map]
  exact ElementTable.nodup_ids h.elements

theorem Labelled.nodup_firsts {n : NamedSketch} (h : Labelled n) : n.firsts.Nodup :=
  List.Nodup.of_map _ (nodup_ids_firsts h.grounded)

/-- Every label is the first one of its element or a further one. -/
theorem Labelled.firsts_append_aliases_perm {n : NamedSketch} (h : Labelled n) :
    (n.firsts ++ n.aliases).Perm n.labels := by
  have hfirsts : n.firsts.Perm (n.labels.filter fun p => n.nameOf p.2 = p.1) := by
    rw [List.perm_ext_iff_of_nodup h.nodup_firsts (h.nodup_labels.filter _)]
    intro p
    rw [h.mem_firsts, List.mem_filter, decide_eq_true_eq]
  have haliases : n.aliases = n.labels.filter fun p => !decide (n.nameOf p.2 = p.1) := by
    refine List.filter_congr fun p _ => ?_
    simp
  rw [haliases]
  exact (hfirsts.append_right _).trans (List.filter_append_perm _ _)

/-- The identity that an element gets when the sketch is read again. -/
def rank (n : NamedSketch) (id : ElementId) : ElementId :=
  ⟨(n.sketch.elements.elements.map Element.id).idxOf id⟩

/-- What a constraint asks for, between the new identities of its ends. -/
def rankedRelation (n : NamedSketch) (c : Constraint) :
    RelationKind × Option ElementId × Option ElementId × Float :=
  (c.kind, some (n.rank c.first), some (n.rank c.second), c.value)

def renumber (n : NamedSketch) (e : Element) : Element :=
  { id := n.rank e.id, shape := e.shape, fixed := e.fixed }

theorem map_zipIdx_elements {n : NamedSketch} (h : Labelled n) {β : Type}
    (f : Element → ElementId → β) :
    n.sketch.elements.elements.zipIdx.map (fun p => f p.1 ⟨p.2⟩) =
      n.sketch.elements.elements.map fun e => f e (n.rank e.id) := by
  have hnodup := ElementTable.nodup_ids h.grounded.elements
  refine List.ext_getElem (by simp) fun i hi hi' => ?_
  have hlt : i < (n.sketch.elements.elements.map Element.id).length := by simpa using hi
  have hidx := hnodup.idxOf_getElem i hlt
  rw [List.getElem_map] at hidx
  simp [rank, hidx]

theorem map_zipIdx_fst {α β : Type} (l : List α) (k : Nat) (f : α → β) :
    (l.zipIdx k).map (fun p => f p.1) = l.map f := by
  have hfst := congrArg (List.map f) (List.zipIdx_map_fst k l)
  rwa [List.map_map] at hfst

theorem rank_injective {n : NamedSketch} {e : Element} (he : e ∈ n.sketch.elements.elements)
    {id : ElementId} (h : n.rank e.id = n.rank id) : e.id = id := by
  have hm : e.id ∈ n.sketch.elements.elements.map Element.id := List.mem_map.mpr ⟨e, he, rfl⟩
  exact (List.idxOf_inj hm).mp (congrArg ElementId.number h)

def aliasDeclared? (n : NamedSketch) (a : Label × ElementId) : Option Declaration :=
  match n.sketch.elements.get? a.2 with
  | some e =>
    match e.shape with
    | .point p => some ⟨a.1, false, .point p⟩
    | .line _ => none
  | none => none

theorem aliasDeclared?_eq_some_iff {n : NamedSketch} {a : Label × ElementId} {d : Declaration} :
    n.aliasDeclared? a = some d ↔ ∃ e p, n.sketch.elements.get? a.2 = some e ∧
      e.shape = .point p ∧ d = ⟨a.1, false, .point p⟩ := by
  unfold aliasDeclared?
  cases n.sketch.elements.get? a.2 with
  | none => simp
  | some e => cases hs : e.shape <;> simp [hs, eq_comm]

def declarations (n : NamedSketch) : List Declaration :=
  n.sketch.elements.elements.map (fun e => ⟨n.nameOf e.id, e.fixed, e.shape⟩) ++
    n.aliases.filterMap n.aliasDeclared?

def relations (n : NamedSketch) : List (RelationKind × Label × Label × Float) :=
  n.sketch.constraints.constraints.map fun c =>
    (c.kind, n.nameOf c.first, n.nameOf c.second, c.value)

def links (n : NamedSketch) : List Statement :=
  n.relations.map relating ++ n.aliases.map fun a => .coincide (n.nameOf a.2) a.1

def statements (n : NamedSketch) : List Statement := n.declarations.map (·.statement) ++ n.links

/-- Elements with several labels are points, and a line is the one with its own coefficients. -/
structure Writable (n : NamedSketch) : Prop where
  labelled : Labelled n
  shared : Shared n
  lines : ∀ e ∈ n.sketch.elements.elements, ∀ l, e.shape = .line l →
    Line.ofCoefficients? l.a l.b l.c = some l

theorem Shared.kind?_of_mem_aliases {n : NamedSketch} (h : Shared n) (hn : Labelled n)
    {a : Label × ElementId} (ha : a ∈ n.aliases) :
    n.sketch.elements.kind? a.2 = some .point := by
  obtain ⟨hm, hne⟩ := List.mem_filter.mp ha
  have hid := (id?_eq_some_iff hn.nodup).mpr hm
  obtain ⟨e, he, heq⟩ := (hn.live a.2).mp ⟨a.1, hid⟩
  have hname := (id?_eq_some_iff hn.nodup).mpr (hn.nameOf_mem he)
  rw [heq] at hname
  exact h _ _ _ hname hid (by simpa using hne)

theorem Writable.exists_of_mem_aliases {n : NamedSketch} (h : Writable n) {a : Label × ElementId}
    (ha : a ∈ n.aliases) :
    ∃ e ∈ n.sketch.elements.elements, e.id = a.2 ∧ e.shape.kind = .point :=
  ElementTable.exists_of_kind? (h.shared.kind?_of_mem_aliases h.labelled ha)

/-- A declaration of a loose point under the given label. -/
structure Declaration.IsLoose (d : Declaration) (l : Label) : Prop where
  label : d.label = l
  fixed : d.fixed = false
  kind : d.shape.kind = .point

theorem Writable.aliasDeclared? {n : NamedSketch} (h : Writable n) {a : Label × ElementId}
    (ha : a ∈ n.aliases) : ∃ d, n.aliasDeclared? a = some d ∧ d.IsLoose a.1 := by
  obtain ⟨e, he, hid, hkind⟩ := h.exists_of_mem_aliases ha
  have hget := (ElementTable.get?_eq_some_iff h.labelled.grounded.elements).mpr ⟨he, hid⟩
  cases hp : e.shape with
  | line l => simp [hp, Shape.kind] at hkind
  | point p =>
    exact ⟨⟨a.1, false, .point p⟩, by simp [NamedSketch.aliasDeclared?, hget, hp], rfl, rfl, rfl⟩

theorem Writable.isLoose {n : NamedSketch} (h : Writable n) {d : Declaration}
    (hd : d ∈ n.aliases.filterMap n.aliasDeclared?) :
    ∃ a ∈ n.aliases, n.aliasDeclared? a = some d ∧ d.IsLoose a.1 := by
  obtain ⟨a, ha, hd⟩ := List.mem_filterMap.mp hd
  obtain ⟨d', hd', hloose⟩ := h.aliasDeclared? ha
  obtain rfl := Option.some.inj (hd.symm.trans hd')
  exact ⟨a, ha, hd, hloose⟩

theorem Writable.labels_aliases {n : NamedSketch} (h : Writable n) :
    (n.aliases.filterMap n.aliasDeclared?).map (·.label) = n.aliases.map Prod.fst := by
  rw [List.map_filterMap, ← List.filterMap_eq_map]
  refine List.filterMap_congr fun a ha => ?_
  obtain ⟨d, hd, hloose⟩ := h.aliasDeclared? ha
  simp [hd, hloose.label]

theorem shape?_statement {d : Declaration}
    (h : ∀ l, d.shape = .line l → Line.ofCoefficients? l.a l.b l.c = some l) :
    d.statement.shape? = some d.shape := by
  unfold Declaration.statement
  cases hs : d.shape with
  | point p => rfl
  | line l => simp [Statement.shape?, h l hs]

theorem Writable.labels_declarations {n : NamedSketch} (h : Writable n) :
    n.declarations.map (·.label) = (n.firsts ++ n.aliases).map Prod.fst := by
  rw [declarations, List.map_append, h.labels_aliases, List.map_append, firsts, List.map_map,
    List.map_map]
  rfl

theorem Writable.shape?_of_mem_declarations {n : NamedSketch} (h : Writable n) {d : Declaration}
    (hd : d ∈ n.declarations) : d.statement.shape? = some d.shape := by
  refine shape?_statement fun l hl => ?_
  rcases List.mem_append.mp hd with hd | hd
  · obtain ⟨e, he, rfl⟩ := List.mem_map.mp hd
    exact h.lines e he l hl
  · obtain ⟨_, _, _, hloose⟩ := h.isLoose hd
    have hkind := hloose.kind
    rw [hl] at hkind
    cases hkind

/-- A sketch with the same elements in the same order, numbered anew, and their first labels
before the others. -/
structure Redrawn (n n' : NamedSketch) : Prop where
  labels : n'.labels = (n.firsts ++ n.aliases).map fun p => (p.1, n.rank p.2)
  elements : n'.sketch.elements.elements = n.sketch.elements.elements.map n.renumber
  constraints : n'.sketch.constraints.constraints.map Constraint.relation =
    n.sketch.constraints.constraints.map n.rankedRelation

/-- Labels as they are declared: those of one element are still apart. -/
def declaredLabels (n : NamedSketch) : List (Label × ElementId) :=
  n.firsts.map (fun p => (p.1, n.rank p.2)) ++
    (n.aliases.zipIdx n.sketch.elements.elements.length).map fun p => (p.1.1, ⟨p.2⟩)

def looseElements (n : NamedSketch) : List Element :=
  ((n.aliases.filterMap n.aliasDeclared?).zipIdx n.sketch.elements.elements.length).map fun p =>
    { id := ⟨p.2⟩, shape := p.1.shape, fixed := p.1.fixed }

theorem map_zipIdx_firsts {n : NamedSketch} (h : Labelled n) :
    ((n.firsts.map Prod.fst).zipIdx 0).map (fun p => (p.1, ElementId.mk p.2)) =
      n.firsts.map fun p => (p.1, n.rank p.2) := by
  rw [firsts, List.map_map, List.map_map, List.zipIdx_map, List.map_map]
  exact map_zipIdx_elements h fun e id => (n.nameOf e.id, id)

theorem map_zipIdx_renumber {n : NamedSketch} (h : Labelled n) :
    ((n.sketch.elements.elements.map fun e =>
      Declaration.mk (n.nameOf e.id) e.fixed e.shape).zipIdx 0).map
        (fun p => ({ id := ⟨p.2⟩, shape := p.1.shape, fixed := p.1.fixed } : Element)) =
      n.sketch.elements.elements.map n.renumber := by
  rw [List.zipIdx_map, List.map_map]
  exact map_zipIdx_elements h fun e id => ({ id, shape := e.shape, fixed := e.fixed } : Element)

theorem Writable.foldlM_declarations {n : NamedSketch} (h : Writable n) :
    ∃ n₁, (n.declarations.map (·.statement)).foldlM execute {} = .ok n₁ ∧
      n₁.labels = n.declaredLabels ∧
      n₁.sketch.elements.elements =
        n.sketch.elements.elements.map n.renumber ++ n.looseElements ∧
      n₁.sketch.constraints.constraints = [] := by
  have hnodup : (n.declarations.map (·.label)).Nodup := by
    rw [h.labels_declarations]
    exact (h.labelled.firsts_append_aliases_perm.map Prod.fst).nodup_iff.mpr h.labelled.nodup
  obtain ⟨n₁, hrun, hl, he, hc⟩ := foldlM_declare (n := {})
    (fun d hd => h.shape?_of_mem_declarations hd) (by simpa using hnodup)
  refine ⟨n₁, hrun, ?_, ?_, by rw [hc]⟩
  · have hlength : (n.firsts.map Prod.fst).length = n.sketch.elements.elements.length := by
      simp [firsts]
    rw [hl, h.labels_declarations, List.map_append, List.zipIdx_append, List.map_append,
      hlength, Nat.zero_add, map_zipIdx_firsts h.labelled, List.zipIdx_map, List.map_map]
    rfl
  · rw [he, declarations, List.zipIdx_append, List.map_append, map_zipIdx_renumber h.labelled,
      List.length_map, Nat.zero_add]
    rfl

/-- A sketch as the declarations alone leave it. -/
structure Laid (n n₁ : NamedSketch) : Prop where
  labelled : Labelled n₁
  labels : n₁.labels = n.declaredLabels
  elements : n₁.sketch.elements.elements =
    n.sketch.elements.elements.map n.renumber ++ n.looseElements

theorem Laid.id?_nameOf {n n₁ : NamedSketch} (h : Laid n n₁) {e : Element}
    (he : e ∈ n.sketch.elements.elements) : n₁.id? (n.nameOf e.id) = some (n.rank e.id) := by
  rw [id?_eq_some_iff h.labelled.nodup, h.labels]
  refine List.mem_append_left _ (List.mem_map.mpr ⟨(n.nameOf e.id, e.id), ?_, rfl⟩)
  exact List.mem_map.mpr ⟨e, he, rfl⟩

theorem Laid.get?_rank {n n₁ : NamedSketch} (h : Laid n n₁) {e : Element}
    (he : e ∈ n.sketch.elements.elements) :
    n₁.sketch.elements.get? (n.rank e.id) = some (n.renumber e) := by
  rw [ElementTable.get?_eq_some_iff h.labelled.grounded.elements, h.elements]
  exact ⟨List.mem_append_left _ (List.mem_map.mpr ⟨e, he, rfl⟩), rfl⟩

theorem Laid.relatable {n n₁ : NamedSketch} (hn : Labelled n) (h : Laid n n₁)
    {r : RelationKind × Label × Label × Float} (hr : r ∈ n.relations) : Relatable n₁ r := by
  obtain ⟨c, hc, rfl⟩ := List.mem_map.mp hr
  obtain ⟨⟨g, g', hg, hg', haccepts⟩, hallows⟩ := hn.reachable.posed.fits c hc
  obtain ⟨e, he, hid, rfl⟩ := ElementTable.exists_of_kind? hg
  obtain ⟨f, hf, hid', rfl⟩ := ElementTable.exists_of_kind? hg'
  have hne : e.id ≠ f.id := by
    rw [hid, hid']
    exact hn.grounded.proper c hc
  rw [← hid, ← hid']
  have hfirst := h.id?_nameOf he
  have hsecond := h.id?_nameOf hf
  refine ⟨⟨n.renumber e, n.renumber f, ?_, ?_, haccepts⟩, ?_, hallows⟩
  · simp only [hfirst, Option.bind_some, h.get?_rank he]
  · simp only [hsecond, Option.bind_some, h.get?_rank hf]
  · simp only [hfirst, hsecond, ne_eq, Option.some.injEq]
    exact fun heq => hne (rank_injective he heq)

theorem Laid.foldlM_relations {n n₁ : NamedSketch} (hn : Labelled n) (h : Laid n n₁)
    (hnone : n₁.sketch.constraints.constraints = []) :
    ∃ n₂, (n.relations.map relating).foldlM execute n₁ = .ok n₂ ∧ n₂.labels = n₁.labels ∧
      n₂.sketch.elements = n₁.sketch.elements ∧
      n₂.sketch.constraints.constraints.map Constraint.relation =
        n.sketch.constraints.constraints.map n.rankedRelation := by
  obtain ⟨n₂, hrun, hl, he, hc⟩ := foldlM_relate fun r hr => h.relatable hn hr
  refine ⟨n₂, hrun, hl, he, ?_⟩
  rw [hc, hnone, List.map_nil, List.nil_append, relations, List.map_map]
  refine List.map_congr_left fun c hc => ?_
  obtain ⟨e, he, f, hf, hid, hid'⟩ := hn.grounded.exists_ends hc
  simp only [Function.comp_apply, rankedRelation, ← hid, ← hid', h.id?_nameOf he,
    h.id?_nameOf hf]

def pendingAliases (n : NamedSketch) : List Alias :=
  (n.aliases.zipIdx n.sketch.elements.elements.length).map fun p =>
    ⟨p.1.1, ⟨p.2⟩, n.nameOf p.1.2, n.rank p.1.2⟩

theorem map_mk_zipIdx {α : Type} (l : List α) (k : Nat) :
    (l.zipIdx k).map (fun p => ElementId.mk p.2) =
      (List.range' k l.length).map ElementId.mk := by
  rw [← List.zipIdx_map_snd, List.map_map]
  rfl

theorem Writable.ids_looseElements {n : NamedSketch} (h : Writable n) :
    n.looseElements.map Element.id = n.pendingAliases.map Alias.id := by
  have hlength : (n.aliases.filterMap n.aliasDeclared?).length = n.aliases.length := by
    simpa using congrArg List.length h.labels_aliases
  rw [looseElements, pendingAliases, List.map_map, List.map_map]
  refine (map_mk_zipIdx _ _).trans ?_
  rw [hlength]
  exact (map_mk_zipIdx _ _).symm

theorem Writable.loose_of_mem {n : NamedSketch} (h : Writable n) {x : Element}
    (hx : x ∈ n.looseElements) : x.fixed = false ∧ x.shape.kind = .point := by
  obtain ⟨p, hp, rfl⟩ := List.mem_map.mp hx
  obtain ⟨_, _, _, hloose⟩ := h.isLoose (List.fst_mem_of_mem_zipIdx hp)
  exact ⟨hloose.fixed, hloose.kind⟩

theorem exists_rank_of_mem_ends {n n' : NamedSketch}
    (h : n'.sketch.constraints.constraints.map Constraint.relation =
      n.sketch.constraints.constraints.map n.rankedRelation) {c : Constraint}
    (hc : c ∈ n'.sketch.constraints.constraints) {id : ElementId} (hid : id ∈ c.ends) :
    ∃ d ∈ n.sketch.constraints.constraints, ∃ i ∈ d.ends, n.rank i = id := by
  have hm : c.relation ∈ n.sketch.constraints.constraints.map n.rankedRelation := by
    rw [← h]
    exact List.mem_map.mpr ⟨c, hc, rfl⟩
  obtain ⟨d, hd, heq⟩ := List.mem_map.mp hm
  simp only [rankedRelation, Constraint.relation, Prod.mk.injEq, Option.some.injEq] at heq
  refine ⟨d, hd, ?_⟩
  rcases Constraint.mem_ends.mp hid with rfl | rfl
  · exact ⟨d.first, Constraint.mem_ends.mpr (Or.inl rfl), heq.2.1⟩
  · exact ⟨d.second, Constraint.mem_ends.mpr (Or.inr rfl), heq.2.2.1⟩

theorem Writable.pending {n n₂ : NamedSketch} (h : Writable n) (hn₂ : Laid n n₂)
    (hends : n₂.sketch.constraints.constraints.map Constraint.relation =
      n.sketch.constraints.constraints.map n.rankedRelation) :
    Pending n₂ (n.firsts.map fun p => (p.1, n.rank p.2))
      (n.sketch.elements.elements.map n.renumber) n.pendingAliases where
  labelled := hn₂.labelled
  labels := by
    rw [hn₂.labels, declaredLabels, pendingAliases, List.map_map]
    rfl
  elements := ⟨n.looseElements, hn₂.elements, h.ids_looseElements, fun _ => h.loose_of_mem⟩
  targets := by
    intro t ht
    obtain ⟨p, hp, rfl⟩ := List.mem_map.mp ht
    obtain ⟨e, he, hid, hkind⟩ := h.exists_of_mem_aliases (List.fst_mem_of_mem_zipIdx hp)
    have hfirst : (n.nameOf p.1.2, p.1.2) ∈ n.firsts := by
      rw [← hid]
      exact List.mem_map.mpr ⟨e, he, rfl⟩
    refine ⟨List.mem_map.mpr ⟨_, hfirst, rfl⟩, n.renumber e, List.mem_map.mpr ⟨e, he, rfl⟩, ?_,
      hkind⟩
    rw [renumber, hid]
  settled := by
    intro p hp
    obtain ⟨q, hq, rfl⟩ := List.mem_map.mp hp
    obtain ⟨e, he, rfl⟩ := List.mem_map.mp hq
    exact ⟨n.renumber e, List.mem_map.mpr ⟨e, he, rfl⟩, rfl⟩
  ends := by
    intro c hc id hid
    obtain ⟨d, hd, i, hi, rfl⟩ := exists_rank_of_mem_ends hends hc hid
    obtain ⟨e, he, rfl⟩ := h.labelled.grounded.ends d hd i hi
    exact ⟨n.renumber e, List.mem_map.mpr ⟨e, he, rfl⟩, rfl⟩

/-- The statements that a sketch is written as are accepted, and lead to it again. -/
theorem Writable.exists_redrawn {n : NamedSketch} (h : Writable n) :
    ∃ n', n.statements.foldlM execute {} = .ok n' ∧ Labelled n' ∧ Redrawn n n' := by
  obtain ⟨n₁, hrun₁, hlabels₁, helements₁, hnone⟩ := h.foldlM_declarations
  have htells₁ := tells_nil.foldlM hrun₁
  obtain ⟨n₂, hrun₂, hlabels₂, helements₂, hconstraints₂⟩ :=
    Laid.foldlM_relations h.labelled ⟨htells₁.labelled, hlabels₁, helements₁⟩ hnone
  have htells₂ := htells₁.foldlM hrun₂
  have hlaid : Laid n n₂ :=
    ⟨htells₂.labelled, hlabels₂.trans hlabels₁, by rw [helements₂, helements₁]⟩
  obtain ⟨n₃, hrun₃, hlabels₃, helements₃, hconstraints₃⟩ := (h.pending hlaid hconstraints₂).foldlM
  have hstatements : (n.pendingAliases.map fun t => Statement.coincide t.name t.label) =
      n.aliases.map fun a => .coincide (n.nameOf a.2) a.1 := by
    rw [pendingAliases, List.map_map]
    exact map_zipIdx_fst n.aliases _ fun a => Statement.coincide (n.nameOf a.2) a.1
  rw [hstatements] at hrun₃
  refine ⟨n₃, ?_, (htells₂.foldlM hrun₃).labelled, ?_, helements₃, ?_⟩
  · have hlinks : n.links.foldlM execute n₁ = .ok n₃ := by
      rw [links, List.foldlM_append, hrun₂]
      exact hrun₃
    rw [statements, List.foldlM_append, hrun₁]
    exact hlinks
  · rw [hlabels₃, List.map_append, pendingAliases, List.map_map]
    exact congrArg (_ ++ ·) (map_zipIdx_fst n.aliases _ fun a => (a.1, n.rank a.2))
  · rw [hconstraints₃, hconstraints₂]

end NamedSketch

end RigidSketch
