import RigidSketch.Proofs.Numerals

/-! The grammar of statements, given as a language for each. Reading accepts the texts in these
languages and no others, and no text is in two of them. -/

namespace RigidSketch

namespace Statement

structure IsWord (l : Label) : Prop where
  nonempty : l.toList ≠ []
  chars : ∀ c ∈ l.toList, isLabelChar c = true

end Statement

namespace Grammar

def literal (text : String) : Language Char := {text.toList}

def blanks : Language Char := {w | ∀ c ∈ w, c = ' ' ∨ c = '\t'}

def blanks1 : Language Char := {w | w ≠ [] ∧ w ∈ blanks}

def label (l : Label) : Language Char := {w | w = l.toList ∧ Statement.IsWord l}

def number (x : Float) : Language Char := {w | ∃ n : Numeral, w ∈ n.language ∧ n.value = x}

def separated (text : String) : Language Char := blanks * (literal text * blanks)

def parens (inner : Language Char) : Language Char :=
  literal "(" * (blanks * (inner * (blanks * literal ")")))

def pair (a b : Label) : Language Char := parens (label a * (separated "," * label b))

def relation (kind : RelationKind) (a b : Label) : Language Char :=
  literal kind.name * (blanks * (pair a b * separated "="))

/-- A number that may be followed by its unit. -/
def angle (x : Float) : Language Char :=
  {w | w ∈ number x ∨ w ∈ number x * (blanks * literal "rad") ∨
    ∃ y, w ∈ number y * (blanks * literal "deg") ∧ x = y * Statement.degree}

def fixing : Bool → Language Char
  | true => literal "fixed" * blanks1
  | false => 1

def declared (kind : ShapeKind) (l : Label) : Language Char :=
  literal kind.name * (blanks1 * (label l * blanks))

end Grammar

namespace Statement

open Grammar Reader

def language : Statement → Language Char
  | point l fixed x y =>
    fixing fixed * (declared .point l * parens (number x * (separated "," * number y)))
  | line l fixed a b c =>
    fixing fixed * (declared .line l *
      parens (number a * (separated "," * (number b * (separated "," * number c)))))
  | relate .distance a b x => relation .distance a b * number x
  | relate .angle a b x => relation .angle a b * angle x
  | coincide a b => literal "coincident" * (Grammar.blanks * pair a b)

theorem isBlank_iff {c : Char} : isBlank c = true ↔ c = ' ' ∨ c = '\t' := by
  simp [isBlank]

theorem takes_blanks : Takes Statement.blanks fun _ => Grammar.blanks := by
  refine (takes_while0 isBlank).map fun _ w hw => ?_
  obtain ⟨rfl, hw⟩ := hw
  exact fun c hc => isBlank_iff.mp (hw c hc)

theorem takes_blanks1 : Takes Statement.blanks1 fun _ => Grammar.blanks1 := by
  refine (takes_while1 isBlank).map fun _ w hw => ?_
  obtain ⟨rfl, hne, hw⟩ := hw
  exact ⟨hne, fun c hc => isBlank_iff.mp (hw c hc)⟩

theorem takes_readLabel : Takes readLabel label := by
  refine (takes_while1 isLabelChar).map fun ds w hw => ?_
  obtain ⟨rfl, hne, hw⟩ := hw
  exact ⟨String.toList_ofList.symm, by rwa [String.toList_ofList], by rwa [String.toList_ofList]⟩

theorem takes_readNumber : Takes readNumber number :=
  Numeral.takes_read.map fun n _ hw => ⟨n, hw, rfl⟩

theorem takes_spaced (text : String) : Takes (spaced text) fun _ => separated text := by
  refine takes_blanks.bind fun _ u hu => (takes_word text).bind fun _ v hv => ?_
  intro cs a rest h
  obtain ⟨w, hw, heq⟩ := takes_blanks h
  exact ⟨w, Language.append_mem_mul hu (Language.append_mem_mul hv hw), heq⟩

theorem Takes.parenthesized {α : Type} {r : Reader α} {L : α → Language Char} (hr : Takes r L) :
    Takes (parenthesized r) fun a => parens (L a) := by
  refine (takes_word "(").bind fun _ u hu => takes_blanks.bind fun _ v hv => ?_
  refine hr.bind fun a w hw => takes_blanks.bind fun _ x hx => ?_
  exact (takes_word ")").map fun _ y hy => Language.append_mem_mul hu
    (Language.append_mem_mul hv (Language.append_mem_mul hw (Language.append_mem_mul hx hy)))

theorem takes_readLabels : Takes readLabels fun p => pair p.1 p.2 := by
  refine Takes.parenthesized ?_
  refine takes_readLabel.bind fun a u hu => (takes_spaced ",").bind fun _ v hv => ?_
  exact takes_readLabel.map fun b w hw =>
    Language.append_mem_mul hu (Language.append_mem_mul hv hw)

theorem takes_readRelation (kind : RelationKind) :
    Takes (readRelation kind) fun r => relation kind r.1 r.2.1 * number r.2.2 := by
  refine (takes_word kind.name).bind fun _ t ht => takes_blanks.bind fun _ u hu => ?_
  refine takes_readLabels.bind fun ⟨a, b⟩ v hv => (takes_spaced "=").bind fun _ w hw => ?_
  refine takes_readNumber.map fun x y hy => ?_
  have hpair := Language.append_mem_mul ht
    (Language.append_mem_mul hu (Language.append_mem_mul hv hw))
  have h := Language.append_mem_mul hpair hy
  simp only [List.append_assoc] at h
  exact h

theorem takes_readUnit : Takes readUnit fun inDegrees =>
    Grammar.blanks * literal (if inDegrees then "deg" else "rad") := by
  refine takes_blanks.bind fun _ u hu => Takes.orElse ?_ ?_
  · exact (takes_word "deg").map fun _ v hv => Language.append_mem_mul hu hv
  · exact (takes_word "rad").map fun _ v hv => Language.append_mem_mul hu hv

theorem takes_readDistance : Takes readDistance language :=
  (takes_readRelation .distance).map fun _ _ hw => hw

theorem takes_readAngle : Takes readAngle language := by
  refine (takes_readRelation .angle).bind fun ⟨a, b, x⟩ w hw => ?_
  obtain ⟨u, hu, v, hv, rfl⟩ := Language.mem_mul.mp hw
  refine takes_readUnit.optional.map fun inDegrees y hy => ?_
  refine Language.mem_mul.mpr ⟨u, hu, v ++ y, ?_, (List.append_assoc u v y).symm⟩
  rcases inDegrees with _ | _ | _
  · cases hy
    rw [List.append_nil]
    exact Or.inl hv
  · exact Or.inr (Or.inl (Language.append_mem_mul hv hy))
  · exact Or.inr (Or.inr ⟨x, Language.append_mem_mul hv hy, rfl⟩)

theorem takes_readCoincident : Takes readCoincident language := by
  refine (takes_word "coincident").bind fun _ u hu => takes_blanks.bind fun _ v hv => ?_
  exact takes_readLabels.map fun _ w hw =>
    Language.append_mem_mul hu (Language.append_mem_mul hv hw)

theorem takes_readDeclared (kind : ShapeKind) : Takes (readDeclared kind.name) (declared kind) := by
  refine (takes_word kind.name).bind fun _ u hu => takes_blanks1.bind fun _ v hv => ?_
  refine takes_readLabel.bind fun l w hw => ?_
  exact takes_blanks.map fun _ y hy => Language.append_mem_mul hu
    (Language.append_mem_mul hv (Language.append_mem_mul hw hy))

theorem exists_inner_of_mem_parens {L : Language Char} {w : List Char} (h : w ∈ parens L) :
    ∃ u ∈ L, ∀ M : Language Char, u ∈ M → w ∈ parens M := by
  obtain ⟨o, ho, _, ⟨b, hb, _, ⟨u, hu, v, hv, rfl⟩, rfl⟩, rfl⟩ := h
  exact ⟨u, hu, fun M hM => Language.append_mem_mul ho
    (Language.append_mem_mul hb (Language.append_mem_mul hM hv))⟩

theorem takes_readPoint (fixed : Bool) : Takes (readPoint fixed) fun st =>
    {w | ∀ u ∈ fixing fixed, u ++ w ∈ st.language} := by
  refine (takes_readDeclared .point).bind fun l v hv => ?_
  have hinner : Takes (do
      let x ← readNumber
      spaced ","
      return point l fixed x (← readNumber)) fun st =>
        {w | ∃ x y, st = point l fixed x y ∧ w ∈ number x * (separated "," * number y)} := by
    refine takes_readNumber.bind fun x u hu => (takes_spaced ",").bind fun _ v hv => ?_
    exact takes_readNumber.map fun y w hw =>
      ⟨x, y, rfl, Language.append_mem_mul hu (Language.append_mem_mul hv hw)⟩
  intro cs st rest h
  obtain ⟨w, hw, heq⟩ := Takes.parenthesized hinner h
  obtain ⟨u, ⟨x, y, rfl, hu⟩, hparens⟩ := exists_inner_of_mem_parens hw
  exact ⟨w, fun _ ht =>
    Language.append_mem_mul ht (Language.append_mem_mul hv (hparens _ hu)), heq⟩

theorem takes_readLine (fixed : Bool) : Takes (readLine fixed) fun st =>
    {w | ∀ u ∈ fixing fixed, u ++ w ∈ st.language} := by
  refine (takes_readDeclared .line).bind fun l v hv => ?_
  have hinner : Takes (do
      let a ← readNumber
      spaced ","
      let b ← readNumber
      spaced ","
      return line l fixed a b (← readNumber)) fun st =>
        {w | ∃ a b c, st = line l fixed a b c ∧
          w ∈ number a * (separated "," * (number b * (separated "," * number c)))} := by
    refine takes_readNumber.bind fun a t ht => (takes_spaced ",").bind fun _ u hu => ?_
    refine takes_readNumber.bind fun b v hv => (takes_spaced ",").bind fun _ w hw => ?_
    exact takes_readNumber.map fun c y hy => ⟨a, b, c, rfl, Language.append_mem_mul ht
      (Language.append_mem_mul hu (Language.append_mem_mul hv (Language.append_mem_mul hw hy)))⟩
  intro cs st rest h
  obtain ⟨w, hw, heq⟩ := Takes.parenthesized hinner h
  obtain ⟨u, ⟨a, b, c, rfl, hu⟩, hparens⟩ := exists_inner_of_mem_parens hw
  exact ⟨w, fun _ ht =>
    Language.append_mem_mul ht (Language.append_mem_mul hv (hparens _ hu)), heq⟩

theorem takes_fixed : Takes (optional do word "fixed"; Statement.blanks1) fun found =>
    fixing found.isSome := by
  have hfixed : Takes (do word "fixed"; Statement.blanks1) fun _ => fixing true := by
    refine (takes_word "fixed").bind fun _ u hu => ?_
    intro cs a rest h
    obtain ⟨v, hv, heq⟩ := takes_blanks1 h
    exact ⟨v, Language.append_mem_mul hu hv, heq⟩
  intro cs found rest h
  obtain ⟨w, hw, heq⟩ := hfixed.optional h
  cases found with
  | none => exact ⟨w, hw, heq⟩
  | some _ => exact ⟨w, hw, heq⟩

theorem takes_readDeclaration : Takes readDeclaration language := by
  refine takes_fixed.bind fun found u hu => ?_
  intro cs st rest h
  obtain ⟨w, hw, heq⟩ := (takes_readPoint found.isSome).orElse (takes_readLine found.isSome) h
  exact ⟨w, hw u hu, heq⟩

theorem takes_read : Takes Statement.read language :=
  takes_readDistance.orElse (takes_readAngle.orElse (takes_readCoincident.orElse
    takes_readDeclaration))

theorem ofChars_eq_ok {cs : List Char} {st : Statement} :
    ofChars cs = .ok st ↔ Statement.read cs = .ok (st, []) := by
  unfold ofChars
  split <;> simp_all

theorem mem_language_of_ofChars {cs : List Char} {st : Statement} (h : ofChars cs = .ok st) :
    cs ∈ st.language := by
  obtain ⟨w, hw, rfl⟩ := takes_read (ofChars_eq_ok.mp h)
  rwa [List.append_nil]

/-- Characters that a label or a number might go on with. -/
def joins (c : Char) : Bool := isLabelChar c || c == '.'

theorem goesOn_of_joins {c : Char} (h : joins c = false) : Numeral.goesOn c = false := by
  by_contra hgoes
  simp only [Numeral.goesOn, Bool.not_eq_false, Bool.or_eq_true, beq_iff_eq] at hgoes
  rcases hgoes with ((hdigit | rfl) | hlower) | hlower
  · simp [joins, isLabelChar, Char.isAlphanum, hdigit] at h
  · cases h
  · rcases Numeral.eq_or_eq_of_toLower 'E' rfl hlower with rfl | rfl <;> cases h
  · rcases Numeral.eq_or_eq_of_toLower 'I' rfl hlower with rfl | rfl <;> cases h

theorem stops_goesOn {rest : List Char} (h : Stops joins rest) : Stops Numeral.goesOn rest :=
  fun c hc => goesOn_of_joins (h c hc)

theorem stops_isLabelChar {rest : List Char} (h : Stops joins rest) : Stops isLabelChar rest :=
  fun c hc => (Bool.or_eq_false_iff.mp (h c hc)).1

theorem stops_blanks {p : Char → Bool} (hspace : p ' ' = false) (htab : p '\t' = false)
    {w rest : List Char} (hw : w ∈ Grammar.blanks) (hrest : Stops p rest) :
    Stops p (w ++ rest) := by
  refine .append (fun c hc => ?_) hrest
  rcases hw c hc with rfl | rfl
  · exact hspace
  · exact htab

theorem blanks_append {w rest : List Char} (hw : w ∈ Grammar.blanks) (hrest : Stops isBlank rest) :
    Statement.blanks (w ++ rest) = .ok ((), rest) := by
  have hread : while0 isBlank (w ++ rest) = .ok (w, rest) :=
    while0_eq_ok_iff.mpr ⟨rfl, fun c hc => isBlank_iff.mpr (hw c hc), hrest⟩
  rw [Statement.blanks, bind_of_ok hread]
  rfl

theorem blanks1_append {w rest : List Char} (hw : w ∈ Grammar.blanks1)
    (hrest : Stops isBlank rest) : Statement.blanks1 (w ++ rest) = .ok ((), rest) := by
  have hread : while1 isBlank (w ++ rest) = .ok (w, rest) :=
    while1_append hw.1 (fun c hc => isBlank_iff.mpr (hw.2 c hc)) hrest
  rw [Statement.blanks1, bind_of_ok hread]
  rfl

theorem isBlank_of_isLabelChar {c : Char} (h : isLabelChar c = true) : isBlank c = false := by
  by_contra hb
  rcases isBlank_iff.mp (Bool.not_eq_false _ ▸ hb) with rfl | rfl <;> cases h

theorem stops_label {l : Label} {w : List Char} (hw : w ∈ label l) (rest : List Char) :
    Stops isBlank (w ++ rest) := by
  obtain ⟨rfl, hl⟩ := hw
  obtain ⟨c, cs, hcs⟩ := List.exists_cons_of_ne_nil hl.nonempty
  rw [hcs]
  exact .cons (isBlank_of_isLabelChar (hl.chars c (by simp [hcs]))) _

theorem readLabel_append {l : Label} {w rest : List Char} (hw : w ∈ label l)
    (hrest : Stops joins rest) : readLabel (w ++ rest) = .ok (l, rest) := by
  obtain ⟨rfl, hl⟩ := hw
  rw [readLabel, bind_of_ok (while1_append hl.nonempty hl.chars (stops_isLabelChar hrest)),
    String.ofList_toList]
  rfl

/-- A numeral begins with no blank: none can be read from a text that does. -/
theorem stops_number {x : Float} {w : List Char} (hw : w ∈ number x) (rest : List Char) :
    Stops isBlank (w ++ rest) := by
  obtain ⟨n, hn, _⟩ := hw
  have hread := Numeral.read_append hn (Stops.nil _)
  cases w with
  | nil => cases hread
  | cons c cs =>
    refine .cons ?_ _
    by_contra hb
    rcases isBlank_iff.mp (Bool.not_eq_false _ ▸ hb) with rfl | rfl <;> cases hread

theorem readNumber_append {x : Float} {w rest : List Char} (hw : w ∈ number x)
    (hrest : Stops Numeral.goesOn rest) : readNumber (w ++ rest) = .ok (x, rest) := by
  obtain ⟨n, hn, rfl⟩ := hw
  rw [readNumber, bind_of_ok (Numeral.read_append hn hrest)]
  rfl

section

variable {text : String} {c : Char} {cs : List Char}

theorem spaced_append (htext : text.toList = c :: cs) (hc : isBlank c = false)
    {w rest : List Char} (hw : w ∈ separated text) (hrest : Stops isBlank rest) :
    spaced text (w ++ rest) = .ok ((), rest) := by
  obtain ⟨u, hu, _, ⟨_, rfl, v, hv, rfl⟩, rfl⟩ := hw
  dsimp only
  have hstop : Stops isBlank (text.toList ++ (v ++ rest)) := by
    rw [htext]
    exact .cons hc _
  rw [List.append_assoc, List.append_assoc, spaced, bind_of_ok (blanks_append hu hstop),
    bind_of_ok (word_append text _)]
  exact blanks_append hv hrest

theorem stops_separated (htext : text.toList = c :: cs) (hc : joins c = false) {w : List Char}
    (hw : w ∈ separated text) (rest : List Char) : Stops joins (w ++ rest) := by
  obtain ⟨u, hu, _, ⟨_, rfl, v, hv, rfl⟩, rfl⟩ := hw
  dsimp only
  rw [List.append_assoc, List.append_assoc]
  refine stops_blanks rfl rfl hu ?_
  rw [htext]
  exact .cons hc _

end

theorem parenthesized_append {α : Type} {r : Reader α} {a : α} {L : Language Char}
    (hstart : ∀ u ∈ L, ∀ rest, Stops isBlank (u ++ rest))
    (hr : ∀ u ∈ L, ∀ rest, Stops joins rest → r (u ++ rest) = .ok (a, rest)) {w : List Char}
    (hw : w ∈ parens L) (rest : List Char) : parenthesized r (w ++ rest) = .ok (a, rest) := by
  obtain ⟨_, rfl, _, ⟨u, hu, _, ⟨v, hv, _, ⟨x, hx, _, rfl, rfl⟩, rfl⟩, rfl⟩, rfl⟩ := hw
  have hclose : Stops isBlank (")".toList ++ rest) := .cons rfl _
  have hstop : Stops joins (x ++ (")".toList ++ rest)) := stops_blanks rfl rfl hx (.cons rfl _)
  simp only [List.append_assoc]
  rw [parenthesized, bind_of_ok (word_append "(" _), bind_of_ok (blanks_append hu (hstart v hv _)),
    bind_of_ok (hr v hv _ hstop), bind_of_ok (blanks_append hx hclose),
    bind_of_ok (word_append ")" _)]
  rfl

theorem stops_parens {L : Language Char} {w : List Char} (hw : w ∈ parens L) (rest : List Char) :
    Stops isBlank (w ++ rest) ∧ Stops joins (w ++ rest) := by
  obtain ⟨_, rfl, v, _, rfl⟩ := hw
  exact ⟨.cons rfl _, .cons rfl _⟩

theorem readLabels_append {a b : Label} {w : List Char} (hw : w ∈ pair a b) (rest : List Char) :
    readLabels (w ++ rest) = .ok ((a, b), rest) := by
  refine parenthesized_append ?_ ?_ hw rest
  · rintro _ ⟨u, hu, v, _, rfl⟩ rest
    dsimp only
    rw [List.append_assoc]
    exact stops_label hu _
  · rintro _ ⟨u, hu, _, ⟨v, hv, w, hw, rfl⟩, rfl⟩ rest hrest
    simp only [List.append_assoc]
    rw [bind_of_ok (readLabel_append hu (stops_separated rfl rfl hv _)),
      bind_of_ok (spaced_append rfl rfl hv (stops_label hw _)),
      bind_of_ok (readLabel_append hw hrest)]
    rfl

theorem readRelation_append {kind : RelationKind} {a b : Label} {x : Float} {w v rest : List Char}
    (hw : w ∈ relation kind a b) (hv : v ∈ number x) (hrest : Stops Numeral.goesOn rest) :
    readRelation kind (w ++ (v ++ rest)) = .ok ((a, b, x), rest) := by
  obtain ⟨_, rfl, _, ⟨t, ht, _, ⟨u, hu, w, hw, rfl⟩, rfl⟩, rfl⟩ := hw
  simp only [List.append_assoc]
  rw [readRelation, bind_of_ok (word_append kind.name _),
    bind_of_ok (blanks_append ht (stops_parens hu _).1), bind_of_ok (readLabels_append hu _)]
  dsimp only
  rw [bind_of_ok (spaced_append rfl rfl hw (stops_number hv _)),
    bind_of_ok (readNumber_append hv hrest)]
  rfl

theorem readUnit_append {unit w : List Char} {inDegrees : Bool} (hw : w ∈ Grammar.blanks)
    (hunit : unit ∈ literal (if inDegrees then "deg" else "rad")) (rest : List Char) :
    readUnit (w ++ (unit ++ rest)) = .ok (inDegrees, rest) := by
  have hstop : Stops isBlank (unit ++ rest) := by
    cases inDegrees <;>
    · cases hunit
      exact .cons rfl _
  rw [readUnit, bind_of_ok (blanks_append hw hstop)]
  cases inDegrees <;>
  · cases hunit
    rfl

theorem readAngle_append {a b : Label} {x : Float} {w : List Char}
    (hw : w ∈ relation .angle a b * angle x) :
    readAngle w = .ok (relate .angle a b x, []) := by
  obtain ⟨w, hw, v, hv, rfl⟩ := hw
  dsimp only
  have hunit : ∀ (inDegrees : Bool) {y : Float}, v ∈ number y * (Grammar.blanks *
      literal (if inDegrees then "deg" else "rad")) → readAngle (w ++ v) =
        .ok (relate .angle a b (if inDegrees then y * degree else y), []) := by
    rintro inDegrees y ⟨n, hn, _, ⟨u, hu, unit, hunit, rfl⟩, rfl⟩
    have hstop : Stops Numeral.goesOn (u ++ unit) := by
      refine stops_blanks rfl rfl hu ?_
      cases inDegrees <;>
      · cases hunit
        exact .cons rfl _
    have hread : optional readUnit (u ++ unit) = .ok (some inDegrees, []) := by
      have h := readUnit_append hu hunit []
      rw [List.append_nil] at h
      rw [Reader.optional, h]
    dsimp only
    rw [readAngle, bind_of_ok (readRelation_append hw hn hstop)]
    dsimp only
    rw [bind_of_ok hread]
    rfl
  rcases hv with hv | hv | ⟨y, hv, rfl⟩
  · have h := readRelation_append hw hv (Stops.nil _)
    rw [List.append_nil] at h
    rw [readAngle, bind_of_ok h]
    rfl
  · exact hunit false hv
  · exact hunit true hv

theorem readDeclared_append {kind : ShapeKind} {l : Label} {w rest : List Char}
    (hw : w ∈ declared kind l) (hrest : Stops isBlank rest) (hjoins : Stops joins rest) :
    readDeclared kind.name (w ++ rest) = .ok (l, rest) := by
  obtain ⟨_, rfl, _, ⟨t, ht, _, ⟨u, hu, v, hv, rfl⟩, rfl⟩, rfl⟩ := hw
  simp only [List.append_assoc]
  rw [readDeclared, bind_of_ok (word_append kind.name _),
    bind_of_ok (blanks1_append ht (stops_label hu _)),
    bind_of_ok (readLabel_append hu (stops_blanks rfl rfl hv hjoins)),
    bind_of_ok (blanks_append hv hrest)]
  rfl

theorem readPoint_append (fixed : Bool) {l : Label} {x y : Float} {w : List Char}
    (hw : w ∈ declared .point l * parens (number x * (separated "," * number y)))
    (rest : List Char) : readPoint fixed (w ++ rest) = .ok (point l fixed x y, rest) := by
  obtain ⟨u, hu, v, hv, rfl⟩ := hw
  dsimp only
  rw [List.append_assoc]
  refine (bind_of_ok (readDeclared_append hu (stops_parens hv _).1 (stops_parens hv _).2) _).trans
    (parenthesized_append ?_ ?_ hv rest)
  · rintro _ ⟨u, hu, v, _, rfl⟩ rest
    dsimp only
    rw [List.append_assoc]
    exact stops_number hu _
  · rintro _ ⟨u, hu, _, ⟨v, hv, w, hw, rfl⟩, rfl⟩ rest hrest
    simp only [List.append_assoc]
    rw [bind_of_ok (readNumber_append hu (stops_goesOn (stops_separated rfl rfl hv _))),
      bind_of_ok (spaced_append rfl rfl hv (stops_number hw _)),
      bind_of_ok (readNumber_append hw (stops_goesOn hrest))]
    rfl

theorem readLine_append (fixed : Bool) {l : Label} {a b c : Float} {w : List Char}
    (hw : w ∈ declared .line l *
      parens (number a * (separated "," * (number b * (separated "," * number c)))))
    (rest : List Char) : readLine fixed (w ++ rest) = .ok (line l fixed a b c, rest) := by
  obtain ⟨u, hu, v, hv, rfl⟩ := hw
  dsimp only
  rw [List.append_assoc]
  refine (bind_of_ok (readDeclared_append hu (stops_parens hv _).1 (stops_parens hv _).2) _).trans
    (parenthesized_append ?_ ?_ hv rest)
  · rintro _ ⟨u, hu, v, _, rfl⟩ rest
    dsimp only
    rw [List.append_assoc]
    exact stops_number hu _
  · rintro _ ⟨t, ht, _, ⟨u, hu, _, ⟨v, hv, _, ⟨w, hw, y, hy, rfl⟩, rfl⟩, rfl⟩, rfl⟩ rest hrest
    simp only [List.append_assoc]
    rw [bind_of_ok (readNumber_append ht (stops_goesOn (stops_separated rfl rfl hu _))),
      bind_of_ok (spaced_append rfl rfl hu (stops_number hv _)),
      bind_of_ok (readNumber_append hv (stops_goesOn (stops_separated rfl rfl hw _))),
      bind_of_ok (spaced_append rfl rfl hw (stops_number hy _)),
      bind_of_ok (readNumber_append hy (stops_goesOn hrest))]
    rfl

/-- Declarations begin with a word that no other statement begins with. -/
theorem read_declared {fixed : Bool} {kind : ShapeKind} {t v : List Char} (ht : t ∈ fixing fixed)
    {l : Label} {L : Language Char} (hv : v ∈ declared kind l * L) :
    Statement.read (t ++ v) = orElse (readPoint fixed) (readLine fixed) v := by
  obtain ⟨_, ⟨_, rfl, u, _, rfl⟩, w, _, rfl⟩ := hv
  cases fixed with
  | false =>
    cases ht
    cases kind <;> rfl
  | true =>
    obtain ⟨_, rfl, b, hb, rfl⟩ := ht
    dsimp only
    have hstop : Stops isBlank (kind.name.toList ++ u ++ w) := by
      cases kind <;> exact .cons rfl _
    have hfixed : optional (do word "fixed"; Statement.blanks1)
        ("fixed".toList ++ (b ++ (kind.name.toList ++ u ++ w))) =
          .ok (some (), kind.name.toList ++ u ++ w) := by
      rw [Reader.optional, bind_of_ok (word_append "fixed" _), blanks1_append hb hstop]
    rw [List.append_assoc]
    exact bind_of_ok hfixed _

theorem ofChars_of_mem_language {st : Statement} {w : List Char} (hw : w ∈ st.language) :
    ofChars w = .ok st := by
  refine ofChars_eq_ok.mpr ?_
  cases st with
  | point l fixed x y =>
    obtain ⟨t, ht, v, hv, rfl⟩ := hw
    have hread := readPoint_append fixed hv []
    rw [List.append_nil] at hread
    exact (read_declared ht hv).trans (orElse_of_ok hread)
  | line l fixed a b c =>
    obtain ⟨t, ht, v, hv, rfl⟩ := hw
    have hread := readLine_append fixed hv []
    rw [List.append_nil] at hread
    have hpoint : readPoint fixed v = .error v := by
      obtain ⟨_, ⟨_, rfl, u, _, rfl⟩, w, _, rfl⟩ := hv
      rfl
    exact (read_declared ht hv).trans ((orElse_of_error hpoint).trans hread)
  | relate kind a b x =>
    cases kind with
    | distance =>
      obtain ⟨u, hu, v, hv, rfl⟩ := hw
      have hread := readRelation_append hu hv (Stops.nil _)
      rw [List.append_nil] at hread
      exact orElse_of_ok (bind_of_ok hread _)
    | angle =>
      have hdistance : readDistance w = .error w := by
        obtain ⟨_, ⟨_, rfl, u, _, rfl⟩, v, _, rfl⟩ := hw
        rfl
      exact (orElse_of_error hdistance).trans (orElse_of_ok (readAngle_append hw))
  | coincide a b =>
    obtain ⟨_, rfl, _, ⟨u, hu, v, hv, rfl⟩, rfl⟩ := hw
    have hread := readLabels_append hv []
    rw [List.append_nil] at hread
    have hstop := (stops_parens hv []).1
    rw [List.append_nil] at hstop
    refine orElse_of_ok (r := readCoincident) ?_
    rw [readCoincident, bind_of_ok (word_append "coincident" _),
      bind_of_ok (blanks_append hu hstop), bind_of_ok hread]
    rfl

/-- Reading accepts the texts of the grammar and no others, and no text has two readings. -/
theorem ofChars_eq_ok_iff_mem_language (cs : List Char) :
    (∀ st : Statement, ofChars cs = .ok st ↔ cs ∈ st.language) ∧
      {st : Statement | cs ∈ st.language}.Subsingleton := by
  refine ⟨fun st => ⟨mem_language_of_ofChars, ofChars_of_mem_language⟩, fun st h st' h' => ?_⟩
  exact Except.ok.inj ((ofChars_of_mem_language h).symm.trans (ofChars_of_mem_language h'))

-- Keywords are labels too, and a unit needs no blank before it.
example : (ofChars "angle(fixed,inf)=90deg".toList).toOption =
    some (relate .angle "fixed" "inf" (90 * degree)) := by
  decide +kernel

end Statement

end RigidSketch
