import RigidSketch.Proofs.Execution
import RigidSketch.Proofs.Grammar

/-! Statements as they are written, which reading gives back, and scripts made of them. -/

namespace RigidSketch

theorem toNat_of_isAlphanum {c : Char} (h : c.isAlphanum = true) :
    48 ≤ c.toNat ∧ c.toNat ≤ 122 := by
  delta Char.isAlphanum Char.isAlpha Char.isUpper Char.isLower Char.isDigit at h
  simp only [Bool.or_eq_true, Bool.and_eq_true, decide_eq_true_eq, ge_iff_le,
    UInt32.le_iff_toNat_le] at h
  simp only [Char.toNat]
  revert h
  simp
  omega

theorem isWhite_eq_false {c : Char} (h : 40 ≤ c.toNat ∧ c.toNat ≤ 122) : isWhite c = false := by
  simp only [isWhite]
  simp
  omega

theorem isWhite_of_isLabelChar {c : Char} (h : Statement.isLabelChar c = true) :
    isWhite c = false := by
  apply isWhite_eq_false
  rcases Bool.or_eq_true_iff.mp h with h | h
  · have := toNat_of_isAlphanum h
    omega
  · rw [beq_iff_eq.mp h]
    decide

/-- The characters of numbers as they are written. -/
def isFigure (c : Char) : Bool := c.isAlphanum || c == '.' || c == '-'

theorem isWhite_of_isFigure {c : Char} (h : isFigure c = true) : isWhite c = false := by
  apply isWhite_eq_false
  simp only [isFigure, Bool.or_eq_true, beq_iff_eq] at h
  rcases h with (h | rfl) | rfl
  · have := toNat_of_isAlphanum h
    omega
  · decide
  · decide

namespace Decimal

theorem isFigure_of_isDigit {c : Char} (h : c.isDigit = true) : isFigure c = true := by
  simp [isFigure, Char.isAlphanum, h]

theorem isFigure_of_mem_digits {n : Nat} {c : Char} (h : c ∈ digits n) : isFigure c = true :=
  isFigure_of_isDigit (Nat.isDigit_of_mem_toDigits (by omega) (by omega) h)

theorem isFigure_of_mem_positional {d : Nat} {k : Int} {c : Char} (h : c ∈ positional d k) :
    isFigure c = true := by
  have hzero : ∀ n : Nat, c ∈ List.replicate n '0' → isFigure c = true := by
    intro n hc
    rw [List.eq_of_mem_replicate hc]
    rfl
  dsimp only [positional] at h
  split at h
  · rcases List.mem_append.mp h with h | h
    · exact isFigure_of_mem_digits h
    · exact hzero _ h
  · split at h
    · simp only [List.mem_append, List.mem_cons] at h
      rcases h with h | rfl | h
      · exact isFigure_of_mem_digits (List.mem_of_mem_take h)
      · rfl
      · exact isFigure_of_mem_digits (List.mem_of_mem_drop h)
    · simp only [List.mem_append, List.mem_cons] at h
      rcases h with rfl | rfl | h | h
      · rfl
      · rfl
      · exact hzero _ h
      · exact isFigure_of_mem_digits h

theorem isFigure_of_mem_text {x : Float} {c : Char} (h : c ∈ (text x).toList) :
    isFigure c = true := by
  have hsize : ∀ size : String, size.toList.all isFigure = true →
      c ∈ (if Binary64.isNegative x then "-" ++ size else size).toList → isFigure c = true := by
    intro size hall hc
    split at hc
    · rw [String.toList_append] at hc
      rcases List.mem_append.mp hc with hc | hc
      · rw [List.mem_singleton.mp hc]
        rfl
      · exact List.all_eq_true.mp hall c hc
    · exact List.all_eq_true.mp hall c hc
  unfold text at h
  split at h
  · have hall : "NaN".toList.all isFigure = true := rfl
    exact List.all_eq_true.mp hall c h
  · refine hsize _ ?_ h
    split
    · rfl
    · dsimp only
      split
      · rfl
      · rw [String.toList_ofList]
        exact List.all_eq_true.mpr fun c hc => isFigure_of_mem_positional hc

end Decimal

namespace Statement

open Grammar Reader

/-- The number is read from its own text. -/
def Reads (x : Float) : Prop := readNumber (Decimal.text x).toList = .ok (x, [])

theorem Reads.mem {x : Float} (h : Reads x) : (Decimal.text x).toList ∈ number x := by
  obtain ⟨w, hw, heq⟩ := takes_readNumber h
  rwa [heq, List.append_nil]

theorem newline_not_mem {cs : List Char} (h : ∀ c ∈ cs, isWhite c = false) : '\n' ∉ cs := by
  intro hm
  cases h _ hm

theorem IsWord.newline_not_mem {l : Label} (h : IsWord l) : '\n' ∉ l.toList :=
  Statement.newline_not_mem fun c hc => isWhite_of_isLabelChar (h.chars c hc)

theorem newline_not_mem_decimal (x : Float) : '\n' ∉ (Decimal.text x).toList :=
  newline_not_mem fun _ hc => isWhite_of_isFigure (Decimal.isFigure_of_mem_text hc)

theorem isWord_of_ofChars {cs : List Char} {st : Statement} (h : ofChars cs = .ok st) {l : Label}
    (hl : st.label? = some l) : IsWord l := by
  have hdeclared : ∀ {fixed kind l'} {L : Language Char},
      cs ∈ fixing fixed * (declared kind l' * L) → IsWord l' := by
    rintro fixed kind l' L ⟨_, _, _, ⟨_, ⟨_, _, _, ⟨_, _, _, ⟨_, hl', _⟩, _⟩, _⟩, _⟩, _⟩
    exact hl'.2
  have hmem := mem_language_of_ofChars h
  cases st with
  | point l' fixed x y =>
    cases hl
    exact hdeclared hmem
  | line l' fixed a b c =>
    cases hl
    exact hdeclared hmem
  | relate kind a b x => cases hl
  | coincide a b => cases hl

def text : Statement → String
  | point label fixed x y => NamedSketch.declaration fixed label (.point ⟨x, y⟩)
  | line label fixed a b c => NamedSketch.declaration fixed label (.line ⟨a, b, c⟩)
  | relate kind a b value =>
    kind.name ++ NamedSketch.pairText a b ++ " = " ++ Decimal.text value
  | coincide a b => "coincident" ++ NamedSketch.pairText a b

def mentioned : Statement → List Label
  | point label _ _ _ | line label _ _ _ _ => [label]
  | relate _ a b _ | coincide a b => [a, b]

def numbers : Statement → List Float
  | point _ _ x y => [x, y]
  | line _ _ a b c => [a, b, c]
  | relate _ _ _ value => [value]
  | coincide _ _ => []

/-- The statement can be read from its text. -/
structure Legible (st : Statement) : Prop where
  words : ∀ l ∈ st.mentioned, IsWord l
  numbers : ∀ x ∈ st.numbers, Reads x

theorem blank_mem : [' '] ∈ Grammar.blanks := by
  intro c hc
  exact Or.inl (List.mem_singleton.mp hc)

theorem comma_mem : [',', ' '] ∈ separated "," :=
  Language.append_mem_mul (a := []) nofun (Language.append_mem_mul (a := [',']) rfl blank_mem)

theorem equals_mem : [' ', '=', ' '] ∈ separated "=" :=
  Language.append_mem_mul blank_mem (Language.append_mem_mul (a := ['=']) rfl blank_mem)

theorem parens_mem {L : Language Char} {w : List Char} (hw : w ∈ L) :
    '(' :: (w ++ [')']) ∈ parens L :=
  Language.append_mem_mul (a := ['(']) rfl (Language.append_mem_mul (a := []) nofun
    (Language.append_mem_mul hw (Language.append_mem_mul (a := []) nofun rfl)))

theorem pairText_mem {a b : Label} (ha : IsWord a) (hb : IsWord b) :
    (NamedSketch.pairText a b).toList ∈ pair a b := by
  have htext : (NamedSketch.pairText a b).toList =
      '(' :: ((a.toList ++ ([',', ' '] ++ b.toList)) ++ [')']) := by
    simp [NamedSketch.pairText]
  rw [htext]
  exact parens_mem (Language.append_mem_mul ⟨rfl, ha⟩
    (Language.append_mem_mul comma_mem ⟨rfl, hb⟩))

theorem toList_declaration (fixed : Bool) (l : Label) (shape : Shape Float) :
    (NamedSketch.declaration fixed l shape).toList =
      (if fixed then "fixed " else "").toList ++
        ((shape.kind.name.toList ++ ([' '] ++ (l.toList ++ [' ']))) ++ shape.text.toList) := by
  cases fixed <;> simp [NamedSketch.declaration]

theorem toList_text_relate (kind : RelationKind) (a b : Label) (value : Float) :
    (text (relate kind a b value)).toList = (kind.name.toList ++ ([] ++
      ((NamedSketch.pairText a b).toList ++ [' ', '=', ' ']))) ++ (Decimal.text value).toList := by
  simp [text]

theorem declaration_mem (fixed : Bool) {l : Label} {shape : Shape Float} {L : Language Char}
    (hl : IsWord l) (hshape : shape.text.toList ∈ L) :
    (NamedSketch.declaration fixed l shape).toList ∈
      fixing fixed * (declared shape.kind l * L) := by
  have hfixing : (if fixed then "fixed " else "").toList ∈ fixing fixed := by
    cases fixed with
    | false => rfl
    | true => exact Language.append_mem_mul (a := "fixed".toList) rfl ⟨by simp, blank_mem⟩
  rw [toList_declaration]
  refine Language.append_mem_mul hfixing (Language.append_mem_mul ?_ hshape)
  exact Language.append_mem_mul rfl (Language.append_mem_mul ⟨by simp, blank_mem⟩
    (Language.append_mem_mul ⟨rfl, hl⟩ blank_mem))

theorem text_mem_language {st : Statement} (h : Legible st) : st.text.toList ∈ st.language := by
  cases st with
  | point l fixed x y =>
    have hl := h.words l (by simp [mentioned])
    have hx := (h.numbers x (by simp [Statement.numbers])).mem
    have hy := (h.numbers y (by simp [Statement.numbers])).mem
    have hshape : (Shape.text (.point ⟨x, y⟩)).toList ∈
        parens (number x * (separated "," * number y)) := by
      have htext : (Shape.text (.point ⟨x, y⟩)).toList = '(' :: (((Decimal.text x).toList ++
          ([',', ' '] ++ (Decimal.text y).toList)) ++ [')']) := by
        simp [Shape.text, Vec.text]
      rw [htext]
      exact parens_mem (Language.append_mem_mul hx (Language.append_mem_mul comma_mem hy))
    have hmem := declaration_mem fixed hl hshape
    exact hmem
  | line l fixed a b c =>
    have hl := h.words l (by simp [mentioned])
    have ha := (h.numbers a (by simp [Statement.numbers])).mem
    have hb := (h.numbers b (by simp [Statement.numbers])).mem
    have hc := (h.numbers c (by simp [Statement.numbers])).mem
    have hshape : (Shape.text (.line ⟨a, b, c⟩)).toList ∈
        parens (number a * (separated "," * (number b * (separated "," * number c)))) := by
      have htext : (Shape.text (.line ⟨a, b, c⟩)).toList = '(' :: (((Decimal.text a).toList ++
          ([',', ' '] ++ ((Decimal.text b).toList ++ ([',', ' '] ++ (Decimal.text c).toList)))) ++
            [')']) := by
        simp [Shape.text, Line.text]
      rw [htext]
      exact parens_mem (Language.append_mem_mul ha (Language.append_mem_mul comma_mem
        (Language.append_mem_mul hb (Language.append_mem_mul comma_mem hc))))
    have hmem := declaration_mem fixed hl hshape
    exact hmem
  | relate kind a b value =>
    have hpair := pairText_mem (h.words a (by simp [mentioned])) (h.words b (by simp [mentioned]))
    have hv := (h.numbers value (by simp [Statement.numbers])).mem
    have hrelation := Language.append_mem_mul (l := literal kind.name) rfl
      (Language.append_mem_mul (l := Grammar.blanks) (a := []) nofun
        (Language.append_mem_mul hpair equals_mem))
    rw [toList_text_relate]
    cases kind with
    | distance => exact Language.append_mem_mul hrelation hv
    | angle => exact Language.append_mem_mul hrelation (Or.inl hv)
  | coincide a b =>
    have hpair := pairText_mem (h.words a (by simp [mentioned])) (h.words b (by simp [mentioned]))
    rw [text, String.toList_append]
    exact Language.append_mem_mul rfl (Language.append_mem_mul (a := []) nofun hpair)

theorem ofChars_text {st : Statement} (h : Legible st) : ofChars st.text.toList = .ok st :=
  ofChars_of_mem_language (text_mem_language h)

theorem newline_not_mem_text {st : Statement} (h : Legible st) : '\n' ∉ st.text.toList := by
  have hdecimal := newline_not_mem_decimal
  have hlabel : ∀ l ∈ st.mentioned, '\n' ∉ l.toList := fun l hl => (h.words l hl).newline_not_mem
  cases st with
  | point l fixed x y =>
    have hl := hlabel l (by simp [mentioned])
    cases fixed <;> simp [text, NamedSketch.declaration, Shape.text, Vec.text, Shape.kind,
      ShapeKind.name, hl, hdecimal]
  | line l fixed a b c =>
    have hl := hlabel l (by simp [mentioned])
    cases fixed <;> simp [text, NamedSketch.declaration, Shape.text, Line.text, Shape.kind,
      ShapeKind.name, hl, hdecimal]
  | relate kind a b value =>
    have ha := hlabel a (by simp [mentioned])
    have hb := hlabel b (by simp [mentioned])
    cases kind <;> simp [text, NamedSketch.pairText, RelationKind.name, ha, hb, hdecimal]
  | coincide a b =>
    have ha := hlabel a (by simp [mentioned])
    have hb := hlabel b (by simp [mentioned])
    simp [text, NamedSketch.pairText, ha, hb]

theorem exists_fixed_append_eq_cons (fixed : Bool) (kind : ShapeKind) (v w : List Char) :
    ∃ c cs, (if fixed then "fixed " else "").toList ++ ((kind.name.toList ++ v) ++ w) = c :: cs ∧
      c.isAlpha = true := by
  cases fixed <;> cases kind <;> exact ⟨_, _, rfl, rfl⟩

/-- The text begins with a letter. -/
theorem exists_text_eq_cons (st : Statement) :
    ∃ c cs, st.text.toList = c :: cs ∧ c.isAlpha = true := by
  cases st with
  | point l fixed x y =>
    rw [text, toList_declaration]
    exact exists_fixed_append_eq_cons fixed _ _ _
  | line l fixed a b c =>
    rw [text, toList_declaration]
    exact exists_fixed_append_eq_cons fixed _ _ _
  | relate kind a b value =>
    rw [toList_text_relate]
    cases kind <;> exact ⟨_, _, rfl, rfl⟩
  | coincide a b =>
    rw [text, String.toList_append]
    exact ⟨_, _, rfl, rfl⟩

theorem exists_shape_text_eq_concat (shape : Shape Float) :
    ∃ cs, shape.text.toList = cs ++ [')'] := by
  cases shape <;> exact ⟨_, String.toList_append⟩

theorem Reads.ne_nil {x : Float} (h : Reads x) : (Decimal.text x).toList ≠ [] := by
  intro hnil
  rw [Reads, hnil] at h
  cases h

/-- The text ends with a parenthesis or a number. -/
theorem exists_text_eq_concat {st : Statement} (h : Legible st) :
    ∃ c cs, st.text.toList = cs ++ [c] ∧ isWhite c = false := by
  have hdeclaration : ∀ fixed l shape, ∃ cs,
      (NamedSketch.declaration fixed l shape).toList = cs ++ [')'] := by
    intro fixed l shape
    obtain ⟨cs, hcs⟩ := exists_shape_text_eq_concat shape
    rw [NamedSketch.declaration, String.toList_append, hcs, ← List.append_assoc]
    exact ⟨_, rfl⟩
  cases st with
  | point l fixed x y =>
    obtain ⟨cs, hcs⟩ := hdeclaration fixed l (.point ⟨x, y⟩)
    exact ⟨')', cs, hcs, rfl⟩
  | line l fixed a b c =>
    obtain ⟨cs, hcs⟩ := hdeclaration fixed l (.line ⟨a, b, c⟩)
    exact ⟨')', cs, hcs, rfl⟩
  | relate kind a b value =>
    have hne := (h.numbers value (by simp [Statement.numbers])).ne_nil
    obtain ⟨ds, c, hds⟩ := (List.eq_nil_or_concat _).resolve_left hne
    have hc : c ∈ (Decimal.text value).toList := by simp [hds]
    rw [text, String.toList_append, hds, List.concat_eq_append, ← List.append_assoc]
    exact ⟨c, _, rfl, isWhite_of_isFigure (Decimal.isFigure_of_mem_text hc)⟩
  | coincide a b =>
    rw [text, NamedSketch.pairText, String.toList_append, String.toList_append, ← List.append_assoc]
    exact ⟨')', _, rfl, rfl⟩

theorem trimWhite_text {st : Statement} (h : Legible st) :
    trimWhite st.text.toList = st.text.toList := by
  obtain ⟨c, cs, hcons, hc⟩ := exists_text_eq_cons st
  obtain ⟨d, ds, hconcat, hd⟩ := exists_text_eq_concat h
  have hwhite : isWhite c = false :=
    isWhite_of_isLabelChar (by simp [isLabelChar, Char.isAlphanum, hc])
  have hstart : st.text.toList.dropWhile isWhite = st.text.toList := by
    rw [hcons, List.dropWhile_cons_of_neg (by simp [hwhite])]
  rw [trimWhite, hstart, hconcat, List.reverse_append, List.reverse_singleton,
    List.singleton_append, List.dropWhile_cons_of_neg (by simp [hd])]
  simp

theorem isStatement_text (st : Statement) : NamedSketch.isStatement st.text.toList = true := by
  obtain ⟨c, cs, hcons, hc⟩ := exists_text_eq_cons st
  have hhash : c ≠ '#' := by
    rintro rfl
    cases hc
  simp [NamedSketch.isStatement, hcons, hhash]

end Statement

theorem splitLines_append {line : List Char} (h : '\n' ∉ line) (rest : List Char) :
    splitLines (line ++ '\n' :: rest) = line :: splitLines rest := by
  induction line with
  | nil => rfl
  | cons c line ih =>
    rw [List.mem_cons, not_or] at h
    rw [List.cons_append, splitLines, if_neg (Ne.symm h.1), ih h.2]

theorem splitLines_join {lines : List String} (h : ∀ l ∈ lines, '\n' ∉ l.toList) :
    splitLines (String.join (lines.map (· ++ "\n"))).toList = lines.map String.toList ++ [[]] := by
  rw [String.toList_join]
  induction lines with
  | nil => rfl
  | cons l lines ih =>
    have hl : '\n' ∉ l.toList := h l List.mem_cons_self
    have hlines := ih fun l' hl' => h l' (List.mem_cons_of_mem _ hl')
    rw [List.map_cons, List.flatMap_cons, String.toList_append, List.append_assoc]
    exact (splitLines_append hl _).trans (congrArg (l.toList :: ·) hlines)

end RigidSketch
