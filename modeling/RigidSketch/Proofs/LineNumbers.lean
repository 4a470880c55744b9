import RigidSketch.Proofs.Writing

/-! Errors of scripts are those of the first line at fault. Blank lines and comments only move their
numbers. -/

namespace RigidSketch

/-- A line feed ends a line, alone or after a carriage return. -/
def dropReturn (line : List Char) : List Char :=
  if line.getLast? = some '\r' then line.dropLast else line

/-- The lines among what the line feeds of a text part. The last part has no line feed after it, so
that it keeps a carriage return, and is no line if it is empty. -/
def endedLines : List (List Char) → List (List Char)
  | [] => []
  | [last] => if last = [] then [] else [last]
  | line :: next :: rest => dropReturn line :: endedLines (next :: rest)

/-- The lines of a text, without their ends. -/
def lines (text : String) : List (List Char) := endedLines (splitLines text.toList)

/-- What is before the end of the line of some number, with that end. -/
def firstChars : Nat → List Char → List Char
  | 0, _ => []
  | _ + 1, [] => []
  | k + 1, c :: cs => c :: firstChars (if c = '\n' then k else k + 1) cs

/-- The text made of the first lines of a text. -/
def firstLines (k : Nat) (text : String) : String := String.ofList (firstChars k text.toList)

theorem splitLines_of_not_mem {cs : List Char} (h : '\n' ∉ cs) : splitLines cs = [cs] := by
  induction cs with
  | nil => rfl
  | cons c cs ih =>
    rw [List.mem_cons, not_or] at h
    rw [splitLines, if_neg (Ne.symm h.1), ih h.2]

theorem splitLines_ne_nil (cs : List Char) : splitLines cs ≠ [] := by
  by_cases h : '\n' ∈ cs
  · obtain ⟨line, rest, rfl, hline⟩ := List.eq_append_cons_of_mem h
    simp [splitLines_append hline]
  · simp [splitLines_of_not_mem h]

theorem endedLines_cons (line : List Char) {rest : List (List Char)} (h : rest ≠ []) :
    endedLines (line :: rest) = dropReturn line :: endedLines rest := by
  cases rest with
  | nil => exact absurd rfl h
  | cons next rest => rfl

theorem firstChars_succ_of_not_mem {cs : List Char} (h : '\n' ∉ cs) (k : Nat) :
    firstChars (k + 1) cs = cs := by
  induction cs with
  | nil => rfl
  | cons c cs ih =>
    rw [List.mem_cons, not_or] at h
    rw [firstChars, if_neg (Ne.symm h.1), ih h.2]

theorem firstChars_succ_append {line : List Char} (h : '\n' ∉ line) (k : Nat) (rest : List Char) :
    firstChars (k + 1) (line ++ '\n' :: rest) = line ++ '\n' :: firstChars k rest := by
  induction line with
  | nil => rfl
  | cons c line ih =>
    rw [List.mem_cons, not_or] at h
    rw [List.cons_append, firstChars, if_neg (Ne.symm h.1), ih h.2, List.cons_append]

theorem endedLines_firstChars (k : Nat) (cs : List Char) :
    endedLines (splitLines (firstChars k cs)) = (endedLines (splitLines cs)).take k := by
  induction k generalizing cs with
  | zero =>
    rw [firstChars, List.take_zero]
    rfl
  | succ k ih =>
    by_cases h : '\n' ∈ cs
    · obtain ⟨line, rest, rfl, hline⟩ := List.eq_append_cons_of_mem h
      rw [firstChars_succ_append hline, splitLines_append hline, splitLines_append hline,
        endedLines_cons line (splitLines_ne_nil _), endedLines_cons line (splitLines_ne_nil _),
        List.take_succ_cons, ih]
    · rw [firstChars_succ_of_not_mem h, splitLines_of_not_mem h, endedLines]
      split <;> simp

theorem lines_firstLines (k : Nat) (text : String) :
    lines (firstLines k text) = (lines text).take k := by
  rw [lines, firstLines, String.toList_ofList]
  exact endedLines_firstChars k text.toList

example : lines "a\r\n\n b\r" = ["a".toList, [], " b\r".toList] ∧
    lines (firstLines 2 "a\r\n\n b\r") = ["a".toList, []] := by decide

theorem trimWhite_append_white (cs : List Char) {c : Char} (hc : isWhite c = true) :
    trimWhite (cs ++ [c]) = trimWhite cs := by
  rw [trimWhite, trimWhite, List.dropWhile_append]
  split
  · next hempty => simp [List.isEmpty_iff.mp hempty, hc]
  · rw [List.reverse_append, List.reverse_singleton, List.singleton_append,
      List.dropWhile_cons_of_pos hc]

theorem trimWhite_dropReturn (line : List Char) : trimWhite (dropReturn line) = trimWhite line := by
  unfold dropReturn
  split
  · next hlast =>
    obtain ⟨cs, rfl⟩ := List.getLast?_eq_some_iff.mp hlast
    rw [List.dropLast_concat, trimWhite_append_white cs (by decide)]
  · rfl

namespace NamedSketch

/-- A line, without white space at its ends, is no statement or one that is not carried out. -/
inductive Rejects (n : NamedSketch) (cs : List Char) : LineError → Prop
  | malformed {rest : List Char} : Statement.ofChars cs = .error rest →
      Rejects n cs (.malformed (String.ofList cs) (byteLength cs - byteLength rest))
  | refused {st : Statement} {cause : LineError} : Statement.ofChars cs = .ok st →
      n.execute st = .error cause → Rejects n cs cause

theorem runLine_of_idle {cs : List Char} (h : isStatement cs = false) (n : NamedSketch) :
    n.runLine cs = .ok n := by
  unfold runLine isStatement at *
  simp_all

theorem runLine_eq_error_iff {n : NamedSketch} {cs : List Char} {cause : LineError} :
    n.runLine cs = .error cause ↔ isStatement cs = true ∧ n.Rejects cs cause := by
  by_cases hs : isStatement cs = true
  · have hne : ¬(cs.isEmpty || cs.head? = some '#') = true := by simpa [isStatement] using hs
    rw [runLine, if_neg hne, and_iff_right hs]
    cases hread : Statement.ofChars cs with
    | ok st =>
      refine ⟨fun h => .refused hread h, ?_⟩
      rintro (hread' | ⟨hread', h⟩)
      · cases hread.symm.trans hread'
      · cases hread.symm.trans hread'
        exact h
    | error rest =>
      constructor
      · rintro ⟨⟩
        exact .malformed hread
      · rintro (hread' | ⟨hread', _⟩)
        · cases hread.symm.trans hread'
          rfl
        · cases hread.symm.trans hread'
  · rw [runLine_of_idle (by simpa using hs)]
    simp [hs]

theorem runLines_congr {k : Nat} {ls ls' : List (List Char)} {n : NamedSketch}
    (h : ls.map trimWhite = ls'.map trimWhite) : runLines k ls n = runLines k ls' n := by
  induction ls generalizing k ls' n with
  | nil => rw [List.map_eq_nil_iff.mp h.symm]
  | cons line ls ih =>
    cases ls' with
    | nil => cases h
    | cons line' ls' =>
      rw [List.map_cons, List.map_cons, List.cons.injEq] at h
      rw [runLines, runLines, h.1]
      cases n.runLine (trimWhite line') with
      | ok n => exact ih h.2
      | error cause => rfl

theorem runLines_append (k : Nat) (ls ls' : List (List Char)) (n : NamedSketch) :
    runLines k (ls ++ ls') n = runLines k ls n >>= runLines (k + ls.length) ls' := by
  induction ls generalizing k n with
  | nil => rfl
  | cons line ls ih =>
    rw [List.cons_append, runLines, runLines]
    cases n.runLine (trimWhite line) with
    | ok n => simpa [Nat.add_right_comm, Nat.add_assoc] using ih (k + 1) n
    | error cause => rfl

theorem runLines_idle {ls : List (List Char)}
    (h : ∀ line ∈ ls, isStatement (trimWhite line) = false) (k : Nat) (n : NamedSketch) :
    runLines k ls n = .ok n := by
  induction ls generalizing k with
  | nil => rfl
  | cons line ls ih =>
    rw [runLines, runLine_of_idle (h line List.mem_cons_self)]
    exact ih (fun line' h' => h line' (List.mem_cons_of_mem _ h')) (k + 1)

theorem runLines_eq_error_iff {k number : Nat} {ls : List (List Char)} {n : NamedSketch}
    {cause : LineError} :
    runLines k ls n = .error ⟨number, cause⟩ ↔
      ∃ i line m, number = k + i ∧ ls[i]? = some line ∧
        runLines k (ls.take i) n = .ok m ∧ m.runLine (trimWhite line) = .error cause := by
  induction ls generalizing k n with
  | nil => simp [runLines]
  | cons line ls ih =>
    constructor
    · intro h
      rw [runLines] at h
      cases hline : n.runLine (trimWhite line) with
      | error cause' =>
        rw [hline] at h
        cases h
        exact ⟨0, line, n, rfl, rfl, rfl, hline⟩
      | ok n' =>
        rw [hline] at h
        obtain ⟨i, line', m, rfl, hget, hbefore, hcause⟩ := ih.mp h
        refine ⟨i + 1, line', m, by omega, hget, ?_, hcause⟩
        rw [List.take_succ_cons, runLines, hline]
        exact hbefore
    · rintro ⟨i, line', m, rfl, hget, hbefore, hcause⟩
      cases i with
      | zero =>
        cases hget
        cases hbefore
        rw [runLines, hcause]
        rfl
      | succ i =>
        rw [List.take_succ_cons, runLines] at hbefore
        rw [runLines]
        cases hline : n.runLine (trimWhite line) with
        | error cause' =>
          rw [hline] at hbefore
          cases hbefore
        | ok n' =>
          rw [hline] at hbefore
          exact ih.mpr ⟨i, line', m, by omega, hget, hbefore, hcause⟩

theorem runLines_add (k : Nat) (ls : List (List Char)) (n : NamedSketch) (d : Nat) :
    runLines (k + d) ls n = (runLines k ls n).mapError fun e => { e with line := e.line + d } := by
  induction ls generalizing k n with
  | nil => rfl
  | cons line ls ih =>
    rw [runLines, runLines]
    cases n.runLine (trimWhite line) with
    | ok n => simpa [Nat.add_right_comm] using ih (k + 1) n
    | error cause => rfl

theorem runLines_endedLines (k : Nat) {ls : List (List Char)} (h : ls ≠ []) (n : NamedSketch) :
    runLines k (endedLines ls) n = runLines k ls n := by
  induction ls generalizing k n with
  | nil => exact absurd rfl h
  | cons line ls ih =>
    cases ls with
    | nil =>
      rw [endedLines]
      split
      · next hempty =>
        subst hempty
        exact (runLines_idle (by decide) k n).symm
      · rfl
    | cons next rest =>
      rw [endedLines, runLines, runLines, trimWhite_dropReturn]
      cases n.runLine (trimWhite line) with
      | ok n => exact ih (k + 1) (by simp) n
      | error cause => rfl

/-- What ends a line, and whether the last one has an end, makes no difference. -/
theorem ofScript_eq_runLines (text : String) : ofScript text = runLines 1 (lines text) {} :=
  (runLines_endedLines 1 (splitLines_ne_nil _) {}).symm

/-- Lines with those of a gap before each of them, and the remaining gaps at the end. -/
def pad : List (List (List Char)) → List (List Char) → List (List Char)
  | gaps, [] => gaps.flatten
  | [], ls => ls
  | gap :: gaps, line :: ls => gap ++ line :: pad gaps ls

theorem runLines_pad {gaps : List (List (List Char))}
    (h : ∀ gap ∈ gaps, ∀ line ∈ gap, isStatement (trimWhite line) = false) (k : Nat)
    (ls : List (List Char)) (n : NamedSketch) :
    runLines k (pad gaps ls) n = (runLines k ls n).mapError fun e =>
      { e with line := e.line + (gaps.take (e.line + 1 - k)).flatten.length } := by
  induction ls generalizing gaps k n with
  | nil =>
    have hidle : ∀ line ∈ gaps.flatten, isStatement (trimWhite line) = false := by
      intro line hline
      obtain ⟨gap, hgap, hline⟩ := List.mem_flatten.mp hline
      exact h gap hgap line hline
    cases gaps <;> exact runLines_idle hidle k n
  | cons line ls ih =>
    cases gaps with
    | nil => cases hrun : runLines k (line :: ls) n <;> simp [pad, hrun, Except.mapError]
    | cons gap gaps =>
      have hskip := runLines_idle (h gap List.mem_cons_self) k n
      rw [pad, runLines_append, hskip]
      change runLines (k + gap.length) (line :: pad gaps ls) n = _
      rw [runLines, runLines]
      cases n.runLine (trimWhite line) with
      | error cause => simp [Except.mapError]
      | ok n =>
        have hrest := ih (fun gap' h' => h gap' (List.mem_cons_of_mem _ h')) (k + 1) n
        change runLines (k + gap.length + 1) (pad gaps ls) n = (runLines (k + 1) ls n).mapError _
        rw [Nat.add_right_comm, runLines_add, hrest]
        cases hrun : runLines (k + 1) ls n with
        | ok m => rfl
        | error e =>
          obtain ⟨i, _, _, hnumber, _⟩ := runLines_eq_error_iff.mp hrun
          have hgaps : e.line + 1 - k = e.line + 1 - (k + 1) + 1 := by omega
          simp only [Except.mapError, hgaps, List.take_succ_cons, List.flatten_cons,
            List.length_append]
          congr 2
          omega

/-- The error of a script is that of the first line that is rejected where the lines before it have
led. Blank lines and comments in the gaps between lines change nothing but its number, to which they
add the number of those that come before. -/
theorem ofScript_first_fault (text : String) :
    (∀ number cause, ofScript text = .error ⟨number, cause⟩ ↔
      ∃ i line n, number = i + 1 ∧ (lines text)[i]? = some line ∧
        ofScript (firstLines i text) = .ok n ∧ isStatement (trimWhite line) = true ∧
        n.Rejects (trimWhite line) cause) ∧
    ∀ (padded : String) (gaps : List (List (List Char))),
      (∀ gap ∈ gaps, ∀ line ∈ gap, isStatement (trimWhite line) = false) →
      (lines padded).map trimWhite = (pad gaps (lines text)).map trimWhite →
      ofScript padded = (ofScript text).mapError fun e =>
        { e with line := e.line + (gaps.take e.line).flatten.length } := by
  refine ⟨fun number cause => ?_, fun padded gaps hidle hlines => ?_⟩
  · rw [ofScript_eq_runLines, runLines_eq_error_iff]
    simp only [ofScript_eq_runLines, lines_firstLines, runLine_eq_error_iff, Nat.add_comm 1]
  · rw [ofScript_eq_runLines, ofScript_eq_runLines, runLines_congr hlines, runLines_pad hidle]
    simp only [Nat.add_sub_cancel]

/-- A label declared twice, without an end of the last line. -/
def redeclaring : String := "point a (0, 0)\r\npoint a (1, 1)"

/-- With blank lines, one of them of an ideographic space, and a comment. -/
def paddedRedeclaring : String :=
  "\u3000\npoint a (0, 0)\n # once more\r\n\t\npoint a (1, 1)\n"

theorem ofScript_first_fault_redeclaring :
    ofScript redeclaring = .error ⟨2, .redeclared "a"⟩ ∧
      ofScript paddedRedeclaring = .error ⟨5, .redeclared "a"⟩ := by
  have hfault : ofScript redeclaring = .error ⟨2, .redeclared "a"⟩ := by decide +kernel
  have hpadded := (ofScript_first_fault redeclaring).2 paddedRedeclaring
    [["\u3000".toList], [" # once more".toList, ['\t']]] (by decide +kernel) (by decide +kernel)
  refine ⟨hfault, ?_⟩
  rw [hpadded, hfault]
  rfl

end NamedSketch

end RigidSketch
