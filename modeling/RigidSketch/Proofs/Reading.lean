import Mathlib.Computability.Language
import RigidSketch.Script.Lines
import RigidSketch.Script.Writer

/-! What readers take off the beginning of a text, as languages, and what they leave. -/

namespace RigidSketch

namespace Reader

variable {α β : Type}

theorem bind_of_ok {r : Reader α} {cs rest : List Char} {a : α} (h : r cs = .ok (a, rest))
    (f : α → Reader β) : (r >>= f) cs = f a rest := by
  simp only [bind, h]

theorem bind_of_error {r : Reader α} {cs stop : List Char} (h : r cs = .error stop)
    (f : α → Reader β) : (r >>= f) cs = .error stop := by
  simp only [bind, h]

theorem bind_eq_ok_iff {r : Reader α} {f : α → Reader β} {cs rest : List Char} {b : β} :
    (r >>= f) cs = .ok (b, rest) ↔ ∃ a mid, r cs = .ok (a, mid) ∧ f a mid = .ok (b, rest) := by
  cases h : r cs with
  | ok found =>
    rw [bind_of_ok h]
    constructor
    · exact fun hf => ⟨found.1, found.2, rfl, hf⟩
    · rintro ⟨a, mid, heq, hf⟩
      cases heq
      exact hf
  | error stop => simp [bind_of_error h]

theorem orElse_of_ok {r s : Reader α} {cs : List Char} {found : α × List Char}
    (h : r cs = .ok found) : orElse r s cs = .ok found := by
  rw [orElse, h]

theorem orElse_of_error {r s : Reader α} {cs stop : List Char}
    (h : r cs = .error stop) : orElse r s cs = s cs := by
  rw [orElse, h]

/-- The text does not begin with a character of the given sort. -/
def Stops (p : Char → Bool) (cs : List Char) : Prop := ∀ c ∈ cs.head?, p c = false

theorem Stops.nil (p : Char → Bool) : Stops p [] := by
  intro c hc
  cases hc

theorem Stops.cons {p : Char → Bool} {c : Char} (h : p c = false) (cs : List Char) :
    Stops p (c :: cs) := by
  intro c' hc'
  cases hc'
  exact h

theorem Stops.append {p : Char → Bool} {cs rest : List Char} (h : ∀ c ∈ cs, p c = false)
    (hrest : Stops p rest) : Stops p (cs ++ rest) := by
  cases cs with
  | nil => exact hrest
  | cons c cs => exact .cons (h c List.mem_cons_self) _

theorem Stops.while0 {p : Char → Bool} {cs : List Char} (h : Stops p cs) :
    while0 p cs = .ok ([], cs) := by
  cases cs with
  | nil => rfl
  | cons c cs => simp [Reader.while0, h c rfl]

theorem while1_append {p : Char → Bool} {cs rest : List Char} (hne : cs ≠ [])
    (h : ∀ c ∈ cs, p c = true) (hrest : Stops p rest) :
    while1 p (cs ++ rest) = .ok (cs, rest) := by
  have hstop := hrest.while0
  simp only [Reader.while0, Except.ok.injEq, Prod.mk.injEq] at hstop
  unfold while1
  rw [List.takeWhile_append_of_pos h, List.dropWhile_append_of_pos h, hstop.1, hstop.2,
    List.append_nil, if_neg (by simpa using hne)]

theorem strip?_eq_some_iff {same : Char → Char → Bool} {ws cs rest : List Char} :
    strip? same ws cs = some rest ↔
      ∃ v, List.Forall₂ (fun w c => same w c = true) ws v ∧ cs = v ++ rest := by
  induction ws generalizing cs with
  | nil => simp [strip?]
  | cons w ws ih =>
    cases cs with
    | nil => simp [strip?, List.forall₂_cons_left_iff]
    | cons c cs =>
      by_cases hc : same w c = true
      · simp only [strip?, hc, if_true, ih]
        constructor
        · rintro ⟨v, hv, rfl⟩
          exact ⟨c :: v, .cons hc hv, rfl⟩
        · rintro ⟨_, hall, heq⟩
          obtain ⟨c', v, _, hv, rfl⟩ := List.forall₂_cons_left_iff.mp hall
          cases heq
          exact ⟨v, hv, rfl⟩
      · simp only [strip?, if_neg hc, reduceCtorEq, false_iff]
        rintro ⟨_, hall, heq⟩
        obtain ⟨c', v, hc', _, rfl⟩ := List.forall₂_cons_left_iff.mp hall
        cases heq
        exact hc hc'

theorem word_eq_ok_iff {w : String} {cs rest : List Char} {u : Unit} :
    word w cs = .ok (u, rest) ↔ cs = w.toList ++ rest := by
  have hsame : strip? (· == ·) w.toList cs = some rest ↔ cs = w.toList ++ rest := by
    simp [strip?_eq_some_iff, List.forall₂_eq_eq_eq]
  unfold word
  rw [← hsame]
  cases strip? (· == ·) w.toList cs <;> simp

theorem word_append (w : String) (rest : List Char) :
    word w (w.toList ++ rest) = .ok ((), rest) := word_eq_ok_iff.mpr rfl

theorem anyCase_eq_ok_iff {w : String} {cs rest : List Char} {u : Unit} :
    anyCase w cs = .ok (u, rest) ↔ ∃ v, v.map Char.toLower = w.toList ∧ cs = v ++ rest := by
  have hsame : strip? (fun w c => w == c.toLower) w.toList cs = some rest ↔
      ∃ v, v.map Char.toLower = w.toList ∧ cs = v ++ rest := by
    have hmap : ∀ v : List Char, List.Forall₂ (fun w c => w = c.toLower) w.toList v ↔
        v.map Char.toLower = w.toList := by
      intro v
      rw [← List.forall₂_map_right_iff (R := (· = ·)), List.forall₂_eq_eq_eq, eq_comm]
    simp [strip?_eq_some_iff, hmap]
  unfold anyCase
  rw [← hsame]
  cases strip? (fun w c => w == c.toLower) w.toList cs <;> simp

theorem while0_eq_ok_iff {p : Char → Bool} {cs ds rest : List Char} :
    while0 p cs = .ok (ds, rest) ↔ cs = ds ++ rest ∧ (∀ c ∈ ds, p c = true) ∧ Stops p rest := by
  simp only [while0, Except.ok.injEq, Prod.mk.injEq]
  constructor
  · rintro ⟨rfl, rfl⟩
    refine ⟨List.takeWhile_append_dropWhile.symm, fun c hc => ?_, fun c hc => ?_⟩
    · exact List.all_eq_true.mp List.all_takeWhile c hc
    · have hhead := List.head?_dropWhile_not p cs
      rw [Option.mem_def.mp hc] at hhead
      exact hhead
  · rintro ⟨rfl, hds, hrest⟩
    have hstop := hrest.while0
    simp only [while0, Except.ok.injEq, Prod.mk.injEq] at hstop
    rw [List.takeWhile_append_of_pos hds, List.dropWhile_append_of_pos hds, hstop.1, hstop.2]
    simp

theorem while1_eq_ok_iff {p : Char → Bool} {cs ds rest : List Char} :
    while1 p cs = .ok (ds, rest) ↔
      ds ≠ [] ∧ cs = ds ++ rest ∧ (∀ c ∈ ds, p c = true) ∧ Stops p rest := by
  rw [← while0_eq_ok_iff]
  unfold while1 while0
  by_cases hempty : (cs.takeWhile p).isEmpty = true
  · rw [if_pos hempty]
    refine ⟨nofun, ?_⟩
    rintro ⟨hne, heq⟩
    cases heq
    exact absurd (List.isEmpty_iff.mp hempty) hne
  · rw [if_neg hempty]
    refine ⟨fun h => ⟨?_, h⟩, And.right⟩
    cases h
    rwa [List.isEmpty_iff] at hempty

/-- Whatever the reader takes is a text of the language for what it finds. -/
def Takes {α : Type} (r : Reader α) (language : α → Language Char) : Prop :=
  ∀ ⦃cs a rest⦄, r cs = .ok (a, rest) → ∃ w ∈ language a, cs = w ++ rest

section

variable {α β : Type} {L : α → Language Char} {M : β → Language Char}

theorem takes_pure {a : α} (h : [] ∈ L a) : Takes (pure a) L := by
  intro cs a' rest hr
  cases hr
  exact ⟨[], h, rfl⟩

theorem Takes.bind {r : Reader α} {f : α → Reader β} (hr : Takes r L)
    (hf : ∀ a, ∀ w ∈ L a, Takes (f a) fun b => {v | w ++ v ∈ M b}) : Takes (r >>= f) M := by
  intro cs b rest h
  obtain ⟨a, mid, ha, hb⟩ := bind_eq_ok_iff.mp h
  obtain ⟨w, hw, rfl⟩ := hr ha
  obtain ⟨v, hv, rfl⟩ := hf a w hw hb
  exact ⟨w ++ v, hv, (List.append_assoc w v rest).symm⟩

theorem Takes.map {r : Reader α} {f : α → β} (hr : Takes r L)
    (hf : ∀ a, ∀ w ∈ L a, w ∈ M (f a)) : Takes (r >>= fun a => pure (f a)) M := by
  intro cs b rest h
  obtain ⟨a, mid, ha, hb⟩ := bind_eq_ok_iff.mp h
  obtain ⟨w, hw, rfl⟩ := hr ha
  cases hb
  exact ⟨w, hf a w hw, rfl⟩

theorem takes_peek {f : Option Char → Reader α} (h : ∀ c, Takes (f c) L) :
    Takes (peek >>= f) L := by
  intro cs a rest hr
  exact h cs.head? hr

theorem Takes.orElse {r s : Reader α} (hr : Takes r L) (hs : Takes s L) :
    Takes (orElse r s) L := by
  intro cs a rest h
  unfold Reader.orElse at h
  split at h
  · rename_i found hfound
    cases h
    exact hr hfound
  · exact hs h

theorem Takes.optional {r : Reader α} (hr : Takes r L) :
    Takes (optional r) fun a => a.elim 1 L := by
  intro cs a rest h
  unfold Reader.optional at h
  split at h
  · rename_i found hfound
    cases h
    exact hr hfound
  · cases h
    exact ⟨[], rfl, rfl⟩

end

theorem takes_word (w : String) : Takes (word w) fun _ => {w.toList} := by
  intro cs u rest h
  exact ⟨w.toList, rfl, word_eq_ok_iff.mp h⟩

theorem takes_while0 (p : Char → Bool) :
    Takes (while0 p) fun ds => {w | w = ds ∧ ∀ c ∈ ds, p c = true} := by
  intro cs ds rest h
  obtain ⟨heq, hds, _⟩ := while0_eq_ok_iff.mp h
  exact ⟨ds, ⟨rfl, hds⟩, heq⟩

theorem takes_while1 (p : Char → Bool) :
    Takes (while1 p) fun ds => {w | w = ds ∧ ds ≠ [] ∧ ∀ c ∈ ds, p c = true} := by
  intro cs ds rest h
  obtain ⟨hne, heq, hds, _⟩ := while1_eq_ok_iff.mp h
  exact ⟨ds, ⟨rfl, hne, hds⟩, heq⟩

end Reader

end RigidSketch
