import Mathlib.Data.List.Nodup
import RigidSketch.Constraint

/-! Looking things up in the tables of a sketch. The entries of a table are numbered in the
order in which they came in, so a number leads to at most one of them. -/

namespace RigidSketch

/-- Numbers that were given out in order, all of them below the next one. -/
structure Numbered (numbers : List Nat) (next : Nat) : Prop where
  increasing : numbers.Pairwise (· < ·)
  below : ∀ n ∈ numbers, n < next

theorem Numbered.nodup {numbers : List Nat} {next : Nat} (h : Numbered numbers next) :
    numbers.Nodup :=
  h.increasing.imp Nat.ne_of_lt

theorem Numbered.sublist {xs ys : List Nat} {next : Nat} (h : Numbered ys next)
    (hs : xs.Sublist ys) : Numbered xs next :=
  ⟨h.increasing.sublist hs, fun n hn => h.below n (hs.subset hn)⟩

theorem Numbered.append_next {numbers : List Nat} {next : Nat} (h : Numbered numbers next) :
    Numbered (numbers ++ [next]) (next + 1) := by
  refine ⟨List.pairwise_append.mpr ⟨h.increasing, List.pairwise_singleton _ _, ?_⟩, ?_⟩
  · intro a ha b hb
    rw [List.mem_singleton.mp hb]
    exact h.below a ha
  · intro n hn
    rcases List.mem_append.mp hn with hn | hn
    · have := h.below n hn
      omega
    · rw [List.mem_singleton.mp hn]
      omega

section Lookup

variable {α β : Type} [DecidableEq α]

theorem lookup_filter_ne (k k' : α) (l : List (α × β)) :
    (l.filter (·.1 ≠ k)).lookup k' = if k' = k then none else l.lookup k' := by
  induction l with
  | nil => simp
  | cons p l ih =>
    obtain ⟨a, b⟩ := p
    by_cases ha : a = k
    · rw [List.filter_cons_of_neg (by simp [ha]), ih]
      by_cases hk : k' = k
      · simp [hk]
      · have hne : (k' == a) = false := by simpa [ha] using hk
        simp [hk, List.lookup_cons, hne]
    · rw [List.filter_cons_of_pos (by simp [ha]), List.lookup_cons, List.lookup_cons, ih]
      by_cases hk : k' = k
      · have hne : (k == a) = false := by simpa using fun h => ha h.symm
        simp [hk, hne]
      · simp [hk]

theorem lookup_put (k k' : α) (v : β) (l : List (α × β)) :
    (l.filter (·.1 ≠ k) ++ [(k, v)]).lookup k' = if k' = k then some v else l.lookup k' := by
  rw [List.lookup_append, lookup_filter_ne]
  by_cases hk : k' = k
  · simp [hk]
  · have hne : (k' == k) = false := by simpa using hk
    simp [hk, List.lookup_cons, hne]

theorem find?_key_eq_some_iff {key : β → α} {l : List β} (h : (l.map key).Nodup) {k : α}
    {b : β} : l.find? (key · = k) = some b ↔ b ∈ l ∧ key b = k := by
  constructor
  · intro hb
    exact ⟨List.mem_of_find?_eq_some hb, by simpa using List.find?_some hb⟩
  · rintro ⟨hb, rfl⟩
    induction l with
    | nil => simp at hb
    | cons a l ih =>
      rw [List.map_cons, List.nodup_cons] at h
      rcases List.mem_cons.mp hb with rfl | hb
      · simp
      · have hne : key a ≠ key b := fun he => h.1 (he ▸ List.mem_map_of_mem hb)
        simpa [List.find?_cons, hne] using ih h.2 hb

theorem eraseP_key_eq_filter {key : β → α} {l : List β} (h : (l.map key).Nodup) (k : α) :
    l.eraseP (key · = k) = l.filter (key · ≠ k) := by
  induction l with
  | nil => rfl
  | cons a l ih =>
    rw [List.map_cons, List.nodup_cons] at h
    by_cases ha : key a = k
    · have hrest : l.filter (key · ≠ k) = l := by
        refine List.filter_eq_self.mpr fun b hb => ?_
        have hne : key b ≠ k := fun he => h.1 (ha ▸ he ▸ List.mem_map_of_mem hb)
        simpa using hne
      rw [List.eraseP_cons_of_pos (by simpa using ha), List.filter_cons_of_neg (by simpa using ha),
        hrest]
    · rw [List.eraseP_cons_of_neg (by simpa using ha), List.filter_cons_of_pos (by simpa using ha),
        ih h.2]

end Lookup

theorem nodup_of_numbered {β : Type} {l : List β} {number : β → Nat} {next : Nat}
    (h : Numbered (l.map number) next) {α : Type} {key : β → α}
    (hk : ∀ a b, key a = key b → number a = number b) : (l.map key).Nodup := by
  have hp := List.pairwise_map.mp h.nodup
  exact List.pairwise_map.mpr (hp.imp fun hne he => hne (hk _ _ he))

namespace ElementTable

def numbers (t : ElementTable) : List Nat := t.elements.map (·.id.number)

theorem nodup_ids {t : ElementTable} (h : Numbered t.numbers t.next) :
    (t.elements.map (·.id)).Nodup :=
  nodup_of_numbered h fun _ _ he => congrArg ElementId.number he

theorem get?_eq_some_iff {t : ElementTable} (h : Numbered t.numbers t.next) {id : ElementId}
    {e : Element} : t.get? id = some e ↔ e ∈ t.elements ∧ e.id = id :=
  find?_key_eq_some_iff (nodup_ids h)

theorem mem_of_get? {t : ElementTable} {id : ElementId} {e : Element} (h : t.get? id = some e) :
    e ∈ t.elements ∧ e.id = id :=
  ⟨List.mem_of_find?_eq_some h, by simpa using List.find?_some h⟩

theorem get?_isSome_iff {t : ElementTable} {id : ElementId} :
    (t.get? id).isSome ↔ ∃ e ∈ t.elements, e.id = id := by
  simp [get?]

theorem get?_map {t : ElementTable} {f : Element → Element} (hf : ∀ e, (f e).id = e.id)
    (id : ElementId) : (t.map f).get? id = (t.get? id).map f := by
  have hp : ((fun e : Element => decide (e.id = id)) ∘ f) = fun e => decide (e.id = id) := by
    funext e
    simp [hf]
  simp only [get?, map, List.find?_map, hp]

theorem get?_mapWhere {t : ElementTable} {p : ElementId → Bool} {f : Element → Element}
    (hf : ∀ e, (f e).id = e.id) (id : ElementId) :
    (t.mapWhere p f).get? id = (t.get? id).map fun e => if p id then f e else e := by
  have hm : t.mapWhere p f = t.map fun e => if p e.id then f e else e := rfl
  rw [hm, get?_map (by intro e; split <;> simp [hf])]
  cases he : t.get? id with
  | none => rfl
  | some e => simp [(mem_of_get? he).2]

theorem numbers_map {t : ElementTable} {f : Element → Element} (hf : ∀ e, (f e).id = e.id) :
    (t.map f).numbers = t.numbers := by
  simp [numbers, map, Function.comp_def, hf]

end ElementTable

namespace ConstraintTable

def numbers (t : ConstraintTable) : List Nat := t.constraints.map (·.id.number)

theorem nodup_ids {t : ConstraintTable} (h : Numbered t.numbers t.next) :
    (t.constraints.map (·.id)).Nodup :=
  nodup_of_numbered h fun _ _ he => congrArg ConstraintId.number he

theorem get?_eq_some_iff {t : ConstraintTable} (h : Numbered t.numbers t.next)
    {id : ConstraintId} {c : Constraint} : t.get? id = some c ↔ c ∈ t.constraints ∧ c.id = id :=
  find?_key_eq_some_iff (nodup_ids h)

theorem mem_of_get? {t : ConstraintTable} {id : ConstraintId} {c : Constraint}
    (h : t.get? id = some c) : c ∈ t.constraints ∧ c.id = id :=
  ⟨List.mem_of_find?_eq_some h, by simpa using List.find?_some h⟩

theorem mem_ids {t : ConstraintTable} {id : ConstraintId} :
    id ∈ t.ids ↔ ∃ c ∈ t.constraints, c.id = id := by
  simp [ids]

theorem get?_isSome_iff {t : ConstraintTable} {id : ConstraintId} :
    (t.get? id).isSome ↔ id ∈ t.ids := by
  simp [get?, mem_ids]

theorem get?_map {t : ConstraintTable} {f : Constraint → Constraint}
    (hf : ∀ c, (f c).id = c.id) (id : ConstraintId) : (t.map f).get? id = (t.get? id).map f := by
  have hp : ((fun c : Constraint => decide (c.id = id)) ∘ f) = fun c => decide (c.id = id) := by
    funext c
    simp [hf]
  simp only [get?, map, List.find?_map, hp]

theorem numbers_map {t : ConstraintTable} {f : Constraint → Constraint}
    (hf : ∀ c, (f c).id = c.id) : (t.map f).numbers = t.numbers := by
  simp [numbers, map, Function.comp_def, hf]

end ConstraintTable

end RigidSketch
