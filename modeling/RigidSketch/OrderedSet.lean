/-! Finite sets that remember the order in which their members came in. Inserting a member
again keeps its place, and erasing one moves the later ones up. -/

namespace RigidSketch

structure OrderedSet (α : Type) where
  toList : List α
  nodup : toList.Nodup
deriving DecidableEq

namespace OrderedSet

variable {α : Type}

theorem ext {s t : OrderedSet α} (h : s.toList = t.toList) : s = t := by
  cases s
  cases t
  simp_all

def empty : OrderedSet α := ⟨[], .nil⟩

instance : EmptyCollection (OrderedSet α) := ⟨empty⟩

instance : Inhabited (OrderedSet α) := ⟨empty⟩

instance : Membership α (OrderedSet α) := ⟨fun s a => a ∈ s.toList⟩

def size (s : OrderedSet α) : Nat := s.toList.length

theorem mem_def {s : OrderedSet α} {a : α} : a ∈ s ↔ a ∈ s.toList := Iff.rfl

@[simp] theorem not_mem_empty (a : α) : a ∉ (∅ : OrderedSet α) := List.not_mem_nil

def filter (s : OrderedSet α) (p : α → Bool) : OrderedSet α :=
  ⟨s.toList.filter p, s.nodup.sublist List.filter_sublist⟩

@[simp] theorem mem_filter {s : OrderedSet α} {p : α → Bool} {b : α} :
    b ∈ s.filter p ↔ b ∈ s ∧ p b := by
  rw [mem_def, filter, List.mem_filter]
  rfl

variable [DecidableEq α]

instance (a : α) (s : OrderedSet α) : Decidable (a ∈ s) :=
  inferInstanceAs (Decidable (a ∈ s.toList))

def insert (s : OrderedSet α) (a : α) : OrderedSet α :=
  if h : a ∈ s then s
  else
    ⟨s.toList ++ [a], List.nodup_append.mpr ⟨s.nodup, by simp, by
      intro x hx y hy
      rw [List.mem_singleton.mp hy]
      exact fun he => h (he ▸ hx)⟩⟩

def insertAll (s : OrderedSet α) (xs : List α) : OrderedSet α := xs.foldl insert s

def ofList (xs : List α) : OrderedSet α := empty.insertAll xs

def erase (s : OrderedSet α) (a : α) : OrderedSet α := s.filter (· ≠ a)

def eraseAll (s : OrderedSet α) (xs : List α) : OrderedSet α := s.filter (· ∉ xs)

theorem toList_insert (s : OrderedSet α) (a : α) :
    (s.insert a).toList = if a ∈ s then s.toList else s.toList ++ [a] := by
  unfold insert
  split <;> simp_all

@[simp] theorem mem_insert {s : OrderedSet α} {a b : α} : b ∈ s.insert a ↔ b ∈ s ∨ b = a := by
  rw [mem_def, toList_insert]
  split
  · rename_i h
    constructor
    · exact Or.inl
    · rintro (hb | rfl)
      · exact hb
      · exact h
  · rw [List.mem_append, List.mem_singleton]
    rfl

@[simp] theorem mem_insertAll {s : OrderedSet α} {xs : List α} {b : α} :
    b ∈ s.insertAll xs ↔ b ∈ s ∨ b ∈ xs := by
  induction xs generalizing s with
  | nil => simp [insertAll]
  | cons a rest ih =>
    have h : s.insertAll (a :: rest) = (s.insert a).insertAll rest := rfl
    rw [h, ih, mem_insert, List.mem_cons, or_assoc]

@[simp] theorem mem_ofList {xs : List α} {b : α} : b ∈ ofList xs ↔ b ∈ xs := by
  unfold ofList
  rw [mem_insertAll]
  exact ⟨fun h => h.resolve_left List.not_mem_nil, Or.inr⟩

@[simp] theorem mem_erase {s : OrderedSet α} {a b : α} : b ∈ s.erase a ↔ b ∈ s ∧ b ≠ a := by
  simp [erase]

@[simp] theorem mem_eraseAll {s : OrderedSet α} {xs : List α} {b : α} :
    b ∈ s.eraseAll xs ↔ b ∈ s ∧ b ∉ xs := by
  simp [eraseAll]

end OrderedSet

end RigidSketch
