/-! All pairs of two members of a list, the earlier member first. -/

namespace RigidSketch

def pairs {α : Type} : List α → List (α × α)
  | [] => []
  | a :: rest => rest.map (a, ·) ++ pairs rest

theorem mem_of_mem_pairs {α : Type} {p : α × α} {xs : List α} (h : p ∈ pairs xs) :
    p.1 ∈ xs ∧ p.2 ∈ xs := by
  induction xs with
  | nil => simp [pairs] at h
  | cons a rest ih =>
    rcases List.mem_append.mp h with h | h
    · obtain ⟨b, hb, rfl⟩ := List.mem_map.mp h
      simp [hb]
    · simp [ih h]

end RigidSketch
