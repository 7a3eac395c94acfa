import Mathlib

/-! A bounded first-in-first-out list that makes room by dropping its oldest elements.
Nothing here refers to the queue that implements it. -/
namespace AebNode.BoundedFifo

variable {α β : Type*}

/-- Extend at the back after dropping just enough from the front to stay within `capacity`;
the second component is the number dropped. -/
def push (capacity : ℕ) (xs : List α) (x : α) : List α × ℕ :=
  (xs.drop (xs.length + 1 - capacity) ++ [x], xs.length + 1 - capacity)

@[simp] theorem push_snd (capacity : ℕ) (xs : List α) (x : α) :
    (push capacity xs x).2 = xs.length + 1 - capacity := rfl

theorem push_length_le {capacity : ℕ} (hcap : 0 < capacity) (xs : List α) (x : α) :
    (push capacity xs x).1.length ≤ capacity := by
  simp only [push, List.length_append, List.length_drop, List.length_singleton]
  omega

theorem push_dropped_le_one {capacity : ℕ} {xs : List α} (h : xs.length ≤ capacity) (x : α) :
    (push capacity xs x).2 ≤ 1 := by
  rw [push_snd]
  omega

theorem push_conserves {capacity : ℕ} (hcap : 0 < capacity) (xs : List α) (x : α) :
    (push capacity xs x).1.length + (push capacity xs x).2 = xs.length + 1 := by
  simp only [push, List.length_append, List.length_drop, List.length_singleton]
  omega

/-- Renaming the elements commutes with a push, so a list of tags can follow the contents. -/
theorem push_map (capacity : ℕ) (f : α → β) (xs : List α) (x : α) :
    push capacity (xs.map f) (f x) =
      ((push capacity xs x).1.map f, (push capacity xs x).2) := by
  simp [push, List.map_drop]

theorem push_sublist (capacity : ℕ) (xs : List α) (x : α) :
    (push capacity xs x).1.Sublist (xs ++ [x]) :=
  (List.drop_sublist _ _).append_right [x]

end AebNode.BoundedFifo
