import Mathlib

/-! Writes to keyed cells, one after the other: a cell ends with what was last written to it, so
that only the order of the writes to one cell matters. -/
namespace AebNode.KeyedWrites

variable {κ : Type*} [DecidableEq κ] {β : κ → Type*}

abbrev Write (β : κ → Type*) := Σ k, β k

def write (f : ∀ k, β k) (w : Write β) : ∀ k, β k := Function.update f w.1 w.2

def writeAll (f : ∀ k, β k) (ws : List (Write β)) : ∀ k, β k := ws.foldl write f

/-- What a write leaves in a cell, if it goes there. -/
def writtenTo (k : κ) (w : Write β) : Option (β k) :=
  if h : w.1 = k then some (h ▸ w.2) else none

@[simp] theorem writtenTo_self (k : κ) (v : β k) : writtenTo k (⟨k, v⟩ : Write β) = some v := by
  simp [writtenTo]

theorem writtenTo_of_ne {k : κ} {w : Write β} (h : w.1 ≠ k) : writtenTo k w = none :=
  dif_neg h

theorem write_apply (f : ∀ k, β k) (w : Write β) (k : κ) :
    write f w k = (writtenTo k w).getD (f k) := by
  rcases w with ⟨j, v⟩
  by_cases h : j = k
  · subst h
    simp [write]
  · rw [writtenTo_of_ne h]
    exact Function.update_of_ne (Ne.symm h) v f

theorem writeAll_apply (f : ∀ k, β k) (ws : List (Write β)) (k : κ) :
    writeAll f ws k = (ws.filterMap (writtenTo k)).getLast?.getD (f k) := by
  induction ws generalizing f with
  | nil => rfl
  | cons w ws ih =>
    have hrest := ih (write f w)
    rw [write_apply] at hrest
    change writeAll (write f w) ws k = _
    rw [hrest]
    cases hw : writtenTo k w with
    | none => simp [hw]
    | some v => simp [hw, List.getLast?_cons]

/-- Writes that come in the same order for each cell have the same effect. -/
theorem writeAll_congr (f : ∀ k, β k) {ws ws' : List (Write β)}
    (h : ∀ k, ws.filterMap (writtenTo k) = ws'.filterMap (writtenTo k)) :
    writeAll f ws = writeAll f ws' := by
  funext k
  rw [writeAll_apply, writeAll_apply, h k]

end AebNode.KeyedWrites
