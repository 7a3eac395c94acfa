import Mathlib

/-! Ownership over a log. Resources are obtained one by one, held by somebody, and released; the
log balances if each of them is held once or was released once, and never both. -/
namespace AebNode.Ledger

inductive Entry (κ : Type*)
  | obtained (k : κ)
  | released (k : κ)
  deriving DecidableEq, Repr

section Balance
variable {κ : Type*} [DecidableEq κ] {log : List (Entry κ)} {held : List κ} {k : κ}

/-- What was obtained is what was released together with what is held. -/
structure Balanced (log : List (Entry κ)) (held : List κ) : Prop where
  once : ∀ k, log.count (.obtained k) ≤ 1
  balance : ∀ k, log.count (.obtained k) = log.count (.released k) + held.count k

theorem Balanced.nil : Balanced ([] : List (Entry κ)) [] := ⟨by simp, by simp⟩

theorem Balanced.perm (h : Balanced log held) {held' : List κ} (hperm : held'.Perm held) :
    Balanced log held' where
  once := h.once
  balance k := by rw [h.balance k, hperm.count_eq]

theorem Balanced.obtain (h : Balanced log held) (hfresh : .obtained k ∉ log) :
    Balanced (log ++ [.obtained k]) (k :: held) where
  once j := by
    have hj := h.once j
    by_cases hjk : j = k
    · subst hjk
      simp [List.count_append, List.count_eq_zero.mpr hfresh]
    · simp [List.count_append, Ne.symm hjk, hj]
  balance j := by
    have hj := h.balance j
    by_cases hjk : k = j
    · subst hjk
      simp [List.count_append, hj]
      omega
    · simp [List.count_append, hjk, hj]

theorem Balanced.release (h : Balanced log (k :: held)) : Balanced (log ++ [.released k]) held where
  once j := by
    have hj := h.once j
    simpa [List.count_append] using hj
  balance j := by
    have hj := h.balance j
    by_cases hjk : k = j
    · subst hjk
      simp [List.count_append] at hj ⊢
      omega
    · simpa [List.count_append, hjk] using hj

theorem Balanced.obtained_of_held (h : Balanced log held) (hk : k ∈ held) : .obtained k ∈ log := by
  have hcount := h.balance k
  have hpos := List.count_pos_iff.mpr hk
  exact List.count_pos_iff.mp (by omega)

theorem Balanced.obtained_of_released (h : Balanced log held) (hk : .released k ∈ log) :
    .obtained k ∈ log := by
  have hcount := h.balance k
  have hpos := List.count_pos_iff.mpr hk
  exact List.count_pos_iff.mp (by omega)

/-- Whatever was obtained was released exactly once, unless it is held: then it was not. -/
theorem Balanced.released_count (h : Balanced log held) (hk : .obtained k ∈ log) :
    log.count (.released k) = if k ∈ held then 0 else 1 := by
  have hcount := h.balance k
  have honce := h.once k
  have hobtained := List.count_pos_iff.mpr hk
  split_ifs with hheld
  · have hpos := List.count_pos_iff.mpr hheld
    omega
  · rw [List.count_eq_zero.mpr hheld] at hcount
    omega

theorem Balanced.not_released (h : Balanced log held) (hk : k ∈ held) : .released k ∉ log := by
  have hcount := h.released_count (h.obtained_of_held hk)
  rw [if_pos hk] at hcount
  exact List.count_eq_zero.mp hcount

end Balance

/-! Sole owners: variables that hold at most one resource each, and release what they hold
before they take another. -/

/-- The log, in which a resource is named by its place, and what the variables hold. -/
structure Holdings (σ : Type*) where
  log : List (Entry ℕ) := []
  owned : σ → Option ℕ := fun _ => none

namespace Holdings
variable {σ : Type*}

/-- A new resource, not in a variable yet. -/
def obtain (c : Holdings σ) : Holdings σ := { c with log := c.log ++ [.obtained c.log.length] }

def release (c : Holdings σ) (k : ℕ) : Holdings σ := { c with log := c.log ++ [.released k] }

@[simp] theorem obtain_owned (c : Holdings σ) : c.obtain.owned = c.owned := rfl

@[simp] theorem release_owned (c : Holdings σ) (k : ℕ) : (c.release k).owned = c.owned := rfl

variable [DecidableEq σ]

/-- A variable gives up what it holds without releasing it. -/
def relinquish (c : Holdings σ) (x : σ) : Holdings σ :=
  { c with owned := Function.update c.owned x none }

def reset (c : Holdings σ) (x : σ) : Holdings σ :=
  match c.owned x with
  | some k => (c.relinquish x).release k
  | none => c

/-- A variable takes over what somebody else gives up. -/
def assign (c : Holdings σ) (x : σ) (given : Option ℕ) : Holdings σ :=
  { c.reset x with owned := Function.update (c.reset x).owned x given }

@[simp] theorem relinquish_owned (c : Holdings σ) (x : σ) :
    (c.relinquish x).owned = Function.update c.owned x none := rfl

@[simp] theorem reset_owned (c : Holdings σ) (x : σ) :
    (c.reset x).owned = Function.update c.owned x none := by
  unfold reset
  split
  next => rfl
  next h => rw [← h, Function.update_eq_self]

@[simp] theorem assign_owned (c : Holdings σ) (x : σ) (given : Option ℕ) :
    (c.assign x given).owned = Function.update c.owned x given := by
  simp [assign]

variable [Fintype σ]

noncomputable def held (c : Holdings σ) : List ℕ := Finset.univ.toList.filterMap c.owned

noncomputable def heldBeside (c : Holdings σ) (x : σ) : List ℕ :=
  (Finset.univ.toList.erase x).filterMap c.owned

omit [DecidableEq σ] in
theorem mem_held {c : Holdings σ} {k : ℕ} : k ∈ c.held ↔ ∃ x, c.owned x = some k := by
  simp [held]

theorem held_update (c : Holdings σ) (log : List (Entry ℕ)) (x : σ) (given : Option ℕ) :
    (held ⟨log, Function.update c.owned x given⟩).Perm (given.toList ++ c.heldBeside x) := by
  have hmem : x ∈ (Finset.univ : Finset σ).toList := by simp
  have hbeside : (Finset.univ.toList.erase x).filterMap (Function.update c.owned x given) =
      c.heldBeside x := by
    apply List.filterMap_congr
    intro y hy
    rw [(Finset.nodup_toList _).mem_erase_iff] at hy
    exact Function.update_of_ne hy.1 _ _
  have hperm := (List.perm_cons_erase hmem).filterMap (Function.update c.owned x given)
  rw [List.filterMap_cons, hbeside, Function.update_self] at hperm
  cases given with
  | none => exact hperm
  | some k => exact hperm

theorem held_perm (c : Holdings σ) (x : σ) :
    c.held.Perm ((c.owned x).toList ++ c.heldBeside x) := by
  have hupdate := held_update c c.log x (c.owned x)
  rwa [Function.update_eq_self] at hupdate

/-- The log balances with what is still loose and what the variables hold. -/
structure Sound (c : Holdings σ) (loose : List ℕ) : Prop where
  balanced : Balanced c.log (loose ++ c.held)
  numbered : ∀ k, .obtained k ∈ c.log → k < c.log.length

variable {c : Holdings σ} {loose : List ℕ}

omit [DecidableEq σ] in
theorem Sound.new : Sound ({} : Holdings σ) [] where
  balanced := by
    have hnone : held ({} : Holdings σ) = [] := by simp [held]
    rw [hnone]
    exact .nil
  numbered _ h := by simp at h

omit [DecidableEq σ] in
theorem Sound.obtain (h : Sound c loose) : Sound c.obtain (c.log.length :: loose) where
  balanced := h.balanced.obtain fun hmem => lt_irrefl _ (h.numbered _ hmem)
  numbered k hk := by
    simp only [Holdings.obtain, List.mem_append, List.mem_singleton, Entry.obtained.injEq,
      List.length_append, List.length_singleton] at hk ⊢
    rcases hk with hold | rfl
    · exact Nat.lt_succ_of_lt (h.numbered k hold)
    · exact Nat.lt_succ_self _

omit [DecidableEq σ] in
theorem Sound.release {k : ℕ} (h : Sound c (k :: loose)) : Sound (c.release k) loose where
  balanced := h.balanced.release
  numbered j hj := by
    have hold : .obtained j ∈ c.log := by simpa [Holdings.release] using hj
    simpa [Holdings.release] using Nat.lt_succ_of_lt (h.numbered j hold)

theorem Sound.update (h : Sound c loose) (x : σ) {given : Option ℕ} {loose' : List ℕ}
    (hperm : (loose' ++ given.toList).Perm (loose ++ (c.owned x).toList)) :
    Sound { c with owned := Function.update c.owned x given } loose' where
  balanced := by
    apply h.balanced.perm
    have hafter := (held_update c c.log x given).append_left loose'
    have hbefore := (held_perm c x).append_left loose
    rw [← List.append_assoc] at hafter hbefore
    exact hafter.trans ((hperm.append_right _).trans hbefore.symm)
  numbered := h.numbered

theorem Sound.relinquish (h : Sound c loose) (x : σ) :
    Sound (c.relinquish x) ((c.owned x).toList ++ loose) := by
  apply h.update x
  rw [Option.toList_none, List.append_nil]
  exact List.perm_append_comm

theorem Sound.reset (h : Sound c loose) (x : σ) : Sound (c.reset x) loose := by
  have hgiven := h.relinquish x
  unfold Holdings.reset
  split
  next k hk =>
    rw [hk] at hgiven
    exact hgiven.release
  next => exact h

theorem Sound.assign {given : Option ℕ} (h : Sound c (given.toList ++ loose)) (x : σ) :
    Sound (c.assign x given) loose := by
  apply (h.reset x).update x
  rw [reset_owned, Function.update_self, Option.toList_none, List.append_nil]
  exact List.perm_append_comm

omit [DecidableEq σ] in
/-- With nothing loose, a resource that no variable holds was released exactly once. -/
theorem Sound.released_count (h : Sound c []) {k : ℕ} (hk : .obtained k ∈ c.log) :
    c.log.count (.released k) = if ∃ x, c.owned x = some k then 0 else 1 := by
  rw [h.balanced.released_count hk]
  simp [mem_held]

end Holdings

end AebNode.Ledger
