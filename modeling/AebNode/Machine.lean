import Mathlib

/-! Runs of state machines. A total machine answers every input with an output; a partial
machine takes a labelled step or refuses it. Both come with the rules that lift a fact about
one step to a fact about a whole run. -/
namespace AebNode.Machine

section Total
variable {σ τ ι ο : Type*}

/-- Feed a list of inputs, collecting the outputs in order. -/
def run (step : σ → ι → σ × ο) : σ → List ι → σ × List ο
  | s, [] => (s, [])
  | s, i :: is =>
    let r := step s i
    let tail := run step r.1 is
    (tail.1, r.2 :: tail.2)

/-- Refinement through an abstraction function, under an invariant of the concrete machine:
the outputs agree and so do the final states. -/
theorem run_refines {step : σ → ι → σ × ο} {spec : τ → ι → τ × ο} (abstraction : σ → τ)
    (inv : σ → Prop) (hkeep : ∀ s i, inv s → inv (step s i).1)
    (hstep : ∀ s i, inv s → spec (abstraction s) i = (abstraction (step s i).1, (step s i).2))
    {s : σ} (hs : inv s) (is : List ι) :
    inv (run step s is).1 ∧
      run spec (abstraction s) is = (abstraction (run step s is).1, (run step s is).2) := by
  induction is generalizing s with
  | nil => exact ⟨hs, rfl⟩
  | cons i is ih =>
    obtain ⟨hi, he⟩ := ih (hkeep s i hs)
    refine ⟨hi, ?_⟩
    simp only [run, hstep s i hs, he]

end Total

section Partial
variable {σ α : Type*}

/-- Take the labelled steps one after the other; a refused step ends the run. -/
def exec (step : σ → α → Option σ) : σ → List α → Option σ
  | s, [] => some s
  | s, a :: as => (step s a).bind fun t => exec step t as

theorem exec_cons {step : σ → α → Option σ} {s t : σ} {a : α} {as : List α} :
    exec step s (a :: as) = some t ↔ ∃ u, step s a = some u ∧ exec step u as = some t :=
  Option.bind_eq_some_iff

theorem exec_append {step : σ → α → Option σ} {s t : σ} {as bs : List α} :
    exec step s (as ++ bs) = some t ↔ ∃ u, exec step s as = some u ∧ exec step u bs = some t := by
  induction as generalizing s with
  | nil => simp [exec]
  | cons a as ih =>
    simp only [List.cons_append, exec_cons, ih]
    constructor
    · rintro ⟨v, hv, u, hu, ht⟩
      exact ⟨u, ⟨v, hv, hu⟩, ht⟩
    · rintro ⟨u, ⟨v, hv, hu⟩, ht⟩
      exact ⟨v, hv, u, hu, ht⟩

theorem exec_concat {step : σ → α → Option σ} {s t u : σ} {a : α} {as : List α}
    (hs : exec step s as = some t) (ht : step t a = some u) :
    exec step s (as ++ [a]) = some u :=
  exec_append.mpr ⟨t, hs, by simp [exec, ht]⟩

theorem exec_invariant {step : σ → α → Option σ} {inv : σ → Prop}
    (hkeep : ∀ s a t, inv s → step s a = some t → inv t) {s t : σ} {as : List α}
    (hs : inv s) (h : exec step s as = some t) : inv t := by
  induction as generalizing s with
  | nil =>
    obtain rfl := Option.some.inj h
    exact hs
  | cons a as ih =>
    obtain ⟨u, hu, ht⟩ := exec_cons.mp h
    exact ih (hkeep s a u hs hu) ht

theorem exec_induction {step : σ → α → Option σ} {s : σ} {P : List α → σ → Prop} (hnil : P [] s)
    (hstep : ∀ as a t u, exec step s as = some t → P as t → step t a = some u →
      P (as ++ [a]) u) {as : List α} {t : σ} (h : exec step s as = some t) : P as t := by
  induction as using List.reverseRecOn generalizing t with
  | nil =>
    obtain rfl := Option.some.inj h
    exact hnil
  | append_singleton as a ih =>
    obtain ⟨u, hu, ht⟩ := exec_append.mp h
    obtain ⟨v, hv, hlast⟩ := exec_cons.mp ht
    obtain rfl := Option.some.inj hlast
    exact hstep as a u v hu (ih hu) hv

/-- Each state passed is safe exactly if no step of the run is an unsafe one. -/
theorem exec_prefix_iff {step : σ → α → Option σ} {s : σ} {safe : σ → Prop}
    {breaks : List α → α → Prop} (hs : safe s)
    (hstep : ∀ as a t u, exec step s as = some t → safe t → step t a = some u →
      (safe u ↔ ¬ breaks as a)) {as : List α} {t : σ} (h : exec step s as = some t) :
    (∀ bs a cs, as = bs ++ a :: cs → ¬ breaks bs a) ↔
      ∀ bs u, bs <+: as → exec step s bs = some u → safe u := by
  constructor
  · intro hnone bs u hprefix hbs
    have hsafe : bs <+: as → safe u := by
      refine @exec_induction _ _ step s (fun bs u => bs <+: as → safe u) (fun _ => hs) ?_ _ _ hbs
      rintro ds a v w hds ih hw ⟨cs, hcs⟩
      have hsplit : as = ds ++ a :: cs := by simpa using hcs.symm
      exact (hstep ds a v w hds (ih ⟨a :: cs, hsplit.symm⟩) hw).mpr (hnone ds a cs hsplit)
    exact hsafe hprefix
  · rintro hsafe bs a cs rfl
    obtain ⟨u, hu, hrest⟩ := exec_append.mp h
    obtain ⟨v, hv, -⟩ := exec_cons.mp hrest
    refine (hstep bs a u v hu (hsafe bs u ⟨a :: cs, rfl⟩ hu) hv).mp ?_
    exact hsafe (bs ++ [a]) v ⟨cs, by simp⟩ (exec_append.mpr ⟨u, hu, by simp [exec, hv]⟩)

/-- Every step of the run meets a condition on the state it starts from. -/
def Along (ok : σ → α → Prop) (step : σ → α → Option σ) : σ → List α → Prop
  | _, [] => True
  | s, a :: as => ok s a ∧ ∀ t ∈ step s a, Along ok step t as

instance decidableAlong {ok : σ → α → Prop} [∀ s a, Decidable (ok s a)]
    {step : σ → α → Option σ} : ∀ (s : σ) (as : List α), Decidable (Along ok step s as)
  | _, [] => isTrue trivial
  | s, a :: as =>
    have : ∀ t, Decidable (Along ok step t as) := fun t => decidableAlong t as
    inferInstanceAs (Decidable (ok s a ∧ ∀ t ∈ step s a, Along ok step t as))

theorem along_of_forall {p : α → Prop} {step : σ → α → Option σ} {s : σ} {as : List α}
    (h : ∀ a ∈ as, p a) : Along (fun _ a => p a) step s as := by
  induction as generalizing s with
  | nil => trivial
  | cons a as ih =>
    obtain ⟨ha, has⟩ := List.forall_mem_cons.mp h
    exact ⟨ha, fun _ _ => ih has⟩

/-- A property kept by the steps that meet a condition holds at the end of every run whose
steps all meet it. -/
theorem exec_invariant_along {ok : σ → α → Prop} {step : σ → α → Option σ} {inv : σ → Prop}
    (hkeep : ∀ s a t, inv s → ok s a → step s a = some t → inv t) {s t : σ} {as : List α}
    (hs : inv s) (hok : Along ok step s as) (h : exec step s as = some t) : inv t := by
  induction as generalizing s with
  | nil =>
    obtain rfl := Option.some.inj h
    exact hs
  | cons a as ih =>
    obtain ⟨u, hu, ht⟩ := exec_cons.mp h
    exact ih (hkeep s a u hs hok.1 hu) (hok.2 u hu) ht

/-- The part of a run that concerns one component is a run of that component. -/
theorem exec_project {τ β : Type*} {step : σ → α → Option σ} {part : τ → β → Option τ}
    (view : σ → τ) (concerns : α → Option β)
    (hstep : ∀ s a t, step s a = some t →
      (concerns a).elim (view t = view s) fun b => part (view s) b = some (view t))
    {s t : σ} {as : List α} (h : exec step s as = some t) :
    exec part (view s) (as.filterMap concerns) = some (view t) := by
  induction as generalizing s with
  | nil =>
    obtain rfl := Option.some.inj h
    rfl
  | cons a as ih =>
    obtain ⟨u, hu, ht⟩ := exec_cons.mp h
    have hpart := hstep s a u hu
    cases hb : concerns a with
    | none =>
      rw [hb, Option.elim_none] at hpart
      rw [List.filterMap_cons_none hb, ← hpart]
      exact ih ht
    | some b =>
      rw [hb, Option.elim_some] at hpart
      rw [List.filterMap_cons_some hb]
      exact exec_cons.mpr ⟨view u, hpart, ih ht⟩

/-- Each step that meets a condition pays its cost from what is saved up and what it brings in. -/
theorem exec_potential {ok : σ → α → Prop} {step : σ → α → Option σ} {inv : σ → Prop}
    {savings : σ → ℕ} {cost income : α → ℕ}
    (hstep : ∀ s a t, inv s → ok s a → step s a = some t →
      inv t ∧ savings t + cost a ≤ savings s + income a)
    {s t : σ} {as : List α} (hs : inv s) (hok : Along ok step s as)
    (h : exec step s as = some t) :
    savings t + (as.map cost).sum ≤ savings s + (as.map income).sum := by
  induction as generalizing s with
  | nil =>
    obtain rfl := Option.some.inj h
    rfl
  | cons a as ih =>
    obtain ⟨u, hu, ht⟩ := exec_cons.mp h
    obtain ⟨hnext, hpaid⟩ := hstep s a u hs hok.1 hu
    have hrest := ih hnext (hok.2 u hu) ht
    simp only [List.map_cons, List.sum_cons]
    omega

theorem sum_map_toNat (p : α → Bool) (as : List α) :
    (as.map fun a => (p a).toNat).sum = as.countP p := by
  induction as with
  | nil => rfl
  | cons a as ih =>
    rw [List.map_cons, List.sum_cons, ih, List.countP_cons]
    cases p a <;> simp [Nat.add_comm]

theorem exec_countP_le {ok : σ → α → Prop} {step : σ → α → Option σ} {inv : σ → Prop}
    {bound : σ → ℕ} {p : α → Bool}
    (hstep : ∀ s a t, inv s → ok s a → step s a = some t →
      inv t ∧ bound t + (p a).toNat ≤ bound s)
    {s t : σ} {as : List α} (hs : inv s) (hok : Along ok step s as)
    (h : exec step s as = some t) : bound t + as.countP p ≤ bound s := by
  have hpaid : bound t + (as.map fun a => (p a).toNat).sum ≤
      bound s + (as.map fun _ => 0).sum := exec_potential hstep hs hok h
  simpa [sum_map_toNat] using hpaid

theorem exec_le_length {step : σ → α → Option σ} {count : σ → ℕ}
    (hstep : ∀ s a t, step s a = some t → count t ≤ count s + 1) {s t : σ} {as : List α}
    (h : exec step s as = some t) : count t ≤ count s + as.length := by
  induction as generalizing s with
  | nil =>
    obtain rfl := Option.some.inj h
    rfl
  | cons a as ih =>
    obtain ⟨u, hu, ht⟩ := exec_cons.mp h
    have hfirst := hstep s a u hu
    have hrest := ih ht
    rw [List.length_cons]
    omega

section Trace
variable {ω : Type*}

/-- Where an entry of an extended record can stand: at its end, or before it. -/
theorem append_singleton_eq_iff {w before after : List ω} {e x : ω} :
    w ++ [e] = before ++ x :: after ↔
      after = [] ∧ before = w ∧ x = e ∨ ∃ rest, after = rest ++ [e] ∧ w = before ++ x :: rest := by
  constructor
  · intro h
    rcases List.eq_nil_or_concat' after with rfl | ⟨rest, last, rfl⟩
    · obtain ⟨hinit, hlast⟩ := List.append_inj' h rfl
      exact Or.inl ⟨rfl, hinit.symm, (List.cons.inj hlast).1.symm⟩
    · rw [← List.cons_append, ← List.append_assoc] at h
      obtain ⟨hinit, hlast⟩ := List.append_inj' h rfl
      exact Or.inr ⟨rest, by rw [hlast], hinit⟩
  · rintro (⟨rfl, rfl, rfl⟩ | ⟨rest, rfl, rfl⟩)
    · rfl
    · simp

/-- What an observer notes in the course of a run, step by step. -/
def trace (step : σ → α → Option σ) (observe : σ → α → List ω) : σ → List α → List ω
  | _, [] => []
  | s, a :: as => match step s a with
    | some t => observe s a ++ trace step observe t as
    | none => []

theorem trace_concat {step : σ → α → Option σ} {observe : σ → α → List ω} {s t u : σ} {a : α}
    {as : List α} (hs : exec step s as = some t) (ht : step t a = some u) :
    trace step observe s (as ++ [a]) = trace step observe s as ++ observe t a := by
  induction as generalizing s with
  | nil =>
    obtain rfl := Option.some.inj hs
    simp [trace, ht]
  | cons b as ih =>
    obtain ⟨v, hv, hrest⟩ := exec_cons.mp hs
    simp [trace, hv, ih hrest]

/-- A relation between what was noted so far and the state, if the steps that meet a condition
keep it, holds at the end of every run whose steps all meet it. -/
theorem exec_trace_invariant_along {ok : σ → α → Prop} {step : σ → α → Option σ}
    {observe : σ → α → List ω} {inv : List ω → σ → Prop}
    (hkeep : ∀ w s a t, inv w s → ok s a → step s a = some t → inv (w ++ observe s a) t)
    {w : List ω} {s t : σ} {as : List α} (hs : inv w s) (hok : Along ok step s as)
    (h : exec step s as = some t) : inv (w ++ trace step observe s as) t := by
  induction as generalizing w s with
  | nil =>
    obtain rfl := Option.some.inj h
    simpa [trace] using hs
  | cons a as ih =>
    obtain ⟨u, hu, ht⟩ := exec_cons.mp h
    have hi := ih (hkeep w s a u hs hok.1 hu) (hok.2 u hu) ht
    simpa [trace, hu] using hi

/-- A relation between what was noted so far and the state, if every step keeps it, holds at the
end of a run. -/
theorem exec_trace_invariant {step : σ → α → Option σ} {observe : σ → α → List ω}
    {inv : List ω → σ → Prop}
    (hkeep : ∀ w s a t, inv w s → step s a = some t → inv (w ++ observe s a) t)
    {w : List ω} {s t : σ} {as : List α} (hs : inv w s) (h : exec step s as = some t) :
    inv (w ++ trace step observe s as) t := by
  have hkeep' : ∀ w s a t, inv w s → True → step s a = some t → inv (w ++ observe s a) t :=
    fun w s a t hw _ hstep => hkeep w s a t hw hstep
  exact exec_trace_invariant_along hkeep' hs (along_of_forall fun _ _ => trivial) h

/-- What is known of every state a run passes may be used where a step is taken. -/
theorem exec_trace_invariant_reached {step : σ → α → Option σ} {observe : σ → α → List ω}
    {reached : σ → Prop} {inv : List ω → σ → Prop}
    (hkeep : ∀ w s a t, reached s → inv w s → step s a = some t → inv (w ++ observe s a) t)
    {w : List ω} {s t : σ} {as : List α}
    (hreached : ∀ bs u, exec step s bs = some u → reached u) (hs : inv w s)
    (h : exec step s as = some t) : inv (w ++ trace step observe s as) t := by
  induction as generalizing w s with
  | nil =>
    obtain rfl := Option.some.inj h
    simpa [trace] using hs
  | cons a as ih =>
    obtain ⟨u, hu, ht⟩ := exec_cons.mp h
    have hbehind : ∀ bs v, exec step u bs = some v → reached v := fun bs v hv =>
      hreached (a :: bs) v (exec_cons.mpr ⟨u, hu, hv⟩)
    have hi := ih hbehind (hkeep w s a u (hreached [] s rfl) hs hu) ht
    simpa [trace, hu] using hi

theorem trace_eq_nil_iff {step : σ → α → Option σ} {observe : σ → α → List ω} {s t : σ}
    {as : List α} (h : exec step s as = some t) :
    trace step observe s as = [] ↔ Along (fun s a => observe s a = []) step s as := by
  induction as generalizing s with
  | nil => exact iff_of_true rfl trivial
  | cons a as ih =>
    obtain ⟨u, hu, ht⟩ := exec_cons.mp h
    simp [trace, Along, hu, ih ht]

theorem forall_mem_trace_iff {p : ω → Prop} {step : σ → α → Option σ} {observe : σ → α → List ω}
    {s t : σ} {as : List α} (h : exec step s as = some t) :
    (∀ e ∈ trace step observe s as, p e) ↔
      Along (fun s a => ∀ e ∈ observe s a, p e) step s as := by
  induction as generalizing s with
  | nil => exact iff_of_true (by simp [trace]) trivial
  | cons a as ih =>
    obtain ⟨u, hu, ht⟩ := exec_cons.mp h
    simp only [trace, Along, hu, Option.mem_def, Option.some.injEq, forall_eq', ← ih ht,
      List.mem_append]
    constructor
    · intro hall
      exact ⟨fun e he => hall e (Or.inl he), fun e he => hall e (Or.inr he)⟩
    · rintro ⟨hhead, htail⟩ e (he | he)
      · exact hhead e he
      · exact htail e he

end Trace

end Partial

end AebNode.Machine
