import Mathlib

/-! The self-pipe that makes a blocking poll interruptible. Any number of callers run `signal`
while one thread runs `drain`; each step is a single atomic operation or system call. -/
namespace AebNode

/-- Both descriptors, the coalescing flag, and the bytes the kernel holds in the pipe. -/
structure WakePipe where
  valid : Bool := false
  pending : Bool := false
  bytes : ℕ := 0
  deriving DecidableEq, Repr

namespace WakePipe

inductive SignalPc
  | check
  | exchange
  | write
  | restore
  deriving DecidableEq, Repr

/-- The outcome of the system call a step makes; steps without one proceed. -/
inductive SignalEvent
  | proceed
  | written
  | interrupted
  | failed
  deriving DecidableEq, Repr

inductive DrainPc
  | read
  | store
  deriving DecidableEq, Repr

inductive DrainEvent
  | proceed
  | got (n : ℕ)
  | interrupted
  | wouldBlock
  deriving DecidableEq, Repr

/-- One step of `signal`, with the caller's next position or `none` where it returns. A write
to an empty open pipe never fails; one to a pipe that holds bytes may find it full. -/
def signalStep (w : WakePipe) : SignalPc → SignalEvent → Option (WakePipe × Option SignalPc)
  | .check, .proceed => some (w, if w.valid then some .exchange else none)
  | .exchange, .proceed =>
    some ({ w with pending := true }, if w.pending then none else some .write)
  | .write, .written => if w.valid then some ({ w with bytes := w.bytes + 1 }, none) else none
  | .write, .interrupted => some (w, some .write)
  | .write, .failed => if w.valid ∧ w.bytes = 0 then none else some (w, some .restore)
  | .restore, .proceed => some ({ w with pending := false }, none)
  | _, _ => none

/-- One step of `drain`: reads of up to 64 bytes until the pipe is empty, then the store. -/
def drainStep (w : WakePipe) : DrainPc → DrainEvent → Option (WakePipe × Option DrainPc)
  | .read, .got n =>
    if 0 < n ∧ n ≤ 64 ∧ n ≤ w.bytes then some ({ w with bytes := w.bytes - n }, some .read)
    else none
  | .read, .interrupted => some (w, some .read)
  | .read, .wouldBlock => if w.bytes = 0 then some (w, some .store) else none
  | .store, .proceed => some ({ w with pending := false }, none)
  | _, _ => none

def opened (w : WakePipe) : WakePipe := { w with valid := true, bytes := 0 }

/-- The descriptors of `close`; its store to the flag is a step of its own. -/
def resetEnds (w : WakePipe) : WakePipe := { w with valid := false, bytes := 0 }

/-! Neither call opens or closes the pipe. -/

theorem signalStep_valid {w w' : WakePipe} {pc : SignalPc} {event : SignalEvent}
    {next : Option SignalPc} (h : signalStep w pc event = some (w', next)) :
    w'.valid = w.valid := by
  cases pc <;> cases event <;> simp only [signalStep, reduceCtorEq, Option.some.injEq,
    Prod.mk.injEq, Option.ite_none_right_eq_some, Option.ite_none_left_eq_some] at h
  case check.proceed | write.interrupted => rw [h.1]
  case exchange.proceed | restore.proceed => rw [← h.1]
  case write.written => rw [← h.2.1]
  case write.failed => rw [h.2.1]

theorem drainStep_valid {w w' : WakePipe} {pc : DrainPc} {event : DrainEvent}
    {next : Option DrainPc} (h : drainStep w pc event = some (w', next)) :
    w'.valid = w.valid := by
  cases pc <;> cases event <;> simp only [drainStep, reduceCtorEq, Option.some.injEq,
    Prod.mk.injEq, Option.ite_none_right_eq_some] at h
  case read.got => rw [← h.2.1]
  case read.interrupted => rw [h.1]
  case read.wouldBlock => rw [h.2.1]
  case store.proceed => rw [← h.1]

section Coalescing
variable {κ : Type*}

/-- The pending flag of an open pipe stands for exactly one token: a byte in the pipe, a caller
about to write it, or the draining thread that has consumed it. -/
structure Coalesced (w : WakePipe) (phase : κ → Option SignalPc) (drain : Option DrainPc) :
    Prop where
  writer_unique : ∀ c d, phase c = some .write → phase d = some .write → c = d
  writer_empty : ∀ c, phase c = some .write → w.bytes = 0
  writer_pending : ∀ c, phase c = some .write → w.pending = true
  writer_drain : ∀ c, phase c = some .write → drain = none
  no_restore : ∀ c, phase c ≠ some .restore
  bytes_le : w.bytes ≤ 1
  bytes_pending : 0 < w.bytes → w.pending = true
  drain_pending : drain ≠ none → w.pending = true
  store_empty : drain = some .store → w.bytes = 0
  pending_token : w.pending = true →
    0 < w.bytes ∨ (∃ c, phase c = some .write) ∨ drain ≠ none

variable {w w' : WakePipe} {phase phase' : κ → Option SignalPc} {drain : Option DrainPc}

theorem Coalesced.congr (h : Coalesced w phase drain)
    (hwrite : ∀ c, phase' c = some .write ↔ phase c = some .write)
    (hrestore : ∀ c, phase' c ≠ some .restore) : Coalesced w phase' drain where
  writer_unique c d hc hd := h.writer_unique c d ((hwrite c).mp hc) ((hwrite d).mp hd)
  writer_empty c hc := h.writer_empty c ((hwrite c).mp hc)
  writer_pending c hc := h.writer_pending c ((hwrite c).mp hc)
  writer_drain c hc := h.writer_drain c ((hwrite c).mp hc)
  no_restore := hrestore
  bytes_le := h.bytes_le
  bytes_pending := h.bytes_pending
  drain_pending := h.drain_pending
  store_empty := h.store_empty
  pending_token hp := by
    rcases h.pending_token hp with hb | ⟨c, hc⟩ | hd
    · exact Or.inl hb
    · exact Or.inr (Or.inl ⟨c, (hwrite c).mpr hc⟩)
    · exact Or.inr (Or.inr hd)

theorem Coalesced.startDrain (h : Coalesced w phase none) (hbytes : 0 < w.bytes) :
    Coalesced w phase (some .read) where
  writer_unique := h.writer_unique
  writer_empty := h.writer_empty
  writer_pending := h.writer_pending
  writer_drain c hc := by
    have := h.writer_empty c hc
    omega
  no_restore := h.no_restore
  bytes_le := h.bytes_le
  bytes_pending := h.bytes_pending
  drain_pending _ := h.bytes_pending hbytes
  store_empty := nofun
  pending_token _ := Or.inl hbytes

/-- With no caller about to write, only the pipe and the drain position matter. -/
theorem coalesced_of_no_writer (hnone : ∀ c, phase c ≠ some .write)
    (hrestore : ∀ c, phase c ≠ some .restore) (hle : w.bytes ≤ 1)
    (hbytes : 0 < w.bytes → w.pending = true) (hdrain : drain ≠ none → w.pending = true)
    (hstore : drain = some .store → w.bytes = 0)
    (htoken : w.pending = true → 0 < w.bytes ∨ drain ≠ none) : Coalesced w phase drain where
  writer_unique c _ hc := absurd hc (hnone c)
  writer_empty c hc := absurd hc (hnone c)
  writer_pending c hc := absurd hc (hnone c)
  writer_drain c hc := absurd hc (hnone c)
  no_restore := hrestore
  bytes_le := hle
  bytes_pending := hbytes
  drain_pending := hdrain
  store_empty := hstore
  pending_token hp := (htoken hp).imp_right Or.inr

theorem Coalesced.drained (h : Coalesced w phase drain) {pc : DrainPc} {event : DrainEvent}
    {next : Option DrainPc} (hpc : drain = some pc)
    (hstep : drainStep w pc event = some (w', next)) : Coalesced w' phase next := by
  subst hpc
  have hnone : ∀ c, phase c ≠ some .write := by
    intro c hc
    have := h.writer_drain c hc
    simp at this
  have hpending := h.drain_pending (by simp)
  cases pc with
  | read =>
    cases event with
    | got n =>
      simp only [drainStep, Option.ite_none_right_eq_some, Option.some.injEq, Prod.mk.injEq]
        at hstep
      obtain ⟨hn, rfl, rfl⟩ := hstep
      exact coalesced_of_no_writer hnone h.no_restore ((Nat.sub_le _ _).trans h.bytes_le)
        (fun _ => hpending) (fun _ => hpending) (by simp) (by simp)
    | interrupted =>
      simp only [drainStep, Option.some.injEq, Prod.mk.injEq] at hstep
      obtain ⟨rfl, rfl⟩ := hstep
      exact h
    | wouldBlock =>
      simp only [drainStep, Option.ite_none_right_eq_some, Option.some.injEq, Prod.mk.injEq]
        at hstep
      obtain ⟨hempty, rfl, rfl⟩ := hstep
      exact coalesced_of_no_writer hnone h.no_restore h.bytes_le (fun _ => hpending)
        (fun _ => hpending) (fun _ => hempty) (by simp)
    | proceed => simp [drainStep] at hstep
  | store =>
    have hempty := h.store_empty rfl
    cases event <;> simp only [drainStep, reduceCtorEq, Option.some.injEq, Prod.mk.injEq] at hstep
    obtain ⟨rfl, rfl⟩ := hstep
    exact coalesced_of_no_writer hnone h.no_restore h.bytes_le (by simp [hempty]) (by simp)
      (by simp) (by simp)

variable [DecidableEq κ]

/-- A caller that moves between positions other than the write changes nothing. -/
theorem Coalesced.update (h : Coalesced w phase drain) {c : κ} {next : Option SignalPc}
    (hc : phase c ≠ some .write) (hnext : next ≠ some .write) (hn : next ≠ some .restore) :
    Coalesced w (Function.update phase c next) drain := by
  apply h.congr
  · intro d
    by_cases hd : d = c
    · subst hd
      simp [hc, hnext]
    · rw [Function.update_of_ne hd]
  · intro d
    by_cases hd : d = c
    · subst hd
      simpa using hn
    · rw [Function.update_of_ne hd]
      exact h.no_restore d

theorem Coalesced.signalled (h : Coalesced w phase drain) (hvalid : w.valid = true) {c : κ}
    {pc : SignalPc} {event : SignalEvent} {next : Option SignalPc} (hc : phase c = some pc)
    (hstep : signalStep w pc event = some (w', next)) :
    Coalesced w' (Function.update phase c next) drain := by
  cases pc with
  | check =>
    cases event <;> simp only [signalStep, reduceCtorEq, Option.some.injEq, Prod.mk.injEq] at hstep
    obtain ⟨rfl, rfl⟩ := hstep
    exact h.update (by simp [hc]) (by simp [hvalid]) (by simp [hvalid])
  | exchange =>
    cases event <;> simp only [signalStep, reduceCtorEq, Option.some.injEq, Prod.mk.injEq] at hstep
    obtain ⟨rfl, rfl⟩ := hstep
    cases hp : w.pending with
    | true =>
      have hsame : { w with pending := true } = w := by rw [← hp]
      rw [hsame]
      exact h.update (by simp [hc]) (by simp) (by simp)
    | false =>
      -- The flag was clear, so the token is created here, in this caller's hands.
      have hbytes : w.bytes = 0 := by
        by_contra hb
        have := h.bytes_pending (by omega)
        simp [hp] at this
      have hdrain : drain = none := by
        by_contra hd
        have := h.drain_pending hd
        simp [hp] at this
      have hnone : ∀ d, phase d ≠ some .write := by
        intro d hd
        have := h.writer_pending d hd
        simp [hp] at this
      have hwriter : ∀ d, Function.update phase c (some .write) d = some .write → d = c := by
        intro d hd
        by_contra hne
        rw [Function.update_of_ne hne] at hd
        exact hnone d hd
      exact {
        writer_unique := fun d e hd he => (hwriter d hd).trans (hwriter e he).symm
        writer_empty := fun _ _ => hbytes
        writer_pending := fun _ _ => rfl
        writer_drain := fun _ _ => hdrain
        no_restore := by
          intro d
          by_cases hd : d = c
          · simp [hd]
          · simpa [hd] using h.no_restore d
        bytes_le := h.bytes_le
        bytes_pending := fun _ => rfl
        drain_pending := fun _ => rfl
        store_empty := h.store_empty
        pending_token := fun _ => Or.inr (Or.inl ⟨c, by simp⟩) }
  | write =>
    have hempty := h.writer_empty c hc
    cases event with
    | written =>
      simp only [signalStep, hvalid, ↓reduceIte, Option.some.injEq, Prod.mk.injEq] at hstep
      obtain ⟨rfl, rfl⟩ := hstep
      have hnone : ∀ d, Function.update phase c none d ≠ some .write := by
        intro d hd
        by_cases hdc : d = c
        · simp [hdc] at hd
        · rw [Function.update_of_ne hdc] at hd
          exact hdc (h.writer_unique d c hd hc)
      have hrestore : ∀ d, Function.update phase c none d ≠ some .restore := by
        intro d
        by_cases hdc : d = c
        · simp [hdc]
        · simpa [hdc] using h.no_restore d
      have hpending := h.writer_pending c hc
      exact coalesced_of_no_writer hnone hrestore (by simp [hempty]) (fun _ => hpending)
        (fun _ => hpending) (by simp [h.writer_drain c hc]) (fun _ => Or.inl (Nat.succ_pos _))
    | interrupted =>
      simp only [signalStep, Option.some.injEq, Prod.mk.injEq] at hstep
      obtain ⟨rfl, rfl⟩ := hstep
      rwa [← hc, Function.update_eq_self]
    | failed => simp [signalStep, hvalid, hempty] at hstep
    | proceed => simp [signalStep] at hstep
  | restore => exact absurd hc (h.no_restore c)

/-- Something is still going to make the poll return: a byte, or a caller inside `signal`. -/
def Alert (w : WakePipe) (phase : κ → Option SignalPc) : Prop :=
  0 < w.bytes ∨ ∃ c, phase c ≠ none

/-- A caller that returns from `signal` while nobody drains leaves the alert to a byte in the
pipe or to the caller about to write one. -/
theorem Coalesced.signal_alert (h : Coalesced w phase none) (hvalid : w.valid = true) {c : κ}
    {pc : SignalPc} {event : SignalEvent} {next : Option SignalPc} (hc : phase c = some pc)
    (hstep : signalStep w pc event = some (w', next)) :
    Alert w' (Function.update phase c next) := by
  cases hnext : next with
  | some pc' => exact Or.inr ⟨c, by simp⟩
  | none =>
    subst hnext
    cases pc with
    | check =>
      cases event <;> simp [signalStep, hvalid] at hstep
    | exchange =>
      cases event <;> simp only [signalStep, reduceCtorEq, Option.some.injEq, Prod.mk.injEq,
        ite_eq_left_iff, Bool.not_eq_true, imp_false, Bool.not_eq_false] at hstep
      obtain ⟨rfl, hp⟩ := hstep
      rcases h.pending_token hp with hb | ⟨d, hd⟩ | hdrain
      · exact Or.inl hb
      · have hdc : d ≠ c := by
          rintro rfl
          simp [hc] at hd
        exact Or.inr ⟨d, by simp [hdc, hd]⟩
      · exact absurd rfl hdrain
    | write =>
      cases event <;> simp [signalStep, hvalid] at hstep
      subst hstep
      exact Or.inl (Nat.succ_pos _)
    | restore => exact absurd hc (h.no_restore c)

end Coalescing

end WakePipe

end AebNode
