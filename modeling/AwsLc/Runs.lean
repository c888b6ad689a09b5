import Mathlib.Data.List.Basic

/-!
# Runs of a step function

A system is given by a step function that is undefined on the events that cannot happen in a state.
`run` iterates it over a list of events, and `run_induct` is the induction rule for invariants.
`foldl_undo` is the rule for a loop that undoes another one.
-/

namespace AwsLc.Runs

variable {σ ε : Type*}

/-- The state after `events`, if each of them is possible where it happens. -/
def run (step : σ → ε → Option σ) (start : σ) (events : List ε) : Option σ :=
  events.foldlM step start

variable {step : σ → ε → Option σ}

@[simp] theorem run_nil (start : σ) : run step start [] = some start := rfl

theorem run_cons (start : σ) (event : ε) (events : List ε) :
    run step start (event :: events) = (step start event).bind (run step · events) := by
  simp [run, List.foldlM_cons]

theorem run_append (start : σ) (events later : List ε) :
    run step start (events ++ later) = (run step start events).bind (run step · later) := by
  simp [run, List.foldlM_append]

theorem run_singleton (start : σ) (event : ε) : run step start [event] = step start event := by
  rw [run_cons]
  cases step start event <;> rfl

variable {events : List ε}

/-- **Invariants of runs.**  What every permitted step preserves holds at the end
    of every run of permitted events. -/
theorem run_induct (inv : σ → Prop) (permitted : ε → Prop)
    (hstep : ∀ state event state', inv state → permitted event →
      step state event = some state' → inv state')
    {start final : σ} (hevents : ∀ event ∈ events, permitted event)
    (hstart : inv start) (hrun : run step start events = some final) : inv final := by
  induction events generalizing start with
  | nil =>
    cases hrun
    exact hstart
  | cons event events ih =>
    rw [run_cons] at hrun
    obtain ⟨next, hnext, hrest⟩ := Option.bind_eq_some_iff.mp hrun
    have hpermitted := hevents event List.mem_cons_self
    exact ih (fun e he => hevents e (List.mem_cons_of_mem _ he))
      (hstep start event next hstart hpermitted hnext) hrest

/-- Every state of a run has the property, up to an event that is not possible. -/
def Along (step : σ → ε → Option σ) (holds : σ → Prop) : σ → List ε → Prop
  | state, [] => holds state
  | state, event :: events =>
      holds state ∧ ∀ next, step state event = some next → Along step holds next events

/-- Every event of a run that is possible meets the condition where it happens. -/
def Meets (step : σ → ε → Option σ) (condition : σ → ε → Prop) : σ → List ε → Prop
  | _, [] => True
  | state, event :: events => ∀ next, step state event = some next →
      condition state event ∧ Meets step condition next events

theorem Along.start {holds : σ → Prop} {state : σ}
    (h : Along step holds state events) : holds state := by
  cases events with
  | nil => exact h
  | cons event events => exact h.1

/-- **Exact conditions.**  If a step keeps a property exactly under a condition, then a
    run keeps it exactly if every step meets the condition. -/
theorem along_iff_meets {holds : σ → Prop} {condition : σ → ε → Prop}
    (hstep : ∀ state event next, holds state → step state event = some next →
      (holds next ↔ condition state event)) {start : σ} (hstart : holds start) :
    Along step holds start events ↔ Meets step condition start events := by
  induction events generalizing start with
  | nil => exact iff_of_true hstart trivial
  | cons event events ih =>
    constructor
    · rintro ⟨-, halong⟩ next hnext
      have hholds := (halong next hnext).start
      exact ⟨(hstep start event next hstart hnext).mp hholds, (ih hholds).mp (halong next hnext)⟩
    · intro hmeets
      refine ⟨hstart, fun next hnext => ?_⟩
      obtain ⟨hcondition, hrest⟩ := hmeets next hnext
      exact (ih ((hstep start event next hstart hnext).mpr hcondition)).mpr hrest

/-- **Undoing a loop.**  Steps that are undone one by one are undone as a whole in the reverse
    order, and keep the invariant. -/
theorem foldl_undo (step unstep : σ → ε → σ) (inv : σ → Prop) (permitted : ε → Prop)
    (hinv : ∀ state event, permitted event → inv state → inv (step state event))
    (hundo : ∀ state event, permitted event → inv state →
      unstep (step state event) event = state) (hevents : ∀ event ∈ events, permitted event)
    {state : σ} (hstate : inv state) : inv (events.foldl step state) ∧
      events.reverse.foldl unstep (events.foldl step state) = state := by
  induction events generalizing state with
  | nil => exact ⟨hstate, rfl⟩
  | cons event events ih =>
    have hpermitted := hevents event List.mem_cons_self
    obtain ⟨hfinal, hback⟩ := ih (fun e he => hevents e (List.mem_cons_of_mem _ he))
      (hinv state event hpermitted hstate)
    refine ⟨hfinal, ?_⟩
    rw [List.foldl_cons, List.reverse_cons, List.foldl_append, hback]
    exact hundo state event hpermitted hstate

/-- A loop that counts down from `n - 1` to zero, and in which a round may fail. -/
def countdown (body : Nat → σ → Option σ) : (n : Nat) → σ → Option σ
  | 0, state => some state
  | n + 1, state => (body n state).bind (countdown body n)

/-- **Invariants of a countdown**, at `k + 1` before the round `k` and at `k` after it. -/
theorem countdown_induct {body : Nat → σ → Option σ} (inv : Nat → σ → Prop) {n : Nat}
    (hround : ∀ k < n, ∀ state, inv (k + 1) state → ∃ next, body k state = some next ∧ inv k next)
    {start : σ} (hstart : inv n start) :
    ∃ final, countdown body n start = some final ∧ inv 0 final := by
  induction n generalizing start with
  | zero => exact ⟨start, rfl, hstart⟩
  | succ n ih =>
    obtain ⟨next, hnext, hinv⟩ := hround n n.lt_succ_self start hstart
    rw [countdown, hnext]
    exact ih (fun k hk => hround k (Nat.lt_succ_of_lt hk)) hinv

end AwsLc.Runs

namespace AwsLc

theorem except_bind_ok {ε α β : Type} {x : Except ε α} {next : α → Except ε β} {result : β}
    (h : x.bind next = .ok result) : ∃ value, x = .ok value ∧ next value = .ok result := by
  cases x with
  | error e => cases h
  | ok value => exact ⟨value, rfl, h⟩

end AwsLc
