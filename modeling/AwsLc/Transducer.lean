import Mathlib.Data.List.Basic

/-!
# Transducers

A machine that reads a symbol, goes to its next state and writes some output, or stops in an error
state.  A run over a text does not depend on how the text is cut.
-/

namespace AwsLc.Transducer

variable {σ α β : Type*}

/-- The state and the output after `input`, or the state in which the machine stopped. -/
def run (step : σ → α → Except σ (σ × List β)) (start : σ) :
    List α → Except σ (σ × List β)
  | [] => .ok (start, [])
  | symbol :: input =>
    match step start symbol with
    | .error stopped => .error stopped
    | .ok (next, out) =>
      match run step next input with
      | .error stopped => .error stopped
      | .ok (final, later) => .ok (final, out ++ later)

variable {step : σ → α → Except σ (σ × List β)}

theorem run_cons_of_ok {start next : σ} {symbol : α} {out : List β} {input : List α}
    (h : step start symbol = .ok (next, out)) :
    run step start (symbol :: input) =
      (run step next input).map fun result => (result.1, out ++ result.2) := by
  rw [run, h]
  dsimp only
  cases run step next input <;> rfl

theorem run_cons_eq_ok {start final : σ} {symbol : α} {input : List α} {out : List β}
    (h : run step start (symbol :: input) = .ok (final, out)) :
    ∃ next first later, step start symbol = .ok (next, first) ∧
      run step next input = .ok (final, later) ∧ out = first ++ later := by
  rcases hstep : step start symbol with stopped | ⟨next, first⟩
  · rw [run, hstep] at h
    cases h
  rw [run_cons_of_ok hstep] at h
  rcases hrest : run step next input with stopped | ⟨last, later⟩
  · rw [hrest] at h
    cases h
  rw [hrest] at h
  cases h
  exact ⟨next, first, later, rfl, hrest, rfl⟩

theorem run_append_of_ok {start next : σ} {input later : List α} {out : List β}
    (h : run step start input = .ok (next, out)) :
    run step start (input ++ later) =
      (run step next later).map fun result => (result.1, out ++ result.2) := by
  induction input generalizing start out with
  | nil =>
    cases h
    rw [List.nil_append]
    cases hrest : run step next later <;> rfl
  | cons symbol input ih =>
    obtain ⟨middle, first, second, hstep, hrest, rfl⟩ := run_cons_eq_ok h
    rw [List.cons_append, run_cons_of_ok hstep, ih hrest]
    cases run step next later with
    | error stopped => rfl
    | ok result => simp only [Except.map, List.append_assoc]

theorem run_append_of_error {start stopped : σ} {input : List α} (later : List α)
    (h : run step start input = .error stopped) :
    run step start (input ++ later) = .error stopped := by
  induction input generalizing start with
  | nil => cases h
  | cons symbol input ih =>
    rw [run] at h
    rw [List.cons_append, run]
    rcases hstep : step start symbol with stopped' | ⟨middle, first⟩
    · rw [hstep] at h
      exact h
    rw [hstep] at h
    dsimp only at h ⊢
    rcases hrest : run step middle input with stopped' | ⟨final, second⟩
    · rw [hrest] at h
      cases h
      rw [ih hrest]
    · rw [hrest] at h
      cases h

/-- **A run may be cut.**  A run over two texts is a run over the first, and a run over the
    second from where that one ended. -/
theorem run_append_eq_ok {start final : σ} {input later : List α} {out : List β}
    (h : run step start (input ++ later) = .ok (final, out)) :
    ∃ middle first second, run step start input = .ok (middle, first) ∧
      run step middle later = .ok (final, second) ∧ out = first ++ second := by
  rcases hfirst : run step start input with stopped | ⟨middle, first⟩
  · rw [run_append_of_error later hfirst] at h
    cases h
  rw [run_append_of_ok hfirst] at h
  rcases hsecond : run step middle later with stopped | ⟨last, second⟩
  · rw [hsecond] at h
    cases h
  rw [hsecond] at h
  cases h
  exact ⟨middle, first, second, rfl, hsecond, rfl⟩

end AwsLc.Transducer
