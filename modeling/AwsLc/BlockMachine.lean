import AwsLc.Blocks

/-!
# Machines on blocks

A machine that keeps a state and turns one block after another into a block of output, fed with a
stream that arrives in pieces.
-/

namespace AwsLc.BlockMachine

open AwsLc.Blocks

variable {σ τ α β : Type*} {size : Nat}

def run (step : σ → List α → σ × List β) (start : σ) : List (List α) → σ × List β
  | [] => (start, [])
  | block :: rest =>
    let (next, out) := step start block
    let (last, later) := run step next rest
    (last, out ++ later)

def stream (size : Nat) (step : σ → List α → σ × List β) (start : σ) (xs : List α) : σ × List β :=
  run step start (blocks size xs)

variable {step : σ → List α → σ × List β}

theorem run_cons (start : σ) (block : List α) (rest : List (List α)) :
    run step start (block :: rest) = ((run step (step start block).1 rest).1,
        (step start block).2 ++ (run step (step start block).1 rest).2) := rfl

theorem run_append (start : σ) (first second : List (List α)) : run step start (first ++ second) =
      ((run step (run step start first).1 second).1,
        (run step start first).2 ++ (run step (run step start first).1 second).2) := by
  induction first generalizing start with
  | nil => rfl
  | cons block rest ih =>
    rw [List.cons_append, run_cons, ih, run_cons]
    simp

theorem length_run (hstep : ∀ state block, block.length = size → (step state block).2.length = size)
    (start : σ) (input : List (List α)) (h : ∀ block ∈ input, block.length = size) :
    (run step start input).2.length = size * input.length := by
  induction input generalizing start with
  | nil => rfl
  | cons block rest ih =>
    obtain ⟨hblock, hrest⟩ := List.forall_mem_cons.mp h
    rw [run_cons, List.length_append, hstep _ _ hblock, ih _ hrest, List.length_cons,
      Nat.mul_succ, Nat.add_comm]

/-- **The next piece.**  What has arrived is behind the machine, up to the leftover. -/
theorem stream_append (hsize : 0 < size) (start : σ) (xs ys : List α) :
    stream size step start (xs ++ ys) =
      ((stream size step (stream size step start xs).1 (leftover size xs ++ ys)).1,
        (stream size step start xs).2 ++
          (stream size step (stream size step start xs).1 (leftover size xs ++ ys)).2) := by
  unfold stream
  rw [blocks_append hsize, run_append]

theorem stream_short {xs : List α} (h : xs.length < size) (start : σ) :
    stream size step start xs = (start, []) := by
  unfold stream
  rw [blocks_of_lt h]
  rfl

theorem length_stream (hsize : 0 < size)
    (hstep : ∀ state block, block.length = size → (step state block).2.length = size)
    (start : σ) (xs : List α) :
    (stream size step start xs).2.length = size * (xs.length / size) := by
  unfold stream
  rw [length_run hstep _ _ (length_of_mem_blocks hsize xs), length_blocks hsize]

/-- **Inverse machines.**  If a step of `back` undoes a step of `step` and keeps the states in
    correspondence, the run of `back` over the output gives the blocks again. -/
theorem run_inverse (hsize : 0 < size) {back : τ → List β → τ × List α} {related : σ → τ → Prop}
    (hlength : ∀ state block, block.length = size → (step state block).2.length = size)
    (hinverse : ∀ state state' block, related state state' → block.length = size →
      (back state' (step state block).2).2 = block ∧
        related (step state block).1 (back state' (step state block).2).1)
    {start : σ} {start' : τ} (hrelated : related start start') (input : List (List α))
    (h : ∀ block ∈ input, block.length = size) :
    (stream size back start' (run step start input).2).2 = input.flatten := by
  induction input generalizing start start' with
  | nil => exact congrArg Prod.snd (stream_short hsize start')
  | cons block rest ih =>
    obtain ⟨hblock, hrest⟩ := List.forall_mem_cons.mp h
    obtain ⟨hback, hnext⟩ := hinverse start start' block hrelated hblock
    have hout := hlength start block hblock
    unfold stream at ih ⊢
    rw [run_cons, blocks_block_append hsize hout, run_cons, ih hnext hrest, hback,
      List.flatten_cons]

end AwsLc.BlockMachine
