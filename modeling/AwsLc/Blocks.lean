import Mathlib.Data.List.Basic

/-!
# Blocks of a stream

A stream that arrives in pieces and is consumed in blocks of `size` elements.  The complete blocks
and the leftover that waits for more depend on the stream alone and not on its pieces.
-/

namespace AwsLc.Blocks

open List

variable {α : Type*} {size : Nat}

/-- The complete blocks of `xs`. -/
def blocks (size : Nat) (xs : List α) : List (List α) :=
  if 0 < size ∧ size ≤ xs.length then
    xs.take size :: blocks size (xs.drop size)
  else []
termination_by xs.length
decreasing_by
  rw [List.length_drop]
  omega

def leftover (size : Nat) (xs : List α) : List α :=
  if 0 < size ∧ size ≤ xs.length then leftover size (xs.drop size) else xs
termination_by xs.length
decreasing_by
  rw [List.length_drop]
  omega

theorem blocks_of_lt {xs : List α} (h : xs.length < size) : blocks size xs = [] := by
  rw [blocks, if_neg (by omega)]

theorem leftover_of_lt {xs : List α} (h : xs.length < size) : leftover size xs = xs := by
  rw [leftover, if_neg (by omega)]

variable (hsize : 0 < size)
include hsize

theorem blocks_block_append {block : List α} (hblock : block.length = size)
    (xs : List α) : blocks size (block ++ xs) = block :: blocks size xs := by
  rw [blocks, if_pos ⟨hsize, by rw [length_append]; omega⟩, take_left' hblock,
    drop_left' hblock]

theorem leftover_block_append {block : List α} (hblock : block.length = size)
    (xs : List α) : leftover size (block ++ xs) = leftover size xs := by
  rw [leftover, if_pos ⟨hsize, by rw [length_append]; omega⟩, drop_left' hblock]

/-- **Induction by blocks.**  A list is shorter than a block, or a block and a list. -/
theorem blockInduction {property : List α → Prop} (short : ∀ xs, xs.length < size → property xs)
    (block : ∀ block xs, block.length = size → property xs → property (block ++ xs))
    (xs : List α) : property xs := by
  induction h : xs.length using Nat.strongRecOn generalizing xs with
  | ind n ih =>
    by_cases hlt : xs.length < size
    · exact short xs hlt
    have htake : (xs.take size).length = size := by
      rw [length_take]
      omega
    rw [← take_append_drop size xs]
    apply block _ _ htake
    exact ih _ (by rw [length_drop]; omega) _ rfl

theorem leftover_length_lt (xs : List α) : (leftover size xs).length < size := by
  induction xs using blockInduction hsize with
  | short xs h => rwa [leftover_of_lt h]
  | block block xs hblock ih => rwa [leftover_block_append hsize hblock]

theorem length_of_mem_blocks (xs : List α) : ∀ block ∈ blocks size xs, block.length = size := by
  induction xs using blockInduction hsize with
  | short xs h =>
    rw [blocks_of_lt h]
    intro block hmem
    cases hmem
  | block block xs hblock ih =>
    rw [blocks_block_append hsize hblock]
    exact forall_mem_cons.mpr ⟨hblock, ih⟩

theorem length_blocks (xs : List α) : (blocks size xs).length = xs.length / size := by
  induction xs using blockInduction hsize with
  | short xs h => rw [blocks_of_lt h, length_nil, Nat.div_eq_of_lt h]
  | block block xs hblock ih =>
    rw [blocks_block_append hsize hblock, length_cons, ih, length_append, hblock,
      Nat.add_div_left _ hsize]

theorem length_leftover (xs : List α) : (leftover size xs).length = xs.length % size := by
  induction xs using blockInduction hsize with
  | short xs h => rw [leftover_of_lt h, Nat.mod_eq_of_lt h]
  | block block xs hblock ih =>
    rw [leftover_block_append hsize hblock, ih, length_append, hblock, Nat.add_mod_left]

theorem flatten_blocks (xs : List α) : (blocks size xs).flatten ++ leftover size xs = xs := by
  induction xs using blockInduction hsize with
  | short xs h => rw [blocks_of_lt h, leftover_of_lt h, flatten_nil, nil_append]
  | block block xs hblock ih =>
    rw [blocks_block_append hsize hblock, leftover_block_append hsize hblock, flatten_cons,
      append_assoc, ih]

/-- **The next piece.**  The blocks of a longer stream are those it had, and those of the
    leftover with the new piece. -/
theorem blocks_append (xs ys : List α) :
    blocks size (xs ++ ys) = blocks size xs ++ blocks size (leftover size xs ++ ys) := by
  induction xs using blockInduction hsize with
  | short xs h => rw [blocks_of_lt h, leftover_of_lt h, nil_append]
  | block block xs hblock ih =>
    rw [append_assoc, blocks_block_append hsize hblock, ih,
      blocks_block_append hsize hblock, leftover_block_append hsize hblock, cons_append]

theorem leftover_append (xs ys : List α) :
    leftover size (xs ++ ys) = leftover size (leftover size xs ++ ys) := by
  induction xs using blockInduction hsize with
  | short xs h => rw [leftover_of_lt h]
  | block block xs hblock ih =>
    rw [append_assoc, leftover_block_append hsize hblock, ih,
      leftover_block_append hsize hblock]

theorem leftover_of_dvd {xs : List α} (h : xs.length % size = 0) : leftover size xs = [] := by
  rw [← length_eq_zero_iff, length_leftover hsize, h]

/-- The stream cut at the end of its last complete block. -/
theorem take_drop_whole (xs : List α) :
    blocks size (xs.take (xs.length - xs.length % size)) = blocks size xs ∧
      xs.drop (xs.length - xs.length % size) = leftover size xs := by
  have hmod := Nat.mod_lt xs.length hsize
  have hwhole : (xs.take (xs.length - xs.length % size)).length % size = 0 := by
    rw [length_take, Nat.min_eq_left (Nat.sub_le _ _)]
    exact Nat.sub_mod_eq_zero_of_mod_eq (by rw [Nat.mod_mod])
  have hshort : (xs.drop (xs.length - xs.length % size)).length < size := by
    rw [length_drop]
    omega
  have hcut := take_append_drop (xs.length - xs.length % size) xs
  have hblocks := blocks_append hsize (xs.take (xs.length - xs.length % size))
    (xs.drop (xs.length - xs.length % size))
  have hleftover := leftover_append hsize (xs.take (xs.length - xs.length % size))
    (xs.drop (xs.length - xs.length % size))
  rw [leftover_of_dvd hsize hwhole, nil_append, hcut] at hblocks hleftover
  rw [blocks_of_lt hshort, append_nil] at hblocks
  rw [leftover_of_lt hshort] at hleftover
  exact ⟨hblocks.symm, hleftover.symm⟩

end AwsLc.Blocks
