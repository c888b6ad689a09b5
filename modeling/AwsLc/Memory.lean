import Mathlib.Data.List.Basic

/-!
# Memory blocks

A block of memory is the list of its cells, of which `memcpyAt` overwrites a range and `slice` reads
one.
-/

namespace AwsLc.Memory

open List

variable {α : Type}

/-- `memcpy(block + offset, src, src.size())`. -/
def memcpyAt (block : List α) (offset : Nat) (src : List α) : List α :=
  block.take offset ++ src ++ block.drop (offset + src.length)

def slice (block : List α) (offset len : Nat) : List α := (block.drop offset).take len

variable {block src : List α} {offset : Nat}

theorem length_memcpyAt (hfits : offset + src.length ≤ block.length) :
    (memcpyAt block offset src).length = block.length := by
  simp only [memcpyAt, length_append, length_take, length_drop]
  omega

theorem getElem?_memcpyAt (hfits : offset + src.length ≤ block.length) (index : Nat) :
    (memcpyAt block offset src)[index]? =
      if offset ≤ index ∧ index < offset + src.length then src[index - offset]?
      else block[index]? := by
  have htake := length_take_of_le (show offset ≤ block.length by omega)
  unfold memcpyAt
  rw [append_assoc, List.getElem?_append, List.getElem?_append, htake]
  by_cases hbefore : index < offset
  · rw [if_pos hbefore, if_neg (by omega), List.getElem?_take_of_lt hbefore]
  · by_cases hinside : index - offset < src.length
    · rw [if_neg hbefore, if_pos hinside, if_pos (by omega)]
    · rw [if_neg hbefore, if_neg hinside, if_neg (by omega), List.getElem?_drop]
      congr 1
      omega

variable {len : Nat}

theorem length_slice (hfits : offset + len ≤ block.length) :
    (slice block offset len).length = len := by
  rw [slice, length_take, length_drop]
  omega

@[simp] theorem slice_zero (block : List α) (offset : Nat) : slice block offset 0 = [] := rfl

theorem slice_add (block : List α) (offset first second : Nat) :
    slice block offset (first + second) =
      slice block offset first ++ slice block (offset + first) second := by
  rw [slice, take_add, drop_drop]
  rfl

theorem drop_slice (block : List α) (offset len n : Nat) :
    (slice block offset len).drop n = slice block (offset + n) (len - n) := by
  rw [slice, slice, drop_take, drop_drop]

theorem slice_memcpyAt_self (hfits : offset + src.length ≤ block.length) :
    slice (memcpyAt block offset src) offset src.length = src := by
  have htake := length_take_of_le (show offset ≤ block.length by omega)
  rw [slice, memcpyAt, append_assoc, drop_left' htake, take_left' rfl]

theorem slice_memcpyAt_of_le {start : Nat} (hfits : offset ≤ block.length)
    (hbefore : start + len ≤ offset) :
    slice (memcpyAt block offset src) start len = slice block start len := by
  have htake := length_take_of_le hfits
  rw [slice, slice, memcpyAt, append_assoc, drop_append_of_le_length (by omega),
    take_append_of_le_length (by rw [length_drop]; omega), drop_take,
    take_take]
  congr 1
  omega

/-- Two areas that share no cell do not disturb each other. -/
theorem slice_memcpyAt_of_disjoint {start : Nat} (hfits : offset + src.length ≤ block.length)
    (hapart : start + len ≤ offset ∨ offset + src.length ≤ start) :
    slice (memcpyAt block offset src) start len = slice block start len := by
  rcases hapart with hbefore | hafter
  · exact slice_memcpyAt_of_le (by omega) hbefore
  · have hlength : (block.take offset ++ src).length = offset + src.length := by
      rw [length_append, length_take]
      omega
    rw [slice, slice, memcpyAt, drop_append, hlength,
      drop_eq_nil_of_le (by omega), nil_append, drop_drop]
    congr 2
    omega

theorem set_eq_memcpyAt (hfits : offset < block.length) (value : α) :
    block.set offset value = memcpyAt block offset [value] := by
  rw [set_eq_take_append_cons_drop, if_pos hfits, memcpyAt, append_assoc]
  rfl

theorem slice_one (hfits : offset < block.length) (value : α) :
    slice block offset 1 = [block.getD offset value] := by
  rw [slice, drop_eq_getElem_cons hfits, getD_eq_getElem?_getD,
    List.getElem?_eq_getElem hfits]
  rfl

theorem memcpyAt_append {first : List α} (hfits : offset ≤ block.length)
    (hfirst : first.length = len) (second : List α) :
    memcpyAt (memcpyAt block offset first) (offset + len) second =
      memcpyAt block offset (first ++ second) := by
  have hlength : (block.take offset ++ first).length = offset + len := by
    rw [length_append, length_take, Nat.min_eq_left hfits, hfirst]
  have hrest : (block.drop (offset + len)).drop second.length =
      block.drop (offset + (first ++ second).length) := by
    rw [drop_drop, length_append, Nat.add_assoc, hfirst]
  rw [memcpyAt, memcpyAt, memcpyAt, take_left' hlength, ← drop_drop,
    drop_left' hlength, hfirst, hrest]
  simp

theorem memcpyAt_overwrite (hfits : offset ≤ block.length) {old new : List α}
    (hlength : old.length = new.length) (rest : List α) :
    memcpyAt (memcpyAt block offset (old ++ rest)) offset new =
      memcpyAt block offset (new ++ rest) := by
  have htake := length_take_of_le hfits
  have hrest : (block.take offset ++ (old ++ rest) ++
      block.drop (offset + (old ++ rest).length)).drop (offset + new.length) =
        rest ++ block.drop (offset + (new ++ rest).length) := by
    rw [← drop_drop, append_assoc, drop_left' htake, append_assoc,
      drop_left' hlength, length_append, length_append, hlength]
  rw [memcpyAt, memcpyAt, hrest, append_assoc (block.take offset), take_left' htake,
    memcpyAt]
  simp

theorem memcpyAt_prepend {first : List α} (hfits : offset + len ≤ block.length)
    (hfirst : first.length = len) (second : List α) :
    memcpyAt (memcpyAt block (offset + len) second) offset first =
      memcpyAt block offset (first ++ second) := by
  have hold : (slice block offset len).length = len := length_slice hfits
  have hsame : memcpyAt block offset (slice block offset len) = block := by
    rw [memcpyAt, hold, slice, ← take_add, take_append_drop]
  have hstored : memcpyAt block (offset + len) second =
      memcpyAt block offset (slice block offset len ++ second) := by
    rw [← memcpyAt_append (by omega) hold, hsame]
  rw [hstored, memcpyAt_overwrite (by omega) (hold.trans hfirst.symm)]

/-- The `len` cells at `inp` are read and those at `out` are written.  The two areas lie in the
    block, and they are the same or share no cell. -/
structure Placed (block : List α) (inp out len : Nat) : Prop where
  read : inp + len ≤ block.length
  write : out + len ≤ block.length
  apart : inp = out ∨ inp + len ≤ out ∨ out + len ≤ inp

variable {first : Nat}

theorem Placed.fits {inp out : Nat} (h : Placed block inp out (first + len))
    (hsrc : src.length = first) : out + src.length ≤ block.length := by
  have hwrite := h.write
  omega

theorem Placed.drop {inp out : Nat} (h : Placed block inp out (first + len)) :
    Placed block (inp + first) (out + first) len := by
  obtain ⟨hread, hwrite, hapart⟩ := h
  constructor
  · omega
  · omega
  · omega

theorem Placed.advance {inp out : Nat} (h : Placed block inp out (first + len))
    (hsrc : src.length = first) :
    Placed (memcpyAt block out src) (inp + first) (out + first) len := by
  have hlength := length_memcpyAt (h.fits hsrc)
  obtain ⟨hread, hwrite, hapart⟩ := h.drop
  exact ⟨by omega, by omega, hapart⟩

/-- The cells that are still to be read are those of the block at the start. -/
theorem Placed.slice_advance {inp out : Nat} (h : Placed block inp out (first + len))
    (hsrc : src.length = first) :
    slice (memcpyAt block out src) (inp + first) len = slice block (inp + first) len := by
  obtain ⟨hread, hwrite, hapart⟩ := h
  apply slice_memcpyAt_of_disjoint
  · omega
  · omega

end AwsLc.Memory
