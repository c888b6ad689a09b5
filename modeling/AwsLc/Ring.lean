import AwsLc.Overwrite
import Mathlib.Data.List.Rotate

/-!
# Ring buffers

The contents of a ring are the elements from an offset on, around the end of the array.  What is
taken from the front, or written behind the last element, does not itself go around the end: a
longer piece is moved in two parts.
-/

namespace AwsLc.Ring

open List

variable {α : Type*}

/-- The `len` elements from `offset` on, around the end. -/
def contents (buf : List α) (offset len : Nat) : List α := (buf.rotate offset).take len

theorem length_contents {buf : List α} (offset : Nat) {len : Nat} (h : len ≤ buf.length) :
    (contents buf offset len).length = len := by
  rw [contents, length_take, length_rotate, Nat.min_eq_left h]

/-- The position of an element, for an offset within the array. -/
theorem add_mod_of_lt {size offset i : Nat} (hoffset : offset < size) (hi : i ≤ size) :
    (i + offset) % size = if i + offset < size then i + offset else i + offset - size := by
  split
  · next h => exact Nat.mod_eq_of_lt h
  · next h =>
    rw [Nat.mod_eq_sub_mod (Nat.le_of_not_lt h), Nat.mod_eq_of_lt]
    omega

theorem getElem?_contents {buf : List α} (offset : Nat) {len i : Nat} (hlen : len ≤ buf.length) :
    (contents buf offset len)[i]? = if i < len then buf[(i + offset) % buf.length]? else none := by
  rw [contents, List.getElem?_take]
  split
  · next hi => rw [List.getElem?_rotate (Nat.lt_of_lt_of_le hi hlen)]
  · rfl

/-- **Taking from the front.** -/
theorem contents_take {buf : List α} {offset len n : Nat} (hlen : len ≤ buf.length) (hn : n ≤ len)
    (hend : offset + n ≤ buf.length) : contents buf offset len =
      (buf.drop offset).take n ++ contents buf ((offset + n) % buf.length) (len - n) := by
  unfold contents
  have hfirst : (buf.rotate offset).take n = (buf.drop offset).take n := by
    rw [rotate_eq_drop_append_take (by omega), take_append_of_le_length]
    rw [length_drop]
    omega
  have hrest : ((buf.rotate offset).drop n).take (len - n) =
      (buf.rotate ((offset + n) % buf.length)).take (len - n) := by
    have hn' : n ≤ (buf.rotate offset).length := by
      rw [length_rotate]
      omega
    rw [rotate_mod, ← rotate_rotate, rotate_eq_drop_append_take hn',
      take_append_of_le_length]
    rw [length_drop, length_rotate]
    omega
  calc (buf.rotate offset).take len
      = (buf.rotate offset).take (n + (len - n)) := by rw [Nat.add_sub_cancel' hn]
    _ = (buf.rotate offset).take n ++ ((buf.rotate offset).drop n).take (len - n) := take_add
    _ = _ := by rw [hfirst, hrest]

/-- **Writing at the back.** -/
theorem contents_write {buf : List α} {offset : Nat} (len : Nat) (values : List α)
    (hoffset : offset < buf.length) (hfree : len + values.length ≤ buf.length)
    (hend : (len + offset) % buf.length + values.length ≤ buf.length) :
    contents (Overwrite.write buf ((len + offset) % buf.length) values) offset
        (len + values.length) = contents buf offset len ++ values := by
  have hlength := Overwrite.length_write buf ((len + offset) % buf.length) values
  apply ext_getElem?
  intro i
  rw [getElem?_contents offset (by omega), List.getElem?_append, length_contents offset (by omega),
    getElem?_contents offset (by omega), hlength, Overwrite.getElem?_write _ _ _ _ hend]
  rcases Nat.lt_or_ge i (len + values.length) with hi | hi
  · have hlen := add_mod_of_lt hoffset (i := len) (by omega)
    have hpos := add_mod_of_lt hoffset (i := i) (by omega)
    rw [if_pos hi]
    by_cases hold : i < len
    · rw [if_pos hold, if_pos hold, if_neg]
      split at hlen <;> split at hpos <;> omega
    · -- a new element, at the same distance from the first one written
      have hdistance : (i + offset) % buf.length = (len + offset) % buf.length + (i - len) := by
        split at hlen <;> split at hpos <;> omega
      rw [if_neg hold, hdistance, if_pos (by omega), Nat.add_sub_cancel_left]
  · rw [if_neg (by omega), if_neg (by omega), List.getElem?_eq_none (by omega)]

end AwsLc.Ring
