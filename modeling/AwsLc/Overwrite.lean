import Mathlib.Data.List.Basic

/-!
# Writing into an array

`write` stores a list at an offset of an array and keeps the length; `write_middle` is the rule by
which writers are verified: the array is split around the part that is written.
-/

namespace AwsLc.Overwrite

variable {α : Type*}

def write (array : List α) (offset : Nat) : (values : List α) → List α
  | [] => array
  | value :: values => write (array.set offset value) (offset + 1) values

@[simp] theorem length_write (array : List α) (offset : Nat) (values : List α) :
    (write array offset values).length = array.length := by
  induction values generalizing array offset with
  | nil => rfl
  | cons value values ih => rw [write, ih, List.length_set]

theorem set_middle (before after : List α) (old new : α) :
    (before ++ old :: after).set before.length new = before ++ new :: after := by
  rw [List.set_append_right _ _ (Nat.le_refl _), Nat.sub_self, List.set_cons_zero]

theorem write_middle {before old after values : List α} (h : old.length = values.length) :
    write (before ++ (old ++ after)) before.length values = before ++ (values ++ after) := by
  induction values generalizing before old with
  | nil =>
    rw [List.eq_nil_of_length_eq_zero h]
    rfl
  | cons value values ih =>
    rcases old with _ | ⟨first, old⟩
    · cases h
    have hnext := @ih (before ++ [value]) old (Nat.succ.inj h)
    rw [List.length_append, List.length_singleton, List.append_assoc, List.append_assoc] at hnext
    rw [write, List.cons_append, set_middle]
    exact hnext

theorem getElem?_write (array : List α) (offset : Nat) (values : List α) (i : Nat)
    (hfits : offset + values.length ≤ array.length) : (write array offset values)[i]? =
      if offset ≤ i ∧ i < offset + values.length then values[i - offset]? else array[i]? := by
  induction values generalizing array offset with
  | nil =>
    rw [write, if_neg]
    simp only [List.length_nil]
    omega
  | cons value values ih =>
    rw [List.length_cons] at hfits ⊢
    rw [write, ih _ _ (by rw [List.length_set]; omega), List.getElem?_set]
    rcases Nat.lt_trichotomy i offset with hlt | heq | hgt
    · rw [if_neg (by omega), if_neg (by omega), if_neg (by omega)]
    · subst heq
      rw [if_neg (by omega), if_pos rfl, if_pos (by omega), if_pos (by omega), Nat.sub_self]
      rfl
    · have hnext : i - offset = (i - (offset + 1)) + 1 := by omega
      rw [if_neg (by omega : ¬offset = i), hnext, List.getElem?_cons_succ]
      by_cases hin : i < offset + (values.length + 1)
      · rw [if_pos (by omega), if_pos (by omega)]
      · rw [if_neg (by omega), if_neg (by omega)]

end AwsLc.Overwrite
