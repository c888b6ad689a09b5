import Mathlib.Data.List.Basic

/-!
# Sliding replay windows

A receiver of numbered packets must refuse a number it accepted before, and may refuse numbers that
lie at least `width` below the largest accepted one.  An implementation keeps the largest number and
`width` bits, bit `i` for the number `i` below the largest.
-/

namespace AwsLc.SlidingWindow

/-- What a window of `width` refuses after the numbers in `accepted`. -/
def Refuses (width : Nat) (accepted : List Nat) (number : Nat) : Prop :=
  number ∈ accepted ∨
    ∃ top ∈ accepted, (∀ other ∈ accepted, other ≤ top) ∧ number + width ≤ top

/-- The bits `bit 0, …, bit (width - 1)` below `top` represent the history. -/
structure Represents (width : Nat) (bit : Nat → Bool) (top : Nat)
    (accepted : List Nat) : Prop where
  bit_iff : ∀ index < width, bit index = true ↔ index ≤ top ∧ top - index ∈ accepted
  le_top : ∀ number ∈ accepted, number ≤ top
  top_mem : accepted ≠ [] → top ∈ accepted
  top_of_empty : accepted = [] → top = 0

variable {width top number : Nat} {bit : Nat → Bool} {accepted : List Nat}

theorem Represents.cleared : Represents width (fun _ => false) 0 [] where
  bit_iff := by simp
  le_top := by simp
  top_mem := by simp
  top_of_empty := by simp

variable (hrep : Represents width bit top accepted)
include hrep

/-- The window decides the rule: nothing above `top` is refused, everything
    `width` or more below it is, and in between the bit tells. -/
theorem Represents.refuses_iff (hwidth : 0 < width) : Refuses width accepted number ↔
      number ≤ top ∧ (width ≤ top - number ∨ bit (top - number) = true) := by
  constructor
  · rintro (hmem | ⟨greatest, hgreatest, -, hfar⟩)
    · have hle := hrep.le_top number hmem
      refine ⟨hle, ?_⟩
      by_cases hfar : width ≤ top - number
      · exact Or.inl hfar
      · refine Or.inr ((hrep.bit_iff _ (by omega)).mpr ⟨by omega, ?_⟩)
        rwa [Nat.sub_sub_self hle]
    · have hle := hrep.le_top greatest hgreatest
      exact ⟨by omega, Or.inl (by omega)⟩
  · rintro ⟨hle, hwindow⟩
    by_cases hfar : width ≤ top - number
    · -- a number that far below `top` only exists once something was accepted
      have hne : accepted ≠ [] := by
        intro hempty
        have hzero := hrep.top_of_empty hempty
        omega
      exact Or.inr ⟨top, hrep.top_mem hne, hrep.le_top, by omega⟩
    · have hmem := ((hrep.bit_iff _ (by omega)).mp (hwindow.resolve_left hfar)).2
      rw [Nat.sub_sub_self hle] at hmem
      exact Or.inl hmem

/-- Accepting a number above the window: the old bits move up by the distance and bit 0 is set.
    Bits pushed past `width` are forgotten. -/
theorem Represents.advance (habove : top < number) {bit' : Nat → Bool}
    (hbit' : ∀ index < width, bit' index = true ↔
      index = 0 ∨ (number - top ≤ index ∧ bit (index - (number - top)) = true)) :
    Represents width bit' number (number :: accepted) where
  bit_iff := by
    intro index hindex
    rw [hbit' index hindex]
    constructor
    · rintro (rfl | ⟨hfar, hold⟩)
      · simp
      · have hback := (hrep.bit_iff _ (by omega)).mp hold
        have hsame : top - (index - (number - top)) = number - index := by omega
        rw [hsame] at hback
        exact ⟨by omega, List.mem_cons_of_mem _ hback.2⟩
    · rintro ⟨hle, hmem⟩
      rcases List.mem_cons.mp hmem with heq | hold
      · exact Or.inl (by omega)
      · have hbelow := hrep.le_top _ hold
        have hsame : top - (index - (number - top)) = number - index := by omega
        refine Or.inr ⟨by omega, (hrep.bit_iff _ (by omega)).mpr ⟨by omega, ?_⟩⟩
        rwa [hsame]
  le_top := by
    intro other hother
    rcases List.mem_cons.mp hother with rfl | hold
    · exact Nat.le_refl _
    · exact Nat.le_of_lt (Nat.lt_of_le_of_lt (hrep.le_top other hold) habove)
  top_mem := by simp
  top_of_empty := by simp

/-- Accepting a number inside the window sets its bit and moves nothing. -/
theorem Represents.mark (hle : number ≤ top) (hnear : top - number < width) {bit' : Nat → Bool}
    (hbit' : ∀ index < width, bit' index = true ↔ index = top - number ∨ bit index = true) :
    Represents width bit' top (number :: accepted) where
  bit_iff := by
    intro index hindex
    rw [hbit' index hindex, hrep.bit_iff index hindex]
    constructor
    · rintro (rfl | ⟨hindexTop, hmem⟩)
      · rw [Nat.sub_sub_self hle]
        exact ⟨by omega, List.mem_cons_self⟩
      · exact ⟨hindexTop, List.mem_cons_of_mem _ hmem⟩
    · rintro ⟨hindexTop, hmem⟩
      rcases List.mem_cons.mp hmem with heq | hold
      · exact Or.inl (by omega)
      · exact Or.inr ⟨hindexTop, hold⟩
  le_top := by
    intro other hother
    rcases List.mem_cons.mp hother with rfl | hold
    · exact hle
    · exact hrep.le_top other hold
  top_mem := by
    intro _
    by_cases hempty : accepted = []
    · -- an empty history has `top = 0`, so the number marked is `top` itself
      have hzero := hrep.top_of_empty hempty
      have heq : top = number := by omega
      exact heq ▸ List.mem_cons_self
    · exact List.mem_cons_of_mem _ (hrep.top_mem hempty)
  top_of_empty := by simp

end AwsLc.SlidingWindow
