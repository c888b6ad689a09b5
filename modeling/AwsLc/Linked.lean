import Mathlib.Data.List.Nodup
import Mathlib.Logic.Function.Basic

/-!
# Doubly linked lists

`Links` holds the two pointers of each node and the ends of the list, and `Holds` says which nodes
the list passes through.  A list read backwards is the list of the reversed pointers.
-/

namespace AwsLc.Linked

open List Function

variable {α : Type}

/-! ### Following pointers -/

/-- Following `step` from `first` passes through `xs` and ends at `last`. -/
def Path (step : α → Option α) : (first : Option α) → (xs : List α) → (last : Option α) → Prop
  | first, [], last => first = last
  | first, x :: xs, last => first = some x ∧ Path step (step x) xs last

section Path

variable {step : α → Option α} {first last : Option α} {xs ys : List α} {x : α}

theorem path_append : Path step first (xs ++ ys) last ↔
    ∃ middle, Path step first xs middle ∧ Path step middle ys last := by
  induction xs generalizing first with
  | nil =>
    constructor
    · intro h
      exact ⟨first, rfl, h⟩
    · rintro ⟨middle, rfl, h⟩
      exact h
  | cons x xs ih =>
    constructor
    · rintro ⟨hfirst, h⟩
      obtain ⟨middle, hxs, hys⟩ := ih.mp h
      exact ⟨middle, ⟨hfirst, hxs⟩, hys⟩
    · rintro ⟨middle, ⟨hfirst, hxs⟩, hys⟩
      exact ⟨hfirst, ih.mpr ⟨middle, hxs, hys⟩⟩

/-- Only the pointers of the nodes that are passed matter. -/
theorem Path.congr {other : α → Option α} (h : Path step first xs last)
    (hsame : ∀ x ∈ xs, other x = step x) : Path other first xs last := by
  induction xs generalizing first with
  | nil => exact h
  | cons x xs ih =>
    refine ⟨h.1, ?_⟩
    rw [hsame x mem_cons_self]
    exact ih h.2 fun y hy => hsame y (mem_cons_of_mem x hy)

theorem Path.first_eq (h : Path step first xs none) : first = xs.head? := by
  cases xs with
  | nil => exact h
  | cons x xs => exact h.1

theorem Path.unique (hxs : Path step first xs none) (hys : Path step first ys none) : xs = ys := by
  induction xs generalizing first ys with
  | nil =>
    cases ys with
    | nil => rfl
    | cons y ys => cases hxs.symm.trans hys.1
  | cons x xs ih =>
    cases ys with
    | nil => cases hys.symm.trans hxs.1
    | cons y ys =>
      cases hxs.1.symm.trans hys.1
      rw [ih hxs.2 hys.2]

variable [DecidableEq α]

theorem Path.update_of_notMem (h : Path step first xs last) (hx : x ∉ xs) (value : Option α) :
    Path (update step x value) first xs last := by
  apply h.congr
  intro y hy
  apply update_of_ne
  rintro rfl
  exact hx hy

/-- The pointer of the last node decides where a path ends. -/
theorem Path.retarget (h : Path step first (xs ++ [x]) last) (hx : x ∉ xs) (target : Option α) :
    Path (update step x target) first (xs ++ [x]) target := by
  obtain ⟨middle, hxs, hmiddle, -⟩ := path_append.mp h
  refine path_append.mpr ⟨middle, hxs.update_of_notMem hx target, hmiddle, ?_⟩
  exact update_self ..

end Path

/-- The pointers of a doubly linked list. -/
@[ext]
structure Links (α : Type) where
  next : α → Option α
  prev : α → Option α
  head : Option α
  tail : Option α

namespace Links

def reverse (links : Links α) : Links α := ⟨links.prev, links.next, links.tail, links.head⟩

/-- The list passes through `xs`, once through each. -/
structure Holds (links : Links α) (xs : List α) : Prop where
  forward : Path links.next links.head xs none
  backward : Path links.prev links.tail xs.reverse none
  nodup : xs.Nodup

section Holds

variable {links : Links α} {xs before after : List α} {x : α}

theorem Holds.reverse (h : links.Holds xs) : links.reverse.Holds xs.reverse where
  forward := h.backward
  backward := by
    rw [reverse_reverse]
    exact h.forward
  nodup := nodup_reverse.mpr h.nodup

theorem Holds.head_eq (h : links.Holds xs) : links.head = xs.head? := h.forward.first_eq

theorem Holds.tail_eq (h : links.Holds xs) : links.tail = xs.getLast? := by
  rw [h.backward.first_eq, List.head?_reverse]

theorem Holds.next_eq (h : links.Holds (before ++ x :: after)) : links.next x = after.head? := by
  obtain ⟨middle, -, -, hafter⟩ := path_append.mp h.forward
  exact hafter.first_eq

theorem reverse_middle (before after : List α) (x : α) :
    (before ++ x :: after).reverse = after.reverse ++ x :: before.reverse := by
  rw [reverse_append, reverse_cons, append_assoc, singleton_append]

theorem Holds.prev_eq (h : links.Holds (before ++ x :: after)) :
    links.prev x = before.getLast? := by
  have hreverse := h.reverse
  rw [reverse_middle] at hreverse
  rw [← List.head?_reverse]
  exact hreverse.next_eq

/-- The pointers of nodes outside of the list do not matter. -/
theorem Holds.congr {other : Links α} (h : links.Holds xs)
    (hnext : ∀ x ∈ xs, other.next x = links.next x) (hprev : ∀ x ∈ xs, other.prev x = links.prev x)
    (hhead : other.head = links.head) (htail : other.tail = links.tail) : other.Holds xs where
  forward := by
    rw [hhead]
    exact h.forward.congr hnext
  backward := by
    rw [htail]
    exact h.backward.congr fun x hx => hprev x (mem_reverse.mp hx)
  nodup := h.nodup

end Holds

/-! ### Moving nodes -/

variable [DecidableEq α]
variable (links : Links α)

/-- Take a node out of the list.  Its own pointers are left as they are. -/
def unlink (x : α) : Links α where
  next := match links.prev x with
    | some before => update links.next before (links.next x)
    | none => links.next
  prev := match links.next x with
    | some after => update links.prev after (links.prev x)
    | none => links.prev
  head := if links.head = some x then links.next x else links.head
  tail := if links.tail = some x then links.prev x else links.tail

theorem unlink_next_apply (x y : α) :
    (links.unlink x).next y = if links.prev x = some y then links.next x else links.next y := by
  cases hprev : links.prev x with
  | none => simp only [unlink, hprev, reduceCtorEq, if_false]
  | some before =>
    simp [unlink, hprev, update_apply, Option.some.injEq, eq_comm]

theorem unlink_prev_apply (x y : α) :
    (links.unlink x).prev y = if links.next x = some y then links.prev x else links.prev y :=
  unlink_next_apply links.reverse x y

theorem unlink_next_self {links : Links α} {x : α} (h : links.prev x ≠ some x) :
    (links.unlink x).next x = links.next x := by
  cases hprev : links.prev x with
  | none => simp only [unlink, hprev]
  | some before =>
    have hne : x ≠ before := by
      rintro rfl
      exact h hprev
    simp [unlink, hprev, update_of_ne hne]

theorem unlink_prev_self {links : Links α} {x : α} (h : links.next x ≠ some x) :
    (links.unlink x).prev x = links.prev x :=
  @unlink_next_self α _ links.reverse x h

theorem unlink_next_unlink {links : Links α} {x : α} (h : links.prev x ≠ some x)
    (head tail : Option α) : (Links.unlink ⟨(links.unlink x).next, links.prev, head, tail⟩ x).next =
      (links.unlink x).next := by
  have hself := unlink_next_self h
  cases hprev : links.prev x with
  | none => simp only [unlink, hprev]
  | some before =>
    have hnext : (links.unlink x).next = update links.next before (links.next x) := by
      simp [unlink, hprev]
    show (match links.prev x with
      | some before => update (links.unlink x).next before ((links.unlink x).next x)
      | none => (links.unlink x).next) = (links.unlink x).next
    rw [hself, hprev, hnext]
    exact update_idem ..

def pushTail (x : α) : Links α where
  next := match links.tail with
    | some last => update (update links.next last (some x)) x none
    | none => update links.next x none
  prev := update links.prev x links.tail
  head := links.head
  tail := some x

def moveToTail (x : α) : Links α :=
  if links.tail = some x then links else (links.unlink x).pushTail x

variable {links : Links α} {xs before after : List α} {x : α}

/-- What is left of a list is linked in one direction. -/
theorem Holds.unlink_forward (h : links.Holds (before ++ x :: after)) :
    Path (links.unlink x).next (links.unlink x).head (before ++ after) none := by
  have hnodup := h.nodup
  have hhead := h.head_eq
  have hprev := h.prev_eq
  obtain ⟨middle, hbefore, hmiddle, hafter⟩ := path_append.mp h.forward
  rcases eq_nil_or_concat' before with rfl | ⟨others, last, rfl⟩
  · -- the first node: the list now starts behind it
    rw [nil_append, List.head?_cons] at hhead
    simp only [unlink, hprev, List.getLast?_nil, hhead, if_true]
    exact hafter
  · rw [List.getLast?_concat] at hprev
    have hnotFirst : links.head ≠ some x := by
      intro hfirst
      rw [hfirst] at hhead
      have hmem : x ∈ others ++ [last] := by
        cases others with
        | nil =>
          cases hhead
          exact mem_singleton.mpr rfl
        | cons first others =>
          cases hhead
          exact mem_cons_self
      exact (nodup_append.mp hnodup).2.2 x hmem x mem_cons_self rfl
    have hlastBefore : last ∉ others := by
      have hothers := (nodup_append.mp hnodup).1
      intro hmem
      exact (nodup_append.mp hothers).2.2 last hmem last (mem_singleton.mpr rfl) rfl
    have hlastAfter : last ∉ after := by
      intro hmem
      exact (nodup_append.mp hnodup).2.2 last (mem_append_right _ mem_cons_self) last
        (mem_cons_of_mem x hmem) rfl
    simp only [unlink, hprev, if_neg hnotFirst]
    exact path_append.mpr ⟨links.next x, hbefore.retarget hlastBefore _,
      hafter.update_of_notMem hlastAfter _⟩

/-- **Taking a node out.** -/
theorem Holds.unlink (h : links.Holds (before ++ x :: after)) :
    (links.unlink x).Holds (before ++ after) where
  forward := h.unlink_forward
  backward := by
    have hreverse := h.reverse
    rw [reverse_middle] at hreverse
    rw [reverse_append]
    exact hreverse.unlink_forward
  nodup := (nodup_cons.mp (nodup_middle.mp h.nodup)).2

/-- **Putting a node at the end.** -/
theorem Holds.pushTail (h : links.Holds xs) (hne : xs ≠ []) (hx : x ∉ xs) :
    (links.pushTail x).Holds (xs ++ [x]) where
  forward := by
    have htail := h.tail_eq
    have hnodup := h.nodup
    rcases eq_nil_or_concat' xs with rfl | ⟨others, last, rfl⟩
    · exact absurd rfl hne
    rw [List.getLast?_concat] at htail
    have hlast : last ∉ others := by
      intro hmem
      exact (nodup_append.mp hnodup).2.2 last hmem last (mem_singleton.mpr rfl) rfl
    have hpath := (h.forward.retarget hlast (some x)).update_of_notMem hx none
    simp only [Links.pushTail, htail]
    exact path_append.mpr ⟨some x, hpath, rfl, update_self ..⟩
  backward := by
    rw [reverse_append, reverse_singleton]
    refine ⟨rfl, ?_⟩
    have hpath := h.backward.update_of_notMem (mt mem_reverse.mp hx) links.tail
    simp only [Links.pushTail, update_self]
    exact hpath
  nodup := by
    refine nodup_append.mpr ⟨h.nodup, nodup_singleton x, ?_⟩
    rintro y hy z hz rfl
    rw [mem_singleton.mp hz] at hy
    exact hx hy

/-- **Moving a node to the end.** -/
theorem Holds.moveToTail (h : links.Holds (before ++ x :: after)) :
    (links.moveToTail x).Holds (before ++ after ++ [x]) := by
  have hnodup := h.nodup
  have htail := h.tail_eq
  have hnotMem : x ∉ before ++ after :=
    (nodup_cons.mp (nodup_middle.mp hnodup)).1
  rcases eq_nil_or_concat' after with rfl | ⟨others, last, rfl⟩
  · -- the last node stays where it is
    rw [List.getLast?_concat] at htail
    rw [Links.moveToTail, if_pos htail, append_nil]
    exact h
  · have hnotLast : links.tail ≠ some x := by
      rw [htail, ← cons_append, ← append_assoc, List.getLast?_concat]
      rintro heq
      cases heq
      exact hnotMem (mem_append_right _ (mem_append_right _ (mem_singleton.mpr rfl)))
    rw [Links.moveToTail, if_neg hnotLast]
    apply h.unlink.pushTail _ hnotMem
    rw [← append_assoc]
    exact append_ne_nil_of_right_ne_nil _ (cons_ne_nil _ _)

end Links

end AwsLc.Linked
