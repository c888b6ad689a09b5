import Mathlib.Data.List.Basic

/-!
# First in, first out

A queue of items that enter at the back and leave at the front, several at a time.  What has left is
at every moment a prefix of what was there at first followed by what has entered so far.
-/

namespace AwsLc.Fifo

variable {α : Type*}

inductive Event (α : Type*) where
  | enter (items : List α)
  | leave (items : List α)

def entered (events : List (Event α)) : List α :=
  events.flatMap fun
    | .enter items => items
    | .leave _ => []

def left (events : List (Event α)) : List α :=
  events.flatMap fun
    | .enter _ => []
    | .leave items => items

@[simp] theorem entered_append (events later : List (Event α)) :
    entered (events ++ later) = entered events ++ entered later := List.flatMap_append

@[simp] theorem left_append (events later : List (Event α)) :
    left (events ++ later) = left events ++ left later := List.flatMap_append

/-- The events take the queue from `before` to the last argument. -/
inductive Passes (before : List α) : List (Event α) → List α → Prop where
  | nil : Passes before [] before
  | enter {events : List (Event α)} {queue : List α} (items : List α) :
      Passes before events queue → Passes before (events ++ [.enter items]) (queue ++ items)
  | leave {events : List (Event α)} {queue : List α} (items : List α) :
      Passes before events (items ++ queue) → Passes before (events ++ [.leave items]) queue

theorem Passes.trans {before middle after : List α} {events later : List (Event α)}
    (h : Passes before events middle) (h' : Passes middle later after) :
    Passes before (events ++ later) after := by
  induction h' with
  | nil => rwa [List.append_nil]
  | enter items _ ih =>
    rw [← List.append_assoc]
    exact ih.enter items
  | leave items _ ih =>
    rw [← List.append_assoc]
    exact ih.leave items

theorem Passes.conserves {before after : List α} {events : List (Event α)}
    (h : Passes before events after) : left events ++ after = before ++ entered events := by
  induction h with
  | nil => simp [left, entered]
  | enter items _ ih =>
    rw [left_append, entered_append, ← List.append_assoc before, ← ih]
    simp [left, entered]
  | leave items _ ih =>
    rw [left_append, entered_append, ← List.append_assoc before, ← ih]
    simp [left, entered]

/-- **What has left is a prefix of what has entered**, at every moment. -/
theorem Passes.left_within {before after : List α} {events : List (Event α)}
    (h : Passes before events after) {moment : List (Event α)} (hmoment : moment <+: events) :
    left moment <+: before ++ entered moment := by
  induction h with
  | nil =>
    rw [List.prefix_nil.mp hmoment]
    exact List.nil_prefix
  | enter items hpasses ih =>
    rcases List.prefix_concat_iff.mp hmoment with hall | hearlier
    · rw [hall]
      exact ⟨_, (hpasses.enter items).conserves⟩
    · exact ih hearlier
  | leave items hpasses ih =>
    rcases List.prefix_concat_iff.mp hmoment with hall | hearlier
    · rw [hall]
      exact ⟨_, (hpasses.leave items).conserves⟩
    · exact ih hearlier

end AwsLc.Fifo
