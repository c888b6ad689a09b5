import Mathlib.Data.List.Basic

/-!
# Byte strings combined by exclusive or

`xorBytes` combines two strings byte by byte, and `xorAt` is the loop that combines a string into
a buffer in place.  `xorAt_eq` is the loop as a single combination with a string of the buffer's
length.
-/

namespace AwsLc

open List

abbrev xorBytes (a b : List UInt8) : List UInt8 := a.zipWith (· ^^^ ·) b

/-- The bytes at `p` and after it are combined with others, as by `*p++ ^= …`. -/
def xorAt (buf : List UInt8) (p : Nat) : List UInt8 → List UInt8
  | [] => buf
  | byte :: bytes => xorAt (buf.modify p (· ^^^ byte)) (p + 1) bytes

theorem xorBytes_xorBytes {a b : List UInt8} (h : b.length ≤ a.length) :
    xorBytes a (xorBytes a b) = b := by
  induction a generalizing b with
  | nil =>
    rw [eq_nil_of_length_eq_zero (Nat.le_zero.mp h)]
    rfl
  | cons x a ih =>
    cases b with
    | nil => rfl
    | cons y b =>
      have hbyte : x ^^^ (x ^^^ y) = y := by
        rw [← UInt8.xor_assoc, UInt8.xor_self, UInt8.zero_xor]
      have hrest := ih (Nat.le_of_succ_le_succ h)
      simp only [xorBytes, zipWith_cons_cons, hbyte]
      exact congrArg (y :: ·) hrest

theorem xorBytes_comm (a b : List UInt8) : xorBytes a b = xorBytes b a :=
  zipWith_comm_of_comm UInt8.xor_comm

theorem length_xorBytes {a b : List UInt8} (h : a.length = b.length) :
    (xorBytes a b).length = a.length := by
  simp [xorBytes, h]

theorem xorBytes_append {a b : List UInt8} (h : a.length = b.length) (c d : List UInt8) :
    xorBytes (a ++ c) (b ++ d) = xorBytes a b ++ xorBytes c d := zipWith_append h

theorem xorBytes_zeros {bytes : List UInt8} {len : Nat} (h : bytes.length = len) :
    xorBytes bytes (List.replicate len 0) = bytes := by
  subst h
  induction bytes with
  | nil => rfl
  | cons byte bytes ih =>
    simp only [length_cons, replicate_succ, zipWith_cons_cons, UInt8.xor_zero]
    exact congrArg (byte :: ·) ih

theorem length_xorAt (buf : List UInt8) (p : Nat) (bytes : List UInt8) :
    (xorAt buf p bytes).length = buf.length := by
  induction bytes generalizing buf p with
  | nil => rfl
  | cons byte bytes ih => rw [xorAt, ih, length_modify]

theorem modify_middle (before after : List UInt8) (old : UInt8) (f : UInt8 → UInt8) :
    (before ++ old :: after).modify before.length f = before ++ f old :: after := by
  induction before with
  | nil => rfl
  | cons byte before ih =>
    rw [cons_append, length_cons, modify_succ_cons, ih]
    rfl

theorem xorAt_middle (before old after bytes : List UInt8) (h : bytes.length = old.length) :
    xorAt (before ++ (old ++ after)) before.length bytes =
      before ++ (xorBytes old bytes ++ after) := by
  induction bytes generalizing before old with
  | nil =>
    rw [eq_nil_of_length_eq_zero h.symm]
    rfl
  | cons byte bytes ih =>
    rcases old with _ | ⟨first, old⟩
    · cases h
    have hnext := ih (before ++ [first ^^^ byte]) old (Nat.succ.inj h)
    rw [length_append, length_singleton, append_assoc, append_assoc] at hnext
    rw [xorAt, cons_append, modify_middle]
    exact hnext

/-- **The loop as a combination.**  Zeros stand where the loop changes nothing. -/
theorem xorAt_eq {buf bytes : List UInt8} {p : Nat} (h : p + bytes.length ≤ buf.length) :
    xorAt buf p bytes = xorBytes buf (List.replicate p 0 ++
        (bytes ++ List.replicate (buf.length - p - bytes.length) 0)) := by
  have hbefore : (buf.take p).length = p := by
    rw [length_take]
    omega
  have hold : ((buf.drop p).take bytes.length).length = bytes.length := by
    rw [length_take, length_drop]
    omega
  have hafter : ((buf.drop p).drop bytes.length).length = buf.length - p - bytes.length := by
    rw [length_drop, length_drop]
  have hsplit : buf = buf.take p ++
      ((buf.drop p).take bytes.length ++ (buf.drop p).drop bytes.length) := by
    rw [take_append_drop, take_append_drop]
  generalize buf.take p = before at hbefore hsplit
  generalize (buf.drop p).take bytes.length = old at hold hsplit
  generalize (buf.drop p).drop bytes.length = after at hafter hsplit
  have hloop := xorAt_middle before old after bytes hold.symm
  have hzeros : before.length = (List.replicate p (0 : UInt8)).length := by
    rw [hbefore, length_replicate]
  rw [← hafter]
  subst hsplit
  rw [hbefore] at hloop
  rw [hloop, xorBytes_append hzeros, xorBytes_append hold, xorBytes_zeros hbefore,
    xorBytes_zeros rfl]

theorem xorAt_zero {buf bytes : List UInt8} (h : bytes.length = buf.length) :
    xorAt buf 0 bytes = xorBytes buf bytes := by
  rw [xorAt_eq (by omega), h, Nat.sub_zero, Nat.sub_self, replicate_zero, append_nil,
    nil_append]

end AwsLc
