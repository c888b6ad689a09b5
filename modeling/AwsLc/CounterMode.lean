import AwsLc.BigEndian
import AwsLc.Blocks
import AwsLc.XorBytes

/-!
# Counter blocks with a counter of 32 bits

A counter block has sixteen bytes, and its last four are a big-endian counter that wraps around
while the first twelve stay.  `keystream` is the concatenation of the encrypted counter blocks.
-/

namespace AwsLc.CounterMode

open BigEndian List

/-- The counter block `n` blocks later. -/
def add (counter : List UInt8) (n : Nat) : List UInt8 :=
  counter.take 12 ++ beBytes 4 (beNat (counter.drop 12) + n)

def keystream (encrypt : List UInt8 → List UInt8) (counter : List UInt8) (blocks : Nat) :
    List UInt8 :=
  (List.range blocks).flatMap fun i => encrypt (add counter i)

variable {counter : List UInt8}

theorem length_add (hcounter : counter.length = 16) (n : Nat) : (add counter n).length = 16 := by
  rw [add, length_append, length_take, length_beBytes, hcounter]
  rfl

theorem add_zero (hcounter : counter.length = 16) : add counter 0 = counter := by
  have hlow : (counter.drop 12).length = 4 := by
    rw [length_drop, hcounter]
  have hback := beBytes_beNat (counter.drop 12)
  rw [hlow] at hback
  rw [add, Nat.add_zero, hback, take_append_drop]

theorem add_add (hcounter : counter.length = 16) (m n : Nat) :
    add (add counter m) n = add counter (m + n) := by
  have hhigh : (counter.take 12).length = 12 := by
    rw [length_take, hcounter]
    rfl
  have hlow : (beNat (beBytes 4 (beNat (counter.drop 12) + m)) + n) % 256 ^ 4 =
      (beNat (counter.drop 12) + (m + n)) % 256 ^ 4 := by
    rw [beNat_beBytes, Nat.mod_add_mod, Nat.add_assoc]
  rw [add, add, add, take_left' hhigh, drop_left' hhigh, ← beBytes_mod 4 (_ + n), hlow,
    beBytes_mod]

variable {encrypt : List UInt8 → List UInt8}

theorem length_keystream (hencrypt : ∀ block, block.length = 16 → (encrypt block).length = 16)
    (hcounter : counter.length = 16) (blocks : Nat) :
    (keystream encrypt counter blocks).length = 16 * blocks := by
  induction blocks with
  | zero => rfl
  | succ n ih =>
    unfold keystream at ih ⊢
    rw [range_succ, flatMap_append, length_append, ih]
    simp only [flatMap_cons, flatMap_nil, append_nil,
      hencrypt _ (length_add hcounter n)]
    omega

/-- **The keystream in pieces.** -/
theorem keystream_add (hcounter : counter.length = 16) (m n : Nat) :
    keystream encrypt counter (m + n) =
      keystream encrypt counter m ++ keystream encrypt (add counter m) n := by
  unfold keystream
  rw [range_add, flatMap_append, flatMap_map]
  simp [add_add hcounter]

theorem keystream_one (hcounter : counter.length = 16) :
    keystream encrypt counter 1 = encrypt counter := by
  change encrypt (add counter 0) ++ [] = _
  rw [add_zero hcounter, append_nil]

end AwsLc.CounterMode
