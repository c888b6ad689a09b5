import AwsLc.ByteString

/-!
# Record sequence numbers (`ssl_record_sequence_update`)

The write sequence number is an array of eight bytes that is incremented in
place, from its last byte on.  TLS counts in all eight bytes, DTLS in the last
six.  The update reports failure when the counter wraps, and leaves it at zero.
-/

namespace AwsLc

open AwsLc.BigEndian List

/-- The loop of `ssl_record_sequence_update`, last byte first: a byte that does
    not become zero stops the carry. -/
def incrementFromLast : Bytes → Bool × Bytes
  | [] => (false, [])
  | byte :: rest =>
    if byte + 1 ≠ 0 then (true, (byte + 1) :: rest)
    else ((incrementFromLast rest).1, (byte + 1) :: (incrementFromLast rest).2)

def sslRecordSequenceUpdate (seq : Bytes) : Bool × Bytes :=
  ((incrementFromLast seq.reverse).1, (incrementFromLast seq.reverse).2.reverse)

@[simp] theorem length_incrementFromLast (bytes : Bytes) :
    (incrementFromLast bytes).2.length = bytes.length := by
  induction bytes with
  | nil => rfl
  | cons byte rest ih =>
    unfold incrementFromLast
    split <;> simp [ih]

@[simp] theorem length_sslRecordSequenceUpdate (seq : Bytes) :
    (sslRecordSequenceUpdate seq).2.length = seq.length := by
  simp [sslRecordSequenceUpdate]

/-- The carry either stops, having added one, or runs through and leaves zero. -/
theorem incrementFromLast_spec (bytes : Bytes) : ((incrementFromLast bytes).1 = true ∧
      beNat (incrementFromLast bytes).2.reverse = beNat bytes.reverse + 1) ∨
    ((incrementFromLast bytes).1 = false ∧ beNat (incrementFromLast bytes).2.reverse = 0 ∧
      beNat bytes.reverse + 1 = 256 ^ bytes.length) := by
  induction bytes with
  | nil => exact Or.inr ⟨rfl, rfl, rfl⟩
  | cons byte rest ih =>
    have hbyte := byte.toNat_lt
    have hsum : (byte + 1).toNat = (byte.toNat + 1) % 256 := UInt8.toNat_add byte 1
    unfold incrementFromLast
    by_cases hcarry : byte + 1 = 0
    · have hlast : byte.toNat = 255 := by
        rw [hcarry] at hsum
        have hzero : (0 : UInt8).toNat = 0 := rfl
        omega
      rw [if_neg (not_not.mpr hcarry)]
      simp only [reverse_cons, beNat_concat, length_cons, hlast, hcarry,
        UInt8.toNat_zero, Nat.add_zero]
      rcases ih with ⟨hok, hvalue⟩ | ⟨hwrap, hzero, hfull⟩
      · exact Or.inl ⟨hok, by rw [hvalue]; omega⟩
      · refine Or.inr ⟨hwrap, by rw [hzero], ?_⟩
        rw [Nat.pow_succ, ← hfull]
        omega
    · have hlt : byte.toNat + 1 < 256 := by
        rcases Nat.lt_or_ge (byte.toNat + 1) 256 with hlt | hge
        · exact hlt
        · refine absurd (UInt8.toNat_inj.mp ?_) hcarry
          rw [hsum, show byte.toNat + 1 = 256 by omega]
          rfl
      rw [if_pos hcarry]
      refine Or.inl ⟨rfl, ?_⟩
      rw [reverse_cons, reverse_cons, beNat_concat, beNat_concat, hsum,
        Nat.mod_eq_of_lt hlt]
      omega

/-- **The update adds one**, and reports failure exactly when the counter wraps. -/
theorem sslRecordSequenceUpdate_spec (seq : Bytes) : ((sslRecordSequenceUpdate seq).1 = true ∧
      beNat (sslRecordSequenceUpdate seq).2 = beNat seq + 1) ∨
    ((sslRecordSequenceUpdate seq).1 = false ∧ beNat (sslRecordSequenceUpdate seq).2 = 0 ∧
      beNat seq + 1 = 256 ^ seq.length) := by
  have hspec := incrementFromLast_spec seq.reverse
  rwa [reverse_reverse, length_reverse] at hspec

/-- `write_sequence` and `last_write_sequence`: eight bytes. -/
structure SequenceNumber where
  bytes : Bytes
  length_eq : bytes.length = 8
deriving DecidableEq, Repr

def SequenceNumber.zeroed : SequenceNumber := ⟨replicate 8 0, rfl⟩

variable (seq : SequenceNumber)

/-- `ssl_record_sequence_update(&seq[skip], 8 - skip)`. -/
def SequenceNumber.update (skip : Nat) : Bool × SequenceNumber :=
  ((sslRecordSequenceUpdate (seq.bytes.drop skip)).1,
    ⟨seq.bytes.take skip ++ (sslRecordSequenceUpdate (seq.bytes.drop skip)).2, by
      rw [length_append, length_sslRecordSequenceUpdate, length_take,
        length_drop, seq.length_eq]
      omega⟩)

/-- The number in the last `8 - skip` bytes. -/
def SequenceNumber.number (skip : Nat) : Nat :=
  beNat (seq.bytes.drop skip)

theorem SequenceNumber.number_update {skip : Nat} (hskip : skip ≤ 8) :
    ((seq.update skip).1 = true ∧ (seq.update skip).2.number skip = seq.number skip + 1) ∨
    ((seq.update skip).1 = false ∧ (seq.update skip).2.number skip = 0 ∧
      seq.number skip + 1 = 256 ^ (8 - skip)) := by
  have hdrop : (seq.update skip).2.bytes.drop skip =
      (sslRecordSequenceUpdate (seq.bytes.drop skip)).2 := by
    apply drop_left'
    rw [length_take, seq.length_eq]
    omega
  have hspec := sslRecordSequenceUpdate_spec (seq.bytes.drop skip)
  rw [length_drop, seq.length_eq, ← hdrop] at hspec
  exact hspec

theorem SequenceNumber.number_lt (skip : Nat) : seq.number skip < 256 ^ (8 - skip) := by
  have hlt := beNat_lt (seq.bytes.drop skip)
  rwa [length_drop, seq.length_eq] at hlt

end AwsLc
