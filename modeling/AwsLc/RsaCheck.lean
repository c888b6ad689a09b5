import AwsLc.RsaTransform

/-!
# Checking RSA keys (`rsa.c`)

`RSA_check_key` finds out which values a key has, and checks the public part and the equations
between the values.  Its comment lists `n > e` among the checks, and says that `d` was bounded
before.
-/

namespace AwsLc

/-- `enum rsa_key_type_for_checking`. -/
inductive RsaKeyType where
  | publicKey
  | privateMin
  | privateKey
  | privateCrt
  | privateStrip
  | invalid
deriving DecidableEq

def determineKeyTypeForChecking (key : RsaKey) : RsaKeyType :=
  match key.e, key.d, key.p, key.q, key.dmp1, key.dmq1, key.iqmp with
  | some _, none, none, none, none, none, none => .publicKey
  | some _, some _, none, none, none, none, none => .privateMin
  | some _, some _, some _, some _, none, none, none => .privateKey
  | some _, some _, some _, some _, some _, some _, some _ => .privateCrt
  | none, some _, none, none, none, none, none => .privateStrip
  | _, _, _, _, _, _, _ => .invalid

def isPublicComponentOfRsaKeyGood (key : RsaKey) : Bool :=
  key.n.size ≤ 16 * 1024 && key.n % 2 = 1 &&
    match key.e with
    | none => key.noPublicExponent
    | some e => e % 2 = 1 && 2 ≤ e.size &&
        if key.largePublicExponent then decide (e < key.n) else decide (e.size ≤ 33)

def checkPrimes (n e d p q : Nat) : Bool :=
  p < n && q < n && p * q = n && d * e % (p - 1) = 1 && d * e % (q - 1) = 1

def checkCrt (d p q dmp1 dmq1 iqmp : Nat) : Bool :=
  d % (p - 1) = dmp1 && d % (q - 1) = dmq1 && iqmp < p && q * iqmp % p = 1

def rsaCheckKey (key : RsaKey) : Bool :=
  determineKeyTypeForChecking key ≠ .invalid && isPublicComponentOfRsaKeyGood key &&
    match key.e, key.d, key.p, key.q with
    | some e, some d, some p, some q => checkPrimes key.n e d p q &&
        match key.dmp1, key.dmq1, key.iqmp with
        | some dmp1, some dmq1, some iqmp => checkCrt d p q dmp1 dmq1 iqmp
        | _, _, _ => true
    | _, _, _, _ => true

theorem modEq_one_of_mod {a m : Nat} (h : a % m = 1) : a ≡ 1 [MOD m] := by
  have hmod := (Nat.mod_modEq a m).symm
  rwa [h] at hmod

theorem rsaCheckKey_values {key : RsaKey} {p q : Nat} (h : rsaCheckKey key = true)
    (hp : key.p = some p) (hq : key.q = some q) :
    isPublicComponentOfRsaKeyGood key = true ∧ ∃ e d, key.e = some e ∧ key.d = some d ∧
      checkPrimes key.n e d p q = true ∧
      ((key.dmp1 = none ∧ key.dmq1 = none ∧ key.iqmp = none) ∨ ∃ dmp1 dmq1 iqmp,
        key.dmp1 = some dmp1 ∧ key.dmq1 = some dmq1 ∧ key.iqmp = some iqmp ∧
          checkCrt d p q dmp1 dmq1 iqmp = true) := by
  simp only [rsaCheckKey, Bool.and_eq_true, decide_eq_true_eq] at h
  obtain ⟨⟨htype, hgood⟩, hprivate⟩ := h
  refine ⟨hgood, ?_⟩
  unfold determineKeyTypeForChecking at htype
  rw [hp, hq] at htype hprivate
  split at htype <;> try contradiction
  · rename_i e d _ _ he hd _ _ hdmp1 hdmq1 hiqmp
    simp only [he, hd, hdmp1, hdmq1, hiqmp, Bool.and_true] at hprivate
    exact ⟨e, d, he, hd, hprivate, Or.inl ⟨hdmp1, hdmq1, hiqmp⟩⟩
  · rename_i e d _ _ dmp1 dmq1 iqmp he hd _ _ hdmp1 hdmq1 hiqmp
    simp only [he, hd, hdmp1, hdmq1, hiqmp, Bool.and_eq_true] at hprivate
    exact ⟨e, d, he, hd, hprivate.1, Or.inr ⟨dmp1, dmq1, iqmp, hdmp1, hdmq1, hiqmp, hprivate.2⟩⟩

/-- An accepted key with distinct primes is correct if `d` fits into the words of `n`. -/
theorem rsaCheckKey_correct {key : RsaKey} {p q : Nat} (h : rsaCheckKey key = true)
    (hp : key.p = some p) (hq : key.q = some q) (hpPrime : p.Prime) (hqPrime : q.Prime)
    (hne : p ≠ q) :
    bnWidth key.n ≤ BN_MONTGOMERY_MAX_WORDS ∧ ∃ e d, key.e = some e ∧ key.d = some d ∧
      key.n = p * q ∧ key.n % 2 = 1 ∧ (d < montgomeryR key.n → key.Correct e d p q) := by
  obtain ⟨hgood, e, d, he, hd, hprimes, hcrt⟩ := rsaCheckKey_values h hp hq
  simp only [isPublicComponentOfRsaKeyGood, Bool.and_eq_true, decide_eq_true_eq] at hgood
  obtain ⟨⟨hsize, hodd⟩, -⟩ := hgood
  simp only [checkPrimes, Bool.and_eq_true, decide_eq_true_eq] at hprimes
  obtain ⟨⟨⟨-, hpq⟩, hdep⟩, hdeq⟩ := hprimes
  refine ⟨by simp only [bnWidth, BN_MONTGOMERY_MAX_WORDS]; omega, e, d, he, hd, hpq.symm, hodd, ?_⟩
  intro hlt
  have hvalues : (∀ v, key.dmp1 = some v → v = d % (p - 1)) ∧
      (∀ v, key.dmq1 = some v → v = d % (q - 1)) ∧
      (∀ v, key.iqmp = some v → v < p ∧ v * q ≡ 1 [MOD p]) ∧
      (key.dmp1.isSome → key.iqmp ≠ none) := by
    rcases hcrt with ⟨hdmp1, hdmq1, hiqmp⟩ | ⟨dmp1, dmq1, iqmp, hdmp1, hdmq1, hiqmp, hcheck⟩
    · simp [hdmp1, hdmq1, hiqmp]
    · simp only [checkCrt, Bool.and_eq_true, decide_eq_true_eq] at hcheck
      obtain ⟨⟨⟨hdp, hdq⟩, hiqmpLt⟩, hinverse⟩ := hcheck
      have hone : iqmp * q ≡ 1 [MOD p] := modEq_one_of_mod ((Nat.mul_comm iqmp q) ▸ hinverse)
      simp [hdmp1, hdmq1, hiqmp, hdp, hdq, hiqmpLt, hone]
  obtain ⟨hdmp1, hdmq1, hiqmp, hthere⟩ := hvalues
  exact {
    n_eq := hpq.symm
    p_prime := hpPrime
    q_prime := hqPrime
    ne := hne
    odd := hodd
    e_eq := he
    d_eq := hd
    d_lt := hlt
    de_p := modEq_one_of_mod hdep
    de_q := modEq_one_of_mod hdeq
    p_eq := fun v hv => Option.some.inj (hv.symm.trans hp)
    q_eq := fun v hv => Option.some.inj (hv.symm.trans hq)
    dmp1_eq := hdmp1
    dmq1_eq := hdmq1
    iqmp_eq := hiqmp
    iqmp_or := fun _ _ hsome _ hnone => absurd hnone (hthere hsome) }

theorem transform_wide_exponent {other : Unreduced} {key : RsaKey} {d : Nat}
    (hd : key.d = some d) (hwide : montgomeryR key.n ≤ d) (call : RsaCall) :
    (rsaDefaultPrivateTransform other ⟨key, []⟩ call).1 = none := by
  have hfreeze : freezePrivateKey other key = none := by
    simp [freezePrivateKey, hd, hwide]
  rw [rsaDefaultPrivateTransform, hd]
  dsimp only
  rw [hfreeze]
  split <;> rfl

/-- **Checked keys.**  For a key with two primes that `RSA_check_key` accepts, the exponent is below
    the modulus and every call of the private transform returns an `e`-th root of its input exactly
    if `e` is below `n` and `d` fits into the words of `n`. -/
theorem rsa_checked_key_works {key : RsaKey} {p q : Nat} (h : rsaCheckKey key = true)
    (hp : key.p = some p) (hq : key.q = some q) (hpPrime : p.Prime) (hqPrime : q.Prime)
    (hne : p ≠ q) : ∃ e d, key.e = some e ∧ key.d = some d ∧
      ((e < key.n ∧ ∀ (other : Unreduced) (calls : List RsaCall) (call : RsaCall),
          1 < call.x → call.x < key.n - 1 → (bnRandRange key.n call.random).Coprime key.n →
          ∃ y, (rsaDefaultPrivateTransform other (afterCalls other key calls) call).1 = some y ∧
            y ^ e ≡ call.x [MOD key.n]) ↔ e < key.n ∧ d < montgomeryR key.n) := by
  obtain ⟨hwidth, e, d, he, hd, hpq, hodd, hcorrect⟩ :=
    rsaCheckKey_correct h hp hq hpPrime hqPrime hne
  refine ⟨e, d, he, hd, and_congr_right fun _ => ⟨fun hworks => ?_, fun hlt => ?_⟩⟩
  · by_contra hwide
    -- two odd primes make a modulus of more than three
    have hthree : 2 < key.n - 1 := by
      have h₁ := hpPrime.two_le
      have h₂ := hqPrime.two_le
      have hfour : 2 * 2 ≤ p * q := Nat.mul_le_mul h₁ h₂
      omega
    obtain ⟨y, hy, -⟩ := hworks noneUnreduced [] ⟨2, 0, 0, false⟩ (by decide) hthree
      (by simp [bnRandRange])
    rw [afterCalls, List.foldl_nil, transform_wide_exponent hd (by omega)] at hy
    cases hy
  · intro other calls call hx hn hrandom
    have hheld := held_afterCalls other key calls
    have hy := hheld.transform_correct (hcorrect hlt) hwidth hx hn hrandom
    exact ⟨_, hy, ((hheld.transform call).2 e _ he hy).2⟩

theorem rsa_checked_key_fifteen :
    rsaCheckKey fifteenKey = true ∧ ∃ y, (rsaDefaultPrivateTransform noneUnreduced
      (afterCalls noneUnreduced fifteenKey []) ⟨2, 0, 0, false⟩).1 = some y ∧
        y ^ 3 ≡ 2 [MOD 15] := by
  refine ⟨by decide, ?_⟩
  obtain ⟨e, d, he, hd, hiff⟩ := @rsa_checked_key_works fifteenKey 3 5 (by decide) rfl rfl
    Nat.prime_three Nat.prime_five (by decide)
  cases he
  cases hd
  exact (hiff.mpr ⟨by decide, fifteenKey_correct.d_lt⟩).2 noneUnreduced [] ⟨2, 0, 0, false⟩
    (by decide) (by decide) (by decide)

/-- **Accepted keys that do not work.**  With `n = 15` the exponent 17 is accepted; and so
    is a private exponent of 65 bits, for which the private transform fails. -/
theorem rsa_checked_key_fails :
    rsaCheckKey { fifteenKey with e := some 17, d := some 1, dmp1 := some 1, dmq1 := some 1 } =
        true ∧ 15 ≤ 17 ∧
      rsaCheckKey { fifteenKey with d := some (2 ^ 64 + 3) } = true ∧
      (rsaDefaultPrivateTransform noneUnreduced ⟨{ fifteenKey with d := some (2 ^ 64 + 3) }, []⟩
        ⟨2, 0, 0, false⟩).1 = none := by
  decide +kernel

end AwsLc
