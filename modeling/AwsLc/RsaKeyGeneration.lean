import AwsLc.RsaCheck
import Mathlib.Tactic.ReduceModChar

/-!
# Generating RSA keys (`rsa_impl.c`)

`rsa_generate_key_impl` draws two primes, inverts the public exponent, and starts again as long as
the private exponent is too small.  Only the size of the public exponent is checked before.

There is no callback, and greatest common divisors and inverses have their values.
-/

namespace AwsLc

/-- A number that `BN_rand` draws: the bits between the highest and the lowest, and what
    `bn_odd_number_is_obviously_composite` and `BN_primality_test` find. -/
structure PrimeDraw where
  random : Nat
  obviouslyComposite : Bool
  probablePrime : Bool
deriving DecidableEq

/-- `BN_rand` with `BN_RAND_TOP_ONE` and `BN_RAND_BOTTOM_ODD`. -/
def PrimeDraw.out (draw : PrimeDraw) (bits : Nat) : Nat :=
  2 ^ (bits - 1) + 2 * (draw.random % 2 ^ (bits - 2)) + 1

/-- The exponents that `is_public_component_of_rsa_key_good` does not refuse at once. -/
def exponentGood (e : Int) : Bool := e % 2 = 1 && 0 ≤ e && 2 ≤ e.natAbs.size

def bnModInverseConsttime (a : Int) (n : Nat) : Option Nat :=
  if a < 0 ∨ n ≤ a.natAbs then none else bnModInverse a.natAbs n

inductive KeyRound where
  | failed
  | again
  | found (p q d : Nat)
deriving DecidableEq

section

variable (sqrtTwo bits : Nat) (e : Int)

/-- The bound for primes of so many bits, from the constant `kBoringSSLRSASqrtTwo`. -/
def scaledSqrtTwo : Nat :=
  if bits ≤ 2048 then sqrtTwo / 2 ^ (2048 - bits) else (sqrtTwo + 1) * 2 ^ (bits - 2048)

/-- The loop of `generate_prime`: the prime or its failure, if there are enough draws. -/
def generatePrimeLoop (p : Option Nat) (limit : Nat) :
    (tries : Nat) → List PrimeDraw → Option (Option Nat × List PrimeDraw)
  | _, [] => none
  | tries, draw :: draws =>
    let out := draw.out bits
    if p.any (fun p => max (out - p) (p - out) ≤ 2 ^ (bits - 100)) ∨
        out ≤ scaledSqrtTwo sqrtTwo bits then
      generatePrimeLoop p limit tries draws
    else if !draw.obviouslyComposite ∧ (out - 1).Coprime e.natAbs ∧ draw.probablePrime then
      some (some out, draws)
    else if limit ≤ tries + 1 then some (none, draws)
    else generatePrimeLoop p limit (tries + 1) draws

def generatePrime (p : Option Nat) (draws : List PrimeDraw) :
    Option (Option Nat × List PrimeDraw) :=
  if bits < 128 ∨ bits % 64 ≠ 0 ∨ (2 ^ 31 - 1) / 32 ≤ bits then some (none, draws)
  else generatePrimeLoop sqrtTwo bits e p (if e = 3 then bits * 8 else bits * 5) 0 draws

/-- A round of the loop in `rsa_generate_key_impl`, for primes of so many bits. -/
def keyRound (draws : List PrimeDraw) : Option (KeyRound × List PrimeDraw) :=
  (generatePrime sqrtTwo bits e none draws).bind fun
  | (none, draws) => some (.failed, draws)
  | (some p, draws) => (generatePrime sqrtTwo bits e (some p) draws).map fun
    | (none, draws) => (.failed, draws)
    | (some q, draws) =>
      match bnModInverseConsttime e ((max p q - 1).lcm (min p q - 1)) with
      | none => (.failed, draws)
      | some d => (if d ≤ 2 ^ bits then .again else .found (max p q) (min p q) d, draws)

/-- What `rsa_generate_key_impl` does with the primes. -/
def completeKey (other : Unreduced) (bits e p q d : Nat) : Option RsaKey :=
  if (p * q).size = bits then
    (freezePrivateKey other ⟨p * q, some e, some d, some p, some q, some (d % (p - 1)),
      some (d % (q - 1)), none, false, false, false⟩).filter (rsaCheckKey ·)
  else none

/-- `rsa_generate_key_impl`: what it returns in so many rounds, if it does. -/
def rsaGenerateKeyImpl (other : Unreduced) : (rounds : Nat) → List PrimeDraw →
    Option (Option RsaKey)
  | 0, _ => none
  | rounds + 1, draws =>
    if bits / 128 * 128 < 256 ∨ 32 < e.natAbs.size then some none
    else (keyRound sqrtTwo (bits / 128 * 64) e draws).bind fun
      | (.failed, _) => some none
      | (.again, draws) => rsaGenerateKeyImpl other rounds draws
      | (.found p q d, _) => some (completeKey other (bits / 128 * 128) e.natAbs p q d)

end

variable {sqrtTwo bits : Nat} {e : Int} {draws rest : List PrimeDraw}

theorem generatePrimeLoop_even (heven : e % 2 = 0) (hbits : 1 < bits) {p : Option Nat}
    {limit tries : Nat} {result : Option Nat}
    (h : generatePrimeLoop sqrtTwo bits e p limit tries draws = some (result, rest)) :
    result = none := by
  induction draws generalizing tries with
  | nil => cases h
  | cons draw draws ih =>
    have hout : 2 ∣ draw.out bits - 1 := by
      rw [PrimeDraw.out, Nat.add_sub_cancel]
      exact (dvd_pow_self 2 (by omega)).add (Nat.dvd_mul_right 2 _)
    have hcommon : ¬(draw.out bits - 1).Coprime e.natAbs :=
      Nat.not_coprime_of_dvd_of_dvd (by decide) hout (by omega)
    rw [generatePrimeLoop] at h
    split at h
    · exact ih h
    rw [if_neg fun hprime => hcommon hprime.2.1] at h
    split at h
    · cases h
      rfl
    · exact ih h

theorem generatePrime_even (heven : e % 2 = 0) {p result : Option Nat}
    (h : generatePrime sqrtTwo bits e p draws = some (result, rest)) : result = none := by
  unfold generatePrime at h
  split at h
  · cases h
    rfl
  · exact generatePrimeLoop_even heven (by omega) h

theorem bnModInverseConsttime_one {n : Nat} (h : 1 < n) : bnModInverseConsttime 1 n = some 1 := by
  rw [bnModInverseConsttime, if_neg (by simp; omega)]
  simp [bnModInverse, ZMod.val_one'' h.ne']

/-- What a prime of the search has, where `p` is the prime found before. -/
def PrimeInRange (sqrtTwo bits : Nat) (p : Option Nat) (out : Nat) : Prop :=
  scaledSqrtTwo sqrtTwo bits < out ∧ 2 ^ (bits - 1) < out ∧ out < 2 ^ bits ∧
    ∀ other ∈ p, 2 ^ (bits - 100) < max (out - other) (other - out)

theorem PrimeDraw.out_lt (hbits : 1 < bits) (draw : PrimeDraw) : draw.out bits < 2 ^ bits := by
  have hmod := Nat.mod_lt draw.random (Nat.two_pow_pos (bits - 2))
  have hhalf : 2 * 2 ^ (bits - 2) = 2 ^ (bits - 1) :=
    mul_pow_sub_one (Nat.sub_ne_zero_of_lt hbits) 2
  have htop : 2 * 2 ^ (bits - 1) = 2 ^ bits := mul_pow_sub_one (by omega) 2
  unfold PrimeDraw.out
  omega

theorem generatePrimeLoop_inRange (hbits : 1 < bits) {p : Option Nat} {limit tries out : Nat}
    (h : generatePrimeLoop sqrtTwo bits e p limit tries draws = some (some out, rest)) :
    PrimeInRange sqrtTwo bits p out := by
  induction draws generalizing tries with
  | nil => cases h
  | cons draw draws ih =>
    rw [generatePrimeLoop] at h
    split at h
    · exact ih h
    rename_i hrange
    split at h
    · cases h
      simp only [not_or, not_le] at hrange
      refine ⟨hrange.2, by unfold PrimeDraw.out; omega, draw.out_lt hbits, fun other hother => ?_⟩
      cases hother
      simpa only [Option.any_some, decide_eq_true_eq, not_le] using hrange.1
    · split at h
      · cases h
      · exact ih h

theorem generatePrime_inRange {p : Option Nat} {out : Nat}
    (h : generatePrime sqrtTwo bits e p draws = some (some out, rest)) :
    128 ≤ bits ∧ PrimeInRange sqrtTwo bits p out := by
  unfold generatePrime at h
  split at h
  · cases h
  · exact ⟨by omega, generatePrimeLoop_inRange (by omega) h⟩

/-- A round with a bad exponent that finds the primes is not the last one exactly for one. -/
theorem keyRound_bad (hbad : exponentGood e = false) {p q : Nat} {rest' : List PrimeDraw}
    (hfirst : generatePrime sqrtTwo bits e none draws = some (some p, rest))
    (hsecond : generatePrime sqrtTwo bits e (some p) rest = some (some q, rest')) :
    keyRound sqrtTwo bits e draws = some (if e = 1 then .again else .failed, rest') := by
  rw [keyRound, hfirst]
  dsimp only [Option.bind_some]
  rw [hsecond]
  dsimp only [Option.map_some]
  by_cases hone : e = 1
  · subst hone
    obtain ⟨hbits, -, hp, -⟩ := generatePrime_inRange hfirst
    obtain ⟨-, -, hq, -⟩ := generatePrime_inRange hsecond
    have htop : 2 ^ 1 ≤ 2 ^ (bits - 1) := Nat.pow_le_pow_right (by decide) (by omega)
    have hlcm : 1 < (max p q - 1).lcm (min p q - 1) := by
      have hle := Nat.le_of_dvd (Nat.lcm_pos (by omega) (by omega))
        (Nat.dvd_lcm_left (max p q - 1) (min p q - 1))
      omega
    rw [bnModInverseConsttime_one hlcm, if_pos rfl]
    exact congrArg (fun round => some (round, rest')) (if_pos Nat.one_le_two_pow)
  · have hodd : e % 2 ≠ 0 := fun heven => nomatch generatePrime_even heven hfirst
    have hneg : e < 0 := by
      by_contra hpos
      have hsize : 2 ≤ e.natAbs.size := Nat.lt_size.mpr (by omega)
      simp [exponentGood] at hbad
      omega
    rw [bnModInverseConsttime, if_pos (.inl hneg), if_neg hone]

/-- **Refused exponents.**  For an exponent that a check of the key would refuse, the first two
    calls of `generate_prime` are the last ones and the result is zero, unless the exponent is one
    and both calls find a prime. -/
theorem bad_exponent_refused_iff (other : Unreduced) (sqrtTwo bits : Nat) (e : Int)
    (draws rest rest' : List PrimeDraw) (first second : Option Nat) (hbits : 256 ≤ bits)
    (hbad : exponentGood e = false)
    (hfirst : generatePrime sqrtTwo (bits / 128 * 64) e none draws = some (first, rest))
    (hsecond : ∀ p ∈ first,
      generatePrime sqrtTwo (bits / 128 * 64) e (some p) rest = some (second, rest')) :
    rsaGenerateKeyImpl sqrtTwo bits e other 1 draws = some none ↔
      e ≠ 1 ∨ first = none ∨ second = none := by
  have hfailed {rest} (h : keyRound sqrtTwo (bits / 128 * 64) e draws = some (.failed, rest)) :
      rsaGenerateKeyImpl sqrtTwo bits e other 1 draws = some none := by
    rw [rsaGenerateKeyImpl, h]
    exact ite_self _
  cases first with
  | none =>
    have hround : keyRound sqrtTwo (bits / 128 * 64) e draws = some (.failed, rest) := by
      rw [keyRound, hfirst]
      rfl
    simp [hfailed hround]
  | some p =>
    have hsecond := hsecond p rfl
    cases second with
    | none =>
      have hround : keyRound sqrtTwo (bits / 128 * 64) e draws = some (.failed, rest') := by
        rw [keyRound, hfirst]
        dsimp only [Option.bind_some]
        rw [hsecond]
        rfl
      simp [hfailed hround]
    | some q =>
      have hround := keyRound_bad hbad hfirst hsecond
      by_cases hone : e = 1
      · subst hone
        rw [rsaGenerateKeyImpl, hround, if_neg (by simp; omega)]
        simp [rsaGenerateKeyImpl]
      · rw [if_neg hone] at hround
        simp [hfailed hround, hone]

theorem bad_exponent_refused_minus_one : rsaGenerateKeyImpl 0 256 (-1) noneUnreduced 1
    [⟨0, false, true⟩, ⟨2 ^ 125, false, true⟩] = some none :=
  (bad_exponent_refused_iff noneUnreduced 0 256 (-1) _ [⟨2 ^ 125, false, true⟩] []
    (some (2 ^ 127 + 1)) (some (2 ^ 127 + 2 ^ 126 + 1)) (by decide) (by decide)
    (by decide +kernel) (by decide +kernel)).mpr (.inl (by decide))

/-- **An exponent of one.**  `2 ^ 128 - 159` and `2 ^ 128 - 2 ^ 29 - 163` are primes, and after
    them the search goes on. -/
theorem exponent_one_repeated :
    let sqrtTwo := 0xb504f333f9de6484597d89b3754abe9f * 2 ^ 1920
    let draws := [⟨2 ^ 126 - 80, false, true⟩, ⟨2 ^ 126 - 2 ^ 28 - 82, false, true⟩]
    exponentGood 1 = false ∧ (keyRound sqrtTwo (256 / 128 * 64) 1 draws).isSome ∧
      rsaGenerateKeyImpl sqrtTwo 256 1 noneUnreduced 1 draws = none := by
  decide +kernel

/-! ### The keys -/

/-- The bound leaves no product of two primes with a bit less than the sum of their sizes. -/
theorem size_mul_of_scaledSqrtTwo (hsqrt : 2 ^ 4095 ≤ (sqrtTwo + 1) ^ 2) (hbits : bits ≠ 0)
    {p q : Nat} (hp : scaledSqrtTwo sqrtTwo bits < p) (hq : scaledSqrtTwo sqrtTwo bits < q)
    (hplt : p < 2 ^ bits) (hqlt : q < 2 ^ bits) : (p * q).size = 2 * bits := by
  have hpq := Nat.mul_lt_mul'' hplt hqlt
  rw [← Nat.pow_add, ← Nat.two_mul] at hpq
  refine Nat.le_antisymm (Nat.size_le.mpr hpq) ?_
  suffices hlow : 2 ^ (2 * bits - 1) ≤ p * q by
    have := Nat.lt_size.mpr hlow
    omega
  unfold scaledSqrtTwo at hp hq
  by_cases hle : bits ≤ 2048
  · rw [if_pos hle, Nat.div_lt_iff_lt_mul (Nat.two_pow_pos _)] at hp hq
    generalize hk : 2048 - bits = k at hp hq
    refine Nat.le_of_mul_le_mul_right ?_ (Nat.two_pow_pos (k + k))
    have hexp : 2 * bits - 1 + (k + k) = 4095 := by omega
    calc 2 ^ (2 * bits - 1) * 2 ^ (k + k) = 2 ^ 4095 := by rw [← Nat.pow_add, hexp]
      _ ≤ (sqrtTwo + 1) ^ 2 := hsqrt
      _ ≤ (p * 2 ^ k) * (q * 2 ^ k) := by
          rw [Nat.pow_two]
          exact Nat.mul_le_mul hp hq
      _ = p * q * 2 ^ (k + k) := by ring
  · rw [if_neg hle] at hp hq
    generalize hk : bits - 2048 = k at hp hq
    have hexp : 2 * bits - 1 = 4095 + (k + k) := by omega
    calc 2 ^ (2 * bits - 1) = 2 ^ 4095 * 2 ^ (k + k) := by rw [← Nat.pow_add, hexp]
      _ ≤ (sqrtTwo + 1) ^ 2 * 2 ^ (k + k) := Nat.mul_le_mul_right _ hsqrt
      _ = ((sqrtTwo + 1) * 2 ^ k) * ((sqrtTwo + 1) * 2 ^ k) := by ring
      _ ≤ p * q := Nat.mul_le_mul hp.le hq.le

theorem keyRound_found (hsqrt : 2 ^ 4095 ≤ (sqrtTwo + 1) ^ 2) {p q d : Nat}
    (h : keyRound sqrtTwo bits e draws = some (.found p q d, rest)) :
    p < 2 ^ bits ∧ 2 ^ (bits - 100) < p - q ∧ (p * q).size = 2 * bits ∧ 2 ^ bits < d := by
  obtain ⟨⟨first, draws⟩, hfirst, h⟩ := Option.bind_eq_some_iff.mp h
  cases first with
  | none => cases h
  | some first =>
    obtain ⟨⟨second, draws⟩, hsecond, h⟩ := Option.map_eq_some_iff.mp h
    cases second with
    | none => cases h
    | some second =>
      dsimp only at h
      split at h
      · cases h
      split at h <;> cases h
      obtain ⟨hbits, hlow₁, -, hlt₁, -⟩ := generatePrime_inRange hfirst
      obtain ⟨-, hlow₂, -, hlt₂, hapart⟩ := generatePrime_inRange hsecond
      have hapart := hapart first rfl
      refine ⟨max_lt hlt₁ hlt₂, by omega, ?_, by omega⟩
      rw [max_mul_min]
      exact size_mul_of_scaledSqrtTwo hsqrt (by omega) hlow₁ hlow₂ hlt₁ hlt₂

theorem completeKey_eq {other : Unreduced} {p q d e : Nat} {key : RsaKey}
    (h : completeKey other bits e p q d = some key) :
    key.n = p * q ∧ key.p = some p ∧ key.q = some q ∧ key.d = some d ∧ key.e = some e ∧
      d < montgomeryR key.n ∧ rsaCheckKey key = true := by
  unfold completeKey at h
  split at h
  · obtain ⟨hfreeze, hcheck⟩ := Option.filter_eq_some_iff.mp h
    simp only [freezePrivateKey, Option.ite_none_left_eq_some, Option.map_eq_some_iff] at hfreeze
    obtain ⟨hfits, -, iqmp, -, rfl⟩ := hfreeze
    simp only [Option.any_some, Bool.or_eq_true, decide_eq_true_eq, not_or, not_le] at hfits
    exact ⟨rfl, rfl, rfl, rfl, rfl, hfits.2, hcheck⟩
  · cases h

def KeyWorks (key : RsaKey) (e : Nat) : Prop :=
  ∀ (other : Unreduced) (calls : List RsaCall) (call : RsaCall), 1 < call.x →
    call.x < key.n - 1 → (bnRandRange key.n call.random).Coprime key.n →
    ∃ y, (rsaDefaultPrivateTransform other (afterCalls other key calls) call).1 = some y ∧
      y ^ e ≡ call.x [MOD key.n]

theorem completeKey_works {other : Unreduced} {p q d e : Nat} {key : RsaKey}
    (h : completeKey other bits e p q d = some key) (hp : p.Prime) (hq : q.Prime) (hne : p ≠ q) :
    KeyWorks key e := by
  intro other calls call hx hlt hrandom
  obtain ⟨-, hkp, hkq, hd, he, hfits, hcheck⟩ := completeKey_eq h
  obtain ⟨hwidth, e', d', he', hd', -, -, hcorrect⟩ :=
    rsaCheckKey_correct hcheck hkp hkq hp hq hne
  cases he.symm.trans he'
  cases hd.symm.trans hd'
  have hheld := held_afterCalls other key calls
  have hy := hheld.transform_correct (hcorrect hfits) hwidth hx hlt hrandom
  exact ⟨_, hy, ((hheld.transform call).2 e _ he hy).2⟩

def kBoringSSLRSASqrtTwo : Nat :=
  [0x4d7c60a5e633e3e1, 0x5fcf8f7bca3ea33b, 0xc246785e92957023, 0xf9acce41797f2805,
   0xfdfe170fd3b1f780, 0xd24f4a763facb882, 0x18838a2eaff5f3b2, 0xc1fcbddea2f7dc33,
   0xdea06241f7aa81c2, 0xf6a1be3fca221307, 0x332a5e9f7bda1ebf, 0x0104dc01fe32352f,
   0xb8cf341b6f8236c7, 0x4264dabcd528b651, 0xf4d3a02cebc93e0c, 0x81394ab6d8fd0efd,
   0xeaa4a0899040ca4a, 0xf52f120f836e582e, 0xcb2a634331f3c84d, 0xc6d5a8a38bb7e9dc,
   0x460abc722f7c4e33, 0xcab1bc911688458a, 0x53059c6011bc337b, 0xd2202e8742af1f4e,
   0x780487363dfa2768, 0x0f74a85e439c7b4a, 0xa8b1fe6fdc83db39, 0x4afc83043ab8a2c3,
   0xed17ac8583339915, 0x1d6f60ba893ba84c, 0x597d89b3754abe9f, 0xb504f333f9de6484].foldr
    (fun word value => word + 2 ^ 64 * value) 0

/-- **Generated keys.**  The check of the size of the modulus never fails.  Every key that is
    returned, after however many rounds, has factors of half the size that are far apart and a large
    private exponent, and passes `RSA_check_key`.  If the factors are primes, every call of the
    private transform returns an `e`-th root. -/
theorem generated_keys (bits : Nat) (e : Int) (other : Unreduced) :
    (∀ draws rest p q d, keyRound kBoringSSLRSASqrtTwo (bits / 128 * 64) e draws =
      some (.found p q d, rest) → (p * q).size = bits / 128 * 128) ∧
    ∀ rounds draws key,
      rsaGenerateKeyImpl kBoringSSLRSASqrtTwo bits e other rounds draws = some (some key) →
      ∃ p q d, key.p = some p ∧ key.q = some q ∧ key.d = some d ∧ key.n = p * q ∧
        key.n.size = bits / 128 * 128 ∧ p < 2 ^ (bits / 128 * 64) ∧
        2 ^ (bits / 128 * 64 - 100) < p - q ∧ 2 ^ (bits / 128 * 64) < d ∧
        rsaCheckKey key = true ∧ (p.Prime → q.Prime → KeyWorks key e.natAbs) := by
  have hsqrt : 2 ^ 4095 ≤ (kBoringSSLRSASqrtTwo + 1) ^ 2 := by decide +kernel
  generalize kBoringSSLRSASqrtTwo = sqrtTwo at hsqrt ⊢
  have hsize {draws rest p q d}
      (h : keyRound sqrtTwo (bits / 128 * 64) e draws = some (.found p q d, rest)) :
      (p * q).size = bits / 128 * 128 := by
    rw [(keyRound_found hsqrt h).2.2.1]
    omega
  refine ⟨fun _ _ _ _ _ => hsize, fun rounds => ?_⟩
  induction rounds with
  | zero => exact nofun
  | succ rounds ih =>
    intro draws key h
    rw [rsaGenerateKeyImpl] at h
    split at h
    · cases h
    obtain ⟨⟨round, rest⟩, hround, h⟩ := Option.bind_eq_some_iff.mp h
    cases round with
    | failed => cases h
    | again => exact ih rest key h
    | found p q d =>
      have hkey := Option.some.inj h
      obtain ⟨hn, hp, hq, hd, -, -, hcheck⟩ := completeKey_eq hkey
      obtain ⟨hlt, hapart, -, hlarge⟩ := keyRound_found hsqrt hround
      have hne : p ≠ q := by
        rintro rfl
        simp at hapart
      exact ⟨p, q, d, hp, hq, hd, hn, hn ▸ hsize hround, hlt, hapart, hlarge, hcheck,
        fun hpPrime hqPrime => completeKey_works hkey hpPrime hqPrime hne⟩

/-- Two primes of 128 bits. -/
def samplePrimes : Nat × Nat :=
  (340282365653287863235145205935065006223, 340281068846723829756467474807685906499)

/-- The private exponent for 65537. -/
def sampleExponent : Nat :=
  25657663596164967575998066025577356862087751193018399259603679389172369701209

def sampleDraw (prime : Nat) : PrimeDraw := ⟨(prime - 2 ^ 127) / 2, false, true⟩

def plainUnreduced : Unreduced := ⟨fun _ _ => false, fun _ _ => none⟩

theorem bnModInverseSecretPrime_eq {a p inverse : Nat} (ha : a < p) (hp : 2 ≤ p)
    (hinverse : inverse < p) (hpow : (a : ZMod p) ^ (p - 2) = inverse) :
    bnModInverseSecretPrime a p = some inverse := by
  have hmod := (ZMod.natCast_eq_natCast_iff' (a ^ (p - 2)) inverse p).mp
    (by rw [Nat.cast_pow, hpow])
  rw [bnModInverseSecretPrime, if_pos ⟨ha, hp⟩, hmod, Nat.mod_eq_of_lt hinverse]

theorem samplePrimes_inverse : bnModInverseSecretPrime samplePrimes.2 samplePrimes.1 =
    some 126429251831863283828562679122449410130 := by
  have hpow : ((340281068846723829756467474807685906499 : Nat) :
      ZMod 340282365653287863235145205935065006223) ^
      (340282365653287863235145205935065006223 - 2) =
      (126429251831863283828562679122449410130 : Nat) := by
    simp only [Nat.cast_ofNat, Nat.reduceSub]
    reduce_mod_char
  exact bnModInverseSecretPrime_eq (by decide) (by decide) (by decide) hpow

theorem completeKey_sample : ∃ key, completeKey plainUnreduced 256 65537 samplePrimes.1
    samplePrimes.2 sampleExponent = some key := by
  have hcrt : freezeCrt plainUnreduced samplePrimes.1 samplePrimes.2
      (sampleExponent % (samplePrimes.1 - 1)) (sampleExponent % (samplePrimes.2 - 1)) none =
      some 126429251831863283828562679122449410130 := by
    rw [freezeCrt, samplePrimes_inverse]
    decide +kernel
  rw [completeKey, if_pos (by decide +kernel), freezePrivateKey, if_neg (by decide +kernel)]
  dsimp only
  rw [if_neg (by decide +kernel), hcrt]
  exact ⟨_, (Option.filter_eq_some_iff).mpr ⟨rfl, by decide +kernel⟩⟩

/-- A key of 256 bits, found in the first round. -/
theorem generated_keys_sample : ∃ key,
    rsaGenerateKeyImpl kBoringSSLRSASqrtTwo 256 65537 plainUnreduced 1
      [sampleDraw samplePrimes.1, sampleDraw samplePrimes.2] = some (some key) ∧
    key.n.size = 256 ∧ rsaCheckKey key = true := by
  have hround : keyRound kBoringSSLRSASqrtTwo 128 65537
      [sampleDraw samplePrimes.1, sampleDraw samplePrimes.2] =
      some (.found samplePrimes.1 samplePrimes.2 sampleExponent, []) := by
    decide +kernel
  obtain ⟨key, hkey⟩ := completeKey_sample
  have hreturned : rsaGenerateKeyImpl kBoringSSLRSASqrtTwo 256 65537 plainUnreduced 1
      [sampleDraw samplePrimes.1, sampleDraw samplePrimes.2] = some (some key) := by
    rw [rsaGenerateKeyImpl, if_neg (by decide), hround]
    exact congrArg some hkey
  obtain ⟨p, q, d, -, -, -, -, hsize, -, -, -, hcheck, -⟩ :=
    (generated_keys 256 65537 plainUnreduced).2 1 _ key hreturned
  exact ⟨key, hreturned, hsize, hcheck⟩

end AwsLc
