import Mathlib.Data.Nat.Size
import Mathlib.FieldTheory.Finite.Basic

/-!
# The RSA private transform (`rsa_impl.c`, `blinding.c`)

`rsa_default_private_transform` raises its input to the private exponent, through the Chinese
remainder theorem if the key has the values for it, under a blinding factor `r ^ e` that is cached,
squared at every use and replaced at every 32nd.  The `e`-th power of the result is compared with
the input before it is unblinded.

Numbers in Montgomery form have the factor `montgomeryR` in `ZMod n`, and what the fixed-width
routines make of arguments that are not reduced is a parameter (`Unreduced`).
-/

namespace AwsLc

open Nat

/-! ### Exponents modulo two primes -/

theorem pow_modEq_of_prime {p i j : Nat} (hp : p.Prime) (hi : 0 < i) (hj : 0 < j)
    (h : i ≡ j [MOD p - 1]) (a : Nat) : a ^ i ≡ a ^ j [MOD p] := by
  have := Fact.mk hp
  rw [← ZMod.natCast_eq_natCast_iff]
  push_cast
  by_cases ha : (a : ZMod p) = 0
  · rw [ha, zero_pow hi.ne', zero_pow hj.ne']
  · have hone := ZMod.pow_card_sub_one_eq_one ha
    rw [← div_add_mod i (p - 1), ← div_add_mod j (p - 1), h, pow_add, pow_add, pow_mul,
      pow_mul, hone, one_pow, one_pow]

/-- Exponents that agree modulo `p - 1` and `q - 1` give the same powers modulo `p * q`. -/
theorem pow_modEq_of_primes {p q i j : Nat} (hp : p.Prime) (hq : q.Prime) (hne : p ≠ q)
    (hi : 0 < i) (hj : 0 < j) (hip : i ≡ j [MOD p - 1]) (hiq : i ≡ j [MOD q - 1]) (a : Nat) :
    a ^ i ≡ a ^ j [MOD p * q] :=
  (modEq_and_modEq_iff_modEq_mul ((coprime_primes hp hq).mpr hne)).mp
    ⟨pow_modEq_of_prime hp hi hj hip a, pow_modEq_of_prime hq hi hj hiq a⟩

/-! ### Montgomery form -/

def BN_MONTGOMERY_MAX_WORDS : Nat := 8 * 1024 / 8

def bnWidth (n : Nat) : Nat := (n.size + 63) / 64

def montgomeryR (n : Nat) : Nat := 2 ^ (64 * bnWidth n)

def bnMontCtxNew (n : Nat) : Bool := n % 2 = 1 && bnWidth n ≤ BN_MONTGOMERY_MAX_WORDS

def bnModMulMontgomery (n a b : Nat) : Nat := (a * b * (montgomeryR n : ZMod n)⁻¹ : ZMod n).val

def bnFromMontgomery (n a : Nat) : Nat := (a * (montgomeryR n : ZMod n)⁻¹ : ZMod n).val

/-- `BN_to_montgomery`: the product with `RR`. -/
def bnToMontgomery (n a : Nat) : Nat := bnModMulMontgomery n a (montgomeryR n ^ 2 % n)

def bnModInverse (a n : Nat) : Option Nat :=
  if a.Coprime n then some (a : ZMod n)⁻¹.val else none

theorem lt_montgomeryR (n : Nat) : n < montgomeryR n :=
  Nat.lt_of_lt_of_le (Nat.lt_size_self n)
    (Nat.pow_le_pow_right (by decide) (by unfold bnWidth; omega))

section Odd

variable {n : Nat} (hodd : n % 2 = 1)
include hodd

theorem neZero_of_odd : NeZero n := ⟨by omega⟩

theorem montgomeryR_mul_inv : (montgomeryR n : ZMod n) * (montgomeryR n : ZMod n)⁻¹ = 1 := by
  apply ZMod.coe_mul_inv_eq_one
  exact Nat.Coprime.pow_left _ (coprime_two_left.mpr (odd_iff.mpr hodd))

theorem cast_mulMontgomery (a b : Nat) :
    (bnModMulMontgomery n a b : ZMod n) = a * b * (montgomeryR n : ZMod n)⁻¹ := by
  have := neZero_of_odd hodd
  rw [bnModMulMontgomery, ZMod.natCast_zmod_val]

theorem cast_fromMontgomery (a : Nat) :
    (bnFromMontgomery n a : ZMod n) = a * (montgomeryR n : ZMod n)⁻¹ := by
  have := neZero_of_odd hodd
  rw [bnFromMontgomery, ZMod.natCast_zmod_val]

theorem cast_toMontgomery (a : Nat) : (bnToMontgomery n a : ZMod n) = a * montgomeryR n := by
  have hinv := montgomeryR_mul_inv hodd
  rw [bnToMontgomery, cast_mulMontgomery hodd, ZMod.natCast_mod]
  push_cast
  linear_combination (a * montgomeryR n : ZMod n) * hinv

theorem mulMontgomery_lt (a b : Nat) : bnModMulMontgomery n a b < n := by
  have := neZero_of_odd hodd
  exact ZMod.val_lt _

/-- A product by `BN_mod_mul_montgomery` is the number that its residue class names. -/
theorem mulMontgomery_eq_mod {a b c : Nat}
    (h : (a * b * (montgomeryR n : ZMod n)⁻¹ : ZMod n) = c) : bnModMulMontgomery n a b = c % n := by
  rw [← mod_eq_of_lt (mulMontgomery_lt hodd a b)]
  exact (ZMod.natCast_eq_natCast_iff' _ _ _).mp ((cast_mulMontgomery hodd a b).trans h)

/-- Converting back and forth reduces, as `mod_montgomery` does. -/
theorem toMontgomery_fromMontgomery (a : Nat) :
    bnToMontgomery n (bnFromMontgomery n a) = a % n := by
  have hinv := montgomeryR_mul_inv hodd
  apply mulMontgomery_eq_mod hodd
  rw [cast_fromMontgomery hodd, ZMod.natCast_mod]
  push_cast
  linear_combination
    (a * (1 + (montgomeryR n : ZMod n) * (montgomeryR n : ZMod n)⁻¹) : ZMod n) * hinv

theorem mulMontgomery_toMontgomery (a b : Nat) :
    bnModMulMontgomery n a (bnToMontgomery n b) = a * b % n := by
  have hinv := montgomeryR_mul_inv hodd
  apply mulMontgomery_eq_mod hodd
  rw [cast_toMontgomery hodd]
  push_cast
  linear_combination (a * b : ZMod n) * hinv

end Odd

/-! ### Keys -/

/-- An `RSA` object.  The modulus is there; without it every function here fails. -/
structure RsaKey where
  n : Nat
  e : Option Nat
  d : Option Nat
  p : Option Nat
  q : Option Nat
  dmp1 : Option Nat
  dmq1 : Option Nat
  iqmp : Option Nat
  noBlinding : Bool
  noPublicExponent : Bool
  largePublicExponent : Bool
deriving DecidableEq

/-- What the fixed-width routines make of arguments that are not reduced. -/
structure Unreduced where
  toMontgomery : Nat → Nat → Bool
  modExp : RsaKey → Nat → Option Nat

/-- `bn_mod_inverse_secret_prime`; the exponentiation refuses a base that is not reduced. -/
def bnModInverseSecretPrime (a p : Nat) : Option Nat :=
  if a < p ∧ 2 ≤ p then some (a ^ (p - 2) % p) else none

/-- The part of `freeze_private_key` for the values of the Chinese remainder theorem:
    it computes `iqmp` if it is missing. -/
def freezeCrt (other : Unreduced) (p q dmp1 dmq1 : Nat) (iqmp : Option Nat) : Option Nat := do
  let iqmp ← iqmp <|> bnModInverseSecretPrime q p
  if dmp1 < montgomeryR p ∧ dmq1 < montgomeryR q ∧ (iqmp < p ∨ other.toMontgomery p iqmp) then
    some iqmp
  else none

def freezePrivateKey (other : Unreduced) (key : RsaKey) : Option RsaKey :=
  if !bnMontCtxNew key.n || key.d.any (montgomeryR key.n ≤ ·) then none
  else
    match key.e, key.p, key.q with
    | some _, some p, some q =>
      if !bnMontCtxNew p || !bnMontCtxNew q then none
      else
        match key.dmp1, key.dmq1 with
        | some dmp1, some dmq1 =>
          (freezeCrt other p q dmp1 dmq1 key.iqmp).map ({ key with iqmp := some · })
        | _, _ => some key
    | _, _, _ => some key

def BN_BLINDING_COUNTER : Nat := 32

/-- `BN_BLINDING`; the factors are in Montgomery form. -/
structure BnBlinding where
  A : Nat
  Ai : Nat
  counter : Nat
deriving DecidableEq

def bnBlindingNew : BnBlinding := ⟨0, 0, BN_BLINDING_COUNTER - 1⟩

def bnBlindingInvalidate (b : BnBlinding) : BnBlinding :=
  { b with counter := BN_BLINDING_COUNTER - 1 }

/-- `BN_rand_range_ex` from one: any number below `n` but zero. -/
def bnRandRange (n random : Nat) : Nat := 1 + random % (n - 1)

def bnBlindingCreateParam (n e random : Nat) : Option (Nat × Nat) := do
  let a := bnRandRange n random
  let ai ← bnModInverse (bnFromMontgomery n a) n
  return (bnToMontgomery n (a ^ e % n), ai)

/-- `bn_blinding_update`.  After a failure the factors are replaced before they are used again. -/
def bnBlindingUpdate (b : BnBlinding) (n e random : Nat) : Bool × BnBlinding :=
  if b.counter + 1 = BN_BLINDING_COUNTER then
    match bnBlindingCreateParam n e random with
    | some (a, ai) => (true, ⟨a, ai, 0⟩)
    | none => (false, bnBlindingInvalidate b)
  else
    (true, ⟨bnModMulMontgomery n b.A b.A, bnModMulMontgomery n b.Ai b.Ai, b.counter + 1⟩)

structure RsaState where
  key : RsaKey
  blindings : List BnBlinding

def MAX_BLINDINGS_PER_RSA : Nat := 1024

/-- The input as a number, what the random number generator returns, the first place of the cache
    that no other thread uses, and whether the process has forked. -/
structure RsaCall where
  x : Nat
  random : Nat
  index : Nat
  forked : Bool

/-- `rsa_blinding_get`: the cache, and the blinding at the place or a new one. -/
def rsaBlindingGet (blindings : List BnBlinding) (call : RsaCall) : List BnBlinding × BnBlinding :=
  let blindings := if call.forked then blindings.map bnBlindingInvalidate else blindings
  (blindings, (blindings[call.index]?).getD bnBlindingNew)

/-- What `rsa_blinding_release` leaves: the blinding at its place, in a cache that was
    extended if there was none and it may grow. -/
def rsaBlindingRelease (blindings : List BnBlinding) (call : RsaCall) (b : BnBlinding) :
    List BnBlinding :=
  if call.index < blindings.length then blindings.set call.index b
  else if blindings.length ≥ MAX_BLINDINGS_PER_RSA then blindings
  else
    let more := min (max 1 (2 * blindings.length)) MAX_BLINDINGS_PER_RSA - blindings.length
    blindings ++ b :: List.replicate (more - 1) bnBlindingNew

/-! ### The transform -/

/-- The result modulo `p` and modulo `q` put together as `mod_exp` does. -/
def crtCombine (p q dmp1 dmq1 iqmp I : Nat) : Nat :=
  let m1 := bnToMontgomery q (bnFromMontgomery q I) ^ dmq1 % q
  let r0 := bnToMontgomery p (bnFromMontgomery p I) ^ dmp1 % p
  let r1 := bnToMontgomery p (bnFromMontgomery p m1)
  let r0 := (r0 + p - r1) % p
  bnModMulMontgomery p r0 (bnToMontgomery p iqmp) * q + m1

/-- `mod_exp`; Montgomery reduction needs its argument below `p * R`. -/
def modExp (other : Unreduced) (key : RsaKey) (p q dmp1 dmq1 iqmp I : Nat) : Option Nat :=
  if I < p * montgomeryR p ∧ I < q * montgomeryR q ∧ iqmp < p then
    let r0 := crtCombine p q dmp1 dmq1 iqmp I
    if r0 < montgomeryR key.n then some r0 else none
  else other.modExp key I

def privateExp (other : Unreduced) (key : RsaKey) (d f : Nat) : Option Nat :=
  match key.e, key.p, key.q, key.dmp1, key.dmq1, key.iqmp with
  | some _, some p, some q, some dmp1, some dmq1, some iqmp =>
    if q < montgomeryR p ∧ p < montgomeryR q then modExp other key p q dmp1 dmq1 iqmp f
    else if f < key.n then some (f ^ d % key.n) else none
  | _, _, _, _, _, _ => if f < key.n then some (f ^ d % key.n) else none

/-- The exponentiation and the comparison of its `e`-th power with the input. -/
def checkedExp (other : Unreduced) (key : RsaKey) (d f : Nat) : Option Nat := do
  let result ← privateExp other key d f
  match key.e with
  | none => some result
  | some e => if result < key.n ∧ result ^ e % key.n = f then some result else none

/-- The part of `rsa_default_private_transform` between blinding and unblinding. -/
def blindedExp (other : Unreduced) (key : RsaKey) (d e x random : Nat) (b : BnBlinding) :
    Option Nat × BnBlinding :=
  match bnBlindingUpdate b key.n e random with
  | (false, b) => (none, b)
  | (true, b) =>
    ((checkedExp other key d (bnModMulMontgomery key.n x b.A)).map
      (bnModMulMontgomery key.n · b.Ai), b)

def rsaDefaultPrivateTransform (other : Unreduced) (state : RsaState) (call : RsaCall) :
    Option Nat × RsaState :=
  match state.key.d with
  | none => (none, state)
  | some d =>
    if call.x ≥ state.key.n - 1 ∨ call.x = 0 ∨ call.x = 1 then (none, state)
    else
      match freezePrivateKey other state.key with
      | none => (none, state)
      | some key =>
        if key.noBlinding || key.noPublicExponent then
          (checkedExp other key d call.x, { state with key })
        else
          match key.e with
          | none => (none, { state with key })
          | some e =>
            let (blindings, b) := rsaBlindingGet state.blindings call
            let (result, b) := blindedExp other key d e call.x call.random b
            (result, ⟨key, rsaBlindingRelease blindings call b⟩)

def afterCalls (other : Unreduced) (key : RsaKey) (calls : List RsaCall) : RsaState :=
  calls.foldl (fun state call => (rsaDefaultPrivateTransform other state call).2) ⟨key, []⟩

/-- The factors of a blinding belong together: one is the `e`-th power of the other's inverse. -/
def Paired (n e : Nat) (b : BnBlinding) : Prop :=
  (b.A * (montgomeryR n : ZMod n)⁻¹) * (b.Ai * (montgomeryR n : ZMod n)⁻¹) ^ e = 1

/-- A cached blinding: its factors belong together, or will be replaced. -/
def Ready (n e : Nat) (b : BnBlinding) : Prop := b.counter + 1 = BN_BLINDING_COUNTER ∨ Paired n e b

theorem createParam_paired {n e random a ai : Nat} (hodd : n % 2 = 1)
    (h : bnBlindingCreateParam n e random = some (a, ai)) : Paired n e ⟨a, ai, 0⟩ := by
  have := neZero_of_odd hodd
  obtain ⟨inverse, hinverse, h⟩ := Option.bind_eq_some_iff.mp h
  cases h
  unfold bnModInverse at hinverse
  split at hinverse
  · rename_i hcoprime
    cases hinverse
    have hone := ZMod.coe_mul_inv_eq_one _ hcoprime
    have hinv := montgomeryR_mul_inv hodd
    rw [cast_fromMontgomery hodd] at hone
    rw [Paired, cast_toMontgomery hodd, ZMod.natCast_mod, ZMod.natCast_zmod_val,
      cast_fromMontgomery hodd, mul_assoc _ (montgomeryR n : ZMod n), hinv, mul_one, Nat.cast_pow,
      ← mul_pow]
    rw [show (bnRandRange n random : ZMod n) * ((bnRandRange n random *
      (montgomeryR n : ZMod n)⁻¹)⁻¹ * (montgomeryR n : ZMod n)⁻¹) = 1 by
        linear_combination hone, one_pow]
  · cases hinverse

theorem update_ready {n e random : Nat} (hodd : n % 2 = 1) {b b' : BnBlinding} {ok : Bool}
    (hb : Ready n e b) (h : bnBlindingUpdate b n e random = (ok, b')) :
    Ready n e b' ∧ (ok = true → Paired n e b') := by
  unfold bnBlindingUpdate at h
  split at h
  · split at h
    · rename_i a ai hcreate
      cases h
      have hpaired := createParam_paired hodd hcreate
      exact ⟨Or.inr hpaired, fun _ => hpaired⟩
    · cases h
      exact ⟨Or.inl rfl, nofun⟩
  · rename_i hcounter
    cases h
    have hpaired : Paired n e ⟨bnModMulMontgomery n b.A b.A, bnModMulMontgomery n b.Ai b.Ai,
        b.counter + 1⟩ := by
      have hold : Paired n e b := hb.resolve_left hcounter
      unfold Paired at hold ⊢
      dsimp only
      rw [cast_mulMontgomery hodd, cast_mulMontgomery hodd]
      calc _ = ((b.A * (montgomeryR n : ZMod n)⁻¹) *
              (b.Ai * (montgomeryR n : ZMod n)⁻¹) ^ e) ^ 2 := by ring
        _ = 1 := by rw [hold, one_pow]
    exact ⟨Or.inr hpaired, fun _ => hpaired⟩

variable {other : Unreduced}

theorem checkedExp_sound {key : RsaKey} {d e f r : Nat} (he : key.e = some e)
    (h : checkedExp other key d f = some r) : r < key.n ∧ r ^ e % key.n = f := by
  obtain ⟨result, -, h⟩ := Option.bind_eq_some_iff.mp h
  rw [he] at h
  dsimp only at h
  split at h
  · rename_i hchecked
    cases h
    exact hchecked
  · cases h

/-- Whatever the blinding factors, the comparison before unblinding is enough. -/
theorem blindedExp_sound {key : RsaKey} {d e x random y : Nat} {b b' : BnBlinding}
    (hodd : key.n % 2 = 1) (he : key.e = some e) (hb : Ready key.n e b)
    (h : blindedExp other key d e x random b = (some y, b')) :
    y < key.n ∧ y ^ e ≡ x [MOD key.n] := by
  unfold blindedExp at h
  split at h
  · cases h
  rename_i b₁ hupdate
  have hpaired := (update_ready hodd hb hupdate).2 rfl
  simp only [Prod.mk.injEq, Option.map_eq_some_iff] at h
  obtain ⟨⟨result, hresult, rfl⟩, -⟩ := h
  obtain ⟨-, hpower⟩ := checkedExp_sound he hresult
  refine ⟨mulMontgomery_lt hodd _ _, ?_⟩
  have hcast : ((result ^ e % key.n : Nat) : ZMod key.n) = _ :=
    (congrArg Nat.cast hpower).trans (cast_mulMontgomery hodd x b₁.A)
  rw [ZMod.natCast_mod, Nat.cast_pow] at hcast
  rw [← ZMod.natCast_eq_natCast_iff, Nat.cast_pow, cast_mulMontgomery hodd]
  unfold Paired at hpaired
  set r := (montgomeryR key.n : ZMod key.n)⁻¹
  calc (result * b₁.Ai * r) ^ e = result ^ e * (b₁.Ai * r) ^ e := by ring
    _ = x * ((b₁.A * r) * (b₁.Ai * r) ^ e) := by rw [hcast]; ring
    _ = x := by rw [hpaired, mul_one]

/-- What freezing a key leaves of it: everything but `iqmp`. -/
theorem freeze_eq {key key' : RsaKey} (h : freezePrivateKey other key = some key') :
    bnMontCtxNew key.n = true ∧ key' = { key with iqmp := key'.iqmp } ∧
      freezePrivateKey other key' = some key' := by
  unfold freezePrivateKey at h
  split at h
  · cases h
  rename_i hn
  have hn' : bnMontCtxNew key.n = true := by
    simp only [Bool.or_eq_true, Bool.not_eq_true', not_or, Bool.not_eq_false] at hn
    exact hn.1
  refine ⟨hn', ?_⟩
  split at h
  · rename_i e p q he hp hq
    split at h
    · cases h
    rename_i hpq
    split at h
    · rename_i dmp1 dmq1 hdmp1 hdmq1
      obtain ⟨iqmp, hiqmp, rfl⟩ := Option.map_eq_some_iff.mp h
      obtain ⟨found, hfound, hfits⟩ := Option.bind_eq_some_iff.mp hiqmp
      split at hfits
      · rename_i hbounds
        cases hfits
        refine ⟨rfl, ?_⟩
        simp only [freezePrivateKey, he, hp, hq, hdmp1, hdmq1, if_neg hn, if_neg hpq, freezeCrt]
        simp [hbounds]
      · cases hfits
    · rename_i hcrt
      cases h
      refine ⟨rfl, ?_⟩
      simp only [freezePrivateKey, he, hp, hq, if_neg hn, if_neg hpq]
  · cases h
    refine ⟨rfl, ?_⟩
    simp only [freezePrivateKey, if_neg hn]

/-- The invariant of calls: the key is as it was or frozen, the cached blindings can be used. -/
structure Held (other : Unreduced) (key : RsaKey) (state : RsaState) : Prop where
  key_eq : state.key = key ∨ freezePrivateKey other key = some state.key
  ready : ∀ e, key.e = some e → ∀ b ∈ state.blindings, Ready key.n e b

theorem get_ready {n e : Nat} {blindings : List BnBlinding} (call : RsaCall)
    (h : ∀ b ∈ blindings, Ready n e b) : (∀ b ∈ (rsaBlindingGet blindings call).1, Ready n e b) ∧
      Ready n e (rsaBlindingGet blindings call).2 := by
  have hlist : ∀ b ∈ (rsaBlindingGet blindings call).1, Ready n e b := by
    intro b hb
    unfold rsaBlindingGet at hb
    dsimp only at hb
    split at hb
    · obtain ⟨old, -, rfl⟩ := List.mem_map.mp hb
      exact Or.inl rfl
    · exact h b hb
  refine ⟨hlist, ?_⟩
  unfold rsaBlindingGet at hlist ⊢
  dsimp only at hlist ⊢
  generalize (if call.forked = true then blindings.map bnBlindingInvalidate else blindings) =
    cached at hlist ⊢
  cases hfound : cached[call.index]? with
  | none => exact Or.inl rfl
  | some b => exact hlist b (List.mem_of_getElem? hfound)

theorem release_ready {n e : Nat} {blindings : List BnBlinding} (call : RsaCall) {b : BnBlinding}
    (h : ∀ b ∈ blindings, Ready n e b) (hb : Ready n e b) :
    ∀ b' ∈ rsaBlindingRelease blindings call b, Ready n e b' := by
  intro b' hb'
  unfold rsaBlindingRelease at hb'
  split at hb'
  · rcases List.mem_or_eq_of_mem_set hb' with hold | rfl
    · exact h b' hold
    · exact hb
  split at hb'
  · exact h b' hb'
  · simp only [List.mem_append, List.mem_cons, List.mem_replicate] at hb'
    rcases hb' with hold | rfl | ⟨-, rfl⟩
    · exact h b' hold
    · exact hb
    · exact Or.inl rfl

theorem blindedExp_ready {key : RsaKey} {d e x random : Nat} {b : BnBlinding} (hodd : key.n % 2 = 1)
    (hb : Ready key.n e b) : Ready key.n e (blindedExp other key d e x random b).2 := by
  unfold blindedExp
  split <;> exact (update_ready hodd hb (by assumption)).1

variable {state : RsaState}

theorem Held.freeze {key : RsaKey} (h : Held other key state) :
    freezePrivateKey other state.key = freezePrivateKey other key := by
  rcases h.key_eq with heq | hfrozen
  · rw [heq]
  · rw [hfrozen]
    exact (freeze_eq hfrozen).2.2

theorem Held.same {key : RsaKey} (h : Held other key state) :
    state.key = { key with iqmp := state.key.iqmp } := by
  rcases h.key_eq with heq | hfrozen
  · rw [heq]
  · exact (freeze_eq hfrozen).2.1

theorem odd_of_montCtxNew {n : Nat} (h : bnMontCtxNew n = true) : n % 2 = 1 := by
  simp only [bnMontCtxNew, Bool.and_eq_true, decide_eq_true_eq] at h
  exact h.1

/-- **One call** keeps the invariant, and what it returns was checked. -/
theorem Held.transform {key : RsaKey} (h : Held other key state) (call : RsaCall) :
    Held other key (rsaDefaultPrivateTransform other state call).2 ∧
      ∀ e y, key.e = some e → (rsaDefaultPrivateTransform other state call).1 = some y →
        y < key.n ∧ y ^ e ≡ call.x [MOD key.n] := by
  unfold rsaDefaultPrivateTransform
  split
  · exact ⟨h, nofun⟩
  rename_i d hd
  split
  · exact ⟨h, nofun⟩
  rw [h.freeze]
  split
  · exact ⟨h, nofun⟩
  rename_i key' hfreeze
  obtain ⟨hnew, hsame, -⟩ := freeze_eq hfreeze
  have hodd := odd_of_montCtxNew hnew
  have hn : key'.n = key.n := by rw [hsame]
  have he : key'.e = key.e := by rw [hsame]
  have hheld : Held other key { state with key := key' } := ⟨Or.inr hfreeze, h.ready⟩
  split
  · refine ⟨hheld, fun e y hkey hy => ?_⟩
    obtain ⟨hlt, hpower⟩ := checkedExp_sound (he.trans hkey) hy
    rw [hn] at hlt hpower
    refine ⟨hlt, ?_⟩
    rw [← hpower]
    exact (mod_modEq _ _).symm
  split
  · exact ⟨hheld, nofun⟩
  rename_i e hkey
  have hkey' : key.e = some e := he.symm.trans hkey
  obtain ⟨hlist, hgot⟩ := get_ready call (h.ready e hkey')
  rw [← hn] at hodd hgot
  have hused := @blindedExp_ready other key' d e call.x call.random _ hodd hgot
  constructor
  · refine ⟨Or.inr hfreeze, fun e' he' => ?_⟩
    cases hkey'.symm.trans he'
    exact release_ready call hlist (hn ▸ hused)
  · intro e' y he' hy
    cases hkey'.symm.trans he'
    rw [← hn]
    exact blindedExp_sound hodd hkey hgot (Prod.ext hy rfl)

theorem held_afterCalls (other : Unreduced) (key : RsaKey) (calls : List RsaCall) :
    Held other key (afterCalls other key calls) := by
  unfold afterCalls
  have hstart : Held other key ⟨key, []⟩ := ⟨Or.inl rfl, nofun⟩
  induction calls using List.reverseRecOn with
  | nil => exact hstart
  | append_singleton calls call ih =>
    rw [List.foldl_append]
    exact (ih.transform call).1

/-! ### Keys that work -/

/-- A key for two primes: what it has besides the modulus and the exponents is right,
    and `iqmp` is there or can be computed where it is needed. -/
structure RsaKey.Correct (key : RsaKey) (e d p q : Nat) : Prop where
  n_eq : key.n = p * q
  p_prime : p.Prime
  q_prime : q.Prime
  ne : p ≠ q
  odd : key.n % 2 = 1
  e_eq : key.e = some e
  d_eq : key.d = some d
  d_lt : d < montgomeryR key.n
  de_p : d * e ≡ 1 [MOD p - 1]
  de_q : d * e ≡ 1 [MOD q - 1]
  p_eq : ∀ v, key.p = some v → v = p
  q_eq : ∀ v, key.q = some v → v = q
  dmp1_eq : ∀ v, key.dmp1 = some v → v = d % (p - 1)
  dmq1_eq : ∀ v, key.dmq1 = some v → v = d % (q - 1)
  iqmp_eq : ∀ v, key.iqmp = some v → v < p ∧ v * q ≡ 1 [MOD p]
  iqmp_or : key.p.isSome → key.q.isSome → key.dmp1.isSome → key.dmq1.isSome → key.iqmp = none →
    q < p

section Correct

variable {key : RsaKey} {e d p q : Nat} (h : key.Correct e d p q)
include h

theorem RsaKey.Correct.odd_primes : p % 2 = 1 ∧ q % 2 = 1 := by
  have hodd := h.odd
  rw [h.n_eq, mul_mod] at hodd
  rcases mod_two_eq_zero_or_one p with hp | hp <;>
    rcases mod_two_eq_zero_or_one q with hq | hq <;> simp [hp, hq] at hodd ⊢

theorem RsaKey.Correct.two_lt : 2 < p ∧ 2 < q := by
  obtain ⟨hp, hq⟩ := h.odd_primes
  have := h.p_prime.two_le
  have := h.q_prime.two_le
  omega

/-- A number whose product with another is one modulo `p - 1` is not a multiple of it. -/
theorem RsaKey.Correct.mod_pos : 0 < d % (p - 1) ∧ 0 < d % (q - 1) ∧ 0 < d ∧ 0 < e := by
  obtain ⟨hp, hq⟩ := h.two_lt
  have hmod : ∀ m, 1 < m → d * e ≡ 1 [MOD m] → 0 < d % m := by
    intro m hm hde
    apply pos_of_ne_zero
    intro hzero
    rw [Nat.ModEq, mul_mod, hzero, zero_mul, zero_mod, mod_eq_of_lt hm] at hde
    cases hde
  have hd := hmod _ (by omega) h.de_p
  refine ⟨hd, hmod _ (by omega) h.de_q, ?_, ?_⟩
  · exact pos_of_ne_zero fun hzero => by simp [hzero] at hd
  · refine pos_of_ne_zero fun hzero => ?_
    have hde := h.de_p
    rw [hzero, mul_zero, Nat.ModEq, zero_mod, mod_eq_of_lt (by omega)] at hde
    cases hde

theorem RsaKey.Correct.pow_self (a : Nat) : a ^ (d * e) ≡ a [MOD key.n] := by
  obtain ⟨-, -, hd, he⟩ := h.mod_pos
  have hpow := pow_modEq_of_primes h.p_prime h.q_prime h.ne (mul_pos hd he) one_pos
    h.de_p h.de_q a
  rwa [pow_one, ← h.n_eq] at hpow

/-- **The Chinese remainder theorem**, as `mod_exp` applies it. -/
theorem RsaKey.Correct.crtCombine_eq {iqmp I : Nat} (hiqmp : iqmp * q ≡ 1 [MOD p]) :
    crtCombine p q (d % (p - 1)) (d % (q - 1)) iqmp I = I ^ d % key.n := by
  obtain ⟨hp, hq⟩ := h.odd_primes
  obtain ⟨hdp, hdq, hd, -⟩ := h.mod_pos
  have hpPos := h.p_prime.pos
  have hqPos := h.q_prime.pos
  simp only [crtCombine, toMontgomery_fromMontgomery hp, toMontgomery_fromMontgomery hq,
    mulMontgomery_toMontgomery hp]
  have hm1 : (I % q) ^ (d % (q - 1)) % q ≡ I ^ d [MOD q] :=
    (mod_modEq _ _).trans (((mod_modEq I q).pow _).trans
      (pow_modEq_of_prime h.q_prime hdq hd (mod_modEq d _) I))
  have hr0 : (I % p) ^ (d % (p - 1)) % p ≡ I ^ d [MOD p] :=
    (mod_modEq _ _).trans (((mod_modEq I p).pow _).trans
      (pow_modEq_of_prime h.p_prime hdp hd (mod_modEq d _) I))
  have hm1Lt := mod_lt ((I % q) ^ (d % (q - 1))) hqPos
  have hr1Lt := mod_lt ((I % q) ^ (d % (q - 1)) % q) hpPos
  generalize (I % q) ^ (d % (q - 1)) % q = m1 at *
  generalize (I % p) ^ (d % (p - 1)) % p = r0 at *
  have hlt : (r0 + p - m1 % p) % p * iqmp % p * q + m1 < key.n := by
    have hle : (r0 + p - m1 % p) % p * iqmp % p + 1 ≤ p := mod_lt _ hpPos
    have := mul_le_mul_right q hle
    rw [h.n_eq]
    rw [add_mul, one_mul] at this
    omega
  -- modulo p the multiple of q supplies what m1 lacks
  have hmodP : (r0 + p - m1 % p) % p * iqmp % p * q + m1 ≡ I ^ d [MOD p] := by
    refine Nat.ModEq.trans ?_ hr0
    rw [← ZMod.natCast_eq_natCast_iff] at hiqmp ⊢
    push_cast [cast_sub (show m1 % p ≤ r0 + p by omega), ZMod.natCast_mod] at hiqmp ⊢
    rw [ZMod.natCast_self]
    linear_combination (r0 - m1 : ZMod p) * hiqmp
  have hmodQ : (r0 + p - m1 % p) % p * iqmp % p * q + m1 ≡ I ^ d [MOD q] :=
    (modEq_iff_dvd' (le_add_left _ _)).mpr (by simp) |>.symm.trans hm1
  have hmod := (modEq_and_modEq_iff_modEq_mul
    ((coprime_primes h.p_prime h.q_prime).mpr h.ne)).mp ⟨hmodP, hmodQ⟩
  rw [← h.n_eq] at hmod
  exact (mod_eq_of_lt hlt).symm.trans hmod

theorem RsaKey.Correct.inverse (hlt : q < p) :
    bnModInverseSecretPrime q p = some (q ^ (p - 2) % p) ∧ q ^ (p - 2) % p * q ≡ 1 [MOD p] := by
  have hp := h.two_lt.1
  refine ⟨if_pos ⟨hlt, by omega⟩, ?_⟩
  have hcoprime := (coprime_primes h.q_prime h.p_prime).mpr h.ne.symm
  have hone := Nat.ModEq.pow_totient hcoprime
  rw [totient_prime h.p_prime, show p - 1 = p - 2 + 1 by omega, pow_succ] at hone
  exact ((mod_modEq _ _).mul_right q).trans hone

theorem RsaKey.Correct.montCtxNew (hwidth : bnWidth key.n ≤ BN_MONTGOMERY_MAX_WORDS) :
    bnMontCtxNew key.n = true ∧ bnMontCtxNew p = true ∧ bnMontCtxNew q = true := by
  obtain ⟨hp, hq⟩ := h.odd_primes
  have hle : ∀ m, m ∣ key.n → bnWidth m ≤ BN_MONTGOMERY_MAX_WORDS := by
    intro m hm
    have hsize := size_le_size (le_of_dvd (by have := h.odd; omega) hm)
    unfold bnWidth at hwidth ⊢
    omega
  have hpn : p ∣ key.n := ⟨q, h.n_eq⟩
  have hqn : q ∣ key.n := ⟨p, h.n_eq.trans (mul_comm p q)⟩
  simp [bnMontCtxNew, h.odd, hwidth, hp, hq, hle p hpn, hle q hqn]

theorem RsaKey.Correct.freeze (other : Unreduced)
    (hwidth : bnWidth key.n ≤ BN_MONTGOMERY_MAX_WORDS) :
    ∃ key', freezePrivateKey other key = some key' ∧ key'.Correct e d p q := by
  obtain ⟨hn, hp, hq⟩ := h.montCtxNew hwidth
  have hd := h.d_lt
  unfold freezePrivateKey
  rw [if_neg (by simp [hn, h.d_eq, hd])]
  split
  · rename_i e' p' q' he' hp' hq'
    cases h.p_eq p' hp'
    cases h.q_eq q' hq'
    rw [if_neg (by simp [hp, hq])]
    split
    · rename_i dmp1 dmq1 hdmp1 hdmq1
      have hdp : dmp1 < montgomeryR p := by
        rw [h.dmp1_eq dmp1 hdmp1]
        exact ((mod_lt d (by have := h.two_lt.1; omega)).trans_le (sub_le p 1)).trans
          (lt_montgomeryR p)
      have hdq : dmq1 < montgomeryR q := by
        rw [h.dmq1_eq dmq1 hdmq1]
        exact ((mod_lt d (by have := h.two_lt.2; omega)).trans_le (sub_le q 1)).trans
          (lt_montgomeryR q)
      have hfound : ∃ iqmp, (key.iqmp <|> bnModInverseSecretPrime q p) = some iqmp ∧ iqmp < p ∧
          iqmp * q ≡ 1 [MOD p] := by
        cases hiqmp : key.iqmp with
        | some iqmp => exact ⟨iqmp, rfl, h.iqmp_eq iqmp hiqmp⟩
        | none =>
          obtain ⟨hsome, hone⟩ := h.inverse (h.iqmp_or (by simp [hp']) (by simp [hq'])
            (by simp [hdmp1]) (by simp [hdmq1]) hiqmp)
          exact ⟨_, hsome, mod_lt _ h.p_prime.pos, hone⟩
      obtain ⟨iqmp, hiqmp, hlt, hone⟩ := hfound
      refine ⟨{ key with iqmp := some iqmp }, ?_, ?_⟩
      · simp [freezeCrt, hiqmp, hdp, hdq, hlt]
      · exact { h with
          iqmp_eq := fun v hv => by cases hv; exact ⟨hlt, hone⟩
          iqmp_or := fun _ _ _ _ hnone => by cases hnone }
    · exact ⟨key, rfl, h⟩
  · exact ⟨key, rfl, h⟩

theorem RsaKey.Correct.privateExp_eq (other : Unreduced) {f : Nat} (hf : f < key.n) :
    privateExp other key d f = some (f ^ d % key.n) := by
  unfold privateExp
  split
  · rename_i e' p' q' dmp1 dmq1 iqmp he' hp' hq' hdmp1 hdmq1 hiqmp
    cases h.p_eq p' hp'
    cases h.q_eq q' hq'
    cases h.dmp1_eq dmp1 hdmp1
    cases h.dmq1_eq dmq1 hdmq1
    obtain ⟨hlt, hone⟩ := h.iqmp_eq iqmp hiqmp
    split
    · rename_i hsizes
      have hfp : f < p * montgomeryR p :=
        hf.trans (by rw [h.n_eq]; exact mul_lt_mul_of_pos_left hsizes.1 h.p_prime.pos)
      have hfq : f < q * montgomeryR q :=
        hf.trans (by
          rw [h.n_eq, mul_comm]
          exact mul_lt_mul_of_pos_left hsizes.2 h.q_prime.pos)
      rw [modExp, if_pos ⟨hfp, hfq, hlt⟩, h.crtCombine_eq hone]
      exact if_pos ((mod_lt _ (by omega)).trans (lt_montgomeryR key.n))
    · rfl
  · exact if_pos hf

theorem RsaKey.Correct.checkedExp_eq (other : Unreduced) {f : Nat} (hf : f < key.n) :
    checkedExp other key d f = some (f ^ d % key.n) := by
  have hpower : (f ^ d % key.n) ^ e % key.n = f := by
    rw [← pow_mod, ← pow_mul]
    exact Eq.trans (h.pow_self f) (mod_eq_of_lt hf)
  rw [checkedExp, h.privateExp_eq other hf, h.e_eq]
  exact if_pos ⟨mod_lt _ (by omega), hpower⟩

theorem RsaKey.Correct.blindedExp_eq (other : Unreduced) {x random : Nat} {b : BnBlinding}
    (hb : Ready key.n e b) (hrandom : (bnRandRange key.n random).Coprime key.n) :
    (blindedExp other key d e x random b).1 = some (x ^ d % key.n) := by
  have hodd := h.odd
  have := neZero_of_odd hodd
  have hupdate : (bnBlindingUpdate b key.n e random).1 = true := by
    have hunit : (bnFromMontgomery key.n (bnRandRange key.n random)).Coprime key.n := by
      rw [← ZMod.isUnit_iff_coprime, cast_fromMontgomery hodd]
      exact ((ZMod.isUnit_iff_coprime _ _).mpr hrandom).mul
        (IsUnit.of_mul_eq_one _ ((mul_comm _ _).trans (montgomeryR_mul_inv hodd)))
    unfold bnBlindingUpdate
    split
    · rw [bnBlindingCreateParam, bnModInverse, if_pos hunit]
      rfl
    · rfl
  obtain ⟨b', hb'⟩ : ∃ b', bnBlindingUpdate b key.n e random = (true, b') :=
    ⟨_, Prod.ext hupdate rfl⟩
  have hpaired := (update_ready hodd hb hb').2 rfl
  simp only [blindedExp, hb', h.checkedExp_eq other (mulMontgomery_lt hodd x b'.A),
    Option.map_some, Option.some.injEq]
  apply mulMontgomery_eq_mod hodd
  unfold Paired at hpaired
  rw [ZMod.natCast_mod, Nat.cast_pow, cast_mulMontgomery hodd, Nat.cast_pow]
  set r := (montgomeryR key.n : ZMod key.n)⁻¹
  have hself : (b'.Ai * r) ^ (d * e) = b'.Ai * r := by
    have hpow := h.pow_self (b'.Ai * r).val
    rwa [← ZMod.natCast_eq_natCast_iff, Nat.cast_pow, ZMod.natCast_zmod_val] at hpow
  calc (x * b'.A * r) ^ d * b'.Ai * r = x ^ d * (b'.A * r) ^ d * (b'.Ai * r) := by ring
    _ = x ^ d * (b'.A * r) ^ d * (b'.Ai * r) ^ (d * e) := by rw [hself]
    _ = x ^ d * ((b'.A * r) * (b'.Ai * r) ^ e) ^ d := by ring
    _ = x ^ d := by rw [hpaired, one_pow, mul_one]

end Correct

/-- **Every call on a correct key** returns the power, blinded or not. -/
theorem Held.transform_correct {key : RsaKey} (h : Held other key state)
    {e d p q : Nat} (hkey : key.Correct e d p q) (hwidth : bnWidth key.n ≤ BN_MONTGOMERY_MAX_WORDS)
    {call : RsaCall} (hx : 1 < call.x) (hlt : call.x < key.n - 1)
    (hrandom : (bnRandRange key.n call.random).Coprime key.n) :
    (rsaDefaultPrivateTransform other state call).1 = some (call.x ^ d % key.n) := by
  obtain ⟨key', hfreeze, hkey'⟩ := hkey.freeze other hwidth
  have hn : key'.n = key.n := hkey'.n_eq.trans hkey.n_eq.symm
  have hsame := h.same
  have hd : state.key.d = some d := by rw [hsame]; exact hkey.d_eq
  have hstate : state.key.n = key.n := by rw [hsame]
  have hready := (get_ready call (h.ready e hkey.e_eq)).2
  rw [rsaDefaultPrivateTransform, hd]
  dsimp only
  rw [if_neg (by omega), h.freeze, hfreeze]
  dsimp only
  split
  · rw [← hn]
    exact hkey'.checkedExp_eq other (by omega)
  · rw [hkey'.e_eq]
    rw [← hn] at hready hrandom ⊢
    exact hkey'.blindedExp_eq other hready hrandom

/-- **The private transform.**  After any calls on a key with a public exponent, whatever
    its other values, what a call returns is an `e`-th root of its input.  If the values of
    the key are right and its modulus is not too wide for Montgomery arithmetic, every call
    returns the power of its input. -/
theorem rsa_private_transform (other : Unreduced) {key : RsaKey} {e : Nat} (he : key.e = some e)
    (calls : List RsaCall) (call : RsaCall) :
    (∀ y, (rsaDefaultPrivateTransform other (afterCalls other key calls) call).1 = some y →
      y < key.n ∧ y ^ e ≡ call.x [MOD key.n]) ∧
    ∀ d p q, key.Correct e d p q → bnWidth key.n ≤ BN_MONTGOMERY_MAX_WORDS →
      1 < call.x → call.x < key.n - 1 → (bnRandRange key.n call.random).Coprime key.n →
        (rsaDefaultPrivateTransform other (afterCalls other key calls) call).1 =
          some (call.x ^ d % key.n) := by
  have hheld := held_afterCalls other key calls
  constructor
  · intro y hy
    exact (hheld.transform call).2 e y he hy
  · intro d p q hkey hwidth hx hlt hrandom
    exact hheld.transform_correct hkey hwidth hx hlt hrandom

/-- The key of `3 * 5` with its exponents and the values for the Chinese remainder theorem. -/
def fifteenKey : RsaKey where
  n := 15
  e := some 3
  d := some 3
  p := some 3
  q := some 5
  dmp1 := some 1
  dmq1 := some 3
  iqmp := some 2
  noBlinding := false
  noPublicExponent := false
  largePublicExponent := false

def noneUnreduced : Unreduced := ⟨fun _ _ => false, fun _ _ => none⟩

theorem fifteenKey_correct : fifteenKey.Correct 3 3 3 5 where
  n_eq := rfl
  p_prime := prime_three
  q_prime := prime_five
  ne := by decide
  odd := rfl
  e_eq := rfl
  d_eq := rfl
  d_lt := lt_of_lt_of_le (by decide) (lt_montgomeryR 15).le
  de_p := rfl
  de_q := rfl
  p_eq v hv := by cases hv; rfl
  q_eq v hv := by cases hv; rfl
  dmp1_eq v hv := by cases hv; rfl
  dmq1_eq v hv := by cases hv; rfl
  iqmp_eq v hv := by cases hv; exact ⟨by decide, rfl⟩
  iqmp_or := nofun

theorem rsa_private_transform_fifteen : (rsaDefaultPrivateTransform noneUnreduced
      (afterCalls noneUnreduced fifteenKey [⟨7, 1, 0, false⟩]) ⟨2, 0, 0, true⟩).1 = some 8 :=
  (rsa_private_transform noneUnreduced rfl _ _).2 3 3 5 fifteenKey_correct (by decide) (by decide)
    (by decide) (by decide)

/-- **Where the transform refuses.**  The key of `3 * q` for a prime of more than 65536
    bits: its modulus has more words than a Montgomery context may have. -/
theorem rsa_private_transform_too_wide :
    ∃ (key : RsaKey) (q : Nat), key.Correct 1 1 3 q ∧ 0 < 1 ∧ 1 < key.n ∧ 2 < key.n - 1 ∧
      (bnRandRange key.n 0).Coprime key.n ∧ ∀ other : Unreduced,
        (rsaDefaultPrivateTransform other (afterCalls other key []) ⟨2, 0, 0, false⟩).1 = none := by
  obtain ⟨q, hlarge, hprime⟩ := Nat.exists_infinite_primes (2 ^ 65536)
  have hfour : 2 ^ 2 ≤ q := le_trans (Nat.pow_le_pow_right Nat.two_pos (by decide)) hlarge
  have hodd : q % 2 = 1 := by
    rcases hprime.eq_two_or_odd with htwo | hodd
    · omega
    · exact hodd
  have hwide : ¬bnWidth (3 * q) ≤ BN_MONTGOMERY_MAX_WORDS := by
    have hsize : 65536 < (3 * q).size :=
      Nat.lt_size.mpr (hlarge.trans (Nat.le_mul_of_pos_left q (by decide)))
    simp only [bnWidth, BN_MONTGOMERY_MAX_WORDS]
    omega
  refine ⟨⟨3 * q, some 1, some 1, none, none, none, none, none, false, false, false⟩, q, ?_,
    one_pos, ?_, ?_, ?_, ?_⟩
  · exact {
      n_eq := rfl
      p_prime := prime_three
      q_prime := hprime
      ne := by omega
      odd := by dsimp only; omega
      e_eq := rfl
      d_eq := rfl
      d_lt := lt_trans (show 1 < 3 * q by omega) (lt_montgomeryR _)
      de_p := rfl
      de_q := rfl
      p_eq := nofun
      q_eq := nofun
      dmp1_eq := nofun
      dmq1_eq := nofun
      iqmp_eq := nofun
      iqmp_or := nofun }
  · dsimp only; omega
  · dsimp only; omega
  · simp [bnRandRange]
  · intro other
    have hfreeze : freezePrivateKey other ⟨3 * q, some 1, some 1, none, none, none, none, none,
        false, false, false⟩ = none := by
      simp [freezePrivateKey, bnMontCtxNew, hwide]
    simp only [afterCalls, List.foldl_nil, rsaDefaultPrivateTransform, hfreeze]
    split <;> rfl

end AwsLc
