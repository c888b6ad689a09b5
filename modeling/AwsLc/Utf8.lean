import AwsLc.ByteString
import AwsLc.Numeral

/-!
# UTF-8 (`unicode.c`)

A code point above 0x7f is written as a lead octet and one to three continuation octets of six bits
each.  The decoder computes the number and then checks that it is a valid code point and not below
the least number of its length class.
-/

namespace AwsLc

open AwsLc.Numeral List Option Nat UInt32

def isValidCodePoint (v : UInt32) : Bool :=
  !(v > 0x10ffff || v &&& 0xfffe = 0xfffe || (v ≥ 0xfdd0 && v ≤ 0xfdef) ||
    (v ≥ 0xd800 && v ≤ 0xdfff))

def BOTTOM_BITS (n : UInt32) : UInt8 := ((1 <<< n) - 1 : UInt32).toUInt8

def TOP_BITS (n : UInt32) : UInt8 := ~~~BOTTOM_BITS (8 - n)

/-- What the lead octet says: the bits of the number it holds, how many octets follow, and
    the least number of this length. -/
def utf8Lead (c : UInt8) : Option (UInt32 × Nat × UInt32) :=
  if c &&& TOP_BITS 3 = TOP_BITS 2 then some ((c &&& BOTTOM_BITS 5).toUInt32, 1, 0x80)
  else if c &&& TOP_BITS 4 = TOP_BITS 3 then some ((c &&& BOTTOM_BITS 4).toUInt32, 2, 0x800)
  else if c &&& TOP_BITS 5 = TOP_BITS 4 then some ((c &&& BOTTOM_BITS 3).toUInt32, 3, 0x10000)
  else none

/-- The loop of `cbs_get_utf8` over the continuation octets. -/
def utf8Continue : (len : Nat) → (v : UInt32) → Bytes → Option (UInt32 × Bytes)
  | 0, v, cbs => some (v, cbs)
  | len + 1, v, cbs => do
    let (c, cbs) ← cbsGetU8 cbs
    if c &&& TOP_BITS 2 ≠ TOP_BITS 1 then none
    else utf8Continue len ((v <<< 6) ||| (c &&& BOTTOM_BITS 6).toUInt32) cbs

def cbsGetUtf8 (cbs : Bytes) : Option (UInt32 × Bytes) := do
  let (c, cbs) ← cbsGetU8 cbs
  if c ≤ 0x7f then return (c.toUInt32, cbs)
  let (v, len, lowerBound) ← utf8Lead c
  let (v, cbs) ← utf8Continue len v cbs
  if !isValidCodePoint v || v < lowerBound then none
  else return (v, cbs)

variable (u : UInt32)

def cbbGetUtf8Len : Nat :=
  if u ≤ 0x7f then 1 else if u ≤ 0x7ff then 2 else if u ≤ 0xffff then 3 else 4

/-- The octet with the top `n` bits set, and `bits` below them. -/
def utf8Octet (n : UInt32) (bits : UInt32) : UInt8 := ((TOP_BITS n).toUInt32 ||| bits).toUInt8

def cbbAddUtf8 : Option Bytes :=
  if !isValidCodePoint u then none
  else if u ≤ 0x7f then some [u.toUInt8]
  else if u ≤ 0x7ff then
    some [utf8Octet 2 (u >>> 6), utf8Octet 1 (u &&& (BOTTOM_BITS 6).toUInt32)]
  else if u ≤ 0xffff then
    some [utf8Octet 3 (u >>> 12), utf8Octet 1 ((u >>> 6) &&& (BOTTOM_BITS 6).toUInt32),
      utf8Octet 1 (u &&& (BOTTOM_BITS 6).toUInt32)]
  else if u ≤ 0x10ffff then
    some [utf8Octet 4 (u >>> 18), utf8Octet 1 ((u >>> 12) &&& (BOTTOM_BITS 6).toUInt32),
      utf8Octet 1 ((u >>> 6) &&& (BOTTOM_BITS 6).toUInt32),
      utf8Octet 1 (u &&& (BOTTOM_BITS 6).toUInt32)]
  else none

def sextetOctet (sextet : Nat) : UInt8 := utf8Octet 1 (ofNat sextet)

theorem sextetOctet_facts : ∀ sextet : Fin 64, sextetOctet sextet &&& TOP_BITS 2 = TOP_BITS 1 ∧
      (sextetOctet sextet &&& BOTTOM_BITS 6).toUInt32.toNat = sextet := by
  decide +kernel

theorem eq_sextetOctet : ∀ c : UInt8, c &&& TOP_BITS 2 = TOP_BITS 1 →
    (c &&& BOTTOM_BITS 6).toUInt32.toNat < 64 ∧
      c = sextetOctet (c &&& BOTTOM_BITS 6).toUInt32.toNat := by
  apply forall_byte
  decide +kernel

theorem shiftSextet_toNat {v : UInt32} (hv : v.toNat < 2 ^ 26) {bits : UInt32}
    (hbits : bits.toNat < 64) : ((v <<< 6) ||| bits).toNat = v.toNat * 64 + bits.toNat := by
  have hor := shiftLeft_add_eq_or_of_lt (show bits.toNat < 2 ^ 6 from hbits) v.toNat
  rw [UInt32.toNat_or, UInt32.toNat_shiftLeft]
  change v.toNat <<< 6 % 2 ^ 32 ||| _ = _
  rw [mod_eq_of_lt (by rw [shiftLeft_eq]; omega), ← hor, shiftLeft_eq]

theorem utf8Continue_sextets {sextets : List Nat} {v : UInt32} (rest : Bytes)
    (hlt : ∀ sextet ∈ sextets, sextet < 64)
    (hfits : v.toNat * 64 ^ sextets.length + value 64 sextets < 2 ^ 32) :
    utf8Continue sextets.length v (sextets.map sextetOctet ++ rest) =
      some (ofNat (v.toNat * 64 ^ sextets.length + value 64 sextets), rest) := by
  induction sextets generalizing v with
  | nil => simp [utf8Continue]
  | cons sextet sextets ih =>
    obtain ⟨hform, hbits⟩ := sextetOctet_facts ⟨sextet, hlt sextet mem_cons_self⟩
    dsimp only at hform hbits
    have hpos : 0 < 64 ^ sextets.length := Nat.pow_pos (by decide)
    have htotal : (v.toNat * 64 + sextet) * 64 ^ sextets.length + value 64 sextets =
        v.toNat * 64 ^ (sextet :: sextets).length + value 64 (sextet :: sextets) := by
      rw [value_cons, length_cons]
      ring
    have hle := Nat.le_mul_of_pos_right (v.toNat * 64 + sextet) hpos
    have hstep := @shiftSextet_toNat v (by omega) _
      (by rw [hbits]; exact hlt sextet mem_cons_self)
    rw [hbits] at hstep
    rw [length_cons, map_cons, cons_append, utf8Continue]
    refine bind_of_eq_some rfl ?_
    dsimp only
    rw [if_neg (by simp [hform]), ih (fun s hs => hlt s (mem_cons_of_mem _ hs))
      (by rw [hstep, htotal]; exact hfits), hstep, htotal, length_cons]

theorem utf8Continue_eq_some {len : Nat} {v w : UInt32} {cbs rest : Bytes}
    (h : utf8Continue len v cbs = some (w, rest)) (hfits : (v.toNat + 1) * 64 ^ len ≤ 2 ^ 32) :
    ∃ sextets : List Nat, sextets.length = len ∧ (∀ sextet ∈ sextets, sextet < 64) ∧
      cbs = sextets.map sextetOctet ++ rest ∧ w.toNat = v.toNat * 64 ^ len + value 64 sextets := by
  induction len generalizing v cbs with
  | zero =>
    cases h
    exact ⟨[], rfl, nofun, rfl, by simp⟩
  | succ len ih =>
    obtain ⟨⟨c, cbs'⟩, hget, h⟩ := bind_eq_some_iff.mp h
    dsimp only at h
    split at h
    · cases h
    next hform =>
    obtain ⟨hlt, hoctet⟩ := eq_sextetOctet c (not_not.mp hform)
    have hpos : 0 < 64 ^ len := Nat.pow_pos (by decide)
    have hsmall : v.toNat < 2 ^ 26 := by
      have hle := Nat.le_mul_of_pos_right ((v.toNat + 1) * 64) hpos
      rw [Nat.pow_succ] at hfits
      have : (v.toNat + 1) * 64 * 64 ^ len = (v.toNat + 1) * (64 ^ len * 64) := by ring
      omega
    have hstep := shiftSextet_toNat hsmall hlt
    obtain ⟨sextets, hlength, hsextets, hcbs, hw⟩ := ih h (by
      rw [hstep]
      calc (v.toNat * 64 + (c &&& BOTTOM_BITS 6).toUInt32.toNat + 1) * 64 ^ len
          ≤ ((v.toNat + 1) * 64) * 64 ^ len := mul_le_mul_right _ (by omega)
        _ = (v.toNat + 1) * 64 ^ (len + 1) := by ring
        _ ≤ 2 ^ 32 := hfits)
    refine ⟨(c &&& BOTTOM_BITS 6).toUInt32.toNat :: sextets, by rw [length_cons, hlength], ?_, ?_,
      ?_⟩
    · intro s hs
      rcases mem_cons.mp hs with rfl | hs
      · exact hlt
      · exact hsextets s hs
    · rw [cbsGetU8_eq_some hget, hcbs, map_cons, ← hoctet]
      rfl
    · rw [hw, hstep, value_cons, hlength]
      ring

def leadOctet (len bits : Nat) : UInt8 := utf8Octet (ofNat (len + 1)) (ofNat bits)

/-- The least number with `len` continuation octets. -/
def utf8Least : Nat → Nat
  | 0 => 0
  | 1 => 0x80
  | 2 => 0x800
  | _ => 0x10000

theorem leadOctet_facts : ∀ (len : Fin 3) (bits : Fin 32), bits.val < 2 ^ (5 - len.val) →
    ¬leadOctet (len + 1) bits ≤ 0x7f ∧ utf8Lead (leadOctet (len + 1) bits) =
      some (ofNat bits, len.val + 1, ofNat (utf8Least (len + 1))) := by
  decide +kernel

theorem utf8Lead_facts : ∀ (c : UInt8), ∀ lead ∈ utf8Lead c,
    1 ≤ lead.2.1 ∧ lead.2.1 ≤ 3 ∧ lead.1.toNat < 2 ^ (6 - lead.2.1) ∧
      c = leadOctet lead.2.1 lead.1.toNat ∧ lead.2.2 = ofNat (utf8Least lead.2.1) := by
  apply forall_byte
  decide +kernel

def multiOctets (len n : Nat) : Bytes :=
  leadOctet len (n / 64 ^ len) :: (fixed 64 len n).map sextetOctet

theorem shiftRight_eq (amount : Fin 32) :
    u >>> ofNat amount = ofNat (u.toNat / 2 ^ amount.val) := by
  have hall : ∀ amount : Fin 32, (ofNat amount).toNat % 32 = amount := by decide
  have hlt := u.toNat_lt
  have hle := div_le_self u.toNat (2 ^ amount.val)
  apply UInt32.toNat_inj.mp
  rw [UInt32.toNat_shiftRight, hall, shiftRight_eq_div_pow,
    toNat_ofNat_of_lt' (by show _ < 2 ^ 32; omega)]

theorem and_sextet : u &&& (BOTTOM_BITS 6).toUInt32 = ofNat (u.toNat % 64) := by
  apply UInt32.toNat_inj.mp
  rw [UInt32.toNat_and, UInt32.toNat_ofNat_of_lt' (by show _ < 2 ^ 32; omega)]
  exact and_two_pow_sub_one_eq_mod u.toNat 6

theorem sextet_eq (amount : Fin 32) :
    utf8Octet 1 ((u >>> ofNat amount) &&& (BOTTOM_BITS 6).toUInt32) =
      sextetOctet (u.toNat / 2 ^ amount.val % 64) := by
  have hlt := u.toNat_lt
  have hle := div_le_self u.toNat (2 ^ amount.val)
  rw [shiftRight_eq, and_sextet, toNat_ofNat_of_lt' (by show _ < 2 ^ 32; omega)]
  rfl

variable {u : UInt32}

theorem le_of_isValidCodePoint (hvalid : isValidCodePoint u = true) : u ≤ 0x10ffff := by
  simp only [isValidCodePoint, Bool.not_eq_true', Bool.or_eq_false_iff, decide_eq_false_iff_not,
    gt_iff_lt, UInt32.not_lt] at hvalid
  exact hvalid.1.1.1

theorem cbbAddUtf8_multi (hvalid : isValidCodePoint u = true) (hlarge : ¬u ≤ 0x7f) :
    cbbAddUtf8 u = some (multiOctets (cbbGetUtf8Len u - 1) u.toNat) := by
  have hmax := le_of_isValidCodePoint hvalid
  have h6 : utf8Octet 1 ((u >>> 6) &&& (BOTTOM_BITS 6).toUInt32) =
      sextetOctet (u.toNat / 64 % 64) := sextet_eq u 6
  have h12 : utf8Octet 1 ((u >>> 12) &&& (BOTTOM_BITS 6).toUInt32) =
      sextetOctet (u.toNat / 64 / 64 % 64) := by
    rw [Nat.div_div_eq_div_mul]
    exact sextet_eq u 12
  have hlast : utf8Octet 1 (u &&& (BOTTOM_BITS 6).toUInt32) = sextetOctet (u.toNat % 64) := by
    rw [and_sextet]
    rfl
  have hlead6 : u >>> 6 = ofNat (u.toNat / 64 ^ 1) := shiftRight_eq u 6
  have hlead12 : u >>> 12 = ofNat (u.toNat / 64 ^ 2) := shiftRight_eq u 12
  have hlead18 : u >>> 18 = ofNat (u.toNat / 64 ^ 3) := shiftRight_eq u 18
  unfold cbbAddUtf8 cbbGetUtf8Len
  rw [if_neg (by simp [hvalid]), if_neg hlarge, if_neg hlarge]
  by_cases h2 : u ≤ 0x7ff
  · rw [if_pos h2, if_pos h2, hlast, hlead6]
    rfl
  rw [if_neg h2, if_neg h2]
  by_cases h3 : u ≤ 0xffff
  · rw [if_pos h3, if_pos h3, h6, hlast, hlead12]
    rfl
  · rw [if_neg h3, if_neg h3, if_pos hmax, h12, h6, hlast, hlead18]
    rfl

/-- Which numbers have `len` continuation octets. -/
theorem cbbGetUtf8Len_iff (hmax : u ≤ 0x10ffff) (len : Fin 3) : cbbGetUtf8Len u = len.val + 2 ↔
      utf8Least (len + 1) ≤ u.toNat ∧ u.toNat / 64 ^ (len.val + 1) < 2 ^ (5 - len.val) := by
  have hle : u.toNat ≤ 1114111 := le_iff_toNat_le.mp hmax
  have h1 : u ≤ 0x7f ↔ u.toNat ≤ 127 := le_iff_toNat_le
  have h2 : u ≤ 0x7ff ↔ u.toNat ≤ 2047 := le_iff_toNat_le
  have h3 : u ≤ 0xffff ↔ u.toNat ≤ 65535 := le_iff_toNat_le
  unfold cbbGetUtf8Len
  simp only [h1, h2, h3]
  rcases len with ⟨_ | _ | _ | len, hlen⟩
  · simp [utf8Least]
    split_ifs <;> omega
  · simp [utf8Least]
    split_ifs <;> omega
  · simp [utf8Least]
    split_ifs <;> omega
  · omega

theorem exists_utf8Class (hlarge : ¬u ≤ 0x7f) : ∃ len : Fin 3, cbbGetUtf8Len u = len.val + 2 := by
  unfold cbbGetUtf8Len
  rw [if_neg hlarge]
  split_ifs
  · exact ⟨0, rfl⟩
  · exact ⟨1, rfl⟩
  · exact ⟨2, rfl⟩

theorem ascii_facts : ∀ c : UInt8, c ≤ 0x7f →
    isValidCodePoint c.toUInt32 = true ∧ c.toUInt32 ≤ 0x7f ∧ c.toUInt32.toUInt8 = c := by
  apply forall_byte
  decide +kernel

theorem toUInt8_of_ascii (h : u ≤ 0x7f) : u.toUInt8 ≤ 0x7f ∧ u.toUInt8.toUInt32 = u := by
  have hle : u.toNat ≤ 127 := UInt32.le_iff_toNat_le.mp h
  have hvalue : u.toUInt8.toNat = u.toNat := by
    rw [UInt32.toNat_toUInt8]
    omega
  constructor
  · rw [UInt8.le_iff_toNat_le, hvalue]
    exact hle
  · apply UInt32.toNat_inj.mp
    rw [UInt8.toNat_toUInt32, hvalue]

theorem cbbAddUtf8_ascii (hvalid : isValidCodePoint u = true) (h : u ≤ 0x7f) :
    cbbAddUtf8 u = some [u.toUInt8] := by
  rw [cbbAddUtf8, if_neg (by simp [hvalid]), if_pos h]

theorem isValidCodePoint_of_add {bytes : Bytes} (h : cbbAddUtf8 u = some bytes) :
    isValidCodePoint u = true := by
  unfold cbbAddUtf8 at h
  split at h
  · cases h
  · next hvalid => simpa using hvalid

theorem cbsGetUtf8_cons (c : UInt8) (cbs : Bytes) : cbsGetUtf8 (c :: cbs) =
      if c ≤ 0x7f then some (c.toUInt32, cbs) else (utf8Lead c).bind fun (v, len, lowerBound) =>
        (utf8Continue len v cbs).bind fun (v, cbs) =>
          if !isValidCodePoint v || v < lowerBound then none else some (v, cbs) := rfl

/-- The decoder reads the octets of a number of each class. -/
theorem cbsGetUtf8_multi (hvalid : isValidCodePoint u = true) {len : Fin 3}
    (hlen : cbbGetUtf8Len u = len.val + 2) (rest : Bytes) :
    cbsGetUtf8 (multiOctets (len + 1) u.toNat ++ rest) = some (u, rest) := by
  obtain ⟨hleast, hbits⟩ := (cbbGetUtf8Len_iff (le_of_isValidCodePoint hvalid) len).mp hlen
  have hroom : 2 ^ (5 - len.val) ≤ 2 ^ 5 := Nat.pow_le_pow_right (by decide) (by omega)
  obtain ⟨hnot, hlead⟩ :=
    leadOctet_facts len ⟨u.toNat / 64 ^ (len.val + 1), by omega⟩ hbits
  dsimp only at hnot hlead
  have hvalue : (UInt32.ofNat (u.toNat / 64 ^ (len.val + 1))).toNat =
      u.toNat / 64 ^ (len.val + 1) :=
    UInt32.toNat_ofNat_of_lt' (by show _ < 2 ^ 32; omega)
  have hwhole : u.toNat / 64 ^ (len.val + 1) * 64 ^ (len.val + 1) +
      value 64 (fixed 64 (len.val + 1) u.toNat) = u.toNat := by
    rw [value_fixed]
    exact div_add_mod' _ _
  have hcontinue := @utf8Continue_sextets (fixed 64 (len.val + 1) u.toNat)
    (UInt32.ofNat (u.toNat / 64 ^ (len.val + 1))) rest (fixed_lt (by decide))
  rw [length_fixed, hvalue, hwhole, UInt32.ofNat_toNat] at hcontinue
  have hlower : ¬u < UInt32.ofNat (utf8Least (len.val + 1)) := by
    rw [UInt32.lt_iff_toNat_lt, UInt32.toNat_ofNat']
    omega
  rw [multiOctets, cons_append, cbsGetUtf8_cons, if_neg hnot]
  refine bind_of_eq_some hlead ?_
  refine bind_of_eq_some (hcontinue u.toNat_lt) ?_
  exact if_neg (by simp [hvalid, hlower])

theorem cbsGetUtf8_eq_some {cbs rest : Bytes} (h : cbsGetUtf8 cbs = some (u, rest)) :
    ∃ bytes, cbbAddUtf8 u = some bytes ∧ cbs = bytes ++ rest := by
  obtain ⟨⟨c, cbs'⟩, hget, h⟩ := bind_eq_some_iff.mp h
  have hcbs := cbsGetU8_eq_some hget
  dsimp only at h
  split at h
  · next hascii =>
    cases h
    obtain ⟨hvalid, hle, hback⟩ := ascii_facts c hascii
    exact ⟨[c], by rw [cbbAddUtf8_ascii hvalid hle, hback], hcbs⟩
  obtain ⟨⟨v, len, lowerBound⟩, hlead, h⟩ := bind_eq_some_iff.mp h
  obtain ⟨⟨w, cbs''⟩, hcontinue, h⟩ := bind_eq_some_iff.mp h
  dsimp only at h
  split at h
  · cases h
  next hcheck =>
  cases h
  obtain ⟨hpos, hle, hroom, hc, hbound⟩ := utf8Lead_facts c _ hlead
  dsimp only at hpos hle hroom hc hbound
  obtain ⟨len, rfl⟩ := exists_eq_add_one_of_ne_zero (show len ≠ 0 by omega)
  rw [show 6 - (len + 1) = 5 - len by omega] at hroom
  have hfits : (v.toNat + 1) * 64 ^ (len + 1) ≤ 2 ^ (5 - len) * 64 ^ (len + 1) :=
    mul_le_mul_right _ hroom
  have hclass : ∀ len : Fin 3, 2 ^ (5 - len.val) * 64 ^ (len.val + 1) ≤ 2 ^ 21 ∧
      0x80 ≤ utf8Least (len + 1) ∧ utf8Least (len + 1) < 2 ^ 32 := by decide
  obtain ⟨hlimit, hmulti, hleastLt⟩ := hclass ⟨len, by omega⟩
  dsimp only at hlimit hmulti hleastLt
  obtain ⟨sextets, hlength, hsextets, hrest, hw⟩ :=
    @utf8Continue_eq_some (len + 1) v u cbs' rest hcontinue (hfits.trans (hlimit.trans (by decide)))
  have hsmall : value 64 sextets < 64 ^ (len + 1) := by
    have hfixed := value_fixed 64 sextets.length (value 64 sextets)
    rw [fixed_value hsextets, hlength] at hfixed
    rw [hfixed]
    exact Nat.mod_lt _ (Nat.pow_pos (by decide))
  simp only [Bool.or_eq_true, Bool.not_eq_true', decide_eq_true_eq, not_or, Bool.not_eq_false,
    hbound, lt_iff_toNat_lt, toNat_ofNat_of_lt' hleastLt] at hcheck
  obtain ⟨hvalid, hleast⟩ := hcheck
  have hbits : u.toNat / 64 ^ (len + 1) = v.toNat := by
    rw [hw, Nat.mul_comm, Nat.mul_add_div (Nat.pow_pos (by decide)), Nat.div_eq_of_lt hsmall,
      Nat.add_zero]
  have hlarge : ¬u ≤ 0x7f := by
    rw [le_iff_toNat_le]
    change ¬u.toNat ≤ 127
    omega
  have hlen : cbbGetUtf8Len u = len + 2 :=
    (cbbGetUtf8Len_iff (le_of_isValidCodePoint hvalid) ⟨len, by omega⟩).mpr
      ⟨Nat.le_of_not_lt hleast, by rw [hbits]; exact hroom⟩
  refine ⟨_, cbbAddUtf8_multi hvalid hlarge, ?_⟩
  rw [hlen, Nat.add_sub_cancel_right (len + 1) 1, multiOctets, hbits, ← hc, hcbs, hrest]
  have hdigits : fixed 64 (len + 1) u.toNat = sextets := by
    rw [hw, fixed_add_mul (by decide), ← hlength, fixed_value hsextets]
  rw [hdigits]
  rfl

/-- **UTF-8.**  The decoder accepts exactly what the encoder produces. -/
theorem cbsGetUtf8_iff {cbs rest : Bytes} : cbsGetUtf8 cbs = some (u, rest) ↔
      ∃ bytes, cbbAddUtf8 u = some bytes ∧ cbs = bytes ++ rest := by
  constructor
  · exact cbsGetUtf8_eq_some
  · rintro ⟨bytes, hbytes, rfl⟩
    have hvalid := isValidCodePoint_of_add hbytes
    by_cases hascii : u ≤ 0x7f
    · rw [cbbAddUtf8_ascii hvalid hascii] at hbytes
      cases hbytes
      obtain ⟨hle, hback⟩ := toUInt8_of_ascii hascii
      rw [singleton_append, cbsGetUtf8_cons, if_pos hle, hback]
    · obtain ⟨len, hlen⟩ := exists_utf8Class hascii
      rw [cbbAddUtf8_multi hvalid hascii, hlen] at hbytes
      cases hbytes
      exact cbsGetUtf8_multi hvalid hlen rest

/-- Every valid code point is written, in as many octets as `cbb_get_utf8_len` says. -/
theorem exists_cbbAddUtf8 (hvalid : isValidCodePoint u = true) :
    ∃ bytes, cbbAddUtf8 u = some bytes ∧ bytes.length = cbbGetUtf8Len u := by
  by_cases hascii : u ≤ 0x7f
  · refine ⟨_, cbbAddUtf8_ascii hvalid hascii, ?_⟩
    rw [cbbGetUtf8Len, if_pos hascii]
    rfl
  · obtain ⟨len, hlen⟩ := exists_utf8Class hascii
    refine ⟨_, cbbAddUtf8_multi hvalid hascii, ?_⟩
    rw [multiOctets, length_cons, length_map, length_fixed, hlen]
    omega

/-- `cbb_add_utf8` of each code point in turn. -/
def addUtf8All : List UInt32 → Option Bytes
  | [] => some []
  | u :: later => do
    let bytes ← cbbAddUtf8 u
    let rest ← addUtf8All later
    return bytes ++ rest

/-- `cbs_get_utf8` until nothing is left.  Every code point takes an octet at least, so
    that the length of the input bounds the iterations. -/
def getUtf8All : (fuel : Nat) → Bytes → Option (List UInt32)
  | _, [] => some []
  | 0, _ :: _ => none
  | fuel + 1, cbs => do
    let (u, rest) ← cbsGetUtf8 cbs
    let later ← getUtf8All fuel rest
    return u :: later

theorem getUtf8All_addUtf8All {us : List UInt32} {bytes : Bytes} {fuel : Nat}
    (h : addUtf8All us = some bytes) (hfuel : bytes.length ≤ fuel) :
    getUtf8All fuel bytes = some us := by
  induction us generalizing bytes fuel with
  | nil =>
    cases h
    cases fuel <;> rfl
  | cons u us ih =>
    obtain ⟨first, hfirst, h⟩ := bind_eq_some_iff.mp h
    obtain ⟨rest, hrest, h⟩ := bind_eq_some_iff.mp h
    cases h
    have hget : cbsGetUtf8 (first ++ rest) = some (u, rest) :=
      cbsGetUtf8_iff.mpr ⟨first, hfirst, rfl⟩
    obtain ⟨bytes', hbytes', hlength⟩ := exists_cbbAddUtf8 (isValidCodePoint_of_add hfirst)
    rw [hfirst] at hbytes'
    cases hbytes'
    rcases first with _ | ⟨c, first⟩
    · have hpos : 1 ≤ cbbGetUtf8Len u := by
        unfold cbbGetUtf8Len
        split_ifs <;> decide
      rw [length_nil] at hlength
      omega
    · rw [length_append, length_cons] at hfuel
      obtain ⟨fuel, rfl⟩ := exists_eq_add_one_of_ne_zero (show fuel ≠ 0 by omega)
      refine bind_of_eq_some hget ?_
      exact bind_of_eq_some (ih hrest (by omega)) rfl

theorem exists_addUtf8All {us : List UInt32} (h : ∀ u ∈ us, isValidCodePoint u = true) :
    ∃ bytes, addUtf8All us = some bytes := by
  induction us with
  | nil => exact ⟨[], rfl⟩
  | cons u us ih =>
    obtain ⟨first, hfirst, -⟩ := exists_cbbAddUtf8 (h u mem_cons_self)
    obtain ⟨rest, hrest⟩ := ih fun u hu => h u (mem_cons_of_mem _ hu)
    exact ⟨first ++ rest, bind_of_eq_some hfirst (bind_of_eq_some hrest rfl)⟩

/-- **The UTF-8 codec.**  A text of valid code points is written and read back, each code
    point in the announced number of octets, and whatever prefix the decoder accepts is
    what the encoder writes for the code point it returns. -/
theorem utf8_codec : (∀ us : List UInt32, (∀ u ∈ us, isValidCodePoint u = true) →
      ∃ bytes, addUtf8All us = some bytes ∧ getUtf8All bytes.length bytes = some us) ∧
    (∀ u : UInt32, isValidCodePoint u = true →
      ∃ bytes, cbbAddUtf8 u = some bytes ∧ bytes.length = cbbGetUtf8Len u) ∧
    (∀ (cbs rest : Bytes) (u : UInt32), cbsGetUtf8 cbs = some (u, rest) →
      ∃ bytes, cbbAddUtf8 u = some bytes ∧ cbs = bytes ++ rest) := by
  refine ⟨?_, fun u hvalid => exists_cbbAddUtf8 hvalid, fun cbs rest u h => cbsGetUtf8_iff.mp h⟩
  intro us hvalid
  obtain ⟨bytes, hbytes⟩ := exists_addUtf8All hvalid
  exact ⟨bytes, hbytes, getUtf8All_addUtf8All hbytes (le_refl _)⟩

/-- One code point of each length. -/
theorem utf8_codec_each_length : (∀ u ∈ [0x41, 0xe9, 0x20ac, 0x1f600], isValidCodePoint u = true) ∧
      ∃ bytes, addUtf8All [0x41, 0xe9, 0x20ac, 0x1f600] = some bytes ∧
        getUtf8All bytes.length bytes = some [0x41, 0xe9, 0x20ac, 0x1f600] := by
  have hall : [0x41, 0xe9, 0x20ac, 0x1f600].all isValidCodePoint = true := by decide +kernel
  have hvalid := List.all_eq_true.mp hall
  exact ⟨hvalid, utf8_codec.1 _ hvalid⟩

end AwsLc
