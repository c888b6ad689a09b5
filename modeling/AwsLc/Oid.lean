import AwsLc.Base128

/-!
# Object identifiers in text and DER (`cbs.c`, `cbb.c`)

`CBB_add_asn1_oid_from_text` reads decimal components separated by dots and writes them in base 128,
the first two packed into one; `CBS_asn1_oid_to_text` does the reverse.
-/

namespace AwsLc

open AwsLc.Numeral List Option UInt64

/-! ### Reading a text -/

def SHRT_MAX : Nat := 32767

def isDigit (c : UInt8) : Bool := 0x30 ≤ c && c ≤ 0x39

def u64DecimalLoop : Bytes → (v : UInt64) → (seenDigit : Bool) → Option (UInt64 × Bool × Bytes)
  | [], v, seenDigit => some (v, seenDigit, [])
  | c :: rest, v, seenDigit =>
    if !isDigit c then some (v, seenDigit, c :: rest)
    else if (v = 0 ∧ seenDigit) ∨ v > ofNat (2 ^ 64 - 1) / 10 ∨
        v * 10 > ofNat (2 ^ 64 - 1) - (c - 0x30).toUInt64 then none
    else u64DecimalLoop rest (v * 10 + (c - 0x30).toUInt64) true

def cbsGetU64Decimal (cbs : Bytes) : Option (UInt64 × Bytes) := do
  let (v, seenDigit, rest) ← u64DecimalLoop cbs 0 false
  if seenDigit then some (v, rest) else none

def parseDottedDecimal (cbs : Bytes) : Option (UInt64 × Bytes) := do
  let (out, rest) ← cbsGetU64Decimal cbs
  match rest with
  | [] => some (out, [])
  | dot :: rest => if dot = 0x2e ∧ rest.length > 0 then some (out, rest) else none

/-- The loop of `CBB_add_asn1_oid_from_text`.  Every component takes a byte of the text at
    least, so that its length bounds the iterations. -/
def oidComponentsFromText : (fuel : Nat) → Bytes → Option Bytes
  | _, [] => some []
  | 0, _ :: _ => none
  | fuel + 1, cbs => do
    let (a, rest) ← parseDottedDecimal cbs
    let later ← oidComponentsFromText fuel rest
    return addBase128Integer a ++ later

def cbbAddAsn1OidFromText (text : Bytes) : Option Bytes := do
  if text.length > SHRT_MAX then none
  let (a, cbs) ← parseDottedDecimal text
  let (b, cbs) ← parseDottedDecimal cbs
  if a > 2 ∨ (a < 2 ∧ b > 39) ∨ b > ofNat (2 ^ 64 - 1) - 80 then none
  let later ← oidComponentsFromText text.length cbs
  return addBase128Integer (40 * a + b) ++ later

/-! ### Writing a text -/

/-- `add_decimal`: the digits that `snprintf` prints. -/
def addDecimal (v : UInt64) : Bytes :=
  (numeral 10 v.toNat).map fun digit => UInt8.ofNat (0x30 + digit)

def oidComponentsToText : (fuel : Nat) → Bytes → Option Bytes
  | _, [] => some []
  | 0, _ :: _ => none
  | fuel + 1, cbs => do
    let (v, rest) ← parseBase128Integer cbs 0
    let later ← oidComponentsToText fuel rest
    return 0x2e :: addDecimal v ++ later

/-- `CBS_asn1_oid_to_text`, without the terminating zero. -/
def cbsAsn1OidToText (cbs : Bytes) : Option Bytes := do
  let (v, copy) ← parseBase128Integer cbs 0
  let first :=
    if v ≥ 80 then [0x32, 0x2e] ++ addDecimal (v - 80)
    else addDecimal (v / 40) ++ 0x2e :: addDecimal (v % 40)
  let later ← oidComponentsToText cbs.length copy
  return first ++ later

/-- The loop of `CBS_is_valid_asn1_oid`, which ends with the last octet in `prev`. -/
def oidOctetsValid : Bytes → (prev : UInt8) → Bool
  | [], prev => prev &&& 0x80 = 0
  | v :: rest, prev => if prev &&& 0x80 = 0 ∧ v = 0x80 then false else oidOctetsValid rest v

def cbsIsValidAsn1Oid (cbs : Bytes) : Bool :=
  if cbs.length = 0 then false else oidOctetsValid cbs 0

def asciiDigit (digit : Nat) : UInt8 := UInt8.ofNat (0x30 + digit)

theorem asciiDigit_facts : ∀ digit : Fin 10,
    isDigit (asciiDigit digit) = true ∧ (asciiDigit digit - 0x30).toUInt64.toNat = digit := by
  decide +kernel

theorem asciiDigit_of_isDigit {c : UInt8} (h : isDigit c = true) :
    ∃ digit, digit < 10 ∧ c = asciiDigit digit := by
  have hall : ∀ c : UInt8, isDigit c = true →
      c.toNat - 0x30 < 10 ∧ c = asciiDigit (c.toNat - 0x30) := by
    apply forall_byte
    decide +kernel
  exact ⟨_, hall c h⟩

theorem decimal_check_iff {v digit : UInt64} (hdigit : digit.toNat < 10) :
    ¬(v > ofNat (2 ^ 64 - 1) / 10 ∨ v * 10 > ofNat (2 ^ 64 - 1) - digit) ↔
      v.toNat * 10 + digit.toNat < 2 ^ 64 := by
  have hmax : (ofNat (2 ^ 64 - 1)).toNat = 2 ^ 64 - 1 := rfl
  have htenth : (ofNat (2 ^ 64 - 1) / 10).toNat = (2 ^ 64 - 1) / 10 := rfl
  have hsub : (ofNat (2 ^ 64 - 1) - digit).toNat = 2 ^ 64 - 1 - digit.toNat := by
    rw [UInt64.toNat_sub_of_le _ _ (UInt64.le_iff_toNat_le.mpr (by rw [hmax]; omega)), hmax]
  have hmul : (v * 10).toNat = v.toNat * 10 % 2 ^ 64 := UInt64.toNat_mul _ _
  rw [not_or, gt_iff_lt, gt_iff_lt, lt_iff_toNat_lt, lt_iff_toNat_lt, htenth, hsub,
    hmul]
  omega

theorem decimal_step {v digit : UInt64} (hfits : v.toNat * 10 + digit.toNat < 2 ^ 64) :
    (v * 10 + digit).toNat = v.toNat * 10 + digit.toNat := by
  rw [UInt64.toNat_add, UInt64.toNat_mul]
  change (v.toNat * 10 % 2 ^ 64 + digit.toNat) % 2 ^ 64 = _
  omega

structure FollowsDecimal (v : Nat) (seenDigit : Bool) (digits : List Nat) : Prop where
  digit_lt : ∀ digit ∈ digits, digit < 10
  after_zero : seenDigit = true → v = 0 → digits = []
  no_leading_zero : seenDigit = false → ∀ rest, digits = 0 :: rest → rest = []

def EndsNumber (rest : Bytes) : Prop := ∀ c later, rest = c :: later → isDigit c = false

theorem u64DecimalLoop_digits {digits : List Nat} {v : UInt64} {seenDigit : Bool} {rest : Bytes}
    (hrest : EndsNumber rest) (h : FollowsDecimal v.toNat seenDigit digits)
    (hfits : v.toNat * 10 ^ digits.length + value 10 digits < 2 ^ 64) :
    u64DecimalLoop (digits.map asciiDigit ++ rest) v seenDigit =
      some (ofNat (v.toNat * 10 ^ digits.length + value 10 digits),
        seenDigit || digits ≠ [], rest) := by
  induction digits generalizing v seenDigit with
  | nil =>
    rcases rest with _ | ⟨c, later⟩
    · simp [u64DecimalLoop]
    · simp [u64DecimalLoop, hrest c later rfl]
  | cons digit digits ih =>
    obtain ⟨hisDigit, hvalue⟩ := asciiDigit_facts ⟨digit, h.digit_lt digit mem_cons_self⟩
    dsimp only at hisDigit hvalue
    have hpos : 0 < 10 ^ digits.length := Nat.pow_pos (by decide)
    have htotal : (v.toNat * 10 + digit) * 10 ^ digits.length + value 10 digits =
        v.toNat * 10 ^ (digit :: digits).length + value 10 (digit :: digits) := by
      rw [value_cons, length_cons]
      ring
    have hstep : v.toNat * 10 + digit < 2 ^ 64 := by
      have hle := Nat.le_mul_of_pos_right (v.toNat * 10 + digit) hpos
      omega
    have hdigit := h.digit_lt digit mem_cons_self
    have hnext := @decimal_step v (asciiDigit digit - 0x30).toUInt64 (by rw [hvalue]; exact hstep)
    rw [hvalue] at hnext
    have hcheck := (@decimal_check_iff v (asciiDigit digit - 0x30).toUInt64
      (by rw [hvalue]; exact hdigit)).mpr (by rw [hvalue]; exact hstep)
    have hzero : ¬(v = 0 ∧ seenDigit = true) := by
      rintro ⟨rfl, hseen⟩
      cases h.after_zero hseen rfl
    have hfollows :
        FollowsDecimal (v * 10 + (asciiDigit digit - 0x30).toUInt64).toNat true digits := by
      refine ⟨fun d hd => h.digit_lt d (mem_cons_of_mem _ hd), fun _ hnil => ?_, nofun⟩
      rw [hnext, Nat.add_eq_zero_iff, Nat.mul_eq_zero] at hnil
      have hv : v = 0 := UInt64.toNat_inj.mp (hnil.1.resolve_right (by decide))
      cases hseen : seenDigit with
      | true => exact absurd ⟨hv, hseen⟩ hzero
      | false => exact h.no_leading_zero hseen digits (by rw [hnil.2])
    rw [map_cons, cons_append, u64DecimalLoop, if_neg (by simp [hisDigit]),
      if_neg (not_or.mpr ⟨hzero, hcheck⟩),
      ih hfollows (by rw [hnext, htotal]; exact hfits), hnext, htotal]
    simp

theorem u64DecimalLoop_eq_some {cbs rest : Bytes} {v w : UInt64} {seenDigit seen : Bool}
    (h : u64DecimalLoop cbs v seenDigit = some (w, seen, rest))
    (hstart : seenDigit = false → v = 0) :
    ∃ digits, FollowsDecimal v.toNat seenDigit digits ∧ EndsNumber rest ∧
      cbs = digits.map asciiDigit ++ rest ∧
      w.toNat = v.toNat * 10 ^ digits.length + value 10 digits ∧
      seen = (seenDigit || digits ≠ []) := by
  induction cbs generalizing v seenDigit with
  | nil =>
    cases h
    exact ⟨[], ⟨nofun, fun _ _ => rfl, nofun⟩, nofun, rfl, by simp, by simp⟩
  | cons c cbs ih =>
    rw [u64DecimalLoop] at h
    by_cases hdigit : isDigit c = true
    · rw [if_neg (by simp [hdigit])] at h
      obtain ⟨digit, hlt, rfl⟩ := asciiDigit_of_isDigit hdigit
      obtain ⟨-, hvalue⟩ := asciiDigit_facts ⟨digit, hlt⟩
      dsimp only at hvalue
      split at h
      · cases h
      next hcheck =>
      rw [not_or] at hcheck
      obtain ⟨hzero, hcheck⟩ := hcheck
      have hfits := (decimal_check_iff (by rw [hvalue]; exact hlt)).mp hcheck
      have hnext := decimal_step hfits
      rw [hvalue] at hnext
      obtain ⟨digits, hdigits, hends, hcbs, hw, hseen⟩ := ih h nofun
      refine ⟨digit :: digits, ⟨?_, ?_, ?_⟩, hends, ?_, ?_, by simpa using hseen⟩
      · intro d hd
        rcases mem_cons.mp hd with rfl | hd
        · exact hlt
        · exact hdigits.digit_lt d hd
      · intro hseenDigit hv
        exact absurd ⟨UInt64.toNat_inj.mp hv, hseenDigit⟩ hzero
      · intro hunseen later hlater
        obtain ⟨rfl, rfl⟩ := List.cons.inj hlater
        apply hdigits.after_zero rfl
        rw [hnext, hstart hunseen]
        rfl
      · rw [hcbs]
        rfl
      · rw [hw, hnext, value_cons, length_cons]
        ring
    · rw [if_pos (by simpa using hdigit)] at h
      cases h
      refine ⟨[], ⟨nofun, fun _ _ => rfl, nofun⟩, ?_, rfl, by simp, by simp⟩
      intro c' later hc'
      rw [← (List.cons.inj hc').1]
      simpa using hdigit

variable (v : UInt64)

theorem addDecimal_eq : addDecimal v = (numeral 10 v.toNat).map asciiDigit := rfl

/-- **Decimal numbers.**  The parser accepts exactly the digits that are printed, where they end. -/
theorem cbsGetU64Decimal_iff {cbs rest : Bytes} {v : UInt64} :
    cbsGetU64Decimal cbs = some (v, rest) ↔ cbs = addDecimal v ++ rest ∧ EndsNumber rest := by
  constructor
  · intro h
    obtain ⟨⟨w, seen, rest'⟩, hloop, h⟩ := bind_eq_some_iff.mp h
    dsimp only at h
    split at h
    · next hseen =>
      cases h
      obtain ⟨digits, hdigits, hends, hcbs, hvalue, hnonempty⟩ :=
        u64DecimalLoop_eq_some hloop fun _ => rfl
      rw [hseen] at hnonempty
      have hcanonical : Canonical 10 digits :=
        ⟨by simpa using hnonempty.symm, hdigits.digit_lt, hdigits.no_leading_zero rfl⟩
      rw [UInt64.toNat_zero, Nat.zero_mul, Nat.zero_add] at hvalue
      rw [addDecimal_eq, hvalue, numeral_value (by decide) hcanonical]
      exact ⟨hcbs, hends⟩
    · cases h
  · rintro ⟨rfl, hends⟩
    have hcanonical := @canonical_numeral 10 (by decide) v.toNat
    have hloop := @u64DecimalLoop_digits (numeral 10 v.toNat) 0 false rest hends
      ⟨hcanonical.digit_lt, nofun, fun _ => hcanonical.no_leading_zero⟩
    rw [UInt64.toNat_zero, Nat.zero_mul, Nat.zero_add, value_numeral] at hloop
    refine bind_of_eq_some (hloop v.toNat_lt) ?_
    rw [UInt64.ofNat_toNat]
    simp [hcanonical.ne_nil]

/-! ### Texts -/

def dotted : List UInt64 → Bytes
  | [] => []
  | [v] => addDecimal v
  | v :: rest => addDecimal v ++ 0x2e :: dotted rest

theorem addDecimal_ne_nil : addDecimal v ≠ [] := by
  rw [addDecimal_eq]
  simpa using (@canonical_numeral 10 (by decide) v.toNat).ne_nil

theorem dotted_cons {rest : List UInt64} (hrest : rest ≠ []) :
    dotted (v :: rest) = addDecimal v ++ 0x2e :: dotted rest := by
  rcases rest with _ | ⟨next, rest⟩
  · exact absurd rfl hrest
  · rfl

theorem dotted_eq_nil_iff {components : List UInt64} :
    dotted components = [] ↔ components = [] := by
  constructor
  · intro h
    rcases components with _ | ⟨v, _ | ⟨next, rest⟩⟩
    · rfl
    · exact absurd h (addDecimal_ne_nil v)
    · cases append_eq_nil_iff.mp h |>.2
  · rintro rfl
    rfl

theorem endsNumber_dot (rest : Bytes) : EndsNumber (0x2e :: rest) := by
  intro c later h
  rw [← (List.cons.inj h).1]
  rfl

theorem parseDottedDecimal_iff {cbs rest : Bytes} {v : UInt64} :
    parseDottedDecimal cbs = some (v, rest) ↔
      (rest = [] ∧ cbs = addDecimal v) ∨ (rest ≠ [] ∧ cbs = addDecimal v ++ 0x2e :: rest) := by
  constructor
  · intro h
    obtain ⟨⟨v', rest'⟩, hdecimal, hafter⟩ := bind_eq_some_iff.mp h
    obtain ⟨hcbs, -⟩ := cbsGetU64Decimal_iff.mp hdecimal
    rcases rest' with _ | ⟨dot, rest'⟩
    · cases hafter
      exact Or.inl ⟨rfl, hcbs.trans (append_nil _)⟩
    · dsimp only at hafter
      split at hafter
      · next hdot =>
        cases hafter
        exact Or.inr ⟨length_pos_iff.mp hdot.2, by rw [hcbs, hdot.1]⟩
      · cases hafter
  · rintro (⟨rfl, rfl⟩ | ⟨hrest, rfl⟩)
    · have hdecimal := (@cbsGetU64Decimal_iff (addDecimal v) [] v).mpr
        ⟨(append_nil _).symm, nofun⟩
      exact bind_of_eq_some hdecimal rfl
    · have hdecimal := (@cbsGetU64Decimal_iff _ (0x2e :: rest) v).mpr ⟨rfl, endsNumber_dot rest⟩
      exact bind_of_eq_some hdecimal (if_pos ⟨rfl, length_pos_iff.mpr hrest⟩)

theorem parseDottedDecimal_dotted (rest : List UInt64) :
    parseDottedDecimal (dotted (v :: rest)) = some (v, dotted rest) := by
  rw [parseDottedDecimal_iff]
  by_cases hrest : rest = []
  · subst hrest
    exact Or.inl ⟨rfl, rfl⟩
  · refine Or.inr ⟨?_, dotted_cons v hrest⟩
    rwa [ne_eq, dotted_eq_nil_iff]

theorem eq_dotted_of_parse {cbs : Bytes} {v : UInt64} {rest : List UInt64}
    (h : parseDottedDecimal cbs = some (v, dotted rest)) : cbs = dotted (v :: rest) := by
  rcases parseDottedDecimal_iff.mp h with ⟨hnil, rfl⟩ | ⟨hne, rfl⟩
  · rw [dotted_eq_nil_iff.mp hnil]
    rfl
  · rw [ne_eq, dotted_eq_nil_iff] at hne
    rw [dotted_cons v hne]

def componentOctets (components : List UInt64) : Bytes := components.flatMap addBase128Integer

theorem oidComponentsFromText_eq_some {fuel : Nat} {cbs out : Bytes}
    (h : oidComponentsFromText fuel cbs = some out) :
    ∃ components, cbs = dotted components ∧ out = componentOctets components := by
  induction fuel generalizing cbs out with
  | zero =>
    rcases cbs with _ | ⟨c, cbs⟩
    · cases h
      exact ⟨[], rfl, rfl⟩
    · cases h
  | succ fuel ih =>
    rcases cbs with _ | ⟨c, cbs⟩
    · cases h
      exact ⟨[], rfl, rfl⟩
    · obtain ⟨⟨a, rest⟩, hparse, h⟩ := bind_eq_some_iff.mp h
      obtain ⟨later, hlater, h⟩ := bind_eq_some_iff.mp h
      cases h
      obtain ⟨components, rfl, rfl⟩ := ih hlater
      exact ⟨a :: components, eq_dotted_of_parse hparse, rfl⟩

variable (components : List UInt64)

theorem length_dotted : components.length ≤ (dotted components).length := by
  induction components with
  | nil => exact Nat.le_refl 0
  | cons v components ih =>
    have hpos := length_pos_iff.mpr (addDecimal_ne_nil v)
    by_cases hnil : components = []
    · subst hnil
      exact hpos
    · rw [dotted_cons v hnil]
      simp only [length_cons, length_append]
      omega

theorem oidComponentsFromText_dotted {fuel : Nat} {components : List UInt64}
    (hfuel : components.length ≤ fuel) :
    oidComponentsFromText fuel (dotted components) = some (componentOctets components) := by
  induction components generalizing fuel with
  | nil => cases fuel <;> rfl
  | cons v components ih =>
    rw [length_cons] at hfuel
    obtain ⟨fuel, rfl⟩ := Nat.exists_eq_add_one_of_ne_zero (show fuel ≠ 0 by omega)
    have hstep : oidComponentsFromText (fuel + 1) (dotted (v :: components)) = (do
        let (a, rest) ← parseDottedDecimal (dotted (v :: components))
        let later ← oidComponentsFromText fuel rest
        return addBase128Integer a ++ later) := by
      generalize htext : dotted (v :: components) = text
      rcases text with _ | ⟨c, text⟩
      · cases dotted_eq_nil_iff.mp htext
      · rfl
    rw [hstep]
    refine bind_of_eq_some (parseDottedDecimal_dotted v components) ?_
    exact bind_of_eq_some (ih (by omega)) rfl

/-- The numbers that `CBB_add_asn1_oid_from_text` takes as the first two components. -/
structure FirstArcs (a b : UInt64) : Prop where
  first : a ≤ 2
  second : a < 2 → b ≤ 39
  fits : b ≤ ofNat (2 ^ 64 - 1) - 80

theorem firstArcs_iff (a b : UInt64) :
    ¬(a > 2 ∨ (a < 2 ∧ b > 39) ∨ b > ofNat (2 ^ 64 - 1) - 80) ↔ FirstArcs a b := by
  rw [not_or, not_or, not_and, gt_iff_lt, gt_iff_lt, gt_iff_lt, UInt64.not_lt, UInt64.not_lt,
    UInt64.not_lt]
  exact ⟨fun ⟨hfirst, hsecond, hfits⟩ => ⟨hfirst, hsecond, hfits⟩,
    fun h => ⟨h.first, h.second, h.fits⟩⟩

/-- **From text.** -/
theorem cbbAddAsn1OidFromText_iff {text bytes : Bytes} : cbbAddAsn1OidFromText text = some bytes ↔
      text.length ≤ SHRT_MAX ∧ ∃ a b components, FirstArcs a b ∧
        text = dotted (a :: b :: components) ∧
        bytes = addBase128Integer (40 * a + b) ++ componentOctets components := by
  unfold cbbAddAsn1OidFromText
  constructor
  · intro h
    split at h
    · cases h
    next hlength =>
    obtain ⟨⟨a, cbs⟩, hfirst, h⟩ := bind_eq_some_iff.mp h
    obtain ⟨⟨b, rest⟩, hsecond, h⟩ := bind_eq_some_iff.mp h
    dsimp only at h
    split at h
    · cases h
    next hrange =>
    obtain ⟨later, hlater, h⟩ := bind_eq_some_iff.mp h
    cases h
    obtain ⟨components, rfl, rfl⟩ := oidComponentsFromText_eq_some hlater
    have hcbs := eq_dotted_of_parse hsecond
    rw [hcbs] at hfirst
    exact ⟨Nat.le_of_not_lt hlength, a, b, components, (firstArcs_iff a b).mp hrange,
      eq_dotted_of_parse hfirst, rfl⟩
  · rintro ⟨hlength, a, b, components, harcs, rfl, rfl⟩
    have hfuel : components.length ≤ (dotted (a :: b :: components)).length := by
      have := length_dotted (a :: b :: components)
      simp only [length_cons] at this
      omega
    rw [if_neg (by omega)]
    refine bind_of_eq_some (parseDottedDecimal_dotted a (b :: components)) ?_
    refine bind_of_eq_some (parseDottedDecimal_dotted b components) ?_
    dsimp only
    rw [if_neg ((firstArcs_iff a b).mpr harcs)]
    exact bind_of_eq_some (oidComponentsFromText_dotted hfuel) rfl

/-- The first two components of an object identifier whose first integer is `v`. -/
def splitArcs (v : UInt64) : UInt64 × UInt64 := if v ≥ 80 then (2, v - 80) else (v / 40, v % 40)

theorem firstArcs_toNat {a b : UInt64} :
    FirstArcs a b ↔ a.toNat ≤ 2 ∧ (a.toNat < 2 → b.toNat ≤ 39) ∧ b.toNat ≤ 2 ^ 64 - 81 := by
  constructor
  · rintro ⟨hfirst, hsecond, hfits⟩
    exact ⟨le_iff_toNat_le.mp hfirst,
      fun hlt => le_iff_toNat_le.mp (hsecond (lt_iff_toNat_lt.mpr hlt)),
      le_iff_toNat_le.mp hfits⟩
  · rintro ⟨hfirst, hsecond, hfits⟩
    exact ⟨le_iff_toNat_le.mpr hfirst,
      fun hlt => le_iff_toNat_le.mpr (hsecond (lt_iff_toNat_lt.mp hlt)),
      le_iff_toNat_le.mpr hfits⟩

theorem pack_toNat {a b : UInt64} (h : FirstArcs a b) :
    (40 * a + b).toNat = 40 * a.toNat + b.toNat := by
  obtain ⟨hfirst, -, hfits⟩ := firstArcs_toNat.mp h
  rw [UInt64.toNat_add, UInt64.toNat_mul]
  change (40 * a.toNat % 2 ^ 64 + b.toNat) % 2 ^ 64 = _
  omega

theorem splitArcs_toNat : ((splitArcs v).1.toNat, (splitArcs v).2.toNat) =
      if 80 ≤ v.toNat then (2, v.toNat - 80) else (v.toNat / 40, v.toNat % 40) := by
  have hcompare : v ≥ 80 ↔ 80 ≤ v.toNat := le_iff_toNat_le
  unfold splitArcs
  by_cases hlarge : v ≥ 80
  · rw [if_pos hlarge, if_pos (hcompare.mp hlarge)]
    exact congrArg _ (UInt64.toNat_sub_of_le _ _ hlarge)
  · rw [if_neg hlarge, if_neg (fun h => hlarge (hcompare.mpr h)), UInt64.toNat_div,
      UInt64.toNat_mod]
    rfl

theorem pack_splitArcs :
    FirstArcs (splitArcs v).1 (splitArcs v).2 ∧ 40 * (splitArcs v).1 + (splitArcs v).2 = v := by
  have hsplit := splitArcs_toNat v
  have hlt := v.toNat_lt
  have harcs : FirstArcs (splitArcs v).1 (splitArcs v).2 := by
    rw [firstArcs_toNat]
    split at hsplit <;> rw [Prod.mk.injEq] at hsplit <;> omega
  refine ⟨harcs, UInt64.toNat_inj.mp ?_⟩
  rw [pack_toNat harcs]
  split at hsplit <;> rw [Prod.mk.injEq] at hsplit <;> omega

theorem splitArcs_pack {a b : UInt64} (h : FirstArcs a b) : splitArcs (40 * a + b) = (a, b) := by
  have hsplit := splitArcs_toNat (40 * a + b)
  rw [pack_toNat h] at hsplit
  obtain ⟨hfirst, hsecond, hfits⟩ := firstArcs_toNat.mp h
  have hequal : (splitArcs (40 * a + b)).1.toNat = a.toNat ∧
      (splitArcs (40 * a + b)).2.toNat = b.toNat := by
    split at hsplit <;> rw [Prod.mk.injEq] at hsplit <;> omega
  exact Prod.ext (UInt64.toNat_inj.mp hequal.1) (UInt64.toNat_inj.mp hequal.2)

theorem addDecimal_two : addDecimal 2 = [0x32] := by
  simp [addDecimal, numeral]

theorem firstText_eq : (if v ≥ 80 then [0x32, 0x2e] ++ addDecimal (v - 80)
      else addDecimal (v / 40) ++ 0x2e :: addDecimal (v % 40)) =
      addDecimal (splitArcs v).1 ++ 0x2e :: addDecimal (splitArcs v).2 := by
  unfold splitArcs
  split
  · rw [addDecimal_two]
    rfl
  · rfl

def dottedTail (components : List UInt64) : Bytes :=
  components.flatMap fun v => 0x2e :: addDecimal v

theorem dotted_eq_tail : dotted (v :: components) = addDecimal v ++ dottedTail components := by
  induction components generalizing v with
  | nil => exact (append_nil _).symm
  | cons next components ih =>
    rw [dotted_cons v (cons_ne_nil _ _), ih]
    rfl

theorem oidComponentsToText_eq_some {fuel : Nat} {cbs text : Bytes}
    (h : oidComponentsToText fuel cbs = some text) :
    ∃ components, cbs = componentOctets components ∧ text = dottedTail components := by
  induction fuel generalizing cbs text with
  | zero =>
    rcases cbs with _ | ⟨c, cbs⟩
    · cases h
      exact ⟨[], rfl, rfl⟩
    · cases h
  | succ fuel ih =>
    rcases cbs with _ | ⟨c, cbs⟩
    · cases h
      exact ⟨[], rfl, rfl⟩
    · obtain ⟨⟨v, rest⟩, hparse, h⟩ := bind_eq_some_iff.mp h
      obtain ⟨later, hlater, h⟩ := bind_eq_some_iff.mp h
      cases h
      obtain ⟨components, rfl, rfl⟩ := ih hlater
      exact ⟨v :: components, parseBase128Integer_iff.mp hparse, rfl⟩

theorem addBase128Integer_ne_nil : addBase128Integer v ≠ [] := by
  rw [addBase128Integer]
  simp [range_eq_nil]

theorem length_componentOctets : components.length ≤ (componentOctets components).length := by
  induction components with
  | nil => exact Nat.le_refl 0
  | cons v components ih =>
    have hpos := length_pos_iff.mpr (addBase128Integer_ne_nil v)
    rw [componentOctets, flatMap_cons, length_append, length_cons]
    rw [componentOctets] at ih
    omega

theorem oidComponentsToText_octets {fuel : Nat} {components : List UInt64}
    (hfuel : components.length ≤ fuel) :
    oidComponentsToText fuel (componentOctets components) = some (dottedTail components) := by
  induction components generalizing fuel with
  | nil => cases fuel <;> rfl
  | cons v components ih =>
    rw [length_cons] at hfuel
    obtain ⟨fuel, rfl⟩ := Nat.exists_eq_add_one_of_ne_zero (show fuel ≠ 0 by omega)
    have hparse : parseBase128Integer (componentOctets (v :: components)) 0 =
        some (v, componentOctets components) := parseBase128Integer_iff.mpr rfl
    have hstep : oidComponentsToText (fuel + 1) (componentOctets (v :: components)) = (do
        let (v, rest) ← parseBase128Integer (componentOctets (v :: components)) 0
        let later ← oidComponentsToText fuel rest
        return 0x2e :: addDecimal v ++ later) := by
      generalize componentOctets (v :: components) = cbs at hparse
      rcases cbs with _ | ⟨c, cbs⟩
      · cases hparse
      · rfl
    rw [hstep]
    refine bind_of_eq_some hparse ?_
    exact bind_of_eq_some (ih (by omega)) rfl

/-- **To text.** -/
theorem cbsAsn1OidToText_iff {cbs text : Bytes} : cbsAsn1OidToText cbs = some text ↔
      ∃ v components, cbs = addBase128Integer v ++ componentOctets components ∧
        text = dotted ((splitArcs v).1 :: (splitArcs v).2 :: components) := by
  unfold cbsAsn1OidToText
  simp only [firstText_eq]
  constructor
  · intro h
    obtain ⟨⟨v, copy⟩, hparse, h⟩ := bind_eq_some_iff.mp h
    obtain ⟨later, hlater, h⟩ := bind_eq_some_iff.mp h
    cases h
    obtain ⟨components, rfl, rfl⟩ := oidComponentsToText_eq_some hlater
    refine ⟨v, components, parseBase128Integer_iff.mp hparse, ?_⟩
    rw [dotted_eq_tail]
    simp [dottedTail]
  · rintro ⟨v, components, rfl, rfl⟩
    have hfuel : components.length ≤
        (addBase128Integer v ++ componentOctets components).length := by
      have := length_componentOctets components
      rw [length_append]
      omega
    refine bind_of_eq_some (parseBase128Integer_iff.mpr rfl) ?_
    refine bind_of_eq_some (oidComponentsToText_octets hfuel) ?_
    rw [dotted_eq_tail]
    simp [dottedTail]

theorem oidOctetsValid_continued {digits : List Nat} {prev : UInt8} (rest : Bytes)
    (hne : digits ≠ []) (hlt : ∀ digit ∈ digits, digit < 128)
    (hminimal : prev &&& 0x80 = 0 → ∀ later, digits = 0 :: later → later = []) :
    ∃ last, last &&& 0x80 = 0 ∧
      oidOctetsValid (continuedOctets digits ++ rest) prev = oidOctetsValid rest last := by
  induction digits generalizing prev with
  | nil => exact absurd rfl hne
  | cons digit digits ih =>
    obtain ⟨hlast, -, hmore, -, hne', hzero⟩ :=
      octet_facts ⟨digit, hlt digit mem_cons_self⟩
    by_cases hnil : digits = []
    · subst hnil
      refine ⟨UInt8.ofNat digit, hlast, ?_⟩
      rw [continuedOctets, singleton_append, oidOctetsValid]
      exact if_neg fun h => hne' h.2
    · have hfirst : ¬(prev &&& 0x80 = 0 ∧ UInt8.ofNat digit ||| 0x80 = 0x80) := by
        rintro ⟨hprev, heq⟩
        have hdigit : digit = 0 := hzero.mp heq
        exact hnil (hminimal hprev digits (by rw [hdigit]))
      obtain ⟨last, hlastBit, hvalid⟩ := @ih (UInt8.ofNat digit ||| 0x80) hnil
        (fun d hd => hlt d (mem_cons_of_mem _ hd)) (fun h => absurd h hmore)
      refine ⟨last, hlastBit, ?_⟩
      rw [continuedOctets_cons digit hnil, cons_append, oidOctetsValid, if_neg hfirst, hvalid]

theorem oidOctetsValid_base128 {prev : UInt8} (rest : Bytes) : ∃ last, last &&& 0x80 = 0 ∧
      oidOctetsValid (addBase128Integer v ++ rest) prev = oidOctetsValid rest last := by
  have hcanonical := @canonical_numeral 128 (by decide) v.toNat
  rw [addBase128Integer_eq]
  exact oidOctetsValid_continued rest hcanonical.ne_nil hcanonical.digit_lt
    fun _ => hcanonical.no_leading_zero

theorem oidOctetsValid_components {prev : UInt8}
    (hprev : prev &&& 0x80 = 0) : oidOctetsValid (componentOctets components) prev = true := by
  induction components generalizing prev with
  | nil => exact decide_eq_true hprev
  | cons v components ih =>
    obtain ⟨last, hlast, hvalid⟩ := @oidOctetsValid_base128 v prev (componentOctets components)
    exact hvalid.trans (ih hlast)

theorem cbsIsValidAsn1Oid_octets :
    cbsIsValidAsn1Oid (addBase128Integer v ++ componentOctets components) = true := by
  have hne : (addBase128Integer v ++ componentOctets components).length ≠ 0 := by
    simp [addBase128Integer_ne_nil]
  rw [cbsIsValidAsn1Oid, if_neg hne]
  exact @oidOctetsValid_components (v :: components) 0 rfl

/-- **The text codec of object identifiers.**  Whatever `CBB_add_asn1_oid_from_text`
    accepts, its encoding is valid and has that text; and whatever `CBS_asn1_oid_to_text`
    accepts is the encoding of the text it returns, unless that is too long to be read. -/
theorem oid_text_codec : (∀ text bytes, cbbAddAsn1OidFromText text = some bytes →
      cbsIsValidAsn1Oid bytes = true ∧ cbsAsn1OidToText bytes = some text) ∧
    (∀ bytes text, cbsAsn1OidToText bytes = some text → text.length ≤ 32767 →
      cbbAddAsn1OidFromText text = some bytes) := by
  constructor
  · intro text bytes h
    obtain ⟨-, a, b, components, harcs, rfl, rfl⟩ := cbbAddAsn1OidFromText_iff.mp h
    refine ⟨cbsIsValidAsn1Oid_octets _ _, ?_⟩
    rw [cbsAsn1OidToText_iff]
    exact ⟨40 * a + b, components, rfl, by rw [splitArcs_pack harcs]⟩
  · intro bytes text h hlength
    obtain ⟨v, components, rfl, rfl⟩ := cbsAsn1OidToText_iff.mp h
    obtain ⟨harcs, hpack⟩ := pack_splitArcs v
    rw [cbbAddAsn1OidFromText_iff]
    exact ⟨hlength, _, _, components, harcs, rfl, by rw [hpack]⟩

/-- The text `1.2.840`. -/
theorem oid_text_codec_iso_us : cbsIsValidAsn1Oid [0x2a, 0x86, 0x48] = true ∧
      cbsAsn1OidToText [0x2a, 0x86, 0x48] = some [0x31, 0x2e, 0x32, 0x2e, 0x38, 0x34, 0x30] :=
  oid_text_codec.1 [0x31, 0x2e, 0x32, 0x2e, 0x38, 0x34, 0x30] [0x2a, 0x86, 0x48] (by decide)

end AwsLc
