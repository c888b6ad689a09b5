import AwsLc.NameConstraints
import Mathlib.Data.List.Infix

/-!
# Host names under name constraints

A certificate is checked twice: its names against the subtrees of its issuers, by `nc_dns`, and a
host against its names, by `equal_nocase` or `equal_wildcard`.  Both compare bytes up to case, so
that the results are about names in lower case (`lower`): there a match of `nc_dns` is `Within`, and
a wildcard name stands for one label in front of a suffix (`Accepted`).
-/

namespace AwsLc

open List Option CheckType Or

/-! ### Names in lower case -/

abbrev dot : UInt8 := '.'.toUInt8

abbrev star : UInt8 := '*'.toUInt8

def lower (s : Bytes) : Bytes := s.map opensslTolower

theorem tolower_eq_dot : ∀ c : UInt8, opensslTolower c = dot ↔ c = dot :=
  forall_byte (by decide +kernel)

theorem tolower_eq_star : ∀ c : UInt8, opensslTolower c = star ↔ c = star :=
  forall_byte (by decide +kernel)

theorem ne_dot_of_label : ∀ c : UInt8, (opensslIsalnum c || c == '-'.toUInt8) = true →
    c ≠ dot ∧ c ≠ star :=
  forall_byte (by decide +kernel)

variable {s : Bytes}

theorem mem_lower {c : UInt8} (hc : ∀ x, opensslTolower x = c ↔ x = c) : c ∈ lower s ↔ c ∈ s := by
  unfold lower
  rw [List.mem_map]
  constructor
  · rintro ⟨x, hx, heq⟩
    rwa [← (hc x).mp heq]
  · intro h
    exact ⟨_, h, (hc _).mpr rfl⟩

theorem mem_lower_dot : dot ∈ lower s ↔ dot ∈ s := mem_lower tolower_eq_dot

theorem mem_lower_star : star ∈ lower s ↔ star ∈ s := mem_lower tolower_eq_star

theorem length_lower (s : Bytes) : (lower s).length = s.length := length_map _

theorem lower_append (a b : Bytes) : lower (a ++ b) = lower a ++ lower b := map_append

theorem lower_dot_cons (s : Bytes) : lower (dot :: s) = dot :: lower s := rfl

theorem lower_star_cons (s : Bytes) : lower (star :: s) = star :: lower s := rfl

theorem lower_removeTrailingDot (s : Bytes) :
    lower (removeTrailingDot s) = removeTrailingDot (lower s) := by
  have hends : endsWithByte (lower s) dot = endsWithByte s dot := by
    unfold endsWithByte lower
    rw [getLast?_map]
    cases s.getLast? with
    | none => rfl
    | some c =>
      rw [map_some, Bool.eq_iff_iff, beq_iff_eq, beq_iff_eq, some_inj,
        some_inj]
      exact tolower_eq_dot c
  unfold removeTrailingDot
  rw [hends]
  split
  · unfold lower
    rw [map_dropLast]
  · rfl

theorem equalNocaseLoop_iff {p : Bytes} (h : p.length = s.length) :
    equalNocaseLoop p s = true ↔ 0 ∉ p ∧ lower p = lower s := by
  induction p generalizing s with
  | nil =>
    rw [length_eq_zero_iff.mp h.symm]
    exact ⟨fun _ => ⟨not_mem_nil, rfl⟩, fun _ => rfl⟩
  | cons l p ih =>
    cases s with
    | nil => cases h
    | cons r s =>
      have ih' := ih (Nat.succ.inj h)
      unfold equalNocaseLoop
      by_cases hzero : l = 0
      · rw [if_pos hzero, hzero]
        simp
      rw [if_neg hzero]
      by_cases hdiff : l ≠ r ∧ opensslTolower l ≠ opensslTolower r
      · rw [if_pos hdiff]
        simp only [Bool.false_eq_true, false_iff]
        intro hsame
        exact hdiff.2 (cons_eq_cons.mp hsame.2).1
      · have hsame : opensslTolower l = opensslTolower r := by
          by_contra hne
          exact hdiff ⟨fun heq => hne (by rw [heq]), hne⟩
        rw [if_neg hdiff, ih']
        unfold lower
        rw [map_cons, map_cons, hsame, mem_cons]
        simp [Ne.symm hzero]

variable {flags : CheckFlags}

theorem equalNocase_iff (hflags : flags.dotSubdomains = false) (p s : Bytes) :
    equalNocase flags p s = true ↔ 0 ∉ p ∧ lower p = lower s := by
  have hskip : skipPrefix flags p s.length = p := by
    unfold skipPrefix
    rw [hflags]
    rfl
  unfold equalNocase
  rw [hskip]
  by_cases hlength : p.length = s.length
  · rw [if_neg (not_not.mpr hlength)]
    exact equalNocaseLoop_iff hlength
  · rw [if_pos hlength]
    simp only [Bool.false_eq_true, false_iff]
    rintro ⟨-, hsame⟩
    have := congrArg length hsame
    rw [length_lower, length_lower] at this
    exact hlength this

theorem equalCaseLoop_iff {a b : Bytes} (h : a.length = b.length) :
    equalCaseLoop a b = true ↔ lower a = lower b := by
  induction a generalizing b with
  | nil =>
    rw [length_eq_zero_iff.mp h.symm]
    exact ⟨fun _ => rfl, fun _ => rfl⟩
  | cons x a ih =>
    cases b with
    | nil => cases h
    | cons y b =>
      have ih' := ih (Nat.succ.inj h)
      unfold equalCaseLoop lower
      rw [map_cons, map_cons, cons_eq_cons]
      by_cases hdiff : opensslTolower x ≠ opensslTolower y
      · rw [if_pos hdiff]
        simp [hdiff]
      · rw [if_neg hdiff, ih']
        rw [not_not] at hdiff
        exact ⟨fun hrest => ⟨hdiff, hrest⟩, fun hboth => hboth.2⟩

theorem equalCaseCbs_iff (a b : Bytes) : equalCaseCbs a b = true ↔ lower a = lower b := by
  unfold equalCaseCbs
  by_cases hlength : a.length = b.length
  · rw [if_neg (not_not.mpr hlength)]
    exact equalCaseLoop_iff hlength
  · rw [if_pos hlength]
    simp only [Bool.false_eq_true, false_iff]
    intro hsame
    have := congrArg length hsame
    rw [length_lower, length_lower] at this
    exact hlength this

theorem hasSuffixCase_iff (a b : Bytes) : hasSuffixCase a b = true ↔ lower b <:+ lower a := by
  unfold hasSuffixCase
  by_cases hshort : a.length < b.length
  · rw [if_pos hshort]
    simp only [Bool.false_eq_true, false_iff]
    intro hsuffix
    have hle := hsuffix.length_le
    rw [length_lower, length_lower] at hle
    omega
  · rw [if_neg hshort, equalCaseCbs_iff]
    unfold lower
    rw [suffix_iff_eq_drop, length_map, length_map, map_drop]
    exact eq_comm

/-- A name matches a base, both in lower case and without a trailing dot.  An excluded base is
also matched by a wildcard that stands for its first label. -/
def Within (excluding : Bool) (dns base : Bytes) : Prop :=
  (excluding = true ∧ ∃ first rest, '.'.toUInt8 ∉ first ∧
      dns = '*'.toUInt8 :: '.'.toUInt8 :: rest ∧ base = first ++ '.'.toUInt8 :: rest) ∨
    (base.head? = some '.'.toUInt8 ∧ base <:+ dns) ∨
    (base.head? ≠ some '.'.toUInt8 ∧ (dns = base ∨ '.'.toUInt8 :: base <:+ dns))

theorem cbsGetUntilFirst_append {first : Bytes} (h : dot ∉ first) (rest : Bytes) :
    cbsGetUntilFirst (first ++ dot :: rest) dot = some (first, dot :: rest) := by
  have hall : ∀ c ∈ first, (decide (c ≠ dot)) = true := by
    intro c hc
    rw [decide_eq_true_iff]
    rintro rfl
    exact h hc
  unfold cbsGetUntilFirst
  rw [if_pos (mem_append_right _ mem_cons_self),
    takeWhile_append_of_pos hall, dropWhile_append_of_pos hall,
    takeWhile_cons_of_neg (by simp), dropWhile_cons_of_neg (by simp), append_nil]

theorem lower_eq_wildcard {t : Bytes} (h : lower s = star :: dot :: t) :
    ∃ rest, s = star :: dot :: rest ∧ lower rest = t := by
  obtain ⟨index, s, rfl, hstar, hs⟩ := map_eq_cons_iff.mp h
  obtain ⟨sep, rest, rfl, hdot, hrest⟩ := map_eq_cons_iff.mp hs
  rw [tolower_eq_star] at hstar
  rw [tolower_eq_dot] at hdot
  exact ⟨rest, by rw [hstar, hdot], hrest⟩

theorem lower_eq_split {first t : Bytes} (h : lower s = first ++ dot :: t) :
    ∃ front rest, s = front ++ dot :: rest ∧ lower front = first ∧ lower rest = t := by
  obtain ⟨front, s, rfl, hfront, hs⟩ := map_eq_append_iff.mp h
  obtain ⟨sep, rest, rfl, hdot, hrest⟩ := map_eq_cons_iff.mp hs
  rw [tolower_eq_dot] at hdot
  exact ⟨front, rest, by rw [hdot], hfront, hrest⟩

theorem wildcardParent_iff (dns base : Bytes) :
    wildcardParent dns base = true ↔ ∃ first rest, dot ∉ first ∧ lower dns = star :: dot :: rest ∧
        lower base = first ++ dot :: rest := by
  unfold wildcardParent
  constructor
  · intro h
    by_cases hstar : dns.take 2 = [star, dot]
    · rw [if_pos hstar] at h
      have hdns : dns = star :: dot :: dns.drop 2 := by
        conv_lhs => rw [← take_append_drop 2 dns, hstar]
        rfl
      by_cases hmem : dot ∈ base
      · obtain ⟨first, rest, rfl, hfirst⟩ := eq_append_cons_of_mem hmem
        rw [cbsGetUntilFirst_append hfirst] at h
        have hsame := (equalCaseCbs_iff _ _).mp h
        refine ⟨lower first, lower rest, mem_lower_dot.not.mpr hfirst, ?_, ?_⟩
        · rw [hdns, lower_star_cons, lower_dot_cons, hsame]
          rfl
        · rw [lower_append, lower_dot_cons]
      · rw [cbsGetUntilFirst, if_neg hmem] at h
        cases h
    · rw [if_neg hstar] at h
      cases h
  · rintro ⟨first, rest, hfirst, hdns, hbase⟩
    obtain ⟨tail, rfl, htail⟩ := lower_eq_wildcard hdns
    obtain ⟨front, behind, rfl, hfront, hbehind⟩ := lower_eq_split hbase
    rw [← hfront, mem_lower_dot] at hfirst
    have hstar : (star :: dot :: tail).take 2 = [star, dot] := rfl
    rw [if_pos hstar, cbsGetUntilFirst_append hfirst]
    exact (equalCaseCbs_iff _ _).mpr (htail.trans hbehind.symm)

theorem startsWith_dot_iff (base : Bytes) :
    startsWith base dot = true ↔ (lower base).head? = some dot := by
  unfold startsWith lower
  rw [beq_iff_eq, head?_map]
  cases base.head? with
  | none => exact ⟨nofun, nofun⟩
  | some c =>
    rw [map_some, some_inj, some_inj]
    exact (tolower_eq_dot c).symm

theorem ncDnsLabels_iff (dns base : Bytes) : ncDnsLabels dns base = .ok ↔
      lower dns = lower base ∨ dot :: lower base <:+ lower dns := by
  have hok : ∀ b : Bool, (if b then X509V.ok else .permittedViolation) = .ok ↔ b = true := by
    decide
  unfold ncDnsLabels
  by_cases hlong : dns.length > base.length
  · rw [if_pos hlong]
    -- the byte in front of the suffix that is as long as the base
    have hlength : (dns.drop (dns.length - base.length - 1)).length = base.length + 1 := by
      rw [length_drop]
      omega
    have hcut := take_append_drop (dns.length - base.length - 1) dns
    have hne : lower dns ≠ lower base := by
      intro hsame
      have := congrArg length hsame
      rw [length_lower, length_lower] at this
      omega
    generalize dns.drop (dns.length - base.length - 1) = tail at hlength hcut
    generalize dns.take (dns.length - base.length - 1) = front at hcut
    cases tail with
    | nil => cases hlength
    | cons sep rest =>
      have hsuffix : (dot :: lower base <:+ lower dns) ↔
          opensslTolower sep = dot ∧ lower rest = lower base := by
        rw [← hcut, lower_append]
        constructor
        · intro h
          have hsame := List.IsSuffix.eq_of_length_le
            (suffix_of_suffix_length_le h (suffix_append _ _)
              (by rw [length_lower, hlength, length_cons, length_lower]))
            (by rw [length_lower, hlength, length_cons, length_lower])
          exact ⟨(cons_eq_cons.mp hsame).1.symm, (cons_eq_cons.mp hsame).2.symm⟩
        · rintro ⟨hdot, hrest⟩
          have heq : lower (sep :: rest) = dot :: lower base := by
            unfold lower at hrest ⊢
            rw [map_cons, hdot, hrest]
          rw [heq]
          exact suffix_append _ _
      rw [hsuffix, tolower_eq_dot]
      dsimp only
      by_cases hdot : sep = dot
      · rw [if_neg (not_not.mpr hdot), hok, equalCaseCbs_iff]
        exact ⟨fun h => inr ⟨hdot, h⟩, fun h => h.elim (fun h => absurd h hne) And.right⟩
      · rw [if_pos hdot]
        simp [hdot, hne]
  · rw [if_neg hlong, hok, equalCaseCbs_iff]
    constructor
    · exact inl
    · rintro (h | h)
      · exact h
      · have hle := h.length_le
        rw [length_cons, length_lower, length_lower] at hle
        omega

/-- `nc_dns` compares names in lower case without their trailing dots. -/
theorem ncDns_iff {base : Bytes} (hbase : base ≠ []) (dns : Bytes) (excluding : Bool) :
    ncDns dns base excluding = .ok ↔
      Within excluding (removeTrailingDot (lower dns)) (removeTrailingDot (lower base)) := by
  have hlength : base.length ≠ 0 := fun h => hbase (length_eq_zero_iff.mp h)
  unfold ncDns Within
  rw [if_neg hlength, ← lower_removeTrailingDot, ← lower_removeTrailingDot]
  dsimp only
  generalize removeTrailingDot dns = dns
  generalize removeTrailingDot base = base
  rw [← wildcardParent_iff, ne_eq, ← startsWith_dot_iff, ← hasSuffixCase_iff, ← ncDnsLabels_iff]
  cases excluding <;> cases wildcardParent dns base <;> cases startsWith base dot <;>
    cases hasSuffixCase dns base <;> simp

theorem ncDns_cases (dns base : Bytes) (excluding : Bool) :
    ncDns dns base excluding = .ok ∨ ncDns dns base excluding = .permittedViolation := by
  unfold ncDns ncDnsLabels
  dsimp only
  split
  · exact inl rfl
  split
  · exact inl rfl
  split
  · split
    · exact inl rfl
    · exact inr rfl
  split
  · split
    · split
      · exact inr rfl
      · split
        · exact inl rfl
        · exact inr rfl
    · exact inr rfl
  · split
    · exact inl rfl
    · exact inr rfl

/-! ### Wildcards -/

/-- The rest of a name of letters, digits and hyphens, after the start of a label or a hyphen. -/
def Labels : (start hyphen : Bool) → Bytes → Prop
  | start, hyphen, [] => start = false ∧ hyphen = false
  | start, hyphen, c :: rest =>
    (opensslIsalnum c = true ∧ Labels false false rest) ∨
      (c = '.'.toUInt8 ∧ start = false ∧ hyphen = false ∧ Labels true false rest) ∨
      (c = '-'.toUInt8 ∧ start = false ∧ Labels false true rest)

theorem validStarLoop_none (p : Bytes) (i : Nat) {state : LabelState} {dots : Nat}
    (h : state.start = false ∨ dots ≠ 0) : validStarLoop p i state dots none = none := by
  induction p generalizing i state dots with
  | nil =>
    unfold validStarLoop
    split <;> rfl
  | cons c p ih =>
    unfold validStarLoop
    by_cases hstar : c = star
    · rw [if_pos hstar]
      by_cases hdots : dots = 0
      · have hstart : state.start = false := h.resolve_right (not_not.mpr hdots)
        rw [hstart]
        split
        · rfl
        · rfl
      · rw [if_pos (inr (inr hdots))]
    rw [if_neg hstar]
    split
    · exact ih _ (inl rfl)
    split
    · split
      · rfl
      · exact ih _ (inr (Nat.succ_ne_zero _))
    split
    · split
      · rfl
      · exact ih _ h
    · rfl

theorem validStarLoop_some {p : Bytes} {i : Nat} {state : LabelState} {dots index found : Nat}
    (h : validStarLoop p i state dots (some index) = some found) :
    found = index ∧ Labels state.start state.hyphen p ∧ 2 ≤ dots + p.count dot := by
  induction p generalizing i state dots with
  | nil =>
    unfold validStarLoop at h
    split at h
    · cases h
    · next hend =>
      cases h
      refine ⟨rfl, ⟨?_, ?_⟩, ?_⟩
      · exact Bool.eq_false_iff.mpr fun hstart => hend (inl hstart)
      · exact Bool.eq_false_iff.mpr fun hhyphen => hend (inr (inl hhyphen))
      · rw [count_nil]
        omega
  | cons c p ih =>
    unfold validStarLoop at h
    by_cases hstar : c = star
    · rw [if_pos hstar, if_pos (inl isSome_some)] at h
      cases h
    rw [if_neg hstar] at h
    by_cases halnum : opensslIsalnum c = true
    · rw [if_pos halnum] at h
      obtain ⟨hfound, hlabels, hdots⟩ := ih h
      exact ⟨hfound, inl ⟨halnum, hlabels⟩, hdots.trans
        (Nat.add_le_add_left (count_le_count_cons) _)⟩
    rw [if_neg halnum] at h
    by_cases hdot : c = dot
    · rw [if_pos hdot] at h
      by_cases hstate : state.hyphen = true ∨ state.start = true
      · rw [if_pos hstate] at h
        cases h
      rw [if_neg hstate] at h
      obtain ⟨hfound, hlabels, hdots⟩ := ih h
      refine ⟨hfound, inr (inl ⟨hdot, ?_, ?_, hlabels⟩), ?_⟩
      · exact Bool.eq_false_iff.mpr fun hstart => hstate (inr hstart)
      · exact Bool.eq_false_iff.mpr fun hhyphen => hstate (inl hhyphen)
      · rw [hdot, count_cons_self]
        omega
    rw [if_neg hdot] at h
    by_cases hhyphen : c = '-'.toUInt8
    · rw [if_pos hhyphen] at h
      by_cases hstart : state.start = true
      · rw [if_pos hstart] at h
        cases h
      rw [if_neg hstart] at h
      obtain ⟨hfound, hlabels, hdots⟩ := ih h
      have hstart' : state.start = false := Bool.eq_false_iff.mpr hstart
      rw [hstart'] at hlabels
      exact ⟨hfound, inr (inr ⟨hhyphen, hstart', hlabels⟩), hdots.trans
        (Nat.add_le_add_left (count_le_count_cons) _)⟩
    · rw [if_neg hhyphen] at h
      cases h

/-- **Wildcard names.**  A valid star is a whole first label, in front of two labels or more. -/
theorem validStar_some {p : Bytes} {index : Nat} (h : validStar p = some index) :
    index = 0 ∧ ∃ rest, p = star :: dot :: rest ∧ Labels true false rest ∧ dot ∈ rest := by
  unfold validStar at h
  cases p with
  | nil => cases h
  | cons c p =>
    unfold validStarLoop at h
    by_cases hstar : c = star
    · rw [if_pos hstar] at h
      split at h
      · cases h
      split at h
      · cases h
      obtain ⟨hfound, hlabels, hdots⟩ := validStarLoop_some h
      refine ⟨hfound, ?_⟩
      next hend =>
      cases p with
      | nil =>
        rw [count_nil] at hdots
        omega
      | cons sep rest =>
        have hdot : sep = dot := by
          by_contra hne
          exact hend (inr fun hor => hor.elim (fun hnil => by cases hnil)
            fun hhead => hne (Option.some.inj hhead))
        cases hdot
        have hrest : Labels true false rest := by
          rcases hlabels with ⟨halnum, -⟩ | ⟨-, -, -, hrest⟩ | ⟨hhyphen, -⟩
          · exact absurd halnum (by decide)
          · exact hrest
          · exact absurd hhyphen (by decide)
        rw [count_cons_self] at hdots
        exact ⟨rest, by rw [hstar], hrest, count_pos_iff.mp (by omega)⟩
    · -- a star that is not the first character is not at the beginning of the first label
      rw [if_neg hstar] at h
      split at h
      · rw [validStarLoop_none _ _ (inl rfl)] at h
        cases h
      split at h
      · split at h
        · cases h
        · next hstate => exact absurd (inr rfl) hstate
      split at h
      · split at h
        · cases h
        · next hstart => exact absurd rfl hstart
      · cases h

theorem labels_getLast {start hyphen : Bool} (h : Labels start hyphen s) :
    s.getLast? ≠ some dot := by
  induction s generalizing start hyphen with
  | nil => exact nofun
  | cons c s ih =>
    cases s with
    | nil =>
      rcases h with ⟨halnum, -⟩ | ⟨-, -, -, ⟨hstart, -⟩⟩ | ⟨-, -, ⟨-, hhyphen⟩⟩
      · intro hdot
        cases hdot
        exact absurd halnum (by decide)
      · cases hstart
      · cases hhyphen
    | cons c' s =>
      rw [getLast?_cons_cons]
      rcases h with ⟨-, hrest⟩ | ⟨-, -, -, hrest⟩ | ⟨-, -, hrest⟩ <;> exact ih hrest

/-- A host that a wildcard name accepts: one label in front of what follows the star. -/
def Accepted (d h : Bytes) : Prop :=
  ∃ rest label, d = '*'.toUInt8 :: '.'.toUInt8 :: rest ∧ Labels true false rest ∧
    '.'.toUInt8 ∈ rest ∧ lower h = label ++ '.'.toUInt8 :: lower rest ∧
      '.'.toUInt8 ∉ label ∧ '*'.toUInt8 ∉ label ∧ label ≠ []

variable {h : Bytes}

theorem wildcardMatch_dot (hflags : flags.dotSubdomains = false) {rest : Bytes}
    (hmatch : wildcardMatch flags [] (dot :: rest) h = true) :
    ∃ label, h = label ++ h.drop label.length ∧ label ≠ [] ∧
      lower (h.drop label.length) = dot :: lower rest ∧
        (label = [star] ∨ ∀ c ∈ label, (opensslIsalnum c || c == '-'.toUInt8) = true) := by
  unfold wildcardMatch at hmatch
  by_cases hshort : h.length < ([] : Bytes).length + (dot :: rest).length
  · rw [if_pos hshort] at hmatch
    cases hmatch
  rw [if_neg hshort] at hmatch
  have hfront : equalNocase flags [] (h.take ([] : Bytes).length) = true :=
    (equalNocase_iff hflags _ _).mpr ⟨not_mem_nil, rfl⟩
  rw [hfront] at hmatch
  simp only [Bool.not_true, Bool.false_eq_true, if_false, length_nil, drop_zero,
    Nat.sub_zero] at hmatch
  by_cases hsuffix : equalNocase flags (h.drop (h.length - (dot :: rest).length))
      (dot :: rest) = true
  · rw [hsuffix] at hmatch
    obtain ⟨-, hsame⟩ := (equalNocase_iff hflags _ _).mp hsuffix
    simp only [Bool.not_true, Bool.false_eq_true, if_false, BEq.rfl, head?_cons,
      Bool.and_self, Bool.true_and, Bool.false_and] at hmatch
    have hlength : (h.take (h.length - (dot :: rest).length)).length =
        h.length - (dot :: rest).length := by
      rw [length_take]
      omega
    have hcut := take_append_drop (h.length - (dot :: rest).length) h
    obtain ⟨label, hlabel⟩ : ∃ label, label = h.take (h.length - (dot :: rest).length) :=
      ⟨_, rfl⟩
    rw [← hlabel] at hmatch hlength hcut
    rw [← hlength] at hcut hsame
    have hchars : label ≠ [] ∧ (label = [star] ∨
        ∀ c ∈ label, (opensslIsalnum c || c == '-'.toUInt8) = true) := by
      by_cases hempty : label = []
      · rw [hempty] at hmatch
        cases hmatch
      · rw [beq_eq_false_iff_ne.mpr hempty, if_neg Bool.false_ne_true] at hmatch
        by_cases hstar : label = [star]
        · exact ⟨hempty, inl hstar⟩
        · rw [if_neg hstar, List.all_eq_true] at hmatch
          exact ⟨hempty, inr hmatch⟩
    exact ⟨label, hcut.symm, hchars.1, hsame, hchars.2⟩
  · rw [Bool.eq_false_iff.mpr hsuffix] at hmatch
    cases hmatch

theorem labels_no_zero {start hyphen : Bool} (h : Labels start hyphen s) : 0 ∉ s := by
  induction s generalizing start hyphen with
  | nil => exact not_mem_nil
  | cons c s ih =>
    rw [mem_cons]
    rcases h with ⟨halnum, hrest⟩ | ⟨hdot, -, -, hrest⟩ | ⟨hhyphen, -, hrest⟩
    · rintro (hzero | hmem)
      · rw [← hzero] at halnum
        exact absurd halnum (by decide)
      · exact ih hrest hmem
    · rintro (hzero | hmem)
      · rw [← hzero] at hdot
        exact absurd hdot (by decide)
      · exact ih hrest hmem
    · rintro (hzero | hmem)
      · rw [← hzero] at hhyphen
        exact absurd hhyphen (by decide)
      · exact ih hrest hmem

/-- **Accepted hosts.**  A host is accepted by a name that is the same up to case, or by a
    wildcard name in place of its first label. -/
theorem accepted_cases (hflags : flags.dotSubdomains = false) {d : Bytes}
    (haccept : equalWildcard flags d h = true ∨ equalNocase flags d h = true) :
    (0 ∉ d ∧ lower d = lower h) ∨ Accepted d h := by
  rcases haccept with hwildcard | hnocase
  · unfold equalWildcard at hwildcard
    dsimp only at hwildcard
    split at hwildcard
    · exact inl ((equalNocase_iff hflags _ _).mp hwildcard)
    · next index hstar =>
      split at hstar
      · cases hstar
      obtain ⟨rfl, rest, rfl, hlabels, hdot⟩ := validStar_some hstar
      obtain ⟨label, hcut, hne, hsame, hchars⟩ := wildcardMatch_dot hflags hwildcard
      rcases hchars with rfl | hchars
      · left
        constructor
        · simp only [mem_cons, not_or]
          exact ⟨by decide, by decide, labels_no_zero hlabels⟩
        · rw [hcut, lower_append, hsame]
          rfl
      · right
        refine ⟨rest, lower label, rfl, hlabels, hdot, ?_, ?_, ?_, ?_⟩
        · conv_lhs => rw [hcut, lower_append, hsame]
        · rw [mem_lower_dot]
          intro hmem
          exact (ne_dot_of_label _ (hchars _ hmem)).1 rfl
        · rw [mem_lower_star]
          intro hmem
          exact (ne_dot_of_label _ (hchars _ hmem)).2 rfl
        · intro hnil
          exact hne (map_eq_nil_iff.mp hnil)
  · exact inl ((equalNocase_iff hflags _ _).mp hnocase)

/-! ### Constraints of accepted hosts -/

theorem removeTrailingDot_labels {rest : Bytes} (hlabels : Labels true false rest)
    (hdot : dot ∈ rest) (front : Bytes) : removeTrailingDot (front ++ dot :: lower rest) =
      front ++ dot :: lower rest := by
  have hlast := labels_getLast hlabels
  have hends : (front ++ dot :: lower rest).getLast? = (lower rest).getLast? := by
    cases hrest : lower rest with
    | nil =>
      rw [map_eq_nil_iff.mp hrest] at hdot
      cases hdot
    | cons c s =>
      rw [getLast?_append, getLast?_cons_cons, getLast?_cons, some_or]
  unfold removeTrailingDot endsWithByte
  rw [hends, if_neg]
  rw [beq_iff_eq]
  unfold lower
  rw [getLast?_map]
  intro heq
  obtain ⟨c, hc, hlower⟩ := map_eq_some_iff.mp heq
  rw [tolower_eq_dot] at hlower
  rw [hlower] at hc
  exact hlast hc

/-- What starts with a dot does not reach into the first label. -/
theorem suffix_of_label {label x : Bytes} (hlabel : dot ∉ label)
    (hx : x.head? = some dot) (h : x <:+ label ++ s) : x <:+ s := by
  rcases suffix_or_suffix_of_suffix h (suffix_append label s) with hle | ⟨t, rfl⟩
  · exact hle
  · cases t with
    | nil => exact suffix_refl s
    | cons c t =>
      obtain ⟨front, hfront⟩ := h
      rw [← append_assoc] at hfront
      have hc : c = dot := Option.some.inj hx
      have hmem : c ∈ label := by
        rw [← append_cancel_right hfront]
        exact mem_append_right _ mem_cons_self
      rw [hc] at hmem
      exact absurd hmem hlabel

theorem within_permitted {d base : Bytes} (haccept : Accepted d h) (hbase : star ∉ base)
    (hwithin : Within false (removeTrailingDot (lower d)) base) :
    Within false (removeTrailingDot (lower h)) base := by
  obtain ⟨rest, label, rfl, hlabels, hdot, hh, -, -, -⟩ := haccept
  have hd : lower (star :: dot :: rest) =
      [star] ++ dot :: lower rest := rfl
  rw [hd, removeTrailingDot_labels hlabels hdot] at hwithin
  rw [hh, removeTrailingDot_labels hlabels hdot]
  have hsuffix := suffix_append label (dot :: lower rest)
  rcases hwithin with ⟨hfalse, -⟩ | ⟨hhead, hmatch⟩ | ⟨hhead, hmatch⟩
  · cases hfalse
  · rcases suffix_cons_iff.mp hmatch with heq | hrest
    · rw [heq] at hbase
      exact absurd mem_cons_self hbase
    · exact inr (inl ⟨hhead, hrest.trans hsuffix⟩)
  · rcases hmatch with heq | hmatch
    · rw [← heq] at hbase
      exact absurd mem_cons_self hbase
    · rcases suffix_cons_iff.mp hmatch with heq | hrest
      · exact absurd (cons_eq_cons.mp heq).1 (by decide)
      · exact inr (inr ⟨hhead, inr (hrest.trans hsuffix)⟩)

theorem within_excluded {d base : Bytes} (haccept : Accepted d h)
    (hwithin : Within true (removeTrailingDot (lower h)) base) :
    Within true (removeTrailingDot (lower d)) base := by
  obtain ⟨rest, label, rfl, hlabels, hdot, hh, hlabel, hstar, hne⟩ := haccept
  have hd : lower (star :: dot :: rest) =
      [star] ++ dot :: lower rest := rfl
  rw [hh, removeTrailingDot_labels hlabels hdot] at hwithin
  rw [hd, removeTrailingDot_labels hlabels hdot]
  have hsuffix := suffix_append [star] (dot :: lower rest)
  rcases hwithin with ⟨-, first, rest', -, heq, -⟩ | ⟨hhead, hmatch⟩ | ⟨hhead, hmatch⟩
  · cases label with
    | nil => exact absurd rfl hne
    | cons c label =>
      rw [(cons_eq_cons.mp heq).1] at hstar
      exact absurd mem_cons_self hstar
  · exact inr (inl ⟨hhead, (suffix_of_label hlabel hhead hmatch).trans hsuffix⟩)
  · rcases hmatch with heq | hmatch
    · -- the base is the host itself, and the wildcard stands for its first label
      exact inl ⟨rfl, label, lower rest, hlabel, rfl, heq.symm⟩
    · exact inr (inr ⟨hhead, inr ((suffix_of_label hlabel rfl hmatch).trans hsuffix)⟩)

theorem mem_removeTrailingDot {c : UInt8} (h : c ∈ removeTrailingDot s) : c ∈ s := by
  unfold removeTrailingDot at h
  split at h
  · exact mem_of_mem_dropLast h
  · exact h

/-- **Host and name.**  A base that permits a name permits the hosts that it accepts, and a base
    that excludes such a host excludes the name. -/
theorem ncDns_of_accepted (hflags : flags.dotSubdomains = false) {d base : Bytes}
    (hbase : star ∉ base)
    (haccept : equalWildcard flags d h = true ∨ equalNocase flags d h = true) :
    (ncDns d base false = .ok → ncDns h base false = .ok) ∧
      (ncDns h base true = .ok → ncDns d base true = .ok) := by
  by_cases hempty : base = []
  · rw [hempty]
    exact ⟨fun _ => rfl, fun _ => rfl⟩
  rw [ncDns_iff hempty, ncDns_iff hempty, ncDns_iff hempty, ncDns_iff hempty]
  rcases accepted_cases hflags haccept with ⟨-, hsame⟩ | haccepted
  · rw [hsame]
    exact ⟨id, id⟩
  · refine ⟨within_permitted haccepted ?_, within_excluded haccepted⟩
    intro hmem
    exact hbase (mem_lower_star.mp (mem_removeTrailingDot hmem))

def dnsBases (subs : List GeneralSubtree) : List (Bytes × Bool) :=
  subs.filterMap fun sub =>
    match sub.base with
    | .dns base => some (base.data, sub.minimum || sub.maximum)
    | _ => none

theorem dnsBases_cons (sub : GeneralSubtree) (subs : List GeneralSubtree) (dns : Asn1String) :
    (GeneralName.sameType (.dns dns) sub.base = false ∧ dnsBases (sub :: subs) = dnsBases subs) ∨
      ∃ base, sub.base = .dns base ∧
        dnsBases (sub :: subs) = (base.data, sub.minimum || sub.maximum) :: dnsBases subs := by
  obtain ⟨base, minimum, maximum⟩ := sub
  cases base with
  | dns base => exact inr ⟨base, rfl, rfl⟩
  | _ => exact inl ⟨rfl, rfl⟩

theorem permittedLoop_dns (dns : Asn1String) (subs : List GeneralSubtree) {found : Nat}
    (hfound : found ≤ 2) (result : Nat) : permittedLoop (.dns dns) subs found = .ok result ↔
      (∀ base ∈ dnsBases subs, base.2 = false) ∧
        result = if found = 2 ∨ ∃ base ∈ dnsBases subs, ncDns dns.data base.1 false = .ok then 2
          else if dnsBases subs = [] then found else 1 := by
  induction subs generalizing found with
  | nil =>
    have hnone : dnsBases [] = [] := rfl
    have hresult : (if found = 2 then 2 else found) = found := by
      split
      · next h => exact h.symm
      · rfl
    unfold permittedLoop
    simp only [hnone, not_mem_nil, false_and, exists_false, or_false, if_true, hresult,
      Except.ok.injEq, false_imp_iff, implies_true, true_and]
    exact eq_comm
  | cons sub subs ih =>
    unfold permittedLoop
    rcases dnsBases_cons sub subs dns with ⟨htype, hbases⟩ | ⟨base, hbase, hbases⟩
    · rw [htype, hbases]
      exact ih hfound
    rw [hbases, hbase, forall_mem_cons]
    show (if (!true) = true then _ else _) = _ ↔ _
    rw [Bool.not_true, if_neg Bool.false_ne_true, if_neg (cons_ne_nil _ _)]
    simp only [exists_mem_cons_iff]
    by_cases hlimits : (sub.minimum || sub.maximum) = true
    · rw [if_pos hlimits, hlimits]
      simp
    rw [if_neg hlimits]
    rw [Bool.not_eq_true] at hlimits
    rw [hlimits]
    simp only [true_and]
    by_cases htwo : found = 2
    · rw [if_pos htwo, if_pos (inl htwo), ih hfound, if_pos (inl htwo)]
    rw [if_neg htwo]
    show (if ncDns dns.data base.data false = .ok then _ else _) = _ ↔ _
    rcases ncDns_cases dns.data base.data false with hmatch | hmatch
    · rw [if_pos hmatch, ih (le_refl 2), if_pos (inl rfl), if_pos (inr (inl hmatch))]
    · have hne : ncDns dns.data base.data false ≠ .ok := by
        rw [hmatch]
        decide
      rw [if_neg hne]
      show (if ncDns dns.data base.data false ≠ .permittedViolation then _ else _) = _ ↔ _
      rw [if_neg (not_not.mpr hmatch), ih (by decide)]
      simp only [htwo, hne, false_or, show (1 : Nat) ≠ 2 by decide, ite_self]

theorem excludedLoop_dns (dns : Asn1String) (subs : List GeneralSubtree) :
    excludedLoop (.dns dns) subs = .ok ↔
      ∀ base ∈ dnsBases subs, base.2 = false ∧ ncDns dns.data base.1 true ≠ .ok := by
  induction subs with
  | nil => exact ⟨fun _ _ hmem => absurd hmem not_mem_nil, fun _ => rfl⟩
  | cons sub subs ih =>
    unfold excludedLoop
    rcases dnsBases_cons sub subs dns with ⟨htype, hbases⟩ | ⟨base, hbase, hbases⟩
    · rw [htype, hbases]
      exact ih
    rw [hbases, hbase, forall_mem_cons, ← ih]
    show (if (!true) = true then _ else _) = _ ↔ _
    rw [Bool.not_true, if_neg Bool.false_ne_true]
    by_cases hlimits : (sub.minimum || sub.maximum) = true
    · rw [if_pos hlimits, hlimits]
      simp
    rw [if_neg hlimits]
    rw [Bool.not_eq_true] at hlimits
    show (if ncDns dns.data base.data true = .ok then X509V.excludedViolation else _) = _ ↔ _
    rcases ncDns_cases dns.data base.data true with hmatch | hmatch
    · rw [if_pos hmatch]
      simp [hmatch]
    · rw [if_neg (by rw [hmatch]; decide)]
      show (if ncDns dns.data base.data true ≠ .permittedViolation then _ else _) = _ ↔ _
      rw [if_neg (not_not.mpr hmatch)]
      simp [hmatch, hlimits]

theorem permittedLoop_error {gen : GeneralName} {subs : List GeneralSubtree} {found : Nat}
    {r : X509V} (h : permittedLoop gen subs found = .error r) : r ≠ .ok := by
  induction subs generalizing found with
  | nil => cases h
  | cons sub subs ih =>
    unfold permittedLoop at h
    split at h
    · exact ih h
    split at h
    · cases h
      decide
    split at h
    · exact ih h
    dsimp only at h
    split at h
    · exact ih h
    · next hne =>
      split at h
      · cases h
        exact hne
      · exact ih h

/-- **A DNS name that passes.**  No subtree has limits, one of the permitted subtrees matches if
    there are any, and none of the excluded ones does. -/
theorem ncMatch_dns_iff (dns : Asn1String) (nc : NameConstraints) : ncMatch (.dns dns) nc = .ok ↔
      (∀ base ∈ dnsBases nc.permittedSubtrees, base.2 = false) ∧
      (dnsBases nc.permittedSubtrees = [] ∨
        ∃ base ∈ dnsBases nc.permittedSubtrees, ncDns dns.data base.1 false = .ok) ∧
      ∀ base ∈ dnsBases nc.excludedSubtrees, base.2 = false ∧ ncDns dns.data base.1 true ≠ .ok := by
  have hloop := @permittedLoop_dns dns nc.permittedSubtrees 0 (by decide)
  rw [← excludedLoop_dns]
  unfold ncMatch
  constructor
  · intro h
    cases hpermitted : permittedLoop (.dns dns) nc.permittedSubtrees 0 with
    | error r =>
      rw [hpermitted] at h
      exact absurd h (permittedLoop_error hpermitted)
    | ok found =>
      rw [hpermitted] at h
      dsimp only at h
      obtain ⟨hlimits, hresult⟩ := (hloop found).mp hpermitted
      by_cases hone : found = 1
      · rw [if_pos hone] at h
        cases h
      rw [if_neg hone] at h
      refine ⟨hlimits, ?_, h⟩
      by_contra hnone
      rw [not_or] at hnone
      rw [if_neg (fun hor => hor.elim (by decide) hnone.2), if_neg hnone.1] at hresult
      exact hone hresult
  · rintro ⟨hlimits, hmatch, hexcluded⟩
    have hpermitted := (hloop _).mpr ⟨hlimits, rfl⟩
    rw [hpermitted]
    dsimp only
    rw [if_neg]
    · exact hexcluded
    · split
      · decide
      · next hnone =>
        rw [if_pos (hmatch.resolve_right fun hsome => hnone (inr hsome))]
        decide

def NameConstraints.Starless (nc : NameConstraints) : Prop :=
  ∀ base ∈ dnsBases nc.permittedSubtrees ++ dnsBases nc.excludedSubtrees, '*'.toUInt8 ∉ base.1

theorem ncMatch_of_accepted (hflags : flags.dotSubdomains = false) {dns host : Asn1String}
    {nc : NameConstraints} (hnc : nc.Starless)
    (haccept : equalWildcard flags dns.data host.data = true ∨
      equalNocase flags dns.data host.data = true) (h : ncMatch (.dns dns) nc = .ok) :
    ncMatch (.dns host) nc = .ok := by
  rw [ncMatch_dns_iff] at h ⊢
  obtain ⟨hlimits, hpermitted, hexcluded⟩ := h
  refine ⟨hlimits, hpermitted.imp_right ?_, ?_⟩
  · rintro ⟨base, hmem, hok⟩
    have hbase := hnc base (mem_append_left _ hmem)
    exact ⟨base, hmem, (ncDns_of_accepted hflags hbase haccept).1 hok⟩
  · intro base hmem
    have hbase := hnc base (mem_append_right _ hmem)
    obtain ⟨hlimit, hout⟩ := hexcluded base hmem
    exact ⟨hlimit, fun hok => hout ((ncDns_of_accepted hflags hbase haccept).2 hok)⟩

/-! ### The names of a certificate -/

theorem firstNonzero_eq_one {check : Asn1String → Int} {strings : List Asn1String}
    (h : firstNonzero check strings = 1) : ∃ a ∈ strings, check a = 1 := by
  induction strings with
  | nil => cases h
  | cons a strings ih =>
    unfold firstNonzero at h
    split at h
    · exact ⟨a, mem_cons_self, h⟩
    · obtain ⟨b, hmem, hb⟩ := ih h
      exact ⟨b, mem_cons_of_mem a hmem, hb⟩

theorem equal_dns {flags' : CheckFlags} {p : Bytes} (h : dns.equal flags flags' p s = true) :
    equalWildcard flags' p s = true ∨ equalNocase flags' p s = true := by
  unfold equal at h
  dsimp only at h
  split at h
  · exact inr h
  · exact inl h

theorem x509CheckHost_eq_one {toUtf8 : Asn1String → Option Bytes} {x : X509}
    (hcheck : x509CheckHost toUtf8 x h h.length flags = 1) :
    doX509Check toUtf8 x h flags .dns = 1 := by
  unfold x509CheckHost at hcheck
  split at hcheck
  · next hzero =>
    rw [length_eq_zero_iff.mp hzero] at hcheck ⊢
    exact hcheck
  · split at hcheck
    · cases hcheck
    · rwa [take_length] at hcheck

theorem doX509Check_dns {toUtf8 : Asn1String → Option Bytes} {x : X509}
    (hcheck : doX509Check toUtf8 x h flags .dns = 1) :
    (∃ d ∈ altNamesOf .dns x, d.type = .ia5String ∧
      dns.equal flags (dns.flagsFor flags h) d.data h = true) ∨
    ((altNamesOf .dns x = [] ∨ flags.alwaysCheckSubject = true) ∧
      flags.neverCheckSubject = false ∧ ∃ cn ∈ subjectOf .commonName x,
        ∃ value, toUtf8 cn = some value ∧
          dns.equal flags (dns.flagsFor flags h) value h = true) := by
  unfold doX509Check at hcheck
  dsimp only at hcheck
  split at hcheck
  · left
    obtain ⟨d, hmem, hd⟩ := firstNonzero_eq_one hcheck
    refine ⟨d, hmem, ?_⟩
    unfold doCheckString at hd
    dsimp only at hd
    split at hd
    · cases hd
    split at hd
    · cases hd
    · next htype =>
      refine ⟨(not_not.mp htype).symm, ?_⟩
      rw [if_pos (show dns.altType = .ia5String from rfl)] at hd
      split at hd
      · next heq => exact heq
      · cases hd
  · right
    split at hcheck
    · cases hcheck
    · next hsan =>
      constructor
      · by_contra hnot
        rw [not_or] at hnot
        exact hsan ⟨hnot.1, Bool.eq_false_iff.mpr hnot.2⟩
      · dsimp only [cnid] at hcheck
        split at hcheck
        · cases hcheck
        next hnever =>
        obtain ⟨cn, hmem, hcn⟩ := firstNonzero_eq_one hcheck
        refine ⟨Bool.eq_false_iff.mpr hnever, cn, hmem, ?_⟩
        unfold doCheckString at hcn
        dsimp only at hcn
        split at hcn
        · cases hcn
        split at hcn
        · cases hcn
        · next value hvalue =>
          refine ⟨value, hvalue, ?_⟩
          split at hcn
          · next heq => exact heq
          · cases hcn

theorem flagsFor_dot (hhead : h.head? ≠ some dot) (flags : CheckFlags) :
    (dns.flagsFor flags h).dotSubdomains = false := by
  unfold flagsFor
  rw [decide_eq_false_iff_not]
  exact fun hdot => hhead hdot.2.2

/-- **DNS constraints and host names.** For every dNSName, every host without a leading dot that
    it accepts and every base without a star: if the base permits the name it permits the host,
    and if it excludes the host it excludes the name. A certificate whose dNSNames all pass the
    constraints of an issuer authenticates only hosts that pass, unless a common name accepts the
    host and the common names are looked at. -/
theorem dns_constraints_agree :
    (∀ (flags : CheckFlags) (d h base : Bytes), h.head? ≠ some '.'.toUInt8 → '*'.toUInt8 ∉ base →
      (equalWildcard (dns.flagsFor flags h) d h = true ∨
        equalNocase (dns.flagsFor flags h) d h = true) →
      (ncDns d base false = .ok → ncDns h base false = .ok) ∧
        (ncDns h base true = .ok → ncDns d base true = .ok)) ∧
    (∀ (toUtf8 : Asn1String → Option Bytes) (x : X509) (h : Bytes) (flags : CheckFlags)
      (nc : NameConstraints), h.head? ≠ some '.'.toUInt8 → nc.Starless →
      (∀ d ∈ altNamesOf .dns x, ncMatch (.dns d) nc = .ok) →
      x509CheckHost toUtf8 x h h.length flags = 1 → ncMatch (.dns ⟨.ia5String, h⟩) nc = .ok ∨
        ((altNamesOf .dns x = [] ∨ flags.alwaysCheckSubject = true) ∧
          ∃ cn ∈ subjectOf .commonName x, ∃ value, toUtf8 cn = some value ∧
            dns.equal flags (dns.flagsFor flags h) value h = true)) := by
  constructor
  · intro flags d h base hhead hbase haccept
    exact ncDns_of_accepted (flagsFor_dot hhead flags) hbase haccept
  · intro toUtf8 x h flags nc hhead hnc hpass hcheck
    rcases doX509Check_dns (x509CheckHost_eq_one hcheck) with ⟨d, hmem, -, hequal⟩ |
      ⟨hlooked, -, hcn⟩
    · left
      exact ncMatch_of_accepted (flagsFor_dot hhead flags) hnc (equal_dns hequal) (hpass d hmem)
    · exact inr ⟨hlooked, hcn⟩

end AwsLc
