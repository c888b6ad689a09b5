import AwsLc.CipherRuleRuns

/-!
# Sorting by strength (`ssl_cipher.cc`)

`@STRENGTH` sorts the active ciphers by descending strength.  `ssl_cipher_strength_sort` applies one
rule for each strength in use, which moves the ciphers of that strength to the end of the list while
the loop goes through it.
-/

namespace AwsLc

open Linked List

/-! ### Passes that move to the end -/

section Sweep

variable {α : Type} {key : α → Option Nat}

def sweep (key : α → Option Nat) (xs : List α) (b : Nat) : List α :=
  xs.filter (fun x => key x ≠ some b) ++ xs.filter (fun x => key x = some b)

theorem sweep_perm (xs : List α) (b : Nat) : (sweep key xs b).Perm xs := by
  refine perm_append_comm.trans ?_
  simpa using filter_append_perm (fun x => key x = some b) xs

theorem sweep_filter (xs : List α) (b : Nat) (k : Option Nat) :
    ((sweep key xs b).filter fun x => key x = k) = xs.filter fun x => key x = k := by
  rw [sweep, filter_append, filter_filter, filter_filter]
  by_cases hk : k = some b
  · subst hk
    simp
  · have hmoved : (xs.filter fun x => decide (key x = k) && decide (key x = some b)) = [] := by
      rw [filter_eq_nil_iff]
      intro x _ hx
      rw [Bool.and_eq_true, decide_eq_true_eq, decide_eq_true_eq] at hx
      exact hk (hx.1.symm.trans hx.2)
    rw [hmoved, append_nil]
    apply filter_congr
    grind

theorem foldl_sweep_filter (bs : List Nat) (xs : List α) (k : Option Nat) :
    ((bs.foldl (sweep key) xs).filter fun x => key x = k) = xs.filter fun x => key x = k := by
  induction bs generalizing xs with
  | nil => rfl
  | cons b bs ih => exact (ih _).trans (sweep_filter xs b k)

theorem foldl_sweep_perm (bs : List Nat) (xs : List α) : (bs.foldl (sweep key) xs).Perm xs := by
  induction bs generalizing xs with
  | nil => exact List.Perm.refl _
  | cons b bs ih => exact (ih _).trans (sweep_perm xs b)

/-- The elements of the keys `bs` stand behind all others, by descending key. -/
def Descends (key : α → Option Nat) (bs : List Nat) (xs : List α) : Prop :=
  xs.Pairwise fun x y => ∀ b ∈ bs, key x = some b → ∃ c ∈ bs, key y = some c ∧ c ≤ b

theorem Descends.sweep {bs : List Nat} {xs : List α} {b : Nat} (h : Descends key bs xs)
    (hb : ∀ c ∈ bs, b ≤ c) : Descends key (b :: bs) (sweep key xs b) := by
  have hmoved : ∀ y ∈ xs.filter (fun x => key x = some b), key y = some b := by
    intro y hy
    exact of_decide_eq_true (mem_filter.mp hy).2
  have hlast : ∀ x, ∀ y ∈ xs.filter (fun x => key x = some b), ∀ c ∈ b :: bs, key x = some c →
      ∃ d ∈ b :: bs, key y = some d ∧ d ≤ c := by
    intro x y hy c hc _
    exact ⟨b, mem_cons_self, hmoved y hy, (forall_mem_cons.mpr ⟨le_rfl, hb⟩) c hc⟩
  refine pairwise_append.mpr ⟨?_, ?_, fun x _ y hy => hlast x y hy⟩
  · refine (h.filter _).imp_of_mem ?_
    intro x y hx _ hxy c hc hkey
    have hne : key x ≠ some b := of_decide_eq_true (mem_filter.mp hx).2
    rcases mem_cons.mp hc with rfl | hc
    · exact absurd hkey hne
    · obtain ⟨d, hd, hkey', hle⟩ := hxy c hc hkey
      exact ⟨d, mem_cons_of_mem _ hd, hkey', hle⟩
  · exact pairwise_of_forall_mem_list fun x _ y hy => hlast x y hy

/-- **Passes by descending keys** sort the elements of these keys. -/
theorem Descends.foldl_sweep {bs done : List Nat} {xs : List α} (h : Descends key done xs)
    (hbs : bs.Pairwise (· > ·)) (hdone : ∀ b ∈ bs, ∀ c ∈ done, b ≤ c) :
    Descends key (bs.reverse ++ done) (bs.foldl (AwsLc.sweep key) xs) := by
  induction bs generalizing done xs with
  | nil => exact h
  | cons b bs ih =>
    obtain ⟨hfirst, hrest⟩ := pairwise_cons.mp hbs
    have hdone' : ∀ c ∈ bs, ∀ d ∈ b :: done, c ≤ d := by
      intro c hc
      exact forall_mem_cons.mpr
        ⟨Nat.le_of_lt (hfirst c hc), hdone c (mem_cons_of_mem _ hc)⟩
    have hsorted := ih (h.sweep (hdone b mem_cons_self)) hrest hdone'
    rw [reverse_cons, append_assoc]
    exact hsorted

end Sweep

/-! ### The sort -/

def CipherList.strength (list : CipherList) (i : Nat) : Option Nat :=
  if (list.coList i).active then some (sslCipherGetBits (list.coList i).cipher) else none

def CipherList.SameCiphers (list after : CipherList) : Prop :=
  ∀ i, (after.coList i).cipher = (list.coList i).cipher ∧
    (after.coList i).active = (list.coList i).active

variable {list : CipherList} {state : RuleState} {order : List Nat}

theorem CipherList.SameCiphers.strength {after : CipherList} (h : list.SameCiphers after) :
    after.strength = list.strength := by
  funext i
  simp [CipherList.strength, h i]

theorem affects_strengthRule (list : CipherList) (b i : Nat) :
    (strengthRule b).affects (list.data i) = decide (list.strength i = some b) := by
  unfold CipherRule.affects CipherList.data CipherRule.selects strengthRule CipherList.strength
  cases hactive : (list.coList i).active <;> simp [eq_comm]

theorem apply_strengthRule (h : list.links.Holds order) (hlength : order.length ≤ kCiphers.length)
    (b : Nat) :
    (sslCipherApplyRule (strengthRule b) list).links.Holds (sweep list.strength order b) ∧
      list.SameCiphers (sslCipherApplyRule (strengthRule b) list) := by
  obtain ⟨hholds, hdata⟩ := @sslCipherApplyRule_holds (strengthRule b) _ _ h hlength
  constructor
  · simp only [CipherRule.reorder, CipherRule.placed, affects_strengthRule] at hholds
    simpa [sweep, strengthRule] using hholds
  · intro i
    have hi := hdata i
    split at hi
    · exact ⟨congrArg Prod.fst hi, congrArg (fun data => data.2.1) hi⟩
    · exact ⟨congrArg Prod.fst hi, congrArg (fun data => data.2.1) hi⟩

theorem apply_strengthRules (bs : List Nat) (h : state.list.links.Holds order)
    (hlength : order.length ≤ kCiphers.length) :
    let after := ((bs.map strengthRule).foldl RuleState.apply state).list
    after.links.Holds (bs.foldl (sweep state.list.strength) order) ∧
      state.list.SameCiphers after := by
  induction bs generalizing state order with
  | nil => exact ⟨h, fun i => ⟨rfl, rfl⟩⟩
  | cons b bs ih =>
    obtain ⟨hholds, hsame⟩ := apply_strengthRule h hlength b
    have hrest := @ih (state.apply (strengthRule b)) _ hholds
      ((sweep_perm order b).length_eq.trans_le hlength)
    rw [show (state.apply (strengthRule b)).list.strength = _ from hsame.strength] at hrest
    refine ⟨hrest.1, fun i => ?_⟩
    exact ⟨(hrest.2 i).1.trans (hsame i).1, (hrest.2 i).2.trans (hsame i).2⟩

theorem walk_eq {rounds : Nat} {curr : Option Nat} (h : Path list.links.next curr order none)
    (hrounds : order.length ≤ rounds) : list.walk rounds curr = order := by
  induction order generalizing rounds curr with
  | nil =>
    cases h
    cases rounds <;> rfl
  | cons x xs ih =>
    obtain ⟨rfl, hrest⟩ := h
    cases rounds with
    | zero => cases hrounds
    | succ rounds => exact congrArg (x :: ·) (ih hrest (Nat.le_of_succ_le_succ hrounds))

theorem le_foldl_max (xs : List Nat) (m : Nat) :
    m ≤ xs.foldl max m ∧ ∀ x ∈ xs, x ≤ xs.foldl max m := by
  induction xs generalizing m with
  | nil => simp
  | cons y ys ih =>
    obtain ⟨hm, hys⟩ := ih (max m y)
    refine ⟨(le_max_left m y).trans hm, forall_mem_cons.mpr ⟨?_, hys⟩⟩
    exact (le_max_right m y).trans hm

theorem strengthSortRules_eq (h : list.links.Holds order)
    (hlength : order.length ≤ kCiphers.length) :
    ∃ bs : List Nat, strengthSortRules list = bs.map strengthRule ∧ bs.Pairwise (· > ·) ∧
      ∀ i ∈ order, ∀ b, list.strength i = some b → b ∈ bs := by
  have hwalk : list.walk kCiphers.length list.head = order := walk_eq h.forward hlength
  refine ⟨(List.range ((((order.filter fun i => (list.coList i).active).map fun i =>
    sslCipherGetBits (list.coList i).cipher).foldl max 0) + 1)).reverse.filter fun b =>
      ((order.filter fun i => (list.coList i).active).map fun i =>
        sslCipherGetBits (list.coList i).cipher).count b > 0, ?_,
    List.Pairwise.filter _ (pairwise_reverse.mpr pairwise_lt_range), ?_⟩
  · rw [strengthSortRules, hwalk]
  intro i hi b hb
  have hactive : (list.coList i).active = true ∧ sslCipherGetBits (list.coList i).cipher = b := by
    simpa [CipherList.strength] using hb
  have hmem : b ∈ (order.filter fun i => (list.coList i).active).map fun i =>
      sslCipherGetBits (list.coList i).cipher :=
    mem_map.mpr ⟨i, mem_filter.mpr ⟨hi, hactive.1⟩, hactive.2⟩
  simp only [mem_filter, mem_reverse, mem_range, decide_eq_true_eq]
  exact ⟨Nat.lt_succ_of_le ((le_foldl_max _ 0).2 b hmem), count_pos_iff.mpr hmem⟩

/-- **Sorting by strength.**  The list, linked in any order, holds the same ciphers after the sort,
    as active or inactive as before.  The inactive ones stay in their order, the active ones stand
    by descending strength, and those of one strength in the order they had. -/
theorem strength_sort_stable (h : state.list.links.Holds order)
    (hlength : order.length ≤ kCiphers.length) :
    ∃ order', (sslCipherStrengthSort state).list.links.Holds order' ∧ order'.Perm order ∧
      state.list.SameCiphers (sslCipherStrengthSort state).list ∧
      (order'.filter fun i => state.list.strength i = none) =
        order.filter (fun i => state.list.strength i = none) ∧
      (order'.filter fun i => state.list.strength i ≠ none).Pairwise (fun i j =>
        sslCipherGetBits (state.list.coList j).cipher ≤
          sslCipherGetBits (state.list.coList i).cipher) ∧
      ∀ b, (order'.filter fun i => state.list.strength i = some b) =
        order.filter fun i => state.list.strength i = some b := by
  obtain ⟨bs, hrules, hdescending, hall⟩ := strengthSortRules_eq h hlength
  obtain ⟨hholds, hsame⟩ := apply_strengthRules bs h hlength
  rw [← hrules] at hholds hsame
  refine ⟨_, hholds, foldl_sweep_perm bs order, hsame, foldl_sweep_filter bs order none, ?_,
    fun b => foldl_sweep_filter bs order (some b)⟩
  have hnone : Descends state.list.strength [] order := by
    exact pairwise_of_forall fun i j b hb => absurd hb not_mem_nil
  have hsorted := hnone.foldl_sweep hdescending fun b _ c hc => absurd hc not_mem_nil
  have hbits : ∀ {i b}, state.list.strength i = some b →
      sslCipherGetBits (state.list.coList i).cipher = b := by
    intro i b hi
    unfold CipherList.strength at hi
    split at hi
    · exact Option.some.inj hi
    · cases hi
  refine (hsorted.filter _).imp_of_mem ?_
  intro i j hi _ hij
  obtain ⟨hmem, hactive⟩ := mem_filter.mp hi
  obtain ⟨b, hb⟩ := Option.ne_none_iff_exists'.mp (of_decide_eq_true hactive)
  have hused : b ∈ bs.reverse ++ [] := by
    rw [append_nil, mem_reverse]
    exact hall i ((foldl_sweep_perm bs order).mem_iff.mp hmem) b hb
  obtain ⟨c, -, hc, hle⟩ := hij b hused hb
  rw [hbits hb, hbits hc]
  exact hle

/-- The rule that adds the ciphers with an RSA key exchange. -/
def addRsa : CipherRule :=
  { cipherId := 0, algMkey := SSL_kRSA, algAuth := anyAlgorithm, algEnc := anyAlgorithm
    algMac := anyAlgorithm, minVersion := 0, rule := .add, strengthBits := -1, inGroup := false }

def addedRsa : RuleState :=
  RuleState.apply ⟨[], false, false, sslCipherCollectCiphers false, []⟩ addRsa

/-- Six active ciphers of three strengths behind the inactive ones. -/
theorem strength_sort_stable_rsa :
    addedRsa.list.walk 24 addedRsa.list.head = [0, 5, 6, 9, 10, 11, 12, 13, 14, 15, 16, 17, 18,
      19, 20, 21, 22, 23, 1, 2, 3, 4, 7, 8] ∧
    [1, 2, 3, 4, 7, 8].map addedRsa.list.strength =
      [some 112, some 128, some 256, some 128, some 128, some 256] ∧
    (sslCipherStrengthSort addedRsa).list.links.Holds ([0, 5, 6, 9, 10, 11, 12, 13, 14, 15, 16, 17,
      18, 19, 20, 21, 22, 23] ++ [3, 8, 2, 4, 7, 1]) := by
  refine ⟨by decide +kernel, by decide +kernel, ?_⟩
  have harranged := collected_arranged false
  have hlength := harranged.length_le.trans (collected_length_le false)
  obtain ⟨hholds, -⟩ := @sslCipherApplyRule_holds addRsa _ _ harranged.holds hlength
  obtain ⟨order', hsorted, hperm, -⟩ := @strength_sort_stable addedRsa _ hholds (by decide +kernel)
  have hwalk := walk_eq hsorted.forward (hperm.length_eq.trans_le (by decide +kernel : _ ≤ 24))
  rw [← hwalk] at hsorted
  convert hsorted
  decide +kernel

end AwsLc
