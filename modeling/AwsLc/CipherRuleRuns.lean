import AwsLc.CipherRules

/-!
# Runs of cipher strings

What every rule leaves of the list: each cipher that was not removed stands in it once, linked in
both directions, and the inactive ones come first.  A string that is accepted has closed its last
group.
-/

namespace AwsLc

open Linked List CipherRule

/-! ### What rules keep -/

def killedBy (rules : List CipherRule) (cipher : SslCipher) : Bool :=
  rules.any fun rule => rule.rule = .kill && rule.selects cipher

/-- The list passes through `order`, which holds each of the ciphers once that the rules have not
    removed, the inactive ones first. -/
structure Arranged (ciphers : List SslCipher) (rules : List CipherRule) (list : CipherList)
    (order : List Nat) : Prop where
  holds : list.links.Holds order
  once : (order.map fun i => (list.coList i).cipher).Perm
    (ciphers.filter fun cipher => !killedBy rules cipher)
  inactiveFirst : order.Pairwise fun i j =>
    (list.coList i).active = true → (list.coList j).active = true

section

variable {ciphers : List SslCipher} {rules : List CipherRule} {rule : CipherRule}
  {list : CipherList} {order : List Nat}

theorem killedBy_append (rules : List CipherRule) (rule : CipherRule) (cipher : SslCipher) :
    killedBy (rules ++ [rule]) cipher =
      (killedBy rules cipher || (rule.rule = .kill && rule.selects cipher)) := by
  rw [killedBy, any_append, any_cons, any_nil, Bool.or_false]
  rfl

theorem Arranged.length_le (h : Arranged ciphers rules list order) :
    order.length ≤ ciphers.length := by
  have hlength := h.once.length_eq
  rw [length_map] at hlength
  rw [hlength]
  exact length_filter_le ..

variable (data : Nat → SslCipher × Bool × Bool)

theorem reorder_perm (hkill : rule.rule ≠ .kill) : (rule.reorder data order).Perm order := by
  have hsplit := filter_append_perm (fun i => rule.affects (data i)) order
  unfold reorder placed
  rw [if_neg hkill]
  split
  · exact hsplit
  · exact perm_append_comm.trans hsplit

theorem reorder_kill (hkill : rule.rule = .kill) :
    rule.reorder data order = order.filter fun i => !rule.selects (data i).1 := by
  have hdel : rule.rule ≠ .del := by
    rw [hkill]
    decide
  rw [reorder, if_neg hdel, placed, if_pos hkill, append_nil]
  apply filter_congr
  intro i _
  simp [affects, hkill]

theorem reorder_add (hadd : rule.rule = .add) :
    rule.reorder data order = order.filter (fun i => !rule.affects (data i)) ++
      order.filter (fun i => rule.affects (data i)) := by
  have hdel : rule.rule ≠ .del := by
    rw [hadd]
    decide
  have hkill : rule.rule ≠ .kill := by
    rw [hadd]
    decide
  rw [reorder, if_neg hdel, placed, if_neg hkill]

theorem mem_of_mem_reorder {data : Nat → SslCipher × Bool × Bool} {i : Nat}
    (h : i ∈ rule.reorder data order) : i ∈ order := by
  by_cases hkill : rule.rule = .kill
  · rw [reorder_kill data hkill] at h
    exact (mem_filter.mp h).1
  · exact (reorder_perm data hkill).mem_iff.mp h

theorem change_cipher (rule : CipherRule) (data : SslCipher × Bool × Bool) :
    (rule.change data).1 = data.1 := by
  obtain ⟨cipher, active, inGroup⟩ := data
  unfold change
  cases rule.rule with
  | add => rfl
  | kill => rfl
  | del => rfl
  | ord => rfl
  | special => rfl

theorem change_active {data : SslCipher × Bool × Bool} (haffects : rule.affects data = true)
    (hdel : rule.rule ≠ .del) (hkill : rule.rule ≠ .kill) : (rule.change data).2.1 = true := by
  obtain ⟨cipher, active, inGroup⟩ := data
  unfold change
  unfold affects at haffects
  cases hrule : rule.rule with
  | add => rfl
  | kill => exact absurd hrule hkill
  | del => exact absurd hrule hdel
  | ord =>
    simp only [hrule, Bool.and_eq_true] at haffects
    exact haffects.2
  | special =>
    simp only [hrule, Bool.and_false, Bool.false_eq_true] at haffects

theorem reorder_inactiveFirst {data after : Nat → SslCipher × Bool × Bool}
    (h : order.Pairwise fun i j => (data i).2.1 = true → (data j).2.1 = true)
    (hafter : ∀ i ∈ order,
      after i = if rule.affects (data i) then rule.change (data i) else data i) :
    (rule.reorder data order).Pairwise fun i j => (after i).2.1 = true → (after j).2.1 = true := by
  have hkept : (order.filter fun i => !rule.affects (data i)).Pairwise fun i j =>
      (after i).2.1 = true → (after j).2.1 = true := by
    refine (h.filter _).imp_of_mem ?_
    intro i j hi hj hij
    obtain ⟨hi, hiKept⟩ := mem_filter.mp hi
    obtain ⟨hj, hjKept⟩ := mem_filter.mp hj
    rw [hafter i hi, hafter j hj, if_neg (by simpa using hiKept), if_neg (by simpa using hjKept)]
    exact hij
  have hmoved : ∀ i ∈ order.filter fun i => rule.affects (data i),
      rule.affects (data i) = true ∧ after i = rule.change (data i) := by
    intro i hi
    obtain ⟨hi, haffects⟩ := mem_filter.mp hi
    rw [hafter i hi, if_pos haffects]
    exact ⟨haffects, rfl⟩
  unfold reorder placed
  by_cases hdel : rule.rule = .del
  · -- what is deleted is inactive and comes first
    rw [if_pos hdel]
    have hinactive : ∀ i ∈ order.filter fun i => rule.affects (data i), (after i).2.1 = false := by
      intro i hi
      rw [(hmoved i hi).2, change, hdel]
    refine pairwise_append.mpr ⟨pairwise_of_forall_mem_list ?_, hkept, ?_⟩
    all_goals
      intro i hi j _ hactive
      rw [hinactive i hi] at hactive
      cases hactive
  rw [if_neg hdel]
  by_cases hkill : rule.rule = .kill
  · rw [if_pos hkill, append_nil]
    exact hkept
  · rw [if_neg hkill]
    have hactive : ∀ i ∈ order.filter fun i => rule.affects (data i), (after i).2.1 = true := by
      intro i hi
      rw [(hmoved i hi).2]
      exact change_active (hmoved i hi).1 hdel hkill
    refine pairwise_append.mpr ⟨hkept, pairwise_of_forall_mem_list ?_, ?_⟩
    all_goals
      intro i _ j hj _
      exact hactive j hj

/-- **A rule keeps the list arranged.** -/
theorem Arranged.apply (h : Arranged ciphers rules list order)
    (hciphers : ciphers.length ≤ kCiphers.length) (rule : CipherRule) :
    Arranged ciphers (rules ++ [rule]) (sslCipherApplyRule rule list)
      (rule.reorder list.data order) := by
  obtain ⟨hholds, hdata⟩ := @sslCipherApplyRule_holds rule _ _ h.holds
    (h.length_le.trans hciphers)
  have hcipher : ∀ i, ((sslCipherApplyRule rule list).coList i).cipher =
      (list.coList i).cipher := by
    intro i
    have hi := congrArg Prod.fst (hdata i)
    rw [apply_ite Prod.fst, change_cipher, ite_self] at hi
    exact hi
  refine ⟨hholds, ?_, ?_⟩
  · simp only [hcipher]
    by_cases hkill : rule.rule = .kill
    · -- the ciphers that the rule selects are gone
      have hremaining := h.once.filter fun cipher => !rule.selects cipher
      rw [filter_map, filter_filter] at hremaining
      rw [reorder_kill _ hkill]
      refine hremaining.trans (List.Perm.of_eq ?_)
      apply filter_congr
      intro cipher _
      rw [killedBy_append, decide_eq_true hkill, Bool.not_or, Bool.true_and, Bool.and_comm]
    · have hsame : (fun cipher => !killedBy (rules ++ [rule]) cipher) =
          fun cipher => !killedBy rules cipher := by
        funext cipher
        rw [killedBy_append, decide_eq_false hkill, Bool.false_and, Bool.or_false]
      rw [hsame]
      exact ((reorder_perm _ hkill).map _).trans h.once
  · have hbefore : order.Pairwise fun i j =>
        (list.data i).2.1 = true → (list.data j).2.1 = true := h.inactiveFirst
    have hafter : ∀ i ∈ order, (sslCipherApplyRule rule list).data i =
        if rule.affects (list.data i) then rule.change (list.data i) else list.data i := by
      intro i hi
      refine (hdata i).trans ?_
      simp [hi]
    have hpairwise := reorder_inactiveFirst hbefore hafter
    exact hpairwise

/-- What is known of the groups.  Ciphers are marked as continuing one only where a bracket has
    been read, and the last of the list is not, where none is open. -/
structure Grouped (inGroup hasGroup : Bool) (list : CipherList) (order : List Nat) : Prop where
  within : inGroup = true → hasGroup = true
  ungrouped : hasGroup = false → ∀ i ∈ order,
    (list.coList i).active = true → (list.coList i).inGroup = false
  closed : inGroup = false → ∀ i, order.getLast? = some i →
    (list.coList i).active = true → (list.coList i).inGroup = false

theorem Grouped.outside {inGroup hasGroup : Bool} (h : Grouped inGroup hasGroup list order)
    (hnone : hasGroup = false) : inGroup = false := by
  by_contra hinside
  rw [h.within (Bool.not_eq_false _ ▸ hinside)] at hnone
  cases hnone

theorem change_inGroup {data : SslCipher × Bool × Bool} (haffects : rule.affects data = true)
    (hgroup : rule.inGroup = false) (hkill : rule.rule ≠ .kill) :
    (rule.change data).2.2 = false := by
  obtain ⟨cipher, active, inGroup⟩ := data
  unfold change
  unfold affects at haffects
  cases hrule : rule.rule with
  | add => exact hgroup
  | kill => exact absurd hrule hkill
  | del => rfl
  | ord => rfl
  | special => simp only [hrule, Bool.and_false, Bool.false_eq_true] at haffects

theorem data_of_mem_reorder {after : CipherList} {i : Nat}
    (hafter : ∀ i, after.data i = if i ∈ order ∧ rule.affects (list.data i) then
      rule.change (list.data i) else list.data i) (hi : i ∈ rule.reorder list.data order) :
    (rule.affects (list.data i) = true ∧ rule.rule ≠ .kill ∧
        after.data i = rule.change (list.data i)) ∨
      (rule.affects (list.data i) = false ∧ after.data i = list.data i) := by
  have horder := mem_of_mem_reorder hi
  by_cases haffects : rule.affects (list.data i) = true
  · refine .inl ⟨haffects, ?_, ?_⟩
    · intro hkill
      rw [reorder_kill _ hkill] at hi
      have hselects : rule.selects (list.data i).1 = true := (Bool.and_eq_true_iff.mp haffects).1
      have hkept := (mem_filter.mp hi).2
      rw [hselects] at hkept
      cases hkept
    · rw [hafter, if_pos ⟨horder, haffects⟩]
  · refine .inr ⟨Bool.eq_false_iff.mpr haffects, ?_⟩
    rw [hafter, if_neg fun h => haffects h.2]

/-- **A rule and the groups.**  Once a bracket has been read, ciphers are only added. -/
theorem Grouped.apply {inGroup hasGroup : Bool} (h : Grouped inGroup hasGroup list order)
    (hholds : list.links.Holds order) (hlength : order.length ≤ kCiphers.length)
    (hrule : hasGroup = true → rule.rule = .add) (hgroup : rule.inGroup = inGroup) :
    Grouped inGroup hasGroup (sslCipherApplyRule rule list) (rule.reorder list.data order) := by
  obtain ⟨-, hdata⟩ := @sslCipherApplyRule_holds rule _ _ hholds hlength
  have hungrouped : hasGroup = false → ∀ i ∈ rule.reorder list.data order,
      ((sslCipherApplyRule rule list).data i).2.1 = true →
      ((sslCipherApplyRule rule list).data i).2.2 = false := by
    intro hnone i hi hactive
    have houtside := h.outside hnone
    rcases data_of_mem_reorder hdata hi with ⟨haffects, hkill, hchange⟩ | ⟨-, hsame⟩
    · rw [hchange]
      exact change_inGroup haffects (hgroup.trans houtside) hkill
    · rw [hsame] at hactive ⊢
      exact h.ungrouped hnone i (mem_of_mem_reorder hi) hactive
  refine ⟨h.within, hungrouped, ?_⟩
  intro houtside i hlast hactive
  have hi := mem_of_getLast? hlast
  by_cases hnone : hasGroup = false
  · exact hungrouped hnone i hi hactive
  have hadd := hrule (Bool.not_eq_false _ ▸ hnone)
  rcases data_of_mem_reorder hdata hi with ⟨haffects, hkill, hchange⟩ | ⟨hunaffected, hsame⟩
  · have hoff := change_inGroup haffects (hgroup.trans houtside) hkill
    rw [← hchange] at hoff
    exact hoff
  · -- nothing was added behind the last one
    rw [reorder_add _ hadd] at hlast
    have hnothing : order.filter (fun i => rule.affects (list.data i)) = [] := by
      by_contra hsome
      rw [List.getLast?_append_of_ne_nil _ hsome] at hlast
      have haffects := (mem_filter.mp (mem_of_getLast? hlast)).2
      rw [hunaffected] at haffects
      cases haffects
    have hkept : order.filter (fun i => !rule.affects (list.data i)) = order := by
      apply filter_eq_self.mpr
      intro j hj
      rw [Bool.not_eq_true']
      exact Bool.eq_false_iff.mpr (filter_eq_nil_iff.mp hnothing j hj)
    rw [hnothing, hkept, append_nil] at hlast
    have hactiveBefore : (list.data i).2.1 = true := by
      rw [← hsame]
      exact hactive
    have hoff : (list.data i).2.2 = false := h.closed houtside i hlast hactiveBefore
    rw [← hsame] at hoff
    exact hoff

theorem closeGroup_links (list : CipherList) : list.closeGroup.links = list.links := by
  unfold CipherList.closeGroup
  cases list.tail with
  | none => rfl
  | some tail => exact CipherList.modify_links_of_keeps list tail rfl rfl

theorem closeGroup_data (list : CipherList) (i : Nat) : list.closeGroup.data i =
      ((list.data i).1, (list.data i).2.1, (list.data i).2.2 && list.tail ≠ some i) := by
  unfold CipherList.closeGroup
  cases htail : list.tail with
  | none => simp only [ne_eq, reduceCtorEq, not_false_eq_true, decide_true, Bool.and_true]
  | some tail =>
    simp only [CipherList.modify_data, ne_eq, Option.some.injEq]
    by_cases hi : i = tail
    · subst hi
      simp only [Function.update_self, not_true_eq_false, decide_false, Bool.and_false]
      rfl
    · simp [Function.update_of_ne hi, Ne.symm hi]

theorem Arranged.closeGroup (h : Arranged ciphers rules list order) :
    Arranged ciphers rules list.closeGroup order := by
  have hcipher : ∀ i, (list.closeGroup.coList i).cipher = (list.coList i).cipher := fun i =>
    congrArg Prod.fst (closeGroup_data list i)
  have hactive : ∀ i, (list.closeGroup.coList i).active = (list.coList i).active := fun i =>
    congrArg (fun data => data.2.1) (closeGroup_data list i)
  refine ⟨?_, ?_, ?_⟩
  · rw [closeGroup_links]
    exact h.holds
  · simp only [hcipher]
    exact h.once
  · simp only [hactive]
    exact h.inactiveFirst

theorem Grouped.closeGroup {hasGroup : Bool} (h : Grouped true hasGroup list order)
    (hholds : list.links.Holds order) : Grouped false hasGroup list.closeGroup order := by
  have hinGroup : ∀ i, (list.closeGroup.coList i).inGroup =
      ((list.coList i).inGroup && list.tail ≠ some i) := fun i =>
    congrArg (fun data => data.2.2) (closeGroup_data list i)
  refine ⟨fun h => absurd h (by decide), ?_, ?_⟩
  · intro hnone
    rw [h.within rfl] at hnone
    cases hnone
  · intro _ i hlast _
    have htail : list.tail = some i := hholds.tail_eq.trans hlast
    simp [hinGroup, htail]

theorem Grouped.openGroup (list : CipherList) (order : List Nat) : Grouped true true list order :=
  ⟨fun _ => rfl, fun h => absurd h (by decide), fun h => absurd h (by decide)⟩

end

section

variable (configTls13 : Bool)

theorem collected_next_path (first count : Nat)
    (h : first + count = (collectedCiphers configTls13).length) :
    Path (sslCipherCollectCiphers configTls13).links.next
      (if first < (collectedCiphers configTls13).length then some first else none)
      (List.range' first count) none := by
  induction count generalizing first with
  | zero => exact if_neg (by omega)
  | succ count ih => exact ⟨if_pos (by omega), ih (first + 1) (by omega)⟩

theorem collected_prev_path (count : Nat) (h : count ≤ (collectedCiphers configTls13).length) :
    Path (sslCipherCollectCiphers configTls13).links.prev
      (if 0 < count then some (count - 1) else none) (List.range count).reverse none := by
  induction count with
  | zero => rfl
  | succ count ih =>
    rw [range_succ, reverse_append, reverse_singleton]
    refine ⟨rfl, ?_⟩
    have hprev : (sslCipherCollectCiphers configTls13).links.prev count =
        if 0 < count then some (count - 1) else none := by
      show (if 0 < count ∧ count < (collectedCiphers configTls13).length then some (count - 1)
        else none) = _
      simp [show count < (collectedCiphers configTls13).length by omega]
    rw [hprev]
    exact ih (by omega)

theorem collected_arranged : Arranged (collectedCiphers configTls13) []
    (sslCipherCollectCiphers configTls13) (List.range (collectedCiphers configTls13).length) := by
  refine ⟨⟨?_, collected_prev_path configTls13 _ le_rfl, nodup_range⟩, ?_, ?_⟩
  · rw [range_eq_range']
    exact collected_next_path configTls13 0 _ (Nat.zero_add _)
  · have hall : (collectedCiphers configTls13).filter (fun cipher => !killedBy [] cipher) =
        collectedCiphers configTls13 := filter_true _
    rw [hall]
    apply List.Perm.of_eq
    apply ext_getElem
    · rw [length_map, length_range]
    · intro i hi hlength
      rw [getElem_map, getElem_range]
      show (collectedCiphers configTls13).getD i default = _
      rw [getD_eq_getElem?_getD, List.getElem?_eq_getElem hlength]
      rfl
  · apply pairwise_of_forall_mem_list
    intro i _ j _ hactive
    cases hactive

theorem collected_grouped (order : List Nat) :
    Grouped false false (sslCipherCollectCiphers configTls13) order :=
  ⟨fun h => absurd h (by decide), fun _ _ _ _ => rfl, fun _ _ _ _ => rfl⟩

theorem collected_length_le : (collectedCiphers configTls13).length ≤ kCiphers.length :=
  length_filter_le ..

end

/-! ### Rounds -/

def RuleResult.state : RuleResult → RuleState
  | .next state => state
  | .done _ state => state

/-- The invariant of the outer loop: of the list as it is, and of the lists that were logged. -/
structure RuleState.Sound (configTls13 : Bool) (state : RuleState) : Prop where
  current : ∃ order,
    Arranged (collectedCiphers configTls13) (state.applied.map Prod.fst) state.list order ∧
      Grouped state.inGroup state.hasGroup state.list order
  logged : ∀ before rule list after, state.applied = before ++ (rule, list) :: after →
    ∃ order, Arranged (collectedCiphers configTls13) (before.map Prod.fst ++ [rule]) list order

section

variable {strict configTls13 : Bool} {state : RuleState}
variable (h : state.Sound configTls13)
include h

/-- The string itself is not part of the invariant. -/
theorem RuleState.Sound.read (l : Bytes) :
    RuleState.Sound configTls13 { state with l } := ⟨h.current, h.logged⟩

theorem RuleState.Sound.apply {rule : CipherRule}
    (hrule : state.hasGroup = true → rule.rule = .add) (hgroup : rule.inGroup = state.inGroup) :
    (state.apply rule).Sound configTls13 := by
  obtain ⟨order, harranged, hgrouped⟩ := h.current
  have hlength := harranged.length_le.trans (collected_length_le configTls13)
  have hafter := harranged.apply (collected_length_le configTls13) rule
  refine ⟨⟨rule.reorder state.list.data order, ?_, ?_⟩, ?_⟩
  · have hmap : (state.apply rule).applied.map Prod.fst =
        state.applied.map Prod.fst ++ [rule] := map_append ..
    rw [hmap]
    exact hafter
  · exact hgrouped.apply harranged.holds hlength hrule hgroup
  · intro before entry list after happlied
    -- the last entry of the log is new, the others were there before
    rcases eq_nil_or_concat' after with rfl | ⟨others, last, rfl⟩
    · obtain ⟨hbefore, hlast⟩ := append_inj' happlied rfl
      cases hlast
      rw [← hbefore]
      exact ⟨_, hafter⟩
    · rw [← cons_append, ← append_assoc] at happlied
      exact h.logged before entry list others (append_inj' happlied rfl).1

/-- The rules of a sort, where no bracket has been read. -/
theorem RuleState.Sound.applyAll {rules : List CipherRule} (hnone : state.hasGroup = false)
    (hgroup : ∀ rule ∈ rules, rule.inGroup = state.inGroup) :
    (rules.foldl RuleState.apply state).Sound configTls13 := by
  induction rules generalizing state with
  | nil => exact h
  | cons rule rules ih =>
    have hfirst : state.hasGroup = true → rule.rule = .add := by
      intro hsome
      rw [hnone] at hsome
      cases hsome
    exact ih (h.apply hfirst (hgroup rule mem_cons_self)) hnone
      fun other hother => hgroup other (mem_cons_of_mem rule hother)

omit h

theorem strengthSortRules_inGroup (list : CipherList) :
    ∀ rule ∈ strengthSortRules list, rule.inGroup = false := by
  intro rule hrule
  obtain ⟨bits, -, rfl⟩ := mem_map.mp hrule
  rfl

end

inductive Round (state : RuleState) : RuleResult → Prop where
  | finish : Round state (.done (!state.inGroup) state)
  | reject : Round state (.done false state)
  | read (l : Bytes) (hl : l.length < state.l.length) : Round state (.next { state with l })
  | openGroup (l : Bytes) (hl : l.length < state.l.length) :
      Round state (.next { state with l, inGroup := true, hasGroup := true })
  | closeGroup (l : Bytes) (hl : l.length < state.l.length) (hinside : state.inGroup = true) :
      Round state (.next { state with l, inGroup := false, list := state.list.closeGroup })
  | sort (l : Bytes) (hl : l.length < state.l.length) (hnone : state.hasGroup = false) :
      Round state (.next (sslCipherStrengthSort { state with l }))
  | apply (l : Bytes) (hl : l.length < state.l.length) (rule : CipherRule)
      (hrule : state.hasGroup = true → rule.rule = .add) (hgroup : rule.inGroup = state.inGroup) :
      Round state (.next (RuleState.apply { state with l } rule))

section

variable {strict configTls13 : Bool} {state : RuleState}

theorem readWords_length {rule : CipherRuleType} {multi : Bool}
    {selection selected : Selection} {buf word l rest : Bytes}
    (h : readWords strict configTls13 rule multi selection buf l = some (selected, word, rest)) :
    rest.length + (if buf = [] then 1 else 0) ≤ l.length := by
  induction l generalizing multi selection buf with
  | nil =>
    simp only [readWords] at h
    split at h
    · cases h
    next hbuf =>
      rw [if_neg hbuf]
      split at h
      · cases h
        exact le_rfl
      · obtain ⟨found, -, hfound⟩ := Option.map_eq_some_iff.mp h
        cases hfound
        exact le_rfl
  | cons ch l ih =>
    rw [readWords] at h
    split at h
    · have hlonger := ih h
      rw [if_neg (append_ne_nil_of_right_ne_nil _ (cons_ne_nil _ _))] at hlonger
      rw [length_cons]
      split
      all_goals omega
    split at h
    · cases h
    next hbuf =>
      rw [if_neg hbuf]
      split at h
      · cases h
        exact le_rfl
      split at h
      · cases h
      split at h
      · cases h
        exact le_rfl
      · have hrest := ih h
        rw [if_pos rfl] at hrest
        rw [length_cons]
        omega

theorem ruleCommand_round (rule : CipherRuleType) (ch : UInt8) {l : Bytes}
    (hl : l.length ≤ state.l.length) (hne : 0 < state.l.length) :
    Round state (ruleCommand strict configTls13 rule ch l state) := by
  unfold ruleCommand
  split
  next => exact .reject
  next hgroup =>
    have hrule : state.hasGroup = true → rule = .add := by
      intro hsome
      by_contra hother
      exact hgroup ⟨hsome, hother⟩
    split
    next =>
      apply Round.read
      rw [length_tail]
      omega
    next =>
      split
      next => exact .reject
      next selection buf rest hwords =>
        have hrest := readWords_length hwords
        rw [if_pos rfl] at hrest
        split
        next hspecial =>
          split
          next => exact .reject
          next =>
            have hnone : state.hasGroup = false := by
              by_contra hsome
              cases hspecial.symm.trans (hrule (Bool.not_eq_false _ ▸ hsome))
            refine .sort _ ?_ hnone
            have hdropped := (dropWhile_sublist
              (fun c => decide (c ≠ 0 ∧ ¬isCipherListSeparator c strict = true))
              (l := rest)).length_le
            omega
        next =>
          split
          next => exact .read rest (by omega)
          next => exact .apply rest (by omega) _ hrule rfl

theorem ruleStep_round : Round state (ruleStep strict configTls13 state) := by
  unfold ruleStep
  split
  next => exact .finish
  next ch rest hl =>
    have hlength : state.l.length = rest.length + 1 := by
      rw [hl, length_cons]
    have hrest : rest.length < state.l.length := by omega
    have hwhole : (ch :: rest).length ≤ state.l.length := by rw [hl]
    have hne : 0 < state.l.length := by omega
    split
    next => exact .finish
    next =>
      split
      next hinside =>
        split
        next => exact .closeGroup rest hrest hinside
        next =>
          split
          next => exact .read rest hrest
          next =>
            split
            next => exact .reject
            next => exact ruleCommand_round .add ch hwhole hne
      next =>
        split
        next => exact ruleCommand_round .del ch hrest.le hne
        next =>
          split
          next => exact ruleCommand_round .ord ch hrest.le hne
          next =>
            split
            next => exact ruleCommand_round .kill ch hrest.le hne
            next =>
              split
              next => exact ruleCommand_round .special ch hrest.le hne
              next =>
                split
                next => exact .openGroup rest hrest
                next => exact ruleCommand_round .add ch hwhole hne

/-- **A round keeps the invariant.** -/
theorem Round.sound {result : RuleResult} (hround : Round state result)
    (h : state.Sound configTls13) : result.state.Sound configTls13 := by
  obtain ⟨order, harranged, hgrouped⟩ := h.current
  cases hround with
  | finish => exact h
  | reject => exact h
  | read l hl => exact h.read l
  | openGroup l hl => exact ⟨⟨order, harranged, Grouped.openGroup ..⟩, h.logged⟩
  | closeGroup l hl hinside =>
    rw [hinside] at hgrouped
    exact ⟨⟨order, harranged.closeGroup, hgrouped.closeGroup harranged.holds⟩, h.logged⟩
  | sort l hl hnone =>
    exact (h.read l).applyAll hnone fun rule hrule =>
      (strengthSortRules_inGroup _ rule hrule).trans (hgrouped.outside hnone).symm
  | apply l hl rule hrule hgroup => exact (h.read l).apply hrule hgroup

theorem foldl_apply_l (rules : List CipherRule) (state : RuleState) :
    (rules.foldl RuleState.apply state).l = state.l := by
  induction rules generalizing state with
  | nil => rfl
  | cons rule rules ih => exact ih _

/-- A round that goes on has read some of the string. -/
theorem Round.shorter {after : RuleState} (hround : Round state (.next after)) :
    after.l.length < state.l.length := by
  generalize hresult : RuleResult.next after = result at hround
  cases hround with
  | finish => cases hresult
  | reject => cases hresult
  | sort l hl hnone =>
    cases hresult
    rw [sslCipherStrengthSort, foldl_apply_l]
    exact hl
  | read l hl | openGroup l hl | closeGroup l hl | apply l hl =>
    cases hresult
    exact hl

theorem Round.accepted {after : RuleState} (hround : Round state (.done true after)) :
    after.inGroup = false := by
  generalize hresult : RuleResult.done true after = result at hround
  cases hround with
  | finish =>
    injection hresult with haccepted hafter
    rw [hafter]
    exact (Bool.not_eq_true' _).mp haccepted.symm
  | reject => cases hresult
  | read | openGroup | closeGroup | sort | apply => cases hresult

/-! ### Runs -/

/-- **A run** ends within as many rounds as the string has bytes and one.  It ends in a state in
    which the invariant holds, outside of brackets if the string is accepted. -/
theorem ruleRun_sound {rounds : Nat} (h : state.Sound configTls13)
    (hrounds : state.l.length < rounds) :
    ∃ accepted final, ruleRun strict configTls13 rounds state = .done accepted final ∧
      final.Sound configTls13 ∧ (accepted = true → final.inGroup = false) := by
  induction rounds generalizing state with
  | zero => exact absurd hrounds (Nat.not_lt_zero _)
  | succ rounds ih =>
    have hround : Round state (ruleStep strict configTls13 state) := ruleStep_round
    unfold ruleRun
    split
    next after hnext =>
      rw [hnext] at hround
      have hshorter := hround.shorter
      exact ih (hround.sound h) (by omega)
    next accepted final hdone =>
      rw [hdone] at hround
      refine ⟨accepted, final, rfl, hround.sound h, ?_⟩
      rintro rfl
      exact hround.accepted

end

def CipherList.Contains (list : CipherList) (cipher : SslCipher) : Prop :=
  ∃ order, list.links.Holds order ∧ cipher ∈ order.map fun i => (list.coList i).cipher

variable {rules : List CipherRule}

theorem Arranged.not_contains {ciphers : List SslCipher}
    {list : CipherList} {order : List Nat} {cipher : SslCipher}
    (h : Arranged ciphers rules list order) (hkilled : killedBy rules cipher = true) :
    ¬list.Contains cipher := by
  rintro ⟨other, hholds, hmem⟩
  rw [hholds.forward.unique h.holds.forward] at hmem
  have hkept := (mem_filter.mp (h.once.mem_iff.mp hmem)).2
  rw [hkilled] at hkept
  cases hkept

theorem killedBy_of_mem {rule : CipherRule} {cipher : SslCipher}
    (hrule : rule ∈ rules) (hkill : rule.rule = .kill) (hselects : rule.selects cipher = true) :
    killedBy rules cipher = true := by
  apply any_eq_true.mpr
  refine ⟨rule, hrule, ?_⟩
  rw [decide_eq_true hkill, hselects]
  rfl

theorem RuleState.Sound.killed {configTls13 : Bool} {state : RuleState}
    (h : state.Sound configTls13) {before after : List (CipherRule × CipherList)}
    {rule : CipherRule} {list : CipherList} {cipher : SslCipher}
    (happlied : state.applied = before ++ (rule, list) :: after) (hkill : rule.rule = .kill)
    (hselects : rule.selects cipher = true) :
    ∀ later ∈ list :: after.map Prod.snd ++ [state.list], ¬later.Contains cipher := by
  intro later hlater
  rcases mem_append.mp hlater with hlogged | hlast
  · rcases mem_cons.mp hlogged with rfl | hmem
    · obtain ⟨order, harranged⟩ := h.logged before rule later after happlied
      exact harranged.not_contains
        (killedBy_of_mem (mem_append_right _ mem_cons_self) hkill hselects)
    · obtain ⟨⟨next, later⟩, hentry, rfl⟩ := mem_map.mp hmem
      obtain ⟨between, others, rfl⟩ := append_of_mem hentry
      rw [← cons_append, ← append_assoc] at happlied
      obtain ⟨order, harranged⟩ := h.logged _ next later others happlied
      refine harranged.not_contains (killedBy_of_mem (mem_append_left _ ?_) hkill hselects)
      rw [map_append, map_cons]
      exact mem_append_right _ mem_cons_self
  · rw [mem_singleton.mp hlast]
    obtain ⟨order, harranged, -⟩ := h.current
    refine harranged.not_contains (killedBy_of_mem ?_ hkill hselects)
    rw [happlied, map_append, map_cons]
    exact mem_append_right _ mem_cons_self

theorem Arranged.last_active {ciphers : List SslCipher}
    {list : CipherList} {order : List Nat} {i : Nat} (h : Arranged ciphers rules list order)
    (hi : (order.filter fun i => (list.coList i).active).getLast? = some i) :
    order.getLast? = some i := by
  have hactive := (mem_filter.mp (mem_of_getLast? hi)).2
  rcases eq_nil_or_concat' order with rfl | ⟨others, last, rfl⟩
  · cases hi
  · have hlast : (list.coList last).active = true := by
      rcases mem_append.mp (mem_filter.mp (mem_of_getLast? hi)).1 with hmem | hmem
      · exact (pairwise_append.mp h.inactiveFirst).2.2 i hmem last
          (mem_singleton.mpr rfl) hactive
      · rw [← mem_singleton.mp hmem]
        exact hactive
    simp only [filter_append, filter_cons, hlast, if_true, filter_nil,
      List.getLast?_concat] at hi
    rw [List.getLast?_concat]
    exact hi

theorem kCiphers_nodup : kCiphers.Nodup := by
  refine kCiphers_sorted.imp ?_
  rintro a b hlt rfl
  exact absurd hlt (UInt32.lt_irrefl _)

/-- **Cipher strings keep the list well formed.**  Every string is read to its end or to an error.
    After each rule, the list holds the ciphers that have not been removed, each once, the
    inactive ones first; what `!` has removed is in no list after it; and where the string is
    accepted, the last active cipher ends its group. -/
theorem cipher_string_keeps_list (strict configTls13 : Bool) (ruleStr : Bytes) : ∃ accepted final,
      sslCipherProcessRulestr strict configTls13 ruleStr
        (sslCipherCollectCiphers configTls13) = .done accepted final ∧
      (collectedCiphers configTls13).Nodup ∧
      (∀ before rule list after, final.applied = before ++ (rule, list) :: after →
        ∃ order, Arranged (collectedCiphers configTls13) (before.map Prod.fst ++ [rule])
          list order) ∧ (∀ before rule list after, final.applied = before ++ (rule, list) :: after →
        rule.rule = .kill → ∀ cipher, rule.selects cipher = true →
          ∀ later ∈ list :: after.map Prod.snd ++ [final.list], ¬later.Contains cipher) ∧ ∃ order,
        Arranged (collectedCiphers configTls13) (final.applied.map Prod.fst) final.list order ∧
        (accepted = true → ∀ i,
          (order.filter fun i => (final.list.coList i).active).getLast? = some i →
            (final.list.coList i).inGroup = false) := by
  have hstart : RuleState.Sound configTls13
      { l := ruleStr, inGroup := false, hasGroup := false
        list := sslCipherCollectCiphers configTls13, applied := [] } := by
    refine ⟨⟨_, collected_arranged configTls13, collected_grouped configTls13 _⟩, ?_⟩
    intro before rule list after happlied
    exact absurd happlied.symm (append_ne_nil_of_right_ne_nil _ (cons_ne_nil _ _))
  obtain ⟨accepted, final, hrun, hfinal, haccepted⟩ :=
    @ruleRun_sound strict _ _ _ hstart (Nat.lt_succ_self ruleStr.length)
  obtain ⟨order, harranged, hgrouped⟩ := hfinal.current
  refine ⟨accepted, final, hrun, kCiphers_nodup.filter _, hfinal.logged, ?_, order, harranged, ?_⟩
  · intro before rule list after happlied hkill cipher hselects
    exact hfinal.killed happlied hkill hselects
  · intro haccept i hi
    have hactive := (mem_filter.mp (mem_of_getLast? hi)).2
    exact hgrouped.closed (haccepted haccept) i (harranged.last_active hi) hactive

end AwsLc
