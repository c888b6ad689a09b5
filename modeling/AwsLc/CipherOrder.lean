import AwsLc.Linked
import AwsLc.SslCipher

/-!
# The order of the cipher suites (`ssl_cipher.cc`)

While a cipher string is processed, the cipher suites stand in a doubly linked list whose nodes are
the entries of an array, and whose pointers are indices here.  `ssl_cipher_apply_rule` goes through
the list once and moves or removes the nodes that a rule selects.
-/

namespace AwsLc

open Linked List Function

/-! ### The list -/

structure CipherOrder where
  cipher : SslCipher
  active : Bool
  inGroup : Bool
  next : Option Nat
  prev : Option Nat

structure CipherList where
  coList : Nat → CipherOrder
  head : Option Nat
  tail : Option Nat

open CipherList

variable (list : CipherList)

namespace CipherList

variable (i : Nat)
variable (change : CipherOrder → CipherOrder)

def modify : CipherList :=
  { list with coList := update list.coList i (change (list.coList i)) }

def setNext (next : Option Nat) : CipherList :=
  list.modify i fun node => { node with next }

def setPrev (prev : Option Nat) : CipherList :=
  list.modify i fun node => { node with prev }

def setHead (head : Option Nat) : CipherList := { list with head }

def setTail (tail : Option Nat) : CipherList := { list with tail }

def links : Links Nat where
  next i := (list.coList i).next
  prev i := (list.coList i).prev
  head := list.head
  tail := list.tail

def data : SslCipher × Bool × Bool :=
  ((list.coList i).cipher, (list.coList i).active, (list.coList i).inGroup)

theorem modify_links : (list.modify i change).links =
      ⟨update list.links.next i (change (list.coList i)).next,
        update list.links.prev i (change (list.coList i)).prev, list.head, list.tail⟩ := by
  simp only [links, modify, Links.mk.injEq, and_true]
  constructor
  all_goals
    funext j
    by_cases hj : j = i
    · subst hj
      simp
    · simp [update_of_ne hj]

theorem setNext_links (next : Option Nat) : (list.setNext i next).links =
      ⟨update list.links.next i next, list.links.prev, list.head, list.tail⟩ := by
  rw [← update_eq_self i list.links.prev]
  exact modify_links ..

theorem setPrev_links (prev : Option Nat) : (list.setPrev i prev).links =
      ⟨list.links.next, update list.links.prev i prev, list.head, list.tail⟩ := by
  rw [← update_eq_self i list.links.next]
  exact modify_links ..

theorem setHead_links (head : Option Nat) :
    (list.setHead head).links = ⟨list.links.next, list.links.prev, head, list.tail⟩ := rfl

theorem setTail_links (tail : Option Nat) :
    (list.setTail tail).links = ⟨list.links.next, list.links.prev, list.head, tail⟩ := rfl

theorem modify_links_of_keeps {change : CipherOrder → CipherOrder}
    (hnext : (change (list.coList i)).next = list.links.next i)
    (hprev : (change (list.coList i)).prev = list.links.prev i) :
    (list.modify i change).links = list.links := by
  rw [modify_links, hnext, hprev, update_eq_self, update_eq_self]
  rfl

theorem modify_data : (list.modify i change).data = update list.data i
      ((change (list.coList i)).cipher, (change (list.coList i)).active,
        (change (list.coList i)).inGroup) := by
  funext j
  by_cases hj : j = i
  · subst hj
    simp [data, modify]
  · simp [data, modify, update_of_ne hj]

theorem setNext_data (next : Option Nat) : (list.setNext i next).data = list.data :=
  (modify_data ..).trans (update_eq_self i list.data)

theorem setPrev_data (prev : Option Nat) : (list.setPrev i prev).data = list.data :=
  (modify_data ..).trans (update_eq_self i list.data)

/-! ### Moving nodes -/

variable (curr : Nat)

/-- `if (curr->prev != NULL) { curr->prev->next = curr->next; }` -/
def bypassNext : CipherList :=
  match (list.coList curr).prev with
  | some prev => list.setNext prev (list.coList curr).next
  | none => list

/-- `if (curr->next != NULL) { curr->next->prev = curr->prev; }` -/
def bypassPrev : CipherList :=
  match (list.coList curr).next with
  | some next => list.setPrev next (list.coList curr).prev
  | none => list

theorem bypassNext_links : (list.bypassNext curr).links =
    ⟨(list.links.unlink curr).next, list.links.prev, list.head, list.tail⟩ := by
  have hlinks : list.links.prev curr = (list.coList curr).prev := rfl
  unfold bypassNext
  cases hprev : (list.coList curr).prev with
  | none =>
    simp only [Links.unlink, hlinks, hprev]
    rfl
  | some prev =>
    simp only [Links.unlink, hlinks, hprev]
    exact setNext_links ..

theorem bypassPrev_links : (list.bypassPrev curr).links =
    ⟨list.links.next, (list.links.unlink curr).prev, list.head, list.tail⟩ := by
  have hlinks : list.links.next curr = (list.coList curr).next := rfl
  unfold bypassPrev
  cases hnext : (list.coList curr).next with
  | none =>
    simp only [Links.unlink, hlinks, hnext]
    rfl
  | some next =>
    simp only [Links.unlink, hlinks, hnext]
    exact setPrev_links ..

theorem bypassNext_data : (list.bypassNext curr).data = list.data := by
  unfold bypassNext
  split
  · exact setNext_data ..
  · rfl

theorem bypassPrev_data : (list.bypassPrev curr).data = list.data := by
  unfold bypassPrev
  split
  · exact setPrev_data ..
  · rfl

/-- Both pointers around a node, the forward one first. -/
theorem bypassNext_bypassPrev_links {list : CipherList} {curr : Nat}
    (hprev : list.links.prev curr ≠ some curr) : ((list.bypassNext curr).bypassPrev curr).links =
      ⟨(list.links.unlink curr).next, (list.links.unlink curr).prev, list.head, list.tail⟩ := by
  have hlinks := list.bypassNext_links curr
  have hnext : (list.bypassNext curr).links.next curr = list.links.next curr := by
    rw [hlinks]
    exact Links.unlink_next_self hprev
  have hhead : (list.bypassNext curr).head = list.head := congrArg Links.head hlinks
  have htail : (list.bypassNext curr).tail = list.tail := congrArg Links.tail hlinks
  rw [bypassPrev_links]
  ext1
  · rw [hlinks]
  · simp [Links.unlink, hnext, congrArg Links.prev hlinks]
  · exact hhead
  · exact htail

/-- Both pointers around a node, the backward one first. -/
theorem bypassPrev_bypassNext_links {list : CipherList} {curr : Nat}
    (hnext : list.links.next curr ≠ some curr) : ((list.bypassPrev curr).bypassNext curr).links =
      ⟨(list.links.unlink curr).next, (list.links.unlink curr).prev, list.head, list.tail⟩ := by
  have hlinks := list.bypassPrev_links curr
  have hprev : (list.bypassPrev curr).links.prev curr = list.links.prev curr := by
    rw [hlinks]
    exact Links.unlink_prev_self hnext
  have hhead : (list.bypassPrev curr).head = list.head := congrArg Links.head hlinks
  have htail : (list.bypassPrev curr).tail = list.tail := congrArg Links.tail hlinks
  rw [bypassNext_links]
  ext1
  · simp [Links.unlink, hprev, congrArg Links.next hlinks]
  · rw [hlinks]
  · exact hhead
  · exact htail

def pushTail : CipherList :=
  let list := match list.tail with
    | some tail => list.setNext tail (some curr)
    | none => list
  let list := list.setPrev curr list.tail
  let list := list.setNext curr none
  list.setTail (some curr)

def pushHead : CipherList :=
  let list := match list.head with
    | some head => list.setPrev head (some curr)
    | none => list
  let list := list.setNext curr list.head
  let list := list.setPrev curr none
  list.setHead (some curr)

theorem pushTail_links : (list.pushTail curr).links = list.links.pushTail curr := by
  have htail : list.links.tail = list.tail := rfl
  unfold pushTail Links.pushTail
  cases hlast : list.tail with
  | none =>
    simp only [setTail_links, setNext_links, setPrev_links, htail, hlast]
    rfl
  | some last =>
    simp only [setTail_links, setNext_links, setPrev_links, htail, hlast]
    rw [← hlast]
    rfl

theorem pushHead_links :
    (list.pushHead curr).links = (list.links.reverse.pushTail curr).reverse := by
  have hhead : list.links.reverse.tail = list.head := rfl
  unfold pushHead Links.pushTail
  cases hfirst : list.head with
  | none =>
    simp only [setHead_links, setNext_links, setPrev_links, hhead, hfirst]
    rfl
  | some first =>
    simp only [setHead_links, setNext_links, setPrev_links, hhead, hfirst]
    rw [← hfirst]
    rfl

theorem pushTail_data : (list.pushTail curr).data = list.data := by
  unfold pushTail
  refine (setNext_data ..).trans ((setPrev_data ..).trans ?_)
  split
  · exact setNext_data ..
  · rfl

theorem pushHead_data : (list.pushHead curr).data = list.data := by
  unfold pushHead
  refine (setPrev_data ..).trans ((setNext_data ..).trans ?_)
  split
  · exact setPrev_data ..
  · rfl

end CipherList

def llAppendTail (curr : Nat) : CipherList :=
  if list.tail = some curr then list
  else
    let list := if list.head = some curr then list.setHead (list.coList curr).next else list
    ((list.bypassNext curr).bypassPrev curr).pushTail curr

def llAppendHead (curr : Nat) : CipherList :=
  if list.head = some curr then list
  else
    let list := if list.tail = some curr then list.setTail (list.coList curr).prev else list
    ((list.bypassPrev curr).bypassNext curr).pushHead curr

variable {after before : List Nat} {curr : Nat}

theorem neighbours_ne {links : Links Nat} (h : links.Holds (before ++ curr :: after)) :
    links.prev curr ≠ some curr ∧ links.next curr ≠ some curr := by
  have hnotMem := (nodup_cons.mp (nodup_middle.mp h.nodup)).1
  rw [h.prev_eq, h.next_eq]
  constructor
  · intro hlast
    exact hnotMem (mem_append_left _ (mem_of_getLast? hlast))
  · intro hfirst
    exact hnotMem (mem_append_right _ (mem_of_head? hfirst))

theorem passHead_links (curr : Nat) :
    (if list.head = some curr then list.setHead (list.coList curr).next else list).links =
      ⟨list.links.next, list.links.prev, (list.links.unlink curr).head, list.tail⟩ := by
  by_cases hhead : list.head = some curr
  · have hunlink : (list.links.unlink curr).head = list.links.next curr := if_pos hhead
    rw [if_pos hhead, hunlink]
    rfl
  · have hunlink : (list.links.unlink curr).head = list.head := if_neg hhead
    rw [if_neg hhead, hunlink]
    rfl

theorem passTail_links (curr : Nat) :
    (if list.tail = some curr then list.setTail (list.coList curr).prev else list).links =
      ⟨list.links.next, list.links.prev, list.head, (list.links.unlink curr).tail⟩ := by
  by_cases htail : list.tail = some curr
  · have hunlink : (list.links.unlink curr).tail = list.links.prev curr := if_pos htail
    rw [if_pos htail, hunlink]
    rfl
  · have hunlink : (list.links.unlink curr).tail = list.tail := if_neg htail
    rw [if_neg htail, hunlink]
    rfl

variable {list : CipherList}

theorem llAppendTail_links (h : list.links.Holds (before ++ curr :: after)) :
    (llAppendTail list curr).links = list.links.moveToTail curr := by
  obtain ⟨hprev, -⟩ := neighbours_ne h
  by_cases htail : list.tail = some curr
  · rw [llAppendTail, if_pos htail, Links.moveToTail]
    exact (if_pos htail).symm
  have hpass := passHead_links list curr
  rw [llAppendTail, if_neg htail, Links.moveToTail]
  refine Eq.trans ?_ (if_neg htail).symm
  have hunlink : (list.links.unlink curr).tail = list.tail := if_neg htail
  generalize (if list.head = some curr then list.setHead (list.coList curr).next else list) = passed
    at hpass ⊢
  have hhead : passed.head = (list.links.unlink curr).head := congrArg Links.head hpass
  have hlast : passed.tail = list.tail := congrArg Links.tail hpass
  rw [pushTail_links, bypassNext_bypassPrev_links, hpass, hhead, hlast,
    ← hunlink]
  · rfl
  · rw [hpass]
    exact hprev

theorem llAppendHead_links (h : list.links.reverse.Holds (before ++ curr :: after)) :
    (llAppendHead list curr).links = (list.links.reverse.moveToTail curr).reverse := by
  obtain ⟨hnext, -⟩ := neighbours_ne h
  by_cases hhead : list.head = some curr
  · have hlast : list.links.reverse.tail = some curr := hhead
    rw [llAppendHead, if_pos hhead, Links.moveToTail, if_pos hlast]
    rfl
  have hpass := passTail_links list curr
  rw [llAppendHead, if_neg hhead, Links.moveToTail]
  refine Eq.trans ?_ (congrArg Links.reverse (if_neg hhead)).symm
  have hunlink : (list.links.unlink curr).head = list.head := if_neg hhead
  generalize (if list.tail = some curr then list.setTail (list.coList curr).prev else list) = passed
    at hpass ⊢
  have hfirst : passed.head = list.head := congrArg Links.head hpass
  have htail : passed.tail = (list.links.unlink curr).tail := congrArg Links.tail hpass
  rw [pushHead_links, bypassPrev_bypassNext_links, hpass, hfirst, htail,
    ← hunlink]
  · rfl
  · rw [hpass]
    exact hnext

theorem llAppendTail_data (list : CipherList) (curr : Nat) :
    (llAppendTail list curr).data = list.data := by
  unfold llAppendTail
  split
  · rfl
  · rw [pushTail_data, bypassPrev_data, bypassNext_data]
    split
    all_goals rfl

theorem llAppendHead_data (list : CipherList) (curr : Nat) :
    (llAppendHead list curr).data = list.data := by
  unfold llAppendHead
  split
  · rfl
  · rw [pushHead_data, bypassNext_data, bypassPrev_data]
    split
    all_goals rfl

/-- The part of `ssl_cipher_apply_rule` for `CIPHER_KILL`. -/
def killCipher (list : CipherList) (curr : Nat) : CipherList :=
  let list := if list.head = some curr then list.setHead (list.coList curr).next
    else list.bypassNext curr
  let list := if list.tail = some curr then list.setTail (list.coList curr).prev else list
  let list := list.modify curr fun node => { node with active := false }
  let list := (list.bypassPrev curr).bypassNext curr
  (list.setNext curr none).setPrev curr none

variable (h : list.links.Holds (before ++ curr :: after))
include h

theorem killHead_links : (if list.head = some curr then list.setHead (list.coList curr).next
      else list.bypassNext curr).links =
      ⟨(list.links.unlink curr).next, list.links.prev, (list.links.unlink curr).head,
        list.tail⟩ := by
  by_cases hhead : list.head = some curr
  · -- the first node has none before it
    have hbefore : before = [] := by
      have hfirst := h.head_eq
      cases before with
      | nil => rfl
      | cons first others =>
        have heq : first = curr := Option.some.inj (hfirst.symm.trans hhead)
        have hnotMem := (nodup_cons.mp (nodup_middle.mp h.nodup)).1
        exact absurd (heq ▸ mem_cons_self) hnotMem
    have hprev : list.links.prev curr = none := by
      rw [h.prev_eq, hbefore]
      rfl
    have hfirst : (list.links.unlink curr).head = list.links.next curr := if_pos hhead
    have hnext : (list.links.unlink curr).next = list.links.next := by
      simp [Links.unlink, hprev]
    rw [if_pos hhead, hfirst, hnext]
    rfl
  · have hfirst : (list.links.unlink curr).head = list.head := if_neg hhead
    rw [if_neg hhead, hfirst]
    exact bypassNext_links ..

theorem killCipher_links : (killCipher list curr).links =
      ⟨update (list.links.unlink curr).next curr none,
        update (list.links.unlink curr).prev curr none,
        (list.links.unlink curr).head, (list.links.unlink curr).tail⟩ := by
  obtain ⟨hprev, hnext⟩ := neighbours_ne h
  have hnextSelf := Links.unlink_next_self hprev
  have hkill := killHead_links h
  simp only [killCipher]
  generalize (if list.head = some curr then list.setHead (list.coList curr).next
      else list.bypassNext curr) = headless at hkill ⊢
  have hpass := passTail_links headless curr
  have hhead : headless.head = (list.links.unlink curr).head := congrArg Links.head hkill
  rw [hkill, hhead] at hpass
  generalize (if headless.tail = some curr then headless.setTail (headless.coList curr).prev
      else headless) = passed at hpass ⊢
  have hmodify : (passed.modify curr fun node => { node with active := false }).links =
      passed.links := modify_links_of_keeps passed curr rfl rfl
  rw [hpass] at hmodify
  generalize (passed.modify curr fun node => { node with active := false }) = inactive
    at hmodify ⊢
  have hself : inactive.links.next curr ≠ some curr := by
    rw [hmodify, hnextSelf]
    exact hnext
  have hlinks := bypassPrev_bypassNext_links hself
  have hhead : inactive.head = (list.links.unlink curr).head := congrArg Links.head hmodify
  have htail : inactive.tail = (list.links.unlink curr).tail := congrArg Links.tail hmodify
  have hprevAgain : (inactive.links.unlink curr).prev = (list.links.unlink curr).prev := by
    rw [hmodify]
    simp only [Links.unlink] at hnextSelf ⊢
    rw [hnextSelf]
  rw [hprevAgain, hmodify, Links.unlink_next_unlink hprev, hhead, htail] at hlinks
  generalize (inactive.bypassPrev curr).bypassNext curr = bypassed at hlinks ⊢
  have hfirst : bypassed.head = (list.links.unlink curr).head := congrArg Links.head hlinks
  have hlast : bypassed.tail = (list.links.unlink curr).tail := congrArg Links.tail hlinks
  rw [setPrev_links, setNext_links, hlinks]
  exact Links.ext rfl rfl hfirst hlast

theorem killCipher_holds : (killCipher list curr).links.Holds (before ++ after) := by
  have hnotMem := (nodup_cons.mp (nodup_middle.mp h.nodup)).1
  have hother : ∀ i ∈ before ++ after, i ≠ curr := by
    rintro i hi rfl
    exact hnotMem hi
  rw [killCipher_links h]
  refine h.unlink.congr ?_ ?_ rfl rfl
  · intro i hi
    exact update_of_ne (hother i hi) ..
  · intro i hi
    exact update_of_ne (hother i hi) ..

omit h

theorem killCipher_data (list : CipherList) (curr : Nat) :
    (killCipher list curr).data = update list.data curr
      ((list.data curr).1, false, (list.data curr).2.2) := by
  have hhead : (if list.head = some curr then list.setHead (list.coList curr).next
      else list.bypassNext curr).data = list.data := by
    split
    · rfl
    · exact bypassNext_data ..
  simp only [killCipher]
  generalize (if list.head = some curr then list.setHead (list.coList curr).next
      else list.bypassNext curr) = headless at hhead ⊢
  have htail : (if headless.tail = some curr then headless.setTail (headless.coList curr).prev
      else headless).data = headless.data := by
    split
    all_goals rfl
  rw [setPrev_data, setNext_data, bypassNext_data,
    bypassPrev_data, modify_data, ← hhead, ← htail]
  rfl

/-! ### Rules -/

/-- `CIPHER_ADD`, `CIPHER_KILL`, `CIPHER_DEL`, `CIPHER_ORD` and `CIPHER_SPECIAL`. -/
inductive CipherRuleType where
  | add
  | kill
  | del
  | ord
  | special
deriving DecidableEq, Repr

/-- The arguments of `ssl_cipher_apply_rule` besides the list. -/
structure CipherRule where
  cipherId : UInt32
  algMkey : UInt32
  algAuth : UInt32
  algEnc : UInt32
  algMac : UInt32
  minVersion : UInt16
  rule : CipherRuleType
  strengthBits : Int
  inGroup : Bool

open CipherRule

variable (rule : CipherRule)

def CipherRule.selects (cp : SslCipher) : Bool :=
  if rule.cipherId ≠ 0 then rule.cipherId = cp.id
  else if rule.strengthBits ≥ 0 then rule.strengthBits = sslCipherGetBits cp
  else
    ¬(rule.algMkey &&& cp.algorithmMkey = 0 ∨ rule.algAuth &&& cp.algorithmAuth = 0 ∨
      rule.algEnc &&& cp.algorithmEnc = 0 ∨ rule.algMac &&& cp.algorithmMac = 0 ∨
      (rule.minVersion ≠ 0 ∧ sslCipherGetMinVersion cp ≠ rule.minVersion) ∨
      -- the NULL cipher must be selected explicitly
      cp.algorithmEnc = SSL_eNULL)

/-- What `ssl_cipher_apply_rule` does with a node that is selected. -/
def applyRuleTo (list : CipherList) (curr : Nat) : CipherList :=
  match rule.rule with
  | .add =>
    if ¬(list.coList curr).active then
      (llAppendTail list curr).modify curr fun node =>
        { node with active := true, inGroup := rule.inGroup }
    else list
  | .ord =>
    if (list.coList curr).active then
      (llAppendTail list curr).modify curr fun node => { node with inGroup := false }
    else list
  | .del =>
    if (list.coList curr).active then
      (llAppendHead list curr).modify curr fun node =>
        { node with active := false, inGroup := false }
    else list
  | .kill => killCipher list curr
  | .special => list

def applyRuleLoop (rule : CipherRule) (reverse : Bool) (last : Option Nat) :
    (rounds : Nat) → (curr next : Option Nat) → CipherList → CipherList
  | 0, _, _, list => list
  | rounds + 1, curr, next, list =>
    if curr = last then list
    else
      match next with
      | none => list
      | some curr =>
        let node := list.coList curr
        let next := if reverse then node.prev else node.next
        applyRuleLoop rule reverse last rounds (some curr) next
          (if rule.selects node.cipher then applyRuleTo rule list curr else list)

/-- `ssl_cipher_apply_rule`.  The list has no more nodes than there are ciphers, so that as many
    rounds are enough. -/
def sslCipherApplyRule (list : CipherList) : CipherList :=
  if rule.cipherId = 0 ∧ rule.strengthBits = -1 ∧ rule.minVersion = 0 ∧
      (rule.algMkey = 0 ∨ rule.algAuth = 0 ∨ rule.algEnc = 0 ∨ rule.algMac = 0) then list
  else if rule.rule = .del then
    -- in reverse, to maintain the order of the ciphers that are deleted
    applyRuleLoop rule true list.head kCiphers.length none list.tail list
  else applyRuleLoop rule false list.tail kCiphers.length none list.head list

/-! ### What a rule does -/

namespace CipherRule

def affects : SslCipher × Bool × Bool → Bool
  | (cipher, active, _) =>
    rule.selects cipher &&
      match rule.rule with
      | .add => !active
      | .ord => active
      | .del => active
      | .kill => true
      | .special => false

def change : SslCipher × Bool × Bool → SslCipher × Bool × Bool
  | (cipher, active, inGroup) =>
    match rule.rule with
    | .add => (cipher, true, rule.inGroup)
    | .ord => (cipher, active, false)
    | .del => (cipher, false, false)
    | .kill => (cipher, false, inGroup)
    | .special => (cipher, active, inGroup)

/-- A node that the rule changes goes behind all others, in the loop's direction, or nowhere. -/
def placed (nodes : List Nat) : List Nat :=
  if rule.rule = .kill then [] else nodes

def reorder (data : Nat → SslCipher × Bool × Bool) (order : List Nat) : List Nat :=
  if rule.rule = .del then
    order.filter (fun i => rule.affects (data i)) ++ order.filter (fun i => !rule.affects (data i))
  else
    order.filter (fun i => !rule.affects (data i)) ++
      rule.placed (order.filter (fun i => rule.affects (data i)))

end CipherRule

def CipherList.toward (list : CipherList) (reverse : Bool) : Links Nat :=
  if reverse then list.links.reverse else list.links

theorem toward_false (list : CipherList) : list.toward false = list.links := rfl

theorem toward_true (list : CipherList) : list.toward true = list.links.reverse := rfl

section

variable {rule : CipherRule} {list : CipherList} {before after : List Nat} {x : Nat}

theorem visit_of_not_affects (h : rule.affects (list.data x) = false) :
    (if rule.selects (list.coList x).cipher then applyRuleTo rule list x else list) = list := by
  by_cases hselects : rule.selects (list.coList x).cipher
  · rw [if_pos hselects]
    simp only [affects, data, hselects, Bool.true_and] at h
    unfold applyRuleTo
    cases hrule : rule.rule with
    | add =>
      simp only [hrule, Bool.not_eq_false'] at h
      simp [h]
    | ord =>
      simp only [hrule] at h
      simp [h]
    | del =>
      simp only [hrule] at h
      simp [h]
    | kill =>
      simp only [hrule] at h
      cases h
    | special => rfl
  · rw [if_neg hselects]

theorem visit_of_affects (h : (list.toward (rule.rule = .del)).Holds (before ++ x :: after))
    (haffects : rule.affects (list.data x) = true) :
    let visited := if rule.selects (list.coList x).cipher then applyRuleTo rule list x else list
    (visited.toward (rule.rule = .del)).Holds (before ++ after ++ rule.placed [x]) ∧
      visited.data = update list.data x (rule.change (list.data x)) := by
  have hselects : rule.selects (list.coList x).cipher = true := (Bool.and_eq_true_iff.mp haffects).1
  simp only [affects, data, hselects, Bool.true_and] at haffects
  simp only [hselects, if_true, applyRuleTo, placed, change]
  cases hrule : rule.rule with
  | add =>
    simp only [hrule, Bool.not_eq_true'] at haffects
    simp only [hrule, reduceCtorEq, decide_false, toward_false, if_false] at h ⊢
    simp only [haffects, Bool.false_eq_true, not_false_eq_true, if_true]
    constructor
    · rw [modify_links_of_keeps _ _ rfl rfl, llAppendTail_links h]
      exact h.moveToTail
    · rw [modify_data, ← llAppendTail_data list x]
      rfl
  | ord =>
    simp only [hrule] at haffects
    simp only [hrule, reduceCtorEq, decide_false, toward_false, if_false] at h ⊢
    simp only [haffects, if_true]
    constructor
    · rw [modify_links_of_keeps _ _ rfl rfl, llAppendTail_links h]
      exact h.moveToTail
    · rw [modify_data, ← llAppendTail_data list x]
      rfl
  | del =>
    simp only [hrule] at haffects
    simp only [hrule, reduceCtorEq, decide_true, toward_true, if_false] at h ⊢
    simp only [haffects, if_true]
    constructor
    · rw [modify_links_of_keeps _ _ rfl rfl, llAppendHead_links h]
      exact h.moveToTail
    · rw [modify_data, ← llAppendHead_data list x]
      rfl
  | kill =>
    simp only [hrule, reduceCtorEq, decide_false, toward_false, if_true] at h ⊢
    rw [append_nil]
    exact ⟨killCipher_holds h, killCipher_data list x⟩
  | special =>
    simp only [hrule] at haffects
    cases haffects

theorem toward_next (list : CipherList) (reverse : Bool) (x : Nat) :
    (if reverse then (list.coList x).prev else (list.coList x).next) =
      (list.toward reverse).next x := by
  cases reverse with
  | false => rfl
  | true => rfl

theorem CipherRule.placed_nil (rule : CipherRule) : rule.placed [] = [] := ite_self []

theorem CipherRule.placed_cons (rule : CipherRule) (x : Nat) (xs : List Nat) :
    rule.placed (x :: xs) = rule.placed [x] ++ rule.placed xs := by
  unfold placed
  split
  · rfl
  · rfl

theorem applyRuleLoop_last (reverse : Bool) (last next : Option Nat) (rounds : Nat)
    (list : CipherList) : applyRuleLoop rule reverse last rounds last next list = list := by
  cases rounds with
  | zero => rfl
  | succ rounds => exact if_pos rfl

theorem applyRuleLoop_next {reverse : Bool} {last curr : Option Nat} (hlast : curr ≠ last)
    (rounds : Nat) (list : CipherList) :
    applyRuleLoop rule reverse last (rounds + 1) curr (some x) list =
      applyRuleLoop rule reverse last rounds (some x) ((list.toward reverse).next x)
        (if rule.selects (list.coList x).cipher then applyRuleTo rule list x else list) := by
  rw [← toward_next]
  exact if_neg hlast

/-- **The loop.**  `kept` are the nodes that it has passed and left, `moved` those that it has
    passed and put behind the others; `rest` are still to be visited. -/
theorem applyRuleLoop_holds {last curr next : Option Nat} {rounds : Nat}
    {kept rest moved : List Nat}
    (h : (list.toward (rule.rule = .del)).Holds (kept ++ rest ++ moved))
    (hrounds : rest.length ≤ rounds) (hend : rest = [] → curr = last)
    (hmore : rest ≠ [] → curr ≠ last ∧ next = rest.head? ∧ last = rest.getLast?) :
    let result := applyRuleLoop rule (rule.rule = .del) last rounds curr next list
    (result.toward (rule.rule = .del)).Holds
        (kept ++ rest.filter (fun i => !rule.affects (list.data i)) ++ moved ++
          rule.placed (rest.filter fun i => rule.affects (list.data i))) ∧
      ∀ i, result.data i = if i ∈ rest ∧ rule.affects (list.data i) then
        rule.change (list.data i) else list.data i := by
  -- by induction on the nodes that are left
  induction rest generalizing list kept moved curr next rounds with
  | nil =>
    rw [hend rfl, applyRuleLoop_last]
    simp only [filter_nil, append_nil, rule.placed_nil, not_mem_nil, false_and,
      if_false, implies_true, and_true] at h ⊢
    exact h
  | cons x rest ih =>
    obtain ⟨hcurr, hnext, hlast⟩ := hmore (cons_ne_nil x rest)
    obtain ⟨fewer, rfl⟩ : ∃ fewer, rounds = fewer + 1 := ⟨rounds - 1, by
      rw [length_cons] at hrounds
      omega⟩
    have hhere : (list.toward (rule.rule = .del)).Holds (kept ++ x :: (rest ++ moved)) := by
      rw [append_assoc, cons_append] at h
      exact h
    have hfewer : rest.length ≤ fewer := by
      rw [length_cons] at hrounds
      omega
    have hnotMem : x ∉ rest := by
      intro hmem
      have hnotMem := (nodup_cons.mp (nodup_middle.mp hhere.nodup)).1
      exact hnotMem (mem_append_right _ (mem_append_left _ hmem))
    have hendNext : rest = [] → some x = last := by
      rintro rfl
      exact hlast.symm
    have hmoreNext : rest ≠ [] →
        some x ≠ last ∧ (rest ++ moved).head? = rest.head? ∧ last = rest.getLast? := by
      intro hrest
      obtain ⟨y, others, rfl⟩ := exists_cons_of_ne_nil hrest
      rw [List.getLast?_cons_cons] at hlast
      refine ⟨?_, rfl, hlast⟩
      rintro rfl
      exact hnotMem (mem_of_getLast? hlast.symm)
    rw [hnext, List.head?_cons, applyRuleLoop_next hcurr, hhere.next_eq]
    by_cases haffects : rule.affects (list.data x) = true
    · obtain ⟨hvisited, hdata⟩ := visit_of_affects hhere haffects
      generalize (if rule.selects (list.coList x).cipher then applyRuleTo rule list x
        else list) = visited at hvisited hdata ⊢
      have hother : ∀ i, i ≠ x → visited.data i = list.data i := by
        intro i hi
        rw [hdata]
        exact update_of_ne hi ..
      have hsame : ∀ i ∈ rest, visited.data i = list.data i := by
        intro i hi
        apply hother
        rintro rfl
        exact hnotMem hi
      have hkept : rest.filter (fun i => !rule.affects (visited.data i)) =
          rest.filter (fun i => !rule.affects (list.data i)) :=
        filter_congr fun i hi => by rw [hsame i hi]
      have hmoved : rest.filter (fun i => rule.affects (visited.data i)) =
          rest.filter (fun i => rule.affects (list.data i)) :=
        filter_congr fun i hi => by rw [hsame i hi]
      rw [← append_assoc kept rest moved, append_assoc (kept ++ rest)] at hvisited
      obtain ⟨hresult, hresultData⟩ := ih hvisited hfewer hendNext hmoreNext
      constructor
      · rw [hkept, hmoved, ← append_assoc (kept ++ _) moved,
          append_assoc _ (rule.placed [x]), ← rule.placed_cons] at hresult
        simp only [filter_cons, haffects, Bool.not_true, Bool.false_eq_true, if_false, if_true]
        exact hresult
      · intro i
        rw [hresultData]
        by_cases hi : i = x
        · subst hi
          rw [if_neg (fun h => hnotMem h.1), if_pos ⟨mem_cons_self, haffects⟩, hdata]
          exact update_self ..
        · simp [hother i hi, hi]
    · have hfalse : rule.affects (list.data x) = false := Bool.eq_false_iff.mpr haffects
      rw [visit_of_not_affects hfalse]
      rw [append_cons, ← append_assoc] at hhere
      obtain ⟨hresult, hresultData⟩ := ih hhere hfewer hendNext hmoreNext
      constructor
      · simp only [filter_cons, hfalse, Bool.not_false, Bool.false_eq_true, if_false, if_true]
        rw [append_assoc kept [x]] at hresult
        exact hresult
      · intro i
        rw [hresultData]
        by_cases hi : i = x
        · subst hi
          rw [if_neg (fun h => hnotMem h.1), if_neg (fun h => haffects h.2)]
        · simp [hi]

theorem applyRuleLoop_whole {order : List Nat} {rounds : Nat}
    (h : (list.toward (rule.rule = .del)).Holds order) (hrounds : order.length ≤ rounds) :
    let result := applyRuleLoop rule (rule.rule = .del) (list.toward (rule.rule = .del)).tail rounds
      none (list.toward (rule.rule = .del)).head list
    (result.toward (rule.rule = .del)).Holds
        (order.filter (fun i => !rule.affects (list.data i)) ++
          rule.placed (order.filter fun i => rule.affects (list.data i))) ∧
      ∀ i, result.data i = if i ∈ order ∧ rule.affects (list.data i) then
        rule.change (list.data i) else list.data i := by
  have hlast := h.tail_eq
  have hend : order = [] → none = (list.toward (rule.rule = .del)).tail := by
    rintro rfl
    exact hlast.symm
  have hmore : order ≠ [] → none ≠ (list.toward (rule.rule = .del)).tail ∧
      (list.toward (rule.rule = .del)).head = order.head? ∧
      (list.toward (rule.rule = .del)).tail = order.getLast? := by
    intro horder
    refine ⟨?_, h.head_eq, hlast⟩
    rw [hlast, List.getLast?_eq_some_getLast horder]
    exact (Option.some_ne_none _).symm
  have hstart : (list.toward (rule.rule = .del)).Holds ([] ++ order ++ []) := by
    rw [nil_append, append_nil]
    exact h
  obtain ⟨hresult, hdata⟩ := applyRuleLoop_holds hstart hrounds hend hmore
  rw [nil_append, append_nil] at hresult
  exact ⟨hresult, hdata⟩

/-- A rule for which the function returns at once affects no node. -/
theorem affects_of_matchesNothing (hid : rule.cipherId = 0) (hstrength : rule.strengthBits = -1)
    (halg : rule.algMkey = 0 ∨ rule.algAuth = 0 ∨ rule.algEnc = 0 ∨ rule.algMac = 0)
    (data : SslCipher × Bool × Bool) : rule.affects data = false := by
  have hselects : rule.selects data.1 = false := by
    unfold selects
    rw [if_neg (not_not.mpr hid), hstrength, if_neg (by decide)]
    rcases halg with h | h | h | h
    all_goals simp only [h, UInt32.zero_and, true_or, or_true, not_true_eq_false, decide_false]
  obtain ⟨cipher, active, inGroup⟩ := data
  simp [affects, hselects]

theorem reorder_of_not_affects {data : Nat → SslCipher × Bool × Bool}
    (h : ∀ i, rule.affects (data i) = false) (order : List Nat) :
    rule.reorder data order = order := by
  simp [reorder, h, rule.placed_nil]

/-- **A rule.**  The nodes that it affects are changed and moved to an end of the list or taken
    out, the others stay in their order. -/
theorem sslCipherApplyRule_holds {order : List Nat} (h : list.links.Holds order)
    (hlength : order.length ≤ kCiphers.length) :
    (sslCipherApplyRule rule list).links.Holds (rule.reorder list.data order) ∧
      ∀ i, (sslCipherApplyRule rule list).data i = if i ∈ order ∧ rule.affects (list.data i) then
        rule.change (list.data i) else list.data i := by
  unfold sslCipherApplyRule
  split
  next hnothing =>
    have hnone := affects_of_matchesNothing hnothing.1 hnothing.2.1 hnothing.2.2.2
    rw [reorder_of_not_affects (fun i => hnone (list.data i))]
    refine ⟨h, ?_⟩
    intro i
    rw [if_neg]
    intro hi
    rw [hnone] at hi
    cases hi.2
  next =>
    unfold reorder
    by_cases hdel : rule.rule = .del
    · -- the loop goes through the reversed list
      have hreverse : (list.toward (rule.rule = .del)).Holds order.reverse := by
        rw [decide_eq_true hdel]
        exact h.reverse
      rw [← length_reverse] at hlength
      obtain ⟨hresult, hdata⟩ := applyRuleLoop_whole hreverse hlength
      rw [if_pos hdel, if_pos hdel]
      simp only [decide_eq_true hdel, toward_true, mem_reverse] at hresult hdata
      refine ⟨?_, hdata⟩
      have hforward := hresult.reverse
      have hkept : rule.rule ≠ .kill := by
        rw [hdel]
        decide
      rw [placed, if_neg hkept, reverse_append, filter_reverse,
        filter_reverse, reverse_reverse, reverse_reverse] at hforward
      exact hforward
    · have hforward : (list.toward (rule.rule = .del)).Holds order := by
        rw [decide_eq_false hdel]
        exact h
      obtain ⟨hresult, hdata⟩ := applyRuleLoop_whole hforward hlength
      rw [if_neg hdel, if_neg hdel]
      simp only [decide_eq_false hdel, toward_false] at hresult hdata
      exact ⟨hresult, hdata⟩

end

end AwsLc
