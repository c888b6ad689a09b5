import AwsLc.ByteString
import AwsLc.Runs
import Mathlib.Data.List.Sort

/-!
# Stacks of pointers

A stack keeps its pointers in an array, with a flag that says that they are in ascending order, on
which `OPENSSL_sk_find` relies.  Pointers and comparison functions are arbitrary types here, where a
comparison function is compared by its address and stands for a total preorder.
-/

namespace AwsLc

open List

/-! ### Comparison functions -/

structure SkCmpFuncs (Ptr Func : Type) where
  cmp : Func → Ptr → Ptr → Int
  swap : ∀ f a b, cmp f a b < 0 ↔ 0 < cmp f b a
  trans : ∀ f a b c, cmp f a b ≤ 0 → cmp f b c ≤ 0 → cmp f a c ≤ 0

/-- `qsort`: some permutation in ascending order. -/
structure Qsort {Ptr Func : Type} (funcs : SkCmpFuncs Ptr Func) where
  sort : Func → List Ptr → List Ptr
  perm : ∀ f data, (sort f data).Perm data
  sorted : ∀ f data, (sort f data).Pairwise (fun a b => funcs.cmp f a b ≤ 0)

variable {Ptr Func : Type}

/-! ### The functions of a stack -/

/-- `stack_st`.  The pointers beyond `num` are not kept. -/
structure SkStack (Ptr Func : Type) where
  data : List Ptr
  sorted : Bool
  numAlloc : Nat
  comp : Option Func
deriving DecidableEq, Repr

open SkStack

namespace SkStack

def kMinSize : Nat := 4

def new (comp : Option Func) : SkStack Ptr Func := ⟨[], false, kMinSize, comp⟩

variable (sk : SkStack Ptr Func)

def num : Nat := sk.data.length

def zero : SkStack Ptr Func :=
  if sk.num = 0 then sk else { sk with data := [], sorted := false }

def set (i : Nat) (value : Ptr) : Option Ptr × SkStack Ptr Func :=
  if i ≥ sk.num then (none, sk) else (some value, { sk with data := sk.data.set i value })

def allocFits (newAlloc : Nat) : Bool :=
  sk.numAlloc ≤ newAlloc && newAlloc * 8 % 2 ^ 64 / 8 == newAlloc

/-- The growth of the array in `OPENSSL_sk_insert`; `realloc` says if the allocation succeeds. -/
def grow (realloc : Bool) : Option (SkStack Ptr Func) :=
  if sk.numAlloc ≤ sk.num + 1 then
    let doubled := sk.numAlloc * 2 % 2 ^ 64
    let newAlloc := if sk.allocFits doubled then doubled else (sk.numAlloc + 1) % 2 ^ 64
    if sk.allocFits newAlloc && realloc then some { sk with numAlloc := newAlloc } else none
  else some sk

def insert (p : Ptr) (pos : Nat) (realloc : Bool) : Nat × SkStack Ptr Func :=
  if sk.num ≥ INT_MAX then (0, sk)
  else
    match sk.grow realloc with
    | none => (0, sk)
    | some sk =>
      let data := if pos ≥ sk.num then sk.data ++ [p]
        else sk.data.take pos ++ p :: sk.data.drop pos
      (data.length, { sk with data := data, sorted := false })

def delete (pos : Nat) : Option Ptr × SkStack Ptr Func :=
  if pos ≥ sk.num then (none, sk)
  else (sk.data[pos]?, { sk with data := sk.data.eraseIdx pos })

def deletePtr [DecidableEq Ptr] (sk : SkStack Ptr Func) (p : Ptr) : Option Ptr × SkStack Ptr Func :=
  match sk.data.findIdx? (· = p) with
  | some i => sk.delete i
  | none => (none, sk)

def deleteIf (func : Ptr → Bool) : SkStack Ptr Func :=
  { sk with data := sk.data.filter (fun p => !func p) }

def unshift (p : Ptr) (realloc : Bool) : Nat × SkStack Ptr Func :=
  sk.insert p 0 realloc

def shift : Option Ptr × SkStack Ptr Func :=
  if sk.num = 0 then (none, sk) else sk.delete 0

def push (p : Ptr) (realloc : Bool) : Nat × SkStack Ptr Func :=
  sk.insert p sk.num realloc

def pop : Option Ptr × SkStack Ptr Func :=
  if sk.num = 0 then (none, sk) else sk.delete (sk.num - 1)

def sort {funcs : SkCmpFuncs Ptr Func} (qsort : Qsort funcs) (sk : SkStack Ptr Func) :
    SkStack Ptr Func :=
  match sk.comp with
  | none => sk
  | some comp =>
    if sk.sorted then sk
    else if sk.num ≥ 2 then { sk with data := qsort.sort comp sk.data, sorted := true }
    else { sk with sorted := true }

def isSorted : Bool :=
  sk.sorted || (sk.comp.isSome && decide (sk.num < 2))

def setCmpFunc [DecidableEq Func] (sk : SkStack Ptr Func) (comp : Option Func) :
    Option Func × SkStack Ptr Func :=
  (sk.comp, { sk with sorted := if sk.comp ≠ comp then false else sk.sorted, comp := comp })

def findLinear (p : Ptr → Bool) : List Ptr → Option Nat
  | [] => none
  | x :: data => if p x then some 0 else (findLinear p data).map (· + 1)

/-- The search by halving, over the indices from `lo` to `hi`. -/
def findSorted (cmp : Ptr → Int) (data : List Ptr) (lo hi : Nat) : Option Nat :=
  if lo < hi then
    match data[lo + (hi - lo - 1) / 2]? with
    | none => none
    | some x =>
      if cmp x > 0 then findSorted cmp data (lo + (hi - lo - 1) / 2 + 1) hi
      else if cmp x < 0 then findSorted cmp data lo (lo + (hi - lo - 1) / 2)
      else if hi - lo = 1 then some (lo + (hi - lo - 1) / 2)
      else findSorted cmp data lo (lo + (hi - lo - 1) / 2 + 1)
  else none
termination_by hi - lo

/-- `OPENSSL_sk_find`, where `null` is the pointer that is not looked for. -/
def find [DecidableEq Ptr] (funcs : SkCmpFuncs Ptr Func) (null : Ptr) (sk : SkStack Ptr Func)
    (p : Ptr) : Option Nat :=
  match sk.comp with
  | none => findLinear (fun x => decide (x = p)) sk.data
  | some comp =>
    if p = null then none
    else if !sk.isSorted then findLinear (fun x => decide (funcs.cmp comp p x = 0)) sk.data
    else findSorted (funcs.cmp comp p) sk.data 0 sk.num

end SkStack

inductive SkCall (Ptr Func : Type) where
  | insert (p : Ptr) (pos : Nat) (realloc : Bool)
  | push (p : Ptr) (realloc : Bool)
  | unshift (p : Ptr) (realloc : Bool)
  | pop
  | shift
  | delete (pos : Nat)
  | deletePtr (p : Ptr)
  | deleteIf (func : Ptr → Bool)
  | set (i : Nat) (value : Ptr)
  | zero
  | setCmpFunc (comp : Option Func)
  | sort

def SkStack.call [DecidableEq Ptr] [DecidableEq Func] {funcs : SkCmpFuncs Ptr Func}
    (qsort : Qsort funcs) (sk : SkStack Ptr Func) :
    SkCall Ptr Func → SkStack Ptr Func
  | .insert p pos realloc => (sk.insert p pos realloc).2
  | .push p realloc => (sk.push p realloc).2
  | .unshift p realloc => (sk.unshift p realloc).2
  | .pop => sk.pop.2
  | .shift => sk.shift.2
  | .delete pos => (sk.delete pos).2
  | .deletePtr p => (sk.deletePtr p).2
  | .deleteIf func => sk.deleteIf func
  | .set i value => (sk.set i value).2
  | .zero => sk.zero
  | .setCmpFunc comp => (sk.setCmpFunc comp).2
  | .sort => sk.sort qsort

inductive SkOp (Ptr Func : Type) where
  | new (comp : Option Func)
  | dup (stack : Nat)
  | call (stack : Nat) (call : SkCall Ptr Func)

def skStep [DecidableEq Ptr] [DecidableEq Func] {funcs : SkCmpFuncs Ptr Func}
    (qsort : Qsort funcs) (sks : List (SkStack Ptr Func)) :
    SkOp Ptr Func → Option (List (SkStack Ptr Func))
  | .new comp => some (sks ++ [new comp])
  | .dup stack => sks[stack]?.map fun sk => sks ++ [sk]
  | .call stack call => sks[stack]?.map fun sk => sks.set stack (sk.call qsort call)

def FindsFirst (funcs : SkCmpFuncs Ptr Func) (comp : Func) (p : Ptr) (data : List Ptr) :
    Option Nat → Prop
  | some i => (∃ x, data[i]? = some x ∧ funcs.cmp comp p x = 0) ∧
      ∀ j x, j < i → data[j]? = some x → funcs.cmp comp p x ≠ 0
  | none => ∀ x ∈ data, funcs.cmp comp p x ≠ 0

section Search

variable {funcs : SkCmpFuncs Ptr Func} {comp : Func} {p : Ptr}

theorem findLinear_findsFirst (data : List Ptr) :
    FindsFirst funcs comp p data
      (findLinear (fun x => decide (funcs.cmp comp p x = 0)) data) := by
  induction data with
  | nil =>
    intro x hx
    cases hx
  | cons y data ih =>
    by_cases hy : funcs.cmp comp p y = 0
    · rw [findLinear, if_pos (decide_eq_true hy)]
      refine ⟨⟨y, rfl, hy⟩, ?_⟩
      intro j x hj
      cases hj
    · rw [findLinear, if_neg (by simpa using hy)]
      cases hfind : findLinear (fun x => decide (funcs.cmp comp p x = 0)) data with
      | none =>
        rw [hfind] at ih
        intro x hx
        rcases mem_cons.mp hx with rfl | hx
        · exact hy
        · exact ih x hx
      | some i =>
        rw [hfind] at ih
        refine ⟨ih.1, ?_⟩
        intro j x hj hx
        cases j with
        | zero =>
          cases hx
          exact hy
        | succ j => exact ih.2 j x (Nat.lt_of_succ_lt_succ hj) hx

theorem cmp_pos_of_le {x y : Ptr} (h : 0 < funcs.cmp comp p y) (hxy : funcs.cmp comp x y ≤ 0) :
    0 < funcs.cmp comp p x := by
  by_contra hx
  exact absurd (funcs.trans comp p x y (not_lt.mp hx) hxy) (not_le.mpr h)

theorem cmp_neg_of_le {x y : Ptr} (h : funcs.cmp comp p y < 0) (hyx : funcs.cmp comp y x ≤ 0) :
    funcs.cmp comp p x < 0 := by
  by_contra hx
  have hxp : funcs.cmp comp x p ≤ 0 := by
    rw [← not_lt, ← funcs.swap]
    exact hx
  have hyp := funcs.trans comp y x p hyx hxp
  rw [funcs.swap] at h
  omega

variable {data : List Ptr}

theorem ascending_at {i j : Nat} {x y : Ptr}
    (hdata : data.Pairwise (fun a b => funcs.cmp comp a b ≤ 0)) (hij : i < j)
    (hx : data[i]? = some x) (hy : data[j]? = some y) : funcs.cmp comp x y ≤ 0 := by
  obtain ⟨hi, rfl⟩ := List.getElem?_eq_some_iff.mp hx
  obtain ⟨hj, rfl⟩ := List.getElem?_eq_some_iff.mp hy
  exact List.pairwise_iff_getElem.mp hdata i j hi hj hij

/-- What is known of the interval left: the elements before it are smaller, and those after it
    greater unless it ends with an element that compares equal. -/
structure Interval (funcs : SkCmpFuncs Ptr Func) (comp : Func) (p : Ptr) (data : List Ptr)
    (lo hi : Nat) : Prop where
  hi_le : hi ≤ data.length
  before : ∀ j x, j < lo → data[j]? = some x → 0 < funcs.cmp comp p x
  after : (∀ j x, hi ≤ j → data[j]? = some x → funcs.cmp comp p x < 0) ∨
    lo < hi ∧ ∃ x, data[hi - 1]? = some x ∧ funcs.cmp comp p x = 0

theorem Interval.before_mid {lo hi mid : Nat} {y : Ptr} (h : Interval funcs comp p data lo hi)
    (hdata : data.Pairwise (fun a b => funcs.cmp comp a b ≤ 0)) (hlt : mid < hi)
    (hmid : data[mid]? = some y) (hy : 0 < funcs.cmp comp p y) :
    Interval funcs comp p data (mid + 1) hi where
  hi_le := h.hi_le
  before := by
    intro j x hj hx
    rcases Nat.lt_or_eq_of_le (Nat.le_of_lt_succ hj) with hj | rfl
    · exact cmp_pos_of_le hy (ascending_at hdata hj hx hmid)
    · rw [hmid] at hx
      cases hx
      exact hy
  after := by
    rcases h.after with hafter | ⟨-, x, hx, hzero⟩
    · exact .inl hafter
    · refine .inr ⟨?_, x, hx, hzero⟩
      rcases Nat.lt_or_ge (mid + 1) hi with hlt' | hge
      · exact hlt'
      · -- the last element compares equal, so that it is not the one in the middle
        rw [show hi - 1 = mid by omega, hmid] at hx
        cases hx
        omega

theorem Interval.after_mid {lo hi mid : Nat} {y : Ptr} (h : Interval funcs comp p data lo hi)
    (hdata : data.Pairwise (fun a b => funcs.cmp comp a b ≤ 0)) (hlt : mid < hi)
    (hmid : data[mid]? = some y) (hy : funcs.cmp comp p y < 0) :
    Interval funcs comp p data lo mid where
  hi_le := Nat.le_trans (Nat.le_of_lt hlt) h.hi_le
  before := h.before
  after := by
    refine .inl ?_
    intro j x hj hx
    rcases Nat.lt_or_eq_of_le hj with hj | rfl
    · exact cmp_neg_of_le hy (ascending_at hdata hj hmid hx)
    · rw [hmid] at hx
      cases hx
      exact hy

theorem findSorted_findsFirst {lo hi : Nat}
    (hdata : data.Pairwise (fun a b => funcs.cmp comp a b ≤ 0))
    (h : Interval funcs comp p data lo hi) :
    FindsFirst funcs comp p data (findSorted (funcs.cmp comp p) data lo hi) := by
  fun_induction findSorted (funcs.cmp comp p) data lo hi with
  | case1 lo hi hlt hnone =>
    have hle := h.hi_le
    rw [getElem?_eq_none_iff] at hnone
    omega
  | case2 lo hi hlt y hmid hpos ih => exact ih (h.before_mid hdata (by omega) hmid hpos)
  | case3 lo hi hlt y hmid hpos hneg ih => exact ih (h.after_mid hdata (by omega) hmid hneg)
  | case4 lo hi hlt y hmid hpos hneg hone =>
    refine ⟨⟨y, hmid, by omega⟩, ?_⟩
    intro j x hj hx
    have hbefore := h.before j x (by omega) hx
    omega
  | case5 lo hi hlt y hmid hpos hneg hone ih =>
    refine ih ⟨?_, h.before, .inr ⟨by omega, y, ?_, by omega⟩⟩
    · have hle := h.hi_le
      omega
    · rw [Nat.add_sub_cancel]
      exact hmid
  | case6 lo hi hempty =>
    rcases h.after with hafter | ⟨hlt, -⟩
    · intro x hx
      obtain ⟨j, hj⟩ := getElem?_of_mem hx
      rcases Nat.lt_or_ge j lo with hlo | hlo
      · exact ne_of_gt (h.before j x hlo hj)
      · exact ne_of_lt (hafter j x (by omega) hj)
    · exact absurd hlt hempty

end Search

/-- What the flag says, as the comment at `sorted` has it. -/
def SkStack.FlagOk (funcs : SkCmpFuncs Ptr Func) (sk : SkStack Ptr Func) : Prop :=
  sk.sorted = true → ∃ comp, sk.comp = some comp ∧
    sk.data.Pairwise (fun a b => funcs.cmp comp a b ≤ 0)

/-- **The search is right for a stack whose flag is.** -/
theorem SkStack.FlagOk.find [DecidableEq Ptr] {funcs : SkCmpFuncs Ptr Func} {sk : SkStack Ptr Func}
    (h : sk.FlagOk funcs) {comp : Func} (hcomp : sk.comp = some comp) {null p : Ptr}
    (hp : p ≠ null) : FindsFirst funcs comp p sk.data (sk.find funcs null p) := by
  unfold SkStack.find
  rw [hcomp]
  dsimp only
  rw [if_neg hp]
  split
  · exact findLinear_findsFirst sk.data
  · next hsorted =>
    have hdata : sk.data.Pairwise (fun a b => funcs.cmp comp a b ≤ 0) := by
      cases hflag : sk.sorted with
      | true =>
        obtain ⟨comp', hcomp', hdata⟩ := h hflag
        rw [hcomp] at hcomp'
        cases hcomp'
        exact hdata
      | false =>
        -- stacks with fewer than two elements count as sorted
        have hnum : sk.num < 2 := by simpa [isSorted, hflag, hcomp] using hsorted
        rcases hdata : sk.data with _ | ⟨x, _ | ⟨y, data⟩⟩
        · exact List.Pairwise.nil
        · exact pairwise_singleton _ x
        · rw [num, hdata] at hnum
          simp at hnum
    refine findSorted_findsFirst hdata ⟨Nat.le_refl _, ?_, .inl ?_⟩
    · intro j x hj
      exact absurd hj (Nat.not_lt_zero j)
    · intro j x hj hx
      rw [getElem?_eq_none hj] at hx
      cases hx

/-! ### The calls and the flag -/

variable {funcs : SkCmpFuncs Ptr Func} {sk : SkStack Ptr Func}

def SkCall.KeepsOrder (funcs : SkCmpFuncs Ptr Func) (sk : SkStack Ptr Func) : SkCall Ptr Func → Prop
  | .set i value => sk.sorted = true → ∀ comp, sk.comp = some comp →
      (sk.data.set i value).Pairwise (fun a b => funcs.cmp comp a b ≤ 0)
  | _ => True

variable (h : sk.FlagOk funcs)
include h

/-- An insertion clears the flag, and so does nothing to it if it fails. -/
theorem SkStack.FlagOk.insert (p : Ptr) (pos : Nat) (realloc : Bool) :
    (sk.insert p pos realloc).2.FlagOk funcs := by
  unfold SkStack.insert
  split
  · exact h
  · split
    · exact h
    · intro hsorted
      cases hsorted

/-- A stack with fewer elements of the same order is still in order. -/
theorem SkStack.FlagOk.sublist {data : List Ptr}
    (hdata : data.Sublist sk.data) : SkStack.FlagOk funcs { sk with data := data } := by
  intro hsorted
  obtain ⟨comp, hcomp, hpairwise⟩ := h hsorted
  exact ⟨comp, hcomp, hpairwise.sublist hdata⟩

theorem SkStack.FlagOk.delete (pos : Nat) : (sk.delete pos).2.FlagOk funcs := by
  unfold SkStack.delete
  split
  · exact h
  · exact h.sublist (eraseIdx_sublist _ _)

theorem SkStack.FlagOk.sort (qsort : Qsort funcs) : (sk.sort qsort).FlagOk funcs := by
  unfold SkStack.sort
  split
  · exact h
  next comp hcomp =>
  split
  · exact h
  split
  · intro _
    exact ⟨comp, hcomp, qsort.sorted comp sk.data⟩
  · next hnum =>
    intro _
    refine ⟨comp, hcomp, ?_⟩
    rcases hdata : sk.data with _ | ⟨x, _ | ⟨y, data⟩⟩
    · exact List.Pairwise.nil
    · exact pairwise_singleton _ x
    · rw [num, hdata] at hnum
      simp at hnum

theorem SkStack.FlagOk.setCmpFunc [DecidableEq Func] (comp : Option Func) :
    (sk.setCmpFunc comp).2.FlagOk funcs := by
  unfold SkStack.setCmpFunc
  by_cases hsame : sk.comp = comp
  · intro hsorted
    dsimp only at hsorted ⊢
    rw [if_neg (not_not.mpr hsame)] at hsorted
    rw [← hsame]
    exact h hsorted
  · intro hsorted
    dsimp only at hsorted
    rw [if_pos hsame] at hsorted
    cases hsorted

omit h

variable [DecidableEq Ptr] [DecidableEq Func]

/-- **One call.**  Every call keeps what the flag says, but for a pointer that is stored out of
    order into a flagged stack. -/
theorem SkStack.FlagOk.call (h : sk.FlagOk funcs) (qsort : Qsort funcs) {call : SkCall Ptr Func}
    (hcall : call.KeepsOrder funcs sk) : (sk.call qsort call).FlagOk funcs := by
  cases call with
  | insert p pos realloc => exact h.insert p pos realloc
  | push p realloc => exact h.insert p sk.num realloc
  | unshift p realloc => exact h.insert p 0 realloc
  | pop =>
    change SkStack.FlagOk funcs sk.pop.2
    unfold pop
    split
    · exact h
    · exact h.delete (sk.num - 1)
  | shift =>
    change SkStack.FlagOk funcs sk.shift.2
    unfold shift
    split
    · exact h
    · exact h.delete 0
  | delete pos => exact h.delete pos
  | deletePtr p =>
    change SkStack.FlagOk funcs (sk.deletePtr p).2
    unfold deletePtr
    split
    · exact h.delete _
    · exact h
  | deleteIf func => exact h.sublist filter_sublist
  | set i value =>
    change SkStack.FlagOk funcs (sk.set i value).2
    unfold set
    split
    · exact h
    · intro hsorted
      obtain ⟨comp, hcomp, -⟩ := h hsorted
      exact ⟨comp, hcomp, hcall hsorted comp hcomp⟩
  | zero =>
    change SkStack.FlagOk funcs sk.zero
    unfold zero
    split
    · exact h
    · intro hsorted
      cases hsorted
  | setCmpFunc comp => exact h.setCmpFunc comp
  | sort => exact h.sort qsort

/-! ### Any sequence of calls -/

/-- The stacks that a program can get to with calls that keep the order of flagged stacks. -/
inductive SkReachable (qsort : Qsort funcs) : List (SkStack Ptr Func) → Prop where
  | start : SkReachable qsort []
  | step {sks sks' : List (SkStack Ptr Func)} (op : SkOp Ptr Func) :
      SkReachable qsort sks → skStep qsort sks op = some sks' →
      (∀ stack call, op = .call stack call → ∀ sk, sks[stack]? = some sk →
        call.KeepsOrder funcs sk) →
      SkReachable qsort sks'

theorem SkReachable.flagOk {qsort : Qsort funcs} {sks : List (SkStack Ptr Func)}
    (h : SkReachable qsort sks) : ∀ sk ∈ sks, sk.FlagOk funcs := by
  induction h with
  | start =>
    intro sk hsk
    cases hsk
  | @step sks sks' op _ hstep hkeeps ih =>
    cases op with
    | new comp =>
      cases hstep
      intro sk hsk
      rcases mem_append.mp hsk with hold | hnew
      · exact ih sk hold
      · rw [mem_singleton.mp hnew]
        intro hsorted
        cases hsorted
    | dup stack =>
      obtain ⟨copied, hcopied, rfl⟩ := Option.map_eq_some_iff.mp hstep
      intro sk hsk
      rcases mem_append.mp hsk with hold | hnew
      · exact ih sk hold
      · rw [mem_singleton.mp hnew]
        exact ih copied (mem_of_getElem? hcopied)
    | call stack call =>
      obtain ⟨called, hcalled, rfl⟩ := Option.map_eq_some_iff.mp hstep
      intro sk hsk
      rcases mem_or_eq_of_mem_set hsk with hold | rfl
      · exact ih sk hold
      · exact (ih called (mem_of_getElem? hcalled)).call qsort
          (hkeeps stack call rfl called hcalled)

/-- **The search of a stack.**  After any calls, as long as `OPENSSL_sk_set` stores nothing out of
    order into a stack that is flagged as sorted, the search finds the first element that compares
    equal, and fails only if there is none. -/
theorem stack_find_first (qsort : Qsort funcs) (sks : List (SkStack Ptr Func))
    (h : SkReachable qsort sks) (sk : SkStack Ptr Func) (hsk : sk ∈ sks) (comp : Func)
    (hcomp : sk.comp = some comp) (null p : Ptr) (hp : p ≠ null) :
    FindsFirst funcs comp p sk.data (sk.find funcs null p) :=
  (h.flagOk sk hsk).find hcomp hp

def numberFuncs : SkCmpFuncs Nat Unit where
  cmp _ a b := a - b
  swap _ a b := by omega
  trans _ a b c := by omega

def numberQsort : Qsort numberFuncs where
  sort _ data := data.insertionSort (· ≤ ·)
  perm _ data := perm_insertionSort _ data
  sorted _ data := by
    refine (pairwise_insertionSort (· ≤ ·) data).imp ?_
    intro a b hab
    change (a : Int) - b ≤ 0
    omega

/-- Two equal elements are pushed around a smaller one and sorted, and the smaller one is replaced
    in order. -/
theorem stack_find_first_sample :
    FindsFirst numberFuncs () 3 [2, 3, 3]
      (SkStack.find numberFuncs 0 ⟨[2, 3, 3], true, 4, some ()⟩ 3) := by
  have hempty : SkReachable numberQsort [new (some ())] := .step (.new (some ())) .start rfl nofun
  have hpush : SkReachable numberQsort [⟨[3, 1, 3], false, 4, some ()⟩] := by
    refine .step (.call 0 (.push 3 true)) (.step (.call 0 (.push 1 true))
      (.step (.call 0 (.push 3 true)) hempty rfl ?_) rfl ?_) rfl ?_
    all_goals
      intro stack call hop sk hsk
      cases hop
      trivial
  have hsort : SkReachable numberQsort [⟨[1, 3, 3], true, 4, some ()⟩] := by
    refine .step (.call 0 .sort) hpush (by decide) ?_
    intro stack call hop sk hsk
    cases hop
    trivial
  have hset : SkReachable numberQsort [⟨[2, 3, 3], true, 4, some ()⟩] := by
    refine .step (.call 0 (.set 0 2)) hsort (by decide) ?_
    intro stack call hop sk hsk
    cases hop
    cases hsk
    rintro - ⟨⟩ -
    decide
  exact stack_find_first numberQsort _ hset _ mem_cons_self () rfl 0 3 (by decide)

/-- **The flag outlives `OPENSSL_sk_set`.**  A sorted stack of three elements, the second of which
    is replaced by a smaller one: the new element is in the stack, and the search does not find
    it. -/
theorem stack_find_misses_set : Runs.run (skStep numberQsort) []
        [.new (some ()), .call 0 (.push 2 true), .call 0 (.push 3 true), .call 0 (.push 4 true),
          .call 0 .sort, .call 0 (.set 1 1)] = some [⟨[2, 1, 4], true, 4, some ()⟩] ∧
      ¬FindsFirst numberFuncs () 1 [2, 1, 4]
        (SkStack.find numberFuncs 0 ⟨[2, 1, 4], true, 4, some ()⟩ 1) := by
  refine ⟨by decide, ?_⟩
  have hfind : SkStack.find numberFuncs 0 ⟨[2, 1, 4], true, 4, some ()⟩ 1 = none := by
    simp [SkStack.find, isSorted, findSorted, num, numberFuncs]
  rw [hfind]
  intro h
  exact h 1 (by decide) (by decide)

end AwsLc
