import AwsLc.ByteString
import AwsLc.Runs
import Mathlib.Data.List.TakeWhile

/-!
# The hash table

An `LHASH` keeps its items in chains, one for each bucket, and moves them by their cached hashes
when the number of buckets changes.  `OPENSSL_lh_doall_arg` calls a function for each item, which
may delete the item or walk over the table itself.
-/

namespace AwsLc

open List

/-! ### The table -/

/-- The hash and comparison functions of a table; `comp` says that two elements compare equal. -/
structure LhFuncs (α : Type) where
  hash : α → UInt32
  comp : α → α → Bool
  refl : ∀ x, comp x x = true
  symm : ∀ x y, comp x y = true → comp y x = true
  trans : ∀ x y z, comp x y = true → comp y z = true → comp x z = true
  hash_eq : ∀ x y, comp x y = true → hash x = hash y

structure LhItem (α : Type) where
  address : Nat
  data : α
  hash : UInt32

open LhItem

/-- `lhash_st`, with the chains as lists and the next address that is free. -/
structure LHash (α : Type) where
  numItems : Nat
  buckets : List (List (LhItem α))
  callbackDepth : Nat
  nextAddress : Nat

open LHash

inductive LhFault where
  | freedItem
  | tooManySteps
deriving DecidableEq, Repr

def kMinNumBuckets : Nat := 16
def kMaxAverageChainLength : Nat := 2
def kMinAverageChainLength : Nat := 1
def UINT_MAX : Nat := 2 ^ 32 - 1

variable {α : Type}

namespace LHash

def new : LHash α := ⟨0, replicate kMinNumBuckets [], 0, 0⟩

variable (lh : LHash α)

def numBuckets : Nat := lh.buckets.length

def chain (i : Nat) : List (LhItem α) := lh.buckets[i]?.getD []

def setChain (i : Nat) (items : List (LhItem α)) : LHash α :=
  { lh with buckets := lh.buckets.set i items }

def bucketOf (hash : UInt32) (numBuckets : Nat) : Nat := hash.toNat % numBuckets

/-- The inner statements of `lh_rebucket`: an item becomes the first one of its new bucket. -/
def moveItem (newBuckets : List (List (LhItem α))) (item : LhItem α) : List (List (LhItem α)) :=
  let i := bucketOf item.hash newBuckets.length
  newBuckets.set i (item :: newBuckets[i]?.getD [])

/-- `lh_rebucket`, where `alloc` says whether the allocation succeeds. -/
def rebucket (newNumBuckets : Nat) (alloc : Bool) : LHash α :=
  if newNumBuckets * 8 % 2 ^ 64 / 8 ≠ newNumBuckets then lh
  else if !alloc then lh
  else { lh with
    buckets := lh.buckets.flatten.foldl moveItem (replicate newNumBuckets []) }

def maybeResize (alloc : Bool) : LHash α :=
  if lh.callbackDepth > 0 then lh
  else
    let avgChainLength := lh.numItems / lh.numBuckets
    if avgChainLength > kMaxAverageChainLength then
      let newNumBuckets := lh.numBuckets * 2 % 2 ^ 64
      if newNumBuckets > lh.numBuckets then lh.rebucket newNumBuckets alloc else lh
    else if avgChainLength < kMinAverageChainLength ∧ lh.numBuckets > kMinNumBuckets then
      let newNumBuckets := lh.numBuckets / 2
      lh.rebucket (if newNumBuckets < kMinNumBuckets then kMinNumBuckets else newNumBuckets) alloc
    else lh

variable (funcs : LhFuncs α)

/-- `get_next_ptr_and_hash`: the bucket and the place in its chain, which is the end of the chain if
    no element is equal. -/
def getNextPtr (lh : LHash α) (data : α) : Nat × Nat :=
  let i := bucketOf (funcs.hash data) lh.numBuckets
  (i, (lh.chain i).findIdx (fun cur => funcs.comp cur.data data))

def retrieve (lh : LHash α) (data : α) : Option α :=
  let (i, place) := lh.getNextPtr funcs data
  (lh.chain i)[place]?.map LhItem.data

/-- `OPENSSL_lh_insert`: the return value, `old_data` and the table. -/
def insert (lh : LHash α) (data : α) (allocItem alloc : Bool) : Bool × Option α × LHash α :=
  let (i, place) := lh.getNextPtr funcs data
  match (lh.chain i)[place]? with
  | some item =>
    (true, some item.data, lh.setChain i ((lh.chain i).set place { item with data := data }))
  | none =>
    if !allocItem then (false, none, lh)
    else
      let lh := { lh.setChain i (lh.chain i ++ [⟨lh.nextAddress, data, funcs.hash data⟩]) with
        numItems := lh.numItems + 1
        nextAddress := lh.nextAddress + 1 }
      (true, none, lh.maybeResize alloc)

def delete (lh : LHash α) (data : α) (alloc : Bool) : Option α × LHash α :=
  let (i, place) := lh.getNextPtr funcs data
  match (lh.chain i)[place]? with
  | none => (none, lh)
  | some item =>
    let lh := { lh.setChain i ((lh.chain i).eraseIdx place) with numItems := lh.numItems - 1 }
    (some item.data, lh.maybeResize alloc)

end LHash

/-! ### Walks -/

inductive LhAction (α : Type) where
  | deleteSelf
  | doall (func : α → List (LhAction α))

inductive LhCall (α : Type) where
  | insert (data : α) (allocItem alloc : Bool)
  | delete (data : α) (alloc : Bool)
  | retrieve (data : α)

structure LhRet (α : Type) where
  ok : Bool
  data : Option α

/-- A call with what it returned, or a walk with the items that were there at its start, those that
    it visited and those that were there at its end. -/
inductive LhEvent (α : Type) where
  | call (call : LhCall α) (ret : LhRet α)
  | walk (before visited after : List (LhItem α))

namespace LHash

def items (lh : LHash α) : List (LhItem α) := lh.buckets.flatten

/-- The inner loop of `OPENSSL_lh_doall_arg`, from the item with the address `cur` on: the next
    item is looked up before the function is called. -/
def doallChain (func : α → LHash α → Except LhFault (List (LhEvent α) × LHash α)) (i : Nat) :
    (steps : Nat) → (cur : Option Nat) → LHash α →
      Except LhFault (List (LhItem α) × List (LhEvent α) × LHash α)
  | _, none, lh => .ok ([], [], lh)
  | 0, some _, _ => .error .tooManySteps
  | steps + 1, some cur, lh =>
    match (lh.chain i).dropWhile (fun item => item.address ≠ cur) with
    | [] => .error .freedItem
    | item :: rest => do
      let (events, lh) ← func item.data lh
      let (visited, later, lh) ←
        doallChain func i steps (rest.head?.map address) lh
      .ok (item :: visited, events ++ later, lh)

/-- The outer loop of `OPENSSL_lh_doall_arg`, over the last `left` buckets. -/
def doallBuckets (func : α → LHash α → Except LhFault (List (LhEvent α) × LHash α)) :
    (left : Nat) → LHash α → Except LhFault (List (LhItem α) × List (LhEvent α) × LHash α)
  | 0, lh => .ok ([], [], lh)
  | left + 1, lh => do
    let i := lh.numBuckets - (left + 1)
    let (visited, events, lh) ← doallChain func i (lh.chain i).length
      ((lh.chain i).head?.map address) lh
    let (visited', later, lh) ← doallBuckets func left lh
    .ok (visited ++ visited', events ++ later, lh)

/-- The start of `OPENSSL_lh_doall_arg`; the depth is a saturating counter. -/
def enter (lh : LHash α) : LHash α :=
  if lh.callbackDepth < UINT_MAX then { lh with callbackDepth := lh.callbackDepth + 1 } else lh

/-- The end of `OPENSSL_lh_doall_arg`, before the table is resized. -/
def leave (lh : LHash α) : LHash α :=
  if lh.callbackDepth < UINT_MAX then { lh with callbackDepth := lh.callbackDepth - 1 } else lh

def doallArg (func : α → LHash α → Except LhFault (List (LhEvent α) × LHash α)) (alloc : Bool)
    (lh : LHash α) : Except LhFault (List (LhEvent α) × LHash α) := do
  let (visited, events, lh') ← doallBuckets func lh.enter.numBuckets lh.enter
  .ok (events ++ [.walk lh.items visited lh'.items], lh'.leave.maybeResize alloc)

end LHash

mutual

def runAction (funcs : LhFuncs α) (data : α) :
    LhAction α → LHash α → Except LhFault (List (LhEvent α) × LHash α)
  | .deleteSelf, lh =>
    let (ret, lh) := lh.delete funcs data true
    .ok ([.call (.delete data true) ⟨true, ret⟩], lh)
  | .doall func, lh => doallArg (fun data lh => runActions funcs data (func data) lh) true lh

def runActions (funcs : LhFuncs α) (data : α) :
    List (LhAction α) → LHash α → Except LhFault (List (LhEvent α) × LHash α)
  | [], lh => .ok ([], lh)
  | action :: actions, lh => do
    let (events, lh) ← runAction funcs data action lh
    let (later, lh) ← runActions funcs data actions lh
    .ok (events ++ later, lh)

end

inductive LhOp (α : Type) where
  | call (call : LhCall α)
  | doall (func : α → List (LhAction α)) (alloc : Bool)

def LHash.call (funcs : LhFuncs α) (lh : LHash α) : LhCall α → LhRet α × LHash α
  | .insert data allocItem alloc =>
    let (ok, old, lh) := lh.insert funcs data allocItem alloc
    (⟨ok, old⟩, lh)
  | .delete data alloc =>
    let (ret, lh) := lh.delete funcs data alloc
    (⟨true, ret⟩, lh)
  | .retrieve data => (⟨true, lh.retrieve funcs data⟩, lh)

def lhStep (funcs : LhFuncs α) (lh : LHash α) :
    LhOp α → Except LhFault (List (LhEvent α) × LHash α)
  | .call call => let (ret, lh) := lh.call funcs call; .ok ([.call call ret], lh)
  | .doall func alloc =>
    doallArg (fun data lh => runActions funcs data (func data) lh) alloc lh

def lhRun (funcs : LhFuncs α) : List (LhOp α) → LHash α →
    Except LhFault (List (LhEvent α) × LHash α)
  | [], lh => .ok ([], lh)
  | op :: ops, lh => do
    let (events, lh) ← lhStep funcs lh op
    let (later, lh) ← lhRun funcs ops lh
    .ok (events ++ later, lh)

/-! ### The map -/

theorem find?_eq_some_iff_of_unique {β : Type} {p : β → Bool} {l : List β}
    (hunique : ∀ x ∈ l, ∀ y ∈ l, p x = true → p y = true → x = y) (x : β) :
    l.find? p = some x ↔ x ∈ l ∧ p x = true := by
  constructor
  · intro h
    exact ⟨mem_of_find?_eq_some h, find?_some h⟩
  · rintro ⟨hmem, hx⟩
    cases hfind : l.find? p with
    | none => exact absurd hx (by simpa using find?_eq_none.mp hfind x hmem)
    | some y =>
      rw [hunique x hmem y (mem_of_find?_eq_some hfind) hx (find?_some hfind)]

/-- A finite map from the classes of elements that compare equal to an element of the class. -/
structure LhMap (funcs : LhFuncs α) where
  entries : List α
  distinct : entries.Pairwise (fun x y => funcs.comp x y = false)

namespace LhMap

variable {funcs : LhFuncs α}

def empty : LhMap funcs := ⟨[], List.Pairwise.nil⟩

def find (m : LhMap funcs) (key : α) : Option α := m.entries.find? (fun x => funcs.comp x key)

variable (m : LhMap funcs)

def erase (key : α) : LhMap funcs :=
  ⟨m.entries.filter (fun x => !funcs.comp x key), m.distinct.filter _⟩

def insert (x : α) : LhMap funcs where
  entries := x :: (m.erase x).entries
  distinct := by
    refine pairwise_cons.mpr ⟨?_, (m.erase x).distinct⟩
    intro y hy
    have hne := (mem_filter.mp hy).2
    rw [Bool.not_eq_true'] at hne
    by_contra hxy
    rw [funcs.symm x y (Bool.eq_true_of_not_eq_false hxy)] at hne
    cases hne

instance (funcs : LhFuncs α) : Std.Symm (fun x y => funcs.comp x y = false) where
  symm x y h := by
    by_contra hcomp
    rw [funcs.symm _ _ (Bool.eq_true_of_not_eq_false hcomp)] at h
    cases h

theorem find_eq_some_iff (key x : α) :
    m.find key = some x ↔ x ∈ m.entries ∧ funcs.comp x key = true := by
  apply find?_eq_some_iff_of_unique
  intro a ha b hb hcompA hcompB
  by_contra hne
  have hapart := m.distinct.forall ha hb hne
  rw [funcs.trans _ _ _ hcompA (funcs.symm _ _ hcompB)] at hapart
  cases hapart

def call : LhCall α → LhRet α × LhMap funcs
  | .insert x allocItem _ =>
    match m.find x with
    | some old => (⟨true, some old⟩, m.insert x)
    | none => if allocItem then (⟨true, none⟩, m.insert x) else (⟨false, none⟩, m)
  | .delete x _ => (⟨true, m.find x⟩, m.erase x)
  | .retrieve x => (⟨true, m.find x⟩, m)

/-- The calls of a run return what the map returns, and take it from the first to the last. -/
def Replays (m : LhMap funcs) : List (LhEvent α) → LhMap funcs → Prop
  | [], m' => m' = m
  | .call c ret :: events, m' => ret = (m.call c).1 ∧ Replays (m.call c).2 events m'
  | .walk _ _ _ :: events, m' => Replays m events m'

theorem Replays.append {m m' m'' : LhMap funcs} {events later : List (LhEvent α)}
    (h : Replays m events m') (h' : Replays m' later m'') : Replays m (events ++ later) m'' := by
  induction events generalizing m with
  | nil =>
    cases h
    exact h'
  | cons event events ih =>
    cases event with
    | call c ret => exact ⟨h.1, ih h.2⟩
    | walk before visited after => exact ih h

end LhMap

namespace LHash

variable {funcs : LhFuncs α} {lh : LHash α}
variable {item : LhItem α}

theorem mem_items : item ∈ lh.items ↔ ∃ i, item ∈ lh.chain i := by
  unfold items chain
  rw [mem_flatten]
  constructor
  · rintro ⟨bucket, hbucket, hitem⟩
    obtain ⟨i, hi⟩ := getElem?_of_mem hbucket
    exact ⟨i, by rw [hi]; exact hitem⟩
  · rintro ⟨i, hitem⟩
    cases hi : lh.buckets[i]? with
    | none =>
      rw [hi] at hitem
      cases hitem
    | some bucket =>
      rw [hi] at hitem
      exact ⟨bucket, mem_of_getElem? hi, hitem⟩

variable {i : Nat}

theorem chain_setChain (lh : LHash α) (hi : i < lh.numBuckets) (items : List (LhItem α)) (j : Nat) :
    (lh.setChain i items).chain j = if j = i then items else lh.chain j := by
  have hlt : i < lh.buckets.length := hi
  unfold setChain chain
  rw [getElem?_set]
  by_cases hj : j = i
  · rw [if_pos hj.symm, if_pos hj, if_pos hlt]
    rfl
  · rw [if_neg (Ne.symm hj), if_neg hj]

theorem items_setChain (lh : LHash α) (hi : i < lh.numBuckets) :
    ∃ before after, lh.items = before ++ lh.chain i ++ after ∧
      ∀ items, (lh.setChain i items).items = before ++ items ++ after := by
  have hlt : i < lh.buckets.length := hi
  refine ⟨(lh.buckets.take i).flatten, (lh.buckets.drop (i + 1)).flatten, ?_, ?_⟩
  · have hget : lh.chain i = lh.buckets[i] := by
      rw [chain, getElem?_eq_getElem hi]
      rfl
    rw [hget, items]
    conv_lhs => rw [← take_append_drop i lh.buckets, drop_eq_getElem_cons hlt]
    rw [flatten_append, flatten_cons, append_assoc]
  · intro items
    rw [LHash.items, setChain, set_eq_take_append_cons_drop, if_pos hlt]
    simp

/-- Different items: they do not compare equal, and have addresses of their own. -/
def Apart (funcs : LhFuncs α) (a b : LhItem α) : Prop :=
  funcs.comp a.data b.data = false ∧ a.address ≠ b.address

theorem Apart.symm {a b : LhItem α} (h : Apart funcs a b) : Apart funcs b a :=
  ⟨Std.Symm.symm (r := fun x y => funcs.comp x y = false) _ _ h.1, h.2.symm⟩

instance (funcs : LhFuncs α) : Std.Symm (Apart funcs) := ⟨fun _ _ h => h.symm⟩

structure Ok (funcs : LhFuncs α) (lh : LHash α) : Prop where
  numBuckets_ge : kMinNumBuckets ≤ lh.numBuckets
  placed : ∀ i, ∀ item ∈ lh.chain i,
    item.hash = funcs.hash item.data ∧ bucketOf item.hash lh.numBuckets = i
  distinct : lh.items.Pairwise (Apart funcs)
  fresh : ∀ item ∈ lh.items, item.address < lh.nextAddress
  count : lh.numItems = lh.items.length

/-- Only the hashes and comparisons of the elements in the table matter. -/
theorem Ok.congr {funcs' : LhFuncs α} (h : lh.Ok funcs)
    (hhash : ∀ item ∈ lh.items, funcs'.hash item.data = funcs.hash item.data)
    (hcomp : ∀ a ∈ lh.items, ∀ b ∈ lh.items,
      funcs'.comp a.data b.data = funcs.comp a.data b.data) : lh.Ok funcs' where
  numBuckets_ge := h.numBuckets_ge
  placed := by
    intro i item hitem
    rw [hhash item (mem_items.mpr ⟨i, hitem⟩)]
    exact h.placed i item hitem
  distinct := by
    apply h.distinct.imp_of_mem
    intro a b ha hb hapart
    exact ⟨(hcomp a ha b hb).trans hapart.1, hapart.2⟩
  fresh := h.fresh
  count := h.count

def Holds (lh : LHash α) (m : LhMap funcs) : Prop := (lh.items.map LhItem.data).Perm m.entries

theorem Ok.bucketOf_lt (h : lh.Ok funcs) (hash : UInt32) :
    bucketOf hash lh.numBuckets < lh.numBuckets :=
  Nat.mod_lt _ (Nat.lt_of_lt_of_le (by decide) h.numBuckets_ge)

theorem Ok.unique (h : lh.Ok funcs) {a b : LhItem α} (ha : a ∈ lh.items) (hb : b ∈ lh.items)
    (hcomp : funcs.comp a.data b.data = true) : a = b := by
  by_contra hne
  have hapart := (h.distinct.forall ha hb hne).1
  rw [hcomp] at hapart
  cases hapart

variable {data : α}

theorem Ok.mem_chain_of_comp (h : lh.Ok funcs) (hitem : item ∈ lh.items)
    (hcomp : funcs.comp item.data data = true) :
    item ∈ lh.chain (bucketOf (funcs.hash data) lh.numBuckets) := by
  obtain ⟨i, hi⟩ := mem_items.mp hitem
  obtain ⟨hhash, hbucket⟩ := h.placed i item hi
  rw [← funcs.hash_eq _ _ hcomp, ← hhash, hbucket]
  exact hi

/-- The item at the place of `get_next_ptr_and_hash`. -/
abbrev found (lh : LHash α) (funcs : LhFuncs α) (data : α) : Option (LhItem α) :=
  (lh.chain (lh.getNextPtr funcs data).1)[(lh.getNextPtr funcs data).2]?

theorem Ok.find_chain (h : lh.Ok funcs) (data : α) (item : LhItem α) :
    lh.found funcs data = some item ↔ item ∈ lh.items ∧ funcs.comp item.data data = true := by
  have hfind : lh.found funcs data = (lh.chain (bucketOf (funcs.hash data) lh.numBuckets)).find?
      (fun cur => funcs.comp cur.data data) := find?_eq_getElem?_findIdx.symm
  rw [hfind, find?_eq_some_iff_of_unique]
  · constructor
    · rintro ⟨hmem, hcomp⟩
      exact ⟨mem_items.mpr ⟨_, hmem⟩, hcomp⟩
    · rintro ⟨hmem, hcomp⟩
      exact ⟨h.mem_chain_of_comp hmem hcomp, hcomp⟩
  · intro a ha b hb hcompA hcompB
    exact h.unique (mem_items.mpr ⟨_, ha⟩) (mem_items.mpr ⟨_, hb⟩)
      (funcs.trans _ _ _ hcompA (funcs.symm _ _ hcompB))

variable {m : LhMap funcs}

theorem Ok.find_eq (h : lh.Ok funcs) (hm : lh.Holds m) (data : α) :
    (lh.found funcs data).map LhItem.data = m.find data := by
  apply Option.ext
  intro x
  rw [Option.map_eq_some_iff, LhMap.find_eq_some_iff, ← hm.mem_iff, mem_map]
  constructor
  · rintro ⟨item, hitem, rfl⟩
    obtain ⟨hmem, hcomp⟩ := (h.find_chain data item).mp hitem
    exact ⟨⟨item, hmem, rfl⟩, hcomp⟩
  · rintro ⟨⟨item, hmem, rfl⟩, hcomp⟩
    exact ⟨item, (h.find_chain data item).mpr ⟨hmem, hcomp⟩, rfl⟩

theorem perm_of_getElem? (lh : LHash α) {place : Nat} (hitem : (lh.chain i)[place]? = some item) :
    i < lh.numBuckets ∧ ∃ others, lh.items.Perm (item :: others) ∧
      (∀ item', (lh.setChain i ((lh.chain i).set place item')).items.Perm (item' :: others)) ∧
      (lh.setChain i ((lh.chain i).eraseIdx place)).items.Perm others := by
  have hi : i < lh.numBuckets := by
    by_contra hge
    rw [chain, List.getElem?_eq_none (l := lh.buckets) (not_lt.mp hge)] at hitem
    cases hitem
  obtain ⟨hlt, rfl⟩ := List.getElem?_eq_some_iff.mp hitem
  obtain ⟨before, after, hitems, hset⟩ := lh.items_setChain hi
  have hmiddle : ∀ item', (before ++ ((lh.chain i).take place ++ item' ::
      (lh.chain i).drop (place + 1)) ++ after).Perm (item' ::
      (before ++ ((lh.chain i).take place ++ (lh.chain i).drop (place + 1)) ++ after)) := by
    intro item'
    simp only [append_assoc, cons_append]
    rw [← append_assoc, ← append_assoc before]
    exact perm_middle
  refine ⟨hi, before ++ ((lh.chain i).take place ++ (lh.chain i).drop (place + 1)) ++ after,
    ?_, fun item' => ?_, ?_⟩
  · rw [hitems]
    conv_lhs =>
      rw [← take_append_drop place (lh.chain i), drop_eq_getElem_cons hlt]
    exact hmiddle _
  · rw [hset, set_eq_take_append_cons_drop, if_pos hlt]
    exact hmiddle item'
  · rw [hset, eraseIdx_eq_take_drop_succ]

theorem perm_append (lh : LHash α) (hi : i < lh.numBuckets) (item : LhItem α) :
    (lh.setChain i (lh.chain i ++ [item])).items.Perm (item :: lh.items) := by
  obtain ⟨before, after, hitems, hset⟩ := lh.items_setChain hi
  rw [hset, hitems, ← append_assoc before, append_assoc (before ++ lh.chain i)]
  exact perm_middle

theorem Ok.perm_erase (h : lh.Ok funcs) (hm : lh.Holds m) {others : List (LhItem α)}
    (hperm : lh.items.Perm (item :: others)) (hcomp : funcs.comp item.data data = true) :
    (others.map LhItem.data).Perm (m.erase data).entries := by
  have hapart := (List.Perm.pairwise_iff (fun hab => hab.symm) hperm).mp h.distinct
  have hothers : ∀ x ∈ others.map LhItem.data, (!funcs.comp x data) = true := by
    intro x hx
    obtain ⟨other, hother, rfl⟩ := mem_map.mp hx
    have hne := ((pairwise_cons.mp hapart).1 other hother).1
    rw [Bool.not_eq_true']
    by_contra hcomp'
    rw [funcs.trans _ _ _ hcomp
      (funcs.symm _ _ (Bool.eq_true_of_not_eq_false hcomp'))] at hne
    cases hne
  have hentries := ((hperm.map LhItem.data).symm.trans hm).filter (fun x => !funcs.comp x data)
  rw [map_cons, filter_cons_of_neg (by simp [hcomp]),
    filter_eq_self.mpr hothers] at hentries
  exact hentries

theorem erase_of_find_none (hnone : m.find data = none) : (m.erase data).entries = m.entries := by
  apply filter_eq_self.mpr
  intro x hx
  simpa using find?_eq_none.mp hnone x hx

@[simp] theorem numBuckets_setChain (lh : LHash α) (i : Nat) (items : List (LhItem α)) :
    (lh.setChain i items).numBuckets = lh.numBuckets := length_set

theorem pairwise_perm {items items' : List (LhItem α)} (hperm : items.Perm items') :
    items.Pairwise (Apart funcs) ↔ items'.Pairwise (Apart funcs) :=
  List.Perm.pairwise_iff (fun hab => hab.symm) hperm

theorem Ok.replace (h : lh.Ok funcs) {place : Nat} (hitem : (lh.chain i)[place]? = some item)
    (hcomp : funcs.comp item.data data = true) :
    (lh.setChain i ((lh.chain i).set place { item with data := data })).Ok funcs := by
  obtain ⟨hi, others, hperm, hset, -⟩ := lh.perm_of_getElem? hitem
  have hset := hset { item with data := data }
  have hold := pairwise_cons.mp ((pairwise_perm hperm).mp h.distinct)
  have hplaced := h.placed i item (mem_of_getElem? hitem)
  refine ⟨?_, ?_, (pairwise_perm hset).mpr (pairwise_cons.mpr ⟨?_, hold.2⟩), ?_, ?_⟩
  · rw [numBuckets_setChain]
    exact h.numBuckets_ge
  · intro j other hother
    rw [numBuckets_setChain]
    rw [chain_setChain lh hi] at hother
    split at hother
    · next hj =>
      rw [hj]
      rcases mem_or_eq_of_mem_set hother with hother | rfl
      · exact h.placed i other hother
      · exact ⟨hplaced.1.trans (funcs.hash_eq _ _ hcomp), hplaced.2⟩
    · exact h.placed j other hother
  · intro other hother
    have hapart := hold.1 other hother
    refine ⟨?_, hapart.2⟩
    by_contra hequal
    have htrans := funcs.trans _ _ _ hcomp (Bool.eq_true_of_not_eq_false hequal)
    rw [hapart.1] at htrans
    cases htrans
  · intro other hother
    rcases mem_cons.mp (hset.mem_iff.mp hother) with rfl | hother
    · exact h.fresh item (hperm.mem_iff.mpr mem_cons_self)
    · exact h.fresh other (hperm.mem_iff.mpr (mem_cons_of_mem _ hother))
  · rw [hset.length_eq, length_cons, ← length_cons (a := item), ← hperm.length_eq]
    exact h.count

def added (funcs : LhFuncs α) (lh : LHash α) (data : α) : LHash α :=
  { lh.setChain (bucketOf (funcs.hash data) lh.numBuckets)
      (lh.chain (bucketOf (funcs.hash data) lh.numBuckets) ++
        [⟨lh.nextAddress, data, funcs.hash data⟩]) with
    numItems := lh.numItems + 1
    nextAddress := lh.nextAddress + 1 }

theorem Ok.added_perm (h : lh.Ok funcs) (data : α) :
    (lh.added funcs data).items.Perm (⟨lh.nextAddress, data, funcs.hash data⟩ :: lh.items) :=
  perm_append lh (h.bucketOf_lt (funcs.hash data)) _

theorem Ok.added (h : lh.Ok funcs) (hnone : ∀ item ∈ lh.items, funcs.comp item.data data = false) :
    (lh.added funcs data).Ok funcs := by
  have hi := h.bucketOf_lt (funcs.hash data)
  have hperm := h.added_perm data
  have hnum : (lh.added funcs data).numBuckets = lh.numBuckets := numBuckets_setChain lh _ _
  refine ⟨hnum ▸ h.numBuckets_ge, ?_,
    (pairwise_perm hperm).mpr (pairwise_cons.mpr ⟨?_, h.distinct⟩), ?_, ?_⟩
  · intro j item hitem
    rw [hnum]
    have hchain : (lh.added funcs data).chain j = _ := chain_setChain lh hi _ j
    rw [hchain] at hitem
    split at hitem
    · next hj =>
      rw [hj]
      rcases mem_append.mp hitem with hold | hnew
      · exact h.placed _ item hold
      · rw [mem_singleton.mp hnew]
        exact ⟨rfl, rfl⟩
    · exact h.placed j item hitem
  · intro item hitem
    exact Apart.symm ⟨hnone item hitem, Nat.ne_of_lt (h.fresh item hitem)⟩
  · intro item hitem
    rcases mem_cons.mp (hperm.mem_iff.mp hitem) with rfl | hold
    · exact Nat.lt_succ_self _
    · exact Nat.lt_succ_of_lt (h.fresh item hold)
  · rw [hperm.length_eq, length_cons, ← h.count]
    rfl

def erased (lh : LHash α) (i place : Nat) : LHash α :=
  { lh.setChain i ((lh.chain i).eraseIdx place) with numItems := lh.numItems - 1 }

theorem chain_erased {place : Nat} (hitem : (lh.chain i)[place]? = some item) (j : Nat) :
    (lh.erased i place).chain j = if j = i then (lh.chain i).eraseIdx place else lh.chain j :=
  chain_setChain lh (lh.perm_of_getElem? hitem).1 _ j

theorem Ok.erased (h : lh.Ok funcs) {place : Nat} (hitem : (lh.chain i)[place]? = some item) :
    (lh.erased i place).Ok funcs := by
  obtain ⟨-, others, hperm, -, herase⟩ := lh.perm_of_getElem? hitem
  have hnum : (lh.erased i place).numBuckets = lh.numBuckets := numBuckets_setChain lh _ _
  have herased : (lh.erased i place).items.Perm others := herase
  have hold := pairwise_cons.mp ((pairwise_perm hperm).mp h.distinct)
  refine ⟨hnum ▸ h.numBuckets_ge, ?_, (pairwise_perm herased).mpr hold.2, ?_, ?_⟩
  · intro j other hother
    rw [hnum]
    rw [chain_erased hitem] at hother
    split at hother
    · next hj =>
      rw [hj]
      exact h.placed i other (mem_of_mem_eraseIdx hother)
    · exact h.placed j other hother
  · intro other hother
    exact h.fresh other (hperm.mem_iff.mpr (mem_cons_of_mem _ (herased.mem_iff.mp hother)))
  · have hcount := h.count
    rw [hperm.length_eq, length_cons] at hcount
    rw [herased.length_eq]
    change lh.numItems - 1 = others.length
    omega

def Placed (buckets : List (List (LhItem α))) : Prop :=
  ∀ i, ∀ item ∈ buckets[i]?.getD [], bucketOf item.hash buckets.length = i

theorem moveItem_spec {buckets : List (List (LhItem α))} (hpos : 0 < buckets.length)
    (hplaced : Placed buckets) (item : LhItem α) :
    (moveItem buckets item).length = buckets.length ∧ Placed (moveItem buckets item) ∧
      (moveItem buckets item).flatten.Perm (item :: buckets.flatten) := by
  have hi : bucketOf item.hash buckets.length < buckets.length := Nat.mod_lt _ hpos
  have hlength : (moveItem buckets item).length = buckets.length := length_set
  refine ⟨hlength, ?_, ?_⟩
  · intro j other hother
    rw [hlength]
    rw [moveItem, getElem?_set] at hother
    split at hother
    · next hj =>
      rcases mem_cons.mp hother with rfl | hother
      · exact hj
      · rw [← hj]
        exact hplaced _ other hother
    · exact hplaced j other hother
  · have hget : buckets[bucketOf item.hash buckets.length]?.getD [] =
        buckets[bucketOf item.hash buckets.length] := by
      rw [getElem?_eq_getElem hi]
      rfl
    rw [moveItem, set_eq_take_append_cons_drop, if_pos hi, hget]
    conv_rhs =>
      rw [← take_append_drop (bucketOf item.hash buckets.length) buckets,
        drop_eq_getElem_cons hi]
    rw [flatten_append, flatten_cons, flatten_append, flatten_cons,
      cons_append]
    exact perm_middle

theorem foldl_moveItem (items : List (LhItem α)) {buckets : List (List (LhItem α))}
    (hpos : 0 < buckets.length) (hplaced : Placed buckets) :
    (items.foldl moveItem buckets).length = buckets.length ∧ Placed (items.foldl moveItem buckets) ∧
      (items.foldl moveItem buckets).flatten.Perm (items ++ buckets.flatten) := by
  induction items generalizing buckets with
  | nil => exact ⟨rfl, hplaced, List.Perm.refl _⟩
  | cons item items ih =>
    obtain ⟨hlength, hplaced', hperm⟩ := moveItem_spec hpos hplaced item
    obtain ⟨hlengths, hplaceds, hperms⟩ := ih (hlength ▸ hpos) hplaced'
    refine ⟨hlengths.trans hlength, hplaceds, hperms.trans ?_⟩
    exact (hperm.append_left items).trans perm_middle

theorem placed_replicate (n : Nat) : Placed (replicate n ([] : List (LhItem α))) := by
  intro i item hitem
  rw [getElem?_replicate] at hitem
  split at hitem <;> cases hitem

/-- **Resizing** keeps the items, whatever the number of buckets and the allocation. -/
theorem Ok.rebucket (h : lh.Ok funcs) {newNumBuckets : Nat} (hnew : kMinNumBuckets ≤ newNumBuckets)
    (alloc : Bool) : (lh.rebucket newNumBuckets alloc).Ok funcs ∧
      (lh.rebucket newNumBuckets alloc).items.Perm lh.items := by
  unfold LHash.rebucket
  split
  · exact ⟨h, List.Perm.refl _⟩
  split
  · exact ⟨h, List.Perm.refl _⟩
  have hpos : 0 < (replicate newNumBuckets ([] : List (LhItem α))).length := by
    rw [length_replicate]
    exact Nat.lt_of_lt_of_le (by decide) hnew
  obtain ⟨hlength, hplaced, hperm⟩ := foldl_moveItem lh.items hpos (placed_replicate _)
  rw [flatten_replicate_nil, append_nil] at hperm
  rw [length_replicate] at hlength
  refine ⟨⟨?_, ?_, (pairwise_perm hperm).mpr h.distinct, ?_, ?_⟩, hperm⟩
  · exact hnew.trans_eq hlength.symm
  · intro i item hitem
    refine ⟨?_, hplaced i item hitem⟩
    obtain ⟨j, hj⟩ := mem_items.mp (hperm.mem_iff.mp (mem_items.mpr ⟨i, hitem⟩))
    exact (h.placed j item hj).1
  · intro item hitem
    exact h.fresh item (hperm.mem_iff.mp hitem)
  · exact h.count.trans hperm.length_eq.symm

theorem Ok.maybeResize (h : lh.Ok funcs) (alloc : Bool) :
    (lh.maybeResize alloc).Ok funcs ∧ (lh.maybeResize alloc).items.Perm lh.items := by
  have hmin := h.numBuckets_ge
  unfold LHash.maybeResize
  split
  · exact ⟨h, List.Perm.refl _⟩
  dsimp only
  split
  · split
    · exact h.rebucket (by omega) alloc
    · exact ⟨h, List.Perm.refl _⟩
  · split
    · refine h.rebucket ?_ alloc
      split <;> omega
    · exact ⟨h, List.Perm.refl _⟩

theorem Holds.of_perm {lh' : LHash α} (h : lh.Holds m) (hperm : lh'.items.Perm lh.items) :
    lh'.Holds m :=
  (hperm.map LhItem.data).trans h

theorem Ok.lookup (h : lh.Ok funcs) (hm : lh.Holds m) (data : α) :
    (lh.found funcs data = none ∧ m.find data = none ∧
      ∀ item ∈ lh.items, funcs.comp item.data data = false) ∨
    ∃ item, lh.found funcs data = some item ∧ funcs.comp item.data data = true ∧
      m.find data = some item.data := by
  have hfind := h.find_eq hm data
  cases hget : lh.found funcs data with
  | none =>
    rw [hget] at hfind
    refine .inl ⟨rfl, hfind.symm, ?_⟩
    intro item hitem
    by_contra hcomp
    have hfound := (h.find_chain data item).mpr ⟨hitem, Bool.eq_true_of_not_eq_false hcomp⟩
    rw [hget] at hfound
    cases hfound
  | some item =>
    rw [hget] at hfind
    exact .inr ⟨item, rfl, ((h.find_chain data item).mp hget).2, hfind.symm⟩

theorem Ok.insert (h : lh.Ok funcs) (hm : lh.Holds m) (data : α) (allocItem alloc : Bool) :
    (lh.call funcs (.insert data allocItem alloc)).2.Ok funcs ∧
      (lh.call funcs (.insert data allocItem alloc)).1 = (m.call (.insert data allocItem alloc)).1 ∧
      (lh.call funcs (.insert data allocItem alloc)).2.Holds
        (m.call (.insert data allocItem alloc)).2 := by
  unfold LHash.call LHash.insert LhMap.call
  rcases h.lookup hm data with ⟨hget, hfind, hnone⟩ | ⟨item, hget, hcomp, hfind⟩
  · simp only [hget, hfind]
    cases allocItem with
    | false => exact ⟨h, rfl, hm⟩
    | true =>
      obtain ⟨hok, hperm⟩ := (h.added hnone).maybeResize alloc
      refine ⟨hok, rfl, ?_⟩
      change List.Perm _ (data :: (m.erase data).entries)
      rw [erase_of_find_none hfind]
      exact ((hperm.trans (h.added_perm data)).map LhItem.data).trans (hm.cons data)
  · simp only [hget, hfind]
    obtain ⟨-, others, hperm, hset, -⟩ := lh.perm_of_getElem? hget
    refine ⟨h.replace hget hcomp, trivial, ?_⟩
    exact ((hset _).map LhItem.data).trans ((h.perm_erase hm hperm hcomp).cons data)

theorem Ok.delete (h : lh.Ok funcs) (hm : lh.Holds m) (data : α) (alloc : Bool) :
    (lh.delete funcs data alloc).2.Ok funcs ∧ (lh.delete funcs data alloc).1 = m.find data ∧
      (lh.delete funcs data alloc).2.Holds (m.erase data) := by
  unfold LHash.delete
  rcases h.lookup hm data with ⟨hget, hfind, -⟩ | ⟨item, hget, hcomp, hfind⟩
  · simp only [hget, hfind]
    refine ⟨h, trivial, ?_⟩
    change List.Perm _ (m.erase data).entries
    rw [erase_of_find_none hfind]
    exact hm
  · simp only [hget, hfind]
    obtain ⟨-, others, hperm, -, herase⟩ := lh.perm_of_getElem? hget
    obtain ⟨hok, hresized⟩ := (h.erased hget).maybeResize alloc
    refine ⟨hok, trivial, ?_⟩
    exact ((hresized.trans herase).map LhItem.data).trans (h.perm_erase hm hperm hcomp)

/-- **One call** returns what the map returns. -/
theorem Ok.call (h : lh.Ok funcs) (hm : lh.Holds m) (c : LhCall α) :
    (lh.call funcs c).2.Ok funcs ∧ (lh.call funcs c).1 = (m.call c).1 ∧
      (lh.call funcs c).2.Holds (m.call c).2 := by
  cases c with
  | insert data allocItem alloc => exact h.insert hm data allocItem alloc
  | delete data alloc =>
    obtain ⟨hok, hret, hholds⟩ := h.delete hm data alloc
    exact ⟨hok, congrArg (LhRet.mk true) hret, hholds⟩
  | retrieve data =>
    refine ⟨h, ?_, hm⟩
    exact congrArg (LhRet.mk true) (h.find_eq hm data)

/-! ### Deletions during a walk -/

structure Shrinks (lh lh' : LHash α) : Prop where
  numBuckets : lh'.numBuckets = lh.numBuckets
  chains : ∀ i, (lh'.chain i).Sublist (lh.chain i)
  -- the counter of walks saturates, and then stays
  depth : lh.callbackDepth ≤ lh'.callbackDepth

theorem Shrinks.refl (lh : LHash α) : Shrinks lh lh :=
  ⟨rfl, fun _ => List.Sublist.refl _, le_rfl⟩

theorem Shrinks.trans {lh' lh'' : LHash α} (h : Shrinks lh lh') (h' : Shrinks lh' lh'') :
    Shrinks lh lh'' :=
  ⟨h'.numBuckets.trans h.numBuckets, fun i => (h'.chains i).trans (h.chains i),
    h.depth.trans h'.depth⟩

theorem delete_in_walk (hdepth : 0 < lh.callbackDepth) (data : α) (alloc : Bool) :
    (lh.delete funcs data alloc).2 = lh ∨
    ∃ item, lh.found funcs data = some item ∧ (lh.delete funcs data alloc).2 =
      lh.erased (lh.getNextPtr funcs data).1 (lh.getNextPtr funcs data).2 := by
  unfold LHash.delete
  cases hget : lh.found funcs data with
  | none =>
    simp only [hget]
    exact .inl trivial
  | some item =>
    simp only [hget]
    exact .inr ⟨item, rfl, if_pos hdepth⟩

theorem delete_shrinks (hdepth : 0 < lh.callbackDepth) (data : α) (alloc : Bool) :
    Shrinks lh (lh.delete funcs data alloc).2 := by
  rcases @delete_in_walk _ funcs _ hdepth data alloc with heq | ⟨item, hget, heq⟩
  · rw [heq]
    exact Shrinks.refl lh
  · rw [heq]
    refine ⟨numBuckets_setChain lh _ _, fun j => ?_, le_rfl⟩
    rw [chain_erased hget]
    split
    · next hj =>
      rw [hj]
      exact eraseIdx_sublist _ _
    · exact List.Sublist.refl _

theorem Ok.mem_delete (h : lh.Ok funcs) (hdepth : 0 < lh.callbackDepth) (alloc : Bool)
    (hitem : item ∈ lh.chain i) (hcomp : funcs.comp item.data data = false) :
    item ∈ (lh.delete funcs data alloc).2.chain i := by
  rcases @delete_in_walk _ funcs _ hdepth data alloc with heq | ⟨found, hget, heq⟩
  · rw [heq]
    exact hitem
  · rw [heq, chain_erased hget]
    have hfound := ((h.find_chain data found).mp hget).2
    split
    · next hj =>
      subst hj
      obtain ⟨hlt, rfl⟩ := List.getElem?_eq_some_iff.mp hget
      rw [mem_eraseIdx_iff_getElem]
      obtain ⟨place, hplace, rfl⟩ := getElem_of_mem hitem
      refine ⟨place, hplace, ?_, rfl⟩
      rintro rfl
      rw [hcomp] at hfound
      cases hfound
    · exact hitem

end LHash

/-- What a walk has to do: it visits items that were there at its start, none of them twice, and
    leaves out none that is still there at its end. -/
def LhEvent.Ok : LhEvent α → Prop
  | .call _ _ => True
  | .walk before visited after =>
    (before.map address).Nodup ∧ visited.Sublist before ∧
      ∀ item ∈ before, item ∈ visited ∨ item ∉ after

namespace LHash

variable {funcs : LhFuncs α} {lh : LHash α}

structure RunOk (funcs : LhFuncs α) (lh : LHash α) (events : List (LhEvent α)) (lh' : LHash α) :
    Prop where
  ok : lh'.Ok funcs
  replays : ∀ m : LhMap funcs, lh.Holds m → ∃ m', m.Replays events m' ∧ lh'.Holds m'
  walks : ∀ event ∈ events, event.Ok

theorem RunOk.nil (h : lh.Ok funcs) : RunOk funcs lh [] lh :=
  ⟨h, fun m hm => ⟨m, rfl, hm⟩, nofun⟩

theorem RunOk.trans {lh' lh'' : LHash α} {events later : List (LhEvent α)}
    (h : RunOk funcs lh events lh') (h' : RunOk funcs lh' later lh'') :
    RunOk funcs lh (events ++ later) lh'' where
  ok := h'.ok
  replays := by
    intro m hm
    obtain ⟨m', hm', hholds⟩ := h.replays m hm
    obtain ⟨m'', hm'', hholds'⟩ := h'.replays m' hholds
    exact ⟨m'', hm'.append hm'', hholds'⟩
  walks := by
    intro event hevent
    rcases mem_append.mp hevent with hevent | hevent
    · exact h.walks event hevent
    · exact h'.walks event hevent

def Ok.toMap (h : lh.Ok funcs) : LhMap funcs where
  entries := lh.items.map LhItem.data
  distinct := pairwise_map.mpr (h.distinct.imp (fun hapart => hapart.1))

theorem RunOk.call (h : lh.Ok funcs) (c : LhCall α) :
    RunOk funcs lh [.call c (lh.call funcs c).1] (lh.call funcs c).2 where
  ok := (h.call (m := h.toMap) (List.Perm.refl _) c).1
  replays := by
    intro m hm
    obtain ⟨-, hret, hholds⟩ := h.call hm c
    exact ⟨(m.call c).2, ⟨hret, rfl⟩, hholds⟩
  walks := by
    intro event hevent
    rw [mem_singleton.mp hevent]
    trivial

structure StepOk (funcs : LhFuncs α) (lh : LHash α) (events : List (LhEvent α)) (lh' : LHash α) :
    Prop extends RunOk funcs lh events lh' where
  shrinks : Shrinks lh lh'

theorem StepOk.nil (h : lh.Ok funcs) : StepOk funcs lh [] lh := ⟨RunOk.nil h, Shrinks.refl lh⟩

theorem StepOk.trans {lh' lh'' : LHash α} {events later : List (LhEvent α)}
    (h : StepOk funcs lh events lh') (h' : StepOk funcs lh' later lh'') :
    StepOk funcs lh (events ++ later) lh'' :=
  ⟨h.toRunOk.trans h'.toRunOk, h.shrinks.trans h'.shrinks⟩

/-- A function that only fails where a walk goes on with an item that was freed. -/
def Behaves (funcs : LhFuncs α) (lh : LHash α) :
    Except LhFault (List (LhEvent α) × LHash α) → Prop
  | .ok (events, lh') => StepOk funcs lh events lh'
  | .error fault => fault = .freedItem

/-- What holds of the parts of a computation holds of the whole, and a fault is passed on. -/
theorem bind_outcome {β γ : Type} {P : Except LhFault β → Prop} {Q : Except LhFault γ → Prop}
    {first : Except LhFault β} {rest : β → Except LhFault γ} (hfirst : P first)
    (herror : ∀ fault, P (.error fault) → Q (.error fault))
    (hrest : ∀ result, P (.ok result) → Q (rest result)) : Q (first >>= rest) := by
  cases first with
  | error fault => exact herror fault hfirst
  | ok result => exact hrest result hfirst

theorem Ok.chain_apart (h : lh.Ok funcs) (i : Nat) : (lh.chain i).Pairwise (Apart funcs) := by
  rcases Nat.lt_or_ge i lh.numBuckets with hi | hi
  · obtain ⟨before, after, hitems, -⟩ := lh.items_setChain hi
    refine h.distinct.sublist ?_
    rw [hitems, append_assoc]
    exact (sublist_append_left _ _).trans (sublist_append_right _ _)
  · rw [chain, List.getElem?_eq_none hi]
    exact List.Pairwise.nil

def suffix (lh : LHash α) (i : Nat) : Option Nat → List (LhItem α)
  | none => []
  | some address => (lh.chain i).dropWhile (fun item => item.address ≠ address)

/-- The next item in a chain that has lost items: what follows it is what is left of what followed
    it before. -/
theorem dropWhile_of_sublist {l l' before rest : List (LhItem α)} {next : LhItem α}
    (hl : l = before ++ next :: rest) (hapart : l.Pairwise (Apart funcs)) (hsub : l'.Sublist l)
    (hnext : next ∈ l') :
    ∃ rest', l'.dropWhile (fun item => item.address ≠ next.address) = next :: rest' ∧
      rest'.Sublist rest ∧ ∀ item ∈ next :: rest, item ∈ l' → item ∈ next :: rest' := by
  rw [hl] at hsub hapart
  obtain ⟨-, hafter, hbefore⟩ := pairwise_append.mp hapart
  obtain ⟨l₁, l₂, rfl, hl₁, hl₂⟩ := sublist_append_iff.mp hsub
  have hdisjoint : ∀ item ∈ next :: rest, item ∉ l₁ := by
    intro item hitem hmem
    exact (hbefore item (hl₁.subset hmem) item hitem).2 rfl
  have hrest : next ∉ rest := by
    intro hmem
    exact ((pairwise_cons.mp hafter).1 next hmem).2 rfl
  have hmem₂ : next ∈ l₂ := by
    rcases mem_append.mp hnext with hmem | hmem
    · exact absurd hmem (hdisjoint next mem_cons_self)
    · exact hmem
  rcases sublist_cons_iff.mp hl₂ with hskip | ⟨rest', rfl, hrest'⟩
  · exact absurd (hskip.subset hmem₂) hrest
  refine ⟨rest', ?_, hrest', ?_⟩
  · rw [dropWhile_append_of_pos, dropWhile_cons_of_neg (by simp)]
    intro item hitem
    simpa using (hbefore item (hl₁.subset hitem) next mem_cons_self).2
  · intro item hitem hmem
    rcases mem_append.mp hmem with hmem | hmem
    · exact absurd hmem (hdisjoint item hitem)
    · exact hmem

theorem dropWhile_of_not_mem {l l' : List (LhItem α)} {next : LhItem α}
    (hapart : l.Pairwise (Apart funcs)) (hsub : l'.Sublist l) (hmem : next ∈ l)
    (hnext : next ∉ l') : l'.dropWhile (fun item => item.address ≠ next.address) = [] := by
  rw [dropWhile_eq_nil_iff]
  intro item hitem
  have hne : item ≠ next := fun heq => hnext (heq ▸ hitem)
  simpa using (hapart.forall (hsub.subset hitem) hmem hne).2

/-- A walk along a chain goes on with the next item that was there before the function was called,
    either freed or followed by what is left. -/
theorem suffix_next {lh' : LHash α} {rest before : List (LhItem α)} {item : LhItem α} {i : Nat}
    (h : lh.Ok funcs) (hshrinks : Shrinks lh lh') (hchain : lh.chain i = before ++ item :: rest) :
    (∃ next ∈ rest, rest.head? = some next ∧ next ∉ lh'.chain i ∧
      lh'.suffix i (some next.address) = []) ∨
    (lh'.suffix i (rest.head?.map address)).Sublist rest ∧
      ∀ x ∈ rest, x ∈ lh'.chain i → x ∈ lh'.suffix i (rest.head?.map address) := by
  cases rest with
  | nil => exact Or.inr ⟨List.Sublist.refl _, nofun⟩
  | cons next rest =>
    have hsplit : lh.chain i = (before ++ [item]) ++ next :: rest := by
      rw [hchain, append_assoc, singleton_append]
    have hmem : next ∈ lh.chain i := by
      rw [hsplit]
      exact mem_append_right _ mem_cons_self
    by_cases hnext : next ∈ lh'.chain i
    · obtain ⟨rest', hdrop, hsub, hkept⟩ :=
        dropWhile_of_sublist hsplit (h.chain_apart i) (hshrinks.chains i) hnext
      have hsuffix : lh'.suffix i ((next :: rest).head?.map address) = next :: rest' := hdrop
      rw [hsuffix]
      exact Or.inr ⟨hsub.cons_cons next, hkept⟩
    · exact Or.inl ⟨next, mem_cons_self, rfl, hnext,
        dropWhile_of_not_mem (h.chain_apart i) (hshrinks.chains i) hmem hnext⟩

structure ChainOk (funcs : LhFuncs α) (i : Nat) (suffix : List (LhItem α)) (lh : LHash α)
    (visited : List (LhItem α)) (events : List (LhEvent α)) (lh' : LHash α) : Prop where
  step : StepOk funcs lh events lh'
  within : visited.Sublist suffix
  left_out : ∀ item ∈ suffix, item ∈ visited ∨ item ∉ lh'.chain i

def ChainBehaves (funcs : LhFuncs α) (i : Nat) (suffix : List (LhItem α)) (lh : LHash α) :
    Except LhFault (List (LhItem α) × List (LhEvent α) × LHash α) → Prop
  | .ok (visited, events, lh') => ChainOk funcs i suffix lh visited events lh'
  | .error fault => fault = .freedItem

section Walk

variable {func : α → LHash α → Except LhFault (List (LhEvent α) × LHash α)}
variable {events : List (LhEvent α)} {i : Nat} {item : LhItem α} {rest : List (LhItem α)}

theorem doallChain_cons {cur : Nat} (hsuffix : lh.suffix i (some cur) = item :: rest)
    {lh₁ : LHash α} (hcall : func item.data lh = .ok (events, lh₁)) (steps : Nat) :
    doallChain func i (steps + 1) (some cur) lh = (do
      let (visited, later, lh) ← doallChain func i steps (rest.head?.map address) lh₁
      .ok (item :: visited, events ++ later, lh)) := by
  have hdrop : (lh.chain i).dropWhile (fun item => item.address ≠ cur) = item :: rest := hsuffix
  rw [doallChain, hdrop]
  simp only [hcall]
  rfl

theorem doallChain_cons_error {cur : Nat} (hsuffix : lh.suffix i (some cur) = item :: rest)
    {fault : LhFault} (hcall : func item.data lh = .error fault) (steps : Nat) :
    doallChain func i (steps + 1) (some cur) lh = .error fault := by
  have hdrop : (lh.chain i).dropWhile (fun item => item.address ≠ cur) = item :: rest := hsuffix
  rw [doallChain, hdrop]
  simp only [hcall]
  rfl

theorem doallChain_freed {cur : Nat} (hsuffix : lh.suffix i (some cur) = []) (steps : Nat) :
    doallChain func i (steps + 1) (some cur) lh = .error .freedItem := by
  have hdrop : (lh.chain i).dropWhile (fun item => item.address ≠ cur) = [] := hsuffix
  rw [doallChain, hdrop]

theorem suffix_split {cur : Nat} (hsuffix : lh.suffix i (some cur) = item :: rest) :
    ∃ before, lh.chain i = before ++ item :: rest := by
  refine ⟨(lh.chain i).takeWhile (fun item => item.address ≠ cur), ?_⟩
  rw [← hsuffix]
  exact takeWhile_append_dropWhile.symm

/-- The function is called for an item, and the walk goes on with what is left of the chain. -/
theorem ChainBehaves.cons {lh₁ : LHash α} {suffix : List (LhItem α)}
    {later : Except LhFault (List (LhItem α) × List (LhEvent α) × LHash α)}
    (hstep : StepOk funcs lh events lh₁) (hsub : suffix.Sublist rest)
    (hkept : ∀ x ∈ rest, x ∈ lh₁.chain i → x ∈ suffix)
    (hlater : ChainBehaves funcs i suffix lh₁ later) :
    ChainBehaves funcs i (item :: rest) lh (do
      let (visited, later, lh) ← later
      .ok (item :: visited, events ++ later, lh)) := by
  refine bind_outcome hlater (fun _ hfault => hfault) ?_
  rintro ⟨visited, later, lh₂⟩ (hok : ChainOk funcs i suffix lh₁ visited later lh₂)
  refine ⟨hstep.trans hok.step, (hok.within.trans hsub).cons_cons item, ?_⟩
  intro x hx
  rcases mem_cons.mp hx with rfl | hx
  · exact Or.inl mem_cons_self
  by_cases hleft : x ∈ lh₁.chain i
  · rcases hok.left_out x (hkept x hx hleft) with hvisited | hgone
    · exact Or.inl (mem_cons_of_mem _ hvisited)
    · exact Or.inr hgone
  · exact Or.inr (fun hmem => hleft ((hok.step.shrinks.chains i).subset hmem))

/-- The walk along the rest of a chain, by induction on the steps that are allowed for it. -/
theorem doallChain_ok
    (hfunc : ∀ data lh, lh.Ok funcs → 0 < lh.callbackDepth → Behaves funcs lh (func data lh))
    {steps : Nat} {cur : Option Nat} (h : lh.Ok funcs) (hdepth : 0 < lh.callbackDepth)
    (hsteps : (lh.suffix i cur).length ≤ steps) (hcur : cur = none ∨ 0 < steps) :
    ChainBehaves funcs i (lh.suffix i cur) lh (doallChain func i steps cur lh) := by
  induction steps generalizing cur lh with
  | zero =>
    obtain rfl : cur = none := by
      rcases hcur with hcur | hcur
      · exact hcur
      · cases hcur
    exact ⟨StepOk.nil h, List.Sublist.refl _, nofun⟩
  | succ steps ih =>
    cases cur with
    | none => exact ⟨StepOk.nil h, List.Sublist.refl _, nofun⟩
    | some cur =>
      cases hsuffix : lh.suffix i (some cur) with
      | nil =>
        rw [doallChain_freed hsuffix]
        rfl
      | cons item rest =>
        rw [hsuffix, length_cons] at hsteps
        obtain ⟨before, hchain⟩ := suffix_split hsuffix
        have hbehaves := hfunc item.data lh h hdepth
        cases hcall : func item.data lh with
        | error fault =>
          rw [hcall] at hbehaves
          rw [doallChain_cons_error hsuffix hcall]
          exact hbehaves
        | ok result =>
          obtain ⟨events, lh₁⟩ := result
          rw [hcall] at hbehaves
          have hstep : StepOk funcs lh events lh₁ := hbehaves
          have hdepth₁ : 0 < lh₁.callbackDepth := hdepth.trans_le hstep.shrinks.depth
          rw [doallChain_cons hsuffix hcall]
          rcases suffix_next h hstep.shrinks hchain with ⟨next, hnext, hhead, -, hfreed⟩ | hrest
          · obtain ⟨steps, rfl⟩ : ∃ steps', steps = steps' + 1 :=
              ⟨steps - 1, by have := length_pos_of_mem hnext; omega⟩
            rw [hhead, Option.map_some, doallChain_freed hfreed]
            rfl
          · have hlength := hrest.1.length_le
            have hnext : rest.head?.map address = none ∨ 0 < steps := by
              cases rest with
              | nil => exact Or.inl rfl
              | cons next rest =>
                rw [length_cons] at hsteps
                exact Or.inr (by omega)
            exact ChainBehaves.cons hstep hrest.1 hrest.2
              (ih hstep.ok hdepth₁ (hlength.trans (by omega)) hnext)

def lastItems (lh : LHash α) (left : Nat) : List (LhItem α) :=
  (lh.buckets.drop (lh.numBuckets - left)).flatten

theorem lastItems_succ {left : Nat} (hleft : left + 1 ≤ lh.numBuckets) :
    lh.lastItems (left + 1) = lh.chain (lh.numBuckets - (left + 1)) ++ lh.lastItems left := by
  have hlt : lh.numBuckets - (left + 1) < lh.buckets.length := by
    unfold numBuckets at hleft ⊢
    omega
  have hnext : lh.numBuckets - (left + 1) + 1 = lh.numBuckets - left := by omega
  unfold lastItems chain
  rw [drop_eq_getElem_cons hlt, flatten_cons, hnext, getElem?_eq_getElem hlt]
  rfl

theorem lastItems_zero (lh : LHash α) : lh.lastItems 0 = [] := by
  rw [lastItems, Nat.sub_zero, numBuckets, drop_length, flatten_nil]

theorem lastItems_numBuckets : lh.lastItems lh.numBuckets = lh.items := by
  rw [lastItems, Nat.sub_self, drop_zero, items]

variable {lh' : LHash α}

theorem Shrinks.lastItems (h : Shrinks lh lh') {left : Nat} (hleft : left ≤ lh.numBuckets) :
    (lh'.lastItems left).Sublist (lh.lastItems left) := by
  induction left with
  | zero =>
    rw [lastItems_zero]
    exact nil_sublist _
  | succ left ih =>
    rw [lastItems_succ hleft, lastItems_succ (hleft.trans_eq h.numBuckets.symm), h.numBuckets]
    exact (h.chains _).append (ih (by omega))

theorem Ok.mem_chain_of_shrinks (h : lh.Ok funcs) (hshrinks : Shrinks lh lh')
    (hitem : item ∈ lh.chain i) (hleft : item ∈ lh'.items) : item ∈ lh'.chain i := by
  obtain ⟨j, hj⟩ := mem_items.mp hleft
  have hi := (h.placed i item hitem).2
  have hj' := (h.placed j item ((hshrinks.chains j).subset hj)).2
  rw [← hi, hj']
  exact hj

theorem Ok.mem_lastItems_of_shrinks (h : lh.Ok funcs) (hshrinks : Shrinks lh lh') {left : Nat}
    (hlt : left ≤ lh.numBuckets) (hitem : item ∈ lh.lastItems left) (hleft : item ∈ lh'.items) :
    item ∈ lh'.lastItems left := by
  induction left with
  | zero =>
    rw [lastItems_zero] at hitem
    cases hitem
  | succ left ih =>
    rw [lastItems_succ (hlt.trans_eq hshrinks.numBuckets.symm), hshrinks.numBuckets]
    rw [lastItems_succ hlt] at hitem
    rcases mem_append.mp hitem with hitem | hitem
    · exact mem_append_left _ (h.mem_chain_of_shrinks hshrinks hitem hleft)
    · exact mem_append_right _ (ih (by omega) hitem)

structure BucketsOk (funcs : LhFuncs α) (left : Nat) (lh : LHash α)
    (visited : List (LhItem α)) (events : List (LhEvent α)) (lh' : LHash α) : Prop where
  step : StepOk funcs lh events lh'
  within : visited.Sublist (lh.lastItems left)
  left_out : ∀ item ∈ lh.lastItems left, item ∈ visited ∨ item ∉ lh'.items

def BucketsBehaves (funcs : LhFuncs α) (left : Nat) (lh : LHash α) :
    Except LhFault (List (LhItem α) × List (LhEvent α) × LHash α) → Prop
  | .ok (visited, events, lh') => BucketsOk funcs left lh visited events lh'
  | .error fault => fault = .freedItem

theorem suffix_head (lh : LHash α) (i : Nat) :
    lh.suffix i ((lh.chain i).head?.map address) = lh.chain i := by
  cases hchain : lh.chain i with
  | nil => rfl
  | cons item rest =>
    rw [head?_cons, Option.map_some, suffix, hchain, dropWhile_cons_of_neg (by simp)]

/-- The walk over the last buckets, by induction on their number. -/
theorem doallBuckets_ok
    (hfunc : ∀ data lh, lh.Ok funcs → 0 < lh.callbackDepth → Behaves funcs lh (func data lh))
    {left : Nat} (h : lh.Ok funcs) (hdepth : 0 < lh.callbackDepth) (hleft : left ≤ lh.numBuckets) :
    BucketsBehaves funcs left lh (doallBuckets func left lh) := by
  induction left generalizing lh with
  | zero =>
    refine ⟨StepOk.nil h, nil_sublist _, ?_⟩
    intro item hitem
    rw [lastItems_zero] at hitem
    cases hitem
  | succ left ih =>
    have hchain := doallChain_ok hfunc (i := lh.numBuckets - (left + 1)) h hdepth
      (congrArg length (suffix_head lh _)).le (by
        cases lh.chain (lh.numBuckets - (left + 1)) with
        | nil => exact Or.inl rfl
        | cons item rest => exact Or.inr (Nat.succ_pos _))
    rw [suffix_head] at hchain
    refine bind_outcome hchain (fun _ hfault => hfault) ?_
    rintro ⟨visited, events, lh₁⟩ (hok : ChainOk funcs _ _ lh visited events lh₁)
    have hshrinks := hok.step.shrinks
    have hlater := ih hok.step.ok (hdepth.trans_le hshrinks.depth)
      ((Nat.le_of_succ_le hleft).trans_eq hshrinks.numBuckets.symm)
    refine bind_outcome hlater (fun _ hfault => hfault) ?_
    rintro ⟨visited', later, lh₂⟩ (hok₂ : BucketsOk funcs left lh₁ visited' later lh₂)
    have hshrinks₂ := hok₂.step.shrinks
    refine ⟨hok.step.trans hok₂.step, ?_, ?_⟩
    · rw [lastItems_succ hleft]
      exact hok.within.append (hok₂.within.trans (hshrinks.lastItems (by omega)))
    · intro item hitem
      rw [lastItems_succ hleft] at hitem
      rcases mem_append.mp hitem with hitem | hitem
      · rcases hok.left_out item hitem with hvisited | hgone
        · exact Or.inl (mem_append_left _ hvisited)
        · refine Or.inr (fun hmem => hgone ((hshrinks₂.chains _).subset ?_))
          exact h.mem_chain_of_shrinks (hshrinks.trans hshrinks₂) hitem hmem
      · by_cases hmem : item ∈ lh₂.items
        · have hlast := h.mem_lastItems_of_shrinks hshrinks (by omega) hitem
            (mem_items.mpr ((mem_items.mp hmem).imp
              (fun i hi => (hshrinks₂.chains i).subset hi)))
          rcases hok₂.left_out item hlast with hvisited | hgone
          · exact Or.inl (mem_append_right _ hvisited)
          · exact Or.inr hgone
        · exact Or.inr hmem

theorem Ok.enter (h : lh.Ok funcs) : lh.enter.Ok funcs ∧ 0 < lh.enter.callbackDepth ∧
    lh.enter.buckets = lh.buckets ∧ lh.callbackDepth ≤ lh.enter.callbackDepth := by
  unfold LHash.enter
  split
  · exact ⟨⟨h.numBuckets_ge, h.placed, h.distinct, h.fresh, h.count⟩, Nat.succ_pos _, rfl,
      Nat.le_succ _⟩
  · next hdepth => exact ⟨h, Nat.lt_of_lt_of_le (by decide) (Nat.le_of_not_lt hdepth), rfl, le_rfl⟩

theorem Ok.leave (h : lh.Ok funcs) : lh.leave.Ok funcs ∧ lh.leave.buckets = lh.buckets := by
  unfold LHash.leave
  split
  · exact ⟨⟨h.numBuckets_ge, h.placed, h.distinct, h.fresh, h.count⟩, rfl⟩
  · exact ⟨h, rfl⟩

theorem depth_leave (hdepth : lh.enter.callbackDepth ≤ lh'.callbackDepth) :
    lh.callbackDepth ≤ lh'.leave.callbackDepth := by
  unfold LHash.enter at hdepth
  unfold LHash.leave
  split at hdepth
  · dsimp only at hdepth
    split
    · dsimp only
      omega
    · omega
  · split
    · dsimp only
      omega
    · exact hdepth

/-- The outcomes of a walk: in a walk of another one the table only shrinks. -/
def WalkBehaves (funcs : LhFuncs α) (lh : LHash α) :
    Except LhFault (List (LhEvent α) × LHash α) → Prop
  | .ok (events, lh') => RunOk funcs lh events lh' ∧ (0 < lh.callbackDepth → Shrinks lh lh')
  | .error fault => fault = .freedItem

theorem BucketsOk.walk {visited : List (LhItem α)} (h : lh.Ok funcs)
    (hwalk : BucketsOk funcs lh.enter.numBuckets lh.enter visited events lh') (alloc : Bool) :
    RunOk funcs lh (events ++ [.walk lh.items visited lh'.items]) (lh'.leave.maybeResize alloc) ∧
    (0 < lh.callbackDepth → Shrinks lh (lh'.leave.maybeResize alloc)) := by
  obtain ⟨-, -, hbuckets, -⟩ := h.enter
  obtain ⟨hleave, hbuckets'⟩ := hwalk.step.ok.leave
  obtain ⟨hok, hperm⟩ := hleave.maybeResize alloc
  have hitems : lh.enter.items = lh.items := congrArg flatten hbuckets
  have hitems' : lh'.leave.items = lh'.items := congrArg flatten hbuckets'
  have hlast : lh.enter.lastItems lh.enter.numBuckets = lh.items :=
    lastItems_numBuckets.trans hitems
  refine ⟨⟨hok, ?_, ?_⟩, ?_⟩
  · intro m hm
    obtain ⟨m', hm', hholds⟩ := hwalk.step.replays m (hm.of_perm (hitems ▸ List.Perm.refl _))
    exact ⟨m', hm'.append rfl, hholds.of_perm (hitems' ▸ hperm)⟩
  · intro event hevent
    rcases mem_append.mp hevent with hevent | hevent
    · exact hwalk.step.walks event hevent
    · rw [mem_singleton.mp hevent]
      refine ⟨?_, hlast ▸ hwalk.within, hlast ▸ hwalk.left_out⟩
      exact pairwise_map.mpr (h.distinct.imp (fun hapart => hapart.2))
  · intro hdepth
    have hdepth' := depth_leave hwalk.step.shrinks.depth
    have hsame : lh'.leave.maybeResize alloc = lh'.leave := if_pos (hdepth.trans_le hdepth')
    rw [hsame]
    refine ⟨?_, ?_, hdepth'⟩
    · exact (congrArg length hbuckets').trans
        (hwalk.step.shrinks.numBuckets.trans (congrArg length hbuckets))
    · intro i
      unfold chain
      rw [hbuckets', ← hbuckets]
      exact hwalk.step.shrinks.chains i

/-- **A walk** with a function that deletes the element that it is given or walks itself. -/
theorem doallArg_ok
    (hfunc : ∀ data lh, lh.Ok funcs → 0 < lh.callbackDepth → Behaves funcs lh (func data lh))
    (h : lh.Ok funcs) (alloc : Bool) : WalkBehaves funcs lh (doallArg func alloc lh) := by
  obtain ⟨hok, hdepth, -, -⟩ := h.enter
  have hbuckets := doallBuckets_ok hfunc hok hdepth le_rfl
  exact bind_outcome hbuckets (fun _ hfault => hfault) fun _ hwalk => BucketsOk.walk h hwalk alloc

end Walk

end LHash

namespace LHash

variable {funcs : LhFuncs α} {lh : LHash α}

theorem WalkBehaves.behaves {result : Except LhFault (List (LhEvent α) × LHash α)}
    (h : WalkBehaves funcs lh result) (hdepth : 0 < lh.callbackDepth) :
    Behaves funcs lh result := by
  cases result with
  | error fault => exact h
  | ok result => exact ⟨h.1, h.2 hdepth⟩

theorem StepOk.delete (h : lh.Ok funcs) (hdepth : 0 < lh.callbackDepth) (data : α) :
    StepOk funcs lh [.call (.delete data true) ⟨true, (lh.delete funcs data true).1⟩]
      (lh.delete funcs data true).2 :=
  ⟨RunOk.call h (.delete data true), delete_shrinks hdepth data true⟩

mutual

theorem runAction_ok (data : α) (action : LhAction α) (lh : LHash α) (h : lh.Ok funcs)
    (hdepth : 0 < lh.callbackDepth) : Behaves funcs lh (runAction funcs data action lh) := by
  cases action with
  | deleteSelf =>
    rw [runAction]
    exact StepOk.delete h hdepth data
  | doall func =>
    rw [runAction]
    refine (doallArg_ok ?_ h true).behaves hdepth
    intro data' lh' h' hdepth'
    exact runActions_ok data' (func data') lh' h' hdepth'

theorem runActions_ok (data : α) (actions : List (LhAction α)) (lh : LHash α) (h : lh.Ok funcs)
    (hdepth : 0 < lh.callbackDepth) : Behaves funcs lh (runActions funcs data actions lh) := by
  cases actions with
  | nil =>
    rw [runActions]
    exact StepOk.nil h
  | cons action actions =>
    have hfirst := runAction_ok data action lh h hdepth
    rw [runActions]
    refine bind_outcome hfirst (fun _ hfault => hfault) ?_
    rintro ⟨events, lh₁⟩ (hstep : StepOk funcs lh events lh₁)
    have hrest := runActions_ok data actions lh₁ hstep.ok (hdepth.trans_le hstep.shrinks.depth)
    exact bind_outcome hrest (fun _ hfault => hfault) fun _ hlater => hstep.trans hlater

end

end LHash

def LhEvent.Full : LhEvent α → Prop
  | .call _ _ => True
  | .walk before visited _ => visited = before

namespace LHash

variable {funcs : LhFuncs α} {lh : LHash α}

/-- A function that never fails, and keeps the items that do not compare equal to its element. -/
def Flat (funcs : LhFuncs α) (func : α → LHash α → Except LhFault (List (LhEvent α) × LHash α)) :
    Prop :=
  ∀ data lh, lh.Ok funcs → 0 < lh.callbackDepth → ∃ events lh', func data lh = .ok (events, lh') ∧
    StepOk funcs lh events lh' ∧ (∀ event ∈ events, event.Full) ∧
      ∀ item ∈ lh.items, funcs.comp item.data data = false → item ∈ lh'.items

theorem flat_runActions {func : α → List (LhAction α)}
    (hfunc : ∀ data, ∀ action ∈ func data, action = .deleteSelf) :
    Flat funcs (fun data lh => runActions funcs data (func data) lh) := by
  intro data lh h hdepth
  have hactions := hfunc data
  dsimp only
  generalize func data = actions at hactions
  induction actions generalizing lh with
  | nil =>
    refine ⟨[], lh, ?_, StepOk.nil h, nofun, fun item hitem _ => hitem⟩
    rw [runActions]
  | cons action actions ih =>
    obtain rfl : action = .deleteSelf := hactions action mem_cons_self
    have hstep := StepOk.delete h hdepth data
    obtain ⟨events, lh', hrun, hrest, hfull, hkept⟩ := ih _ hstep.ok
      (hdepth.trans_le hstep.shrinks.depth)
      (fun action haction => hactions action (mem_cons_of_mem _ haction))
    refine ⟨_, lh', ?_, hstep.trans hrest, forall_mem_cons.mpr ⟨trivial, hfull⟩, ?_⟩
    · rw [runActions, runAction]
      change (do
        let (later, lh) ← runActions funcs data actions (lh.delete funcs data true).2
        Except.ok (_ ++ later, lh)) = _
      rw [hrun]
      rfl
    · intro item hitem hcomp
      obtain ⟨i, hi⟩ := mem_items.mp hitem
      exact hkept item (mem_items.mpr ⟨i, h.mem_delete hdepth true hi hcomp⟩) hcomp

section FlatWalk

variable {func : α → LHash α → Except LhFault (List (LhEvent α) × LHash α)}

theorem Flat.behaves (hfunc : Flat funcs func) (data : α) (lh : LHash α) (h : lh.Ok funcs)
    (hdepth : 0 < lh.callbackDepth) : Behaves funcs lh (func data lh) := by
  obtain ⟨events, lh', hcall, hstep, -, -⟩ := hfunc data lh h hdepth
  rw [hcall]
  exact hstep

/-- A walk along the rest of a chain visits every item, and keeps those outside of it. -/
theorem doallChain_flat (hfunc : Flat funcs func) {i steps : Nat} {cur : Option Nat}
    (h : lh.Ok funcs) (hdepth : 0 < lh.callbackDepth) (hsteps : (lh.suffix i cur).length ≤ steps)
    (hcur : cur = none ∨ lh.suffix i cur ≠ []) :
    ∃ visited events lh', doallChain func i steps cur lh = .ok (visited, events, lh') ∧
      (∀ event ∈ events, event.Full) ∧ (∀ item ∈ lh.suffix i cur, item ∈ visited) ∧
      ∀ item ∈ lh.items, item ∉ lh.suffix i cur → item ∈ lh'.items := by
  induction steps generalizing cur lh with
  | zero =>
    obtain rfl : cur = none := by
      rcases hcur with hcur | hcur
      · exact hcur
      · exact absurd (length_eq_zero_iff.mp (Nat.le_zero.mp hsteps)) hcur
    exact ⟨[], [], lh, rfl, nofun, nofun, fun item hitem _ => hitem⟩
  | succ steps ih =>
    cases cur with
    | none => exact ⟨[], [], lh, rfl, nofun, nofun, fun item hitem _ => hitem⟩
    | some cur =>
      cases hsuffix : lh.suffix i (some cur) with
      | nil =>
        rcases hcur with hcur | hcur
        · cases hcur
        · exact absurd hsuffix hcur
      | cons item rest =>
        rw [hsuffix, length_cons] at hsteps
        obtain ⟨before, hchain⟩ := suffix_split hsuffix
        obtain ⟨events, lh₁, hcall, hstep, hfull, hkept⟩ := hfunc item.data lh h hdepth
        have hchainItem : item ∈ lh.chain i := by
          rw [hchain]
          exact mem_append_right _ mem_cons_self
        have hothers : ∀ x ∈ lh.items, x ≠ item → x ∈ lh₁.items := by
          intro x hx hne
          exact hkept x hx (h.distinct.forall hx (mem_items.mpr ⟨i, hchainItem⟩) hne).1
        have hrestChain : ∀ x ∈ rest, x ∈ lh₁.chain i := by
          intro x hx
          have hxchain : x ∈ lh.chain i := by
            rw [hchain]
            exact mem_append_right _ (mem_cons_of_mem _ hx)
          refine h.mem_chain_of_shrinks hstep.shrinks hxchain
            (hothers x (mem_items.mpr ⟨i, hxchain⟩) ?_)
          rintro rfl
          have hapart := h.chain_apart i
          rw [hchain] at hapart
          exact ((pairwise_cons.mp (pairwise_append.mp hapart).2.1).1 x hx).2 rfl
        rw [doallChain_cons hsuffix hcall]
        rcases suffix_next h hstep.shrinks hchain with ⟨next, hnext, -, hgone, -⟩ | ⟨hsub, hleft⟩
        · exact absurd (hrestChain next hnext) hgone
        · have hlength := hsub.length_le
          have hnext : rest.head?.map address = none ∨
              lh₁.suffix i (rest.head?.map address) ≠ [] := by
            cases rest with
            | nil => exact Or.inl rfl
            | cons next rest =>
              exact Or.inr (ne_nil_of_mem
                (hleft next mem_cons_self (hrestChain next mem_cons_self)))
          obtain ⟨visited, later, lh₂, hrun, hfull₂, hvisited, hkept₂⟩ :=
            ih hstep.ok (hdepth.trans_le hstep.shrinks.depth) (hlength.trans (by omega)) hnext
          refine ⟨item :: visited, events ++ later, lh₂, ?_,
            forall_mem_append.mpr ⟨hfull, hfull₂⟩, ?_, ?_⟩
          · rw [hrun]
            rfl
          · intro x hx
            rcases mem_cons.mp hx with rfl | hx
            · exact mem_cons_self
            · exact mem_cons_of_mem _ (hvisited x (hleft x hx (hrestChain x hx)))
          · intro x hx hout
            refine hkept₂ x (hothers x hx (fun heq => hout (heq ▸ mem_cons_self))) ?_
            exact fun hmem => hout (mem_cons_of_mem _ (hsub.subset hmem))

theorem lastItems_sublist (lh : LHash α) (left : Nat) : (lh.lastItems left).Sublist lh.items := by
  unfold lastItems items
  conv_rhs => rw [← take_append_drop (lh.numBuckets - left) lh.buckets, flatten_append]
  exact sublist_append_right _ _

theorem doallBuckets_flat (hfunc : Flat funcs func) {left : Nat} (h : lh.Ok funcs)
    (hdepth : 0 < lh.callbackDepth) (hleft : left ≤ lh.numBuckets) :
    ∃ visited events lh', doallBuckets func left lh = .ok (visited, events, lh') ∧
      (∀ event ∈ events, event.Full) ∧ ∀ item ∈ lh.lastItems left, item ∈ visited := by
  induction left generalizing lh with
  | zero =>
    refine ⟨[], [], lh, rfl, nofun, ?_⟩
    rw [lastItems_zero]
    nofun
  | succ left ih =>
    have hhead : (lh.chain (lh.numBuckets - (left + 1))).head?.map address = none ∨
        lh.suffix (lh.numBuckets - (left + 1))
          ((lh.chain (lh.numBuckets - (left + 1))).head?.map address) ≠ [] := by
      rw [suffix_head]
      cases lh.chain (lh.numBuckets - (left + 1)) with
      | nil => exact Or.inl rfl
      | cons item rest => exact Or.inr (cons_ne_nil _ _)
    have hlength := (congrArg length
      (suffix_head lh (lh.numBuckets - (left + 1)))).le
    obtain ⟨visited, events, lh₁, hrun, hfull, hvisited, hkept⟩ :=
      doallChain_flat hfunc h hdepth hlength hhead
    have hchain := doallChain_ok hfunc.behaves h hdepth hlength
      (hhead.imp_right (fun hne => (length_pos_iff.mpr hne).trans_le hlength))
    rw [suffix_head] at hvisited hkept hchain
    rw [hrun] at hchain
    have hok : ChainOk funcs _ _ lh visited events lh₁ := hchain
    have hshrinks := hok.step.shrinks
    obtain ⟨visited', later, lh₂, hrun₂, hfull₂, hvisited'⟩ := ih hok.step.ok
      (hdepth.trans_le hshrinks.depth) ((Nat.le_of_succ_le hleft).trans_eq hshrinks.numBuckets.symm)
    refine ⟨visited ++ visited', events ++ later, lh₂, ?_,
      forall_mem_append.mpr ⟨hfull, hfull₂⟩, ?_⟩
    · rw [doallBuckets]
      simp only [hrun]
      change (do
        let (visited', later, lh) ← doallBuckets func left lh₁
        Except.ok (visited ++ visited', events ++ later, lh)) = _
      rw [hrun₂]
      rfl
    · intro item hitem
      have happend := lastItems_succ hleft
      have hapart := h.distinct.sublist (lh.lastItems_sublist (left + 1))
      rw [happend] at hapart hitem
      rcases mem_append.mp hitem with hitem | hitem
      · exact mem_append_left _ (hvisited item hitem)
      · refine mem_append_right _ (hvisited' item
          (h.mem_lastItems_of_shrinks hshrinks (by omega) hitem
            (hkept item ((lh.lastItems_sublist left).subset hitem) ?_)))
        intro hmem
        exact ((pairwise_append.mp hapart).2.2 item hmem item hitem).2 rfl

/-- **A walk with a function that only deletes the element that it is given** does not fail, and
    visits every item. -/
theorem doallArg_flat (hfunc : Flat funcs func) (h : lh.Ok funcs) (alloc : Bool) :
    ∃ events lh', doallArg func alloc lh = .ok (events, lh') ∧ ∀ event ∈ events, event.Full := by
  obtain ⟨hok, hdepth, hbuckets, -⟩ := h.enter
  obtain ⟨visited, events, lh₁, hrun, hfull, hvisited⟩ := doallBuckets_flat hfunc hok hdepth le_rfl
  have hwalk := doallBuckets_ok hfunc.behaves hok hdepth le_rfl
  rw [hrun] at hwalk
  have hwithin : visited.Sublist lh.items := by
    have hsub := BucketsOk.within hwalk
    rw [lastItems_numBuckets, items, hbuckets] at hsub
    exact hsub
  rw [lastItems_numBuckets, items, hbuckets] at hvisited
  have hnodup : lh.items.Nodup := by
    refine h.distinct.imp ?_
    rintro a b hapart rfl
    exact hapart.2 rfl
  have hall : visited = lh.items :=
    hwithin.eq_of_length_le (hnodup.subperm hvisited).length_le
  refine ⟨events ++ [.walk lh.items visited lh₁.items], lh₁.leave.maybeResize alloc, ?_,
    forall_mem_append.mpr ⟨hfull, ?_⟩⟩
  · unfold doallArg
    rw [hrun]
    rfl
  · intro event hevent
    rw [mem_singleton.mp hevent]
    exact hall

def calls (events : List (LhEvent α)) : List (LhCall α) :=
  events.filterMap fun
    | .call c _ => some c
    | .walk _ _ _ => none

theorem calls_append (events later : List (LhEvent α)) :
    calls (events ++ later) = calls events ++ calls later := filterMap_append

variable {events : List (LhEvent α)}

theorem replays_calls {m m' : LhMap funcs} (h : m.Replays events m') :
    m' = (calls events).foldl (fun m c => (m.call c).2) m := by
  induction events generalizing m with
  | nil => exact h
  | cons event events ih =>
    cases event with
    | call c ret => exact ih h.2
    | walk before visited after => exact ih h

variable {f : α → List (LhCall α)}
  (hfunc : ∀ data lh events lh', func data lh = .ok (events, lh') → calls events = f data)
include hfunc

theorem doallChain_calls {i steps : Nat} {cur : Option Nat} {visited : List (LhItem α)}
    {lh' : LHash α} (h : doallChain func i steps cur lh = .ok (visited, events, lh')) :
    calls events = visited.flatMap fun item => f item.data := by
  induction steps generalizing cur lh visited events with
  | zero =>
    cases cur with
    | none =>
      cases h
      rfl
    | some cur => cases h
  | succ steps ih =>
    cases cur with
    | none =>
      cases h
      rfl
    | some cur =>
      cases hsuffix : lh.suffix i (some cur) with
      | nil =>
        rw [doallChain_freed hsuffix] at h
        cases h
      | cons item rest =>
        cases hcall : func item.data lh with
        | error fault =>
          rw [doallChain_cons_error hsuffix hcall] at h
          cases h
        | ok result =>
          rw [doallChain_cons hsuffix hcall] at h
          obtain ⟨_, hrest, h⟩ := except_bind_ok h
          cases h
          rw [calls_append, hfunc _ _ _ _ hcall, ih hrest, flatMap_cons]

theorem doallBuckets_calls {left : Nat} {visited : List (LhItem α)} {lh' : LHash α}
    (h : doallBuckets func left lh = .ok (visited, events, lh')) :
    calls events = visited.flatMap fun item => f item.data := by
  induction left generalizing lh visited events with
  | zero =>
    cases h
    rfl
  | succ left ih =>
    rw [doallBuckets] at h
    obtain ⟨_, hchain, h⟩ := except_bind_ok h
    obtain ⟨_, hrest, h⟩ := except_bind_ok h
    cases h
    rw [calls_append, doallChain_calls hfunc hchain, ih hrest, flatMap_append]

theorem doallArg_calls {alloc : Bool} {lh' : LHash α}
    (h : doallArg func alloc lh = .ok (events, lh')) (hfull : ∀ event ∈ events, event.Full) :
    calls events = lh.items.flatMap fun item => f item.data := by
  unfold doallArg at h
  obtain ⟨⟨visited, first, lh₁⟩, hbuckets, h⟩ := except_bind_ok h
  cases h
  have hall : visited = lh.items :=
    hfull _ (mem_append_right _ (mem_singleton.mpr rfl))
  rw [calls_append, doallBuckets_calls hfunc hbuckets, hall]
  exact append_nil _

end FlatWalk

/-- Deleting elements one after the other keeps those that compare equal to none of them. -/
theorem foldl_delete (xs : List α) (m : LhMap funcs) :
    ((xs.map fun x => LhCall.delete x true).foldl (fun m c => (m.call c).2) m).entries =
      m.entries.filter fun y => xs.all fun x => !funcs.comp y x := by
  induction xs generalizing m with
  | nil => exact (filter_eq_self.mpr fun y _ => rfl).symm
  | cons x xs ih =>
    rw [map_cons, foldl_cons, ih]
    change (m.entries.filter _).filter _ = _
    rw [filter_filter]
    apply filter_congr
    intro y _
    rw [all_cons, Bool.and_comm]

theorem runActions_deleteSelf {data : α} {events : List (LhEvent α)} {lh' : LHash α} {b : Bool}
    (h : runActions funcs data (if b then [.deleteSelf] else []) lh = .ok (events, lh')) :
    calls events = if b then [.delete data true] else [] := by
  cases b with
  | false =>
    rw [if_neg Bool.false_ne_true, runActions] at h
    cases h
    rfl
  | true =>
    rw [if_pos rfl, runActions, runAction] at h
    change (do
      let (later, lh) ← runActions funcs data [] (lh.delete funcs data true).2
      Except.ok (_ ++ later, lh)) = _ at h
    rw [runActions] at h
    cases h
    rfl

/-- **A walk that deletes the elements that satisfy a condition** deletes all of them, and keeps
    the other ones. -/
theorem Ok.doall_deleting (h : lh.Ok funcs) {m : LhMap funcs} (hm : lh.Holds m) (p : α → Bool)
    (alloc : Bool) :
    ∃ events lh',
      lhStep funcs lh (.doall (fun data => if p data then [.deleteSelf] else []) alloc) =
        .ok (events, lh') ∧
      lh'.Ok funcs ∧
      calls events = ((lh.items.map LhItem.data).filter p).map (fun x => .delete x true) ∧
      (lh'.items.map LhItem.data).Perm (m.entries.filter fun x => !p x) := by
  have hflat : Flat funcs (fun data lh =>
      runActions funcs data (if p data then [.deleteSelf] else []) lh) := by
    apply flat_runActions
    intro data action haction
    split at haction
    · exact mem_singleton.mp haction
    · cases haction
  obtain ⟨events, lh', hwalk, hfull⟩ := doallArg_flat hflat h alloc
  have hok := doallArg_ok hflat.behaves h alloc
  rw [hwalk] at hok
  obtain ⟨hrun, -⟩ := hok
  have hcalls : calls events =
      ((lh.items.map LhItem.data).filter p).map (fun x => .delete x true) := by
    rw [doallArg_calls (fun _ _ _ _ hcall => runActions_deleteSelf hcall) hwalk hfull]
    generalize lh.items = items
    induction items with
    | nil => rfl
    | cons item items ih =>
      rw [flatMap_cons, map_cons, filter_cons, ih]
      by_cases hp : p item.data = true
      · rw [if_pos hp, if_pos hp]
        rfl
      · rw [if_neg hp, if_neg hp]
        rfl
  refine ⟨events, lh', hwalk, hrun.ok, hcalls, ?_⟩
  obtain ⟨m', hreplays, hholds⟩ := hrun.replays m hm
  have hm' : m'.entries = m.entries.filter fun x => !p x := by
    rw [replays_calls hreplays, hcalls, foldl_delete]
    apply filter_congr
    intro y hy
    have hmem : y ∈ lh.items.map LhItem.data := hm.mem_iff.mpr hy
    cases hp : p y with
    | true =>
      -- the element itself is deleted
      apply Bool.eq_false_iff.mpr
      intro hall
      have hself := all_eq_true.mp hall y (mem_filter.mpr ⟨hmem, hp⟩)
      rw [funcs.refl] at hself
      cases hself
    | false =>
      apply all_eq_true.mpr
      intro x hx
      obtain ⟨hx, hpx⟩ := mem_filter.mp hx
      have hne : y ≠ x := by
        rintro rfl
        rw [hp] at hpx
        cases hpx
      rw [m.distinct.forall hy (hm.mem_iff.mp hx) hne]
      rfl
  exact hm' ▸ hholds

/-! ### Runs -/

theorem new_ok (funcs : LhFuncs α) : (new : LHash α).Ok funcs := by
  have hitems : (new : LHash α).items = [] := flatten_replicate_nil
  refine ⟨?_, ?_, ?_, ?_, ?_⟩
  · exact (length_replicate).ge
  · intro i item hitem
    have hmem := mem_items.mpr ⟨i, hitem⟩
    rw [hitems] at hmem
    cases hmem
  · rw [hitems]
    exact List.Pairwise.nil
  · rw [hitems]
    nofun
  · rw [hitems]
    rfl

def RunBehaves (funcs : LhFuncs α) (lh : LHash α) :
    Except LhFault (List (LhEvent α) × LHash α) → Prop
  | .ok (events, lh') => RunOk funcs lh events lh'
  | .error fault => fault = .freedItem

theorem WalkBehaves.run {result : Except LhFault (List (LhEvent α) × LHash α)}
    (h : WalkBehaves funcs lh result) : RunBehaves funcs lh result := by
  cases result with
  | error fault => exact h
  | ok result => exact h.1

theorem lhStep_ok (h : lh.Ok funcs) (op : LhOp α) : RunBehaves funcs lh (lhStep funcs lh op) := by
  cases op with
  | call c => exact RunOk.call h c
  | doall func alloc =>
    exact (doallArg_ok (fun data lh h hdepth => runActions_ok data (func data) lh h hdepth) h
      alloc).run

theorem lhRun_ok (h : lh.Ok funcs) (ops : List (LhOp α)) :
    RunBehaves funcs lh (lhRun funcs ops lh) := by
  induction ops generalizing lh with
  | nil => exact RunOk.nil h
  | cons op ops ih =>
    have hstep := lhStep_ok h op
    refine bind_outcome hstep (fun _ hfault => hfault) ?_
    rintro ⟨events, lh₁⟩ (hok : RunOk funcs lh events lh₁)
    exact bind_outcome (ih hok.ok) (fun _ hfault => hfault) fun _ hlater => hok.trans hlater

end LHash

/-- The functions of the walks of a call only delete the element that they are given. -/
def LhOp.Flat : LhOp α → Prop
  | .call _ => True
  | .doall func _ => ∀ data, ∀ action ∈ func data, action = .deleteSelf

namespace LHash

variable {funcs : LhFuncs α} {lh : LHash α}

theorem lhStep_flat (h : lh.Ok funcs) {op : LhOp α} (hop : op.Flat) :
    ∃ events lh', lhStep funcs lh op = .ok (events, lh') ∧ ∀ event ∈ events, event.Full := by
  cases op with
  | call c =>
    refine ⟨_, _, rfl, ?_⟩
    intro event hevent
    rw [mem_singleton.mp hevent]
    trivial
  | doall func alloc => exact doallArg_flat (flat_runActions hop) h alloc

theorem lhRun_flat (h : lh.Ok funcs) {ops : List (LhOp α)} (hops : ∀ op ∈ ops, op.Flat) :
    ∃ events lh', lhRun funcs ops lh = .ok (events, lh') ∧ ∀ event ∈ events, event.Full := by
  induction ops generalizing lh with
  | nil => exact ⟨[], lh, rfl, nofun⟩
  | cons op ops ih =>
    obtain ⟨events, lh₁, hstep, hfull⟩ := lhStep_flat h (hops op mem_cons_self)
    have hok := lhStep_ok h op
    rw [hstep] at hok
    obtain ⟨later, lh₂, hrun, hfull₂⟩ := ih (RunOk.ok hok)
      (fun op hop => hops op (mem_cons_of_mem _ hop))
    refine ⟨events ++ later, lh₂, ?_, forall_mem_append.mpr ⟨hfull, hfull₂⟩⟩
    rw [lhRun, hstep]
    change (do
      let (later, lh) ← lhRun funcs ops lh₁
      Except.ok (events ++ later, lh)) = _
    rw [hrun]
    rfl

end LHash

def natFuncs : LhFuncs Nat where
  hash n := UInt32.ofNat n
  comp m n := m == n
  refl n := beq_self_eq_true n
  symm m n h := by rw [eq_of_beq h]; exact beq_self_eq_true n
  trans m n k h h' := by rw [eq_of_beq h]; exact h'
  hash_eq m n h := congrArg UInt32.ofNat (eq_of_beq h)

/-- **The hash table is a map.**  A run from an empty table only fails in a walk that goes on with
    an item that was freed in a walk of its function.  Where it does not fail, the calls return what
    the map returns that they are replayed on, the table holds the elements of the map and counts
    them, and each walk visits, once, the items that were there at its start, but for those that
    were deleted before their turn.  With functions that only delete the element that they are given
    the run does not fail, and the walks visit all items. -/
theorem lhash_refines_map (funcs : LhFuncs α) (ops : List (LhOp α)) :
    (match lhRun funcs ops new with
      | .ok (events, lh) =>
        (∃ m, (LhMap.empty : LhMap funcs).Replays events m ∧ lh.Holds m ∧
          lh.numItems = m.entries.length) ∧
        ∀ event ∈ events, event.Ok
      | .error fault => fault = .freedItem) ∧
    ((∀ op ∈ ops, op.Flat) →
      ∃ events lh, lhRun funcs ops new = .ok (events, lh) ∧
        ∀ event ∈ events, event.Full) := by
  refine ⟨?_, fun hops => lhRun_flat (new_ok funcs) hops⟩
  have hrun := lhRun_ok (new_ok funcs) ops
  cases hresult : lhRun funcs ops new with
  | error fault =>
    rw [hresult] at hrun
    exact hrun
  | ok result =>
    obtain ⟨events, lh⟩ := result
    rw [hresult] at hrun
    have hok : LHash.RunOk funcs new events lh := hrun
    have hempty : (new : LHash α).Holds (LhMap.empty : LhMap funcs) := by
      have hitems : (new : LHash α).items = [] := flatten_replicate_nil
      rw [LHash.Holds, hitems]
      exact List.Perm.refl _
    obtain ⟨m, hm, hholds⟩ := hok.replays _ hempty
    refine ⟨⟨m, hm, hholds, ?_⟩, hok.walks⟩
    rw [hok.ok.count, ← hholds.length_eq, length_map]

theorem lhash_refines_map_sample :
    ∃ events lh, lhRun natFuncs [.call (.insert 0 true true), .call (.insert 16 true true),
      .doall (fun _ => [.deleteSelf]) true] new = .ok (events, lh) ∧
        ∀ event ∈ events, event.Full := by
  refine (lhash_refines_map natFuncs _).2 ?_
  refine forall_mem_cons.mpr ⟨trivial, forall_mem_cons.mpr ⟨trivial, ?_⟩⟩
  intro op hop
  rw [mem_singleton.mp hop]
  exact fun data action haction => mem_singleton.mp haction

def visits (result : Except LhFault (List (LhEvent α) × LHash α)) :
    Except LhFault (List (List α × List α)) :=
  result.map fun (events, _) => events.filterMap fun
    | .call _ _ => none
    | .walk before visited _ => some (before.map LhItem.data, visited.map LhItem.data)

/-- A function that walks over the table with a function that deletes the elements.  The outer walk
    does not visit an element that is gone, and fails if it is the next one of the chain. -/
theorem nested_walk_deletes :
    visits (lhRun natFuncs [.call (.insert 0 true true), .call (.insert 1 true true),
      .doall (fun _ => [.doall (fun _ => [.deleteSelf])]) true] new) =
      .ok [([0, 1], [0, 1]), ([0, 1], [0])] ∧
    visits (lhRun natFuncs [.call (.insert 0 true true), .call (.insert 16 true true),
      .doall (fun _ => [.doall (fun _ => [.deleteSelf])]) true] new) = .error .freedItem := by
  constructor <;> rfl

end AwsLc
