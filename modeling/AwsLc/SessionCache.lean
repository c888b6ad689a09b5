import AwsLc.LHash
import AwsLc.Linked

/-!
# The session cache

A context keeps its sessions in a hash table, by their ids, and in a doubly linked list, newest
first.  At the ends of the list a node points to the fields of the context that hold the ends.

Sessions are known by their addresses, and a field of the sessions is a function of the address.
-/

namespace AwsLc

open Linked List Function LhItem

/-! ### Sessions -/

/-- A pointer to an `SSL_SESSION`, which may be the address of `session_cache_head` or of
    `session_cache_tail` instead. -/
inductive SessionPtr where
  | null
  | cacheHead
  | cacheTail
  | session (address : Nat)
deriving DecidableEq, Repr

structure SessionFields where
  sessionId : Nat → Bytes
  time : Nat → UInt64
  timeout : Nat → UInt32

def sslHashSessionId (sessionId : Bytes) : UInt32 :=
  let sessionId :=
    if sessionId.length < 4 then sessionId ++ replicate (4 - sessionId.length) 0
    else sessionId
  (sessionId.getD 0 0).toUInt32 ||| (sessionId.getD 1 0).toUInt32 <<< 8 |||
    (sessionId.getD 2 0).toUInt32 <<< 16 ||| (sessionId.getD 3 0).toUInt32 <<< 24

variable (fields : SessionFields)

/-- `ssl_session_hash` and `ssl_session_cmp`. -/
def sessionFuncs : LhFuncs Nat where
  hash session := sslHashSessionId (fields.sessionId session)
  comp a b := fields.sessionId a == fields.sessionId b
  refl _ := beq_self_eq_true _
  symm a b h := by
    rw [beq_iff_eq] at h ⊢
    exact h.symm
  trans a b c hab hbc := by
    rw [beq_iff_eq] at hab hbc ⊢
    exact hab.trans hbc
  hash_eq a b h := congrArg sslHashSessionId (beq_iff_eq.mp h)

structure SessionList where
  prev : Nat → SessionPtr
  next : Nat → SessionPtr
  sessionCacheHead : SessionPtr
  sessionCacheTail : SessionPtr

variable (list : SessionList)

namespace SessionList

/-- An assignment to the field `next` of what a pointer points to, which has to be a session. -/
def setNext (ptr value : SessionPtr) : Option SessionList :=
  match ptr with
  | .session address => some { list with next := update list.next address value }
  | _ => none

/-- An assignment to the field `prev`. -/
def setPrev (ptr value : SessionPtr) : Option SessionList :=
  match ptr with
  | .session address => some { list with prev := update list.prev address value }
  | _ => none

/-- The branches of `SSL_SESSION_list_remove`. -/
def bypass (session : Nat) : Option SessionList :=
  if list.next session = .cacheTail then
    if list.prev session = .cacheHead then
      some { list with sessionCacheHead := .null, sessionCacheTail := .null }
    else
      let list := { list with sessionCacheTail := list.prev session }
      list.setNext (list.prev session) .cacheTail
  else if list.prev session = .cacheHead then
    let list := { list with sessionCacheHead := list.next session }
    list.setPrev (list.next session) .cacheHead
  else do
    let list ← list.setPrev (list.next session) (list.prev session)
    list.setNext (list.prev session) (list.next session)

def sessionListRemove (session : Nat) : Option SessionList :=
  if list.next session = .null ∨ list.prev session = .null then some list
  else do
    let list ← list.bypass session
    some { list with
      prev := update list.prev session .null
      next := update list.next session .null }

def sessionListAdd (session : Nat) : Option SessionList := do
  let list ← if list.next session ≠ .null ∧ list.prev session ≠ .null then
      list.sessionListRemove session
    else some list
  if list.sessionCacheHead = .null then
    some {
      sessionCacheHead := .session session
      sessionCacheTail := .session session
      prev := update list.prev session .cacheHead
      next := update list.next session .cacheTail }
  else do
    let list := { list with next := update list.next session list.sessionCacheHead }
    let list ← list.setPrev (list.next session) (.session session)
    some { list with
      prev := update list.prev session .cacheHead
      sessionCacheHead := .session session }

end SessionList

/-! ### The cache -/

/-- The part of an `SSL_CTX` that is the cache, with the sessions that there are. -/
structure SessionCache where
  fields : SessionFields
  references : Nat → Nat
  list : SessionList
  sessions : LHash Nat
  sessionCacheSize : Nat

variable (ctx : SessionCache)

namespace SessionCache

def new (references : Nat → Nat) (sessionCacheSize : Nat) : SessionCache where
  fields := fields
  references := references
  list := ⟨fun _ => .null, fun _ => .null, .null, .null⟩
  sessions := LHash.new
  sessionCacheSize := sessionCacheSize

def upRef (session : Nat) : SessionCache :=
  { ctx with references := update ctx.references session (ctx.references session + 1) }

def sessionFree (session : Option Nat) : SessionCache :=
  match session with
  | some session =>
    { ctx with references := update ctx.references session (ctx.references session - 1) }
  | none => ctx

def removeSession (session : SessionPtr) (alloc : Bool) : Option (Bool × SessionCache) :=
  match session with
  | .null => some (false, ctx)
  | .session session =>
    if (ctx.fields.sessionId session).length = 0 then some (false, ctx)
    else if ctx.sessions.retrieve (sessionFuncs ctx.fields) session = some session then do
      let (foundSession, sessions) :=
        ctx.sessions.delete (sessionFuncs ctx.fields) session alloc
      let list ← ctx.list.sessionListRemove session
      some (true, { ctx with list := list, sessions := sessions }.sessionFree foundSession)
    else some (false, ctx)
  | _ => none

/-- The loop of `add_session_locked`, which may remove `rounds` sessions. -/
def enforceCacheSize (alloc : Nat → Bool) : (rounds : Nat) → SessionCache → Option SessionCache
  | rounds, ctx =>
    if ctx.sessions.numItems > ctx.sessionCacheSize then
      match rounds with
      | 0 => none
      | rounds + 1 => do
        let (removed, ctx) ← ctx.removeSession ctx.list.sessionCacheTail (alloc (rounds + 1))
        if removed then enforceCacheSize alloc rounds ctx else some ctx
    else some ctx

def removeOld : (oldSession : Option Nat) → Option SessionList
  | some oldSession => list.sessionListRemove oldSession
  | none => some list

/-- The part of `add_session_locked` from the change of the list on. -/
def addToList (oldSession : Option Nat) (newSession : Nat)
    (alloc : Nat → Bool) : Option SessionCache := do
  let list ← removeOld ctx.list oldSession
  let list ← list.sessionListAdd newSession
  let ctx := { ctx with list := list }
  if ctx.sessionCacheSize > 0 then ctx.enforceCacheSize alloc ctx.sessions.numItems else some ctx

def addSessionLocked (newSession : Nat) (allocItem : Bool)
    (alloc : Nat → Bool) : Option (Bool × SessionCache) :=
  let (inserted, oldSession, sessions) :=
    ctx.sessions.insert (sessionFuncs ctx.fields) newSession allocItem (alloc 0)
  let ctx := { ctx with sessions := sessions }
  if !inserted then some (false, ctx.sessionFree (some newSession))
  else if oldSession = some newSession then some (false, ctx.sessionFree oldSession)
  else do
    let ctx ← ctx.addToList oldSession newSession alloc
    some (true, ctx.sessionFree oldSession)

def addSession (session : Nat) (allocItem : Bool) (alloc : Nat → Bool) :
    Option (Bool × SessionCache) :=
  (ctx.upRef session).addSessionLocked session allocItem alloc

end SessionCache

/-- The condition of `timeout_doall_arg`. -/
def SessionFields.timedOut (time : UInt64) (session : Nat) : Bool :=
  time == 0 ||
    fields.time session + (fields.timeout session).toUInt64 < fields.time session ||
    time > fields.time session + (fields.timeout session).toUInt64

namespace SessionCache

/-- What `timeout_doall_arg` does with a session besides deleting it from the table. -/
def timeoutRemove (session : Nat) : Option SessionCache := do
  let list ← ctx.list.sessionListRemove session
  some ({ ctx with list := list }.sessionFree (some session))

def deleted (events : List (LhEvent Nat)) : List Nat :=
  (LHash.calls events).filterMap fun
    | .delete session _ => some session
    | _ => none

/-- `SSL_CTX_flush_sessions`, which changes the list after the table here, in the same order. -/
def flushSessions (ctx : SessionCache) (time : UInt64) (alloc : Bool) : Option SessionCache := do
  let timeoutDoallArg := fun session =>
    if ctx.fields.timedOut time session then [LhAction.deleteSelf] else []
  let (events, sessions) ←
    (lhStep (sessionFuncs ctx.fields) ctx.sessions (.doall timeoutDoallArg alloc)).toOption
  (deleted events).foldlM timeoutRemove { ctx with sessions := sessions }

end SessionCache

/-- A call on the context, with the outcomes of the allocations, or a change of a session. -/
inductive CacheOp where
  | addSession (session : Nat) (allocItem : Bool) (alloc : Nat → Bool)
  | removeSession (session : Option Nat) (alloc : Bool)
  | flushSessions (time : UInt64) (alloc : Bool)
  | setId (session : Nat) (sessionId : Bytes)
  | setTime (session : Nat) (time : UInt64) (timeout : UInt32)

def SessionFields.change : CacheOp → SessionFields
  | .setId session sessionId =>
    { fields with sessionId := update fields.sessionId session sessionId }
  | .setTime session time timeout =>
    { fields with
      time := update fields.time session time
      timeout := update fields.timeout session timeout }
  | _ => fields

def SessionCache.step : CacheOp → Option SessionCache
  | .addSession session allocItem alloc => (ctx.addSession session allocItem alloc).map Prod.snd
  | .removeSession session alloc =>
    (ctx.removeSession (session.elim .null .session) alloc).map Prod.snd
  | .flushSessions time alloc => ctx.flushSessions time alloc
  | op => some { ctx with fields := ctx.fields.change op }

/-! ### The map that is meant -/

structure SessionMap where
  fields : SessionFields
  size : Nat
  entries : List Nat

open SessionMap

namespace SessionMap

def bounded (size : Nat) (entries : List Nat) : List Nat :=
  if size > 0 then entries.take size else entries

variable (map : SessionMap)

def without (sessionId : Bytes) : List Nat :=
  map.entries.filter fun session => map.fields.sessionId session ≠ sessionId

def add (session : Nat) (allocItem : Bool) : List Nat :=
  if session ∈ map.entries then map.entries
  else if allocItem ∨ map.without (map.fields.sessionId session) ≠ map.entries then
    bounded map.size (session :: map.without (map.fields.sessionId session))
  else map.entries

def step (op : CacheOp) : SessionMap where
  fields := map.fields.change op
  size := map.size
  entries := match op with
    | .addSession session allocItem _ => map.add session allocItem
    | .removeSession session _ => map.entries.filter fun other => some other ≠ session
    | .flushSessions time _ => map.entries.filter fun session => !map.fields.timedOut time session
    | _ => map.entries

/-- Ids are not empty, and do not change while a session is cached. -/
def Permits : CacheOp → Prop
  | .setId session sessionId => session ∉ map.entries ∧ sessionId ≠ []
  | _ => True

def PermitsAll : SessionMap → List CacheOp → Prop
  | _, [] => True
  | map, op :: ops => map.Permits op ∧ PermitsAll (map.step op) ops

end SessionMap

/-! ### The list passes through the sessions -/

def SessionPtr.node : SessionPtr → Option Nat
  | .session address => some address
  | _ => none

@[simp] theorem SessionPtr.node_session (address : Nat) :
    (SessionPtr.session address).node = some address := rfl

def SessionPtr.orEnd (sentinel : SessionPtr) : Option Nat → SessionPtr
  | some address => .session address
  | none => sentinel

namespace SessionList

def links (list : SessionList) : Links Nat where
  next session := (list.next session).node
  prev session := (list.prev session).node
  head := list.sessionCacheHead.node
  tail := list.sessionCacheTail.node

/-- The list passes through `xs`, the ends of the list are marked, and the pointers of other
    sessions are null. -/
structure Holds (list : SessionList) (xs : List Nat) : Prop where
  links : list.links.Holds xs
  next : ∀ session ∈ xs, list.next session = .orEnd .cacheTail (list.links.next session)
  prev : ∀ session ∈ xs, list.prev session = .orEnd .cacheHead (list.links.prev session)
  head : list.sessionCacheHead = .orEnd .null list.links.head
  tail : list.sessionCacheTail = .orEnd .null list.links.tail
  outside : ∀ session ∉ xs, list.next session = .null ∧ list.prev session = .null

variable {list : SessionList} {xs before after : List Nat} {session : Nat}

theorem Holds.next_eq (h : list.Holds (before ++ session :: after)) :
    list.next session = .orEnd .cacheTail after.head? := by
  rw [h.next session (mem_append_right _ mem_cons_self), h.links.next_eq]

theorem Holds.prev_eq (h : list.Holds (before ++ session :: after)) :
    list.prev session = .orEnd .cacheHead before.getLast? := by
  rw [h.prev session (mem_append_right _ mem_cons_self), h.links.prev_eq]

theorem Holds.head_eq (h : list.Holds xs) : list.sessionCacheHead = .orEnd .null xs.head? := by
  rw [h.head, h.links.head_eq]

theorem Holds.tail_eq (h : list.Holds xs) : list.sessionCacheTail = .orEnd .null xs.getLast? := by
  rw [h.tail, h.links.tail_eq]

structure Bypassed (list : SessionList) (before after : List Nat) (list' : SessionList) :
    Prop where
  next : list'.next = before.getLast?.elim list.next
    (fun last => update list.next last (.orEnd .cacheTail after.head?))
  prev : list'.prev = after.head?.elim list.prev
    (fun first => update list.prev first (.orEnd .cacheHead before.getLast?))
  head : list'.sessionCacheHead = .orEnd .null (before ++ after).head?
  tail : list'.sessionCacheTail = .orEnd .null (before ++ after).getLast?

/-- The branches of `SSL_SESSION_list_remove` are the neighbours that the session may have. -/
theorem Holds.bypass (h : list.Holds (before ++ session :: after)) :
    ∃ list', list.bypass session = some list' ∧ Bypassed list before after list' := by
  have hnext := h.next_eq
  have hprev := h.prev_eq
  have hhead := h.head_eq
  have htail := h.tail_eq
  unfold SessionList.bypass
  cases after with
  | nil =>
    have hlast : list.next session = .cacheTail := hnext
    rw [if_pos hlast]
    rcases eq_nil_or_concat' before with rfl | ⟨others, last, rfl⟩
    · have honly : list.prev session = .cacheHead := hprev
      rw [if_pos honly]
      exact ⟨_, rfl, rfl, rfl, rfl, rfl⟩
    · rw [getLast?_concat] at hprev
      have hbehind : list.prev session = .session last := hprev
      simp only [hbehind, reduceCtorEq, if_false, setNext]
      refine ⟨_, rfl, ?_, rfl, ?_, ?_⟩
      · rw [getLast?_concat]
        rfl
      · rw [hhead]
        cases others with
        | nil => rfl
        | cons first others => rfl
      · rw [append_nil, getLast?_concat]
        rfl
  | cons first others =>
    have hbefore : list.next session = .session first := hnext
    rcases eq_nil_or_concat' before with rfl | ⟨others', last, rfl⟩
    · have hfirst : list.prev session = .cacheHead := hprev
      simp only [hbefore, hfirst, reduceCtorEq, if_false, if_true, setPrev]
      refine ⟨_, rfl, rfl, rfl, rfl, ?_⟩
      rw [htail, nil_append, nil_append, getLast?_cons_cons]
    · rw [getLast?_concat] at hprev
      have hbehind : list.prev session = .session last := hprev
      have hne : session ≠ first := by
        have hnodup := (nodup_append.mp h.links.nodup).2.1
        rintro rfl
        exact (nodup_cons.mp hnodup).1 mem_cons_self
      simp only [hbefore, hbehind, reduceCtorEq, if_false, setPrev, Option.bind_eq_bind,
        Option.bind_some, setNext, update_of_ne hne]
      refine ⟨_, rfl, ?_, ?_, ?_, ?_⟩
      · rw [getLast?_concat]
        rfl
      · rw [getLast?_concat]
        rfl
      · rw [hhead]
        cases others' with
        | nil => rfl
        | cons first' others' => rfl
      · rw [htail, getLast?_append_cons, getLast?_append_cons, getLast?_cons_cons]

theorem node_orEnd {sentinel : SessionPtr} (hsentinel : sentinel.node = none)
    (target : Option Nat) : (SessionPtr.orEnd sentinel target).node = target := by
  cases target with
  | none => exact hsentinel
  | some address => rfl

/-- A pointer that marks the end of the list marks it still. -/
theorem orEnd_node {sentinel : SessionPtr} (hsentinel : sentinel.node = none)
    (target : Option Nat) :
    SessionPtr.orEnd sentinel target = .orEnd sentinel (SessionPtr.orEnd sentinel target).node :=
  congrArg _ (node_orEnd hsentinel target).symm

theorem elim_update (pointers : Nat → SessionPtr) (node : Option Nat) (value : SessionPtr)
    (session : Nat) : node.elim pointers (fun node => update pointers node value) session =
      if node = some session then value else pointers session := by
  cases node with
  | none => rfl
  | some node =>
    by_cases hnode : session = node
    · subst hnode
      rw [if_pos rfl]
      exact update_self ..
    · rw [if_neg (fun heq => hnode (Option.some.inj heq).symm)]
      exact update_of_ne hnode ..

theorem Bypassed.links {list' : SessionList} (h : list.Holds (before ++ session :: after))
    (hbypass : Bypassed list before after list') : list'.links = list.links.unlink session := by
  have hnext := h.links.next_eq
  have hprev := h.links.prev_eq
  ext1
  · funext other
    change (list'.next other).node = _
    rw [hbypass.next, elim_update, Links.unlink_next_apply, hnext, hprev]
    split
    · exact node_orEnd rfl _
    · rfl
  · funext other
    change (list'.prev other).node = _
    rw [hbypass.prev, elim_update, Links.unlink_prev_apply, hnext, hprev]
    split
    · exact node_orEnd rfl _
    · rfl
  · rw [h.links.unlink.head_eq, SessionList.links, hbypass.head, node_orEnd rfl]
  · rw [h.links.unlink.tail_eq, SessionList.links, hbypass.tail, node_orEnd rfl]

/-- **Removing a session from the list.** -/
theorem Holds.remove (h : list.Holds (before ++ session :: after)) :
    ∃ list', list.sessionListRemove session = some list' ∧ list'.Holds (before ++ after) := by
  obtain ⟨list₁, hbypass, hlist₁⟩ := h.bypass
  have hnext : list.next session ≠ .null := by
    rw [h.next_eq]
    cases after with
    | nil => nofun
    | cons first others => nofun
  have hprev : list.prev session ≠ .null := by
    rw [h.prev_eq]
    cases before.getLast? with
    | none => nofun
    | some last => nofun
  have hnotMem := (nodup_cons.mp (nodup_middle.mp h.links.nodup)).1
  have hkeptNext : ∀ other, other ≠ session →
      update list₁.next session .null other =
        if before.getLast? = some other then .orEnd .cacheTail after.head?
        else list.next other := by
    intro other hother
    rw [update_of_ne hother, hlist₁.next, elim_update]
  have hkeptPrev : ∀ other, other ≠ session →
      update list₁.prev session .null other =
        if after.head? = some other then .orEnd .cacheHead before.getLast?
        else list.prev other := by
    intro other hother
    rw [update_of_ne hother, hlist₁.prev, elim_update]
  have hne : ∀ other ∈ before ++ after, other ≠ session := by
    rintro other hother rfl
    exact hnotMem hother
  have hmem : ∀ other ∈ before ++ after, other ∈ before ++ session :: after := by
    intro other hother
    rcases mem_append.mp hother with hother | hother
    · exact mem_append_left _ hother
    · exact mem_append_right _ (mem_cons_of_mem _ hother)
  refine ⟨_, by rw [sessionListRemove, if_neg (not_or.mpr ⟨hnext, hprev⟩), hbypass]; rfl,
    ?_, ?_, ?_, ?_, ?_, ?_⟩
  · have hunlink := h.links.unlink
    rw [← Bypassed.links h hlist₁] at hunlink
    apply hunlink.congr
    · intro other hother
      exact congrArg SessionPtr.node (update_of_ne (hne other hother) ..)
    · intro other hother
      exact congrArg SessionPtr.node (update_of_ne (hne other hother) ..)
    · rfl
    · rfl
  · intro other hother
    change update list₁.next session .null other =
      .orEnd .cacheTail (update list₁.next session .null other).node
    rw [hkeptNext other (hne other hother)]
    split
    · exact orEnd_node rfl _
    · exact h.next other (hmem other hother)
  · intro other hother
    change update list₁.prev session .null other =
      .orEnd .cacheHead (update list₁.prev session .null other).node
    rw [hkeptPrev other (hne other hother)]
    split
    · exact orEnd_node rfl _
    · exact h.prev other (hmem other hother)
  · change list₁.sessionCacheHead = .orEnd .null list₁.sessionCacheHead.node
    rw [hlist₁.head]
    exact orEnd_node rfl _
  · change list₁.sessionCacheTail = .orEnd .null list₁.sessionCacheTail.node
    rw [hlist₁.tail]
    exact orEnd_node rfl _
  · intro other hother
    dsimp only
    by_cases heq : other = session
    · subst heq
      exact ⟨update_self .., update_self ..⟩
    · have hout : other ∉ before ++ session :: after := by
        intro hin
        rcases mem_append.mp hin with hin | hin
        · exact hother (mem_append_left _ hin)
        · exact hother (mem_append_right _ ((mem_cons.mp hin).resolve_left heq))
      rw [hkeptNext other heq, hkeptPrev other heq, if_neg, if_neg]
      · exact h.outside other hout
      · intro hfirst
        exact hother (mem_append_right _ (mem_of_mem_head? hfirst))
      · intro hlast
        exact hother (mem_append_left _ (mem_of_getLast? hlast))

theorem Holds.add_nil (h : list.Holds []) : SessionList.Holds ⟨update list.prev session .cacheHead,
      update list.next session .cacheTail, .session session, .session session⟩ [session] where
  links := by
    refine ⟨⟨rfl, ?_⟩, ⟨rfl, ?_⟩, nodup_singleton session⟩
    · simp only [SessionList.links, update_self]
      rfl
    · simp only [SessionList.links, update_self]
      rfl
  next := by
    intro other hother
    obtain rfl := mem_singleton.mp hother
    simp only [SessionList.links, update_self]
    rfl
  prev := by
    intro other hother
    obtain rfl := mem_singleton.mp hother
    simp only [SessionList.links, update_self]
    rfl
  head := rfl
  tail := rfl
  outside := by
    intro other hother
    have hne : other ≠ session := fun heq => hother (mem_singleton.mpr heq)
    simp only [update_of_ne hne]
    exact h.outside other not_mem_nil

theorem Holds.add_cons {first : Nat} {rest : List Nat} (h : list.Holds (first :: rest))
    (hout : session ∉ first :: rest) :
    SessionList.Holds ⟨update (update list.prev first (.session session)) session .cacheHead,
      update list.next session (.session first), .session session,
      list.sessionCacheTail⟩ (session :: first :: rest) where
  links := by
    have hhead : list.sessionCacheHead = .session first := h.head_eq
    have hpush := (h.links.reverse.pushTail (x := session)
      (reverse_ne_nil_iff.mpr (cons_ne_nil _ _)) (mt mem_reverse.mp hout)).reverse
    rw [reverse_append, reverse_reverse] at hpush
    apply hpush.congr
    · intro other _
      simp only [SessionList.links, Links.reverse, Links.pushTail, hhead, update_apply]
      split
      · rfl
      · rfl
    · intro other _
      simp only [SessionList.links, Links.reverse, Links.pushTail, hhead, update_apply]
      simp only [SessionPtr.node_session, update_apply]
      split
      · rfl
      · split
        · rfl
        · rfl
    · rfl
    · rfl
  next := by
    intro other hother
    simp only [SessionList.links, update_apply]
    split
    · rfl
    · next hne => exact h.next other ((mem_cons.mp hother).resolve_left hne)
  prev := by
    intro other hother
    simp only [SessionList.links, update_apply]
    split
    · rfl
    split
    · rfl
    · next hne _ => exact h.prev other ((mem_cons.mp hother).resolve_left hne)
  head := rfl
  tail := h.tail
  outside := by
    intro other hother
    rw [mem_cons, not_or] at hother
    have hne : other ≠ first := fun heq => hother.2 (heq ▸ mem_cons_self)
    simp only [update_of_ne hother.1, update_of_ne hne]
    exact h.outside other hother.2

/-- **Adding a session to the list.** -/
theorem Holds.add (h : list.Holds xs) (hout : session ∉ xs) :
    ∃ list', list.sessionListAdd session = some list' ∧ list'.Holds (session :: xs) := by
  obtain ⟨hnext, hprev⟩ := h.outside session hout
  have hhead := h.head_eq
  unfold sessionListAdd
  rw [if_neg (fun hlinked => hlinked.1 hnext)]
  cases xs with
  | nil =>
    have hempty : list.sessionCacheHead = .null := hhead
    simp only [Option.bind_eq_bind, Option.bind_some, hempty, if_true]
    exact ⟨_, rfl, h.add_nil⟩
  | cons first rest =>
    have hfirst : list.sessionCacheHead = .session first := hhead
    simp only [Option.bind_eq_bind, Option.bind_some, hfirst, reduceCtorEq, if_false,
      update_self, setPrev]
    exact ⟨_, rfl, h.add_cons hout⟩

end SessionList

/-- The list passes through `entries`, the table holds them, and no two have the same id. -/
structure SessionCache.Synced (ctx : SessionCache) (entries : List Nat) : Prop where
  list : ctx.list.Holds entries
  table : ctx.sessions.Ok (sessionFuncs ctx.fields)
  same : (ctx.sessions.items.map data).Perm entries
  distinct : entries.Pairwise fun a b => ctx.fields.sessionId a ≠ ctx.fields.sessionId b

def SessionCache.Counted (entries : List Nat) (held : Nat → Nat) : Prop :=
  ∀ session, ctx.references session = held session + if session ∈ entries then 1 else 0

def plusOne (held : Nat → Nat) (session : Option Nat) (other : Nat) : Nat :=
  held other + if session = some other then 1 else 0

namespace SessionCache

variable {ctx : SessionCache} {entries before after : List Nat} {held : Nat → Nat} {session : Nat}

theorem Counted.upRef (h : ctx.Counted entries held) (session : Nat) :
    (ctx.upRef session).Counted entries (plusOne held (some session)) := by
  intro other
  have hother := h other
  simp only [SessionCache.upRef, update_apply, plusOne, Option.some.injEq]
  by_cases heq : other = session
  · subst heq
    rw [if_pos rfl, if_pos rfl, hother]
    omega
  · rw [if_neg heq, if_neg (Ne.symm heq), hother, Nat.add_zero]

theorem Counted.free {session : Option Nat} (h : ctx.Counted entries (plusOne held session)) :
    (ctx.sessionFree session).Counted entries held := by
  cases session with
  | none => exact h
  | some session =>
    intro other
    have hother := h other
    simp only [plusOne, Option.some.injEq] at hother
    simp only [SessionCache.sessionFree, update_apply]
    by_cases heq : other = session
    · subst heq
      rw [if_pos rfl] at hother
      rw [if_pos rfl, hother]
      omega
    · rw [if_neg (Ne.symm heq)] at hother
      rw [if_neg heq, hother, Nat.add_zero]

theorem Counted.leave (h : ctx.Counted (before ++ session :: after) held)
    (hnodup : (before ++ session :: after).Nodup) :
    ctx.Counted (before ++ after) (plusOne held (some session)) := by
  have hnotMem := (nodup_cons.mp (nodup_middle.mp hnodup)).1
  intro other
  rw [h other]
  simp only [plusOne, Option.some.injEq, mem_append, mem_cons]
  by_cases heq : other = session
  · subst heq
    rw [mem_append] at hnotMem
    simp [hnotMem]
  · simp [heq, Ne.symm heq]

theorem Counted.enter (h : ctx.Counted entries (plusOne held (some session)))
    (hout : session ∉ entries) : ctx.Counted (session :: entries) held := by
  intro other
  rw [h other]
  simp only [plusOne, Option.some.injEq, mem_cons]
  by_cases heq : other = session
  · subst heq
    simp [hout]
  · simp [heq, Ne.symm heq]

theorem Synced.nodup (h : ctx.Synced entries) : entries.Nodup := h.list.links.nodup

def Synced.map (h : ctx.Synced entries) : LhMap (sessionFuncs ctx.fields) :=
  ⟨entries, h.distinct.imp beq_false_of_ne⟩

variable (h : ctx.Synced entries)
include h

theorem Synced.holds : ctx.sessions.Holds h.map := h.same

theorem Synced.find_eq_some_iff (key other : Nat) : h.map.find key = some other ↔
      other ∈ entries ∧ ctx.fields.sessionId other = ctx.fields.sessionId key := by
  rw [LhMap.find_eq_some_iff]
  exact and_congr_right fun _ => beq_iff_eq

abbrev besides (entries : List Nat) (session : Nat) : List Nat :=
  entries.filter fun other => ctx.fields.sessionId other ≠ ctx.fields.sessionId session

theorem Synced.erase_entries (key : Nat) : (h.map.erase key).entries = ctx.besides entries key := by
  apply filter_congr
  intro other _
  rw [Bool.eq_iff_iff]
  simp [sessionFuncs]

omit h

theorem filter_middle {p : Nat → Bool} (hsession : p session = false)
    (hothers : ∀ other ∈ before ++ after, p other = true) :
    (before ++ session :: after).filter p = before ++ after := by
  rw [filter_append, filter_cons, hsession, if_neg Bool.false_ne_true,
    ← filter_append]
  exact filter_eq_self.mpr hothers

theorem filter_without {fields : SessionFields} {sessionId : Bytes}
    (hdistinct : (before ++ session :: after).Pairwise
      fun a b => fields.sessionId a ≠ fields.sessionId b)
    (hid : fields.sessionId session = sessionId) :
    (before ++ session :: after).filter (fun other => fields.sessionId other ≠ sessionId) =
      before ++ after := by
  obtain ⟨-, hafter, hbefore⟩ := pairwise_append.mp hdistinct
  apply filter_middle
  · exact decide_eq_false (not_not.mpr hid)
  · intro other hother
    rw [← hid]
    apply decide_eq_true
    rcases mem_append.mp hother with hother | hother
    · exact hbefore other hother session mem_cons_self
    · exact ((pairwise_cons.mp hafter).1 other hother).symm

theorem Synced.numItems (h : ctx.Synced entries) : ctx.sessions.numItems = entries.length := by
  rw [h.table.count, ← h.same.length_eq, length_map]

@[simp] theorem sessionFree_fields (ctx : SessionCache) (session : Option Nat) :
    (ctx.sessionFree session).fields = ctx.fields := by
  cases session <;> rfl

@[simp] theorem sessionFree_size (ctx : SessionCache) (session : Option Nat) :
    (ctx.sessionFree session).sessionCacheSize = ctx.sessionCacheSize := by
  cases session <;> rfl

/-- The cache does not depend on the reference counts. -/
theorem Synced.free (h : ctx.Synced entries) (session : Option Nat) :
    (ctx.sessionFree session).Synced entries := by
  cases session with
  | none => exact h
  | some session => exact ⟨h.list, h.table, h.same, h.distinct⟩

/-- What a call does to the sessions: the fields and the limit stay, and the references of cached
    sessions are counted. -/
structure Becomes (ctx : SessionCache) (held : Nat → Nat) (ctx' : SessionCache)
    (entries : List Nat) : Prop where
  synced : ctx'.Synced entries
  counted : ctx'.Counted entries held
  fields : ctx'.fields = ctx.fields
  size : ctx'.sessionCacheSize = ctx.sessionCacheSize

theorem Synced.table_remove (h : ctx.Synced (before ++ session :: after)) (alloc : Bool)
    {list : SessionList} (hlist : list.Holds (before ++ after)) :
    Synced { ctx with
      list := list
      sessions := (ctx.sessions.delete (sessionFuncs ctx.fields) session alloc).2 }
      (before ++ after) := by
  obtain ⟨hok, -, hholds⟩ := h.table.delete h.holds session alloc
  refine ⟨hlist, hok, ?_, ?_⟩
  · have hentries : (h.map.erase session).entries = before ++ after :=
      (h.erase_entries session).trans (filter_without h.distinct rfl)
    exact hentries ▸ hholds
  · refine h.distinct.sublist ?_
    exact List.Sublist.append_left (sublist_cons_self _ _) _

/-- **Removing a cached session.** -/
theorem Synced.removeSession (h : ctx.Synced (before ++ session :: after))
    (hcounted : ctx.Counted (before ++ session :: after) held)
    (hid : ctx.fields.sessionId session ≠ []) (alloc : Bool) :
    ∃ ctx', ctx.removeSession (.session session) alloc = some (true, ctx') ∧
      Becomes ctx held ctx' (before ++ after) := by
  obtain ⟨list, hremove, hlist⟩ := h.list.remove
  have hfind : h.map.find session = some session :=
    (h.find_eq_some_iff session session).mpr
      ⟨mem_append_right _ mem_cons_self, rfl⟩
  have hretrieve : ctx.sessions.retrieve (sessionFuncs ctx.fields) session = some session :=
    (h.table.find_eq h.holds session).trans hfind
  have hdelete : (ctx.sessions.delete (sessionFuncs ctx.fields) session alloc).1 = some session :=
    (h.table.delete h.holds session alloc).2.1.trans hfind
  refine ⟨_, ?_, (h.table_remove alloc hlist).free (some session), ?_, ?_, ?_⟩
  · unfold SessionCache.removeSession
    dsimp only
    rw [if_neg (fun hlength => hid (length_eq_zero_iff.mp hlength)), if_pos hretrieve, hremove,
      hdelete]
    rfl
  · exact Counted.free (hcounted.leave h.nodup)
  · rfl
  · rfl

include h

theorem Synced.removeSession_of_notMem (hout : session ∉ entries)
    (alloc : Bool) : ctx.removeSession (.session session) alloc = some (false, ctx) := by
  have hretrieve : ctx.sessions.retrieve (sessionFuncs ctx.fields) session ≠ some session := by
    intro hfound
    have hfind := (h.table.find_eq h.holds session).symm.trans hfound
    exact hout ((h.find_eq_some_iff session session).mp hfind).1
  unfold SessionCache.removeSession
  dsimp only
  rw [if_neg hretrieve, ite_self]

/-- **The loop over the oldest sessions** keeps as many as the limit allows. -/
theorem Synced.enforceCacheSize {rounds : Nat} (hcounted : ctx.Counted entries held)
    (hids : ∀ session, ctx.fields.sessionId session ≠ [])
    (hrounds : entries.length ≤ rounds) (alloc : Nat → Bool) :
    ∃ ctx', SessionCache.enforceCacheSize alloc rounds ctx = some ctx' ∧
      Becomes ctx held ctx' (entries.take ctx.sessionCacheSize) := by
  induction rounds generalizing ctx entries with
  | zero =>
    have hlength : entries.length = 0 := Nat.le_zero.mp hrounds
    refine ⟨ctx, ?_, ?_⟩
    · rw [SessionCache.enforceCacheSize, if_neg]
      rw [h.numItems, hlength]
      exact Nat.not_lt_zero _
    · rw [take_of_length_le (hlength ▸ Nat.zero_le _)]
      exact ⟨h, hcounted, rfl, rfl⟩
  | succ rounds ih =>
    by_cases hmany : ctx.sessions.numItems > ctx.sessionCacheSize
    · rw [h.numItems] at hmany
      rcases eq_nil_or_concat' entries with rfl | ⟨others, last, rfl⟩
      · exact absurd hmany (Nat.not_lt_zero _)
      rw [length_append, length_singleton] at hmany hrounds
      have htail : ctx.list.sessionCacheTail = .session last := by
        rw [h.list.tail_eq, getLast?_concat]
        rfl
      obtain ⟨ctx₁, hremove, hctx₁⟩ :=
        h.removeSession hcounted (hids last) (alloc (rounds + 1))
      have hsynced := hctx₁.synced
      have hcounted₁ := hctx₁.counted
      rw [append_nil] at hsynced hcounted₁
      obtain ⟨ctx₂, hrest, hctx₂⟩ := ih hsynced hcounted₁ (hctx₁.fields ▸ hids) (by omega)
      refine ⟨ctx₂, ?_, ?_⟩
      · rw [SessionCache.enforceCacheSize, if_pos (by rw [h.numItems]; simpa using hmany), htail]
        dsimp only
        rw [hremove]
        exact hrest
      · have htake : (others ++ [last]).take ctx.sessionCacheSize =
            others.take ctx₁.sessionCacheSize := by
          rw [hctx₁.size, take_append_of_le_length (by omega)]
        rw [htake]
        exact ⟨hctx₂.synced, hctx₂.counted, hctx₂.fields.trans hctx₁.fields,
          hctx₂.size.trans hctx₁.size⟩
    · refine ⟨ctx, ?_, ?_⟩
      · rw [SessionCache.enforceCacheSize, if_neg hmany]
      · rw [h.numItems] at hmany
        rw [take_of_length_le (not_lt.mp hmany)]
        exact ⟨h, hcounted, rfl, rfl⟩

theorem Synced.insert (session : Nat) (allocItem alloc : Bool) : ∃ inserted oldSession sessions,
      ctx.sessions.insert (sessionFuncs ctx.fields) session allocItem alloc =
        (inserted, oldSession, sessions) ∧
      sessions.Ok (sessionFuncs ctx.fields) ∧ oldSession = h.map.find session ∧
      (inserted = false ∧ allocItem = false ∧ oldSession = none ∧
          (sessions.items.map data).Perm entries ∨
        inserted = true ∧ (oldSession = none → allocItem = true) ∧
          (sessions.items.map data).Perm (session :: ctx.besides entries session)) := by
  obtain ⟨hok, hret, hholds⟩ := h.table.insert h.holds session allocItem alloc
  have hinserted : (h.map.insert session).entries = session :: ctx.besides entries session :=
    congrArg _ (h.erase_entries session)
  unfold LHash.call at hok hret hholds
  obtain ⟨inserted, oldSession, sessions, hresult⟩ : ∃ inserted oldSession sessions,
      ctx.sessions.insert (sessionFuncs ctx.fields) session allocItem alloc =
        (inserted, oldSession, sessions) := ⟨_, _, _, rfl⟩
  dsimp only at hok hret hholds
  rw [hresult] at hok hret hholds
  refine ⟨inserted, oldSession, sessions, hresult, hok, ?_⟩
  unfold LhMap.call at hret hholds
  dsimp only at hret hholds
  cases hfind : h.map.find session with
  | some old =>
    rw [hfind] at hret hholds
    obtain ⟨rfl, rfl⟩ := LhRet.mk.inj hret
    exact ⟨rfl, Or.inr ⟨rfl, nofun, hinserted ▸ hholds⟩⟩
  | none =>
    rw [hfind] at hret hholds
    cases allocItem with
    | false =>
      obtain ⟨rfl, rfl⟩ := LhRet.mk.inj hret
      exact ⟨rfl, Or.inl ⟨rfl, rfl, rfl, hholds⟩⟩
    | true =>
      obtain ⟨rfl, rfl⟩ := LhRet.mk.inj hret
      exact ⟨rfl, Or.inr ⟨rfl, fun _ => rfl, hinserted ▸ hholds⟩⟩

omit h

/-- **The new session enters the list,** and the oldest ones leave it. -/
theorem addToList_becomes (ctx : SessionCache) {oldSession : Option Nat} {list : SessionList}
    {others : List Nat} (hremove : removeOld ctx.list oldSession = some list)
    (hlist : list.Holds others) (hok : ctx.sessions.Ok (sessionFuncs ctx.fields))
    (hsame : (ctx.sessions.items.map data).Perm (session :: others))
    (hdistinct : (session :: others).Pairwise
      fun a b => ctx.fields.sessionId a ≠ ctx.fields.sessionId b)
    (hcounted : ctx.Counted (session :: others) held)
    (hids : ∀ session, ctx.fields.sessionId session ≠ []) (alloc : Nat → Bool) :
    ∃ ctx', ctx.addToList oldSession session alloc = some ctx' ∧
      Becomes ctx held ctx' (bounded ctx.sessionCacheSize (session :: others)) := by
  have hout : session ∉ others := by
    intro hmem
    exact (pairwise_cons.mp hdistinct).1 session hmem rfl
  obtain ⟨list', hadd, hlist'⟩ := hlist.add hout
  have hsynced : Synced { ctx with list := list' } (session :: others) :=
    ⟨hlist', hok, hsame, hdistinct⟩
  unfold SessionCache.addToList bounded
  rw [hremove]
  simp only [Option.bind_eq_bind, Option.bind_some, hadd]
  by_cases hsize : ctx.sessionCacheSize > 0
  · rw [if_pos hsize, if_pos hsize]
    obtain ⟨ctx', hloop, hctx'⟩ :=
      hsynced.enforceCacheSize hcounted hids hsynced.numItems.ge alloc
    exact ⟨ctx', hloop, hctx'.synced, hctx'.counted, hctx'.fields, hctx'.size⟩
  · rw [if_neg hsize, if_neg hsize]
    exact ⟨_, rfl, hsynced, hcounted, rfl, rfl⟩

theorem Becomes.free {ctx' : SessionCache} {session : Option Nat}
    (h : Becomes ctx (plusOne held session) ctx' entries) :
    Becomes ctx held (ctx'.sessionFree session) entries :=
  ⟨h.synced.free session, h.counted.free, (sessionFree_fields ..).trans h.fields,
    (sessionFree_size ..).trans h.size⟩

def toMap (ctx : SessionCache) (entries : List Nat) : SessionMap :=
  ⟨ctx.fields, ctx.sessionCacheSize, entries⟩

theorem Synced.notMem_of_same_id (h : ctx.Synced entries) {old : Nat} (hold : old ∈ entries)
    (hid : ctx.fields.sessionId old = ctx.fields.sessionId session) (hne : old ≠ session) :
    session ∉ entries := by
  intro hmem
  have hsymm : Std.Symm fun a b => ctx.fields.sessionId a ≠ ctx.fields.sessionId b :=
    ⟨fun _ _ hab => hab.symm⟩
  exact h.distinct.forall hold hmem hne hid

theorem Synced.of_find_none (h : ctx.Synced entries) (hfind : h.map.find session = none) :
    session ∉ entries ∧ ctx.besides entries session = entries := by
  have hother : ∀ other ∈ entries,
      ctx.fields.sessionId other ≠ ctx.fields.sessionId session := by
    intro other hmem hid
    rw [(h.find_eq_some_iff session other).mpr ⟨hmem, hid⟩] at hfind
    cases hfind
  refine ⟨fun hmem => hother session hmem rfl, filter_eq_self.mpr ?_⟩
  intro other hmem
  exact decide_eq_true (hother other hmem)

theorem plusOne_comm (held : Nat → Nat) (a b : Option Nat) :
    plusOne (plusOne held a) b = plusOne (plusOne held b) a := by
  funext other
  exact Nat.add_right_comm ..

include h

/-- A session that is in the cache already: its two references are traded. -/
theorem Synced.readd (hmem : session ∈ entries) {sessions : LHash Nat}
    (hok : sessions.Ok (sessionFuncs ctx.fields))
    (hsame : (sessions.items.map data).Perm (session :: ctx.besides entries session)) :
    Synced { ctx with sessions := sessions } entries := by
  obtain ⟨before, after, rfl⟩ := append_of_mem hmem
  refine ⟨h.list, hok, hsame.trans ?_, h.distinct⟩
  rw [besides, filter_without h.distinct rfl]
  exact perm_middle.symm

theorem Synced.replace {oldSession : Option Nat}
    (hcounted : ctx.Counted entries (plusOne held (some session)))
    (hfind : h.map.find session = oldSession) (hne : oldSession ≠ some session) :
    session ∉ entries ∧ ∃ others list, ctx.besides entries session = others ∧
      (oldSession ≠ none → others ≠ entries) ∧
      removeOld ctx.list oldSession = some list ∧ list.Holds others ∧
      (session :: others).Pairwise (fun a b => ctx.fields.sessionId a ≠ ctx.fields.sessionId b) ∧
      ctx.Counted (session :: others) (plusOne held oldSession) := by
  cases oldSession with
  | none =>
    obtain ⟨hout, hfilter⟩ := h.of_find_none hfind
    refine ⟨hout, entries, ctx.list, hfilter, fun hold => absurd rfl hold, rfl, h.list,
      pairwise_cons.mpr ⟨?_, h.distinct⟩, hcounted.enter hout⟩
    intro other hmem hid
    rw [← hfilter] at hmem
    exact of_decide_eq_true (mem_filter.mp hmem).2 hid.symm
  | some old =>
    obtain ⟨hmem, hid⟩ := (h.find_eq_some_iff session old).mp hfind
    have hout : session ∉ entries :=
      h.notMem_of_same_id hmem hid (fun heq => hne (congrArg some heq))
    obtain ⟨before, after, rfl⟩ := append_of_mem hmem
    obtain ⟨list, hremove, hlist⟩ := h.list.remove
    have hfilter := filter_without h.distinct hid
    have hleave := hcounted.leave h.nodup
    rw [plusOne_comm] at hleave
    refine ⟨hout, before ++ after, list, hfilter, ?_, hremove, hlist,
      pairwise_cons.mpr ⟨?_, ?_⟩, hleave.enter ?_⟩
    · intro _ heq
      have hlength := congrArg length heq
      rw [length_append, length_append, length_cons] at hlength
      omega
    · intro other hother hid'
      rw [← hfilter] at hother
      exact of_decide_eq_true (mem_filter.mp hother).2 hid'.symm
    · exact h.distinct.sublist (List.Sublist.append_left (sublist_cons_self _ _) _)
    · rw [mem_append]
      rw [mem_append, mem_cons] at hout
      tauto

theorem Synced.addSessionLocked (howned : ctx.Counted entries (plusOne held (some session)))
    (hids : ∀ session, ctx.fields.sessionId session ≠ []) (allocItem : Bool) (alloc : Nat → Bool) :
    ∃ inserted ctx', ctx.addSessionLocked session allocItem alloc = some (inserted, ctx') ∧
      Becomes ctx held ctx' ((ctx.toMap entries).add session allocItem) := by
  obtain ⟨inserted, oldSession, sessions, hinsert, hok, hold, hcases⟩ :=
    h.insert session allocItem (alloc 0)
  unfold SessionCache.addSessionLocked add without SessionCache.toMap
  rw [hinsert]
  dsimp only
  rcases hcases with ⟨rfl, rfl, hnone, hsame⟩ | ⟨rfl, halloc, hsame⟩
  · -- no memory: the reference is dropped again
    obtain ⟨hout, hfilter⟩ := h.of_find_none (hold.symm.trans hnone)
    unfold besides at hfilter
    have hunchanged : ¬(false = true ∨ entries ≠ entries) := by
      rintro (hfalse | hne)
      · cases hfalse
      · exact hne rfl
    rw [if_pos (by decide), if_neg hout, hfilter, if_neg hunchanged]
    refine ⟨false, _, rfl, ?_⟩
    exact Becomes.free ⟨⟨h.list, hok, hsame, h.distinct⟩, howned, rfl, rfl⟩
  rw [if_neg (by decide)]
  by_cases hreadd : oldSession = some session
  · have hmem := ((h.find_eq_some_iff session session).mp (hold.symm.trans hreadd)).1
    rw [if_pos hreadd, if_pos hmem, hreadd]
    refine ⟨false, _, rfl, ?_⟩
    exact Becomes.free ⟨h.readd hmem hok hsame, howned, rfl, rfl⟩
  · obtain ⟨hout, others, list, rfl, hshorter, hremove, hlist, hdistinct, hcounts⟩ :=
      h.replace howned hold.symm hreadd
    obtain ⟨ctx', hadd, hctx'⟩ := addToList_becomes { ctx with sessions := sessions }
      hremove hlist hok hsame hdistinct hcounts hids alloc
    have hchanged : allocItem = true ∨ ctx.besides entries session ≠ entries := by
      by_cases hnone : oldSession = none
      · exact Or.inl (halloc hnone)
      · exact Or.inr (hshorter hnone)
    rw [if_neg hreadd, if_neg hout, if_pos hchanged, hadd]
    refine ⟨true, _, rfl, Becomes.free ?_⟩
    exact ⟨hctx'.synced, hctx'.counted, hctx'.fields, hctx'.size⟩

/-- **Adding a session.** -/
theorem Synced.addSession (hcounted : ctx.Counted entries held)
    (hids : ∀ session, ctx.fields.sessionId session ≠ []) (session : Nat) (allocItem : Bool)
    (alloc : Nat → Bool) :
    ∃ inserted ctx', ctx.addSession session allocItem alloc = some (inserted, ctx') ∧
      Becomes ctx held ctx' ((ctx.toMap entries).add session allocItem) := by
  have hsynced : (ctx.upRef session).Synced entries := ⟨h.list, h.table, h.same, h.distinct⟩
  obtain ⟨inserted, ctx', hadd, hctx'⟩ :=
    hsynced.addSessionLocked (hcounted.upRef session) hids allocItem alloc
  exact ⟨inserted, ctx', hadd, hctx'.synced, hctx'.counted, hctx'.fields, hctx'.size⟩

omit h

theorem foldlM_timeoutRemove (ctx : SessionCache) {removed : List Nat}
    (hlist : ctx.list.Holds entries) (hcounted : ctx.Counted entries held) (hnodup : removed.Nodup)
    (hsub : ∀ session ∈ removed, session ∈ entries) :
    ∃ list references, removed.foldlM timeoutRemove ctx =
        some { ctx with list := list, references := references } ∧
      list.Holds (entries.filter fun session => session ∉ removed) ∧
      Counted { ctx with list := list, references := references }
        (entries.filter fun session => session ∉ removed) held := by
  induction removed generalizing ctx entries with
  | nil =>
    have hall : (entries.filter fun session => session ∉ ([] : List Nat)) = entries :=
      filter_eq_self.mpr fun session _ => decide_eq_true not_mem_nil
    rw [hall]
    exact ⟨ctx.list, ctx.references, rfl, hlist, hcounted⟩
  | cons session removed ih =>
    obtain ⟨before, after, rfl⟩ := append_of_mem (hsub session mem_cons_self)
    obtain ⟨list₁, hremove, hlist₁⟩ := hlist.remove
    have hentries := hlist.links.nodup
    have hnotMem := (nodup_cons.mp (nodup_middle.mp hentries)).1
    have hcounted₁ : Counted (SessionCache.sessionFree { ctx with list := list₁ } (some session))
        (before ++ after) held := Counted.free (hcounted.leave hentries)
    obtain ⟨hfresh, hnodup⟩ := nodup_cons.mp hnodup
    have hsub₁ : ∀ other ∈ removed, other ∈ before ++ after := by
      intro other hother
      have hmem := hsub other (mem_cons_of_mem _ hother)
      rw [mem_append, mem_cons] at hmem
      rw [mem_append]
      rcases hmem with hmem | rfl | hmem
      · exact Or.inl hmem
      · exact absurd hother hfresh
      · exact Or.inr hmem
    obtain ⟨list, references, hrest, hholds, hcounts⟩ := ih _ hlist₁ hcounted₁ hnodup hsub₁
    have hfilter : ((before ++ session :: after).filter fun other => other ∉ session :: removed) =
        (before ++ after).filter fun other => other ∉ removed := by
      rw [filter_append, filter_cons, if_neg (by simp), filter_append]
      congr 1
      · apply filter_congr
        intro other hother
        have hne : other ≠ session := by
          rintro rfl
          exact hnotMem (mem_append_left _ hother)
        simp [hne]
      · apply filter_congr
        intro other hother
        have hne : other ≠ session := by
          rintro rfl
          exact hnotMem (mem_append_right _ hother)
        simp [hne]
    rw [hfilter]
    refine ⟨list, references, ?_, hholds, hcounts⟩
    rw [foldlM_cons]
    have hstep : ctx.timeoutRemove session =
        some (SessionCache.sessionFree { ctx with list := list₁ } (some session)) := by
      rw [timeoutRemove, hremove]
      rfl
    rw [hstep]
    exact hrest

/-- **Flushing.** -/
theorem Synced.flushSessions (h : ctx.Synced entries) (hcounted : ctx.Counted entries held)
    (time : UInt64) (alloc : Bool) :
    ∃ ctx', ctx.flushSessions time alloc = some ctx' ∧
      Becomes ctx held ctx' (entries.filter fun session => !ctx.fields.timedOut time session) := by
  obtain ⟨events, sessions, hwalk, hok, hcalls, hsame⟩ :=
    h.table.doall_deleting h.holds (ctx.fields.timedOut time) alloc
  have hdeleted : deleted events =
      (ctx.sessions.items.map data).filter (ctx.fields.timedOut time) := by
    rw [deleted, hcalls, filterMap_map]
    exact filterMap_some
  have hnodup : (deleted events).Nodup := by
    rw [hdeleted]
    exact (h.same.nodup_iff.mpr h.nodup).filter _
  have hmem : ∀ session, session ∈ deleted events ↔
      session ∈ entries ∧ ctx.fields.timedOut time session = true := by
    intro session
    rw [hdeleted, mem_filter, h.same.mem_iff]
  obtain ⟨list, references, hfold, hlist, hcounts⟩ :=
    foldlM_timeoutRemove { ctx with sessions := sessions } h.list hcounted hnodup
      (fun session hsession => ((hmem session).mp hsession).1)
  have hfilter : (entries.filter fun session => session ∉ deleted events) =
      entries.filter fun session => !ctx.fields.timedOut time session := by
    apply filter_congr
    intro session hsession
    have hiff := hmem session
    cases htimed : ctx.fields.timedOut time session with
    | true => simpa [hsession, htimed] using hiff
    | false => simpa [hsession, htimed] using hiff
  rw [hfilter] at hlist hcounts
  refine ⟨{ ctx with references := references, list := list, sessions := sessions }, ?_,
    ⟨hlist, hok, hsame, h.distinct.filter _⟩, hcounts, rfl, rfl⟩
  unfold SessionCache.flushSessions
  dsimp only
  rw [hwalk]
  exact hfold

/-! ### Runs of the cache -/

theorem Synced.change (h : ctx.Synced entries) {fields : SessionFields}
    (hids : ∀ session ∈ entries, fields.sessionId session = ctx.fields.sessionId session) :
    Synced { ctx with fields := fields } entries where
  list := h.list
  table := by
    have hitem : ∀ item ∈ ctx.sessions.items,
        fields.sessionId item.data = ctx.fields.sessionId item.data := by
      intro item hitem
      exact hids item.data (h.same.mem_iff.mp (mem_map_of_mem hitem))
    apply h.table.congr
    · intro item hmem
      exact congrArg sslHashSessionId (hitem item hmem)
    · intro a ha b hb
      simp [sessionFuncs, hitem a ha, hitem b hb]
  same := h.same
  distinct := by
    apply h.distinct.imp_of_mem
    intro a b ha hb hne
    rw [hids a ha, hids b hb]
    exact hne

structure Refines (ctx : SessionCache) (held : Nat → Nat) (map : SessionMap) : Prop where
  synced : ctx.Synced map.entries
  counted : ctx.Counted map.entries held
  fields : ctx.fields = map.fields
  size : ctx.sessionCacheSize = map.size
  ids : ∀ session, map.fields.sessionId session ≠ []

variable {map : SessionMap}

theorem Refines.becomes (h : ctx.Refines held map) {ctx' : SessionCache} {op : CacheOp}
    (hfields : map.fields.change op = map.fields)
    (hbecomes : Becomes ctx held ctx' (map.step op).entries) : ctx'.Refines held (map.step op) where
  synced := hbecomes.synced
  counted := hbecomes.counted
  fields := hbecomes.fields.trans (h.fields.trans hfields.symm)
  size := hbecomes.size.trans h.size
  ids := by
    change ∀ session, (map.fields.change op).sessionId session ≠ []
    rw [hfields]
    exact h.ids

theorem Refines.changed (h : ctx.Refines held map) {op : CacheOp}
    (hentries : (map.step op).entries = map.entries) (hkept : ∀ session ∈ map.entries,
      (map.fields.change op).sessionId session = map.fields.sessionId session)
    (hids : ∀ session, (map.fields.change op).sessionId session ≠ []) :
    Refines { ctx with fields := ctx.fields.change op } held (map.step op) where
  synced := by
    rw [hentries, h.fields]
    refine h.synced.change ?_
    rw [h.fields]
    exact hkept
  counted := by
    rw [hentries]
    exact h.counted
  fields := congrArg (SessionFields.change · op) h.fields
  size := h.size
  ids := hids

/-- **A step of the cache is a step of the map.** -/
theorem Refines.step (h : ctx.Refines held map) (op : CacheOp) (hop : map.Permits op) :
    ∃ ctx', ctx.step op = some ctx' ∧ ctx'.Refines held (map.step op) := by
  have hids : ∀ session, ctx.fields.sessionId session ≠ [] := h.fields ▸ h.ids
  cases op with
  | addSession session allocItem alloc =>
    obtain ⟨inserted, ctx', hadd, hctx'⟩ :=
      h.synced.addSession h.counted hids session allocItem alloc
    refine ⟨ctx', congrArg (Option.map Prod.snd) hadd, h.becomes rfl ?_⟩
    rw [toMap, h.fields, h.size] at hctx'
    exact hctx'
  | removeSession session alloc =>
    cases session with
    | none =>
      refine ⟨ctx, rfl, h.becomes rfl ?_⟩
      have hall : (map.step (.removeSession none alloc)).entries = map.entries :=
        filter_eq_self.mpr fun other _ => rfl
      rw [hall]
      exact ⟨h.synced, h.counted, rfl, rfl⟩
    | some session =>
      by_cases hmem : session ∈ map.entries
      · obtain ⟨before, after, hsplit⟩ := append_of_mem hmem
        have hsynced := h.synced
        have hcounted := h.counted
        rw [hsplit] at hsynced hcounted
        obtain ⟨ctx', hremove, hctx'⟩ := hsynced.removeSession hcounted (hids session) alloc
        refine ⟨ctx', congrArg (Option.map Prod.snd) hremove, h.becomes rfl ?_⟩
        have hentries : (map.step (.removeSession (some session) alloc)).entries =
            before ++ after := by
          have hnotMem := (nodup_cons.mp (nodup_middle.mp hsynced.nodup)).1
          change map.entries.filter _ = _
          rw [hsplit]
          apply filter_middle
          · exact decide_eq_false (not_not.mpr rfl)
          · intro other hother
            apply decide_eq_true
            intro heq
            exact hnotMem (Option.some.inj heq ▸ hother)
        rw [hentries]
        exact hctx'
      · refine ⟨ctx, congrArg (Option.map Prod.snd)
          (h.synced.removeSession_of_notMem hmem alloc), h.becomes rfl ?_⟩
        have hall : (map.step (.removeSession (some session) alloc)).entries = map.entries := by
          apply filter_eq_self.mpr
          intro other hother
          apply decide_eq_true
          intro heq
          exact hmem (Option.some.inj heq ▸ hother)
        rw [hall]
        exact ⟨h.synced, h.counted, rfl, rfl⟩
  | flushSessions time alloc =>
    obtain ⟨ctx', hflush, hctx'⟩ := h.synced.flushSessions h.counted time alloc
    refine ⟨ctx', hflush, h.becomes rfl ?_⟩
    rw [h.fields] at hctx'
    exact hctx'
  | setId session sessionId =>
    refine ⟨_, rfl, h.changed rfl ?_ ?_⟩
    · intro other hother
      refine update_of_ne ?_ ..
      rintro rfl
      exact hop.1 hother
    · intro other
      simp only [SessionFields.change, update_apply]
      split
      · exact hop.2
      · exact h.ids other
  | setTime session time timeout => exact ⟨_, rfl, h.changed rfl (fun _ _ => rfl) h.ids⟩

end SessionCache

def SessionCache.run : List CacheOp → SessionCache → Option SessionCache
  | [], ctx => some ctx
  | op :: ops, ctx => do
    let ctx ← ctx.step op
    run ops ctx

def SessionMap.run (ops : List CacheOp) (map : SessionMap) : SessionMap :=
  ops.foldl step map

namespace SessionCache

variable {ctx : SessionCache} {held : Nat → Nat} {map : SessionMap}

theorem new_refines (references : Nat → Nat) (size : Nat)
    (hids : ∀ session, fields.sessionId session ≠ []) :
    (new fields references size).Refines references ⟨fields, size, []⟩ where
  synced := by
    refine ⟨⟨⟨rfl, rfl, nodup_nil⟩, nofun, nofun, rfl, rfl, fun _ _ => ⟨rfl, rfl⟩⟩,
      LHash.new_ok _, ?_, List.Pairwise.nil⟩
    have hitems : (LHash.new : LHash Nat).items = [] := flatten_replicate_nil
    change (LHash.new.items.map data).Perm []
    rw [hitems]
    exact List.Perm.refl _
  counted _ := rfl
  fields := rfl
  size := rfl
  ids := hids

/-- **A run of the cache is a run of the map,** by induction on the calls. -/
theorem Refines.run {ops : List CacheOp} (h : ctx.Refines held map) (hops : map.PermitsAll ops) :
    ∃ ctx', ctx.run ops = some ctx' ∧ ctx'.Refines held (map.run ops) := by
  induction ops generalizing ctx map with
  | nil => exact ⟨ctx, rfl, h⟩
  | cons op ops ih =>
    obtain ⟨ctx₁, hstep, hctx₁⟩ := h.step op hops.1
    obtain ⟨ctx₂, hrun, hctx₂⟩ := ih hctx₁ hops.2
    refine ⟨ctx₂, ?_, hctx₂⟩
    rw [SessionCache.run, hstep]
    exact hrun

end SessionCache

namespace SessionMap

theorem length_bounded {size : Nat} (hsize : 0 < size) (entries : List Nat) :
    (bounded size entries).length ≤ size := by
  rw [bounded, if_pos hsize]
  exact length_take_le ..

theorem length_step {map : SessionMap} (hsize : 0 < map.size)
    (hlength : map.entries.length ≤ map.size) (op : CacheOp) :
    (map.step op).entries.length ≤ map.size := by
  cases op with
  | addSession session allocItem alloc =>
    change (map.add session allocItem).length ≤ map.size
    unfold add
    split
    · exact hlength
    split
    · exact length_bounded hsize _
    · exact hlength
  | removeSession session alloc => exact (length_filter_le ..).trans hlength
  | flushSessions time alloc => exact (length_filter_le ..).trans hlength
  | setId session sessionId => exact hlength
  | setTime session time timeout => exact hlength

theorem length_run (map : SessionMap) (hsize : 0 < map.size)
    (hlength : map.entries.length ≤ map.size) (ops : List CacheOp) :
    (map.run ops).entries.length ≤ map.size := by
  induction ops generalizing map with
  | nil => exact hlength
  | cons op ops ih => exact ih (map.step op) hsize (length_step hsize hlength op)

theorem size_run (map : SessionMap) (ops : List CacheOp) : (map.run ops).size = map.size := by
  induction ops generalizing map with
  | nil => rfl
  | cons op ops ih => exact ih (map.step op)

/-- What an addition that finds memory does: the session is first, those before it that have other
    ids follow in their order, and as many of the last ones go as the limit asks for. -/
structure Added (map : SessionMap) (session : Nat) (entries : List Nat) : Prop where
  present : session ∈ entries
  bounded : 0 < map.size → entries.length ≤ map.size
  again : session ∈ map.entries → entries = map.entries
  first : session ∉ map.entries → ∃ evicted,
    session :: map.without (map.fields.sessionId session) = entries ++ evicted ∧
      (evicted ≠ [] → 0 < map.size ∧ entries.length = map.size)

theorem add_added {map : SessionMap} (hlength : 0 < map.size → map.entries.length ≤ map.size)
    (session : Nat) : map.Added session (map.add session true) := by
  unfold add
  by_cases hmem : session ∈ map.entries
  · rw [if_pos hmem]
    exact ⟨hmem, hlength, fun _ => rfl, fun hout => absurd hmem hout⟩
  rw [if_neg hmem, if_pos (Or.inl rfl)]
  by_cases hsize : 0 < map.size
  · have hbounded : bounded map.size (session :: map.without (map.fields.sessionId session)) =
        (session :: map.without (map.fields.sessionId session)).take map.size := if_pos hsize
    refine ⟨?_, fun _ => length_bounded hsize _, fun hin => absurd hin hmem, fun _ => ?_⟩
    · rw [hbounded, take_cons hsize]
      exact mem_cons_self
    · refine ⟨(session :: map.without (map.fields.sessionId session)).drop map.size, ?_, ?_⟩
      · rw [hbounded, take_append_drop]
      · intro hevicted
        refine ⟨hsize, ?_⟩
        rw [hbounded, length_take, min_eq_left]
        by_contra hshort
        exact hevicted (drop_eq_nil_of_le (not_le.mp hshort).le)
  · have hbounded : bounded map.size (session :: map.without (map.fields.sessionId session)) =
        session :: map.without (map.fields.sessionId session) := if_neg hsize
    rw [hbounded]
    refine ⟨mem_cons_self, fun hpos => absurd hpos hsize, fun hin => absurd hin hmem,
      fun _ => ⟨[], (append_nil _).symm, fun hne => absurd rfl hne⟩⟩

theorem flush_zero (map : SessionMap) (alloc : Bool) :
    (map.step (.flushSessions 0 alloc)).entries = [] := by
  apply filter_eq_nil_iff.mpr
  intro session _
  simp [SessionFields.timedOut]

end SessionMap

/-- **The session cache.**  After every sequence of calls the list and the table hold the same
    sessions, in the list in the order in which they were added; no two of them have the same id,
    and each has one reference besides those that the program holds.  An addition puts the session
    first and evicts the oldest ones beyond the limit, and flushing with the time zero leaves no
    session. -/
theorem session_cache_bounded_map (fields : SessionFields) (references : Nat → Nat) (size : Nat)
    (ops : List CacheOp) (hids : ∀ session, fields.sessionId session ≠ [])
    (hops : SessionMap.PermitsAll ⟨fields, size, []⟩ ops) :
    ∃ ctx map, (SessionCache.new fields references size).run ops = some ctx ∧
      run ops ⟨fields, size, []⟩ = map ∧ ctx.list.Holds map.entries ∧
      (ctx.sessions.items.map data).Perm map.entries ∧
      map.entries.Pairwise (fun a b => map.fields.sessionId a ≠ map.fields.sessionId b) ∧
      (∀ session, ctx.references session =
        references session + if session ∈ map.entries then 1 else 0) ∧
      (∀ session alloc, ∃ ctx', ctx.step (.addSession session true alloc) = some ctx' ∧
        ∃ entries, map.Added session entries ∧ ctx'.list.Holds entries ∧
          (ctx'.sessions.items.map data).Perm entries) ∧
      (∀ alloc, ∃ ctx', ctx.step (.flushSessions 0 alloc) = some ctx' ∧ ctx'.list.Holds [] ∧
        ctx'.sessions.items = []) := by
  obtain ⟨ctx, hrun, h⟩ :=
    (SessionCache.new_refines fields references size hids).run hops
  have hlength : 0 < (run ops ⟨fields, size, []⟩).size →
      (run ops ⟨fields, size, []⟩).entries.length ≤
        (run ops ⟨fields, size, []⟩).size := by
    rw [size_run]
    intro hsize
    exact length_run ⟨fields, size, []⟩ hsize (Nat.zero_le _) ops
  generalize run ops ⟨fields, size, []⟩ = map at h hlength
  refine ⟨ctx, map, hrun, rfl, h.synced.list, h.synced.same, ?_, h.counted, ?_, ?_⟩
  · rw [← h.fields]
    exact h.synced.distinct
  · intro session alloc
    obtain ⟨ctx', hstep, hctx'⟩ := h.step (.addSession session true alloc) trivial
    exact ⟨ctx', hstep, map.add session true, add_added hlength session,
      hctx'.synced.list, hctx'.synced.same⟩
  · intro alloc
    obtain ⟨ctx', hstep, hctx'⟩ := h.step (.flushSessions 0 alloc) trivial
    have hlist := hctx'.synced.list
    have hsame := hctx'.synced.same
    rw [flush_zero] at hlist hsame
    exact ⟨ctx', hstep, hlist, map_eq_nil_iff.mp hsame.eq_nil⟩

/-- Sessions 0 and 2 share an id; session 1 gets another one before it is added. -/
theorem session_cache_two_ids :
    ∃ ctx, (SessionCache.new ⟨fun session => [UInt8.ofNat (session % 2)], fun _ => 7,
          fun _ => 300⟩ (fun _ => 1) 2).run
        [.addSession 0 true (fun _ => true), .setId 1 [9], .addSession 1 true (fun _ => false),
          .addSession 2 false (fun _ => true), .removeSession (some 0) true] = some ctx ∧
      ctx.list.Holds [2, 1] ∧ (ctx.sessions.items.map data).Perm [2, 1] := by
  obtain ⟨ctx, map, hrun, hmap, hlist, hsame, -⟩ := session_cache_bounded_map
    ⟨fun session => [UInt8.ofNat (session % 2)], fun _ => 7, fun _ => 300⟩ (fun _ => 1) 2
    [.addSession 0 true (fun _ => true), .setId 1 [9], .addSession 1 true (fun _ => false),
      .addSession 2 false (fun _ => true), .removeSession (some 0) true]
    (fun _ => cons_ne_nil _ _)
    ⟨trivial, ⟨by decide, by decide⟩, trivial, trivial, trivial, trivial⟩
  have hentries : map.entries = [2, 1] := by
    rw [← hmap]
    decide
  rw [hentries] at hlist hsame
  exact ⟨ctx, hrun, hlist, hsame⟩

end AwsLc
