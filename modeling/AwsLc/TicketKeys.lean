import Mathlib.Data.List.Chain

/-!
# Rotation of the ticket keys

A context that was given no ticket keys makes its own.  Tickets are encrypted under the current key,
and decrypted under the current key or the previous one.  There is no timer: each call looks at the
clock first, and replaces or drops the keys whose deadline has passed.
-/

namespace AwsLc

def SSL_DEFAULT_TICKET_KEY_ROTATION_INTERVAL : Nat := 2 * 24 * 60 * 60

/-- What `RAND_bytes` writes to a `TicketKey`. -/
structure TicketSecrets where
  name : Vector UInt8 16
  hmacKey : Vector UInt8 16
  aesKey : Vector UInt8 16

structure TicketKey extends TicketSecrets where
  nextRotationTvSec : Nat

structure TicketKeys where
  current : Option TicketKey
  prev : Option TicketKey

/-- A call that encrypts or decrypts a ticket: the clock reading, and the random values for a new
    key, which there are none of where the allocation fails. -/
structure TicketCall where
  now : Nat
  fresh : Option TicketSecrets

namespace TicketKeys

def interval : Nat := SSL_DEFAULT_TICKET_KEY_ROTATION_INTERVAL

variable (ctx : TicketKeys) (call : TicketCall)

def currentValid : Bool :=
  ctx.current.any fun key => key.nextRotationTvSec = 0 ∨ key.nextRotationTvSec > call.now

/-- The first half of the write-locked part: a new key, and the old one as the previous one. -/
def renewCurrent : Option TicketKeys :=
  if ctx.currentValid call then some ctx
  else call.fresh.map fun secrets =>
    { current := some ⟨secrets, call.now + interval⟩
      prev := (ctx.current.map fun key => { key with nextRotationTvSec :=
        key.nextRotationTvSec + interval }).or ctx.prev }

/-- The second half: an expired previous key is dropped. -/
def dropPrev : TicketKeys :=
  { ctx with prev := ctx.prev.filter fun key => call.now < key.nextRotationTvSec }

def sslCtxRotateTicketEncryptionKey : Option TicketKeys :=
  if ctx.currentValid call ∧ ctx.prev.all fun key => key.nextRotationTvSec > call.now then some ctx
  else (ctx.renewCurrent call).map (dropPrev · call)

def afterCall : TicketKeys := (ctx.sslCtxRotateTicketEncryptionKey call).getD ctx

/-- The key that `ssl_encrypt_ticket_with_cipher_ctx` takes, whose name the ticket starts with. -/
def sslEncryptTicket : Option TicketKey :=
  (ctx.sslCtxRotateTicketEncryptionKey call).bind current

/-- The key that a ticket with this name is decrypted under, if any. -/
def sslDecryptTicketWithTicketKeys (name : Vector UInt8 16) : Option (Option TicketKey) :=
  (ctx.sslCtxRotateTicketEncryptionKey call).map fun ctx =>
    (ctx.current.filter (name = ·.name)).or (ctx.prev.filter (name = ·.name))

variable {ctx ctx' : TicketKeys} {call : TicketCall}

/-- The read-locked path skips a rotation that would change nothing. -/
theorem rotate_eq :
    ctx.sslCtxRotateTicketEncryptionKey call = (ctx.renewCurrent call).map (dropPrev · call) := by
  unfold sslCtxRotateTicketEncryptionKey
  split
  · rename_i hskip
    obtain ⟨current, prev⟩ := ctx
    rw [renewCurrent, if_pos hskip.1, Option.map_some, dropPrev]
    cases prev with
    | none => rfl
    | some key => simp_all [Option.filter_some]
  · rfl

section

variable (made : TicketSecrets)

def Other (key : Option TicketKey) : Prop := ∀ other, key = some other → other.name ≠ made.name

/-- Where a key is that was made at the time `t0`, when the clock was last seen at `last`. -/
inductive Window (t0 last : Nat) : TicketKeys → Prop
  | current {prev} (hprev : Other made prev) :
    Window t0 last ⟨some ⟨made, t0 + interval⟩, prev⟩
  | prev {later : TicketSecrets} {next : Nat} (hlater : later.name ≠ made.name)
      (hnext : t0 + 2 * interval ≤ next) :
    Window t0 last ⟨some ⟨later, next⟩, some ⟨made, t0 + 2 * interval⟩⟩
  | dropped {current prev} (hlast : t0 + 2 * interval ≤ last)
      (hcurrent : Other made current) (hprev : Other made prev) : Window t0 last ⟨current, prev⟩

end

variable {made : TicketSecrets} {t0 last : Nat}

theorem Other.filter {key : Option TicketKey} {p : TicketKey → Bool} (h : Other made key) :
    Other made (key.filter p) :=
  fun other hother => h other (Option.eq_some_of_filter_eq_some hother)

theorem Other.moved {key prev : Option TicketKey} (hkey : Other made key) (hprev : Other made prev)
    {delay : Nat} : Other made ((key.map fun key => { key with nextRotationTvSec :=
      key.nextRotationTvSec + delay }).or prev) := by
  cases key with
  | none => exact hprev
  | some key => simpa [Other] using hkey

theorem Other.filter_name {key : Option TicketKey} (h : Other made key) :
    key.filter (made.name = ·.name) = none := by
  cases key with
  | none => rfl
  | some key => simp [Option.filter_some, (h key rfl).symm]

theorem Window.later {now : Nat} (h : Window made t0 last ctx) (hlast : last ≤ now) :
    Window made t0 now ctx := by
  cases h with
  | current hprev => exact .current hprev
  | prev hlater hnext => exact .prev hlater hnext
  | dropped hgone hcurrent hprev => exact .dropped (hgone.trans hlast) hcurrent hprev

theorem le_of_invalid {key : TicketKey} {prev : Option TicketKey}
    (h : ¬currentValid ⟨some key, prev⟩ call = true) : key.nextRotationTvSec ≤ call.now := by
  simp [currentValid] at h
  exact h.2

/-- A new key takes the place of `made` when its first interval has passed, and the place of a
    later key only when the second one has. -/
theorem Window.renewCurrent (h : Window made t0 call.now ctx)
    (hfresh : ∀ secrets, call.fresh = some secrets → secrets.name ≠ made.name)
    (hrenew : ctx.renewCurrent call = some ctx') : Window made t0 call.now ctx' := by
  unfold TicketKeys.renewCurrent at hrenew
  split at hrenew
  · cases hrenew
    exact h
  rename_i hexpired
  obtain ⟨secrets, hsecrets, rfl⟩ := Option.map_eq_some_iff.mp hrenew
  have hname := hfresh secrets hsecrets
  cases h with
  | current hprev =>
    have hdeadline : t0 + interval + interval = t0 + 2 * interval := by omega
    have hle : t0 + interval ≤ call.now := le_of_invalid hexpired
    rw [Option.map_some, Option.some_or, hdeadline]
    exact .prev hname (by omega)
  | prev hlater hnext =>
    exact .dropped (hnext.trans (le_of_invalid hexpired)) (by simpa [Other] using hname)
      (by simpa [Other] using hlater)
  | dropped hgone hcurrent hprev =>
    exact .dropped hgone (by simpa [Other] using hname) (hcurrent.moved hprev)

theorem Window.dropPrev (h : Window made t0 call.now ctx) :
    Window made t0 call.now (ctx.dropPrev call) := by
  cases h with
  | current hprev => exact .current hprev.filter
  | prev hlater hnext =>
    unfold TicketKeys.dropPrev
    rw [Option.filter_some]
    split
    · exact .prev hlater hnext
    · exact .dropped (by simp_all) (fun _ hother => Option.some.inj hother ▸ hlater) nofun
  | dropped hgone hcurrent hprev => exact .dropped hgone hcurrent hprev.filter

theorem Window.rotate (h : Window made t0 last ctx) (hlast : last ≤ call.now)
    (hfresh : ∀ secrets, call.fresh = some secrets → secrets.name ≠ made.name)
    (hrotate : ctx.sslCtxRotateTicketEncryptionKey call = some ctx') :
    Window made t0 call.now ctx' := by
  rw [rotate_eq, Option.map_eq_some_iff] at hrotate
  obtain ⟨renewed, hrenew, rfl⟩ := hrotate
  exact ((h.later hlast).renewCurrent hfresh hrenew).dropPrev

/-- **All calls**, by induction from one rotation.  A rotation that fails changes nothing. -/
theorem Window.run {seen next : TicketCall} {calls : List TicketCall}
    (h : Window made t0 seen.now ctx) (hclock : (seen :: calls ++ [next]).IsChain (·.now ≤ ·.now))
    (hfresh : ∀ call ∈ calls, ∀ secrets, call.fresh = some secrets → secrets.name ≠ made.name) :
    Window made t0 next.now (calls.foldl afterCall ctx) := by
  induction calls generalizing ctx seen with
  | nil => exact h.later (List.isChain_cons_cons.mp hclock).1
  | cons call calls ih =>
    obtain ⟨hle, hclock⟩ := List.isChain_cons_cons.mp hclock
    rw [List.forall_mem_cons] at hfresh
    refine ih ?_ hclock hfresh.2
    unfold afterCall
    cases hrotate : ctx.sslCtxRotateTicketEncryptionKey call with
    | none => exact h.later hle
    | some ctx' => exact h.rotate hle hfresh.1 hrotate

theorem rotate_valid (hrotate : ctx.sslCtxRotateTicketEncryptionKey call = some ctx') :
    (∀ key, ctx'.current = some key → key.nextRotationTvSec ≠ 0 →
      call.now < key.nextRotationTvSec) ∧
    ∀ key, ctx'.prev = some key → call.now < key.nextRotationTvSec := by
  rw [rotate_eq, Option.map_eq_some_iff] at hrotate
  obtain ⟨renewed, hrenew, rfl⟩ := hrotate
  refine ⟨fun key hkey hzero => ?_, fun key hkey =>
    of_decide_eq_true (Option.filter_eq_some_iff.mp hkey).2⟩
  unfold TicketKeys.renewCurrent at hrenew
  split at hrenew
  · rename_i hvalid
    cases hrenew
    have hcurrent : ctx.current = some key := hkey
    simpa [currentValid, hcurrent, hzero] using hvalid
  · obtain ⟨secrets, -, rfl⟩ := Option.map_eq_some_iff.mp hrenew
    rw [← Option.some.inj hkey]
    exact Nat.lt_add_of_pos_right (by decide)

end TicketKeys

open TicketKeys

/-- **Windows of a ticket key.**  A call made the key with these secrets, and no other key has its
    name.  After any further calls, a call encrypts under the key only in the first interval, and
    a call that can rotate the keys matches a ticket of the key exactly in the first two. -/
theorem ticket_key_windows (ctx : TicketKeys) (made call : TicketCall) (calls : List TicketCall)
    (secrets : TicketSecrets) (hcurrent : Other secrets ctx.current)
    (hprev : Other secrets ctx.prev) (hinvalid : ctx.currentValid made = false)
    (hsecrets : made.fresh = some secrets)
    (hclock : (made :: calls ++ [call]).IsChain (·.now ≤ ·.now))
    (hfresh : ∀ c ∈ calls ++ [call], ∀ other, c.fresh = some other → other.name ≠ secrets.name) :
    let keys := (made :: calls).foldl afterCall ctx
    (∀ key, keys.sslEncryptTicket call = some key → key.toTicketSecrets = secrets →
      call.now < made.now + interval) ∧
    (keys.sslDecryptTicketWithTicketKeys call secrets.name = none → call.fresh = none) ∧
    ∀ found, keys.sslDecryptTicketWithTicketKeys call secrets.name = some found →
      (found.map (·.toTicketSecrets) = some secrets ↔ call.now < made.now + 2 * interval) := by
  intro keys
  have hstart : Window secrets made.now made.now (ctx.afterCall made) := by
    rw [afterCall, rotate_eq, renewCurrent, if_neg (by simp [hinvalid]), hsecrets]
    exact .current (hcurrent.moved hprev).filter
  have hkeys : Window secrets made.now call.now keys :=
    hstart.run hclock fun c hc => hfresh c (List.mem_append_left _ hc)
  have hpos : 0 < interval := by decide
  unfold sslEncryptTicket sslDecryptTicketWithTicketKeys
  cases hrotate : keys.sslCtxRotateTicketEncryptionKey call with
  | none =>
    refine ⟨nofun, fun _ => ?_, nofun⟩
    rw [rotate_eq, Option.map_eq_none_iff, renewCurrent] at hrotate
    split at hrotate
    · cases hrotate
    · exact Option.map_eq_none_iff.mp hrotate
  | some ctx' =>
    obtain ⟨hvalid, hleft⟩ := rotate_valid hrotate
    have hwindow := hkeys.rotate le_rfl (hfresh call (by simp)) hrotate
    refine ⟨?_, nofun, ?_⟩
    · rintro key hkey rfl
      cases hwindow with
      | current _ => exact hvalid _ rfl (by dsimp only; omega)
      | prev hlater _ => exact absurd (Option.some.inj hkey ▸ rfl) hlater
      | dropped _ hother _ => exact absurd rfl (hother key hkey)
    · rintro found ⟨⟩
      cases hwindow with
      | current _ =>
        have hfirst := hvalid _ rfl (by dsimp only; omega)
        dsimp only at hfirst
        simp [Option.filter_some]
        omega
      | prev hlater _ => simpa [Option.filter_some, hlater.symm] using hleft _ rfl
      | dropped hgone hcurrent hprev => simp [hcurrent.filter_name, hprev.filter_name, hgone]

/-- Decryption in the last second of the second interval. -/
theorem ticket_key_windows_sample :
    let bytes (n : UInt8) : Vector UInt8 16 := .replicate 16 n
    let ticket : TicketSecrets := ⟨bytes 1, bytes 2, bytes 3⟩
    let keys := [⟨0, some ticket⟩, ⟨345599, none⟩].foldl afterCall ⟨none, none⟩
    ∀ found, keys.sslDecryptTicketWithTicketKeys ⟨345599, some ⟨bytes 4, bytes 5, bytes 6⟩⟩
      ticket.name = some found → found.map (·.toTicketSecrets) = some ticket := by
  intro bytes ticket keys found hfound
  have hwindow := ticket_key_windows ⟨none, none⟩ ⟨0, some ticket⟩
    ⟨345599, some ⟨bytes 4, bytes 5, bytes 6⟩⟩ [⟨345599, none⟩] ticket nofun nofun rfl rfl
    (by decide) (by simp; decide)
  exact (hwindow.2.2 found hfound).mpr (by decide)

end AwsLc
