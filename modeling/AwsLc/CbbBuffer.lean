import AwsLc.DerElement
import AwsLc.Overwrite

/-!
# The buffer of a `CBB` (`cbb.c`)

All `CBB`s of one output share a growing buffer.  An open child has reserved room for its length,
which `CBB_flush` writes, innermost children first.  An ASN.1 child reserves one byte, and its
contents move up when the length needs more.

The functions return zero exactly when they leave `error` set, so that a function takes the buffer
to the buffer it leaves.  `error` holds the cause in place of the bit.
-/

namespace AwsLc

open AwsLc.BigEndian AwsLc.Overwrite List

/-- Whether the allocator grants its `request`-th request of a size, and what its memory holds. -/
structure CbbHeap where
  grants : (request size : Nat) → Bool
  fresh : Nat → UInt8

inductive CbbError where
  | sizeOverflow
  | outOfMemory
  | notResizable
  | invalidChild
  | childTooLong
  | integerTooWide
  deriving DecidableEq

/-- `struct cbb_buffer_st`.  `buf` is the part of the array that is in use, and `requests`
    counts the calls of the allocator. -/
structure CbbBuffer where
  buf : Bytes
  cap : Nat
  canResize : Bool
  error : Option CbbError
  requests : Nat
  len_le_cap : buf.length ≤ cap
  cap_lt : cap < 2 ^ 64

variable (base : CbbBuffer)

namespace CbbBuffer

def fail (cause : CbbError) : CbbBuffer := { base with error := some cause }

/-- `if (!f(base)) return 0;`, and the rest of the function. -/
def andThen (next : CbbBuffer → CbbBuffer) : CbbBuffer :=
  match base.error with
  | none => next base
  | some _ => base

/-- A `memcpy` to `base->buf + offset`. -/
def store (offset : Nat) (bytes : Bytes) : CbbBuffer :=
  { base with
    buf := write base.buf offset bytes
    len_le_cap := (length_write base.buf offset bytes).trans_le base.len_le_cap }

/-- The bytes between the old and the new end come into use. -/
def extend (bytes : Bytes) (h : base.buf.length + bytes.length ≤ base.cap) : CbbBuffer :=
  { base with
    buf := base.buf ++ bytes
    len_le_cap := List.length_append.trans_le h }

end CbbBuffer

/-! ### Growing -/

/-- The capacity `cbb_buffer_reserve` asks for. -/
def grownCap (cap newlen : Nat) : Nat :=
  let newcap := cap * 2 % 2 ^ 64
  if newcap < cap ∨ newcap < newlen then newlen else newcap

theorem le_grownCap (cap newlen : Nat) : newlen ≤ grownCap cap newlen := by
  unfold grownCap
  dsimp only
  split <;> omega

theorem grownCap_lt (cap : Nat) {newlen : Nat} (h : ¬2 ^ 64 ≤ newlen) :
    grownCap cap newlen < 2 ^ 64 := by
  unfold grownCap
  dsimp only
  split <;> omega

variable (heap : CbbHeap)

/-- `cbb_buffer_reserve`.  The sum of the lengths wraps where it reaches `2 ^ 64`. -/
def cbbBufferReserve (base : CbbBuffer) (len : Nat) : CbbBuffer :=
  if hwrap : 2 ^ 64 ≤ base.buf.length + len then base.fail .sizeOverflow
  else if base.buf.length + len ≤ base.cap then base
  else if !base.canResize then base.fail .notResizable
  else if heap.grants base.requests (grownCap base.cap (base.buf.length + len)) then
    { base with
      cap := grownCap base.cap (base.buf.length + len)
      requests := base.requests + 1
      len_le_cap := (Nat.le_add_right _ len).trans (le_grownCap _ _)
      cap_lt := grownCap_lt _ hwrap }
  else { base with error := some .outOfMemory, requests := base.requests + 1 }

theorem cbbBufferReserve_buf (base : CbbBuffer) (len : Nat) :
    (cbbBufferReserve heap base len).buf = base.buf := by
  unfold cbbBufferReserve
  split
  · rfl
  · split
    · rfl
    · split
      · rfl
      · split <;> rfl

theorem cbbBufferReserve_canResize (base : CbbBuffer) (len : Nat) :
    (cbbBufferReserve heap base len).canResize = base.canResize := by
  unfold cbbBufferReserve
  split
  · rfl
  · split
    · rfl
    · split
      · rfl
      · split <;> rfl

theorem cbbBufferReserve_room {heap : CbbHeap} {base : CbbBuffer} {len : Nat}
    (h : (cbbBufferReserve heap base len).error = none) :
    (cbbBufferReserve heap base len).buf.length + len ≤ (cbbBufferReserve heap base len).cap := by
  rw [cbbBufferReserve_buf]
  unfold cbbBufferReserve at h ⊢
  split at h
  · cases h
  · next hwrap =>
    rw [dif_neg hwrap]
    split at h
    · next hfits =>
      rw [if_pos hfits]
      exact hfits
    · next hfits =>
      rw [if_neg hfits]
      split at h
      · cases h
      · next hresize =>
        rw [if_neg hresize]
        split at h
        · next hgrants =>
          rw [if_pos hgrants]
          exact le_grownCap _ _
        · cases h

def freshBytes (start len : Nat) : Bytes :=
  (List.range len).map fun i => heap.fresh (start + i)

@[simp] theorem length_freshBytes (start len : Nat) : (freshBytes heap start len).length = len := by
  rw [freshBytes, length_map, length_range]

def cbbBufferAdd (base : CbbBuffer) (len : Nat) : CbbBuffer :=
  let reserved := cbbBufferReserve heap base len
  if h : reserved.error = none then
    reserved.extend (freshBytes heap reserved.buf.length len)
      ((congrArg (_ + ·) (length_freshBytes heap _ len)).trans_le (cbbBufferReserve_room h))
  else reserved

/-! ### Writing -/

/-- The loop writing the low `lenLen` bytes of a value, last one first, and what is left of it. -/
def writeLength (buf : Bytes) (offset : Nat) : (lenLen value : Nat) → Bytes × Nat
  | 0, value => (buf, value)
  | i + 1, value => writeLength (buf.set (offset + i) (UInt8.ofNat value)) offset i (value >>> 8)

theorem length_writeLength (buf : Bytes) (offset lenLen value : Nat) :
    (writeLength buf offset lenLen value).1.length = buf.length := by
  induction lenLen generalizing buf value with
  | zero => rfl
  | succ i ih => rw [writeLength, ih, length_set]

def CbbBuffer.storeLength (offset lenLen value : Nat) (cause : CbbError) : CbbBuffer :=
  let stored : CbbBuffer := { base with
    buf := (writeLength base.buf offset lenLen value).1
    len_le_cap := (length_writeLength base.buf offset lenLen value).trans_le base.len_le_cap }
  if (writeLength base.buf offset lenLen value).2 ≠ 0 then stored.fail cause else stored

/-- `CBB_add_bytes` on a `CBB` without open children. -/
def cbbAddBytes (data : Bytes) (base : CbbBuffer) : CbbBuffer :=
  (cbbBufferAdd heap base data.length).andThen fun grown => grown.store base.buf.length data

/-- `cbb_add_u` on a `CBB` without open children. -/
def cbbAddUInt (lenLen value : Nat) (base : CbbBuffer) : CbbBuffer :=
  (cbbBufferAdd heap base lenLen).andThen fun grown =>
    grown.storeLength base.buf.length lenLen value .integerTooWide

/-- The calls of `CBB_add_u8` by which `CBB_add_asn1` writes the identifier. -/
def cbbAddTag (tag : UInt32) (base : CbbBuffer) : CbbBuffer :=
  (asn1TagBytes tag).foldl
    (fun base byte => base.andThen (cbbAddUInt heap 1 byte.toNat)) base

/-- `struct cbb_child_st`. -/
structure CbbChild where
  offset : Nat
  pendingLenLen : Nat
  pendingIsAsn1 : Bool

def cbbAddChild (lenLen : Nat) (base : CbbBuffer) : CbbBuffer :=
  (cbbBufferAdd heap base lenLen).andThen fun grown =>
    grown.store base.buf.length (List.replicate lenLen 0)

/-! ### Flushing -/

/-- How `CBB_flush` writes the length of an ASN.1 child: the number of octets, the first of
    them, and the value that the others hold. -/
def asn1LengthForm (len : Nat) : Nat × UInt8 × Nat :=
  if len > 0xffffff then (5, 0x80 ||| 4, len)
  else if len > 0xffff then (4, 0x80 ||| 3, len)
  else if len > 0xff then (3, 0x80 ||| 2, len)
  else if len > 0x7f then (2, 0x80 ||| 1, len)
  else (1, UInt8.ofNat len, 0)

/-- Room for `extra` bytes before the `len` bytes at `start`. -/
def cbbMoveContents (start len extra : Nat) (base : CbbBuffer) : CbbBuffer :=
  if extra ≠ 0 then
    (cbbBufferAdd heap base extra).andThen fun grown =>
      grown.store (start + extra) ((grown.buf.drop start).take len)
  else base

/-- The part of `CBB_flush` after the recursive call. -/
def cbbFlushChild (child : CbbChild) (base : CbbBuffer) : CbbBuffer :=
  let childStart := child.offset + child.pendingLenLen
  if 2 ^ 64 ≤ childStart ∨ base.buf.length < childStart then base.fail .invalidChild
  else
    let len := base.buf.length - childStart
    if child.pendingIsAsn1 then
      if len > 0xfffffffe then base.fail .childTooLong
      else
        let (lenLen, initialLengthByte, rest) := asn1LengthForm len
        (cbbMoveContents heap childStart len (lenLen - 1) base).andThen fun moved =>
          (moved.store child.offset [initialLengthByte]).storeLength (child.offset + 1)
            (lenLen - 1) rest .childTooLong
    else base.storeLength child.offset child.pendingLenLen len .childTooLong

/-- `CBB_flush` of a `CBB` with the open children below it, outermost first. -/
def cbbFlush (heap : CbbHeap) : (children : List CbbChild) → CbbBuffer → CbbBuffer
  | [], base => base
  | child :: children, base =>
    base.andThen fun base => (cbbFlush heap children base).andThen (cbbFlushChild heap child)

/-! ### Outcomes -/

def cat (first second : Option Bytes) : Option Bytes :=
  first.bind fun bytes => second.map (bytes ++ ·)

@[simp] theorem cat_some (first second : Bytes) :
    cat (some first) (some second) = some (first ++ second) := rfl

variable {first second : Option Bytes}

theorem cat_eq_some {out : Bytes} (h : cat first second = some out) :
    ∃ left right, first = some left ∧ second = some right ∧ out = left ++ right := by
  obtain ⟨left, hleft, hrest⟩ := Option.bind_eq_some_iff.mp h
  obtain ⟨right, hright, rfl⟩ := Option.map_eq_some_iff.mp hrest
  exact ⟨left, right, hleft, hright, rfl⟩

/-- `larger` needs no fewer bytes than `smaller`, and exists only if `smaller` does. -/
def Grows (smaller larger : Option Bytes) : Prop :=
  ∀ out', larger = some out' → ∃ out, smaller = some out ∧ out.length ≤ out'.length

theorem Grows.refl (encoding : Option Bytes) : Grows encoding encoding :=
  fun out h => ⟨out, h, Nat.le_refl _⟩

theorem grows_cat_left (first second : Option Bytes) : Grows first (cat first second) := by
  intro out hout
  obtain ⟨left, right, hleft, -, rfl⟩ := cat_eq_some hout
  exact ⟨left, hleft, by rw [length_append]; exact Nat.le_add_right _ _⟩

theorem Grows.cat_right (before : Option Bytes)
    (h : Grows first second) : Grows (cat before first) (cat before second) := by
  intro out hout
  obtain ⟨left, right, rfl, hright, rfl⟩ := cat_eq_some hout
  obtain ⟨smaller, rfl, hle⟩ := h right hright
  refine ⟨left ++ smaller, rfl, ?_⟩
  rw [length_append, length_append]
  exact Nat.add_le_add_left hle _

/-- Why a writer that was to add `encoding` after `start` bytes has failed. -/
def Explains (start : Nat) (encoding : Option Bytes) : CbbError → Prop
  | .sizeOverflow => ∀ out, encoding = some out → 2 ^ 64 ≤ start + out.length
  | .outOfMemory => ∃ request size, heap.grants request size = false
  | .childTooLong => encoding = none
  | .notResizable | .invalidChild | .integerTooWide => False

theorem Explains.grows {heap : CbbHeap} {start : Nat} {smaller larger : Option Bytes}
    {cause : CbbError} (h : Explains heap start smaller cause) (hgrows : Grows smaller larger) :
    Explains heap start larger cause := by
  cases cause with
  | sizeOverflow =>
    intro out hout
    obtain ⟨before, hbefore, hle⟩ := hgrows out hout
    exact (h before hbefore).trans (Nat.add_le_add_left hle _)
  | outOfMemory => exact h
  | childTooLong =>
    apply Option.eq_none_iff_forall_ne_some.mpr
    intro out hout
    obtain ⟨before, hbefore, -⟩ := hgrows out hout
    rw [show smaller = none from h] at hbefore
    cases hbefore
  | notResizable => exact h
  | invalidChild => exact h
  | integerTooWide => exact h

theorem Explains.cat {heap : CbbHeap} {start : Nat} {first : Bytes} {second : Option Bytes}
    {cause : CbbError} (h : Explains heap (start + first.length) second cause) :
    Explains heap start (cat (some first) second) cause := by
  cases cause with
  | sizeOverflow =>
    intro out hout
    obtain ⟨left, right, hleft, hright, rfl⟩ := cat_eq_some hout
    cases hleft
    rw [length_append, ← Nat.add_assoc]
    exact h right hright
  | outOfMemory => exact h
  | childTooLong =>
    rw [show second = none from h]
    rfl
  | notResizable => exact h
  | invalidChild => exact h
  | integerTooWide => exact h

/-- **The outcome of a writer.**  The resizable buffer that held `before` holds `encoding`
    after it, or its error is explained. -/
structure Wrote (heap : CbbHeap) (before : Bytes) (encoding : Option Bytes) (base : CbbBuffer) :
    Prop where
  canResize : base.canResize = true
  written : base.error = none → ∃ out, encoding = some out ∧ base.buf = before ++ out
  explained : ∀ cause, base.error = some cause → Explains heap before.length encoding cause

namespace Wrote

variable {heap : CbbHeap} {before : Bytes} {base : CbbBuffer}

theorem of_ok {out : Bytes} (hok : base.error = none) (hresize : base.canResize = true)
    (hbuf : base.buf = before ++ out) : Wrote heap before (some out) base where
  canResize := hresize
  written := fun _ => ⟨out, rfl, hbuf⟩
  explained := fun cause h => by rw [hok] at h; cases h

/-- What a writer does after another one, whose output it may replace. -/
theorem andThen {encoding final : Option Bytes} {next : CbbBuffer → CbbBuffer}
    (h : Wrote heap before encoding base) (hgrows : Grows encoding final)
    (hnext : ∀ out, encoding = some out → base.error = none → base.canResize = true →
      base.buf = before ++ out → Wrote heap before final (next base)) :
    Wrote heap before final (base.andThen next) := by
  unfold CbbBuffer.andThen
  cases herror : base.error with
  | none =>
    obtain ⟨out, hout, hbuf⟩ := h.written herror
    exact hnext out hout herror h.canResize hbuf
  | some cause =>
    refine ⟨h.canResize, ?_, ?_⟩
    · intro hok
      rw [herror] at hok
      cases hok
    · intro cause' hcause'
      exact (h.explained cause' hcause').grows hgrows

/-- The output of a writer counted from an earlier point. -/
theorem prepend {first : Bytes} {second : Option Bytes}
    (h : Wrote heap (before ++ first) second base) :
    Wrote heap before (cat (some first) second) base where
  canResize := h.canResize
  written := fun hok => by
    obtain ⟨out, rfl, hbuf⟩ := h.written hok
    exact ⟨first ++ out, rfl, by rw [hbuf, append_assoc]⟩
  explained := fun cause hcause => by
    have hlater := h.explained cause hcause
    rw [length_append] at hlater
    exact hlater.cat

/-- **Sequencing.**  Two writers write one encoding after the other. -/
theorem andThen_cat {next : CbbBuffer → CbbBuffer} (h : Wrote heap before first base)
    (hnext : ∀ base : CbbBuffer, base.error = none → base.canResize = true →
      Wrote heap base.buf second (next base)) :
    Wrote heap before (cat first second) (base.andThen next) := by
  apply h.andThen (grows_cat_left first second)
  intro out hout hok hresize hbuf
  have hwrote := hnext base hok hresize
  rw [hbuf] at hwrote
  rw [hout]
  exact hwrote.prepend

end Wrote

/-! ### What the writers write -/

section Writers

variable (heap : CbbHeap)
variable {base : CbbBuffer}

theorem cbbBufferAdd_wrote (len : Nat) (hok : base.error = none) (hresize : base.canResize = true) :
    Wrote heap base.buf (some (freshBytes heap base.buf.length len))
      (cbbBufferAdd heap base len) := by
  have hbuf := cbbBufferReserve_buf heap base len
  have hkeeps := (cbbBufferReserve_canResize heap base len).trans hresize
  unfold cbbBufferAdd
  dsimp only
  split
  · next hreserved =>
    refine Wrote.of_ok ?_ ?_ ?_
    · exact hreserved
    · exact hkeeps
    · show _ ++ _ = _
      rw [hbuf]
  · next hfailed =>
    refine ⟨hkeeps, fun hnone => absurd hnone hfailed, ?_⟩
    intro cause hcause
    unfold cbbBufferReserve at hcause
    split at hcause
    · next hwrap =>
      cases hcause
      intro out hout
      cases hout
      rwa [length_freshBytes]
    · split at hcause
      · rw [hok] at hcause
        cases hcause
      · rw [hresize, if_neg (by decide)] at hcause
        split at hcause
        · cases hok.symm.trans hcause
        · next hrefused =>
          cases hcause
          exact ⟨_, _, Bool.eq_false_iff.mpr hrefused⟩

variable {before : Bytes}

theorem CbbBuffer.store_buf {old after bytes : Bytes} (hbuf : base.buf = before ++ (old ++ after))
    (hlength : old.length = bytes.length) :
    (base.store before.length bytes).buf = before ++ (bytes ++ after) := by
  show write base.buf before.length bytes = _
  rw [hbuf, write_middle hlength]

theorem writeLength_middle {old after : Bytes} {lenLen : Nat} (h : old.length = lenLen)
    (value : Nat) : writeLength (before ++ (old ++ after)) before.length lenLen value =
      (before ++ (beBytes lenLen value ++ after), value / 256 ^ lenLen) := by
  induction lenLen generalizing old after value with
  | zero =>
    rw [eq_nil_of_length_eq_zero h]
    simp [writeLength, beBytes]
  | succ i ih =>
    obtain ⟨first, last, rfl⟩ : ∃ first last, old = first ++ [last] :=
      ⟨old.dropLast, old.getLast (by rintro rfl; cases h), (dropLast_append_getLast _).symm⟩
    rw [length_append, length_singleton] at h
    have hfirst : first.length = i := Nat.succ.inj h
    have hset : (before ++ (first ++ [last] ++ after)).set (before.length + i) (UInt8.ofNat value) =
        before ++ (first ++ (UInt8.ofNat value :: after)) := by
      have hmiddle := set_middle (before ++ first) after last (UInt8.ofNat value)
      rw [length_append, hfirst] at hmiddle
      simpa using hmiddle
    rw [writeLength, hset, ih hfirst, Nat.shiftRight_eq_div_pow, Nat.div_div_eq_div_mul]
    rw [beBytes, append_assoc, singleton_append, ← Nat.pow_succ']

theorem CbbBuffer.storeLength_eq {old after : Bytes} {lenLen : Nat}
    (hbuf : base.buf = before ++ (old ++ after)) (hlength : old.length = lenLen)
    (hok : base.error = none) (value : Nat) (cause : CbbError) :
    let stored := base.storeLength before.length lenLen value cause
    stored.buf = before ++ (beBytes lenLen value ++ after) ∧ stored.canResize = base.canResize ∧
      stored.error = if value < 256 ^ lenLen then none else some cause := by
  intro stored
  have hwrite := @writeLength_middle before old after lenLen hlength value
  rw [← hbuf] at hwrite
  have hpow : 0 < 256 ^ lenLen := Nat.pow_pos (by decide)
  unfold stored storeLength
  simp only [hwrite]
  by_cases hfits : value < 256 ^ lenLen
  · rw [if_neg (by rw [Nat.div_eq_of_lt hfits]; exact fun h => h rfl), if_pos hfits]
    exact ⟨rfl, rfl, hok⟩
  · have hpos := Nat.div_pos (Nat.le_of_not_lt hfits) hpow
    rw [if_pos (by omega), if_neg hfits]
    exact ⟨rfl, rfl, rfl⟩

variable (hok : base.error = none) (hresize : base.canResize = true)
include hok hresize

theorem cbbAddBytes_wrote (data : Bytes) :
    Wrote heap base.buf (some data) (cbbAddBytes heap data base) := by
  apply (cbbBufferAdd_wrote heap data.length hok hresize).andThen
  · intro out hout
    cases hout
    exact ⟨_, rfl, by rw [length_freshBytes]⟩
  · intro out hout hok' hresize' hbuf
    cases hout
    rw [← append_nil (freshBytes _ _ _)] at hbuf
    refine Wrote.of_ok ?_ ?_ ?_
    · exact hok'
    · exact hresize'
    · rw [CbbBuffer.store_buf hbuf (length_freshBytes _ _ _), append_nil]

theorem cbbAddChild_wrote (lenLen : Nat) :
    Wrote heap base.buf (some (List.replicate lenLen 0)) (cbbAddChild heap lenLen base) := by
  have hwrote := cbbAddBytes_wrote heap hok hresize (List.replicate lenLen 0)
  rw [cbbAddBytes, length_replicate] at hwrote
  exact hwrote

theorem cbbAddUInt_wrote {lenLen value : Nat} (hfits : value < 256 ^ lenLen) :
    Wrote heap base.buf (some (beBytes lenLen value)) (cbbAddUInt heap lenLen value base) := by
  apply (cbbBufferAdd_wrote heap lenLen hok hresize).andThen
  · intro out hout
    cases hout
    exact ⟨_, rfl, by rw [length_freshBytes, length_beBytes]⟩
  · intro out hout hok' hresize' hbuf
    cases hout
    rw [← append_nil (freshBytes _ _ _)] at hbuf
    obtain ⟨hstored, hkeeps, herror⟩ :=
      CbbBuffer.storeLength_eq hbuf (length_freshBytes _ _ _) hok' value .integerTooWide
    rw [if_pos hfits] at herror
    apply Wrote.of_ok herror (hkeeps.trans hresize')
    rw [hstored, append_nil]

theorem cbbAddTag_wrote (tag : UInt32) :
    Wrote heap base.buf (some (asn1TagBytes tag)) (cbbAddTag heap tag base) := by
  have hfold : ∀ (bytes done : Bytes) (current : CbbBuffer),
      Wrote heap base.buf (some done) current →
      Wrote heap base.buf (some (done ++ bytes)) (bytes.foldl
        (fun base byte => base.andThen (cbbAddUInt heap 1 byte.toNat)) current) := by
    intro bytes
    induction bytes with
    | nil =>
      intro done current hcurrent
      rw [append_nil]
      exact hcurrent
    | cons byte bytes ih =>
      intro done current hcurrent
      have hbyte : beBytes 1 byte.toNat = [byte] := by
        simp [beBytes]
      have hnext := hcurrent.andThen_cat fun base hok hresize =>
        cbbAddUInt_wrote heap hok hresize (show byte.toNat < 256 ^ 1 from byte.toNat_lt)
      rw [hbyte, cat_some] at hnext
      have hrest := ih _ _ hnext
      rw [append_assoc] at hrest
      exact hrest
  exact hfold (asn1TagBytes tag) [] base
    (Wrote.of_ok hok hresize (append_nil _).symm)

omit hok hresize

theorem asn1LengthForm_spec {len : Nat} (hlen : ¬len > 0xfffffffe) :
    asn1LengthBytes len = some ((asn1LengthForm len).2.1 ::
        beBytes ((asn1LengthForm len).1 - 1) (asn1LengthForm len).2.2) ∧
      (asn1LengthForm len).2.2 < 256 ^ ((asn1LengthForm len).1 - 1) := by
  unfold asn1LengthBytes asn1LengthForm
  rw [if_neg hlen]
  split
  · exact ⟨rfl, by show len < 256 ^ 4; omega⟩
  · split
    · exact ⟨rfl, by show len < 256 ^ 3; omega⟩
    · split
      · exact ⟨rfl, by show len < 256 ^ 2; omega⟩
      · split
        · exact ⟨rfl, by show len < 256 ^ 1; omega⟩
        · exact ⟨rfl, Nat.one_pos⟩

theorem cbbMoveContents_wrote {contents : Bytes} (extra : Nat)
    (hbuf : base.buf = before ++ contents) (hok : base.error = none)
    (hresize : base.canResize = true) :
    ∃ gap, gap.length = extra ∧ Wrote heap before (some (gap ++ contents))
      (cbbMoveContents heap before.length contents.length extra base) := by
  unfold cbbMoveContents
  by_cases hzero : extra = 0
  · rw [if_neg (fun h => h hzero)]
    exact ⟨[], hzero.symm, Wrote.of_ok hok hresize hbuf⟩
  rw [if_pos hzero]
  have hadd := cbbBufferAdd_wrote heap extra hok hresize
  rw [hbuf] at hadd
  have hprepend := hadd.prepend
  rw [cat_some] at hprepend
  -- the gap holds what was there before the move
  let whole := contents ++ freshBytes heap (before ++ contents).length extra
  have hwhole : whole.length = contents.length + extra := by
    rw [length_append, length_freshBytes]
  have hgap : (whole.take extra).length = extra := by
    rw [length_take]
    omega
  refine ⟨whole.take extra, hgap, ?_⟩
  apply hprepend.andThen
  · intro out hout
    cases hout
    have hmoved : (whole.take extra ++ contents).length = extra + contents.length := by
      rw [length_append, hgap]
    exact ⟨whole, rfl, by rw [hmoved, hwhole, Nat.add_comm]⟩
  · intro out hout hok' hresize' hgrown
    cases hout
    have hsplit : before ++ whole = (before ++ whole.take extra) ++ (whole.drop extra ++ []) := by
      rw [append_nil, append_assoc, take_append_drop]
    have hstart : (before ++ whole.take extra).length = before.length + extra := by
      rw [length_append, hgap]
    have hmoved : (((cbbBufferAdd heap base extra).buf.drop before.length).take contents.length) =
        contents := by
      rw [hgrown, drop_left, take_left]
    refine Wrote.of_ok ?_ ?_ ?_
    · exact hok'
    · exact hresize'
    · rw [hmoved, ← hstart, CbbBuffer.store_buf (hgrown.trans hsplit) (by
        rw [length_drop, hwhole, Nat.add_sub_cancel]), append_nil, append_assoc]

/-- `CBB_flush` of a length-prefixed child. -/
theorem cbbFlushChild_prefixed {room contents : Bytes}
    (hbuf : base.buf = before ++ (room ++ contents)) (hok : base.error = none)
    (hresize : base.canResize = true) :
    Wrote heap before ((cbbAddU contents.length room.length).map (· ++ contents))
      (cbbFlushChild heap ⟨before.length, room.length, false⟩ base) := by
  have hlength : base.buf.length = before.length + room.length + contents.length := by
    rw [hbuf, length_append, length_append, Nat.add_assoc]
  have hcap := base.len_le_cap
  have hlt := base.cap_lt
  unfold cbbFlushChild
  dsimp only
  rw [if_neg (by omega), if_neg Bool.false_ne_true, hlength, Nat.add_sub_cancel_left]
  obtain ⟨hstored, hkeeps, herror⟩ :=
    CbbBuffer.storeLength_eq hbuf rfl hok contents.length .childTooLong
  unfold cbbAddU
  by_cases hfits : contents.length < 256 ^ room.length
  · rw [if_pos hfits] at herror ⊢
    exact Wrote.of_ok herror (hkeeps.trans hresize) hstored
  · rw [if_neg hfits] at herror ⊢
    refine ⟨hkeeps.trans hresize, ?_, ?_⟩
    · intro hnone
      cases herror.symm.trans hnone
    · intro cause hcause
      cases herror.symm.trans hcause
      rfl

/-- `CBB_flush` of an ASN.1 child, whose identifier ends `before`. -/
theorem cbbFlushChild_asn1 {contents : Bytes} {room : UInt8}
    (hbuf : base.buf = before ++ (room :: contents)) (hok : base.error = none)
    (hresize : base.canResize = true) :
    Wrote heap before ((asn1LengthBytes contents.length).map (· ++ contents))
      (cbbFlushChild heap ⟨before.length, 1, true⟩ base) := by
  have hlength : base.buf.length = before.length + 1 + contents.length := by
    rw [hbuf, length_append, length_cons]
    omega
  have hcap := base.len_le_cap
  have hlt := base.cap_lt
  unfold cbbFlushChild
  dsimp only
  rw [if_neg (by omega), if_pos rfl, hlength, Nat.add_sub_cancel_left]
  by_cases hlong : contents.length > 0xfffffffe
  · rw [if_pos hlong, asn1LengthBytes, if_pos hlong]
    refine ⟨hresize, ?_, ?_⟩
    · intro hnone
      cases hnone
    · intro cause hcause
      cases hcause
      rfl
  rw [if_neg hlong]
  obtain ⟨hbytes, hfits⟩ := asn1LengthForm_spec hlong
  rcases hform : asn1LengthForm contents.length with ⟨lenLen, initialLengthByte, rest⟩
  rw [hform] at hbytes hfits
  rw [hbytes]
  dsimp only at hfits ⊢
  have hsplit : base.buf = (before ++ [room]) ++ contents := by
    rw [hbuf, append_assoc, singleton_append]
  obtain ⟨gap, hgap, hmoved⟩ := cbbMoveContents_wrote heap (lenLen - 1) hsplit hok hresize
  have hmoved' := hmoved.prepend
  rw [length_append, length_singleton] at hmoved'
  apply hmoved'.andThen
  · intro out hout
    cases hout
    refine ⟨_, rfl, ?_⟩
    simp [hgap]
  · intro out hout hok' hresize' hbuf'
    cases hout
    have hinitial := @CbbBuffer.store_buf _ _ _ _ [initialLengthByte] hbuf' rfl
    have hshift := hinitial.trans
      (append_assoc before [initialLengthByte] (gap ++ contents)).symm
    obtain ⟨hstored, hkeeps, herror⟩ :=
      CbbBuffer.storeLength_eq hshift hgap hok' rest .childTooLong
    rw [if_pos hfits] at herror
    rw [length_append, length_singleton] at hstored hkeeps herror
    refine Wrote.of_ok herror (hkeeps.trans hresize') ?_
    rw [hstored]
    simp

end Writers

end AwsLc
