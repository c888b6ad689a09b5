import AwsLc.BlockMachine
import AwsLc.ByteString
import Mathlib.Data.Nat.Bitwise
import Mathlib.Tactic.Ring

/-!
# Streaming block ciphers (`cipher.c`)

Encryption keeps the input that does not fill a block in `buf`, and pads the last block.  Decryption
uses the same buffer, and holds the last block back in `final` as long as it may be the padded one.

A context's `buf` is kept up to `buf_len`, and `out` as the bytes counted by `*out_len`.
-/

namespace AwsLc

open Blocks BlockMachine List Nat

/-! ### The functions of `cipher.c` -/

def EVP_MAX_BLOCK_LENGTH : Nat := 32

/-- `EVP_CIPHER`, with `cipher` as a function of the state behind `cipher_data` and the input, which
    is null at the end of a stream of a custom cipher. -/
structure EvpCipher (State : Type) where
  blockSize : Nat
  customCipher : Bool
  cipher : State → Option Bytes → Option (State × Bytes)

open EvpCipher

structure EvpCipherCtx (State : Type) where
  cipherData : State
  noPadding : Bool
  buf : Bytes
  finalUsed : Bool
  final : Bytes
  poisoned : Bool

variable {State : Type}

/-- The context after `EVP_CipherInit_ex`. -/
def evpCipherInit (state : State) : EvpCipherCtx State where
  cipherData := state
  noPadding := false
  buf := []
  finalUsed := false
  final := []
  poisoned := false

namespace EvpCipher

variable (cipher : EvpCipher State)

def blockRemainder (len : Nat) : Nat := len &&& (cipher.blockSize - 1)

variable (ctx : EvpCipherCtx State)

/-- The end of `EVP_EncryptUpdate`: the whole blocks of the input, and what stays in `buf`. -/
def encryptRest (out inp : Bytes) : Option Bytes × EvpCipherCtx State :=
  let i := cipher.blockRemainder inp.length
  let inLen := inp.length - i
  if inLen > 0 then
    match cipher.cipher ctx.cipherData (some (inp.take inLen)) with
    | none => (none, ctx)
    | some (cipherData, more) =>
      (some (out ++ more), { ctx with cipherData, buf := inp.drop inLen, poisoned := false })
  else (some out, { ctx with buf := inp.drop inLen, poisoned := false })

def encryptInput (inp : Bytes) : Option Bytes × EvpCipherCtx State :=
  if ctx.buf.length = 0 ∧ cipher.blockRemainder inp.length = 0 then
    match cipher.cipher ctx.cipherData (some inp) with
    | none => (none, ctx)
    | some (cipherData, out) => (some out, { ctx with cipherData, poisoned := false })
  else if ctx.buf.length ≠ 0 then
    if cipher.blockSize - ctx.buf.length > inp.length then
      (some [], { ctx with buf := ctx.buf ++ inp, poisoned := false })
    else
      let j := cipher.blockSize - ctx.buf.length
      match cipher.cipher ctx.cipherData (some (ctx.buf ++ inp.take j)) with
      | none => (none, ctx)
      | some (cipherData, out) => cipher.encryptRest { ctx with cipherData } out (inp.drop j)
  else cipher.encryptRest ctx [] inp

/-- `EVP_EncryptUpdate` of the first `inLen` bytes of `inp`.  The context is poisoned until
the call has succeeded. -/
def evpEncryptUpdate (inp : Bytes) (inLen : Int) : Option Bytes × EvpCipherCtx State :=
  if ctx.poisoned then (none, ctx)
  else
    let ctx := { ctx with poisoned := true }
    if cipher.blockSize > 1 ∧ inLen > INT_MAX - cipher.blockSize then (none, ctx)
    else if cipher.customCipher then
      match cipher.cipher ctx.cipherData (some (inp.take inLen.toNat)) with
      | none => (none, ctx)
      | some (cipherData, out) => (some out, { ctx with cipherData, poisoned := false })
    else if inLen ≤ 0 then
      if inLen = 0 then (some [], { ctx with poisoned := false }) else (none, ctx)
    else cipher.encryptInput ctx (inp.take inLen.toNat)

def evpEncryptFinal : Option Bytes × EvpCipherCtx State :=
  if ctx.poisoned then (none, ctx)
  else if cipher.customCipher then
    match cipher.cipher ctx.cipherData none with
    | none => (none, ctx)
    | some (cipherData, out) => (some out, { ctx with cipherData })
  else if cipher.blockSize = 1 then (some [], ctx)
  else if ctx.noPadding then
    if ctx.buf.length ≠ 0 then (none, ctx) else (some [], ctx)
  else
    let n := cipher.blockSize - ctx.buf.length
    match cipher.cipher ctx.cipherData (some (ctx.buf ++ replicate n (UInt8.ofNat n))) with
    | none => (none, ctx)
    | some (cipherData, out) => (some out, { ctx with cipherData })

/-- The part of the input that `EVP_DecryptUpdate` withholds. -/
def hold (inLen : Nat) : Nat :=
  if cipher.blockSize > 1 ∧ cipher.blockRemainder (ctx.buf.length + inLen) = 0 then
    if inLen < cipher.blockSize then inLen else cipher.blockSize
  else 0

/-- `EVP_DecryptUpdate` on an input that is not empty, with padding. -/
def decryptInput (inp : Bytes) : Option Bytes × EvpCipherCtx State :=
  let fix := if ctx.finalUsed then ctx.final else []
  let hold := cipher.hold ctx inp.length
  match cipher.evpEncryptUpdate ctx inp ↑(inp.length - hold) with
  | (none, ctx) => (none, ctx)
  | (some out, ctx) =>
    let ctx := { ctx with finalUsed := false }
    if hold ≠ 0 then
      match cipher.evpEncryptUpdate ctx (inp.drop (inp.length - hold)) hold with
      | (none, ctx) => (none, ctx)
      | (some final, ctx) =>
        let ctx := { ctx with final }
        if final.length ≠ cipher.blockSize ∨ ctx.buf.length ≠ 0 then
          (none, { ctx with poisoned := true })
        else (some (fix ++ out), { ctx with finalUsed := true })
    else (some (fix ++ out), ctx)

def evpDecryptUpdate (inp : Bytes) (inLen : Int) : Option Bytes × EvpCipherCtx State :=
  if ctx.poisoned then (none, ctx)
  else if cipher.blockSize > 1 ∧ inLen > INT_MAX - cipher.blockSize then (none, ctx)
  else if cipher.customCipher then
    match cipher.cipher ctx.cipherData (some (inp.take inLen.toNat)) with
    | none => (none, ctx)
    | some (cipherData, out) => (some out, { ctx with cipherData })
  else if inLen ≤ 0 then (if inLen = 0 then some [] else none, ctx)
  else if ctx.noPadding then cipher.evpEncryptUpdate ctx inp inLen
  else cipher.decryptInput ctx (inp.take inLen.toNat)

/-- The bytes that the loop of `EVP_DecryptFinal_ex` compares with `n`, from the last on. -/
def paddingMatches (final : Bytes) (n : UInt8) : Nat → Nat → Bool
  | 0, _ => true
  | i + 1, b => final.getD (b - 1) 0 == n && paddingMatches final n i (b - 1)

def evpDecryptFinal : Option Bytes × EvpCipherCtx State :=
  if ctx.poisoned then (none, ctx)
  else if cipher.customCipher then
    match cipher.cipher ctx.cipherData none with
    | none => (none, ctx)
    | some (cipherData, out) => (some out, { ctx with cipherData })
  else if ctx.noPadding then
    if ctx.buf.length ≠ 0 then (none, ctx) else (some [], ctx)
  else if cipher.blockSize > 1 then
    if ctx.buf.length ≠ 0 ∨ !ctx.finalUsed then (none, ctx)
    else
      let n := ctx.final.getD (cipher.blockSize - 1) 0
      if n.toNat = 0 ∨ n.toNat > cipher.blockSize then (none, ctx)
      else if !paddingMatches ctx.final n n.toNat cipher.blockSize then (none, ctx)
      else (some (ctx.final.take (cipher.blockSize - n.toNat)), ctx)
  else (some [], ctx)

def updates (update : EvpCipherCtx State → Bytes → Int → Option Bytes × EvpCipherCtx State) :
    EvpCipherCtx State → List Bytes → Option Bytes × EvpCipherCtx State
  | ctx, [] => (some [], ctx)
  | ctx, chunk :: chunks =>
    match update ctx chunk chunk.length with
    | (none, ctx) => (none, ctx)
    | (some out, ctx) =>
      match updates update ctx chunks with
      | (none, ctx) => (none, ctx)
      | (some later, ctx) => (some (out ++ later), ctx)

def finish (final : EvpCipherCtx State → Option Bytes × EvpCipherCtx State) :
    Option Bytes × EvpCipherCtx State → Option Bytes
  | (none, _) => none
  | (some out, ctx) => (final ctx).1.map (out ++ ·)

def encryptStream (state : State) (chunks : List Bytes) : Option Bytes :=
  finish cipher.evpEncryptFinal (updates cipher.evpEncryptUpdate (evpCipherInit state) chunks)

def decryptStream (state : State) (chunks : List Bytes) : Option Bytes :=
  finish cipher.evpDecryptFinal (updates cipher.evpDecryptUpdate (evpCipherInit state) chunks)

end EvpCipher

/-! ### Block ciphers -/

structure BlockFunction (State : Type) where
  size : Nat
  size_pow : ∃ k, size = 2 ^ k
  one_lt_size : 1 < size
  size_le : size ≤ EVP_MAX_BLOCK_LENGTH
  step : State → Bytes → State × Bytes
  length_step : ∀ state block, block.length = size → (step state block).2.length = size

theorem if_off {α : Type*} (a b : α) : (if false = true then a else b) = b := rfl

namespace BlockFunction

variable (f : BlockFunction State)

/-- What the function makes of the whole blocks of a stream. -/
abbrev apply (state : State) (xs : Bytes) : State × Bytes := stream f.size f.step state xs

def evp : EvpCipher State where
  blockSize := f.size
  customCipher := false
  cipher := fun state inp => inp.map (f.apply state)

def Fitting (chunks : List Bytes) : Prop := ∀ chunk ∈ chunks, chunk.length + f.size ≤ INT_MAX

theorem size_pos : 0 < f.size := by
  have h := f.one_lt_size
  omega

theorem blockRemainder_eq (len : Nat) : f.evp.blockRemainder len = len % f.size := by
  obtain ⟨k, hk⟩ := f.size_pow
  show len &&& (f.size - 1) = len % f.size
  rw [hk, and_two_pow_sub_one_eq_mod]

variable (ctx : EvpCipherCtx State)

def absorb (xs : Bytes) : EvpCipherCtx State :=
  { ctx with
    cipherData := (f.apply ctx.cipherData (ctx.buf ++ xs)).1
    buf := leftover f.size (ctx.buf ++ xs)
    poisoned := false }

def emit (xs : Bytes) : Bytes :=
  (f.apply ctx.cipherData (ctx.buf ++ xs)).2

theorem encryptRest_eq (out inp : Bytes) : f.evp.encryptRest ctx out inp =
      (some (out ++ (f.apply ctx.cipherData inp).2),
        { ctx with
          cipherData := (f.apply ctx.cipherData inp).1
          buf := leftover f.size inp
          poisoned := false }) := by
  obtain ⟨hblocks, hleftover⟩ := take_drop_whole f.size_pos inp
  unfold encryptRest
  dsimp only
  rw [f.blockRemainder_eq, hleftover]
  have hwhole : f.evp.cipher ctx.cipherData
      (some (inp.take (inp.length - inp.length % f.size))) = some (f.apply ctx.cipherData inp) := by
    show some (f.apply _ _) = _
    unfold apply stream
    rw [hblocks]
  by_cases hlong : inp.length - inp.length % f.size > 0
  · rw [if_pos hlong, hwhole]
  · rw [if_neg hlong]
    have hshort : inp.length < f.size := by
      have hmod := Nat.mod_lt inp.length f.size_pos
      omega
    rw [show f.apply ctx.cipherData inp = _ from stream_short hshort ctx.cipherData,
      append_nil]

theorem encryptInput_eq (hbuf : ctx.buf.length < f.size) (inp : Bytes) :
    f.evp.encryptInput ctx inp = (some (f.emit ctx inp), f.absorb ctx inp) := by
  unfold encryptInput emit absorb
  rw [f.blockRemainder_eq]
  by_cases hwhole : ctx.buf.length = 0 ∧ inp.length % f.size = 0
  · rw [if_pos hwhole]
    obtain ⟨hempty, hdvd⟩ := hwhole
    rw [length_eq_zero_iff] at hempty
    rw [hempty, nil_append, leftover_of_dvd f.size_pos hdvd]
    cases ctx
    cases hempty
    rfl
  rw [if_neg hwhole]
  by_cases hempty : ctx.buf.length = 0
  · rw [if_neg (not_not.mpr hempty), f.encryptRest_eq]
    rw [length_eq_zero_iff] at hempty
    rw [hempty, nil_append, nil_append]
  rw [if_pos hempty]
  have hblockSize : f.evp.blockSize = f.size := rfl
  rw [hblockSize]
  by_cases hshort : f.size - ctx.buf.length > inp.length
  · have hlt : (ctx.buf ++ inp).length < f.size := by
      rw [length_append]
      omega
    rw [if_pos hshort, leftover_of_lt hlt,
      show f.apply ctx.cipherData (ctx.buf ++ inp) = _ from stream_short hlt ctx.cipherData]
  · -- the buffer is filled up to a block
    rw [if_neg hshort]
    have hblock : (ctx.buf ++ inp.take (f.size - ctx.buf.length)).length = f.size := by
      rw [length_append, length_take]
      omega
    have hcut : ctx.buf ++ inp = (ctx.buf ++ inp.take (f.size - ctx.buf.length)) ++
        inp.drop (f.size - ctx.buf.length) := by
      rw [append_assoc, take_append_drop]
    have hempty' : leftover f.size (ctx.buf ++ inp.take (f.size - ctx.buf.length)) = [] :=
      leftover_of_dvd f.size_pos (by rw [hblock, mod_self])
    rw [hcut, leftover_append f.size_pos, hempty', nil_append]
    unfold apply
    rw [stream_append f.size_pos, hempty', nil_append]
    exact f.encryptRest_eq _ _ _

variable {ctx : EvpCipherCtx State}

/-- **One update.**  The call on a prefix of `inp` outputs the whole blocks, and keeps the rest. -/
theorem evpEncryptUpdate_eq (hbuf : ctx.buf.length < f.size) (hpoisoned : ctx.poisoned = false)
    {inp : Bytes} {n : Nat} (hn : n ≤ inp.length) (hfits : n + f.size ≤ INT_MAX) :
    f.evp.evpEncryptUpdate ctx inp n =
      (some (f.emit ctx (inp.take n)), f.absorb ctx (inp.take n)) := by
  unfold evpEncryptUpdate
  have hblockSize : f.evp.blockSize = f.size := rfl
  have hcustom : f.evp.customCipher = false := rfl
  rw [hpoisoned, if_off, hblockSize, if_neg (by omega), hcustom, if_off]
  by_cases hzero : n = 0
  · cases hzero
    rw [if_pos (show ((0 : Nat) : Int) ≤ 0 from le_rfl),
      if_pos (show ((0 : Nat) : Int) = 0 from rfl), take_zero]
    unfold emit absorb
    rw [append_nil, leftover_of_lt hbuf,
      show f.apply ctx.cipherData ctx.buf = _ from stream_short hbuf ctx.cipherData]
  · rw [if_neg (by omega), Int.toNat_natCast]
    exact f.encryptInput_eq { ctx with poisoned := true } hbuf _

variable (ctx)

theorem emit_append (xs ys : Bytes) :
    f.emit ctx (xs ++ ys) = f.emit ctx xs ++ f.emit (f.absorb ctx xs) ys := by
  unfold emit absorb apply
  rw [← append_assoc, stream_append f.size_pos]

theorem absorb_append (xs ys : Bytes) :
    f.absorb ctx (xs ++ ys) = f.absorb (f.absorb ctx xs) ys := by
  unfold absorb apply
  rw [← append_assoc, stream_append f.size_pos, leftover_append f.size_pos (ctx.buf ++ xs)]

theorem absorb_buf_lt (xs : Bytes) :
    (f.absorb ctx xs).buf.length < f.size := leftover_length_lt f.size_pos _

section Runs

variable {update : EvpCipherCtx State → Bytes → Int → Option Bytes × EvpCipherCtx State}
  {Good : Bytes → Bytes → EvpCipherCtx State → Prop}
  (hstep : ∀ seen out ctx chunk, Good seen out ctx → chunk.length + f.size ≤ INT_MAX →
    ∃ more ctx', update ctx chunk chunk.length = (some more, ctx') ∧
      Good (seen ++ chunk) (out ++ more) ctx')
include hstep

/-- **Runs.**  If a call keeps a relation between what went in, what came out and the context,
    so do all calls together. -/
theorem updates_good {chunks : List Bytes} (hfits : f.Fitting chunks) {seen out : Bytes}
    {ctx : EvpCipherCtx State} (hgood : Good seen out ctx) :
    ∃ more ctx', updates update ctx chunks = (some more, ctx') ∧
      Good (seen ++ chunks.flatten) (out ++ more) ctx' := by
  induction chunks generalizing seen out ctx with
  | nil =>
    refine ⟨[], ctx, rfl, ?_⟩
    rw [flatten_nil, append_nil, append_nil]
    exact hgood
  | cons chunk chunks ih =>
    obtain ⟨hchunk, hchunks⟩ := forall_mem_cons.mp hfits
    obtain ⟨first, ctx₁, hfirst, hgood₁⟩ := hstep seen out ctx chunk hgood hchunk
    obtain ⟨later, ctx₂, hlater, hgood₂⟩ := ih hchunks hgood₁
    refine ⟨first ++ later, ctx₂, ?_, ?_⟩
    · rw [updates, hfirst]
      dsimp only
      rw [hlater]
    · rw [flatten_cons, ← append_assoc, ← append_assoc]
      exact hgood₂

theorem updates_long
    (hlong : ∀ seen out ctx chunk, Good seen out ctx → ¬ chunk.length + f.size ≤ INT_MAX →
      (update ctx chunk chunk.length).1 = none)
    {chunks : List Bytes} (hfits : ¬ f.Fitting chunks) {seen out : Bytes}
    {ctx : EvpCipherCtx State} (hgood : Good seen out ctx) :
    (updates update ctx chunks).1 = none := by
  induction chunks generalizing seen out ctx with
  | nil => exact absurd (fun _ h => absurd h not_mem_nil) hfits
  | cons chunk chunks ih =>
    rw [updates]
    by_cases hchunk : chunk.length + f.size ≤ INT_MAX
    · obtain ⟨first, ctx₁, hfirst, hgood₁⟩ := hstep seen out ctx chunk hgood hchunk
      have hchunks : ¬ f.Fitting chunks := by
        intro h
        exact hfits (forall_mem_cons.mpr ⟨hchunk, h⟩)
      have hnone := ih hchunks hgood₁
      rw [hfirst]
      dsimp only
      generalize updates update ctx₁ chunks = result at hnone
      obtain ⟨later, ctx₂⟩ := result
      cases hnone
      rfl
    · have hnone := hlong seen out ctx chunk hgood hchunk
      generalize update ctx chunk chunk.length = result at hnone
      obtain ⟨first, ctx₁⟩ := result
      cases hnone
      rfl

end Runs

/-! ### Encryption -/

def padding (xs : Bytes) : Bytes :=
  replicate (f.size - xs.length % f.size) (UInt8.ofNat (f.size - xs.length % f.size))

def Encrypting (start : State) (seen out : Bytes) (ctx : EvpCipherCtx State) : Prop :=
  ctx = f.absorb (evpCipherInit start) seen ∧ out = f.emit (evpCipherInit start) seen

theorem encrypting_init (start : State) : f.Encrypting start [] [] (evpCipherInit start) := by
  have hshort : ([] : Bytes).length < f.size := f.size_pos
  constructor
  · unfold absorb evpCipherInit
    dsimp only
    rw [append_nil, leftover_of_lt hshort,
      show f.apply start [] = _ from stream_short hshort start]
  · unfold emit evpCipherInit
    dsimp only
    rw [append_nil, show f.apply start [] = _ from stream_short hshort start]

variable {start : State}

theorem encrypting_step (seen out : Bytes) (ctx : EvpCipherCtx State) (chunk : Bytes)
    (h : f.Encrypting start seen out ctx) (hfits : chunk.length + f.size ≤ INT_MAX) :
    ∃ more ctx', f.evp.evpEncryptUpdate ctx chunk chunk.length = (some more, ctx') ∧
      f.Encrypting start (seen ++ chunk) (out ++ more) ctx' := by
  obtain ⟨rfl, rfl⟩ := h
  have hupdate := f.evpEncryptUpdate_eq (f.absorb_buf_lt (evpCipherInit start) seen) rfl
    (le_refl chunk.length) hfits
  rw [take_length] at hupdate
  exact ⟨_, _, hupdate, (f.absorb_append _ _ _).symm, (f.emit_append _ _ _).symm⟩

theorem evpEncryptUpdate_long {chunk : Bytes} (h : ¬ chunk.length + f.size ≤ INT_MAX) :
    (f.evp.evpEncryptUpdate ctx chunk chunk.length).1 = none := by
  have hsize : f.evp.blockSize = f.size := rfl
  have hone := f.one_lt_size
  unfold evpEncryptUpdate
  by_cases hpoisoned : ctx.poisoned = true
  · rw [if_pos hpoisoned]
  · rw [if_neg hpoisoned, hsize, if_pos (by omega)]

variable {ctx}

theorem evpEncryptFinal_eq {seen out : Bytes} (h : f.Encrypting start seen out ctx) :
    (f.evp.evpEncryptFinal ctx).1 = some (f.emit ctx (f.padding seen)) := by
  obtain ⟨rfl, -⟩ := h
  have hsize : f.evp.blockSize = f.size := rfl
  have hone := f.one_lt_size
  have hpoisoned : (f.absorb (evpCipherInit start) seen).poisoned = false := rfl
  have hpadding : (f.absorb (evpCipherInit start) seen).noPadding = false := rfl
  have hbuf : (f.absorb (evpCipherInit start) seen).buf.length = seen.length % f.size :=
    length_leftover f.size_pos seen
  have hcustom : f.evp.customCipher = false := rfl
  unfold evpEncryptFinal
  rw [hpoisoned, if_off, hcustom, if_off, hsize,
    if_neg (by omega), hpadding, if_off, hbuf]
  rfl

variable {chunks : List Bytes}

/-- **Encryption in chunks.**  What comes out is the cipher on the padded stream. -/
theorem encryptStream_eq (start : State) (h : f.Fitting chunks) : f.evp.encryptStream start chunks =
      some (f.apply start (chunks.flatten ++ f.padding chunks.flatten)).2 := by
  obtain ⟨out, ctx, hrun, hgood⟩ := f.updates_good f.encrypting_step h (f.encrypting_init start)
  rw [nil_append] at hgood
  unfold encryptStream
  rw [hrun]
  show (f.evp.evpEncryptFinal ctx).1.map _ = _
  rw [f.evpEncryptFinal_eq hgood, Option.map_some]
  obtain ⟨rfl, hout⟩ := hgood
  rw [nil_append] at hout
  rw [hout, ← f.emit_append]
  rfl

theorem encryptStream_long (start : State) (h : ¬ f.Fitting chunks) :
    f.evp.encryptStream start chunks = none := by
  have hnone := f.updates_long f.encrypting_step
    (fun _ _ ctx _ _ => f.evpEncryptUpdate_long ctx) h (f.encrypting_init start)
  unfold encryptStream
  generalize updates f.evp.evpEncryptUpdate (evpCipherInit start) chunks = result
    at hnone
  obtain ⟨out, ctx⟩ := result
  cases hnone
  rfl

/-! ### Decryption -/

/-- The context and the output of a decryption, after `seen`: the last block is withheld when
nothing follows it. -/
structure Decrypting (start : State) (seen out : Bytes) (ctx : EvpCipherCtx State) : Prop where
  cipherData : ctx.cipherData = (f.apply start seen).1
  buf : ctx.buf = leftover f.size seen
  poisoned : ctx.poisoned = false
  noPadding : ctx.noPadding = false
  finalUsed : ctx.finalUsed = true ↔ seen ≠ [] ∧ seen.length % f.size = 0
  final : ctx.finalUsed = true → ctx.final.length = f.size
  out : out ++ (if ctx.finalUsed then ctx.final else []) = (f.apply start seen).2

theorem decrypting_init (start : State) : f.Decrypting start [] [] (evpCipherInit start) := by
  have hshort : ([] : Bytes).length < f.size := f.size_pos
  have hnone : f.apply start [] = (start, []) := stream_short hshort start
  constructor
  · rw [hnone]
    rfl
  · exact (leftover_of_lt hshort).symm
  · rfl
  · rfl
  · exact ⟨fun h => absurd h Bool.false_ne_true, fun h => absurd rfl h.1⟩
  · exact fun h => absurd h Bool.false_ne_true
  · rw [hnone]
    rfl

variable (hbuf : ctx.buf.length < f.size)
include hbuf

/-- A prefix of the input has been decrypted into `out`. -/
theorem decryptInput_before (hpoisoned : ctx.poisoned = false)
    {first second : Bytes} (hfits : (first ++ second).length + f.size ≤ INT_MAX)
    (hhold : f.evp.hold ctx (first ++ second).length = second.length) :
    f.evp.evpEncryptUpdate ctx (first ++ second)
        ↑((first ++ second).length - f.evp.hold ctx (first ++ second).length) =
      (some (f.emit ctx first), f.absorb ctx first) := by
  rw [length_append] at hfits
  have hlength : (first ++ second).length - f.evp.hold ctx (first ++ second).length =
      first.length := by
    rw [hhold, length_append]
    omega
  rw [hlength, f.evpEncryptUpdate_eq hbuf hpoisoned
    (by rw [length_append]; omega) (by omega), take_left]

/-- The input does not end on a block boundary: nothing is withheld. -/
theorem decryptInput_open (hpoisoned : ctx.poisoned = false)
    {inp : Bytes} (hfits : inp.length + f.size ≤ INT_MAX)
    (hopen : (ctx.buf.length + inp.length) % f.size ≠ 0) : f.evp.decryptInput ctx inp =
      (some ((if ctx.finalUsed then ctx.final else []) ++ f.emit ctx inp),
        { f.absorb ctx inp with finalUsed := false }) := by
  have hhold : f.evp.hold ctx inp.length = 0 := by
    unfold hold
    rw [f.blockRemainder_eq, if_neg (fun h => hopen h.2)]
  have hupdate := @decryptInput_before State f ctx hbuf hpoisoned inp []
    (by rw [append_nil]; exact hfits) (by rw [append_nil]; exact hhold)
  rw [append_nil] at hupdate
  unfold decryptInput
  dsimp only
  rw [hupdate, hhold]
  rfl

/-- The input ends on a block boundary: its last block goes to `final`. -/
theorem decryptInput_closed (hpoisoned : ctx.poisoned = false)
    {inp : Bytes} (hinp : inp ≠ []) (hfits : inp.length + f.size ≤ INT_MAX)
    (hclosed : (ctx.buf.length + inp.length) % f.size = 0) :
    ∃ out final, final.length = f.size ∧ out ++ final = f.emit ctx inp ∧
      f.evp.decryptInput ctx inp = (some ((if ctx.finalUsed then ctx.final else []) ++ out),
          { f.absorb ctx inp with finalUsed := true, final }) := by
  have hpos := length_pos_of_ne_nil hinp
  have hone := f.one_lt_size
  obtain ⟨first, second, rfl, hsecond⟩ : ∃ first second, inp = first ++ second ∧
      second.length = if inp.length < f.size then inp.length else f.size := by
    refine ⟨inp.take (inp.length - if inp.length < f.size then inp.length else f.size),
      inp.drop (inp.length - if inp.length < f.size then inp.length else f.size),
      (take_append_drop _ _).symm, ?_⟩
    rw [length_drop]
    split <;> omega
  have hhold : f.evp.hold ctx (first ++ second).length = second.length := by
    unfold hold
    rw [f.blockRemainder_eq, if_pos ⟨hone, hclosed⟩, hsecond]
    rfl
  have hupdate := f.decryptInput_before hbuf hpoisoned hfits hhold
  -- what is left in the buffer and the withheld input are one block
  have hblock : (f.absorb ctx first).buf.length + second.length = f.size := by
    have hleftover : (f.absorb ctx first).buf.length =
        (ctx.buf.length + first.length) % f.size := by
      rw [← length_append]
      exact length_leftover f.size_pos _
    rw [hleftover]
    rw [length_append] at hclosed hsecond hpos
    split at hsecond
    · have hfirst : first.length = 0 := by omega
      rw [hfirst, zero_add] at hclosed hpos
      rw [hfirst, add_zero, mod_eq_of_lt hbuf]
      obtain ⟨k, hk⟩ := Nat.dvd_of_mod_eq_zero hclosed
      have hk_pos : k ≠ 0 := by
        rintro rfl
        omega
      have hk_lt : k < 2 := by
        by_contra hle
        have := Nat.mul_le_mul_left f.size (Nat.le_of_not_lt hle)
        omega
      rw [hk, show k = 1 by omega, Nat.mul_one]
    · rw [hsecond] at hclosed ⊢
      rw [← Nat.add_assoc, add_mod_right] at hclosed
      rw [hclosed, zero_add]
  have hsecondPos : second.length ≠ 0 := by
    rw [hsecond]
    split <;> omega
  have hlater := @evpEncryptUpdate_eq State f { f.absorb ctx first with finalUsed := false }
    (f.absorb_buf_lt ctx first) rfl second second.length le_rfl
    (by rw [length_append] at hfits; omega)
  rw [take_length] at hlater
  have hwhole : ((f.absorb ctx first).buf ++ second).length = f.size := by
    rw [length_append, hblock]
  have hfinal : (f.emit (f.absorb ctx first) second).length = f.size := by
    unfold emit apply
    rw [length_stream f.size_pos f.length_step, hwhole, Nat.div_self f.size_pos, Nat.mul_one]
  have hempty : (f.absorb (f.absorb ctx first) second).buf.length = 0 := by
    unfold absorb
    dsimp only
    rw [length_leftover f.size_pos]
    exact (congrArg (· % f.size) hwhole).trans (mod_self _)
  refine ⟨f.emit ctx first, f.emit (f.absorb ctx first) second, hfinal,
    (f.emit_append ctx first second).symm, ?_⟩
  unfold decryptInput
  dsimp only
  rw [hupdate, hhold, f.absorb_append]
  dsimp only
  rw [if_pos hsecondPos, length_append, Nat.add_sub_cancel, drop_left, hlater]
  dsimp only
  exact if_neg (fun h => h.elim (fun h => h hfinal) (fun h => h hempty))

omit hbuf

theorem decrypting_step (seen out : Bytes) (ctx : EvpCipherCtx State) (chunk : Bytes)
    (h : f.Decrypting start seen out ctx) (hfits : chunk.length + f.size ≤ INT_MAX) :
    ∃ more ctx', f.evp.evpDecryptUpdate ctx chunk chunk.length = (some more, ctx') ∧
      f.Decrypting start (seen ++ chunk) (out ++ more) ctx' := by
  have hsize : f.evp.blockSize = f.size := rfl
  have hcustom : f.evp.customCipher = false := rfl
  have hbuf : ctx.buf.length < f.size := by
    rw [h.buf]
    exact leftover_length_lt f.size_pos seen
  unfold evpDecryptUpdate
  rw [h.poisoned, if_off, hsize, if_neg (by omega), hcustom, if_off]
  by_cases hnil : chunk = []
  · cases hnil
    refine ⟨[], ctx, rfl, ?_⟩
    rw [append_nil, append_nil]
    exact h
  have hpos := length_pos_of_ne_nil hnil
  rw [if_neg (by omega), h.noPadding, if_off, Int.toNat_natCast,
    take_length]
  have hdata : (f.absorb ctx chunk).cipherData = (f.apply start (seen ++ chunk)).1 := by
    unfold absorb apply
    rw [stream_append f.size_pos start seen, h.cipherData, h.buf]
  have hleftover : (f.absorb ctx chunk).buf = leftover f.size (seen ++ chunk) := by
    unfold absorb
    rw [leftover_append f.size_pos seen, h.buf]
  have hemit : (f.apply start (seen ++ chunk)).2 = (f.apply start seen).2 ++ f.emit ctx chunk := by
    unfold emit apply
    rw [stream_append f.size_pos start seen, h.cipherData, h.buf]
  have hmod : (ctx.buf.length + chunk.length) % f.size = (seen ++ chunk).length % f.size := by
    rw [h.buf, length_leftover f.size_pos, length_append, mod_add_mod]
  have hne : seen ++ chunk ≠ [] := by
    intro heq
    exact hnil (append_eq_nil_iff.mp heq).2
  by_cases hclosed : (ctx.buf.length + chunk.length) % f.size = 0
  · obtain ⟨more, final, hfinal, hsum, hinput⟩ :=
      f.decryptInput_closed hbuf h.poisoned hnil hfits hclosed
    refine ⟨_, _, hinput, hdata, hleftover, rfl, h.noPadding, ?_, fun _ => hfinal, ?_⟩
    · exact ⟨fun _ => ⟨hne, hmod ▸ hclosed⟩, fun _ => rfl⟩
    · show _ ++ final = _
      rw [hemit, ← h.out, ← hsum]
      simp
  · have hinput := f.decryptInput_open hbuf h.poisoned hfits hclosed
    refine ⟨_, _, hinput, hdata, hleftover, rfl, h.noPadding, ?_, ?_, ?_⟩
    · exact ⟨fun h => absurd h Bool.false_ne_true, fun h => absurd (hmod ▸ h.2) hclosed⟩
    · exact fun h => absurd h Bool.false_ne_true
    · show _ ++ [] = _
      rw [hemit, ← h.out, append_nil, append_assoc]

theorem evpDecryptUpdate_long (ctx : EvpCipherCtx State) {chunk : Bytes}
    (h : ¬ chunk.length + f.size ≤ INT_MAX) :
    (f.evp.evpDecryptUpdate ctx chunk chunk.length).1 = none := by
  have hsize : f.evp.blockSize = f.size := rfl
  have hone := f.one_lt_size
  unfold evpDecryptUpdate
  by_cases hpoisoned : ctx.poisoned = true
  · rw [if_pos hpoisoned]
  · rw [if_neg hpoisoned, hsize, if_pos (by omega)]

/-- Only the blocks before the last one seen have been released. -/
theorem Decrypting.released {seen out : Bytes} (h : f.Decrypting start seen out ctx) :
    out = (f.apply start seen).2.take (f.size * ((seen.length - 1) / f.size)) := by
  have hlength : (f.apply start seen).2.length = f.size * (seen.length / f.size) :=
    length_stream f.size_pos f.length_step start seen
  have hout := h.out
  have hused := h.finalUsed
  have hfinal := h.final
  cases seen with
  | nil =>
    have hnone : (f.apply start []).2 = [] := length_eq_zero_iff.mp (by
      rw [hlength, length_nil, Nat.zero_div, Nat.mul_zero])
    rw [hnone] at hout ⊢
    rw [take_nil]
    exact (append_eq_nil_iff.mp hout).1
  | cons byte seen =>
    rw [length_cons, Nat.add_sub_cancel]
    rw [length_cons] at hlength hused
    by_cases hclosed : (seen.length + 1) % f.size = 0
    · have hfinalUsed := hused.mpr ⟨cons_ne_nil _ _, hclosed⟩
      rw [if_pos hfinalUsed] at hout
      rw [succ_div_of_dvd (Nat.dvd_of_mod_eq_zero hclosed), ← hout, length_append,
        hfinal hfinalUsed, mul_succ] at hlength
      rw [← add_right_cancel hlength, ← hout, take_left]
    · have hfinalUsed := fun hfinalUsed => hclosed (hused.mp hfinalUsed).2
      rw [if_neg hfinalUsed, append_nil] at hout
      rw [succ_div_of_not_dvd (fun hdvd => hclosed (mod_eq_zero_of_dvd hdvd))] at hlength
      rw [← hlength, take_length, hout]

/-- The loop of `EVP_DecryptFinal_ex` compares the last bytes. -/
theorem paddingMatches_iff (n : UInt8) (front tail rest : Bytes) :
    paddingMatches (front ++ tail ++ rest) n tail.length (front.length + tail.length) =
      true ↔ tail = replicate tail.length n := by
  induction tail using reverseRecOn generalizing rest with
  | nil => exact ⟨fun _ => rfl, fun _ => rfl⟩
  | append_singleton tail byte ih =>
    have hbyte : (front ++ (tail ++ [byte]) ++ rest).getD (front.length + tail.length) 0 =
        byte := by
      simp
    have ih' := ih ([byte] ++ rest)
    rw [length_append, length_singleton, paddingMatches, ← Nat.add_assoc,
      Nat.add_sub_cancel, hbyte, Bool.and_eq_true, beq_iff_eq]
    rw [← append_assoc, append_assoc front tail [byte]] at ih'
    rw [ih', replicate_succ']
    constructor
    · rintro ⟨rfl, htail⟩
      rw [← htail]
    · intro h
      obtain ⟨htail, hlast⟩ := append_inj' h rfl
      exact ⟨singleton_inj.mp hlast, htail⟩

/-- `EVP_DecryptFinal_ex` gives what is before the padding of the block that was withheld. -/
theorem evpDecryptFinal_block (hpoisoned : ctx.poisoned = false) (hpadding : ctx.noPadding = false)
    (hbuf : ctx.buf = []) (hused : ctx.finalUsed = true) (hfinal : ctx.final.length = f.size)
    (rest : Bytes) : (f.evp.evpDecryptFinal ctx).1 = some rest ↔
      ∃ n, 1 ≤ n ∧ n ≤ f.size ∧ ctx.final = rest ++ replicate n (UInt8.ofNat n) := by
  have hsize : f.evp.blockSize = f.size := rfl
  have hcustom : f.evp.customCipher = false := rfl
  have hone := f.one_lt_size
  have hmax : f.size ≤ 32 := f.size_le
  unfold evpDecryptFinal
  rw [hpoisoned, if_off, hcustom, if_off, hpadding,
    if_off, hsize, if_pos hone, hbuf, hused]
  simp only [length_nil, ne_eq, not_true_eq_false, Bool.not_true, Bool.false_eq_true, or_self,
    if_false]
  -- the block, cut where its last byte says
  have hmatches : ∀ n : UInt8, n.toNat ≤ f.size →
      (paddingMatches ctx.final n n.toNat f.size = true ↔
        ctx.final.drop (f.size - n.toNat) = replicate n.toNat n) := by
    intro n hn
    have hdrop : (ctx.final.drop (f.size - n.toNat)).length = n.toNat := by
      rw [length_drop]
      omega
    have htake : (ctx.final.take (f.size - n.toNat)).length = f.size - n.toNat := by
      rw [length_take]
      omega
    have hiff := paddingMatches_iff n (ctx.final.take (f.size - n.toNat))
      (ctx.final.drop (f.size - n.toNat)) []
    rwa [take_append_drop, append_nil, hdrop, htake, Nat.sub_add_cancel hn] at hiff
  obtain ⟨n, hn⟩ : ∃ n, n = ctx.final.getD (f.size - 1) 0 := ⟨_, rfl⟩
  rw [← hn]
  constructor
  · intro h
    by_cases hrange : n.toNat = 0 ∨ n.toNat > f.size
    · rw [if_pos hrange] at h
      cases h
    rw [if_neg hrange] at h
    by_cases hpad : paddingMatches ctx.final n n.toNat f.size = true
    · rw [hpad] at h
      cases h
      refine ⟨n.toNat, by omega, by omega, ?_⟩
      rw [UInt8.ofNat_toNat, ← (hmatches n (by omega)).mp hpad, take_append_drop]
    · rw [Bool.eq_false_iff.mpr hpad] at h
      cases h
  · rintro ⟨k, hpos, hle, heq⟩
    have hk : (UInt8.ofNat k).toNat = k := UInt8.toNat_ofNat_of_lt (by
      have : UInt8.size = 256 := rfl
      omega)
    have hlength : rest.length = f.size - k := by
      rw [heq, length_append, length_replicate] at hfinal
      omega
    have hlast : n = UInt8.ofNat k := by
      rw [hn, heq, getD_append_right _ _ _ _ (by omega), getD_replicate _ (by omega)]
    have hpad : paddingMatches ctx.final n n.toNat f.size = true := by
      rw [hlast, hmatches _ (by omega), hk, heq, drop_left' (by omega)]
    rw [if_neg (by rw [hlast, hk]; omega), hpad, hlast, hk, heq, take_left' hlength]
    rfl

/-- **The end of a decryption.**  The final call succeeds on whole blocks, one or more, of which
    the last is padded. -/
theorem evpDecryptFinal_iff {seen out : Bytes} (h : f.Decrypting start seen out ctx) (rest : Bytes)
    : (f.evp.evpDecryptFinal ctx).1 = some rest ↔
      (seen ≠ [] ∧ seen.length % f.size = 0) ∧ ∃ n, 1 ≤ n ∧ n ≤ f.size ∧
        (f.apply start seen).2 = out ++ rest ++ replicate n (UInt8.ofNat n) := by
  have hout := h.out
  by_cases hused : ctx.finalUsed = true
  · have hclosed := h.finalUsed.mp hused
    have hbuf : ctx.buf = [] := by
      rw [h.buf, leftover_of_dvd f.size_pos hclosed.2]
    rw [f.evpDecryptFinal_block h.poisoned h.noPadding hbuf hused (h.final hused)]
    rw [if_pos hused] at hout
    rw [← hout]
    simp only [append_assoc, append_cancel_left_eq]
    exact ⟨fun hfinal => ⟨hclosed, hfinal⟩, fun hfinal => hfinal.2⟩
  · have hnone : (f.evp.evpDecryptFinal ctx).1 = none := by
      have hsize : f.evp.blockSize = f.size := rfl
      have hcustom : f.evp.customCipher = false := rfl
      unfold evpDecryptFinal
      rw [h.poisoned, if_off, hcustom, if_off,
        h.noPadding, if_off, hsize, if_pos f.one_lt_size,
        if_pos (Or.inr (by rw [Bool.eq_false_iff.mpr hused]; rfl))]
    rw [hnone]
    constructor
    · intro hsome
      cases hsome
    · intro hsome
      exact absurd (h.finalUsed.mpr hsome.1) hused

/-- **Decryption in chunks.**  It succeeds with `plain` when the cipher makes `plain` and a
    padding of the whole blocks that came in. -/
theorem decryptStream_iff (start : State) (h : f.Fitting chunks) (plain : Bytes) :
    f.evp.decryptStream start chunks = some plain ↔
      (chunks.flatten ≠ [] ∧ chunks.flatten.length % f.size = 0) ∧ ∃ n, 1 ≤ n ∧ n ≤ f.size ∧
          (f.apply start chunks.flatten).2 = plain ++ replicate n (UInt8.ofNat n) := by
  obtain ⟨out, ctx, hrun, hgood⟩ := f.updates_good f.decrypting_step h (f.decrypting_init start)
  rw [nil_append, nil_append] at hgood
  have hfinal := f.evpDecryptFinal_iff hgood
  unfold decryptStream
  rw [hrun]
  show (f.evp.evpDecryptFinal ctx).1.map (out ++ ·) = some plain ↔ _
  rw [Option.map_eq_some_iff]
  constructor
  · rintro ⟨rest, hrest, rfl⟩
    exact (hfinal rest).mp hrest
  · rintro ⟨hclosed, n, hpos, hle, heq⟩
    have hused := hgood.finalUsed.mpr hclosed
    have hblock := hgood.final hused
    have hout := hgood.out
    rw [if_pos hused] at hout
    -- the padding is in the block that was withheld
    obtain ⟨rest, rfl⟩ : ∃ rest, plain = out ++ rest := by
      have hlengths := congrArg length (hout.trans heq)
      rw [length_append, length_append, length_replicate, hblock] at hlengths
      refine ⟨plain.drop out.length, ?_⟩
      have htake := congrArg (take out.length) (hout.trans heq)
      rw [take_left, take_append_of_le_length (by omega)] at htake
      rw [← take_append_drop out.length plain, ← htake]
      simp
    exact ⟨rest, (hfinal rest).mpr ⟨hclosed, n, hpos, hle, heq⟩, rfl⟩

theorem decryptStream_long (start : State) (h : ¬ f.Fitting chunks) :
    f.evp.decryptStream start chunks = none := by
  have hnone := f.updates_long f.decrypting_step
    (fun _ _ ctx _ _ => f.evpDecryptUpdate_long ctx) h (f.decrypting_init start)
  unfold decryptStream
  generalize updates f.evp.evpDecryptUpdate (evpCipherInit start) chunks = result
    at hnone
  obtain ⟨out, ctx⟩ := result
  cases hnone
  rfl

end BlockFunction

/-! ### Both directions -/

/-- A block cipher: two functions on blocks of the same size, of which the second undoes the
first as long as their states correspond. -/
structure BlockCipher (EncState DecState : Type) where
  encrypt : BlockFunction EncState
  decrypt : BlockFunction DecState
  size_eq : decrypt.size = encrypt.size
  related : EncState → DecState → Prop
  inverse : ∀ state state' block, related state state' → block.length = encrypt.size →
    (decrypt.step state' (encrypt.step state block).2).2 = block ∧
      related (encrypt.step state block).1 (decrypt.step state' (encrypt.step state block).2).1

variable {EncState DecState : Type}

theorem BlockCipher.decrypt_apply (c : BlockCipher EncState DecState) {state : EncState}
    {state' : DecState} (hrelated : c.related state state') {xs : Bytes}
    (hdvd : xs.length % c.encrypt.size = 0) :
    (c.decrypt.apply state' (c.encrypt.apply state xs).2).2 = xs := by
  have hinverse := run_inverse c.encrypt.size_pos c.encrypt.length_step c.inverse hrelated
    (blocks c.encrypt.size xs) (length_of_mem_blocks c.encrypt.size_pos xs)
  have hflatten := flatten_blocks c.encrypt.size_pos xs
  rw [leftover_of_dvd c.encrypt.size_pos hdvd, append_nil] at hflatten
  rw [hflatten] at hinverse
  unfold BlockFunction.apply
  rw [c.size_eq]
  exact hinverse

theorem BlockFunction.length_padded (f : BlockFunction State) (xs : Bytes) :
    (xs ++ f.padding xs).length % f.size = 0 ∧ (xs ++ f.padding xs) ≠ [] := by
  have hlt := Nat.mod_lt xs.length f.size_pos
  have hmod := div_add_mod xs.length f.size
  have hlength : (xs ++ f.padding xs).length = f.size * (xs.length / f.size + 1) := by
    unfold padding
    rw [length_append, length_replicate, mul_succ]
    omega
  constructor
  · rw [hlength, mul_mod_right]
  · rw [← length_pos_iff, hlength]
    exact mul_pos f.size_pos (succ_pos _)

/-- **Streaming encryption and decryption.** For every block cipher and every cut of a stream
    into chunks that a call accepts: encryption gives the cipher's output on the padded
    plaintext; decryption of that, in any such chunks, gives the plaintext; and on every
    ciphertext the updates release the blocks before the last one seen, and the final call
    succeeds exactly on one or more whole blocks of which the last is padded. A call accepts
    `INT_MAX - block_size` bytes at most, and with a longer one the stream fails. -/
theorem evp_streams_exact (c : BlockCipher EncState DecState) :
    (∀ (state : EncState) (chunks : List Bytes), c.encrypt.Fitting chunks →
      c.encrypt.evp.encryptStream state chunks =
        some (c.encrypt.apply state (chunks.flatten ++ c.encrypt.padding chunks.flatten)).2) ∧
    (∀ (state : EncState) (state' : DecState) (chunks chunks' : List Bytes),
      c.related state state' → c.encrypt.Fitting chunks → c.decrypt.Fitting chunks' →
      c.encrypt.evp.encryptStream state chunks = some chunks'.flatten →
        c.decrypt.evp.decryptStream state' chunks' = some chunks.flatten) ∧
    (∀ (state' : DecState) (chunks : List Bytes), c.decrypt.Fitting chunks →
      ∃ ctx, updates c.decrypt.evp.evpDecryptUpdate (evpCipherInit state') chunks =
          (some ((c.decrypt.apply state' chunks.flatten).2.take
            (c.decrypt.size * ((chunks.flatten.length - 1) / c.decrypt.size))), ctx) ∧
        ∀ rest, (c.decrypt.evp.evpDecryptFinal ctx).1 = some rest ↔
          (chunks.flatten ≠ [] ∧ chunks.flatten.length % c.decrypt.size = 0) ∧
            ∃ n, 1 ≤ n ∧ n ≤ c.decrypt.size ∧ (c.decrypt.apply state' chunks.flatten).2 =
              (c.decrypt.apply state' chunks.flatten).2.take
                (c.decrypt.size * ((chunks.flatten.length - 1) / c.decrypt.size)) ++ rest ++
                replicate n (UInt8.ofNat n)) ∧
    (∀ (state : EncState) (state' : DecState) (chunks : List Bytes), ¬ c.encrypt.Fitting chunks →
        c.encrypt.evp.encryptStream state chunks = none ∧
          c.decrypt.evp.decryptStream state' chunks = none) := by
  refine ⟨fun state chunks h => c.encrypt.encryptStream_eq state h, ?_, ?_, ?_⟩
  · intro state state' chunks chunks' hrelated hfits hfits' hencrypt
    obtain ⟨hwhole, hne⟩ := c.encrypt.length_padded chunks.flatten
    rw [c.encrypt.encryptStream_eq state hfits] at hencrypt
    have hcipher := Option.some.inj hencrypt
    have hlength : chunks'.flatten.length =
        (chunks.flatten ++ c.encrypt.padding chunks.flatten).length := by
      rw [← hcipher, BlockFunction.apply, length_stream c.encrypt.size_pos c.encrypt.length_step]
      exact Nat.mul_div_cancel' (Nat.dvd_of_mod_eq_zero hwhole)
    have hlt := Nat.mod_lt chunks.flatten.length c.encrypt.size_pos
    refine (c.decrypt.decryptStream_iff state' hfits' _).mpr ⟨⟨?_, ?_⟩,
      c.encrypt.size - chunks.flatten.length % c.encrypt.size, by omega, ?_, ?_⟩
    · rw [← length_pos_iff, hlength]
      exact length_pos_iff.mpr hne
    · rw [hlength, c.size_eq]
      exact hwhole
    · rw [c.size_eq]
      omega
    · rw [← hcipher, c.decrypt_apply hrelated hwhole]
      rfl
  · intro state' chunks hfits
    obtain ⟨out, ctx, hrun, hgood⟩ := c.decrypt.updates_good c.decrypt.decrypting_step hfits
      (c.decrypt.decrypting_init state')
    rw [nil_append, nil_append] at hgood
    have hreleased := BlockFunction.Decrypting.released c.decrypt hgood
    have hfinal := c.decrypt.evpDecryptFinal_iff hgood
    refine ⟨ctx, ?_, ?_⟩
    · rw [hrun, hreleased]
    · rw [← hreleased]
      exact hfinal
  · intro state state' chunks hlong
    refine ⟨c.encrypt.encryptStream_long state hlong, c.decrypt.decryptStream_long state' ?_⟩
    unfold BlockFunction.Fitting
    rw [c.size_eq]
    exact hlong

/-- A function on blocks of 16 bytes that changes every byte by the number of the block. -/
def countingFunction (change : UInt8 → UInt8 → UInt8) : BlockFunction UInt8 where
  size := 16
  size_pow := ⟨4, rfl⟩
  one_lt_size := by decide
  size_le := by decide
  step := fun state block => (state + 1, block.map (change state))
  length_step := fun _ _ h => by rw [length_map, h]

def countingCipher : BlockCipher UInt8 UInt8 where
  encrypt := countingFunction fun state byte => byte + state
  decrypt := countingFunction fun state byte => byte - state
  size_eq := rfl
  related := fun state state' => state = state'
  inverse := by
    rintro state - block rfl -
    refine ⟨?_, rfl⟩
    show (block.map fun byte => byte + state).map (fun byte => byte - state) = block
    rw [map_map]
    exact (map_congr_left fun byte _ => UInt8.add_sub_cancel byte state).trans
      (map_id block)

/-- One call cannot encrypt `INT_MAX - 15` bytes, two can. -/
theorem evp_long_chunk_not_encrypted :
    countingCipher.encrypt.evp.encryptStream 0 [replicate 2147483632 0] = none ∧
      (countingCipher.encrypt.evp.encryptStream 0
        [replicate 16 0, replicate 2147483616 0]).isSome = true := by
  constructor
  · apply BlockFunction.encryptStream_long
    intro h
    have hlength := h _ (mem_singleton_self _)
    rw [length_replicate] at hlength
    exact absurd hlength (by decide)
  · rw [BlockFunction.encryptStream_eq]
    · rfl
    · intro chunk hchunk
      have hchunk' : chunk = replicate 16 0 ∨ chunk = replicate 2147483616 0 := by
        rwa [mem_cons, mem_singleton] at hchunk
      rcases hchunk' with rfl | rfl
      · rw [length_replicate]
        decide
      · rw [length_replicate]
        decide

end AwsLc
