import AwsLc.ByteString
import AwsLc.Overwrite
import AwsLc.Runs

/-!
# AES key wrap

`AES_wrap_key` passes six times over the blocks of eight bytes of a key and encrypts each of them
together with a register, into which a counter is mixed; `AES_unwrap_key` goes backwards.  The block
cipher is any pair of inverse functions on blocks.
-/

namespace AwsLc

open BigEndian Overwrite Runs List

/-! ### Wrapping and unwrapping -/

structure AesKey where
  encrypt : Bytes → Bytes
  decrypt : Bytes → Bytes
  length_encrypt : ∀ block, block.length = AES_BLOCK_SIZE →
    (encrypt block).length = AES_BLOCK_SIZE
  length_decrypt : ∀ block, block.length = AES_BLOCK_SIZE →
    (decrypt block).length = AES_BLOCK_SIZE
  decrypt_encrypt : ∀ block, block.length = AES_BLOCK_SIZE → decrypt (encrypt block) = block
  encrypt_decrypt : ∀ block, block.length = AES_BLOCK_SIZE → encrypt (decrypt block) = block

def kDefaultIV : FixedBytes 8 := ⟨replicate 8 0xa6, rfl⟩

def kBound : Nat := 6

def mixCounter (a : Bytes) (t : UInt32) : Bytes :=
  let a := a.modify 7 (· ^^^ (t &&& 0xff).toUInt8)
  let a := a.modify 6 (· ^^^ ((t >>> 8) &&& 0xff).toUInt8)
  let a := a.modify 5 (· ^^^ ((t >>> 16) &&& 0xff).toUInt8)
  a.modify 4 (· ^^^ ((t >>> 24) &&& 0xff).toUInt8)

def semiblock (r : Bytes) (offset : Nat) : Bytes := (r.drop offset).take 8

variable (key : AesKey)

/-- The body of the loops of `AES_wrap_key`, on the register and the blocks at `out + 8`. -/
def wrapStep (n j : Nat) (state : Bytes × Bytes) (i : Nat) : Bytes × Bytes :=
  let a := key.encrypt (state.1 ++ semiblock state.2 (8 * (i - 1)))
  (mixCounter (a.take 8) (UInt32.ofNat (n * j + i)), write state.2 (8 * (i - 1)) (a.drop 8))

/-- The loops of `AES_wrap_key`. -/
def wrapLoop (n : Nat) (state : Bytes × Bytes) : Bytes × Bytes :=
  (range kBound).foldl
    (fun state j => (range' 1 n).foldl (wrapStep key n j) state) state

def aesWrapKey (iv : Option (FixedBytes 8)) (inp : Bytes) : Option Bytes :=
  if inp.length > INT_MAX - 8 ∨ inp.length < 16 ∨ inp.length % 8 ≠ 0 then none
  else
    let (a, r) := wrapLoop key (inp.length / 8) ((iv.getD kDefaultIV).bytes, inp)
    some (a ++ r)

/-- The body of the loops of `aes_unwrap_key_inner`. -/
def unwrapStep (n j : Nat) (state : Bytes × Bytes) (i : Nat) : Bytes × Bytes :=
  let a := mixCounter state.1 (UInt32.ofNat (n * j + i))
  let a := key.decrypt (a ++ semiblock state.2 (8 * (i - 1)))
  (a.take 8, write state.2 (8 * (i - 1)) (a.drop 8))

/-- The loops of `aes_unwrap_key_inner`, which count down. -/
def unwrapLoop (n : Nat) (state : Bytes × Bytes) : Bytes × Bytes :=
  (range kBound).reverse.foldl
    (fun state j => (range' 1 n).reverse.foldl (unwrapStep key n j) state) state

def aesUnwrapKeyInner (inp : Bytes) : Option (Bytes × Bytes) :=
  if inp.length > INT_MAX ∨ inp.length < 24 ∨ inp.length % 8 ≠ 0 then none
  else some (unwrapLoop key (inp.length / 8 - 1) (inp.take 8, inp.drop 8))

def aesUnwrapKey (iv : Option (FixedBytes 8)) (inp : Bytes) : Option Bytes := do
  let (calculatedIv, out) ← aesUnwrapKeyInner key inp
  if calculatedIv ≠ (iv.getD kDefaultIV).bytes then none else some out

def kPaddingConstant : Bytes := [0xa6, 0x59, 0x59, 0xa6]

def paddingIv (len : Nat) : FixedBytes 8 where
  bytes := kPaddingConstant ++ beBytes 4 len
  length_eq := by rw [length_append, length_beBytes]; rfl

def paddedLen (len : Nat) : Nat := (len + 7) % 2 ^ 64 / 8 * 8

/-- `AES_wrap_key_padded`, where `alloc` says whether the allocation succeeds. -/
def aesWrapKeyPadded (maxOut : Nat) (alloc : Bool) (inp : Bytes) : Option Bytes :=
  let padded := paddedLen inp.length
  if inp.length = 0 ∨ inp.length > 0xffffffff ∨ (inp.length + 7) % 2 ^ 64 < inp.length ∨
      (padded + 8) % 2 ^ 64 < padded ∨ maxOut < (padded + 8) % 2 ^ 64 then none
  else if inp.length ≤ 8 then
    some (key.encrypt ((paddingIv inp.length).bytes ++
      (inp ++ replicate (8 - inp.length) 0)))
  else if !alloc then none
  else
    aesWrapKey key (some (paddingIv inp.length))
      (inp ++ replicate (padded - inp.length) 0)

/-- The checks of `AES_unwrap_key_padded`, for an input of `inLen` bytes. -/
def checkPadding (inLen : Nat) (iv out : Bytes) : Option Bytes :=
  let claimedLen := beNat (iv.drop 4)
  let ok := iv.take 4 == kPaddingConstant
  let ok := ok && !(claimedLen == 0)
  let ok := ok && ((claimedLen + 2 ^ 64 - 1) % 2 ^ 64 / 8 == (inLen - 9) / 8)
  let ok := ok && (range' (inLen - 15) 7).all
    (fun i => !(decide (claimedLen ≤ i)) || out.getD i 0 == 0)
  if ok then some (out.take claimedLen) else none

def aesUnwrapKeyPadded (maxOut : Nat) (inp : Bytes) : Option Bytes :=
  if inp.length < AES_BLOCK_SIZE ∨ maxOut < inp.length - 8 then none
  else if inp.length = AES_BLOCK_SIZE then
    let block := key.decrypt inp
    checkPadding inp.length (block.take 8) (block.drop 8)
  else do
    let (iv, out) ← aesUnwrapKeyInner key inp
    checkPadding inp.length iv out

/-! ### One step is undone -/

def Sized (n : Nat) (state : Bytes × Bytes) : Prop :=
  state.1.length = 8 ∧ state.2.length = 8 * n

theorem length_mixCounter (a : Bytes) (t : UInt32) : (mixCounter a t).length = a.length := by
  simp [mixCounter]

theorem mixCounter_mixCounter {a : Bytes} (ha : a.length = 8) (t : UInt32) :
    mixCounter (mixCounter a t) t = a := by
  have hcancel (x y : UInt8) : x ^^^ y ^^^ y = x := by
    rw [UInt8.xor_assoc, UInt8.xor_self, UInt8.xor_zero]
  match a, ha with
  | [a₀, a₁, a₂, a₃, a₄, a₅, a₆, a₇], _ =>
    simp only [mixCounter, modify_succ_cons, modify_zero_cons, hcancel]

theorem semiblock_middle {before old after : Bytes} (hold : old.length = 8) :
    semiblock (before ++ (old ++ after)) before.length = old := by
  rw [semiblock, drop_left, ← hold, take_left]

variable {i n : Nat}

theorem split_blocks {r : Bytes} (hr : r.length = 8 * n) (hi : 1 ≤ i ∧ i ≤ n) :
    ∃ before old after, r = before ++ (old ++ after) ∧ before.length = 8 * (i - 1) ∧
      old.length = 8 := by
  refine ⟨r.take (8 * (i - 1)), (r.drop (8 * (i - 1))).take 8,
    (r.drop (8 * (i - 1))).drop 8, ?_, ?_, ?_⟩
  · rw [take_append_drop, take_append_drop]
  · rw [length_take]
    omega
  · rw [length_take, length_drop]
    omega

variable {key}

theorem halves {block : Bytes} (h : block.length = AES_BLOCK_SIZE) :
    (block.take 8).length = 8 ∧ (block.drop 8).length = 8 := by
  rw [length_take, length_drop, h]
  exact ⟨rfl, rfl⟩

theorem wrapStep_middle {j : Nat} {a before old after : Bytes} (ha : a.length = 8)
    (hbefore : before.length = 8 * (i - 1)) (hold : old.length = 8) :
    wrapStep key n j (a, before ++ (old ++ after)) i =
      (mixCounter ((key.encrypt (a ++ old)).take 8) (UInt32.ofNat (n * j + i)),
        before ++ ((key.encrypt (a ++ old)).drop 8 ++ after)) := by
  have hblock : (a ++ old).length = AES_BLOCK_SIZE := by
    rw [length_append, ha, hold]
    rfl
  have hdrop := (halves (key.length_encrypt _ hblock)).2
  unfold wrapStep
  dsimp only
  rw [← hbefore, semiblock_middle hold, write_middle (hold.trans hdrop.symm)]

theorem unwrapStep_middle {j : Nat} {a before old after : Bytes} (ha : a.length = 8)
    (hbefore : before.length = 8 * (i - 1)) (hold : old.length = 8) :
    unwrapStep key n j (a, before ++ (old ++ after)) i =
      ((key.decrypt (mixCounter a (UInt32.ofNat (n * j + i)) ++ old)).take 8, before ++
          ((key.decrypt (mixCounter a (UInt32.ofNat (n * j + i)) ++ old)).drop 8 ++ after)) := by
  have hblock : (mixCounter a (UInt32.ofNat (n * j + i)) ++ old).length = AES_BLOCK_SIZE := by
    rw [length_append, length_mixCounter, ha, hold]
    rfl
  have hdrop := (halves (key.length_decrypt _ hblock)).2
  unfold unwrapStep
  dsimp only
  rw [← hbefore, semiblock_middle hold, write_middle (hold.trans hdrop.symm)]

variable {state : Bytes × Bytes}

theorem wrapStep_sized {j : Nat} (hi : 1 ≤ i ∧ i ≤ n) (hstate : Sized n state) :
    Sized n (wrapStep key n j state i) ∧
      unwrapStep key n j (wrapStep key n j state i) i = state := by
  obtain ⟨a, r⟩ := state
  obtain ⟨ha, hr⟩ := hstate
  dsimp only at ha hr
  obtain ⟨before, old, after, rfl, hbefore, hold⟩ := split_blocks hr hi
  have hblock : (a ++ old).length = AES_BLOCK_SIZE := by
    rw [length_append, ha, hold]
    rfl
  obtain ⟨htake, hdrop⟩ := halves (key.length_encrypt _ hblock)
  have hmixed := (length_mixCounter _ (UInt32.ofNat (n * j + i))).trans htake
  rw [wrapStep_middle ha hbefore hold]
  refine ⟨⟨hmixed, ?_⟩, ?_⟩
  · simp only [length_append, hdrop, hold] at hr ⊢
    exact hr
  · rw [unwrapStep_middle hmixed hbefore hdrop, mixCounter_mixCounter htake,
      take_append_drop, key.decrypt_encrypt _ hblock, take_left' ha, drop_left' ha]

theorem unwrapStep_sized {j : Nat} (hi : 1 ≤ i ∧ i ≤ n) (hstate : Sized n state) :
    Sized n (unwrapStep key n j state i) ∧
      wrapStep key n j (unwrapStep key n j state i) i = state := by
  obtain ⟨a, r⟩ := state
  obtain ⟨ha, hr⟩ := hstate
  dsimp only at ha hr
  obtain ⟨before, old, after, rfl, hbefore, hold⟩ := split_blocks hr hi
  have hmixed := (length_mixCounter a (UInt32.ofNat (n * j + i))).trans ha
  have hblock : (mixCounter a (UInt32.ofNat (n * j + i)) ++ old).length = AES_BLOCK_SIZE := by
    rw [length_append, hmixed, hold]
    rfl
  obtain ⟨htake, hdrop⟩ := halves (key.length_decrypt _ hblock)
  rw [unwrapStep_middle ha hbefore hold]
  refine ⟨⟨htake, ?_⟩, ?_⟩
  · simp only [length_append, hdrop, hold] at hr ⊢
    exact hr
  · rw [wrapStep_middle htake hbefore hdrop, take_append_drop, key.encrypt_decrypt _ hblock,
      take_left' hmixed, drop_left' hmixed, mixCounter_mixCounter ha]

theorem mem_range'_one (hi : i ∈ range' 1 n) : 1 ≤ i ∧ i ≤ n := by
  rw [mem_range'_1] at hi
  omega

theorem wrapPass_sized (j : Nat) (hstate : Sized n state) :
    Sized n ((range' 1 n).foldl (wrapStep key n j) state) ∧
      (range' 1 n).reverse.foldl (unwrapStep key n j)
        ((range' 1 n).foldl (wrapStep key n j) state) = state :=
  foldl_undo (wrapStep key n j) (unwrapStep key n j) (Sized n) (fun i => 1 ≤ i ∧ i ≤ n)
    (fun _ _ hi h => (wrapStep_sized hi h).1) (fun _ _ hi h => (wrapStep_sized hi h).2)
    (fun _ hi => mem_range'_one hi) hstate

theorem unwrapPass_sized (j : Nat) (hstate : Sized n state) :
    Sized n ((range' 1 n).reverse.foldl (unwrapStep key n j) state) ∧
      (range' 1 n).foldl (wrapStep key n j)
        ((range' 1 n).reverse.foldl (unwrapStep key n j) state) = state := by
  have hundo := foldl_undo (unwrapStep key n j) (wrapStep key n j) (Sized n)
    (fun i => 1 ≤ i ∧ i ≤ n) (fun _ _ hi h => (unwrapStep_sized hi h).1)
    (fun _ _ hi h => (unwrapStep_sized hi h).2)
    (fun _ hi => mem_range'_one (mem_reverse.mp hi)) hstate
  rw [reverse_reverse] at hundo
  exact hundo

theorem unwrapLoop_wrapLoop (key : AesKey) (hstate : Sized n state) :
    Sized n (wrapLoop key n state) ∧ unwrapLoop key n (wrapLoop key n state) = state :=
  foldl_undo (fun state j => (range' 1 n).foldl (wrapStep key n j) state)
    (fun state j => (range' 1 n).reverse.foldl (unwrapStep key n j) state) (Sized n)
    (fun _ => True) (fun _ j _ h => (wrapPass_sized j h).1) (fun _ j _ h => (wrapPass_sized j h).2)
    (fun _ _ => trivial) hstate

theorem wrapLoop_unwrapLoop (key : AesKey) (hstate : Sized n state) :
    Sized n (unwrapLoop key n state) ∧ wrapLoop key n (unwrapLoop key n state) = state := by
  have hundo := foldl_undo
    (fun state j => (range' 1 n).reverse.foldl (unwrapStep key n j) state)
    (fun state j => (range' 1 n).foldl (wrapStep key n j) state) (Sized n)
    (fun _ => True) (fun _ j _ h => (unwrapPass_sized j h).1)
    (fun _ j _ h => (unwrapPass_sized j h).2)
    (fun _ (_ : _ ∈ (range kBound).reverse) => trivial) hstate
  rw [reverse_reverse] at hundo
  exact hundo

def BlockCount (n : Nat) : Prop := 2 ≤ n ∧ 8 * n ≤ INT_MAX - 8

variable {inp : Bytes} {iv : Option (FixedBytes 8)}

theorem aesWrapKey_of_blockCount (hn : BlockCount n) (hinp : inp.length = 8 * n) :
    aesWrapKey key iv inp = some ((wrapLoop key n ((iv.getD kDefaultIV).bytes, inp)).1 ++
        (wrapLoop key n ((iv.getD kDefaultIV).bytes, inp)).2) := by
  obtain ⟨hmin, hmax⟩ := hn
  have hdiv : inp.length / 8 = n := by omega
  unfold aesWrapKey
  rw [if_neg (by omega), hdiv]

variable {out : Bytes}

theorem aesWrapKey_length (h : aesWrapKey key iv inp = some out) :
    ∃ n, BlockCount n ∧ inp.length = 8 * n := by
  unfold aesWrapKey at h
  split at h
  · cases h
  · exact ⟨inp.length / 8, ⟨by omega, by omega⟩, by omega⟩

theorem aesUnwrapKeyInner_of_blockCount (key : AesKey) (hn : BlockCount n) (hstate : Sized n state)
    : aesUnwrapKeyInner key (state.1 ++ state.2) = some (unwrapLoop key n state) := by
  obtain ⟨hmin, hmax⟩ := hn
  obtain ⟨a, r⟩ := state
  obtain ⟨ha, hr⟩ := hstate
  dsimp only at ha hr ⊢
  have hlength : (a ++ r).length = 8 * (n + 1) := by
    rw [length_append, ha, hr]
    omega
  have hdiv : (a ++ r).length / 8 - 1 = n := by omega
  unfold aesUnwrapKeyInner
  rw [if_neg, hdiv, take_left' ha, drop_left' ha]
  rw [hlength]
  unfold INT_MAX at hmax ⊢
  omega

theorem aesUnwrapKeyInner_length {result : Bytes × Bytes}
    (h : aesUnwrapKeyInner key inp = some result) :
    ∃ n, BlockCount n ∧ Sized n (inp.take 8, inp.drop 8) := by
  unfold aesUnwrapKeyInner at h
  split at h
  · cases h
  · refine ⟨inp.length / 8 - 1, ⟨by omega, by omega⟩, ?_, ?_⟩
    · rw [length_take]
      omega
    · rw [length_drop]
      omega

/-- `AES_wrap_key` gives what `aes_unwrap_key_inner` takes apart. -/
theorem aesWrapKey_eq_some : aesWrapKey key iv inp = some out ↔
      aesUnwrapKeyInner key out = some ((iv.getD kDefaultIV).bytes, inp) := by
  constructor
  · intro h
    obtain ⟨n, hn, hinp⟩ := aesWrapKey_length h
    have hsized : Sized n ((iv.getD kDefaultIV).bytes, inp) :=
      ⟨(iv.getD kDefaultIV).length_eq, hinp⟩
    obtain ⟨hwrapped, hback⟩ := unwrapLoop_wrapLoop key hsized
    rw [aesWrapKey_of_blockCount hn hinp] at h
    cases h
    rw [aesUnwrapKeyInner_of_blockCount key hn hwrapped, hback]
  · intro h
    obtain ⟨n, hn, hsized⟩ := aesUnwrapKeyInner_length h
    obtain ⟨hunwrapped, hback⟩ := wrapLoop_unwrapLoop key hsized
    have hinner := aesUnwrapKeyInner_of_blockCount key hn hsized
    rw [take_append_drop, h, Option.some_inj] at hinner
    rw [← hinner] at hback hunwrapped
    rw [aesWrapKey_of_blockCount hn hunwrapped.2, hback, take_append_drop]

theorem aesUnwrapKey_eq_some : aesUnwrapKey key iv inp = some out ↔
      aesUnwrapKeyInner key inp = some ((iv.getD kDefaultIV).bytes, out) := by
  unfold aesUnwrapKey
  cases aesUnwrapKeyInner key inp with
  | none => exact ⟨nofun, nofun⟩
  | some result =>
    obtain ⟨calculatedIv, r⟩ := result
    by_cases hiv : calculatedIv = (iv.getD kDefaultIV).bytes
    · subst hiv
      simp
    · simp [hiv]

/-! ### Keys of any length -/

theorem paddedLen_eq {len : Nat} (hlen : len ≤ 0xffffffff) : paddedLen len = (len + 7) / 8 * 8 := by
  unfold paddedLen
  rw [Nat.mod_eq_of_lt (by omega)]

structure PaddedKey (iv out p : Bytes) : Prop where
  pos : 0 < p.length
  short : p.length ≤ 0xffffffff
  iv_eq : iv = (paddingIv p.length).bytes
  length_eq : out.length = (p.length + 7) / 8 * 8
  out_eq : out = p ++ replicate (out.length - p.length) 0

/-- The zeros at the end of the blocks, as they are checked. -/
theorem zeros_iff {len : Nat} (hmin : out.length < len + 8) (hlen : len ≤ out.length)
    (hout : 8 ≤ out.length) : (range' (out.length - 7) 7).all
      (fun i => !(decide (len ≤ i)) || out.getD i 0 == 0) = true ↔
    out = out.take len ++ replicate (out.length - len) 0 := by
  rw [all_eq_true]
  constructor
  · intro hzero
    conv_lhs => rw [← take_append_drop len out]
    congr 1
    rw [eq_replicate_iff]
    refine ⟨length_drop, ?_⟩
    intro byte hbyte
    obtain ⟨i, hi, rfl⟩ := getElem_of_mem hbyte
    rw [length_drop] at hi
    have hcheck := hzero (len + i) (by rw [mem_range'_1]; omega)
    rw [getElem_drop]
    have hget : out.getD (len + i) 0 = out[len + i] := by
      rw [getD_eq_getElem?_getD, getElem?_eq_getElem (by omega)]
      rfl
    rw [hget] at hcheck
    simpa using hcheck
  · intro heq i hi
    rw [mem_range'_1] at hi
    by_cases hle : len ≤ i
    · have hzero : out.getD i 0 = 0 := by
        rw [heq, getD_eq_getElem?_getD, getElem?_append_right (by
          rw [length_take]; omega), getElem?_replicate]
        split <;> rfl
      rw [hzero]
      simp
    · simp [hle]

theorem claimedLen_lt {iv : Bytes} (hiv : iv.length = 8) : beNat (iv.drop 4) < 2 ^ 32 := by
  have hlt := beNat_lt (iv.drop 4)
  have hlength : (iv.drop 4).length = 4 := by rw [length_drop, hiv]
  rw [hlength] at hlt
  omega

theorem take_paddingIv (len : Nat) : (paddingIv len).bytes.take 4 = kPaddingConstant :=
  take_left' rfl

theorem drop_paddingIv {len : Nat} (hlen : len ≤ 0xffffffff) :
    beNat ((paddingIv len).bytes.drop 4) = len := by
  have hdrop : (paddingIv len).bytes.drop 4 = beBytes 4 len := drop_left' rfl
  rw [hdrop]
  exact beNat_beBytes_of_lt (by omega)

variable {p : Bytes}

theorem checkPadding_eq_some {iv : Bytes} (hiv : iv.length = 8) (hmod : out.length % 8 = 0)
    (hmin : 8 ≤ out.length) :
    checkPadding (out.length + 8) iv out = some p ↔ PaddedKey iv out p := by
  have hclaimed := claimedLen_lt hiv
  unfold checkPadding
  dsimp only
  generalize hlen : beNat (iv.drop 4) = len at hclaimed
  have hrange : out.length + 8 - 15 = out.length - 7 := by omega
  rw [hrange]
  constructor
  · intro h
    split at h
    · next hok =>
      rw [Bool.and_eq_true, Bool.and_eq_true, Bool.and_eq_true] at hok
      obtain ⟨⟨⟨hconst, hpos⟩, hdiv⟩, hzero⟩ := hok
      have hpos : len ≠ 0 := by simpa using hpos
      rw [beq_iff_eq] at hdiv
      have hsame : (len + 2 ^ 64 - 1) % 2 ^ 64 = len - 1 := by omega
      rw [hsame] at hdiv
      cases h
      have hle : len ≤ out.length := by omega
      have hp : (out.take len).length = len := by
        rw [length_take]
        omega
      refine ⟨by omega, by omega, ?_, by omega, ?_⟩
      · rw [hp, ← hlen]
        unfold paddingIv
        dsimp only
        have hbytes := beBytes_beNat (iv.drop 4)
        rw [length_drop, hiv] at hbytes
        rw [hbytes, ← eq_of_beq hconst, take_append_drop]
      · rw [hp]
        exact (zeros_iff (by omega) hle hmin).mp hzero
    · cases h
  · rintro ⟨hpos, hshort, hiv_eq, hlength, hout⟩
    have hlen' : len = p.length := by
      rw [← hlen, hiv_eq, drop_paddingIv hshort]
    subst hlen'
    have hle : p.length ≤ out.length := by omega
    have htake : out.take p.length = p := by
      rw [hout, take_left]
    rw [if_pos, htake]
    rw [Bool.and_eq_true, Bool.and_eq_true, Bool.and_eq_true]
    refine ⟨⟨⟨?_, ?_⟩, ?_⟩, ?_⟩
    · rw [hiv_eq, take_paddingIv, beq_self_eq_true]
    · simpa using ne_nil_of_length_pos hpos
    · have hsame : (p.length + 2 ^ 64 - 1) % 2 ^ 64 = p.length - 1 := by omega
      rw [hsame, beq_iff_eq]
      omega
    · rw [zeros_iff (by omega) hle hmin, htake]
      exact hout

def WrapsTo (key : AesKey) (p c : Bytes) : Prop :=
  (c.length = AES_BLOCK_SIZE ∧ PaddedKey ((key.decrypt c).take 8) ((key.decrypt c).drop 8) p) ∨
    ∃ iv out, aesUnwrapKeyInner key c = some (iv, out) ∧ PaddedKey iv out p

theorem aesUnwrapKeyInner_sized {iv : Bytes} (h : aesUnwrapKeyInner key inp = some (iv, out)) :
    iv.length = 8 ∧ out.length % 8 = 0 ∧ 16 ≤ out.length ∧ inp.length = out.length + 8 := by
  obtain ⟨n, hn, hsized⟩ := aesUnwrapKeyInner_length h
  have hinner := aesUnwrapKeyInner_of_blockCount key hn hsized
  rw [take_append_drop, h, Option.some_inj] at hinner
  obtain ⟨hiv, hout⟩ := hinner ▸ (wrapLoop_unwrapLoop key hsized).1
  obtain ⟨htake, hdrop⟩ := hsized
  have hmin := hn.1
  dsimp only at hiv hout htake hdrop
  rw [length_take] at htake
  rw [length_drop] at hdrop
  exact ⟨hiv, by omega, by omega, by omega⟩

theorem aesUnwrapKeyPadded_eq_some {maxOut : Nat} (hmax : inp.length ≤ maxOut + 8) :
    aesUnwrapKeyPadded key maxOut inp = some p ↔ WrapsTo key p inp := by
  unfold aesUnwrapKeyPadded WrapsTo
  by_cases hshort : inp.length < AES_BLOCK_SIZE
  · rw [if_pos (Or.inl hshort)]
    refine ⟨nofun, ?_⟩
    rintro (⟨heq, -⟩ | ⟨iv, out, hinner, -⟩)
    · omega
    · have hsized := aesUnwrapKeyInner_sized hinner
      unfold AES_BLOCK_SIZE at hshort
      omega
  rw [if_neg (by omega)]
  by_cases hblock : inp.length = AES_BLOCK_SIZE
  · rw [if_pos hblock]
    obtain ⟨htake, hdrop⟩ := halves (key.length_decrypt inp hblock)
    have hinp : inp.length = ((key.decrypt inp).drop 8).length + 8 := by
      rw [hdrop]
      exact hblock
    dsimp only
    rw [hinp, checkPadding_eq_some htake (by rw [hdrop]) (by rw [hdrop])]
    constructor
    · exact fun hpadded => Or.inl ⟨by rw [hdrop]; rfl, hpadded⟩
    · rintro (⟨-, hpadded⟩ | ⟨iv, out, hinner, -⟩)
      · exact hpadded
      · have hsized := aesUnwrapKeyInner_sized hinner
        unfold AES_BLOCK_SIZE at hblock
        omega
  · rw [if_neg hblock]
    cases hinner : aesUnwrapKeyInner key inp with
    | none =>
      refine ⟨nofun, ?_⟩
      rintro (⟨heq, -⟩ | ⟨iv, out, hnone, -⟩)
      · exact absurd heq hblock
      · cases hnone
    | some result =>
      obtain ⟨iv, out⟩ := result
      obtain ⟨hiv, hmod, hmin, hlength⟩ := aesUnwrapKeyInner_sized hinner
      rw [hlength]
      refine (checkPadding_eq_some hiv hmod (by omega)).trans ?_
      constructor
      · exact fun hpadded => Or.inr ⟨iv, out, rfl, hpadded⟩
      · rintro (⟨heq, -⟩ | ⟨iv', out', hsome, hpadded⟩)
        · exact absurd (hlength.trans heq) hblock
        · cases hsome
          exact hpadded

theorem wrapsTo_block {c : Bytes} (hpos : 0 < p.length) (hp : p.length ≤ 8) :
    key.encrypt ((paddingIv p.length).bytes ++ (p ++ replicate (8 - p.length) 0)) = c ↔
      WrapsTo key p c := by
  have hpadded : (p ++ replicate (8 - p.length) (0 : UInt8)).length = 8 := by
    rw [length_append, length_replicate]
    omega
  have hblock : ((paddingIv p.length).bytes ++
      (p ++ replicate (8 - p.length) 0)).length = AES_BLOCK_SIZE := by
    rw [length_append, (paddingIv p.length).length_eq, hpadded]
    rfl
  constructor
  · rintro rfl
    refine Or.inl ⟨key.length_encrypt _ hblock, ?_⟩
    rw [key.decrypt_encrypt _ hblock, take_left' (paddingIv p.length).length_eq,
      drop_left' (paddingIv p.length).length_eq]
    exact ⟨hpos, by omega, rfl, by omega, by rw [hpadded]⟩
  · rintro (⟨hlength, hkey⟩ | ⟨iv, out, hinner, hkey⟩)
    · obtain ⟨-, hdrop⟩ := halves (key.length_decrypt c hlength)
      have hout := hkey.out_eq
      rw [hdrop] at hout
      rw [← hkey.iv_eq, ← hout, take_append_drop, key.encrypt_decrypt c hlength]
    · have hsized := aesUnwrapKeyInner_sized hinner
      have hlength := hkey.length_eq
      omega

theorem wrapsTo_blocks {c : Bytes} (hp : 8 < p.length) (hshort : p.length ≤ 0xffffffff) :
    aesWrapKey key (some (paddingIv p.length))
      (p ++ replicate ((p.length + 7) / 8 * 8 - p.length) 0) = some c ↔ WrapsTo key p c := by
  have hpadded : (p ++ replicate ((p.length + 7) / 8 * 8 - p.length) (0 : UInt8)).length =
      (p.length + 7) / 8 * 8 := by
    rw [length_append, length_replicate]
    omega
  rw [aesWrapKey_eq_some]
  constructor
  · intro h
    exact Or.inr ⟨_, _, h, by omega, hshort, rfl, hpadded, by rw [hpadded]⟩
  · rintro (⟨hlength, hkey⟩ | ⟨iv, out, hinner, hkey⟩)
    · obtain ⟨-, hdrop⟩ := halves (key.length_decrypt c hlength)
      have hlength' := hkey.length_eq
      omega
    · rw [← hkey.length_eq, ← hkey.out_eq, hinner, hkey.iv_eq]
      rfl

theorem WrapsTo.length {c : Bytes} (h : WrapsTo key p c) :
    0 < p.length ∧ p.length ≤ 0xffffffff ∧ c.length = (p.length + 7) / 8 * 8 + 8 := by
  rcases h with ⟨hlength, hkey⟩ | ⟨iv, out, hinner, hkey⟩
  · obtain ⟨-, hdrop⟩ := halves (key.length_decrypt c hlength)
    have hlength' := hkey.length_eq
    rw [hdrop] at hlength'
    refine ⟨hkey.pos, hkey.short, ?_⟩
    rw [← hlength']
    exact hlength
  · obtain ⟨-, -, -, hlength⟩ := aesUnwrapKeyInner_sized hinner
    rw [hlength, hkey.length_eq]
    exact ⟨hkey.pos, hkey.short, rfl⟩

theorem aesWrapKeyPadded_eq_some {maxOut : Nat} {c : Bytes} (hmax : c.length ≤ maxOut) :
    aesWrapKeyPadded key maxOut true p = some c ↔ WrapsTo key p c := by
  unfold aesWrapKeyPadded
  dsimp only
  by_cases hlen : 0 < p.length ∧ p.length ≤ 0xffffffff
  · obtain ⟨hpos, hshort⟩ := hlen
    rw [paddedLen_eq hshort]
    by_cases hroom : (p.length + 7) / 8 * 8 + 8 ≤ maxOut
    · rw [if_neg (by omega)]
      by_cases hp : p.length ≤ 8
      · rw [if_pos hp, Option.some_inj]
        exact wrapsTo_block hpos hp
      · rw [if_neg hp]
        exact wrapsTo_blocks (by omega) hshort
    · rw [if_pos (by omega)]
      refine ⟨nofun, fun h => ?_⟩
      have hlength := h.length
      omega
  · rw [if_pos (by omega)]
    refine ⟨nofun, fun h => ?_⟩
    have hlength := h.length
    omega

theorem aesWrapKeyPadded_isSome {maxOut : Nat} :
    (∃ c, aesWrapKeyPadded key maxOut true p = some c) ↔
      0 < p.length ∧ (p.length + 7) / 8 * 8 ≤ INT_MAX - 8 ∧
        (p.length + 7) / 8 * 8 + 8 ≤ maxOut := by
  unfold aesWrapKeyPadded
  dsimp only
  have hINT : INT_MAX = 2147483647 := rfl
  by_cases hlen : 0 < p.length ∧ p.length ≤ 0xffffffff
  · obtain ⟨hpos, hshort⟩ := hlen
    rw [paddedLen_eq hshort]
    by_cases hroom : (p.length + 7) / 8 * 8 + 8 ≤ maxOut
    · rw [if_neg (by omega)]
      by_cases hp : p.length ≤ 8
      · rw [if_pos hp]
        exact ⟨fun _ => by omega, fun _ => ⟨_, rfl⟩⟩
      · have hpadded : (p ++ replicate ((p.length + 7) / 8 * 8 - p.length)
            (0 : UInt8)).length = 8 * ((p.length + 7) / 8) := by
          rw [length_append, length_replicate]
          omega
        rw [if_neg hp]
        change (∃ c, aesWrapKey key _ _ = some c) ↔ _
        constructor
        · rintro ⟨c, hc⟩
          obtain ⟨n, ⟨hmin, hmax⟩, hn⟩ := aesWrapKey_length hc
          rw [hpadded] at hn
          omega
        · rintro ⟨-, hmax, -⟩
          exact ⟨_, aesWrapKey_of_blockCount ⟨by omega, by omega⟩ hpadded⟩
    · rw [if_pos (by omega)]
      exact ⟨nofun, fun h => absurd h.2.2 hroom⟩
  · rw [if_pos (by omega)]
    exact ⟨nofun, fun h => by omega⟩

/-- **Key wrap is a bijection.**  With any block cipher, a key is wrapped to an output exactly if
    the output is unwrapped to the key, with and without padding; keys of every length that the
    functions permit are wrapped. -/
theorem key_wrap_bijection (key : AesKey) :
    (∀ iv p c, aesWrapKey key iv p = some c ↔ aesUnwrapKey key iv c = some p) ∧
    (∀ iv (p : Bytes), (∃ c, aesWrapKey key iv p = some c) ↔
      16 ≤ p.length ∧ p.length ≤ INT_MAX - 8 ∧ p.length % 8 = 0) ∧
    (∀ (maxOut maxOut' : Nat) (p c : Bytes), c.length ≤ maxOut → c.length ≤ maxOut' + 8 →
      (aesWrapKeyPadded key maxOut true p = some c ↔ aesUnwrapKeyPadded key maxOut' c = some p)) ∧
    (∀ (maxOut : Nat) (p : Bytes), (∃ c, aesWrapKeyPadded key maxOut true p = some c) ↔
      0 < p.length ∧ (p.length + 7) / 8 * 8 ≤ INT_MAX - 8 ∧
        (p.length + 7) / 8 * 8 + 8 ≤ maxOut) := by
  refine ⟨?_, ?_, ?_, ?_⟩
  · intro iv p c
    rw [aesWrapKey_eq_some, aesUnwrapKey_eq_some]
  · intro iv p
    constructor
    · rintro ⟨c, hc⟩
      obtain ⟨n, ⟨hmin, hmax⟩, hn⟩ := aesWrapKey_length hc
      omega
    · rintro ⟨hmin, hmax, hmod⟩
      exact ⟨_, aesWrapKey_of_blockCount (n := p.length / 8) ⟨by omega, by omega⟩ (by omega)⟩
  · intro maxOut maxOut' p c hmax hmax'
    rw [aesWrapKeyPadded_eq_some hmax, aesUnwrapKeyPadded_eq_some hmax']
  · intro maxOut p
    exact aesWrapKeyPadded_isSome

/-- A cipher that turns the block around. -/
def reversingKey : AesKey where
  encrypt := reverse
  decrypt := reverse
  length_encrypt _ h := by rwa [length_reverse]
  length_decrypt _ h := by rwa [length_reverse]
  decrypt_encrypt block _ := block.reverse_reverse
  encrypt_decrypt block _ := block.reverse_reverse

/-- A key of two blocks, and one of a byte that is padded. -/
theorem key_wrap_bijection_reversing :
    aesUnwrapKey reversingKey none
        (replicate 8 0xa6 ++ [9, 2, 3, 4, 5, 6, 7, 8, 13, 10, 11, 12, 13, 14, 15, 16]) =
      some [1, 2, 3, 4, 5, 6, 7, 8, 9, 10, 11, 12, 13, 14, 15, 16] ∧
    aesUnwrapKeyPadded reversingKey 8
        [0, 0, 0, 0, 0, 0, 0, 7, 1, 0, 0, 0, 0xa6, 0x59, 0x59, 0xa6] = some [7] := by
  obtain ⟨hwrap, -, hpadded, -⟩ := key_wrap_bijection reversingKey
  exact ⟨(hwrap none _ _).mp (by decide +kernel),
    (hpadded 16 8 _ _ (by decide) (by decide)).mp (by decide +kernel)⟩

end AwsLc
