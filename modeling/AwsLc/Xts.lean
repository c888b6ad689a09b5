import AwsLc.BinaryField
import AwsLc.ByteString
import AwsLc.ConstantTime
import AwsLc.LittleEndian
import AwsLc.Memory

/-!
# XTS mode

`CRYPTO_xts128_encrypt` of `modes/xts.c`.  Every block is combined with a tweak before and after the
block cipher, and the tweak is doubled from block to block.  The input and the output are two places
in one memory.
-/

namespace AwsLc

open Memory LittleEndian Polynomial List BinaryField Nat UInt64

/-- `XTS128_CONTEXT`: the block functions under their keys. -/
structure Xts128Context where
  block1 : Bytes → Bytes
  block2 : Bytes → Bytes

def xtsDouble (tweak : Bytes) : Bytes :=
  let u0 := ofNat (leNat (tweak.take 8))
  let u1 := ofNat (leNat (tweak.drop 8))
  let res := (0x87 : UInt64) &&& (u1.toInt64 >>> 63).toUInt64
  let carry := u0 >>> 63
  leBytes 8 ((u0 <<< 1) ^^^ res).toNat ++ leBytes 8 ((u1 <<< 1) ||| carry).toNat

variable (block1 : Bytes → Bytes)

def xtsCrypt (tweak scratch : Bytes) : Bytes :=
  xorBytes (block1 (xorBytes scratch tweak)) tweak

/-- The variables of `CRYPTO_xts128_encrypt`. -/
structure XtsState where
  mem : Bytes
  inp : Nat
  out : Nat
  len : Nat
  tweak : Bytes
  scratch : Bytes

def xtsLoop (block1 : Bytes → Bytes) (state : XtsState) : Bytes ⊕ XtsState :=
  if state.len ≥ 16 then
    let scratch := xtsCrypt block1 state.tweak (slice state.mem state.inp 16)
    let mem := memcpyAt state.mem state.out scratch
    let len := state.len - 16
    if len = 0 then .inl mem
    else
      xtsLoop block1
        { mem
          inp := state.inp + 16
          out := state.out + 16
          len
          tweak := xtsDouble state.tweak
          scratch }
  else .inr state
termination_by state.len

def xtsStealStep (inp out : Nat) (state : Bytes × Bytes) (i : Nat) : Bytes × Bytes :=
  let c := state.1.getD (inp + i) 0
  (state.1.set (out + i) (state.2.getD i 0), state.2.set i c)

def xtsSteal (mem scratch : Bytes) (inp out len : Nat) : Bytes × Bytes :=
  (range len).foldl (xtsStealStep inp out) (mem, scratch)

variable (enc : Bool)

/-- `CRYPTO_xts128_encrypt` after the loop. -/
def xtsTail (state : XtsState) : Bytes :=
  if enc then
    let (mem, scratch) := xtsSteal state.mem state.scratch state.inp state.out state.len
    memcpyAt mem (state.out - 16) (xtsCrypt block1 state.tweak scratch)
  else
    let tweak1 := xtsDouble state.tweak
    let scratch := xtsCrypt block1 tweak1 (slice state.mem state.inp 16)
    let (mem, scratch) := xtsSteal state.mem scratch (state.inp + 16) (state.out + 16) state.len
    memcpyAt mem state.out (xtsCrypt block1 state.tweak scratch)

def xtsRun (state : XtsState) : Bytes :=
  match xtsLoop block1 state with
  | .inl mem => mem
  | .inr state => xtsTail block1 enc state

def cryptoXts128Encrypt (ctx : Xts128Context) (iv mem : Bytes) (inp out len : Nat) (enc : Bool) :
    Nat × Bytes :=
  if len < 16 then (0, mem)
  else
    let tweak := ctx.block2 iv
    let len := if !enc ∧ len % 16 ≠ 0 then len - 16 else len
    (1, xtsRun ctx.block1 enc { mem, inp, out, len, tweak, scratch := [] })

/-! ### The mode -/

def xtsMulX (tweak : Bytes) : Bytes :=
  leBytes 16 (mulX 0x87#128 (BitVec.ofNat 128 (leNat tweak))).toNat

/-- XTS encryption of at least a block, as IEEE 1619 has it: the last two blocks steal. -/
def xtsEncrypt (encrypt : Bytes → Bytes) (tweak data : Bytes) : Bytes :=
  if data.length ≤ 16 then xtsCrypt encrypt tweak data
  else if data.length < 32 then
    let cc := xtsCrypt encrypt tweak (data.take 16)
    let pp := data.drop 16 ++ cc.drop (data.length - 16)
    xtsCrypt encrypt (xtsMulX tweak) pp ++ cc.take (data.length - 16)
  else
    xtsCrypt encrypt tweak (data.take 16) ++
      xtsEncrypt encrypt (xtsMulX tweak) (data.drop 16)
termination_by data.length
decreasing_by
  rw [length_drop]
  omega

def xtsDecrypt (decrypt : Bytes → Bytes) (tweak data : Bytes) : Bytes :=
  if data.length ≤ 16 then xtsCrypt decrypt tweak data
  else if data.length < 32 then
    let pp := xtsCrypt decrypt (xtsMulX tweak) (data.take 16)
    let cc := data.drop 16 ++ pp.drop (data.length - 16)
    xtsCrypt decrypt tweak cc ++ pp.take (data.length - 16)
  else
    xtsCrypt decrypt tweak (data.take 16) ++
      xtsDecrypt decrypt (xtsMulX tweak) (data.drop 16)
termination_by data.length
decreasing_by
  rw [length_drop]
  omega

/-! ### The tweak -/

theorem leBytes_mod (length value : Nat) :
    leBytes length (value % 256 ^ length) = leBytes length value := by
  rw [← leNat_leBytes, leBytes_leNat (length_leBytes length value)]

theorem signMask_eq (word : UInt64) : (word.toInt64 >>> 63).toUInt64 = maskW (topBit word) := by
  rw [← UInt64.toBitVec_inj]
  have hshift : (word.toInt64 >>> 63).toUInt64.toBitVec = word.toBitVec.sshiftRight 63 := rfl
  rw [hshift, topBit]
  apply BitVec.eq_of_getLsbD_eq
  intro i hi
  rw [BitVec.getLsbD_sshiftRight, decide_eq_false (by omega), Bool.not_false, Bool.true_and]
  have hbit : (if 63 + i < 64 then word.toBitVec.getLsbD (63 + i) else word.toBitVec.msb) =
      word.toBitVec.msb := by
    by_cases hzero : 63 + i < 64
    · rw [if_pos hzero, show i = 0 by omega, BitVec.msb_eq_getLsbD_last]
    · rw [if_neg hzero]
  rw [hbit]
  cases word.toBitVec.msb with
  | false => simp [maskW]
  | true =>
    rw [show (maskW true).toBitVec = BitVec.allOnes 64 by decide, BitVec.getLsbD_allOnes]
    exact decide_eq_true hi |>.symm

theorem toNat_reduction (top : Bool) :
    (if top then 0x87#128 else 0).toNat = ((0x87 : UInt64) &&& maskW top).toNat := by
  cases top <;> rfl

theorem toNat_double (n : Nat) : (BitVec.ofNat 128 n <<< 1).toNat = 2 * n % 2 ^ 128 := by
  rw [BitVec.toNat_shiftLeft, BitVec.toNat_ofNat, shiftLeft_eq]
  omega

theorem xtsDouble_low {a b : Nat} (ha : a < 2 ^ 64) : ((ofNat a <<< 1) ^^^
        ((0x87 : UInt64) &&& ((ofNat b).toInt64 >>> 63).toUInt64)).toNat =
      (BitVec.ofNat 128 (a + 2 ^ 64 * b) <<< 1 ^^^
        (if topBit (UInt64.ofNat b) then 0x87#128 else 0)).toNat % 2 ^ 64 := by
  have hsmall := ((0x87 : UInt64) &&& maskW (topBit (ofNat b))).toNat_lt
  have hshift : (ofNat a <<< 1).toNat = 2 * a % 2 ^ 64 := by
    rw [UInt64.toNat_shiftLeft, UInt64.toNat_ofNat_of_lt' ha, shiftLeft_eq]
    change a * 2 ^ 1 % 2 ^ 64 = _
    omega
  rw [signMask_eq, UInt64.toNat_xor, BitVec.toNat_xor, toNat_reduction, toNat_double,
    xor_mod_two_pow, mod_eq_of_lt hsmall, hshift]
  congr 1
  omega

/-- The high word, with the bit that the low word carries. -/
theorem xtsDouble_high {a b : Nat} (ha : a < 2 ^ 64) (hb : b < 2 ^ 64) :
    ((ofNat b <<< 1) ||| (ofNat a >>> 63)).toNat = (BitVec.ofNat 128 (a + 2 ^ 64 * b) <<< 1 ^^^
        (if topBit (UInt64.ofNat b) then 0x87#128 else 0)).toNat / 2 ^ 64 := by
  have hsmall := ((0x87 : UInt64) &&& maskW (topBit (ofNat b))).toNat_lt
  have hshift : (ofNat b <<< 1).toNat = (b % 2 ^ 63) <<< 1 := by
    rw [UInt64.toNat_shiftLeft, UInt64.toNat_ofNat_of_lt' hb, shiftLeft_eq, shiftLeft_eq]
    change b * 2 ^ 1 % 2 ^ 64 = _
    omega
  have hcarry : (ofNat a >>> 63).toNat = a / 2 ^ 63 := by
    rw [UInt64.toNat_shiftRight, UInt64.toNat_ofNat_of_lt' ha, shiftRight_eq_div_pow]
    rfl
  rw [BitVec.toNat_xor, toNat_reduction, toNat_double, xor_div_two_pow,
    div_eq_of_lt hsmall, xor_zero, UInt64.toNat_or, hshift, hcarry,
    ← shiftLeft_add_eq_or_of_lt (by omega), shiftLeft_eq]
  omega

theorem xtsDouble_eq {tweak : Bytes} (h : tweak.length = 16) : xtsDouble tweak = xtsMulX tweak := by
  have hlow : (tweak.take 8).length = 8 := by
    rw [length_take, h]
    rfl
  have hhigh : (tweak.drop 8).length = 8 := by
    rw [length_drop, h]
  have ha := leNat_lt (tweak.take 8)
  have hb := leNat_lt (tweak.drop 8)
  rw [hlow] at ha
  rw [hhigh] at hb
  have hvalue : leNat tweak = leNat (tweak.take 8) + 2 ^ 64 * leNat (tweak.drop 8) := by
    have happend := leNat_append (tweak.take 8) (tweak.drop 8)
    rwa [take_append_drop, hlow] at happend
  unfold xtsDouble xtsMulX
  dsimp only
  rw [hvalue]
  generalize leNat (tweak.take 8) = a at ha ⊢
  generalize leNat (tweak.drop 8) = b at hb ⊢
  have hmsb : (BitVec.ofNat 128 (a + 2 ^ 64 * b)).msb = topBit (ofNat b) := by
    rw [topBit_eq, toNat_ofNat_of_lt' hb, BitVec.msb_eq_decide, BitVec.toNat_ofNat]
    apply decide_eq_decide.mpr
    omega
  rw [mulX, hmsb, leBytes_append 8 8, xtsDouble_low ha, xtsDouble_high ha hb]
  congr 1
  exact leBytes_mod 8 _

@[simp] theorem length_xtsMulX (tweak : Bytes) : (xtsMulX tweak).length = 16 :=
  length_leBytes 16 _

/-- After `k` rounds the first `k` bytes of the scratch block and the input have swapped places. -/
theorem xtsSteal_eq {mem scratch : Bytes} {inp out len : Nat} (hplaced : Placed mem inp out len)
    (hlen : len ≤ scratch.length) : xtsSteal mem scratch inp out len =
      (memcpyAt mem out (scratch.take len), slice mem inp len ++ scratch.drop len) := by
  obtain ⟨hread, hwrite, hapart⟩ := hplaced
  induction len with
  | zero => simp [xtsSteal, memcpyAt]
  | succ k ih =>
    have hbefore := ih (by omega) (by omega) (by omega) (by omega)
    have htake : (scratch.take k).length = k := by
      rw [length_take]
      omega
    have hslice : (slice mem inp k).length = k := length_slice (by omega)
    -- the byte that is read has not been written in the rounds before
    have hbyte : (memcpyAt mem out (scratch.take k)).getD (inp + k) 0 = mem.getD (inp + k) 0 := by
      rw [getD_eq_getElem?_getD, getD_eq_getElem?_getD,
        getElem?_memcpyAt (by omega), if_neg (by omega)]
    have hdrop : scratch.drop k = scratch.getD k 0 :: scratch.drop (k + 1) := by
      rw [drop_eq_getElem_cons (by omega), getD_eq_getElem?_getD,
        getElem?_eq_getElem (by omega)]
      rfl
    have hold : (slice mem inp k ++ scratch.drop k).getD k 0 = scratch.getD k 0 := by
      rw [hdrop, getD_eq_getElem?_getD, getElem?_append_right (by omega), hslice,
        Nat.sub_self]
      rfl
    unfold xtsSteal at hbefore ⊢
    rw [range_succ, foldl_append, hbefore]
    simp only [foldl_cons, foldl_nil, xtsStealStep, hbyte, hold]
    congr 1
    · have hlast : scratch.take (k + 1) = scratch.take k ++ [scratch.getD k 0] := by
        rw [take_add, hdrop]
        rfl
      rw [hlast, ← memcpyAt_append (by omega) htake, set_eq_memcpyAt]
      rw [length_memcpyAt (by omega)]
      omega
    · rw [set_append_right _ _ (by omega), hslice, Nat.sub_self, hdrop, set_cons_zero,
        slice_add, slice_one (by omega) 0, append_assoc]
      rfl

theorem xtsRun_step {state : XtsState} (hlen : 16 < state.len) : xtsRun block1 enc state =
      xtsRun block1 enc
        { mem := memcpyAt state.mem state.out
            (xtsCrypt block1 state.tweak (slice state.mem state.inp 16))
          inp := state.inp + 16
          out := state.out + 16
          len := state.len - 16
          tweak := xtsDouble state.tweak
          scratch := xtsCrypt block1 state.tweak (slice state.mem state.inp 16) } := by
  unfold xtsRun
  rw [xtsLoop, if_pos (by omega)]
  dsimp only
  rw [if_neg (by omega)]

theorem xtsRun_last {state : XtsState} (hlen : state.len = 16) : xtsRun block1 enc state =
      memcpyAt state.mem state.out
        (xtsCrypt block1 state.tweak (slice state.mem state.inp 16)) := by
  unfold xtsRun
  rw [xtsLoop, if_pos (by omega)]
  dsimp only
  rw [if_pos (by omega)]

theorem xtsRun_tail {state : XtsState}
    (hlen : state.len < 16) : xtsRun block1 enc state = xtsTail block1 enc state := by
  unfold xtsRun
  rw [xtsLoop, if_neg (by omega)]

def KeepsBlocks : Prop :=
  ∀ block, block.length = 16 → (block1 block).length = 16

theorem length_xtsCrypt {block1 : Bytes → Bytes} (hblocks : KeepsBlocks block1)
    {tweak scratch : Bytes} (htweak : tweak.length = 16) (hscratch : scratch.length = 16) :
    (xtsCrypt block1 tweak scratch).length = 16 := by
  have hinner : (xorBytes scratch tweak).length = 16 := by
    rw [length_xorBytes (hscratch.trans htweak.symm), hscratch]
  have hblock := hblocks _ hinner
  rw [xtsCrypt, length_xorBytes (hblock.trans htweak.symm), hblock]

variable {decrypt encrypt : Bytes → Bytes}

theorem xtsCrypt_inverse (hblocks : KeepsBlocks encrypt)
    (hinverse : ∀ block, block.length = 16 → decrypt (encrypt block) = block)
    {tweak scratch : Bytes} (htweak : tweak.length = 16) (hscratch : scratch.length = 16) :
    xtsCrypt decrypt tweak (xtsCrypt encrypt tweak scratch) = scratch := by
  have hinner : (xorBytes scratch tweak).length = 16 := by
    rw [length_xorBytes (hscratch.trans htweak.symm), hscratch]
  have hblock := hblocks _ hinner
  unfold xtsCrypt
  rw [xorBytes_comm (encrypt _) tweak, xorBytes_comm (xorBytes tweak _) tweak,
    xorBytes_xorBytes (by omega), hinverse _ hinner, xorBytes_comm scratch tweak,
    xorBytes_comm (xorBytes tweak _) tweak, xorBytes_xorBytes (by omega)]

/-- The first block of the input and what follows it. -/
theorem slice_split {mem : Bytes} {inp len : Nat} (hlen : 16 ≤ len)
    (hread : inp + len ≤ mem.length) :
    ∃ rest, len = 16 + rest ∧ (slice mem inp len).take 16 = slice mem inp 16 ∧
      (slice mem inp len).drop 16 = slice mem (inp + 16) rest := by
  obtain ⟨rest, rfl⟩ : ∃ rest, len = 16 + rest := ⟨len - 16, by omega⟩
  have hfirst : (slice mem inp 16).length = 16 := length_slice (by omega)
  rw [slice_add]
  exact ⟨rest, rfl, take_left' hfirst, drop_left' hfirst⟩

/-! ### Encryption -/

/-- The run of the source on `len` bytes stores their encryption. -/
theorem xtsRun_encrypt (hblocks : KeepsBlocks encrypt) (len : Nat) (hlen : 16 ≤ len) (mem : Bytes)
    (inp out : Nat) (hplaced : Placed mem inp out len) (tweak scratch : Bytes)
    (htweak : tweak.length = 16) : xtsRun encrypt true { mem, inp, out, len, tweak, scratch } =
      memcpyAt mem out (xtsEncrypt encrypt tweak (slice mem inp len)) := by
  have hlength : (slice mem inp len).length = len := length_slice hplaced.read
  have hfirst : (slice mem inp 16).length = 16 := length_slice (by have := hplaced.read; omega)
  have hcrypt := length_xtsCrypt hblocks htweak hfirst
  by_cases hone : len = 16
  · subst hone
    rw [xtsRun_last _ _ rfl, xtsEncrypt, if_pos (by omega)]
  · obtain ⟨rest, rfl, htake, hdrop⟩ := slice_split hlen hplaced.read
    have hplaced' := hplaced.advance hcrypt
    have hread := hplaced.slice_advance hcrypt
    have hfits : out ≤ mem.length := by
      have hwrite := hplaced.write
      omega
    rw [xtsRun_step _ _ (by change 16 < 16 + rest; omega), xtsEncrypt,
      if_neg (by omega), hlength, htake, hdrop, xtsDouble_eq htweak]
    dsimp only
    rw [Nat.add_sub_cancel_left]
    by_cases htwo : 16 + rest < 32
    · -- the last block is not full
      have hnext : (slice mem (inp + 16) rest ++
          (xtsCrypt encrypt tweak (slice mem inp 16)).drop rest).length = 16 := by
        rw [length_append, length_drop, hcrypt, ← hread, length_slice hplaced'.read]
        omega
      have hlast := length_xtsCrypt hblocks (length_xtsMulX tweak) hnext
      rw [if_pos htwo, xtsRun_tail _ _ (by change rest < 16; omega), xtsTail, if_pos rfl,
        xtsSteal_eq hplaced' (by rw [hcrypt]; omega), hread]
      dsimp only
      rw [Nat.add_sub_cancel, memcpyAt_append hfits hcrypt,
        memcpyAt_overwrite hfits (hcrypt.trans hlast.symm)]
    · have hrest := xtsRun_encrypt hblocks rest (by omega) _ _ _ hplaced'
        (xtsMulX tweak) (xtsCrypt encrypt tweak (slice mem inp 16)) (length_xtsMulX tweak)
      rw [if_neg htwo, hrest, hread, memcpyAt_append hfits hcrypt]
termination_by len

/-! ### Decryption -/

def xtsHeldLen (len : Nat) : Nat := if len % 16 ≠ 0 then len - 16 else len

/-- The run of the source on `len` bytes stores their decryption. -/
theorem xtsRun_decrypt (hblocks : KeepsBlocks decrypt) (len : Nat) (hlen : 16 ≤ len) (mem : Bytes)
    (inp out : Nat) (hplaced : Placed mem inp out len) (tweak scratch : Bytes)
    (htweak : tweak.length = 16) :
    xtsRun decrypt false { mem, inp, out, len := xtsHeldLen len, tweak, scratch } =
      memcpyAt mem out (xtsDecrypt decrypt tweak (slice mem inp len)) := by
  have hlength : (slice mem inp len).length = len := length_slice hplaced.read
  have hfirst : (slice mem inp 16).length = 16 := length_slice (by have := hplaced.read; omega)
  by_cases hone : len = 16
  · subst hone
    rw [xtsRun_last _ _ rfl, xtsDecrypt, if_pos (by omega)]
  · obtain ⟨rest, rfl, htake, hdrop⟩ := slice_split hlen hplaced.read
    have hfits : out ≤ mem.length := by
      have hwrite := hplaced.write
      omega
    rw [xtsDecrypt, if_neg (by omega), hlength, htake, hdrop]
    by_cases htwo : 16 + rest < 32
    · -- the last block is not full, and the block before it has been held back
      have hheld : xtsHeldLen (16 + rest) = rest := by
        unfold xtsHeldLen
        rw [if_pos (by omega)]
        omega
      have hcrypt := length_xtsCrypt hblocks (length_xtsMulX tweak) hfirst
      have hnext : (slice mem (inp + 16) rest ++
          (xtsCrypt decrypt (xtsMulX tweak) (slice mem inp 16)).drop rest).length = 16 := by
        rw [length_append, length_drop, hcrypt, length_slice hplaced.drop.read]
        omega
      have hlast := length_xtsCrypt hblocks htweak hnext
      have hroom : out + 16 ≤ mem.length := by
        have hwrite := hplaced.write
        omega
      rw [if_pos htwo, hheld, xtsRun_tail _ _ (by change rest < 16; omega), xtsTail,
        if_neg Bool.false_ne_true, xtsDouble_eq htweak]
      dsimp only
      rw [xtsSteal_eq hplaced.drop (by omega), Nat.add_sub_cancel_left]
      dsimp only
      rw [memcpyAt_prepend hroom hlast]
    · have hcrypt := length_xtsCrypt hblocks htweak hfirst
      have hheld : xtsHeldLen (16 + rest) = 16 + xtsHeldLen rest := by
        unfold xtsHeldLen
        split <;> split <;> omega
      have hmore : 0 < xtsHeldLen rest := by
        unfold xtsHeldLen
        split <;> omega
      have hread := hplaced.slice_advance hcrypt
      have hrest := xtsRun_decrypt hblocks rest (by omega) _ _ _ (hplaced.advance hcrypt)
        (xtsMulX tweak) (xtsCrypt decrypt tweak (slice mem inp 16)) (length_xtsMulX tweak)
      rw [if_neg htwo, hheld, xtsRun_step _ _ (by change 16 < 16 + xtsHeldLen rest; omega)]
      dsimp only
      rw [Nat.add_sub_cancel_left, xtsDouble_eq htweak, hrest, hread,
        memcpyAt_append hfits hcrypt]
termination_by len

theorem length_xtsEncrypt (hblocks : KeepsBlocks encrypt) (tweak data : Bytes)
    (htweak : tweak.length = 16) (hdata : 16 ≤ data.length) :
    (xtsEncrypt encrypt tweak data).length = data.length := by
  have hfirst : (data.take 16).length = 16 := by
    rw [length_take, min_eq_left hdata]
  have hcrypt := length_xtsCrypt hblocks htweak hfirst
  rw [xtsEncrypt]
  by_cases hone : data.length ≤ 16
  · rw [if_pos hone, length_xtsCrypt hblocks htweak (by omega)]
    omega
  · rw [if_neg hone]
    by_cases htwo : data.length < 32
    · have hnext : (data.drop 16 ++ (xtsCrypt encrypt tweak (data.take 16)).drop
          (data.length - 16)).length = 16 := by
        rw [length_append, length_drop, length_drop, hcrypt]
        omega
      rw [if_pos htwo]
      dsimp only
      rw [length_append, length_take, hcrypt,
        length_xtsCrypt hblocks (length_xtsMulX tweak) hnext]
      omega
    · rw [if_neg htwo, length_append, hcrypt,
        length_xtsEncrypt hblocks _ _ (length_xtsMulX tweak) (by rw [length_drop]; omega),
        length_drop]
      omega
termination_by data.length
decreasing_by
  rw [length_drop]
  omega

theorem xtsDecrypt_xtsEncrypt (hblocks : KeepsBlocks encrypt)
    (hinverse : ∀ block, block.length = 16 → decrypt (encrypt block) = block) (tweak data : Bytes)
    (htweak : tweak.length = 16) (hdata : 16 ≤ data.length) :
    xtsDecrypt decrypt tweak (xtsEncrypt encrypt tweak data) = data := by
  have hlength := length_xtsEncrypt hblocks tweak data htweak hdata
  have hfirst : (data.take 16).length = 16 := by
    rw [length_take, min_eq_left hdata]
  have hcrypt := length_xtsCrypt hblocks htweak hfirst
  rw [xtsDecrypt, hlength]
  by_cases hone : data.length ≤ 16
  · rw [if_pos hone, xtsEncrypt, if_pos hone, xtsCrypt_inverse hblocks hinverse htweak (by omega)]
  · rw [if_neg hone]
    by_cases htwo : data.length < 32
    · rw [if_pos htwo, xtsEncrypt, if_neg hone, if_pos htwo]
      dsimp only
      have hrest : (data.drop 16).length = data.length - 16 := length_drop
      generalize hcc : xtsCrypt encrypt tweak (data.take 16) = cc at hcrypt ⊢
      have hnext : (data.drop 16 ++ cc.drop (data.length - 16)).length = 16 := by
        rw [length_append, length_drop, length_drop, hcrypt]
        omega
      have hlast := length_xtsCrypt hblocks (length_xtsMulX tweak) hnext
      rw [take_left' hlast, drop_left' hlast,
        xtsCrypt_inverse hblocks hinverse (length_xtsMulX tweak) hnext,
        drop_left' hrest, take_left' hrest, take_append_drop, ← hcc,
        xtsCrypt_inverse hblocks hinverse htweak hfirst, take_append_drop]
    · have hrest := xtsDecrypt_xtsEncrypt hblocks hinverse (xtsMulX tweak) (data.drop 16)
        (length_xtsMulX tweak) (by rw [length_drop]; omega)
      rw [if_neg htwo, xtsEncrypt, if_neg hone, if_neg htwo, take_left' hcrypt,
        drop_left' hcrypt, hrest, xtsCrypt_inverse hblocks hinverse htweak hfirst,
        take_append_drop]
termination_by data.length
decreasing_by
  rw [length_drop]
  omega

structure XtsKeys where
  encrypt1 : Bytes → Bytes
  decrypt1 : Bytes → Bytes
  encrypt2 : Bytes → Bytes
  keepsEncrypt1 : KeepsBlocks encrypt1
  keepsDecrypt1 : KeepsBlocks decrypt1
  keepsEncrypt2 : KeepsBlocks encrypt2
  decrypt1_encrypt1 : ∀ block, block.length = 16 → decrypt1 (encrypt1 block) = block

variable (keys : XtsKeys)

def XtsKeys.encryptContext : Xts128Context := ⟨keys.encrypt1, keys.encrypt2⟩

def XtsKeys.decryptContext : Xts128Context := ⟨keys.decrypt1, keys.encrypt2⟩

theorem cryptoXts128Encrypt_encrypt (iv : FixedBytes 16) {mem : Bytes}
    {inp out len : Nat} (hlen : 16 ≤ len) (hplaced : Placed mem inp out len) :
    cryptoXts128Encrypt keys.encryptContext iv.bytes mem inp out len true = (1, memcpyAt mem out
        (xtsEncrypt keys.encrypt1 (keys.encrypt2 iv.bytes) (slice mem inp len))) := by
  have htweak := keys.keepsEncrypt2 iv.bytes iv.length_eq
  have hrun := xtsRun_encrypt keys.keepsEncrypt1 len hlen mem inp out hplaced _ [] htweak
  rw [cryptoXts128Encrypt, if_neg (by omega)]
  exact congrArg (Prod.mk 1) hrun

theorem cryptoXts128Encrypt_decrypt (iv : FixedBytes 16) {mem : Bytes}
    {inp out len : Nat} (hlen : 16 ≤ len) (hplaced : Placed mem inp out len) :
    cryptoXts128Encrypt keys.decryptContext iv.bytes mem inp out len false = (1, memcpyAt mem out
        (xtsDecrypt keys.decrypt1 (keys.encrypt2 iv.bytes) (slice mem inp len))) := by
  have htweak := keys.keepsEncrypt2 iv.bytes iv.length_eq
  have hrun := xtsRun_decrypt keys.keepsDecrypt1 len hlen mem inp out hplaced _ [] htweak
  rw [cryptoXts128Encrypt, if_neg (by omega)]
  simp only [Bool.not_false, true_and]
  exact congrArg (Prod.mk 1) hrun

/-! ### The field of the tweaks -/

/-- The polynomial of the field with `2 ^ 128` elements. -/
noncomputable def xtsModulus : (ZMod 2)[X] := X ^ 128 + (X ^ 7 + X ^ 2 + X + 1)

/-- A tweak as an element of the field. -/
noncomputable def tweakElement (tweak : Bytes) : AdjoinRoot xtsModulus :=
  AdjoinRoot.mk xtsModulus (poly (BitVec.ofNat 128 (leNat tweak)))

theorem poly_reduction : poly 0x87#128 = X ^ 7 + X ^ 2 + X + 1 := by
  have hbits : 0x87#128 = BitVec.twoPow 128 7 ^^^ BitVec.twoPow 128 2 ^^^ BitVec.twoPow 128 1 ^^^
      BitVec.twoPow 128 0 := by decide
  rw [hbits, poly_xor, poly_xor, poly_xor,
    poly_twoPow (by decide), poly_twoPow (by decide),
    poly_twoPow (by decide), poly_twoPow (by decide), pow_one, pow_zero]

theorem xtsModulus_eq : xtsModulus = X ^ 128 + poly 0x87#128 := by
  unfold xtsModulus
  exact congrArg _ poly_reduction.symm

theorem tweakElement_xtsMulX (tweak : Bytes) :
    tweakElement (xtsMulX tweak) = AdjoinRoot.root xtsModulus * tweakElement tweak := by
  have hvalue : BitVec.ofNat 128 (leNat (xtsMulX tweak)) =
      mulX 0x87#128 (BitVec.ofNat 128 (leNat tweak)) := by
    apply BitVec.eq_of_toNat_eq
    rw [xtsMulX, leNat_leBytes, BitVec.toNat_ofNat, show (256 : Nat) ^ 16 = 2 ^ 128 by decide,
      mod_mod, BitVec.toNat_mod_cancel]
  unfold tweakElement
  rw [hvalue, mulX_class (by decide) xtsModulus_eq]

/-- **XTS with ciphertext stealing.**  Encryption of at least a block is XTS encryption, decryption
    returns the plaintext, and shorter inputs are refused; the input and the output may be the same
    buffer.  The tweak of the next block is `x` times the tweak in the field with `2 ^ 128`
    elements. -/
theorem xts_stealing_exact (iv : FixedBytes 16) (mem : Bytes) (inp out len : Nat)
    (hplaced : Placed mem inp out len) : (16 ≤ len →
      cryptoXts128Encrypt keys.encryptContext iv.bytes mem inp out len true = (1, memcpyAt mem out
            (xtsEncrypt keys.encrypt1 (keys.encrypt2 iv.bytes) (slice mem inp len))) ∧
        ∀ plain : Bytes, plain.length = len →
          slice mem inp len = xtsEncrypt keys.encrypt1 (keys.encrypt2 iv.bytes) plain →
          cryptoXts128Encrypt keys.decryptContext iv.bytes mem inp out len false =
            (1, memcpyAt mem out plain)) ∧
      (len < 16 → ∀ ctx enc, cryptoXts128Encrypt ctx iv.bytes mem inp out len enc = (0, mem)) ∧
      ∀ tweak : FixedBytes 16, tweakElement (xtsMulX tweak.bytes) =
          AdjoinRoot.root xtsModulus * tweakElement tweak.bytes := by
  refine ⟨?_, ?_, fun tweak => tweakElement_xtsMulX tweak.bytes⟩
  · intro hlen
    refine ⟨cryptoXts128Encrypt_encrypt keys iv hlen hplaced, ?_⟩
    intro plain hplain hcipher
    have htweak := keys.keepsEncrypt2 iv.bytes iv.length_eq
    rw [cryptoXts128Encrypt_decrypt keys iv hlen hplaced, hcipher,
      xtsDecrypt_xtsEncrypt keys.keepsEncrypt1 keys.decrypt1_encrypt1 _ _ htweak (by omega)]
  · intro hshort ctx enc
    rw [cryptoXts128Encrypt, if_pos hshort]

def reversingKeys : XtsKeys where
  encrypt1 := reverse
  decrypt1 := reverse
  encrypt2 := reverse
  keepsEncrypt1 := fun block h => by rw [length_reverse, h]
  keepsDecrypt1 := fun block h => by rw [length_reverse, h]
  keepsEncrypt2 := fun block h => by rw [length_reverse, h]
  decrypt1_encrypt1 := fun block _ => reverse_reverse block

theorem xts_stealing_in_place : cryptoXts128Encrypt reversingKeys.encryptContext (replicate 16 1)
        (replicate 40 7) 2 2 37 true = (1, memcpyAt (replicate 40 7) 2
        (xtsEncrypt reverse (replicate 16 1) (replicate 37 7))) :=
  ((xts_stealing_exact reversingKeys ⟨replicate 16 1, by decide⟩ (replicate 40 7) 2 2 37
    ⟨by decide, by decide, Or.inl rfl⟩).1 (by decide)).1

end AwsLc
