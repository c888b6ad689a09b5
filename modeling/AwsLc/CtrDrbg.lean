import AwsLc.ByteString
import AwsLc.CounterMode

/-!
# The counter mode generator

`CTR_DRBG_init`, `CTR_DRBG_reseed` and `CTR_DRBG_generate` of `ctrdrbg.c`, against the CTR_DRBG of
SP 800-90A Rev. 1 with AES-256, without a derivation function and with a counter field of 32 bits.
AES is a parameter, and so is the function that encrypts many counter blocks at once, which a
platform may or may not have.
-/

namespace AwsLc

open BigEndian CounterMode Option List

def CTR_DRBG_ENTROPY_LEN : Nat := 48
def CTR_DRBG_MAX_GENERATE_LENGTH : Nat := 65536
def kMaxReseedCount : UInt64 := (1 : UInt64) <<< 48
def kChunkSize : Nat := 8 * 1024

def kInitMask : FixedBytes CTR_DRBG_ENTROPY_LEN where
  bytes :=
    [0x53, 0x0f, 0x8a, 0xfb, 0xc7, 0x45, 0x36, 0xb9, 0xa9, 0x63, 0xb4, 0xf1,
      0xc4, 0xcb, 0x73, 0x8b, 0xce, 0xa7, 0x40, 0x3d, 0x4d, 0x60, 0x6b, 0x6e,
      0x07, 0x4e, 0xc5, 0xd3, 0xba, 0xf3, 0x9d, 0x18, 0x72, 0x60, 0x03, 0xca,
      0x37, 0xa6, 0x2a, 0x74, 0xd1, 0xa2, 0xf5, 0x8e, 0x75, 0x06, 0x35, 0x8e]
  length_eq := rfl

/-- AES-256 under a key, and the function that `aes_ctr_set_key` returns for the key: the counter
    mode of whole blocks, or NULL. -/
structure Aes256 where
  encrypt : Bytes → Bytes → Bytes
  ctr : Bytes → Option (Bytes → Nat → Bytes → Bytes)
  length_encrypt : ∀ key block, block.length = 16 → (encrypt key block).length = 16
  ctr_eq : ∀ key stream, ctr key = some stream → ∀ inp blocks counter,
    inp.length = 16 * blocks → counter.length = 16 →
      stream inp blocks counter = xorBytes inp (keystream (encrypt key) counter blocks)
  initMask_eq : kInitMask.bytes =
    keystream (encrypt (replicate 32 0)) (add (replicate 16 0) 1) 3

/-- A block function that writes a part of the mask, without the bulk function. -/
instance : Inhabited Aes256 where
  default :=
    { encrypt := fun _ block =>
        (kInitMask.bytes.drop (16 * ((block.getLastD 0).toNat - 1) % 48)).take 16
      ctr := fun _ => none
      length_encrypt := fun _ block _ => by
        rw [length_take, length_drop, kInitMask.length_eq, CTR_DRBG_ENTROPY_LEN]
        omega
      ctr_eq := nofun
      initMask_eq := by decide }

variable {aes : Aes256}

/-- `CTR_DRBG_STATE`.  The key stands for its schedule. -/
structure CtrDrbgState (aes : Aes256) where
  key : FixedBytes 32
  ctr : Option (Bytes → Nat → Bytes → Bytes)
  ctr_eq : ctr = aes.ctr key.bytes
  counter : FixedBytes 16
  reseedCounter : UInt64

open CtrDrbgState

namespace CtrDrbgState

/-- `aes_ctr_set_key` on the first bytes of a seed, and the counter from the others. -/
def ofSeed (aes : Aes256) (seed : FixedBytes CTR_DRBG_ENTROPY_LEN) (reseedCounter : UInt64) :
    CtrDrbgState aes where
  key := ⟨seed.bytes.take 32, by rw [length_take, seed.length_eq]; rfl⟩
  ctr := aes.ctr (seed.bytes.take 32)
  ctr_eq := rfl
  counter := ⟨seed.bytes.drop 32, by rw [length_drop, seed.length_eq]; rfl⟩
  reseedCounter

/-- The state with the counter `n` blocks later. -/
def advance (drbg : CtrDrbgState aes) (n : Nat) : CtrDrbgState aes :=
  { drbg with counter := ⟨add drbg.counter.bytes n, length_add drbg.counter.length_eq n⟩ }

end CtrDrbgState

def ctr32Add (drbg : CtrDrbgState aes) (n : UInt32) : CtrDrbgState aes :=
  let ctr := UInt32.ofNat (beNat (drbg.counter.bytes.drop 12))
  { drbg with
    counter :=
      { bytes := drbg.counter.bytes.take 12 ++ beBytes 4 (ctr + n).toNat
        length_eq := by
          rw [length_append, length_take, length_beBytes, drbg.counter.length_eq]
          rfl } }

def ctrDrbgBlocks (drbg : CtrDrbgState aes) : Nat → Bytes × CtrDrbgState aes
  | 0 => ([], drbg)
  | n + 1 =>
    let drbg := ctr32Add drbg 1
    let block := aes.encrypt drbg.key.bytes drbg.counter.bytes
    let (rest, drbg) := ctrDrbgBlocks drbg n
    (block ++ rest, drbg)

variable (drbg : CtrDrbgState aes)

theorem ctr32Add_eq (n : UInt32) : ctr32Add drbg n = drbg.advance n.toNat := by
  have hvalue : (UInt32.ofNat (beNat (drbg.counter.bytes.drop 12)) + n).toNat =
      (beNat (drbg.counter.bytes.drop 12) + n.toNat) % 256 ^ 4 := by
    rw [UInt32.toNat_add, UInt32.toNat_ofNat']
    exact Nat.mod_add_mod _ _ _
  simp only [ctr32Add, advance, CounterMode.add, hvalue, beBytes_mod]

theorem advance_advance (m n : Nat) : (drbg.advance m).advance n = drbg.advance (m + n) := by
  simp [advance, add_add drbg.counter.length_eq]

theorem advance_zero : drbg.advance 0 = drbg := by
  simp [advance, add_zero drbg.counter.length_eq]

/-- The keystream from the next counter block on. -/
abbrev CtrDrbgState.stream : Nat → Bytes :=
  keystream (aes.encrypt drbg.key.bytes) (add drbg.counter.bytes 1)

theorem CtrDrbgState.stream_add (m n : Nat) :
    drbg.stream (m + n) = drbg.stream m ++ (drbg.advance m).stream n := by
  have hcounter := drbg.counter.length_eq
  dsimp only [stream, CtrDrbgState.advance]
  rw [keystream_add (length_add hcounter 1), add_add hcounter, add_add hcounter, Nat.add_comm 1]

theorem CtrDrbgState.stream_one :
    drbg.stream 1 = aes.encrypt drbg.key.bytes (drbg.advance 1).counter.bytes :=
  keystream_one (length_add drbg.counter.length_eq 1)

theorem CtrDrbgState.length_stream (n : Nat) : (drbg.stream n).length = 16 * n :=
  length_keystream (aes.length_encrypt _) (length_add drbg.counter.length_eq 1) n

theorem ctrDrbgBlocks_eq (n : Nat) : ctrDrbgBlocks drbg n = (drbg.stream n, drbg.advance n) := by
  induction n generalizing drbg with
  | zero =>
    rw [ctrDrbgBlocks, advance_zero]
    rfl
  | succ n ih =>
    have hone : ctr32Add drbg 1 = drbg.advance 1 := ctr32Add_eq drbg 1
    rw [ctrDrbgBlocks, hone]
    dsimp only
    rw [ih, advance_advance, Nat.add_comm n 1, drbg.stream_add, drbg.stream_one]
    rfl

theorem length_ctrDrbgBlocks (n : Nat) : (ctrDrbgBlocks drbg n).1.length = 16 * n := by
  rw [ctrDrbgBlocks_eq]
  exact drbg.length_stream n

def ctrDrbgUpdate (data : Bytes) : Bool × CtrDrbgState aes :=
  if data.length ≤ CTR_DRBG_ENTROPY_LEN then
    let temp := (ctrDrbgBlocks drbg (CTR_DRBG_ENTROPY_LEN / AES_BLOCK_SIZE)).1
    (true, .ofSeed aes ⟨xorAt temp 0 data, (length_xorAt _ _ _).trans (length_ctrDrbgBlocks drbg _)⟩
      drbg.reseedCounter)
  else (false, drbg)

structure Buffer where
  address : UInt64
  bytes : Bytes

def buffersAlias (a b : Buffer) : Bool :=
  a.address + UInt64.ofNat a.bytes.length > b.address &&
    b.address + UInt64.ofNat b.bytes.length > a.address

structure EntropyBuffer extends Buffer where
  length_eq : bytes.length = CTR_DRBG_ENTROPY_LEN

variable (entropy : EntropyBuffer)

def EntropyBuffer.seed : FixedBytes CTR_DRBG_ENTROPY_LEN :=
  ⟨entropy.bytes, entropy.length_eq⟩

def FixedBytes.xorStart {len : Nat} (seed : FixedBytes len) (data : Bytes) : FixedBytes len :=
  ⟨xorAt seed.bytes 0 data, (length_xorAt _ _ _).trans seed.length_eq⟩

/-- `CTR_DRBG_init`: the new state, or none where 0 is returned. -/
def ctrDrbgInit (aes : Aes256) (entropy : EntropyBuffer) (personalization : Buffer) :
    Option (CtrDrbgState aes) :=
  if buffersAlias entropy.toBuffer personalization then none
  else if personalization.bytes.length ≤ CTR_DRBG_ENTROPY_LEN then
    let seedMaterial := entropy.seed.xorStart personalization.bytes
    let seedMaterial := seedMaterial.xorStart kInitMask.bytes
    some (.ofSeed aes seedMaterial 1)
  else none

def ctrDrbgReseed (additionalData : Buffer) : Bool × CtrDrbgState aes :=
  if buffersAlias entropy.toBuffer additionalData then (false, drbg)
  else if additionalData.bytes.length ≤ CTR_DRBG_ENTROPY_LEN then
    let entropy :=
      if additionalData.bytes.length > 0 then entropy.seed.xorStart additionalData.bytes
      else entropy.seed
    match ctrDrbgUpdate drbg entropy.bytes with
    | (false, drbg) => (false, drbg)
    | (true, drbg) => (true, { drbg with reseedCounter := 1 })
  else (false, drbg)

def ctrDrbgChunk (todo : Nat) : Bytes × CtrDrbgState aes :=
  let numBlocks := todo / AES_BLOCK_SIZE
  match drbg.ctr with
  | some ctr =>
    let drbg := ctr32Add drbg 1
    let out := ctr (replicate todo 0) numBlocks drbg.counter.bytes
    (out, ctr32Add drbg (UInt32.ofNat (numBlocks - 1)))
  | none => ctrDrbgBlocks drbg numBlocks

/-- The length of the next chunk: whole blocks, at most `kChunkSize` bytes. -/
def ctrDrbgTodo (outLen : Nat) : Nat :=
  let todo := if kChunkSize > outLen then outLen else kChunkSize
  todo - todo % AES_BLOCK_SIZE

theorem ctrDrbgTodo_spec {outLen : Nat} (h : AES_BLOCK_SIZE ≤ outLen) :
    0 < ctrDrbgTodo outLen ∧ ctrDrbgTodo outLen ≤ outLen ∧
      ctrDrbgTodo outLen ≤ kChunkSize ∧ ctrDrbgTodo outLen % AES_BLOCK_SIZE = 0 := by
  unfold ctrDrbgTodo
  by_cases hlarge : kChunkSize > outLen
  · simp only [if_pos hlarge]
    simp only [kChunkSize, AES_BLOCK_SIZE] at h hlarge ⊢
    omega
  · have hwhole : kChunkSize - kChunkSize % AES_BLOCK_SIZE = kChunkSize := by decide
    simp only [if_neg hlarge, hwhole]
    exact ⟨by decide, Nat.le_of_not_lt hlarge, le_refl _, by decide⟩

def ctrDrbgChunks (drbg : CtrDrbgState aes) (outLen : Nat) : Bytes × CtrDrbgState aes × Nat :=
  if AES_BLOCK_SIZE ≤ outLen then
    let (chunk, drbg) := ctrDrbgChunk drbg (ctrDrbgTodo outLen)
    let (out, drbg, left) := ctrDrbgChunks drbg (outLen - ctrDrbgTodo outLen)
    (chunk ++ out, drbg, left)
  else ([], drbg, outLen)
termination_by outLen
decreasing_by
  rename_i hblock
  have hspec := ctrDrbgTodo_spec hblock
  omega

/-- The output of `CTR_DRBG_generate`, with the last block that is not full. -/
def ctrDrbgOutput (outLen : Nat) : Bytes × CtrDrbgState aes :=
  let (out, drbg, left) := ctrDrbgChunks drbg outLen
  if left > 0 then
    let drbg := ctr32Add drbg 1
    let block := aes.encrypt drbg.key.bytes drbg.counter.bytes
    (out ++ block.take left, drbg)
  else (out, drbg)

/-- The second half of `CTR_DRBG_generate`, after the first update. -/
def ctrDrbgFinish (outLen : Nat) (additionalData : Bytes) : Option Bytes × CtrDrbgState aes :=
  let (out, drbg) := ctrDrbgOutput drbg outLen
  match ctrDrbgUpdate drbg additionalData with
  | (false, drbg) => (none, drbg)
  | (true, drbg) => (some out, { drbg with reseedCounter := drbg.reseedCounter + 1 })

def ctrDrbgGenerate (outLen : Nat) (additionalData : Bytes) : Option Bytes × CtrDrbgState aes :=
  if outLen > CTR_DRBG_MAX_GENERATE_LENGTH then (none, drbg)
  else if drbg.reseedCounter > kMaxReseedCount then (none, drbg)
  else if additionalData.length ≠ 0 then
    match ctrDrbgUpdate drbg additionalData with
    | (false, drbg) => (none, drbg)
    | (true, drbg) => ctrDrbgFinish drbg outLen additionalData
  else ctrDrbgFinish drbg outLen additionalData

/-! ### The generator of SP 800-90A -/

structure Sp80090aState where
  key : Bytes
  v : Bytes
  reseedCounter : Nat

/-- The step of the counter field in section 10.2.1.2. -/
def sp80090aIncrement (v : Bytes) : Bytes :=
  v.take 12 ++ beBytes 4 ((beNat (v.drop 12) + 1) % 2 ^ 32)

def sp80090aBlocks (encrypt : Bytes → Bytes → Bytes) (key v : Bytes) : Nat → Bytes × Bytes
  | 0 => ([], v)
  | n + 1 =>
    let v := sp80090aIncrement v
    let (rest, last) := sp80090aBlocks encrypt key v n
    (encrypt key v ++ rest, last)

def sp80090aPad (data : Bytes) : Bytes := data ++ replicate (48 - data.length) 0

variable (encrypt : Bytes → Bytes → Bytes)

/-- `CTR_DRBG_Update`, section 10.2.1.2. -/
def sp80090aUpdate (providedData key v : Bytes) : Bytes × Bytes :=
  let temp := xorBytes (sp80090aBlocks encrypt key v 3).1 providedData
  (temp.take 32, temp.drop 32)

/-- `CTR_DRBG_Instantiate_algorithm`, section 10.2.1.3.1. -/
def sp80090aInstantiate (entropy personalization : Bytes) : Option Sp80090aState :=
  if personalization.length > 48 then none
  else
    let seedMaterial := xorBytes entropy (sp80090aPad personalization)
    let (key, v) :=
      sp80090aUpdate encrypt seedMaterial (replicate 32 0) (replicate 16 0)
    some ⟨key, v, 1⟩

/-- `CTR_DRBG_Reseed_algorithm`, section 10.2.1.4.1. -/
def sp80090aReseed (state : Sp80090aState)
    (entropy additionalInput : Bytes) : Option Sp80090aState :=
  if additionalInput.length > 48 then none
  else
    let seedMaterial := xorBytes entropy (sp80090aPad additionalInput)
    let (key, v) := sp80090aUpdate encrypt seedMaterial state.key state.v
    some ⟨key, v, 1⟩

/-- `CTR_DRBG_Generate_algorithm`, section 10.2.1.5.1, with the limit of section 9.3.1. -/
def sp80090aGenerate (state : Sp80090aState) (outLen : Nat)
    (additionalInput : Bytes) : Option (Bytes × Sp80090aState) :=
  if outLen > 2 ^ 16 ∨ additionalInput.length > 48 ∨ state.reseedCounter > 2 ^ 48 then none
  else
    let padded := sp80090aPad additionalInput
    let (key, v) :=
      if additionalInput = [] then (state.key, state.v)
      else sp80090aUpdate encrypt padded state.key state.v
    let (temp, v) := sp80090aBlocks encrypt key v ((outLen + 15) / 16)
    let (nextKey, v) := sp80090aUpdate encrypt padded key v
    some (temp.take outLen, ⟨nextKey, v, state.reseedCounter + 1⟩)

/-! ### Calls -/

inductive CtrDrbgCall where
  | init (entropy : EntropyBuffer) (personalization : Buffer)
  | reseed (entropy : EntropyBuffer) (additionalData : Buffer)
  | generate (outLen : Nat) (additionalData : Bytes)

/-- A call on an object that may not be initialized: only the initialization is possible then. -/
def ctrDrbgCall (aes : Aes256) (drbg : Option (CtrDrbgState aes)) :
    CtrDrbgCall → Option (Option Bytes × Option (CtrDrbgState aes))
  | .init entropy personalization =>
    match ctrDrbgInit aes entropy personalization with
    | none => some (none, drbg)
    | some next => some (some [], some next)
  | .reseed entropy additionalData => drbg.map fun drbg =>
    match ctrDrbgReseed drbg entropy additionalData with
    | (false, drbg) => (none, some drbg)
    | (true, drbg) => (some [], some drbg)
  | .generate outLen additionalData => drbg.map fun drbg =>
    let (out, drbg) := ctrDrbgGenerate drbg outLen additionalData
    (out, some drbg)

/-- The same call on the generator of SP 800-90A.  Calls with buffers that must not alias are not
    made. -/
def sp80090aCall (state : Option Sp80090aState) :
    CtrDrbgCall → Option (Option Bytes × Option Sp80090aState)
  | .init entropy personalization =>
    if buffersAlias entropy.toBuffer personalization then some (none, state)
    else
      match sp80090aInstantiate encrypt entropy.bytes personalization.bytes with
      | none => some (none, state)
      | some next => some (some [], some next)
  | .reseed entropy additionalData => state.map fun state =>
    if buffersAlias entropy.toBuffer additionalData then (none, some state)
    else
      match sp80090aReseed encrypt state entropy.bytes additionalData.bytes with
      | none => (none, some state)
      | some next => (some [], some next)
  | .generate outLen additionalData => state.map fun state =>
    match sp80090aGenerate encrypt state outLen additionalData with
    | none => (none, some state)
    | some (out, next) => (some out, some next)

def drbgRun {State Call : Type} (call : State → Call → Option (Option Bytes × State))
    (state : State) : List Call → Option (List (Option Bytes) × State)
  | [] => some ([], state)
  | first :: calls => do
    let (out, state) ← call state first
    let (outs, state) ← drbgRun call state calls
    return (out :: outs, state)

def CtrDrbgState.abstract : Sp80090aState :=
  ⟨drbg.key.bytes, drbg.counter.bytes, drbg.reseedCounter.toNat⟩

theorem sp80090aIncrement_eq (v : Bytes) : sp80090aIncrement v = add v 1 := by
  rw [sp80090aIncrement, add, show (2 : Nat) ^ 32 = 256 ^ 4 by decide, beBytes_mod]

theorem sp80090aBlocks_eq (key : Bytes) {v : Bytes} (hv : v.length = 16) (n : Nat) :
    sp80090aBlocks encrypt key v n = (keystream (encrypt key) (add v 1) n, add v n) := by
  induction n generalizing v with
  | zero =>
    rw [sp80090aBlocks, add_zero hv]
    rfl
  | succ n ih =>
    have hnext := length_add hv 1
    rw [sp80090aBlocks, sp80090aIncrement_eq]
    dsimp only
    rw [ih hnext, add_add hv 1 n, Nat.add_comm n 1, keystream_add hnext, keystream_one hnext]

/-- `ctr_drbg_update` is the update of the padded data. -/
theorem ctrDrbgUpdate_eq {data : Bytes} (h : data.length ≤ 48) :
    ∃ next, ctrDrbgUpdate drbg data = (true, next) ∧ next.reseedCounter = drbg.reseedCounter ∧
      sp80090aUpdate aes.encrypt (sp80090aPad data) drbg.key.bytes drbg.counter.bytes =
        (next.key.bytes, next.counter.bytes) := by
  unfold ctrDrbgUpdate
  rw [if_pos (show data.length ≤ CTR_DRBG_ENTROPY_LEN from h)]
  refine ⟨_, rfl, rfl, ?_⟩
  have hlength := length_ctrDrbgBlocks drbg 3
  have htemp : (sp80090aBlocks aes.encrypt drbg.key.bytes drbg.counter.bytes 3).1 =
      (ctrDrbgBlocks drbg 3).1 := by
    rw [ctrDrbgBlocks_eq, sp80090aBlocks_eq _ _ drbg.counter.length_eq]
  have hxor : xorBytes (ctrDrbgBlocks drbg 3).1 (sp80090aPad data) =
      xorAt (ctrDrbgBlocks drbg 3).1 0 data := by
    rw [xorAt_eq (by omega), hlength, sp80090aPad]
    rfl
  rw [sp80090aUpdate, htemp, hxor]
  rfl

/-- Both ways of writing a chunk are the loop of single blocks. -/
theorem ctrDrbgChunk_eq {todo : Nat} (hpos : 0 < todo)
    (hle : todo ≤ kChunkSize) (hwhole : todo % AES_BLOCK_SIZE = 0) :
    ctrDrbgChunk drbg todo = ctrDrbgBlocks drbg (todo / AES_BLOCK_SIZE) := by
  simp only [kChunkSize, AES_BLOCK_SIZE] at hle hwhole
  unfold ctrDrbgChunk
  cases hctr : drbg.ctr with
  | none => rfl
  | some stream =>
    have hone : ctr32Add drbg 1 = drbg.advance 1 := ctr32Add_eq drbg 1
    have hcounter := length_add drbg.counter.length_eq 1
    have hstream := aes.ctr_eq drbg.key.bytes stream (drbg.ctr_eq.symm.trans hctr)
      (replicate todo 0) (todo / 16) (add drbg.counter.bytes 1)
      (by rw [length_replicate]; omega) hcounter
    have hlength := drbg.length_stream (todo / 16)
    have hzeros : xorBytes (replicate todo 0) (drbg.stream (todo / 16)) =
        drbg.stream (todo / 16) := by
      rw [xorBytes_comm]
      exact xorBytes_zeros (by omega)
    have hlast : (UInt32.ofNat (todo / 16 - 1)).toNat = todo / 16 - 1 :=
      UInt32.toNat_ofNat_of_lt' (show todo / 16 - 1 < 2 ^ 32 by omega)
    dsimp only [AES_BLOCK_SIZE]
    rw [hone, ctr32Add_eq, hlast, advance_advance, ctrDrbgBlocks_eq]
    apply Prod.ext
    · exact hstream.trans hzeros
    · change drbg.advance (1 + (todo / 16 - 1)) = drbg.advance (todo / 16)
      congr 1
      omega

variable (outLen : Nat)

/-- The chunks together are a single loop over all whole blocks. -/
theorem ctrDrbgChunks_eq : ctrDrbgChunks drbg outLen =
      (drbg.stream (outLen / 16), drbg.advance (outLen / 16), outLen % 16) := by
  induction outLen using Nat.strongRecOn generalizing drbg with
  | ind outLen ih =>
    rw [ctrDrbgChunks]
    by_cases hblock : AES_BLOCK_SIZE ≤ outLen
    · obtain ⟨hpos, hle, hchunk, hwhole⟩ := ctrDrbgTodo_spec hblock
      generalize ctrDrbgTodo outLen = todo at hpos hle hchunk hwhole ⊢
      rw [if_pos hblock, ctrDrbgChunk_eq drbg hpos hchunk hwhole, ctrDrbgBlocks_eq]
      dsimp only
      rw [ih (outLen - todo) (by omega)]
      simp only [AES_BLOCK_SIZE] at hwhole ⊢
      have hblocks : outLen / 16 = todo / 16 + (outLen - todo) / 16 := by omega
      rw [hblocks, drbg.stream_add, ← advance_advance]
      apply Prod.ext
      · rfl
      · apply Prod.ext
        · rfl
        · change (outLen - todo) % 16 = outLen % 16
          omega
    · rw [if_neg hblock]
      simp only [AES_BLOCK_SIZE] at hblock
      rw [Nat.div_eq_of_lt (by omega), Nat.mod_eq_of_lt (by omega), advance_zero]
      rfl

/-- The output is the beginning of the keystream, as many blocks as it needs. -/
theorem ctrDrbgOutput_eq : ctrDrbgOutput drbg outLen =
      ((drbg.stream ((outLen + 15) / 16)).take outLen, drbg.advance ((outLen + 15) / 16)) := by
  have hlength := drbg.length_stream (outLen / 16)
  have hwhole : (drbg.stream (outLen / 16)).take outLen = drbg.stream (outLen / 16) :=
    take_of_length_le (by omega)
  unfold ctrDrbgOutput
  rw [ctrDrbgChunks_eq]
  dsimp only
  by_cases hleft : outLen % 16 > 0
  · have hblocks : (outLen + 15) / 16 = outLen / 16 + 1 := by omega
    have hone (state : CtrDrbgState aes) : ctr32Add state 1 = state.advance 1 :=
      ctr32Add_eq state 1
    have hrest : outLen - 16 * (outLen / 16) = outLen % 16 := by omega
    rw [if_pos hleft, hone, hblocks, drbg.stream_add, CtrDrbgState.stream_one, take_append,
      hlength, hrest, hwhole, advance_advance]
    rfl
  · have hblocks : (outLen + 15) / 16 = outLen / 16 := by omega
    rw [if_neg hleft, hblocks, hwhole]

theorem ctrDrbgFinish_eq {additionalData : Bytes} (h : additionalData.length ≤ 48) :
    ∃ next, ctrDrbgFinish drbg outLen additionalData =
        (some ((sp80090aBlocks aes.encrypt drbg.key.bytes drbg.counter.bytes
          ((outLen + 15) / 16)).1.take outLen), next) ∧
      next.reseedCounter = drbg.reseedCounter + 1 ∧
      sp80090aUpdate aes.encrypt (sp80090aPad additionalData) drbg.key.bytes
          (sp80090aBlocks aes.encrypt drbg.key.bytes drbg.counter.bytes ((outLen + 15) / 16)).2 =
        (next.key.bytes, next.counter.bytes) := by
  obtain ⟨next, hupdate, hcount, hnext⟩ := ctrDrbgUpdate_eq (drbg.advance ((outLen + 15) / 16)) h
  unfold ctrDrbgFinish
  rw [ctrDrbgOutput_eq, sp80090aBlocks_eq _ _ drbg.counter.length_eq]
  dsimp only
  rw [hupdate]
  exact ⟨_, rfl, congrArg (· + 1) hcount, hnext⟩

theorem toNat_succ_reseedCounter {count : UInt64} (h : ¬count > kMaxReseedCount) :
    (count + 1).toNat = count.toNat + 1 := by
  have hle : count.toNat ≤ 2 ^ 48 := UInt64.le_iff_toNat_le.mp (UInt64.not_lt.mp h)
  rw [UInt64.toNat_add]
  change (count.toNat + 1) % 2 ^ 64 = _
  omega

/-- `CTR_DRBG_generate` against the generate algorithm. -/
theorem ctrDrbgGenerate_eq (additionalData : Bytes) :
    (∃ out next, ctrDrbgGenerate drbg outLen additionalData = (some out, next) ∧
        sp80090aGenerate aes.encrypt drbg.abstract outLen additionalData =
          some (out, next.abstract)) ∨ ctrDrbgGenerate drbg outLen additionalData = (none, drbg) ∧
        sp80090aGenerate aes.encrypt drbg.abstract outLen additionalData = none := by
  have hcount : drbg.reseedCounter > kMaxReseedCount ↔ drbg.abstract.reseedCounter > 2 ^ 48 :=
    UInt64.lt_iff_toNat_lt
  unfold ctrDrbgGenerate sp80090aGenerate
  by_cases hout : outLen > CTR_DRBG_MAX_GENERATE_LENGTH
  · rw [if_pos hout, if_pos (.inl hout)]
    exact .inr ⟨rfl, rfl⟩
  by_cases hreseed : drbg.reseedCounter > kMaxReseedCount
  · rw [if_neg hout, if_pos hreseed, if_pos (.inr (.inr (hcount.mp hreseed)))]
    exact .inr ⟨rfl, rfl⟩
  rw [if_neg hout, if_neg hreseed]
  by_cases hlength : additionalData.length ≤ 48
  · have haccept : ¬(outLen > 2 ^ 16 ∨ additionalData.length > 48 ∨
        drbg.abstract.reseedCounter > 2 ^ 48) := by
      rintro (h | h | h)
      · exact hout h
      · omega
      · exact hreseed (hcount.mpr h)
    rw [if_neg haccept]
    dsimp only
    by_cases hempty : additionalData = []
    · obtain ⟨next, hfinish, hnextCount, hnext⟩ := ctrDrbgFinish_eq drbg outLen hlength
      rw [if_neg (by simp [hempty]), if_pos hempty, hfinish]
      refine .inl ⟨_, next, rfl, ?_⟩
      dsimp only [abstract]
      rw [hnext, hnextCount, toNat_succ_reseedCounter hreseed]
    · obtain ⟨middle, hupdate, hmiddleCount, hmiddle⟩ := ctrDrbgUpdate_eq drbg hlength
      obtain ⟨next, hfinish, hnextCount, hnext⟩ := ctrDrbgFinish_eq middle outLen hlength
      rw [if_pos (by simpa using hempty), if_neg hempty, hupdate]
      dsimp only
      rw [hfinish]
      refine .inl ⟨_, next, rfl, ?_⟩
      dsimp only [abstract]
      rw [hmiddle]
      dsimp only
      rw [hnext, hnextCount, hmiddleCount, toNat_succ_reseedCounter hreseed]
  · have hrefused : ctrDrbgUpdate drbg additionalData = (false, drbg) := if_neg hlength
    rw [if_pos (by omega), hrefused, if_pos (.inr (.inl (by omega)))]
    exact .inr ⟨rfl, rfl⟩

theorem sp80090aPad_of_length {data : Bytes} (h : data.length = 48) : sp80090aPad data = data := by
  rw [sp80090aPad, h, Nat.sub_self, replicate_zero, append_nil]

/-- Entropy combined with a string of the caller is combined with the padded string. -/
theorem entropySeed_xorStart {data : Bytes} (h : data.length ≤ CTR_DRBG_ENTROPY_LEN) :
    (entropy.seed.xorStart data).bytes = xorBytes entropy.bytes (sp80090aPad data) := by
  have hfits : 0 + data.length ≤ entropy.bytes.length := by
    rw [entropy.length_eq, Nat.zero_add]
    exact h
  have hstart := xorAt_eq hfits
  rw [entropy.length_eq] at hstart
  exact hstart

/-- `CTR_DRBG_reseed` against the reseed algorithm. -/
theorem ctrDrbgReseed_eq
    (additionalData : Buffer) (halias : buffersAlias entropy.toBuffer additionalData = false) :
    (∃ next, ctrDrbgReseed drbg entropy additionalData = (true, next) ∧
        sp80090aReseed aes.encrypt drbg.abstract entropy.bytes additionalData.bytes =
          some next.abstract) ∨ ctrDrbgReseed drbg entropy additionalData = (false, drbg) ∧
        sp80090aReseed aes.encrypt drbg.abstract entropy.bytes additionalData.bytes = none := by
  unfold ctrDrbgReseed sp80090aReseed
  rw [if_neg (by simp [halias])]
  by_cases hlength : additionalData.bytes.length ≤ CTR_DRBG_ENTROPY_LEN
  · have hseed : (if additionalData.bytes.length > 0 then
        entropy.seed.xorStart additionalData.bytes else entropy.seed).bytes =
          xorBytes entropy.bytes (sp80090aPad additionalData.bytes) := by
      by_cases hempty : additionalData.bytes.length > 0
      · rw [if_pos hempty]
        exact entropySeed_xorStart entropy hlength
      · have hnil : additionalData.bytes = [] := eq_nil_of_length_eq_zero (by omega)
        rw [if_neg hempty, hnil]
        exact (xorBytes_zeros entropy.length_eq).symm
    have hmaterial : (xorBytes entropy.bytes (sp80090aPad additionalData.bytes)).length = 48 := by
      rw [← hseed]
      exact FixedBytes.length_eq _
    have hnot : ¬additionalData.bytes.length > 48 := Nat.not_lt.mpr hlength
    obtain ⟨next, hupdate, -, hnext⟩ := ctrDrbgUpdate_eq drbg hmaterial.le
    rw [if_pos hlength, if_neg hnot]
    dsimp only
    rw [hseed, hupdate]
    refine .inl ⟨_, rfl, ?_⟩
    rw [sp80090aPad_of_length hmaterial] at hnext
    dsimp only [abstract]
    rw [hnext]
    rfl
  · rw [if_neg hlength, if_pos (Nat.lt_of_not_le (show ¬_ ≤ 48 from hlength))]
    exact .inr ⟨rfl, rfl⟩

/-- `CTR_DRBG_init` against the instantiate algorithm. -/
theorem ctrDrbgInit_eq (aes : Aes256) (entropy : EntropyBuffer) (personalization : Buffer)
    (halias : buffersAlias entropy.toBuffer personalization = false) :
    (ctrDrbgInit aes entropy personalization).map abstract =
      sp80090aInstantiate aes.encrypt entropy.bytes personalization.bytes := by
  unfold ctrDrbgInit sp80090aInstantiate
  rw [if_neg (by simp [halias])]
  by_cases hlength : personalization.bytes.length ≤ CTR_DRBG_ENTROPY_LEN
  · have hxor := entropySeed_xorStart entropy hlength
    have hmaterial : (xorBytes entropy.bytes (sp80090aPad personalization.bytes)).length =
        CTR_DRBG_ENTROPY_LEN := by
      rw [← hxor]
      exact FixedBytes.length_eq _
    have hmask : (sp80090aBlocks aes.encrypt (replicate 32 0) (replicate 16 0) 3).1 =
        kInitMask.bytes := by
      rw [sp80090aBlocks_eq _ _ (by decide), aes.initMask_eq]
    have hseed : ((entropy.seed.xorStart personalization.bytes).xorStart kInitMask.bytes).bytes =
        xorBytes kInitMask.bytes (xorBytes entropy.bytes (sp80090aPad personalization.bytes)) := by
      have hmasked := xorAt_zero (kInitMask.length_eq.trans hmaterial.symm)
      rw [xorBytes_comm]
      simp only [FixedBytes.xorStart] at hxor ⊢
      rw [hxor, hmasked]
    have hnot : ¬personalization.bytes.length > 48 := Nat.not_lt.mpr hlength
    rw [if_pos hlength, if_neg hnot]
    dsimp only [map_some, abstract, ofSeed, sp80090aUpdate]
    rw [hseed, hmask]
    rfl
  · rw [if_neg hlength, if_pos (Nat.lt_of_not_le (show ¬_ ≤ 48 from hlength))]
    rfl

/-! ### Runs -/

theorem ctrDrbgCall_refines (aes : Aes256) (drbg : Option (CtrDrbgState aes)) (call : CtrDrbgCall) :
    (ctrDrbgCall aes drbg call).map (fun result => (result.1, result.2.map (·.abstract))) =
      sp80090aCall aes.encrypt (drbg.map (·.abstract)) call := by
  cases call with
  | init entropy personalization =>
    simp only [ctrDrbgCall, sp80090aCall]
    by_cases halias : buffersAlias entropy.toBuffer personalization = true
    · have hrefused : ctrDrbgInit aes entropy personalization = none := if_pos halias
      simp [hrefused, if_pos halias]
    · have hinit := ctrDrbgInit_eq aes entropy personalization (Bool.eq_false_iff.mpr halias)
      rw [if_neg halias, ← hinit]
      cases ctrDrbgInit aes entropy personalization <;> rfl
  | reseed entropy additionalData =>
    cases drbg with
    | none => rfl
    | some drbg =>
      simp only [ctrDrbgCall, sp80090aCall, map_some]
      by_cases halias : buffersAlias entropy.toBuffer additionalData = true
      · have hrefused : ctrDrbgReseed drbg entropy additionalData = (false, drbg) :=
          if_pos halias
        simp [hrefused, if_pos halias]
      · rw [if_neg halias]
        rcases ctrDrbgReseed_eq drbg entropy additionalData (Bool.eq_false_iff.mpr halias) with
          ⟨next, hreseed, hspec⟩ | ⟨hreseed, hspec⟩
        · simp [hreseed, hspec]
        · simp [hreseed, hspec]
  | generate outLen additionalData =>
    cases drbg with
    | none => rfl
    | some drbg =>
      simp only [ctrDrbgCall, sp80090aCall, map_some]
      rcases ctrDrbgGenerate_eq drbg outLen additionalData with
        ⟨out, next, hgenerate, hspec⟩ | ⟨hgenerate, hspec⟩
      · simp [hgenerate, hspec]
      · simp [hgenerate, hspec]

theorem ctrDrbgCall_refused {aes : Aes256} {drbg drbg' : Option (CtrDrbgState aes)}
    {call : CtrDrbgCall} (h : ctrDrbgCall aes drbg call = some (none, drbg')) : drbg' = drbg := by
  cases call with
  | init entropy personalization =>
    simp only [ctrDrbgCall] at h
    cases hinit : ctrDrbgInit aes entropy personalization with
    | none =>
      rw [hinit] at h
      cases h
      rfl
    | some next =>
      rw [hinit] at h
      cases h
  | reseed entropy additionalData =>
    obtain ⟨state, rfl, hresult⟩ := map_eq_some_iff.mp h
    by_cases halias : buffersAlias entropy.toBuffer additionalData = true
    · have hrefused : ctrDrbgReseed state entropy additionalData = (false, state) := if_pos halias
      rw [hrefused] at hresult
      cases hresult
      rfl
    · rcases ctrDrbgReseed_eq state entropy additionalData (Bool.eq_false_iff.mpr halias) with
        ⟨next, hreseed, -⟩ | ⟨hreseed, -⟩
      · rw [hreseed] at hresult
        cases hresult
      · rw [hreseed] at hresult
        cases hresult
        rfl
  | generate outLen additionalData =>
    obtain ⟨state, rfl, hresult⟩ := map_eq_some_iff.mp h
    rcases ctrDrbgGenerate_eq state outLen additionalData with
      ⟨out, next, hgenerate, -⟩ | ⟨hgenerate, -⟩
    · rw [hgenerate] at hresult
      cases hresult
    · rw [hgenerate] at hresult
      cases hresult
      rfl

theorem drbgRun_refines {State Spec Call : Type} {abstract : State → Spec}
    {call : State → Call → Option (Option Bytes × State)}
    {spec : Spec → Call → Option (Option Bytes × Spec)}
    (h : ∀ state input, (call state input).map (fun result => (result.1, abstract result.2)) =
      spec (abstract state) input) (state : State) (calls : List Call) :
    (drbgRun call state calls).map (fun result => (result.1, abstract result.2)) =
      drbgRun spec (abstract state) calls := by
  induction calls generalizing state with
  | nil => rfl
  | cons first calls ih =>
    simp only [drbgRun, ← h]
    rcases hcall : call state first with _ | ⟨out, next⟩
    · rfl
    · simp only [map_some, bind_eq_bind, bind_some, ← ih]
      rcases drbgRun call next calls with _ | ⟨outs, last⟩ <;> rfl

/-- **The counter mode generator refines SP 800-90A.**  Every sequence of calls from memory that
    has not been initialized gives the outputs and the key, counter and reseed counter of the
    generator of SP 800-90A, with and without the bulk function, and a call that returns 0 leaves
    the state as it was. -/
theorem ctr_drbg_refines (aes : Aes256) : (∀ calls : List CtrDrbgCall,
        (drbgRun (ctrDrbgCall aes) none calls).map
            (fun result => (result.1, result.2.map (·.abstract))) =
          drbgRun (sp80090aCall aes.encrypt) none calls) ∧
      ∀ (drbg drbg' : Option (CtrDrbgState aes)) (call : CtrDrbgCall),
        ctrDrbgCall aes drbg call = some (none, drbg') → drbg' = drbg := by
  refine ⟨?_, ?_⟩
  · intro calls
    exact drbgRun_refines (ctrDrbgCall_refines aes) none calls
  · intro drbg drbg' call h
    exact ctrDrbgCall_refused h

end AwsLc
