import AwsLc.ByteString
import AwsLc.Memory
import AwsLc.PackedBits

/-!
# Reassembling one DTLS handshake message (`d1_both.cc`)

An `hm_fragment` is a buffer for the whole message and, while parts are missing, a bit mask of the
bytes received, to which `dtls1_hm_fragment_mark` adds a range in three cases.  `HmFragment.Holds`
ties it to the set of positions received.
-/

namespace AwsLc

open AwsLc.PackedBits AwsLc.BigEndian AwsLc.Memory List

def DTLS1_HM_HEADER_LENGTH : Nat := 12

/-- `hm_header_st`.  The `u24` fields are below `2 ^ 24`. -/
structure HmHeader where
  type : UInt8
  msgLen : Nat
  seq : UInt16
  fragOff : Nat
  fragLen : Nat
deriving DecidableEq, Repr

/-- `hm_fragment`: an incoming message, complete when `reassembly` is `none`. -/
structure HmFragment where
  type : UInt8
  seq : UInt16
  msgLen : Nat
  data : Bytes
  reassembly : Option Bytes
deriving DecidableEq, Repr

open HmFragment

def dtls1ParseFragment (cbs : Bytes) : Option (HmHeader × Bytes × Bytes) := do
  let (type, cbs) ← cbsGetU8 cbs
  let (msgLen, cbs) ← cbsGetU24 cbs
  let (seq, cbs) ← cbsGetU16 cbs
  let (fragOff, cbs) ← cbsGetU24 cbs
  let (fragLen, cbs) ← cbsGetU24 cbs
  let (body, cbs) ← cbsGetBytes cbs fragLen
  return ({ type, msgLen, seq, fragOff, fragLen }, body, cbs)

def HmHeader.encode (hdr : HmHeader) : Bytes :=
  cbbAddU8 hdr.type ++ (beBytes 3 hdr.msgLen ++ (cbbAddU16 hdr.seq ++
    (beBytes 3 hdr.fragOff ++ beBytes 3 hdr.fragLen)))

@[simp] theorem HmHeader.length_encode (hdr : HmHeader) :
    hdr.encode.length = DTLS1_HM_HEADER_LENGTH := by
  simp [HmHeader.encode, cbbAddU8, cbbAddU16, DTLS1_HM_HEADER_LENGTH]

structure HmHeader.Fits (hdr : HmHeader) : Prop where
  msgLen_lt : hdr.msgLen < 2 ^ 24
  fragOff_lt : hdr.fragOff < 2 ^ 24
  fragLen_lt : hdr.fragLen < 2 ^ 24

variable {hdr : HmHeader}

/-- The parser takes off exactly one encoded header and the contents it announces. -/
theorem dtls1ParseFragment_iff {cbs body rest : Bytes} :
    dtls1ParseFragment cbs = some (hdr, body, rest) ↔
      hdr.Fits ∧ body.length = hdr.fragLen ∧ cbs = hdr.encode ++ (body ++ rest) := by
  constructor
  · intro h
    simp only [dtls1ParseFragment, Option.bind_eq_bind, Option.bind_eq_some_iff, Option.pure_def,
      Option.some.injEq, Prod.mk.injEq, Prod.exists, cbsGetU24, cbsGetBytes] at h
    obtain ⟨type, cbs₁, h₁, msgLen, cbs₂, h₂, seq, cbs₃, h₃, fragOff, cbs₄, h₄, fragLen, cbs₅, h₅,
      data, cbs₆, h₆, rfl, rfl, rfl⟩ := h
    obtain ⟨hmsgLen, rfl⟩ := cbsGetU_eq_some h₂
    obtain ⟨hfragOff, rfl⟩ := cbsGetU_eq_some h₄
    obtain ⟨hfragLen, rfl⟩ := cbsGetU_eq_some h₅
    obtain ⟨rfl, hlength⟩ := cbsGet_eq_some h₆
    refine ⟨⟨hmsgLen, hfragOff, hfragLen⟩, hlength, ?_⟩
    rw [cbsGetU8_eq_some h₁, cbsGetU16_eq_some h₃]
    simp [HmHeader.encode]
  · rintro ⟨hfits, hlength, rfl⟩
    have hmsgLen := @cbsGetU_beBytes 3 _ hfits.msgLen_lt
    have hfragOff := @cbsGetU_beBytes 3 _ hfits.fragOff_lt
    have hfragLen := @cbsGetU_beBytes 3 _ hfits.fragLen_lt
    have hbody := cbsGet_append body rest
    rw [hlength] at hbody
    simp [dtls1ParseFragment, HmHeader.encode, cbsGetU24, cbsGetBytes, hmsgLen, hfragOff,
      hfragLen, hbody]

/-- The header in front of a reassembled message: offset zero and the length of the message. -/
def hmMessageHeader (type : UInt8) (msgLen : Nat) (seq : UInt16) : Bytes :=
  HmHeader.encode { type, msgLen, seq, fragOff := 0, fragLen := msgLen }

@[simp] theorem length_hmMessageHeader (type : UInt8) (msgLen : Nat) (seq : UInt16) :
    (hmMessageHeader type msgLen seq).length = DTLS1_HM_HEADER_LENGTH :=
  HmHeader.length_encode _

/-- `dtls1_hm_fragment_new`.  `memory` is what `OPENSSL_malloc` returned for the
    message buffer: nothing, or uninitialised bytes. -/
def dtls1HmFragmentNew (memory : Option (Nat → UInt8)) (msgHdr : HmHeader) :
    Option HmFragment := do
  let uninitialised ← memory
  return {
    type := msgHdr.type
    seq := msgHdr.seq
    msgLen := msgHdr.msgLen
    data := hmMessageHeader msgHdr.type msgHdr.msgLen msgHdr.seq ++
      (range msgHdr.msgLen).map uninitialised
    -- If the handshake message is empty, |frag->reassembly| is NULL.
    reassembly :=
      if 0 < msgHdr.msgLen then some (replicate ((msgHdr.msgLen + 7) / 8) 0) else none }

/-! ### The bit mask -/

def bitRange (start stop : Nat) : UInt8 :=
  UInt8.ofBitVec
    ((~~~((1#32 <<< start) - 1#32) &&& ((1#32 <<< stop) - 1#32)).setWidth 8)

/-- The update of `frag->reassembly` in `dtls1_hm_fragment_mark`. -/
def markRange (reassembly : Bytes) (start stop : Nat) : Bytes :=
  if start / 8 = stop / 8 then
    orByte reassembly (start / 8) (bitRange (start % 8) (stop % 8))
  else
    let reassembly := orByte reassembly (start / 8) (bitRange (start % 8) 8)
    let reassembly := fillBytes reassembly (start / 8 + 1) (stop / 8 - (start / 8 + 1))
    if stop % 8 ≠ 0 then orByte reassembly (stop / 8) (bitRange 0 (stop % 8)) else reassembly

/-- The completion test at the end of `dtls1_hm_fragment_mark`. -/
def reassemblyComplete (reassembly : Bytes) (msgLen : Nat) : Bool :=
  (range (msgLen / 8)).all (fun i => reassembly.getD i 0 == 0xff) &&
    (msgLen % 8 == 0 || reassembly.getD (msgLen / 8) 0 == bitRange 0 (msgLen % 8))

/-- `dtls1_hm_fragment_mark`; `none` is a failed assertion. -/
def dtls1HmFragmentMark (frag : HmFragment) (start stop : Nat) : Option HmFragment :=
  match frag.reassembly with
  | none => none
  | some reassembly =>
    if stop < start ∨ frag.msgLen < stop ∨ frag.msgLen = 0 then none
    else if start = stop then some frag
    else
      let reassembly := markRange reassembly start stop
      some { frag with
        reassembly := if reassemblyComplete reassembly frag.msgLen then none else some reassembly }

theorem byteBit_bitRange {start stop index : Nat} (hstart : start ≤ 8) (hstop : stop ≤ 8)
    (hindex : index < 8) :
    byteBit (bitRange start stop) index = decide (start ≤ index ∧ index < stop) := by
  have hones : ∀ n ≤ 8, (1#32 <<< n) - 1#32 = BitVec.ofNat 32 (2 ^ n - 1) := by
    intro n hn
    interval_cases n <;> rfl
  unfold byteBit bitRange
  rw [hones start hstart, hones stop hstop]
  have hword : index < 32 := by omega
  simp only [BitVec.getLsbD_setWidth, BitVec.getLsbD_and, BitVec.getLsbD_not,
    BitVec.getLsbD_ofNat, Nat.testBit_two_pow_sub_one, hindex, hword, decide_true,
    Bool.true_and]
  rw [← decide_not, ← Bool.decide_and]
  exact decide_eq_decide.mpr (by omega)

@[simp] theorem length_markRange (reassembly : Bytes) (start stop : Nat) :
    (markRange reassembly start stop).length = reassembly.length := by
  unfold markRange
  dsimp only
  split_ifs <;> simp

/-- The three cases of the update together add exactly the range. -/
theorem member_markRange {reassembly : Bytes} {start stop : Nat} (hlt : start < stop)
    (hlength : stop ≤ 8 * reassembly.length) (index : Nat) :
    member (markRange reassembly start stop) index =
      (member reassembly index || decide (start ≤ index ∧ index < stop)) := by
  have hbit : index % 8 < 8 := Nat.mod_lt _ (by decide)
  have hstart : start % 8 ≤ 8 := by omega
  have hstop : stop % 8 ≤ 8 := by omega
  unfold markRange
  dsimp only
  split_ifs with hsame hpart
  · -- both ends in one byte
    rw [member_orByte (by omega), byteBit_bitRange hstart hstop hbit, ← Bool.decide_and]
    congr 2
    apply propext
    omega
  · -- the range ends inside a byte
    rw [member_orByte (by simp only [length_fillBytes, length_orByte]; omega),
      member_fillBytes (by rw [length_orByte]; omega), member_orByte (by omega),
      byteBit_bitRange hstart (by omega) hbit, byteBit_bitRange (by omega) hstop hbit]
    simp only [Bool.or_assoc, ← Bool.decide_and, ← Bool.decide_or]
    congr 2
    apply propext
    omega
  · -- the range ends at a byte boundary, which may be the end of the mask
    rw [member_fillBytes (by rw [length_orByte]; omega), member_orByte (by omega),
      byteBit_bitRange hstart (by omega) hbit]
    simp only [Bool.or_assoc, ← Bool.decide_and, ← Bool.decide_or]
    congr 2
    apply propext
    omega

/-- With no bit set past the message, the completion test finds all bits set. -/
theorem reassemblyComplete_iff {reassembly : Bytes} {msgLen : Nat}
    (hbeyond : ∀ index, msgLen ≤ index → member reassembly index = false) :
    reassemblyComplete reassembly msgLen = true ↔
      ∀ index < msgLen, member reassembly index = true := by
  have hlast : msgLen % 8 ≤ 8 := by omega
  simp only [reassemblyComplete, Bool.and_eq_true, all_eq_true, mem_range, beq_iff_eq,
    Bool.or_eq_true]
  constructor
  · rintro ⟨hfull, htail⟩ index hindex
    have hbit : index % 8 < 8 := Nat.mod_lt _ (by decide)
    by_cases hbyte : index / 8 < msgLen / 8
    · rw [member, hfull _ hbyte]
      exact byteBit_full hbit
    · -- the index lies in the last, partial byte
      have hsame : index / 8 = msgLen / 8 := by omega
      rcases htail with hzero | htail
      · omega
      · rw [member, hsame, htail, byteBit_bitRange (by omega) hlast hbit]
        exact decide_eq_true (by omega)
  · intro hall
    constructor
    · intro position hposition
      refine (byte_eq_full_iff _).mpr fun index hindex => ?_
      have hmember := hall (8 * position + index) (by omega)
      rw [member, show (8 * position + index) / 8 = position by omega,
        show (8 * position + index) % 8 = index by omega] at hmember
      exact hmember
    · by_cases hzero : msgLen % 8 = 0
      · exact Or.inl hzero
      · refine Or.inr (byte_ext fun index hindex => ?_)
        have hdiv : (8 * (msgLen / 8) + index) / 8 = msgLen / 8 := by omega
        have hmod : (8 * (msgLen / 8) + index) % 8 = index := by omega
        have hmember : member reassembly (8 * (msgLen / 8) + index) =
            byteBit (reassembly.getD (msgLen / 8) 0) index := by
          rw [member, hdiv, hmod]
        rw [← hmember, byteBit_bitRange (by omega) hlast hindex]
        by_cases hin : 8 * (msgLen / 8) + index < msgLen
        · rw [hall _ hin, decide_eq_true (by omega)]
        · rw [hbeyond _ (by omega), decide_eq_false (by omega)]

/-! ### Receiving slices of one message -/

structure HmMessage where
  type : UInt8
  seq : UInt16
  body : Bytes
deriving DecidableEq, Repr

def HmMessage.raw (msg : HmMessage) : Bytes :=
  hmMessageHeader msg.type msg.body.length msg.seq ++ msg.body

def HmMessage.header (msg : HmMessage) (fragOff fragLen : Nat) : HmHeader :=
  { type := msg.type, msgLen := msg.body.length, seq := msg.seq, fragOff, fragLen }

def HmMessage.fragment (msg : HmMessage) (fragOff fragLen : Nat) : Bytes :=
  (msg.header fragOff fragLen).encode ++ (msg.body.drop fragOff).take fragLen

structure HmMessage.Slice (msg : HmMessage) (hdr : HmHeader) (body : Bytes) : Prop where
  type_eq : hdr.type = msg.type
  seq_eq : hdr.seq = msg.seq
  msgLen_eq : hdr.msgLen = msg.body.length
  inside : hdr.fragOff + hdr.fragLen ≤ msg.body.length
  body_eq : body = (msg.body.drop hdr.fragOff).take hdr.fragLen

/-- The `OPENSSL_memcpy` of a fragment's contents into its message. -/
def HmFragment.copyBody (frag : HmFragment) (hdr : HmHeader) (body : Bytes) : HmFragment :=
  { frag with data := memcpyAt frag.data (DTLS1_HM_HEADER_LENGTH + hdr.fragOff) body }

/-- What the loop of `dtls1_open_handshake` does with a fragment once its message
    is known: nothing if the message is assembled, else copy and mark. -/
def HmFragment.receive (frag : HmFragment) (hdr : HmHeader) (body : Bytes) : Option HmFragment :=
  match frag.reassembly with
  | none => some frag
  | some _ =>
    dtls1HmFragmentMark (frag.copyBody hdr body) hdr.fragOff (hdr.fragOff + hdr.fragLen)

/-- What holds of every fragment, whatever was received for it: the buffer has
    room for the whole message, and a mask exists only for a nonempty one. -/
structure HmFragment.WellFormed (frag : HmFragment) : Prop where
  length_eq : frag.data.length = DTLS1_HM_HEADER_LENGTH + frag.msgLen
  pos_of_mask : ∀ mask, frag.reassembly = some mask → 0 < frag.msgLen

variable {frag : HmFragment}

theorem dtls1HmFragmentNew_spec {memory : Option (Nat → UInt8)}
    (hnew : dtls1HmFragmentNew memory hdr = some frag) :
    frag.WellFormed ∧ frag.type = hdr.type ∧ frag.seq = hdr.seq ∧ frag.msgLen = hdr.msgLen := by
  obtain ⟨uninitialised, -, hfrag⟩ := Option.bind_eq_some_iff.mp hnew
  cases hfrag
  refine ⟨⟨by simp, ?_⟩, rfl, rfl, rfl⟩
  intro mask hmask
  dsimp only at hmask ⊢
  split at hmask
  · assumption
  · cases hmask

/-- Copying and marking a range inside the message fails no assertion and writes
    inside the buffer; an assembled message stays as it is. -/
theorem HmFragment.receive_wellFormed (hwf : frag.WellFormed) {body : Bytes}
    (hbody : body.length = hdr.fragLen) (hinside : hdr.fragOff + hdr.fragLen ≤ frag.msgLen) :
    ∃ frag', frag.receive hdr body = some frag' ∧ frag'.WellFormed ∧ frag'.type = frag.type ∧
      frag'.seq = frag.seq ∧ frag'.msgLen = frag.msgLen ∧
      (frag.reassembly = none → frag' = frag) := by
  cases hmask : frag.reassembly with
  | none =>
    exact ⟨frag, by rw [receive, hmask], hwf, rfl, rfl, rfl, fun _ => rfl⟩
  | some mask =>
    have hpos := hwf.pos_of_mask mask hmask
    have hlength : (frag.copyBody hdr body).data.length = DTLS1_HM_HEADER_LENGTH + frag.msgLen :=
      (length_memcpyAt (by rw [hwf.length_eq]; omega)).trans hwf.length_eq
    have hmark : ∃ reassembly, frag.receive hdr body =
        some { frag.copyBody hdr body with reassembly } := by
      have hmask' : (frag.copyBody hdr body).reassembly = some mask := hmask
      have hmsgLen : (frag.copyBody hdr body).msgLen = frag.msgLen := rfl
      rw [receive, hmask]
      dsimp only
      rw [dtls1HmFragmentMark, hmask']
      dsimp only
      rw [if_neg (by rw [hmsgLen]; omega)]
      split_ifs
      · exact ⟨some mask, by rw [← hmask']⟩
      · exact ⟨_, rfl⟩
      · exact ⟨_, rfl⟩
    obtain ⟨reassembly, hreceive⟩ := hmark
    exact ⟨_, hreceive, ⟨hlength, fun _ _ => hpos⟩, rfl, rfl, rfl, fun h => by cases h⟩

/-- `frag` is `msg` with exactly the positions of `received` filled in. -/
structure HmFragment.Holds (frag : HmFragment) (msg : HmMessage)
    (received : Set Nat) : Prop where
  type_eq : frag.type = msg.type
  seq_eq : frag.seq = msg.seq
  msgLen_eq : frag.msgLen = msg.body.length
  inside : ∀ k ∈ received, k < msg.body.length
  length_eq : frag.data.length = DTLS1_HM_HEADER_LENGTH + msg.body.length
  header_eq : ∀ k < DTLS1_HM_HEADER_LENGTH, frag.data[k]? =
    (hmMessageHeader msg.type msg.body.length msg.seq)[k]?
  bytes_eq : ∀ k ∈ received, frag.data[DTLS1_HM_HEADER_LENGTH + k]? = msg.body[k]?
  complete_iff : frag.reassembly = none ↔ ∀ k < msg.body.length, k ∈ received
  mask_iff : ∀ mask, frag.reassembly = some mask →
    mask.length = (msg.body.length + 7) / 8 ∧ ∀ k, member mask k = true ↔ k ∈ received

theorem HmFragment.Holds.data_of_complete {msg : HmMessage} {received : Set Nat}
    (hholds : frag.Holds msg received) (hcomplete : frag.reassembly = none) :
    frag.data = msg.raw := by
  have hall := hholds.complete_iff.mp hcomplete
  apply ext_getElem?
  intro index
  unfold HmMessage.raw
  rw [getElem?_append, length_hmMessageHeader]
  by_cases hheader : index < DTLS1_HM_HEADER_LENGTH
  · rw [if_pos hheader, hholds.header_eq index hheader]
  · rw [if_neg hheader]
    by_cases hbody : index - DTLS1_HM_HEADER_LENGTH < msg.body.length
    · have hbyte := hholds.bytes_eq _ (hall _ hbody)
      rwa [Nat.add_sub_cancel' (Nat.not_lt.mp hheader)] at hbyte
    · have hlength := hholds.length_eq
      rw [getElem?_eq_none (by omega), getElem?_eq_none (by omega)]

/-- A fragment freshly created for `msg` has received nothing. -/
theorem dtls1HmFragmentNew_holds {memory : Option (Nat → UInt8)} {body : Bytes} {msg : HmMessage}
    (hslice : msg.Slice hdr body) (hnew : dtls1HmFragmentNew memory hdr = some frag) :
    frag.Holds msg ∅ := by
  obtain ⟨uninitialised, -, hfrag⟩ := Option.bind_eq_some_iff.mp hnew
  cases hfrag
  refine ⟨hslice.type_eq, hslice.seq_eq, hslice.msgLen_eq, by simp, ?_, ?_, by simp, ?_, ?_⟩
  · simp [hslice.msgLen_eq]
  · intro k hk
    dsimp only
    rw [getElem?_append_left (by rw [length_hmMessageHeader]; exact hk), hslice.type_eq,
      hslice.seq_eq, hslice.msgLen_eq]
  · dsimp only
    rw [hslice.msgLen_eq]
    by_cases hempty : 0 < msg.body.length
    · simp only [if_pos hempty, Set.mem_empty_iff_false, imp_false]
      constructor
      · intro h; cases h
      · intro h; exact absurd hempty (h 0)
    · simp only [if_neg hempty, Set.mem_empty_iff_false, imp_false, true_iff]
      omega
  · intro mask hmask
    dsimp only at hmask
    split at hmask
    · cases hmask
      simp [hslice.msgLen_eq]
    · cases hmask

/-- `dtls1_hm_fragment_mark` adds a range inside the message to the positions
    received, and its assertions hold. -/
theorem dtls1HmFragmentMark_spec {mask : Bytes} {start stop : Nat} {received : Set Nat}
    (hmask : frag.reassembly = some mask) (hlength : mask.length = (frag.msgLen + 7) / 8)
    (horder : start ≤ stop) (hstop : stop ≤ frag.msgLen)
    (hmissing : ∃ k < frag.msgLen, k ∉ received)
    (hmember : ∀ k, member mask k = true ↔ k ∈ received) (hinside : ∀ k ∈ received, k < frag.msgLen)
    : ∃ reassembly, dtls1HmFragmentMark frag start stop = some { frag with reassembly } ∧
      (reassembly = none ↔ ∀ k < frag.msgLen, k ∈ received ∪ Set.Ico start stop) ∧
      ∀ mask', reassembly = some mask' → mask'.length = (frag.msgLen + 7) / 8 ∧
        ∀ k, member mask' k = true ↔ k ∈ received ∪ Set.Ico start stop := by
  obtain ⟨missing, hmissing, hnot⟩ := hmissing
  unfold dtls1HmFragmentMark
  rw [hmask]
  dsimp only
  rw [if_neg (by omega)]
  by_cases hempty : start = stop
  · refine ⟨some mask, ?_, ?_, ?_⟩
    · rw [if_pos hempty, ← hmask]
    · rw [hempty, Set.Ico_self, Set.union_empty]
      exact iff_of_false (by simp) fun hall => hnot (hall missing hmissing)
    · rintro mask' ⟨⟩
      rw [hempty, Set.Ico_self, Set.union_empty]
      exact ⟨hlength, hmember⟩
  · have hmember' : ∀ k, member (markRange mask start stop) k = true ↔
        k ∈ received ∪ Set.Ico start stop := by
      intro k
      rw [member_markRange (by omega) (by omega), Bool.or_eq_true, hmember k, decide_eq_true_iff,
        Set.mem_union, Set.mem_Ico]
    have hcomplete : reassemblyComplete (markRange mask start stop) frag.msgLen = true ↔
        ∀ k < frag.msgLen, k ∈ received ∪ Set.Ico start stop := by
      rw [reassemblyComplete_iff fun index hindex => ?_]
      · simp [hmember']
      · rw [← Bool.not_eq_true, hmember']
        rintro (hold | hnew)
        · exact absurd (hinside _ hold) (by omega)
        · exact absurd (Set.mem_Ico.mp hnew).2 (by omega)
    refine ⟨_, by rw [if_neg hempty], ?_, ?_⟩
    · rw [← hcomplete]
      split_ifs with h <;> simp [h]
    · intro mask' hmask'
      split_ifs at hmask'
      cases hmask'
      exact ⟨by rw [length_markRange, hlength], hmember'⟩

/-- **One fragment.**  A slice of the message adds its positions, whichever had been received
    before; once the message is complete nothing changes. -/
theorem HmFragment.receive_holds {msg : HmMessage} {received : Set Nat} {body : Bytes}
    (hholds : frag.Holds msg received) (hslice : msg.Slice hdr body) :
    ∃ frag', frag.receive hdr body = some frag' ∧
      frag'.Holds msg (received ∪ Set.Ico hdr.fragOff (hdr.fragOff + hdr.fragLen)) := by
  have hfragment := hslice.inside
  have hinside : ∀ k ∈ received ∪ Set.Ico hdr.fragOff (hdr.fragOff + hdr.fragLen),
      k < msg.body.length := by
    rintro k (hold | hnew)
    · exact hholds.inside k hold
    · have := (Set.mem_Ico.mp hnew).2
      omega
  cases hmask : frag.reassembly with
  | none =>
    have hall := hholds.complete_iff.mp hmask
    refine ⟨frag, by rw [receive, hmask],
      { hholds with inside := hinside, bytes_eq := ?_, complete_iff := ?_, mask_iff := ?_ }⟩
    · exact fun k hk => hholds.bytes_eq k (hall k (hinside k hk))
    · exact iff_of_true hmask fun k hk => Or.inl (hall k hk)
    · intro mask h
      rw [hmask] at h
      cases h
  | some mask =>
    obtain ⟨hmaskLength, hmember⟩ := hholds.mask_iff mask hmask
    have hmissing : ∃ k < msg.body.length, k ∉ received := by
      have hnot := mt hholds.complete_iff.mpr (by rw [hmask]; exact Option.some_ne_none _)
      push Not at hnot
      exact hnot
    rw [← hholds.msgLen_eq] at hmaskLength hmissing
    obtain ⟨reassembly, hmark, hnone, hsome⟩ :=
      dtls1HmFragmentMark_spec (show (frag.copyBody hdr body).reassembly = some mask from hmask)
        hmaskLength
        (Nat.le_add_right hdr.fragOff hdr.fragLen)
        (by rw [copyBody, hholds.msgLen_eq]; exact hfragment) hmissing hmember
        (fun k hk => by rw [copyBody, hholds.msgLen_eq]; exact hholds.inside k hk)
    rw [copyBody, hholds.msgLen_eq] at hnone hsome
    have hbodyLength : body.length = hdr.fragLen := by
      rw [hslice.body_eq, length_take, length_drop]
      omega
    have hdataLength := hholds.length_eq
    have hfits : DTLS1_HM_HEADER_LENGTH + hdr.fragOff + body.length ≤ frag.data.length := by
      omega
    refine ⟨{ frag.copyBody hdr body with reassembly },
      by rw [receive, hmask]; exact hmark, hholds.type_eq, hholds.seq_eq,
      hholds.msgLen_eq, hinside, ?_, ?_, ?_, hnone, hsome⟩
    · exact (length_memcpyAt hfits).trans hdataLength
    · intro k hk
      refine (getElem?_memcpyAt hfits k).trans ?_
      rw [if_neg (by omega), hholds.header_eq k hk]
    · intro k hk
      refine (getElem?_memcpyAt hfits _).trans ?_
      split_ifs with hnew
      · rw [hslice.body_eq, getElem?_take_of_lt (by omega), getElem?_drop]
        congr 1
        omega
      · rcases hk with hold | hnew'
        · exact hholds.bytes_eq k hold
        · have := Set.mem_Ico.mp hnew'
          omega

end AwsLc
