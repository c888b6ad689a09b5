import AwsLc.Blocks
import AwsLc.ByteString
import AwsLc.ConstantTime
import AwsLc.Transducer

/-!
# Base64 (`base64.c`)

The streaming encoder keeps an unfinished line of up to 47 bytes between calls and the streaming
decoder an unfinished quad of up to three characters.  Both fail if they would return more than
`INT_MAX` in one call.  Apart from that neither depends on how its input is cut.
-/

namespace AwsLc

open AwsLc.Blocks Transducer Nat
open List hiding Vector

def constantTimeEq8 (a b : UInt8) : UInt8 :=
  (constantTimeIsZeroW (a.toUInt64 ^^^ b.toUInt64)).toUInt8

def constantTimeSelect8 (mask a b : UInt8) : UInt8 := (mask &&& a) ||| (~~~mask &&& b)

def constantTimeLtArgs8 (a b : UInt8) : UInt8 :=
  (constantTimeMsbW (a.toUInt64 - b.toUInt64)).toUInt8

def constantTimeInRange8 (a min max : UInt8) : UInt8 :=
  constantTimeLtArgs8 (a - min) (max - min + 1)

/-! ### Encoding -/

def charUpperA : UInt8 := 0x41
def charUpperZ : UInt8 := 0x5a
def charLowerA : UInt8 := 0x61
def charLowerZ : UInt8 := 0x7a
def charZero : UInt8 := 0x30
def charNine : UInt8 := 0x39
def charPlus : UInt8 := 0x2b
def charSlash : UInt8 := 0x2f
def charEquals : UInt8 := 0x3d
def charNewline : UInt8 := 0x0a

def convBin2ascii (value : UInt8) : UInt8 :=
  let a := value &&& 0x3f
  let ret := constantTimeSelect8 (constantTimeEq8 a 62) charPlus charSlash
  let ret := constantTimeSelect8 (constantTimeLtArgs8 a 62) (a - 52 + charZero) ret
  let ret := constantTimeSelect8 (constantTimeLtArgs8 a 52) (a - 26 + charLowerA) ret
  constantTimeSelect8 (constantTimeLtArgs8 a 26) (a + charUpperA) ret

def evpEncodeBlock : Bytes → Bytes
  | [] => []
  | [a] =>
    let l := a.toUInt32 <<< 16
    [convBin2ascii (l >>> 18).toUInt8, convBin2ascii (l >>> 12).toUInt8, charEquals, charEquals]
  | [a, b] =>
    let l := a.toUInt32 <<< 16 ||| b.toUInt32 <<< 8
    [convBin2ascii (l >>> 18).toUInt8, convBin2ascii (l >>> 12).toUInt8,
      convBin2ascii (l >>> 6).toUInt8, charEquals]
  | a :: b :: c :: src =>
    let l := a.toUInt32 <<< 16 ||| b.toUInt32 <<< 8 ||| c.toUInt32
    [convBin2ascii (l >>> 18).toUInt8, convBin2ascii (l >>> 12).toUInt8,
      convBin2ascii (l >>> 6).toUInt8, convBin2ascii l.toUInt8] ++ evpEncodeBlock src

structure EvpEncodeCtx (capacity : Nat) where
  data : Bytes
  eofSeen : Bool
  errorEncountered : Bool
  dataUsed_lt : errorEncountered = false → data.length < capacity

/-- `sizeof(ctx->data)`. -/
def kLineSize : Nat := 48

/-- The loop of `EVP_EncodeUpdate` over whole lines; `none` where the count of characters wraps. -/
def encodeWholeLines (total : Nat) (input : Bytes) : Option (Bytes × Bytes) :=
  if kLineSize ≤ input.length then
    let encoded := evpEncodeBlock (input.take kLineSize)
    if (total + encoded.length + 1) % 2 ^ 64 < total then none
    else
      match encodeWholeLines (total + encoded.length + 1) (input.drop kLineSize) with
      | none => none
      | some (text, rest) => some (encoded ++ charNewline :: text, rest)
  else some ([], input)
termination_by input.length
decreasing_by
  have hsize : 0 < kLineSize := by decide
  rw [length_drop]
  omega

theorem encodeWholeLines_rest_lt {total : Nat} {input text rest : Bytes}
    (h : encodeWholeLines total input = some (text, rest)) : rest.length < kLineSize := by
  induction input using blockInduction (show 0 < kLineSize by decide) generalizing total text with
  | short input hshort =>
    rw [encodeWholeLines, if_neg (by omega)] at h
    cases h
    exact hshort
  | block block input hblock ih =>
    rw [encodeWholeLines, if_pos (by rw [length_append]; omega)] at h
    dsimp only at h
    split at h
    · cases h
    rw [drop_left' hblock] at h
    split at h
    · cases h
    · next hrest =>
      cases h
      exact ih hrest

def evpEncodeInit : EvpEncodeCtx kLineSize :=
  { data := [], eofSeen := false, errorEncountered := false, dataUsed_lt := fun _ => by decide }

variable (ctx : EvpEncodeCtx kLineSize)

/-- Whether `EVP_EncodeUpdate` returns one, the first `*out_len` bytes, and the context. -/
def evpEncodeUpdate (input : Bytes) : Bool × Bytes × EvpEncodeCtx kLineSize :=
  if input = [] then (false, [], ctx)
  else if hfits : input.length < kLineSize - ctx.data.length then
    (true, [], { ctx with
      data := ctx.data ++ input
      dataUsed_lt := fun _ => by rw [length_append]; omega })
  else
    let todo := if ctx.data = [] then 0 else kLineSize - ctx.data.length
    let first :=
      if ctx.data = [] then []
      else evpEncodeBlock (ctx.data ++ input.take todo) ++ [charNewline]
    match hlines : encodeWholeLines first.length (input.drop todo) with
    | none => (false, [], { ctx with
        data := []
        dataUsed_lt := fun _ => by decide })
    | some (text, rest) =>
      let next : EvpEncodeCtx kLineSize := { ctx with
        data := rest
        dataUsed_lt := fun _ => encodeWholeLines_rest_lt hlines }
      if INT_MAX < (first ++ text).length then (false, [], next) else (true, first ++ text, next)

def evpEncodeFinal : Bytes × EvpEncodeCtx kLineSize :=
  if ctx.data = [] then ([], ctx)
  else (evpEncodeBlock ctx.data ++ [charNewline], { ctx with
    data := []
    dataUsed_lt := fun _ => by decide })

/-! ### Decoding -/

def base64AsciiToBin (a : UInt8) : UInt8 :=
  let isUpper := constantTimeInRange8 a charUpperA charUpperZ
  let isLower := constantTimeInRange8 a charLowerA charLowerZ
  let isDigit := constantTimeInRange8 a charZero charNine
  let isPlus := constantTimeEq8 a charPlus
  let isSlash := constantTimeEq8 a charSlash
  let isEquals := constantTimeEq8 a charEquals
  let ret := (isUpper &&& (a - charUpperA)) ||| (isLower &&& (a - charLowerA + 26)) |||
    (isDigit &&& (a - charZero + 52)) ||| (isPlus &&& 62) ||| (isSlash &&& 63)
  let isValid := isUpper ||| isLower ||| isDigit ||| isPlus ||| isSlash ||| isEquals
  ret ||| ~~~isValid

def quadValue (a b c d : UInt8) : UInt32 :=
  a.toUInt32 <<< 18 ||| b.toUInt32 <<< 12 ||| c.toUInt32 <<< 6 ||| d.toUInt32

def base64DecodeQuad (quad : Vector UInt8 4) : Option Bytes :=
  let a := base64AsciiToBin quad[0]
  let b := base64AsciiToBin quad[1]
  let c := base64AsciiToBin quad[2]
  let d := base64AsciiToBin quad[3]
  if a = 0xff ∨ b = 0xff ∨ c = 0xff ∨ d = 0xff then none
  else
    let v := quadValue a b c d
    let paddingPattern := (quad[0] == charEquals).toNat <<< 3 |||
      (quad[1] == charEquals).toNat <<< 2 ||| (quad[2] == charEquals).toNat <<< 1 |||
      (quad[3] == charEquals).toNat
    match paddingPattern with
    | 0 => some [(v >>> 16).toUInt8, (v >>> 8).toUInt8, v.toUInt8]
    | 1 => some [(v >>> 16).toUInt8, (v >>> 8).toUInt8]
    | 3 => some [(v >>> 16).toUInt8]
    | _ => none

def isBlank (c : UInt8) : Bool := c == 0x20 || c == 0x09 || c == 0x0d || c == 0x0a

/-- `EVP_DecodeInit`, and every context between two quads. -/
def idleCtx (eofSeen : Bool) : EvpEncodeCtx 4 :=
  { data := [], eofSeen := eofSeen, errorEncountered := false, dataUsed_lt := fun _ => by decide }

def evpDecodeInit : EvpEncodeCtx 4 := idleCtx false

/-- The context after an error, with `data` in it. -/
def EvpEncodeCtx.fail {capacity : Nat} (ctx : EvpEncodeCtx capacity) (data : Bytes) :
    EvpEncodeCtx capacity :=
  { ctx with data := data, errorEncountered := true, dataUsed_lt := fun h => Bool.noConfusion h }

theorem EvpEncodeCtx.push_lt {ctx : EvpEncodeCtx 4} {c : UInt8}
    (hfull : (ctx.data ++ [c]).length ≠ 4) (hok : ctx.errorEncountered = false) :
    (ctx.data ++ [c]).length < 4 := by
  have hlt := ctx.dataUsed_lt hok
  rw [length_append, length_singleton] at hfull ⊢
  omega

/-- The loop body of `EVP_DecodeUpdate`.  An error is `return -1` with the context left. -/
def decodeChar (ctx : EvpEncodeCtx 4) (c : UInt8) :
    Except (EvpEncodeCtx 4) (EvpEncodeCtx 4 × Bytes) :=
  if isBlank c then .ok (ctx, [])
  else if ctx.eofSeen then .error (ctx.fail ctx.data)
  else if hfull : (ctx.data ++ [c]).length = 4 then
    match base64DecodeQuad ⟨(ctx.data ++ [c]).toArray, hfull⟩ with
    | none => .error (ctx.fail (ctx.data ++ [c]))
    | some out => .ok ({ ctx with
        data := []
        eofSeen := ctx.eofSeen || decide (out.length < 3)
        dataUsed_lt := fun _ => (idleCtx false).dataUsed_lt rfl }, out)
  else
    .ok ({ ctx with
      data := ctx.data ++ [c]
      dataUsed_lt := EvpEncodeCtx.push_lt hfull }, [])

/-- What `EVP_DecodeUpdate` returns, the first `*out_len` bytes, and the context. -/
def evpDecodeUpdate (ctx : EvpEncodeCtx 4) (input : Bytes) : Int × Bytes × EvpEncodeCtx 4 :=
  if ctx.errorEncountered then (-1, [], ctx)
  else
    match run decodeChar ctx input with
    | .error failed => (-1, [], failed)
    | .ok (next, out) =>
      if INT_MAX < out.length then (-1, [], next.fail next.data)
      else (if next.eofSeen then 0 else 1, out, next)

def evpDecodeFinal (ctx : EvpEncodeCtx 4) : Int :=
  if ctx.errorEncountered ∨ ctx.data ≠ [] then -1 else 1

/-- A call of `EVP_EncodeUpdate`, which stops the caller when it returns zero. -/
def encodeChunk (chunk : Bytes) :
    Except (EvpEncodeCtx kLineSize) (EvpEncodeCtx kLineSize × Bytes) :=
  match evpEncodeUpdate ctx chunk with
  | (true, out, next) => .ok (next, out)
  | (false, _, next) => .error next

/-- The outputs of `EVP_EncodeUpdate` on `chunks` and of `EVP_EncodeFinal`. -/
def encodeStream (chunks : List Bytes) : Option Bytes :=
  match run encodeChunk evpEncodeInit chunks with
  | .error _ => none
  | .ok (ctx, out) => some (out ++ (evpEncodeFinal ctx).1)

/-- A call of `EVP_DecodeUpdate`, which stops the caller when it returns `-1`. -/
def decodePiece (ctx : EvpEncodeCtx 4) (piece : Bytes) :
    Except (EvpEncodeCtx 4) (EvpEncodeCtx 4 × Bytes) :=
  match evpDecodeUpdate ctx piece with
  | (ret, out, next) => if ret = -1 then .error next else .ok (next, out)

/-- The outputs of `EVP_DecodeUpdate` on `pieces`, if `EVP_DecodeFinal` returns one. -/
def decodeStream (pieces : List Bytes) : Option Bytes :=
  match run decodePiece evpDecodeInit pieces with
  | .error _ => none
  | .ok (ctx, out) => if evpDecodeFinal ctx = 1 then some out else none

def encodedLine (line : Bytes) : Bytes := evpEncodeBlock line ++ [charNewline]

/-- The lines of 48 bytes of `bytes`, and a shorter one for the rest. -/
def encodedLines (bytes : Bytes) : Bytes :=
  (blocks kLineSize bytes).flatMap encodedLine ++
    (if leftover kLineSize bytes = [] then [] else encodedLine (leftover kLineSize bytes))

/-- Each call of `EVP_EncodeUpdate` completes lines of at most `INT_MAX` characters, when
    `used` bytes were waiting before the first. -/
def encodeFits (used : Nat) : List Bytes → Bool
  | [] => true
  | chunk :: chunks =>
    decide (65 * ((used + chunk.length) / kLineSize) ≤ INT_MAX) &&
      encodeFits ((used + chunk.length) % kLineSize) chunks

def charCount (text : Bytes) : Nat := (text.filter fun c => !isBlank c).length

/-- How many of `bytes` are decoded at the end of the start `text` of their encoding. -/
def decodedLength (bytes text : Bytes) : Nat := min bytes.length (3 * (charCount text / 4))

/-- Each call of `EVP_DecodeUpdate` after `before` completes at most `INT_MAX` bytes. -/
def decodeFits (bytes before : Bytes) : List Bytes → Bool
  | [] => true
  | piece :: pieces =>
    decide (decodedLength bytes (before ++ piece) - decodedLength bytes before ≤ INT_MAX) &&
      decodeFits bytes (before ++ piece) pieces

/-! ### The encoder -/

theorem kLineSize_pos : 0 < kLineSize := by decide

theorem length_evpEncodeBlock (src : Bytes) :
    (evpEncodeBlock src).length = 4 * ((src.length + 2) / 3) := by
  induction src using evpEncodeBlock.induct with
  | case1 => rfl
  | case2 a => simp [evpEncodeBlock]
  | case3 a b => simp [evpEncodeBlock]
  | case4 a b c src ih =>
    rw [evpEncodeBlock]
    simp only [cons_append, nil_append, length_cons, ih]
    omega

theorem length_encodedLine {line : Bytes} (h : line.length = kLineSize) :
    (encodedLine line).length = 65 := by
  rw [encodedLine, length_append, length_evpEncodeBlock, h]
  rfl

theorem length_flatMap_encodedLine {lines : List Bytes}
    (h : ∀ line ∈ lines, line.length = kLineSize) :
    (lines.flatMap encodedLine).length = 65 * lines.length := by
  induction lines with
  | nil => rfl
  | cons line lines ih =>
    obtain ⟨hline, hlines⟩ := forall_mem_cons.mp h
    rw [flatMap_cons, length_append, length_encodedLine hline, ih hlines,
      length_cons]
    omega

/-- The loop over whole lines writes them all if the count fits in a `size_t`, or fails. -/
theorem encodeWholeLines_eq {total : Nat} (htotal : total < 2 ^ 64) (input : Bytes) :
    encodeWholeLines total input = if total + 65 * (input.length / kLineSize) < 2 ^ 64 then
        some ((blocks kLineSize input).flatMap encodedLine, leftover kLineSize input)
      else none := by
  induction input using blockInduction kLineSize_pos generalizing total with
  | short input hshort =>
    rw [encodeWholeLines, if_neg (by omega), blocks_of_lt hshort, leftover_of_lt hshort,
      div_eq_of_lt hshort, if_pos (by omega)]
    rfl
  | block line input hline ih =>
    have hlength := length_encodedLine hline
    rw [encodedLine, length_append, length_singleton] at hlength
    have hdiv : (line ++ input).length / kLineSize = input.length / kLineSize + 1 := by
      rw [length_append, hline, add_div_left _ kLineSize_pos]
    rw [encodeWholeLines, if_pos (by rw [length_append]; omega)]
    simp only [take_left' hline, drop_left' hline]
    rw [show total + (evpEncodeBlock line).length + 1 = total + 65 by omega, hdiv]
    by_cases hwrap : total + 65 < 2 ^ 64
    · rw [if_neg (by rw [Nat.mod_eq_of_lt hwrap]; omega), ih hwrap,
        blocks_block_append kLineSize_pos hline, leftover_block_append kLineSize_pos hline]
      by_cases hfits : total + 65 + 65 * (input.length / kLineSize) < 2 ^ 64
      · rw [if_pos hfits, if_pos (by omega), flatMap_cons, encodedLine, append_assoc]
        rfl
      · rw [if_neg hfits, if_neg (by omega)]
    · have hcount : 2 ^ 64 ≤ total + 65 * (input.length / kLineSize + 1) := by
        rw [Nat.mul_add]
        exact (Nat.le_of_not_lt hwrap).trans (Nat.add_le_add_left (Nat.le_add_left _ _) _)
      rw [if_pos (by omega), if_neg (Nat.not_lt.mpr hcount)]

/-- Before the loop of `EVP_EncodeUpdate`: waiting bytes and enough of the input are a line. -/
theorem encode_first_line {data input : Bytes} (hdata : data.length < kLineSize)
    (hlong : kLineSize - data.length ≤ input.length) :
    let todo := if data = [] then 0 else kLineSize - data.length
    let first := if data = [] then [] else evpEncodeBlock (data ++ input.take todo) ++ [charNewline]
    first.length + 65 * ((input.drop todo).length / kLineSize) =
        65 * ((data ++ input).length / kLineSize) ∧
      first ++ (blocks kLineSize (input.drop todo)).flatMap encodedLine =
        (blocks kLineSize (data ++ input)).flatMap encodedLine ∧
      leftover kLineSize (input.drop todo) = leftover kLineSize (data ++ input) ∧
      first.length < 2 ^ 64 := by
  intro todo first
  by_cases hempty : data = []
  · simp only [todo, first, hempty, if_true, drop_zero, nil_append, length_nil,
      zero_add]
    exact ⟨trivial, trivial, trivial, by decide⟩
  have hline : (data ++ input.take (kLineSize - data.length)).length = kLineSize := by
    rw [length_append, length_take]
    omega
  have hsplit : data ++ input = (data ++ input.take (kLineSize - data.length)) ++
      input.drop (kLineSize - data.length) := by
    rw [append_assoc, take_append_drop]
  have hfirst := length_encodedLine hline
  simp only [todo, first, if_neg hempty]
  rw [← encodedLine, hfirst, hsplit, blocks_block_append kLineSize_pos hline,
    leftover_block_append kLineSize_pos hline, length_append, hline,
    add_div_left _ kLineSize_pos, flatMap_cons, Nat.mul_add, add_comm]
  exact ⟨rfl, rfl, rfl, by decide⟩

/-- **`EVP_EncodeUpdate`.**  The call completes the lines of what was waiting and its input.
    It returns one if and only if these have at most `INT_MAX` characters. -/
theorem evpEncodeUpdate_spec (hok : ctx.errorEncountered = false)
    {input : Bytes} (hinput : input ≠ []) :
    if 65 * ((ctx.data ++ input).length / kLineSize) ≤ INT_MAX then
      ∃ next, evpEncodeUpdate ctx input =
          (true, (blocks kLineSize (ctx.data ++ input)).flatMap encodedLine, next) ∧
        next.data = leftover kLineSize (ctx.data ++ input) ∧ next.errorEncountered = false
    else ∃ next, evpEncodeUpdate ctx input = (false, [], next) := by
  have hdata := ctx.dataUsed_lt hok
  unfold evpEncodeUpdate
  rw [if_neg hinput]
  by_cases hfits : input.length < kLineSize - ctx.data.length
  · have hshort : (ctx.data ++ input).length < kLineSize := by
      rw [length_append]
      omega
    rw [dif_pos hfits, div_eq_of_lt hshort, if_pos (zero_le _), blocks_of_lt hshort,
      leftover_of_lt hshort]
    exact ⟨_, rfl, rfl, hok⟩
  rw [dif_neg hfits]
  obtain ⟨hlength, htext, hrest, hfirst⟩ := encode_first_line hdata (Nat.le_of_not_lt hfits)
  have hloop := encodeWholeLines_eq hfirst
    (input.drop (if ctx.data = [] then 0 else kLineSize - ctx.data.length))
  rw [hlength, hrest] at hloop
  have hcount : ((blocks kLineSize (ctx.data ++ input)).flatMap encodedLine).length =
      65 * ((ctx.data ++ input).length / kLineSize) := by
    rw [length_flatMap_encodedLine (length_of_mem_blocks kLineSize_pos _),
      length_blocks kLineSize_pos]
  have hmax : INT_MAX < 2 ^ 64 := by decide
  dsimp only
  by_cases hint : 65 * ((ctx.data ++ input).length / kLineSize) ≤ INT_MAX
  · rw [if_pos hint]
    rw [if_pos (hint.trans_lt hmax)] at hloop
    split
    · next hnone =>
      rw [hloop] at hnone
      cases hnone
    · next text rest hsome =>
      obtain ⟨rfl, rfl⟩ := Prod.mk.inj (Option.some.inj (hloop.symm.trans hsome))
      rw [htext, hcount, if_neg (Nat.not_lt.mpr hint)]
      exact ⟨_, rfl, rfl, hok⟩
  · rw [if_neg hint]
    split
    · exact ⟨_, rfl⟩
    · next text rest hsome =>
      rw [hloop] at hsome
      split at hsome
      · obtain ⟨rfl, rfl⟩ := Prod.mk.inj (Option.some.inj hsome)
        rw [htext, hcount, if_pos (Nat.lt_of_not_le hint)]
        exact ⟨_, rfl⟩
      · cases hsome

/-- Over any chunks the encoder has written the lines of what it has read, and keeps the rest. -/
theorem run_encodeChunk {chunks : List Bytes} (hchunks : ∀ chunk ∈ chunks, chunk ≠ [])
    (ctx : EvpEncodeCtx kLineSize) (hok : ctx.errorEncountered = false) :
    if encodeFits ctx.data.length chunks then ∃ next, run encodeChunk ctx chunks =
          .ok (next, (blocks kLineSize (ctx.data ++ chunks.flatten)).flatMap encodedLine) ∧
        next.data = leftover kLineSize (ctx.data ++ chunks.flatten)
    else ∃ stopped, run encodeChunk ctx chunks = .error stopped := by
  induction chunks generalizing ctx with
  | nil =>
    have hdata := ctx.dataUsed_lt hok
    rw [encodeFits, if_pos rfl, flatten_nil, append_nil, blocks_of_lt hdata,
      leftover_of_lt hdata]
    exact ⟨ctx, rfl, rfl⟩
  | cons chunk chunks ih =>
    obtain ⟨hchunk, hrest⟩ := forall_mem_cons.mp hchunks
    have hupdate := evpEncodeUpdate_spec ctx hok hchunk
    rw [length_append] at hupdate
    rw [encodeFits]
    by_cases hlines : 65 * ((ctx.data.length + chunk.length) / kLineSize) ≤ INT_MAX
    · rw [if_pos hlines] at hupdate
      obtain ⟨middle, hcall, hwaiting, hmiddle⟩ := hupdate
      have hstep : encodeChunk ctx chunk =
          .ok (middle, (blocks kLineSize (ctx.data ++ chunk)).flatMap encodedLine) := by
        rw [encodeChunk, hcall]
      have hused : middle.data.length = (ctx.data.length + chunk.length) % kLineSize := by
        rw [hwaiting, length_leftover kLineSize_pos, length_append]
      have hrun := ih hrest middle hmiddle
      rw [hused, hwaiting] at hrun
      rw [decide_eq_true hlines, Bool.true_and]
      split
      · next hfits =>
        rw [if_pos hfits] at hrun
        obtain ⟨next, hnext, hleft⟩ := hrun
        refine ⟨next, ?_, ?_⟩
        · rw [run_cons_of_ok hstep, hnext, flatten_cons, ← append_assoc,
            blocks_append kLineSize_pos (ctx.data ++ chunk), flatMap_append]
          rfl
        · rw [hleft, flatten_cons, ← append_assoc,
            leftover_append kLineSize_pos (ctx.data ++ chunk)]
      · next hfits =>
        rw [if_neg hfits] at hrun
        obtain ⟨stopped, hstopped⟩ := hrun
        exact ⟨stopped, by rw [run_cons_of_ok hstep, hstopped]; rfl⟩
    · rw [if_neg hlines] at hupdate
      obtain ⟨stopped, hcall⟩ := hupdate
      rw [decide_eq_false hlines, Bool.false_and, if_neg Bool.false_ne_true]
      exact ⟨stopped, by rw [run, encodeChunk, hcall]⟩

theorem encodeStream_eq {chunks : List Bytes} (hchunks : ∀ chunk ∈ chunks, chunk ≠ []) :
    encodeStream chunks =
      if encodeFits 0 chunks then some (encodedLines chunks.flatten) else none := by
  have hrun := run_encodeChunk hchunks evpEncodeInit rfl
  have hempty : evpEncodeInit.data = [] := rfl
  rw [hempty, nil_append, length_nil] at hrun
  rw [encodeStream]
  split at hrun
  · next hfits =>
    obtain ⟨next, hnext, hleft⟩ := hrun
    rw [hnext, if_pos hfits, encodedLines]
    dsimp only
    rw [evpEncodeFinal, hleft]
    split
    · rfl
    · rfl
  · next hfits =>
    obtain ⟨stopped, hstopped⟩ := hrun
    rw [hstopped, if_neg hfits]

/-! ### The decoder -/

theorem base64AsciiToBin_convBin2ascii :
    ∀ value, base64AsciiToBin (convBin2ascii value) = value &&& 0x3f := by
  apply forall_byte
  decide +kernel

theorem convBin2ascii_facts :
    ∀ value, (convBin2ascii value == charEquals) = false ∧ isBlank (convBin2ascii value) = false ∧
      value &&& 0x3f ≠ 0xff := by
  apply forall_byte
  decide +kernel

theorem or_eq_add {x y k : Nat} (hx : x % 2 ^ k = 0) (hy : y < 2 ^ k) : x ||| y = x + y := by
  have hor := Nat.shiftLeft_add_eq_or_of_lt hy (x / 2 ^ k)
  rw [Nat.shiftLeft_eq, Nat.div_mul_cancel (Nat.dvd_of_mod_eq_zero hx)] at hor
  exact hor.symm

theorem shiftByte_toNat (byte : UInt8) {k : Nat} (hk : k ≤ 18) :
    (byte.toUInt32 <<< UInt32.ofNat k).toNat = byte.toNat * 2 ^ k := by
  have hbyte := byte.toNat_lt
  have hsmall : k < 2 ^ 32 := by omega
  rw [UInt32.toNat_shiftLeft, UInt8.toNat_toUInt32, UInt32.toNat_ofNat_of_lt' hsmall,
    Nat.mod_eq_of_lt (show k < 32 by omega), Nat.shiftLeft_eq, Nat.mod_eq_of_lt]
  calc byte.toNat * 2 ^ k ≤ 255 * 2 ^ 18 :=
        Nat.mul_le_mul (by omega) (Nat.pow_le_pow_right (by omega) hk)
    _ < 2 ^ 32 := by decide

theorem shiftedOctet_toNat (l : UInt32) {k : Nat} (hk : k < 32) :
    (l >>> UInt32.ofNat k).toUInt8.toNat = l.toNat / 2 ^ k % 256 := by
  have hsmall : k < 2 ^ 32 := by omega
  rw [UInt32.toNat_toUInt8, UInt32.toNat_shiftRight, UInt32.toNat_ofNat_of_lt' hsmall,
    Nat.mod_eq_of_lt hk, shiftRight_eq_div_pow]

theorem lowDigit_toNat (value : UInt8) : (value &&& 0x3f).toNat = value.toNat % 64 := by
  rw [UInt8.toNat_and]
  exact and_two_pow_sub_one_eq_mod value.toNat 6

theorem group_toNat (a b c : UInt8) :
    (a.toUInt32 <<< 16 ||| b.toUInt32 <<< 8 ||| c.toUInt32).toNat =
      a.toNat * 2 ^ 16 + b.toNat * 2 ^ 8 + c.toNat := by
  have hb := b.toNat_lt
  have hc := c.toNat_lt
  have hfirst := @shiftByte_toNat a 16 (by omega)
  have hsecond := @shiftByte_toNat b 8 (by omega)
  rw [UInt32.toNat_or, UInt32.toNat_or, UInt8.toNat_toUInt32]
  rw [show (16 : UInt32) = UInt32.ofNat 16 from rfl, show (8 : UInt32) = UInt32.ofNat 8 from rfl,
    hfirst, hsecond]
  have hinner : a.toNat * 2 ^ 16 ||| b.toNat * 2 ^ 8 = a.toNat * 2 ^ 16 + b.toNat * 2 ^ 8 :=
    or_eq_add (k := 16) (by omega) (by omega)
  rw [hinner, or_eq_add (k := 8) (by omega) (by omega)]

theorem quadValue_toNat {a b c d : UInt8} (hb : b.toNat < 64) (hc : c.toNat < 64)
    (hd : d.toNat < 64) : (quadValue a b c d).toNat =
      a.toNat * 2 ^ 18 + b.toNat * 2 ^ 12 + c.toNat * 2 ^ 6 + d.toNat := by
  have hfirst := @shiftByte_toNat a 18 (by omega)
  have hsecond := @shiftByte_toNat b 12 (by omega)
  have hthird := @shiftByte_toNat c 6 (by omega)
  rw [quadValue, UInt32.toNat_or, UInt32.toNat_or, UInt32.toNat_or, UInt8.toNat_toUInt32]
  rw [show (18 : UInt32) = UInt32.ofNat 18 from rfl, show (12 : UInt32) = UInt32.ofNat 12 from rfl,
    show (6 : UInt32) = UInt32.ofNat 6 from rfl, hfirst, hsecond, hthird]
  have hinner : a.toNat * 2 ^ 18 ||| b.toNat * 2 ^ 12 = a.toNat * 2 ^ 18 + b.toNat * 2 ^ 12 :=
    or_eq_add (k := 18) (by omega) (by omega)
  have hmiddle : a.toNat * 2 ^ 18 + b.toNat * 2 ^ 12 ||| c.toNat * 2 ^ 6 =
      a.toNat * 2 ^ 18 + b.toNat * 2 ^ 12 + c.toNat * 2 ^ 6 :=
    or_eq_add (k := 12) (by omega) (by omega)
  rw [hinner, hmiddle, or_eq_add (k := 6) (by omega) (by omega)]

theorem quadValue_digits {l : UInt32} (hl : l.toNat < 2 ^ 24) :
    quadValue ((l >>> 18).toUInt8 &&& 0x3f) ((l >>> 12).toUInt8 &&& 0x3f)
      ((l >>> 6).toUInt8 &&& 0x3f) (l.toUInt8 &&& 0x3f) = l := by
  have h18 : (l >>> 18).toUInt8.toNat = l.toNat / 2 ^ 18 % 256 :=
    @shiftedOctet_toNat l 18 (by omega)
  have h12 : (l >>> 12).toUInt8.toNat = l.toNat / 2 ^ 12 % 256 :=
    @shiftedOctet_toNat l 12 (by omega)
  have h6 : (l >>> 6).toUInt8.toNat = l.toNat / 2 ^ 6 % 256 :=
    @shiftedOctet_toNat l 6 (by omega)
  have h0 : l.toUInt8.toNat = l.toNat % 256 := UInt32.toNat_toUInt8 l
  apply UInt32.toNat_inj.mp
  rw [quadValue_toNat] <;> simp only [lowDigit_toNat, h18, h12, h6, h0] <;> omega

theorem group_octets {a b c : UInt8} {l : UInt32}
    (hl : a.toUInt32 <<< 16 ||| b.toUInt32 <<< 8 ||| c.toUInt32 = l) :
    (l >>> 16).toUInt8 = a ∧ (l >>> 8).toUInt8 = b ∧ l.toUInt8 = c ∧ l.toNat < 2 ^ 24 := by
  have hvalue := group_toNat a b c
  rw [hl] at hvalue
  have ha := a.toNat_lt
  have hb := b.toNat_lt
  have hc := c.toNat_lt
  have h16 : (l >>> 16).toUInt8.toNat = l.toNat / 2 ^ 16 % 256 :=
    @shiftedOctet_toNat l 16 (by omega)
  have h8 : (l >>> 8).toUInt8.toNat = l.toNat / 2 ^ 8 % 256 := @shiftedOctet_toNat l 8 (by omega)
  have h0 : l.toUInt8.toNat = l.toNat % 256 := UInt32.toNat_toUInt8 l
  refine ⟨UInt8.toNat_inj.mp ?_, UInt8.toNat_inj.mp ?_, UInt8.toNat_inj.mp ?_, ?_⟩ <;> omega

theorem base64DecodeQuad_three {l : UInt32} (hl : l.toNat < 2 ^ 24) :
    base64DecodeQuad #v[convBin2ascii (l >>> 18).toUInt8, convBin2ascii (l >>> 12).toUInt8,
        convBin2ascii (l >>> 6).toUInt8, convBin2ascii l.toUInt8] =
      some [(l >>> 16).toUInt8, (l >>> 8).toUInt8, l.toUInt8] := by
  simp [base64DecodeQuad, base64AsciiToBin_convBin2ascii, convBin2ascii_facts,
    quadValue_digits hl]

theorem base64DecodeQuad_two {l : UInt32} (hl : l.toNat < 2 ^ 24) (hlow : l.toUInt8 = 0) :
    base64DecodeQuad #v[convBin2ascii (l >>> 18).toUInt8, convBin2ascii (l >>> 12).toUInt8,
        convBin2ascii (l >>> 6).toUInt8, charEquals] =
      some [(l >>> 16).toUInt8, (l >>> 8).toUInt8] := by
  have hvalue := quadValue_digits hl
  rw [hlow, UInt8.zero_and] at hvalue
  have hequals : base64AsciiToBin charEquals = 0 := by decide
  simp [base64DecodeQuad, base64AsciiToBin_convBin2ascii, convBin2ascii_facts, hequals, hvalue]

theorem base64DecodeQuad_one {l : UInt32} (hl : l.toNat < 2 ^ 24) (hlow : l.toUInt8 = 0)
    (hmiddle : (l >>> 8).toUInt8 = 0) :
    base64DecodeQuad #v[convBin2ascii (l >>> 18).toUInt8, convBin2ascii (l >>> 12).toUInt8,
        charEquals, charEquals] = some [(l >>> 16).toUInt8] := by
  have hvalue := quadValue_digits hl
  have hthird : (l >>> 6).toUInt8 &&& 0x3f = 0 := by
    have h6 : (l >>> 6).toUInt8.toNat = l.toNat / 2 ^ 6 % 256 := @shiftedOctet_toNat l 6 (by omega)
    have h8 : (l >>> 8).toUInt8.toNat = l.toNat / 2 ^ 8 % 256 := @shiftedOctet_toNat l 8 (by omega)
    have h0 : l.toUInt8.toNat = l.toNat % 256 := UInt32.toNat_toUInt8 l
    rw [hmiddle, UInt8.toNat_zero] at h8
    rw [hlow, UInt8.toNat_zero] at h0
    apply UInt8.toNat_inj.mp
    rw [lowDigit_toNat, UInt8.toNat_zero]
    omega
  rw [hlow, UInt8.zero_and, hthird] at hvalue
  have hequals : base64AsciiToBin charEquals = 0 := by decide
  simp [base64DecodeQuad, base64AsciiToBin_convBin2ascii, convBin2ascii_facts, hequals, hvalue]

theorem run_quad {in0 in1 in2 in3 : UInt8} {out : Bytes}
    (hquad : base64DecodeQuad #v[in0, in1, in2, in3] = some out)
    (h0 : isBlank in0 = false) (h1 : isBlank in1 = false) (h2 : isBlank in2 = false)
    (h3 : isBlank in3 = false) : run decodeChar (idleCtx false) [in0, in1, in2, in3] =
      .ok (idleCtx (decide (out.length < 3)), out) := by
  simp [run, decodeChar, idleCtx, h0, h1, h2, h3, hquad]

/-- **A line.**  The decoder reads back the bytes of an encoded block, and has seen the end
    if it ended in padding. -/
theorem run_evpEncodeBlock (src : Bytes) : run decodeChar (idleCtx false) (evpEncodeBlock src) =
      .ok (idleCtx (decide (src.length % 3 ≠ 0)), src) := by
  have hpad : isBlank charEquals = false := by decide
  have hblank value := (convBin2ascii_facts value).2.1
  induction src using evpEncodeBlock.induct with
  | case1 => rfl
  | case2 a =>
    obtain ⟨h16, h8, h0, hl⟩ := @group_octets a 0 0 _ rfl
    rw [show a.toUInt32 <<< 16 ||| (0 : UInt8).toUInt32 <<< 8 ||| (0 : UInt8).toUInt32 =
      a.toUInt32 <<< 16 by simp] at h16 h8 h0 hl
    have hquad := base64DecodeQuad_one hl h0 h8
    rw [h16] at hquad
    rw [evpEncodeBlock]
    exact run_quad hquad (hblank _) (hblank _) hpad hpad
  | case3 a b =>
    obtain ⟨h16, h8, h0, hl⟩ := @group_octets a b 0 _ rfl
    rw [show a.toUInt32 <<< 16 ||| b.toUInt32 <<< 8 ||| (0 : UInt8).toUInt32 =
      a.toUInt32 <<< 16 ||| b.toUInt32 <<< 8 by simp] at h16 h8 h0 hl
    have hquad := base64DecodeQuad_two hl h0
    rw [h16, h8] at hquad
    rw [evpEncodeBlock]
    exact run_quad hquad (hblank _) (hblank _) (hblank _) hpad
  | case4 a b c src ih =>
    obtain ⟨h16, h8, h0, hl⟩ := @group_octets a b c _ rfl
    have hquad := (base64DecodeQuad_three hl).trans (congrArg some (by rw [h16, h8, h0]))
    have hrun := run_quad hquad (hblank _) (hblank _) (hblank _) (hblank _)
    have hlength : (a :: b :: c :: src).length % 3 = src.length % 3 := by
      rw [length_cons, length_cons, length_cons]
      omega
    rw [evpEncodeBlock, run_append_of_ok hrun, hlength]
    have hnext := congrArg (Except.map fun result => (result.1, [a, b, c] ++ result.2)) ih
    exact hnext

theorem run_encodedLine (line : Bytes) : run decodeChar (idleCtx false) (encodedLine line) =
      .ok (idleCtx (decide (line.length % 3 ≠ 0)), line) := by
  have hnewline : ∀ ctx, run decodeChar ctx [charNewline] = .ok (ctx, []) := fun _ => rfl
  rw [encodedLine, run_append_of_ok (run_evpEncodeBlock line), hnewline]
  simp [Except.map]

/-- **The text.**  The decoder reads back all lines of an encoding. -/
theorem run_encodedLines (bytes : Bytes) : run decodeChar (idleCtx false) (encodedLines bytes) =
      .ok (idleCtx (decide (bytes.length % 3 ≠ 0)), bytes) := by
  induction bytes using blockInduction kLineSize_pos with
  | short bytes hshort =>
    rw [encodedLines, blocks_of_lt hshort, leftover_of_lt hshort, flatMap_nil, nil_append]
    by_cases hempty : bytes = []
    · rw [if_pos hempty, hempty]
      rfl
    · rw [if_neg hempty]
      exact run_encodedLine bytes
  | block line bytes hline ih =>
    have hlines : encodedLines (line ++ bytes) = encodedLine line ++ encodedLines bytes := by
      rw [encodedLines, encodedLines, blocks_block_append kLineSize_pos hline,
        leftover_block_append kLineSize_pos hline, flatMap_cons, append_assoc]
    have hfirst := run_encodedLine line
    rw [hline] at hfirst
    have hlength : (line ++ bytes).length % 3 = bytes.length % 3 := by
      rw [length_append, hline, kLineSize]
      omega
    rw [hlines, run_append_of_ok hfirst, hlength]
    exact congrArg (Except.map fun result => (result.1, line ++ result.2)) ih

theorem base64DecodeQuad_length_le {quad : Vector UInt8 4} {out : Bytes}
    (h : base64DecodeQuad quad = some out) : out.length ≤ 3 := by
  unfold base64DecodeQuad at h
  dsimp only at h
  split at h
  · cases h
  split at h <;> cases h <;> simp

/-- What one character does: it is skipped, it waits, or it completes a quad. -/
theorem decodeChar_cases {ctx next : EvpEncodeCtx 4} {c : UInt8} {out : Bytes}
    (h : decodeChar ctx c = .ok (next, out)) : next.errorEncountered = ctx.errorEncountered ∧
      (isBlank c = true ∧ next = ctx ∧ out = [] ∨ isBlank c = false ∧ ctx.eofSeen = false ∧
          (next.eofSeen = false ∧ out = [] ∧ next.data.length = ctx.data.length + 1 ∨
            next.data = [] ∧ ctx.data.length = 3 ∧ out.length ≤ 3 ∧
              next.eofSeen = decide (out.length < 3))) := by
  unfold decodeChar at h
  by_cases hblank : isBlank c = true
  · rw [if_pos hblank] at h
    cases h
    exact ⟨rfl, .inl ⟨hblank, rfl, rfl⟩⟩
  rw [if_neg hblank] at h
  by_cases heof : ctx.eofSeen = true
  · rw [if_pos heof] at h
    cases h
  rw [if_neg heof] at h
  have hblank' := Bool.eq_false_iff.mpr hblank
  have heof' := Bool.eq_false_iff.mpr heof
  by_cases hfull : (ctx.data ++ [c]).length = 4
  · rw [dif_pos hfull] at h
    split at h
    · cases h
    · next decoded hquad =>
      cases h
      have hlength : ctx.data.length = 3 := by
        rw [length_append, length_singleton] at hfull
        omega
      exact ⟨rfl, .inr ⟨hblank', heof', .inr ⟨rfl, hlength, base64DecodeQuad_length_le hquad, by
        rw [heof', Bool.false_or]⟩⟩⟩
  · rw [dif_neg hfull] at h
    cases h
    exact ⟨rfl, .inr ⟨hblank', heof', .inl ⟨heof', rfl, by simp⟩⟩⟩

theorem charCount_cons_blank {c : UInt8} (h : isBlank c = true) (text : Bytes) :
    charCount (c :: text) = charCount text := by
  rw [charCount, filter_cons_of_neg (by simp [h]), charCount]

theorem charCount_cons {c : UInt8} (h : isBlank c = false) (text : Bytes) :
    charCount (c :: text) = charCount text + 1 := by
  rw [charCount, filter_cons_of_pos (by simp [h]), length_cons, charCount]

theorem run_after_eof {ctx next : EvpEncodeCtx 4} {text out : Bytes} (heof : ctx.eofSeen = true)
    (h : run decodeChar ctx text = .ok (next, out)) :
    next = ctx ∧ out = [] ∧ charCount text = 0 := by
  induction text generalizing out with
  | nil =>
    cases h
    exact ⟨rfl, rfl, rfl⟩
  | cons c text ih =>
    obtain ⟨middle, first, later, hstep, hrest, rfl⟩ := run_cons_eq_ok h
    obtain ⟨-, ⟨hblank, rfl, rfl⟩ | ⟨-, hopen, -⟩⟩ := decodeChar_cases hstep
    · rw [charCount_cons_blank hblank]
      exact ih hrest
    · rw [heof] at hopen
      cases hopen

/-- **How much is decoded.**  The decoder has three bytes for each quad it has read, save for
    the last one, and holds the characters of the unfinished quad. -/
theorem run_decodeChar_count {ctx next : EvpEncodeCtx 4} {text out : Bytes}
    (heof : ctx.eofSeen = false) (hok : ctx.errorEncountered = false)
    (h : run decodeChar ctx text = .ok (next, out)) :
    next.errorEncountered = false ∧ out.length ≤ 3 * ((ctx.data.length + charCount text) / 4) ∧
      (next.eofSeen = false → out.length = 3 * ((ctx.data.length + charCount text) / 4)) := by
  induction text generalizing ctx out with
  | nil =>
    cases h
    have hdata := next.dataUsed_lt hok
    rw [show charCount [] = 0 from rfl, add_zero, div_eq_of_lt hdata]
    exact ⟨hok, le_refl _, fun _ => rfl⟩
  | cons c text ih =>
    obtain ⟨middle, first, later, hstep, hrest, rfl⟩ := run_cons_eq_ok h
    obtain ⟨herror, hcases⟩ := decodeChar_cases hstep
    rw [hok] at herror
    rcases hcases with ⟨hblank, rfl, rfl⟩ | ⟨hchar, -, hcases⟩
    · rw [charCount_cons_blank hblank]
      exact ih heof hok hrest
    rw [charCount_cons hchar, length_append]
    rcases hcases with ⟨hopen, rfl, hlength⟩ | ⟨hdata, hlength, hout, hend⟩
    · have hrun := ih hopen herror hrest
      rw [hlength, add_right_comm] at hrun
      rw [length_nil, zero_add]
      exact hrun
    have hquads : (ctx.data.length + (charCount text + 1)) / 4 = charCount text / 4 + 1 := by
      omega
    rw [hquads]
    by_cases hlast : middle.eofSeen = true
    · obtain ⟨rfl, rfl, hnone⟩ := run_after_eof hlast hrest
      rw [hnone, length_nil]
      refine ⟨herror, by omega, ?_⟩
      intro hopen
      rw [hlast] at hopen
      cases hopen
    · have hopen := Bool.eq_false_iff.mpr hlast
      obtain ⟨hnext, hle, heq⟩ := ih hopen herror hrest
      rw [hdata, length_nil, zero_add] at hle heq
      rw [hopen] at hend
      have hthree := of_decide_eq_false hend.symm
      refine ⟨hnext, by omega, ?_⟩
      intro hfinal
      have hlater := heq hfinal
      omega

/-- The start of an encoding decodes to as many bytes as `decodedLength` says. -/
theorem run_start {bytes before after done : Bytes} {ctx final : EvpEncodeCtx 4}
    (htext : run decodeChar (idleCtx false) (before ++ after) = .ok (final, bytes))
    (hbefore : run decodeChar (idleCtx false) before = .ok (ctx, done)) :
    ctx.errorEncountered = false ∧ done.length = decodedLength bytes before := by
  obtain ⟨hok, hle, heq⟩ := run_decodeChar_count rfl rfl hbefore
  rw [show (idleCtx false).data.length = 0 from rfl, zero_add] at hle heq
  refine ⟨hok, ?_⟩
  obtain ⟨middle, first, second, hfirst, hsecond, rfl⟩ := run_append_eq_ok htext
  obtain ⟨rfl, rfl⟩ := Prod.mk.inj (Except.ok.inj (hfirst.symm.trans hbefore))
  rw [decodedLength, length_append]
  by_cases heof : middle.eofSeen = true
  · obtain ⟨-, rfl, -⟩ := run_after_eof heof hsecond
    rw [length_nil, add_zero, min_eq_left hle]
  · have hdone := heq (Bool.eq_false_iff.mpr heof)
    rw [← hdone, min_eq_right (le_add_right _ _)]

theorem run_decodePiece {bytes : Bytes} {final : EvpEncodeCtx 4} {pieces : List Bytes}
    {before done : Bytes} {ctx : EvpEncodeCtx 4}
    (htext : run decodeChar (idleCtx false) (before ++ pieces.flatten) = .ok (final, bytes))
    (hbefore : run decodeChar (idleCtx false) before = .ok (ctx, done)) :
    if decodeFits bytes before pieces then
      ∃ later, run decodePiece ctx pieces = .ok (final, later) ∧ done ++ later = bytes
    else ∃ stopped, run decodePiece ctx pieces = .error stopped := by
  induction pieces generalizing before done ctx with
  | nil =>
    rw [flatten_nil, append_nil, hbefore] at htext
    cases htext
    rw [decodeFits, if_pos rfl]
    exact ⟨[], rfl, append_nil _⟩
  | cons piece pieces ih =>
    rw [flatten_cons] at htext
    obtain ⟨hok, hdone⟩ := run_start htext hbefore
    rw [← append_assoc] at htext
    obtain ⟨middle, read, rest, hread, hrest, hbytes⟩ := run_append_eq_ok htext
    obtain ⟨-, hlength⟩ := run_start htext hread
    obtain ⟨start, first, second, hfirst, hsecond, rfl⟩ := run_append_eq_ok hread
    obtain ⟨rfl, rfl⟩ := Prod.mk.inj (Except.ok.inj (hfirst.symm.trans hbefore))
    rw [length_append, hdone] at hlength
    have hcall : decodePiece start piece =
        if INT_MAX < second.length then .error (middle.fail middle.data)
        else .ok (middle, second) := by
      rw [decodePiece, evpDecodeUpdate, if_neg (by rw [hok]; exact Bool.false_ne_true), hsecond]
      dsimp only
      by_cases hlarge : INT_MAX < second.length
      · rw [if_pos hlarge, if_pos hlarge]
        rfl
      · rw [if_neg hlarge, if_neg hlarge]
        cases middle.eofSeen <;> rfl
    have hrun := ih htext hread
    rw [decodeFits, ← hlength, Nat.add_sub_cancel_left]
    by_cases hlarge : INT_MAX < second.length
    · rw [decide_eq_false (Nat.not_le.mpr hlarge), Bool.false_and, if_neg Bool.false_ne_true]
      rw [if_pos hlarge] at hcall
      exact ⟨_, by rw [run, hcall]⟩
    rw [if_neg hlarge] at hcall
    rw [decide_eq_true (Nat.le_of_not_lt hlarge), Bool.true_and,
      run_cons_of_ok hcall]
    split
    · next hfits =>
      rw [if_pos hfits] at hrun
      obtain ⟨later, hlater, hall⟩ := hrun
      rw [hlater]
      exact ⟨second ++ later, rfl, by rw [← append_assoc, hall]⟩
    · next hfits =>
      rw [if_neg hfits] at hrun
      obtain ⟨stopped, hstopped⟩ := hrun
      rw [hstopped]
      exact ⟨stopped, rfl⟩

/-- **Base64 streams.**  The encoder's output over any cut of `bytes` into non-empty chunks is their
    encoding in lines, and the decoder's output over any cut of that text is `bytes`.  A stream
    fails if and only if one of its calls would return more than `INT_MAX` bytes. -/
theorem base64_streams_exact (bytes : Bytes) :
    (∀ chunks : List Bytes, (∀ chunk ∈ chunks, chunk ≠ []) → chunks.flatten = bytes →
      encodeStream chunks = if encodeFits 0 chunks then some (encodedLines bytes) else none) ∧
    (∀ pieces : List Bytes, pieces.flatten = encodedLines bytes →
      decodeStream pieces = if decodeFits bytes [] pieces then some bytes else none) := by
  constructor
  · intro chunks hchunks hbytes
    rw [encodeStream_eq hchunks, hbytes]
  · intro pieces hpieces
    have htext := run_encodedLines bytes
    rw [← hpieces] at htext
    have hrun := @run_decodePiece bytes _ pieces [] [] (idleCtx false) htext rfl
    rw [decodeStream, evpDecodeInit]
    split at hrun
    · next hfits =>
      obtain ⟨later, hlater, hall⟩ := hrun
      rw [hlater, if_pos hfits, ← hall]
      rfl
    · next hfits =>
      obtain ⟨stopped, hstopped⟩ := hrun
      rw [hstopped, if_neg hfits]

theorem base64_streams_exact_four_bytes : encodeStream [[0x4d], [0x61, 0x6e, 0x21]] =
        some [0x54, 0x57, 0x46, 0x75, 0x49, 0x51, 0x3d, 0x3d, 0x0a] ∧
      decodeStream [[0x54, 0x57, 0x46], [], [0x75, 0x49, 0x51, 0x3d, 0x3d, 0x0a]] =
        some [0x4d, 0x61, 0x6e, 0x21] := by
  have htext : encodedLines [0x4d, 0x61, 0x6e, 0x21] =
      [0x54, 0x57, 0x46, 0x75, 0x49, 0x51, 0x3d, 0x3d, 0x0a] := by
    rw [encodedLines, blocks_of_lt (by decide), leftover_of_lt (by decide)]
    decide
  obtain ⟨hencode, hdecode⟩ := base64_streams_exact [0x4d, 0x61, 0x6e, 0x21]
  constructor
  · rw [hencode _ (by simp) rfl, htext]
    rfl
  · rw [hdecode _ (by rw [htext]; rfl)]
    rfl

/-- A chunk whose lines take more than `INT_MAX` characters is encoded in two calls, but not
    in one: the call reports that it wrote nothing. -/
theorem base64_long_chunk_not_encoded : ∃ first second : Bytes, first ≠ [] ∧ second ≠ [] ∧
      encodeStream [first, second] = some (encodedLines (first ++ second)) ∧
      encodeStream [first ++ second] = none ∧
      ∃ ctx, evpEncodeUpdate evpEncodeInit (first ++ second) = (false, [], ctx) := by
  obtain ⟨first, hfirst⟩ : ∃ first : Bytes, first.length = 48 :=
    ⟨List.replicate 48 0, length_replicate⟩
  obtain ⟨second, hsecond⟩ : ∃ second : Bytes, second.length = 48 * 33038209 :=
    ⟨List.replicate (48 * 33038209) 0, length_replicate⟩
  have hfirst' : first ≠ [] := ne_nil_of_length_pos (by omega)
  have hsecond' : second ≠ [] := ne_nil_of_length_pos (by omega)
  have hboth : (first ++ second).length = 48 * 33038210 := by
    rw [length_append, hfirst, hsecond]
  have hlong : first ++ second ≠ [] := ne_nil_of_length_pos (by omega)
  have hcall := evpEncodeUpdate_spec evpEncodeInit rfl hlong
  rw [show evpEncodeInit.data = [] from rfl, nil_append, hboth] at hcall
  refine ⟨first, second, hfirst', hsecond', ?_, ?_, hcall⟩
  · rw [encodeStream_eq (by simp [hfirst', hsecond']), encodeFits, encodeFits, hfirst, hsecond]
    rw [flatten_cons, flatten_cons, flatten_nil, append_nil]
    rfl
  · rw [encodeStream_eq (by simpa using fun h => absurd h hfirst'), encodeFits, hboth]
    rfl

end AwsLc
