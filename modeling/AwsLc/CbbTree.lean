import AwsLc.CbbBuffer
import AwsLc.Runs

/-!
# Trees written through a `CBB`

The calls on a `CBB` and its children build a tree of byte strings, integers and length-prefixed or
ASN.1 children.  A call names the `CBB` it is made on by its depth among the open ones, and closes
the children below that one first.  `encodeAll` encodes the tree without a buffer.
-/

variable (kind : ChildKind)

namespace AwsLc

open AwsLc.BigEndian List Option Runs

/-! ### Trees -/

/-- The children that a `CBB` can open. -/
inductive ChildKind where
  | u8LengthPrefixed
  | u16LengthPrefixed
  | u24LengthPrefixed
  | asn1 (tag : UInt32)

open ChildKind

namespace ChildKind

def lenLen : ChildKind → Nat
  | u8LengthPrefixed => 1
  | u16LengthPrefixed => 2
  | u24LengthPrefixed => 3
  | asn1 _ => 1

def isAsn1 : ChildKind → Bool
  | asn1 _ => true
  | _ => false

def tagBytes : ChildKind → Bytes
  | asn1 tag => asn1TagBytes tag
  | _ => []

def limit : ChildKind → Nat
  | u8LengthPrefixed => 0xff
  | u16LengthPrefixed => 0xffff
  | u24LengthPrefixed => 0xffffff
  | asn1 _ => 0xfffffffe

/-- The length of `len` bytes of contents: the shortest form of DER for an ASN.1 child, and
    as many bytes as there is room for otherwise. -/
def lengthPrefix (len : Nat) : Bytes :=
  match kind with
  | asn1 _ => lengthOctets len
  | kind => beBytes kind.lenLen len

def body (contents : Bytes) : Option Bytes :=
  if contents.length ≤ kind.limit then some (kind.lengthPrefix contents.length ++ contents)
  else none

def encode (contents : Bytes) : Option Bytes :=
  (kind.body contents).map (kind.tagBytes ++ ·)

end ChildKind

/-- A tree of elements.  An integer has `lenLen` bytes. -/
inductive Element where
  | bytes (data : Bytes)
  | integer (lenLen : Nat) (value : Fin (256 ^ lenLen))
  | child (kind : ChildKind) (contents : List Element)

mutual

def Element.encode : Element → Option Bytes
  | .bytes data => some data
  | .integer lenLen value => some (beBytes lenLen value)
  | .child kind contents => (encodeAll contents).bind kind.encode

def encodeAll : List Element → Option Bytes
  | [] => some []
  | element :: elements => cat element.encode (encodeAll elements)

end

mutual

def Element.TooLong : Element → Prop
  | .bytes _ => False
  | .integer _ _ => False
  | .child kind contents =>
    TooLongAll contents ∨ ∃ out, encodeAll contents = some out ∧ kind.limit < out.length

def TooLongAll : List Element → Prop
  | [] => False
  | element :: elements => element.TooLong ∨ TooLongAll elements

end

theorem ChildKind.encode_eq_none_iff (contents : Bytes) :
    kind.encode contents = none ↔ kind.limit < contents.length := by
  unfold encode body
  split
  · next hle => simp [hle]
  · next hlong => simp [Nat.lt_of_not_le hlong]

mutual

theorem Element.encode_eq_none_iff : ∀ element : Element,
    element.encode = none ↔ element.TooLong
  | .bytes data => by simp [Element.encode, Element.TooLong]
  | .integer lenLen value => by simp [Element.encode, Element.TooLong]
  | .child kind contents => by
    rw [Element.encode, Element.TooLong, ← encodeAll_eq_none_iff contents]
    cases hcontents : encodeAll contents with
    | none => simp
    | some out => simp [encode_eq_none_iff]

theorem encodeAll_eq_none_iff : ∀ elements : List Element,
    encodeAll elements = none ↔ TooLongAll elements
  | [] => by simp [encodeAll, TooLongAll]
  | element :: elements => by
    rw [encodeAll, TooLongAll, ← Element.encode_eq_none_iff element,
      ← encodeAll_eq_none_iff elements]
    cases element.encode <;> cases encodeAll elements <;> simp [cat]

end

theorem encodeAll_append (elements later : List Element) :
    encodeAll (elements ++ later) = cat (encodeAll elements) (encodeAll later) := by
  induction elements with
  | nil =>
    rw [nil_append, encodeAll]
    cases encodeAll later <;> rfl
  | cons element elements ih =>
    rw [cons_append, encodeAll, encodeAll, ih]
    cases element.encode <;> cases encodeAll elements <;> cases encodeAll later <;> simp [cat]

theorem encodeAll_singleton (element : Element) : encodeAll [element] = element.encode := by
  rw [encodeAll, encodeAll]
  cases element.encode <;> simp [cat]

theorem length_lengthOctets_mono {len len' : Nat} (h : len ≤ len') :
    (lengthOctets len).length ≤ (lengthOctets len').length := by
  have hlength : ∀ n, (lengthOctets n).length = if n ≤ 0x7f then 1 else lengthWidth n + 1 := by
    intro n
    unfold lengthOctets
    split
    · rfl
    · rw [length_cons, length_beBytes]
  rw [hlength, hlength]
  unfold lengthWidth
  split_ifs <;> omega

namespace ChildKind

variable (kind : ChildKind)

theorem length_lengthPrefix_mono {len len' : Nat} (h : len ≤ len') :
    (kind.lengthPrefix len).length ≤ (kind.lengthPrefix len').length := by
  cases kind with
  | asn1 tag => exact length_lengthOctets_mono h
  | u8LengthPrefixed => exact Nat.le_refl _
  | u16LengthPrefixed => exact Nat.le_refl _
  | u24LengthPrefixed => exact Nat.le_refl _

theorem length_lengthPrefix_zero : (kind.lengthPrefix 0).length = kind.lenLen := by
  cases kind <;> rfl

theorem encode_nil : kind.encode [] = some (kind.tagBytes ++ kind.lengthPrefix 0) := by
  rw [encode, body, length_nil, if_pos (Nat.zero_le _), append_nil]
  rfl

theorem encode_grows {contents contents' : Option Bytes} (h : Grows contents contents') :
    Grows (contents.bind kind.encode) (contents'.bind kind.encode) := by
  intro out hout
  obtain ⟨larger, rfl, hencode⟩ := bind_eq_some_iff.mp hout
  obtain ⟨smaller, rfl, hle⟩ := h larger rfl
  rw [encode, body] at hencode
  split at hencode
  · next hlimit =>
    cases hencode
    refine ⟨_, by rw [bind_some, encode, body, if_pos (hle.trans hlimit)]; rfl, ?_⟩
    have hprefix := kind.length_lengthPrefix_mono hle
    simp only [length_append]
    omega
  · cases hencode

theorem explains_encode {heap : CbbHeap} {start : Nat} {contents : Option Bytes} {cause : CbbError}
    (h : Explains heap (start + kind.tagBytes.length + kind.lenLen) contents cause) :
    Explains heap start (contents.bind kind.encode) cause := by
  cases cause with
  | sizeOverflow =>
    intro out hout
    obtain ⟨inner, hinner, hencode⟩ := bind_eq_some_iff.mp hout
    have hsize := h inner hinner
    rw [encode, body] at hencode
    split at hencode
    · cases hencode
      have hprefix := kind.length_lengthPrefix_mono (Nat.zero_le inner.length)
      rw [length_lengthPrefix_zero] at hprefix
      simp only [length_append]
      omega
    · cases hencode
  | outOfMemory => exact h
  | childTooLong =>
    rw [show contents = none from h]
    rfl
  | notResizable => exact h
  | invalidChild => exact h
  | integerTooWide => exact h

end ChildKind

/-! ### Calls -/

structure Frame where
  kind : ChildKind
  items : List Element

/-- The elements of a `CBB` after the open children below it are closed. -/
def closeAll : List Element → List Frame → List Element
  | items, [] => items
  | items, frame :: frames => items ++ [.child frame.kind (closeAll frame.items frames)]

inductive CbbCall where
  | addBytes (data : Bytes)
  | addInteger (lenLen : Nat) (value : Fin (256 ^ lenLen))
  | addChild (kind : ChildKind)
  | flush

/-- What a call adds to a `CBB` that holds `items` and has no open children. -/
def CbbCall.extend (call : CbbCall) (items : List Element) : List Element × List Frame :=
  match call with
  | addBytes data => (items ++ [.bytes data], [])
  | addInteger lenLen value => (items ++ [.integer lenLen value], [])
  | addChild kind => (items, [⟨kind, []⟩])
  | flush => (items, [])

/-- What a call does to the tree when it is made on the `depth`-th of the `CBB`s that are
    open, if there are so many. -/
def callAt (call : CbbCall) : (depth : Nat) → List Element → List Frame →
    Option (List Element × List Frame)
  | 0, items, frames => some (call.extend (closeAll items frames))
  | _ + 1, _, [] => none
  | depth + 1, items, frame :: frames =>
    (callAt call depth frame.items frames).map fun (items', frames') =>
      (items, ⟨frame.kind, items'⟩ :: frames')

def treeCall (tree : List Element × List Frame) (call : Nat × CbbCall) :
    Option (List Element × List Frame) :=
  callAt call.2 call.1 tree.1 tree.2

def treeWritten (calls : List (Nat × CbbCall)) : Option (List Element) :=
  (run treeCall ([], []) calls).map fun tree => closeAll tree.1 tree.2

mutual

/-- The calls that write an element depth first, each child through its own `CBB`. -/
def Element.calls : Element → List (Nat × CbbCall)
  | .bytes data => [(0, .addBytes data)]
  | .integer lenLen value => [(0, .addInteger lenLen value)]
  | .child kind contents =>
    (0, .addChild kind) :: (callsAll contents).map fun call => (call.1 + 1, call.2)

def callsAll : List Element → List (Nat × CbbCall)
  | [] => []
  | element :: elements => element.calls ++ callsAll elements

end

theorem run_below (calls : List (Nat × CbbCall)) (items : List Element) (frame : Frame)
    (frames : List Frame) :
    run treeCall (items, frame :: frames) (calls.map fun call => (call.1 + 1, call.2)) =
      (run treeCall (frame.items, frames) calls).map fun tree =>
        (items, ⟨frame.kind, tree.1⟩ :: tree.2) := by
  induction calls generalizing frame frames with
  | nil => rfl
  | cons call calls ih =>
    rw [map_cons, run_cons, run_cons, treeCall, treeCall, callAt]
    cases callAt call.2 call.1 frame.items frames with
    | none => rfl
    | some next => exact ih ⟨frame.kind, next.1⟩ next.2

mutual

theorem run_calls : ∀ (element : Element) (items : List Element) (frames : List Frame),
    ∃ tree, run treeCall (items, frames) element.calls = some tree ∧
      closeAll tree.1 tree.2 = closeAll items frames ++ [element]
  | .bytes data, items, frames => by
    rw [Element.calls, run_singleton]
    exact ⟨_, rfl, rfl⟩
  | .integer lenLen value, items, frames => by
    rw [Element.calls, run_singleton]
    exact ⟨_, rfl, rfl⟩
  | .child kind contents, items, frames => by
    obtain ⟨tree, hrun, htree⟩ := run_callsAll contents [] []
    rw [closeAll, nil_append] at htree
    rw [Element.calls, run_cons, treeCall, callAt, bind_some]
    refine ⟨(closeAll items frames, ⟨kind, tree.1⟩ :: tree.2), ?_, ?_⟩
    · have hbelow := run_below (callsAll contents) (closeAll items frames) ⟨kind, []⟩ []
      rw [hrun] at hbelow
      exact hbelow
    · rw [closeAll, htree]

theorem run_callsAll : ∀ (elements items : List Element) (frames : List Frame),
    ∃ tree, run treeCall (items, frames) (callsAll elements) = some tree ∧
      closeAll tree.1 tree.2 = closeAll items frames ++ elements
  | [], items, frames => ⟨(items, frames), rfl, (List.append_nil _).symm⟩
  | element :: elements, items, frames => by
    obtain ⟨middle, hfirst, hmiddle⟩ := run_calls element items frames
    obtain ⟨tree, hrest, htree⟩ := run_callsAll elements middle.1 middle.2
    rw [callsAll, run_append, hfirst, bind_some]
    refine ⟨tree, hrest, ?_⟩
    rw [htree, hmiddle, append_assoc, singleton_append]

end

theorem treeWritten_callsAll (elements : List Element) :
    treeWritten (callsAll elements) = some elements := by
  obtain ⟨tree, hrun, htree⟩ := run_callsAll elements [] []
  rw [treeWritten, hrun, map_some, htree, closeAll, nil_append]

theorem callAt_grows {call : CbbCall} {depth : Nat} {items items' : List Element}
    {frames frames' : List Frame} (h : callAt call depth items frames = some (items', frames')) :
    Grows (encodeAll (closeAll items frames)) (encodeAll (closeAll items' frames')) := by
  induction depth generalizing items frames items' frames' with
  | zero =>
    cases call with
    | addBytes data =>
      cases h
      rw [closeAll, encodeAll_append]
      exact grows_cat_left _ _
    | addInteger lenLen value =>
      cases h
      rw [closeAll, encodeAll_append]
      exact grows_cat_left _ _
    | addChild kind =>
      cases h
      rw [closeAll, encodeAll_append]
      exact grows_cat_left _ _
    | flush =>
      cases h
      exact Grows.refl _
  | succ depth ih =>
    rcases frames with _ | ⟨frame, frames⟩
    · cases h
    obtain ⟨⟨inner, innerFrames⟩, hinner, hresult⟩ := map_eq_some_iff.mp h
    cases hresult
    rw [closeAll, closeAll, encodeAll_append, encodeAll_append, encodeAll_singleton,
      encodeAll_singleton, Element.encode, Element.encode]
    exact (frame.kind.encode_grows (ih hinner)).cat_right _

/-! ### The builder -/

/-- A `CBB` with its open children, outermost first. -/
structure Cbb where
  base : CbbBuffer
  children : List CbbChild

variable (heap : CbbHeap)

def cbbInit (initialCapacity : UInt64) : Cbb where
  base :=
    { buf := []
      cap := initialCapacity.toNat
      canResize := true
      error := if 0 < initialCapacity ∧ heap.grants 0 initialCapacity.toNat = false then
        some .outOfMemory else none
      requests := 1
      len_le_cap := Nat.zero_le _
      cap_lt := initialCapacity.toNat_lt }
  children := []

def ChildKind.addTag (kind : ChildKind) (base : CbbBuffer) : CbbBuffer :=
  match kind with
  | asn1 tag => cbbAddTag heap tag base
  | _ => base

/-- What a call does after the flush: the buffer, and the child it opens. -/
def CbbCall.write (call : CbbCall) (base : CbbBuffer) : CbbBuffer × List CbbChild :=
  match call with
  | addBytes data => (base.andThen (cbbAddBytes heap data), [])
  | addInteger lenLen value => (base.andThen (cbbAddUInt heap lenLen value), [])
  | addChild kind =>
    let tagged := base.andThen (kind.addTag heap)
    (tagged.andThen (cbbAddChild heap kind.lenLen),
      [⟨tagged.buf.length, kind.lenLen, kind.isAsn1⟩])
  | flush => (base, [])

/-- A call on the `CBB` at a depth.  A `CBB` that has been flushed has no buffer any more, and
    a call on it returns zero. -/
def cbbCall (cbb : Cbb) (depth : Nat) (call : CbbCall) : Cbb :=
  if cbb.children.length < depth then cbb
  else
    let (base, opened) := call.write heap (cbbFlush heap (cbb.children.drop depth) cbb.base)
    ⟨base, cbb.children.take depth ++ opened⟩

def cbbFinish (cbb : Cbb) : Except CbbError Bytes :=
  let base := cbbFlush heap cbb.children cbb.base
  match base.error with
  | none => .ok base.buf
  | some cause => .error cause

def cbbWrite (initialCapacity : UInt64) (calls : List (Nat × CbbCall)) : Except CbbError Bytes :=
  cbbFinish heap <|
    calls.foldl (fun cbb call => cbbCall heap cbb call.1 call.2) (cbbInit heap initialCapacity)

/-! ### The layout of the buffer -/

/-- `bytes`, which start at `start`, are the elements of a `CBB` and the open children below it
    with the room for their lengths. -/
def Laid (start : Nat) : List Element → List Frame → List CbbChild → Bytes → Prop
  | items, [], children, bytes => children = [] ∧ encodeAll items = some bytes
  | items, frame :: frames, children, bytes =>
    ∃ contents room inner later, encodeAll items = some contents ∧
      room.length = frame.kind.lenLen ∧
      bytes = contents ++ (frame.kind.tagBytes ++ (room ++ inner)) ∧
      children = ⟨start + contents.length + frame.kind.tagBytes.length, frame.kind.lenLen,
        frame.kind.isAsn1⟩ :: later ∧
      Laid (start + contents.length + frame.kind.tagBytes.length + frame.kind.lenLen)
        frame.items frames later inner

section Layout

variable (heap : CbbHeap)
variable {base : CbbBuffer} {before : Bytes}

/-- `CBB_flush` of a child of any kind. -/
theorem cbbFlushChild_wrote {room contents : Bytes} (kind : ChildKind)
    (hroom : room.length = kind.lenLen) (hbuf : base.buf = before ++ (room ++ contents))
    (hok : base.error = none) (hresize : base.canResize = true) :
    Wrote heap before (kind.body contents)
      (cbbFlushChild heap ⟨before.length, kind.lenLen, kind.isAsn1⟩ base) := by
  have hprefixed := cbbFlushChild_prefixed heap hbuf hok hresize
  rw [hroom] at hprefixed
  have hbody : ∀ n, kind.limit = 256 ^ n - 1 → kind.lengthPrefix = beBytes n →
      (cbbAddU contents.length n).map (· ++ contents) = kind.body contents := by
    intro n hlimit hprefix
    have hpow : 0 < 256 ^ n := Nat.pow_pos (by decide)
    rw [body, cbbAddU, hlimit, hprefix]
    by_cases hfits : contents.length < 256 ^ n
    · rw [if_pos hfits, if_pos (by omega)]
      rfl
    · rw [if_neg hfits, if_neg (by omega)]
      rfl
  cases kind with
  | asn1 tag =>
    rcases room with _ | ⟨room, _ | ⟨_, _⟩⟩ <;> cases hroom
    have hwrote := @cbbFlushChild_asn1 heap base before contents room hbuf hok hresize
    rw [asn1LengthBytes_eq] at hwrote
    rw [body, show (asn1 tag).limit = 0xfffffffe from rfl]
    split at hwrote
    · next hle =>
      rw [if_pos hle]
      exact hwrote
    · next hlong =>
      rw [if_neg hlong]
      exact hwrote
  | u8LengthPrefixed =>
    rw [← hbody 1 rfl rfl]
    exact hprefixed
  | u16LengthPrefixed =>
    rw [← hbody 2 rfl rfl]
    exact hprefixed
  | u24LengthPrefixed =>
    rw [← hbody 3 rfl rfl]
    exact hprefixed

theorem ChildKind.body_grows {room : Bytes} (hroom : room.length = kind.lenLen)
    (contents : Option Bytes) : Grows (cat (some room) contents) (contents.bind kind.body) := by
  intro out hout
  obtain ⟨inner, rfl, hbody⟩ := bind_eq_some_iff.mp hout
  rw [body] at hbody
  split at hbody
  · cases hbody
    refine ⟨room ++ inner, rfl, ?_⟩
    have hprefix := kind.length_lengthPrefix_mono (Nat.zero_le inner.length)
    rw [kind.length_lengthPrefix_zero] at hprefix
    rw [length_append, length_append, hroom]
    omega
  · cases hbody

variable {items : List Element}

/-- **Flushing.**  `CBB_flush` closes the open children: the elements and the children
    below them are encoded as a tree. -/
theorem cbbFlush_wrote {bytes : Bytes} {frames : List Frame} {children : List CbbChild}
    (hbuf : base.buf = before ++ bytes) (hlaid : Laid before.length items frames children bytes)
    (hok : base.error = none) (hresize : base.canResize = true) :
    Wrote heap before (encodeAll (closeAll items frames)) (cbbFlush heap children base) := by
  induction frames generalizing before bytes items children with
  | nil =>
    obtain ⟨rfl, hitems⟩ := hlaid
    rw [closeAll, hitems]
    exact Wrote.of_ok hok hresize hbuf
  | cons frame frames ih =>
    obtain ⟨contents, room, inner, later, hitems, hroom, rfl, rfl, hinner⟩ := hlaid
    -- the child starts after the elements, its identifier and the room for its length
    have hsplit : base.buf =
        (before ++ contents ++ frame.kind.tagBytes ++ room) ++ inner := by
      rw [hbuf]
      simp
    have hflushed := ih hsplit (by
      simp only [length_append, hroom]
      exact hinner)
    have hbody : Wrote heap (before ++ contents ++ frame.kind.tagBytes)
        ((encodeAll (closeAll frame.items frames)).bind frame.kind.body)
        ((cbbFlush heap later base).andThen (cbbFlushChild heap
          ⟨before.length + contents.length + frame.kind.tagBytes.length, frame.kind.lenLen,
            frame.kind.isAsn1⟩)) := by
      apply hflushed.prepend.andThen (frame.kind.body_grows hroom _)
      intro out hout hok' hresize' hbuf'
      obtain ⟨_, closed, hsome, hclosed, rfl⟩ := cat_eq_some hout
      cases hsome
      have hchild := cbbFlushChild_wrote heap frame.kind hroom hbuf' hok' hresize'
      rw [length_append, length_append] at hchild
      rw [hclosed]
      exact hchild
    have hchild := hbody.prepend.prepend
    have hencoding : cat (some contents) (cat (some frame.kind.tagBytes)
        ((encodeAll (closeAll frame.items frames)).bind frame.kind.body)) =
        encodeAll (closeAll items (frame :: frames)) := by
      rw [closeAll, encodeAll_append, hitems, encodeAll_singleton, Element.encode]
      cases encodeAll (closeAll frame.items frames) <;> rfl
    rw [hencoding] at hchild
    rw [cbbFlush, CbbBuffer.andThen, hok]
    exact hchild

/-- The elements of a `CBB` are laid out, or its error is explained by them. -/
structure LaidOut (heap : CbbHeap) (before : Bytes) (items : List Element) (frames : List Frame)
    (children : List CbbChild) (base : CbbBuffer) : Prop where
  canResize : base.canResize = true
  laid : base.error = none → ∃ bytes, base.buf = before ++ bytes ∧
    Laid before.length items frames children bytes
  explained : ∀ cause, base.error = some cause →
    Explains heap before.length (encodeAll (closeAll items frames)) cause

/-- Elements without open children are laid out once they are written. -/
theorem Wrote.laidOut (h : Wrote heap before (encodeAll items) base) :
    LaidOut heap before items [] [] base where
  canResize := h.canResize
  laid := fun hok => by
    obtain ⟨out, hout, hbuf⟩ := h.written hok
    exact ⟨out, hbuf, rfl, hout⟩
  explained := h.explained

theorem ChildKind.addTag_wrote (hok : base.error = none) (hresize : base.canResize = true) :
    Wrote heap base.buf (some kind.tagBytes) (kind.addTag heap base) := by
  cases kind with
  | asn1 tag => exact cbbAddTag_wrote heap hok hresize tag
  | u8LengthPrefixed => exact Wrote.of_ok hok hresize (append_nil _).symm
  | u16LengthPrefixed => exact Wrote.of_ok hok hresize (append_nil _).symm
  | u24LengthPrefixed => exact Wrote.of_ok hok hresize (append_nil _).symm

/-- What a call does to a `CBB` without open children. -/
theorem CbbCall.write_laidOut (call : CbbCall) (h : Wrote heap before (encodeAll items) base) :
    LaidOut heap before (call.extend items).1 (call.extend items).2 (call.write heap base).2
      (call.write heap base).1 := by
  cases call with
  | addBytes data =>
    have hwrote := h.andThen_cat fun base hok hresize =>
      cbbAddBytes_wrote heap hok hresize data
    have hencoding : cat (encodeAll items) (some data) = encodeAll (items ++ [.bytes data]) := by
      rw [encodeAll_append, encodeAll_singleton, Element.encode]
    rw [hencoding] at hwrote
    exact hwrote.laidOut
  | addInteger lenLen value =>
    have hwrote := h.andThen_cat fun base hok hresize =>
      cbbAddUInt_wrote heap hok hresize value.isLt
    have hencoding : cat (encodeAll items) (some (beBytes lenLen value)) =
        encodeAll (items ++ [.integer lenLen value]) := by
      rw [encodeAll_append, encodeAll_singleton, Element.encode]
    rw [hencoding] at hwrote
    exact hwrote.laidOut
  | addChild kind =>
    have htagged := h.andThen_cat fun base hok hresize =>
      kind.addTag_wrote heap hok hresize
    have hopened := htagged.andThen_cat fun base hok hresize =>
      cbbAddChild_wrote heap hok hresize kind.lenLen
    refine ⟨hopened.canResize, ?_, ?_⟩
    · intro hok
      have htagged' : (base.andThen (kind.addTag heap)).error = none := by
        cases hcause : (base.andThen (kind.addTag heap)).error with
        | none => rfl
        | some cause =>
          have hfailed : ((base.andThen (kind.addTag heap)).andThen
              (cbbAddChild heap kind.lenLen)).error = some cause := by
            rw [CbbBuffer.andThen, hcause]
            exact hcause
          cases hfailed.symm.trans hok
      obtain ⟨out, hout, hbuf⟩ := hopened.written hok
      obtain ⟨tagged, htag, hbuf'⟩ := htagged.written htagged'
      obtain ⟨left, room, hleft, hroom, rfl⟩ := cat_eq_some hout
      cases htag.symm.trans hleft
      obtain ⟨contents, tag, hcontents, hkind, rfl⟩ := cat_eq_some htag
      cases hkind
      cases hroom
      refine ⟨_, hbuf, contents, List.replicate kind.lenLen 0, [], [], hcontents,
        length_replicate, ?_, ?_, ?_⟩
      · simp
      · simp only [CbbCall.write]
        rw [hbuf', length_append, length_append, ← Nat.add_assoc]
      · exact ⟨rfl, rfl⟩
    · intro cause hcause
      apply (hopened.explained cause hcause).grows
      intro out hout
      have hclosed : closeAll (extend (addChild kind) items).1 (extend (addChild kind) items).2 =
          items ++ [.child kind []] := rfl
      rw [hclosed, encodeAll_append, encodeAll_singleton, Element.encode, encodeAll,
        bind_some, kind.encode_nil] at hout
      obtain ⟨left, right, hleft, hright, rfl⟩ := cat_eq_some hout
      cases hright
      refine ⟨left ++ kind.tagBytes ++ List.replicate kind.lenLen 0, by rw [hleft]; rfl, ?_⟩
      have hroom := kind.length_lengthPrefix_zero
      simp only [length_append, length_replicate]
      omega
  | flush => exact h.laidOut

/-- **A call.**  A call on the `CBB` at any depth keeps the layout of the tree. -/
theorem write_at_depth {call : CbbCall} {depth : Nat} {bytes : Bytes} {items' : List Element}
    {frames frames' : List Frame} {children : List CbbChild}
    (hcall : callAt call depth items frames = some (items', frames'))
    (hbuf : base.buf = before ++ bytes) (hlaid : Laid before.length items frames children bytes)
    (hok : base.error = none) (hresize : base.canResize = true) :
    depth ≤ children.length ∧
      let written := call.write heap (cbbFlush heap (children.drop depth) base)
      LaidOut heap before items' frames' (children.take depth ++ written.2) written.1 := by
  induction depth generalizing before bytes items items' frames frames' children with
  | zero =>
    refine ⟨Nat.zero_le _, ?_⟩
    have hflushed := cbbFlush_wrote heap hbuf hlaid hok hresize
    have hwritten := call.write_laidOut heap hflushed
    rw [callAt, Option.some.injEq] at hcall
    rw [hcall] at hwritten
    exact hwritten
  | succ depth ih =>
    rcases frames with _ | ⟨frame, frames⟩
    · cases hcall
    obtain ⟨⟨inner, innerFrames⟩, hinner, hresult⟩ := map_eq_some_iff.mp hcall
    cases hresult
    obtain ⟨contents, room, rest, later, hitems, hroom, rfl, rfl, hrest⟩ := hlaid
    have hsplit : base.buf = (before ++ contents ++ frame.kind.tagBytes ++ room) ++ rest := by
      rw [hbuf]
      simp
    have hstart : (before ++ contents ++ frame.kind.tagBytes ++ room).length =
        before.length + contents.length + frame.kind.tagBytes.length + frame.kind.lenLen := by
      simp only [length_append, hroom]
    obtain ⟨hdepth, hwritten⟩ := ih hinner hsplit (by rw [hstart]; exact hrest)
    refine ⟨Nat.succ_le_succ hdepth, hwritten.canResize, ?_, ?_⟩
    · intro hok'
      obtain ⟨bytes, hbytes, hlaid'⟩ := hwritten.laid hok'
      rw [hstart] at hlaid'
      refine ⟨contents ++ (frame.kind.tagBytes ++ (room ++ bytes)), ?_, contents, room, bytes, _,
        hitems, hroom, rfl, rfl, hlaid'⟩
      rw [drop_succ_cons, hbytes]
      simp
    · intro cause hcause
      have hexplained := hwritten.explained cause hcause
      rw [hstart] at hexplained
      have hchild := (frame.kind.explains_encode hexplained).cat
      rw [closeAll, encodeAll_append, hitems, encodeAll_singleton, Element.encode]
      exact hchild

def Builds (heap : CbbHeap) (tree : List Element × List Frame) (cbb : Cbb) : Prop :=
  LaidOut heap [] tree.1 tree.2 cbb.children cbb.base

theorem cbbFlush_error {cause : CbbError} (h : base.error = some cause) (children : List CbbChild) :
    cbbFlush heap children base = base := by
  cases children with
  | nil => rfl
  | cons child children => rw [cbbFlush, CbbBuffer.andThen, h]

theorem cbbCall_error {cbb : Cbb} {cause : CbbError} (h : cbb.base.error = some cause)
    (depth : Nat) (call : CbbCall) : (cbbCall heap cbb depth call).base = cbb.base := by
  have hstop : ∀ next, cbb.base.andThen next = cbb.base := by
    intro next
    rw [CbbBuffer.andThen, h]
  unfold cbbCall
  split
  · rfl
  · dsimp only
    rw [cbbFlush_error heap h]
    cases call with
    | addBytes data => exact hstop _
    | addInteger lenLen value => exact hstop _
    | addChild kind =>
      simp only [CbbCall.write]
      rw [hstop, hstop]
    | flush => rfl

variable {tree : List Element × List Frame}

/-- **One call.**  The builder follows the tree. -/
theorem cbbCall_builds {tree' : List Element × List Frame} {cbb : Cbb} {depth : Nat}
    {call : CbbCall} (h : Builds heap tree cbb)
    (hcall : callAt call depth tree.1 tree.2 = some tree') :
    Builds heap tree' (cbbCall heap cbb depth call) := by
  cases herror : cbb.base.error with
  | none =>
    obtain ⟨bytes, hbuf, hlaid⟩ := h.laid herror
    obtain ⟨hdepth, hwritten⟩ := write_at_depth heap hcall hbuf hlaid herror h.canResize
    unfold cbbCall
    rw [if_neg (Nat.not_lt.mpr hdepth)]
    exact hwritten
  | some cause =>
    have hbase := cbbCall_error heap herror depth call
    refine ⟨by rw [hbase]; exact h.canResize, ?_, ?_⟩
    · intro hok
      rw [hbase, herror] at hok
      cases hok
    · intro cause' hcause'
      rw [hbase] at hcause'
      exact (h.explained cause' hcause').grows (callAt_grows hcall)

/-- **A run.**  The builder follows the tree through any calls. -/
theorem cbbCalls_build {tree' : List Element × List Frame} {cbb : Cbb}
    {calls : List (Nat × CbbCall)} (h : Builds heap tree cbb)
    (hcalls : run treeCall tree calls = some tree') :
    Builds heap tree' (calls.foldl (fun cbb call => cbbCall heap cbb call.1 call.2) cbb) := by
  induction calls generalizing tree cbb with
  | nil =>
    cases hcalls
    exact h
  | cons call calls ih =>
    rw [run_cons] at hcalls
    obtain ⟨next, hnext, hrest⟩ := bind_eq_some_iff.mp hcalls
    exact ih (cbbCall_builds heap h hnext) hrest

theorem cbbInit_builds (initialCapacity : UInt64) :
    Builds heap ([], []) (cbbInit heap initialCapacity) := by
  refine ⟨rfl, ?_, ?_⟩
  · intro _
    exact ⟨[], rfl, rfl, rfl⟩
  · intro cause hcause
    simp only [cbbInit] at hcause
    split at hcause
    · next hrefused =>
      cases hcause
      exact ⟨0, _, hrefused.2⟩
    · cases hcause

theorem Builds.finish {cbb : Cbb} (h : Builds heap tree cbb) :
    Wrote heap [] (encodeAll (closeAll tree.1 tree.2)) (cbbFlush heap cbb.children cbb.base) := by
  cases herror : cbb.base.error with
  | none =>
    obtain ⟨bytes, hbuf, hlaid⟩ := h.laid herror
    exact cbbFlush_wrote heap hbuf hlaid herror h.canResize
  | some cause =>
    rw [cbbFlush_error heap herror]
    refine ⟨h.canResize, ?_, h.explained⟩
    intro hok
    cases herror.symm.trans hok

theorem cbbWrite_wrote (initialCapacity : UInt64) {calls : List (Nat × CbbCall)}
    {tree : List Element} (hcalls : treeWritten calls = some tree) :
    ∃ base, Wrote heap [] (encodeAll tree) base ∧
      cbbWrite heap initialCapacity calls =
        match base.error with
        | none => .ok base.buf
        | some cause => .error cause := by
  obtain ⟨final, hrun, rfl⟩ := map_eq_some_iff.mp hcalls
  have hbuilds := cbbCalls_build heap (cbbInit_builds heap initialCapacity) hrun
  exact ⟨_, hbuilds.finish heap, rfl⟩

end Layout

/-- **The builder is exact.**  For any calls that write a tree, whatever the allocator does,
    `CBB_finish` returns the reference encoding of the tree if it succeeds.  It fails, or an
    earlier call does, if and only if a child is too long, the encoding does not fit
    in a `size_t`, or the allocator has refused a request. -/
theorem cbb_writes_tree (heap : CbbHeap) (initialCapacity : UInt64)
    (calls : List (Nat × CbbCall)) (tree : List Element) (hcalls : treeWritten calls = some tree) :
    (∀ out, cbbWrite heap initialCapacity calls = .ok out → encodeAll tree = some out) ∧
    ((∃ cause, cbbWrite heap initialCapacity calls = .error cause) ↔
      TooLongAll tree ∨ (∃ out, encodeAll tree = some out ∧ 2 ^ 64 ≤ out.length) ∨
        cbbWrite heap initialCapacity calls = .error .outOfMemory) ∧
    (cbbWrite heap initialCapacity calls = .error .outOfMemory →
      ∃ request size, heap.grants request size = false) := by
  obtain ⟨base, hwrote, hresult⟩ :=
    cbbWrite_wrote heap initialCapacity hcalls
  rw [hresult, ← encodeAll_eq_none_iff]
  cases herror : base.error with
  | none =>
    obtain ⟨out, hout, hbuf⟩ := hwrote.written herror
    have hlt := base.len_le_cap.trans_lt base.cap_lt
    rw [hbuf, nil_append] at hlt
    rw [hout, hbuf, nil_append]
    refine ⟨?_, ⟨?_, ?_⟩, ?_⟩
    · intro result hok
      cases hok
      rfl
    · rintro ⟨cause, hcause⟩
      cases hcause
    · rintro (hnone | ⟨larger, hlarger, hsize⟩ | hmemory)
      · cases hnone
      · cases hlarger
        exact absurd hlt (Nat.not_lt.mpr hsize)
      · cases hmemory
    · intro hmemory
      cases hmemory
  | some cause =>
    have hexplained := hwrote.explained cause herror
    refine ⟨?_, ⟨?_, fun _ => ⟨cause, rfl⟩⟩, ?_⟩
    · intro out hok
      cases hok
    · intro _
      cases cause with
      | sizeOverflow =>
        cases hencoding : encodeAll tree with
        | none => exact .inl rfl
        | some out =>
          have hsize := hexplained out hencoding
          rw [length_nil, Nat.zero_add] at hsize
          exact .inr (.inl ⟨out, rfl, hsize⟩)
      | outOfMemory => exact .inr (.inr rfl)
      | childTooLong => exact .inl hexplained
      | notResizable => exact hexplained.elim
      | invalidChild => exact hexplained.elim
      | integerTooWide => exact hexplained.elim
    · intro hmemory
      cases hmemory
      exact hexplained

/-- A sequence of an octet string and a `u16`-prefixed child that holds a 24-bit integer, with
    an explicit flush before the last call. -/
theorem cbb_writes_tree_sequence :
    let calls : List (Nat × CbbCall) := [(0, .addChild (.asn1 CBS_ASN1_SEQUENCE)),
      (1, .addChild (.asn1 CBS_ASN1_OCTETSTRING)), (2, .addBytes [7, 8]),
      (1, .addChild .u16LengthPrefixed), (2, .addInteger 3 ⟨0x010203, by decide⟩), (0, .flush),
      (0, .addBytes [9])]
    let tree : List Element := [.child (.asn1 CBS_ASN1_SEQUENCE)
      [.child (.asn1 CBS_ASN1_OCTETSTRING) [.bytes [7, 8]],
        .child .u16LengthPrefixed [.integer 3 ⟨0x010203, by decide⟩]], .bytes [9]]
    treeWritten calls = some tree ∧
      encodeAll tree = some [0x30, 9, 4, 2, 7, 8, 0, 3, 1, 2, 3, 9] := by
  intro calls tree
  have htree : treeWritten calls = some tree := rfl
  have hwrite : cbbWrite ⟨fun _ _ => true, fun _ => 0xaa⟩ 0 calls =
      .ok [0x30, 9, 4, 2, 7, 8, 0, 3, 1, 2, 3, 9] := by
    decide +kernel
  exact ⟨htree, (cbb_writes_tree _ 0 calls tree htree).1 _ hwrite⟩

/-! ### Reading a tree -/

/-- What a reader of a tree knows of it: how many bytes to take, and which children to open. -/
inductive Shape where
  | bytes (len : Nat)
  | integer (lenLen : Nat)
  | child (kind : ChildKind) (contents : List Shape)

mutual

def Element.shape : Element → Shape
  | .bytes data => .bytes data.length
  | .integer lenLen _ => .integer lenLen
  | .child kind contents => .child kind (shapes contents)

def shapes : List Element → List Shape
  | [] => []
  | element :: elements => element.shape :: shapes elements

end

/-- The `CBS` function for a child. -/
def ChildKind.get (cbs : Bytes) : Option (Bytes × Bytes) :=
  match kind with
  | asn1 tag => cbsGetAsn1 tag cbs
  | kind => cbsGetLengthPrefixed cbs kind.lenLen

mutual

/-- Reading an element.  A child is read through its own `CBS`, to the end. -/
def Shape.read : Shape → Bytes → Option (Element × Bytes)
  | .bytes len, cbs => do
    let (data, rest) ← cbsGetBytes cbs len
    return (.bytes data, rest)
  | .integer lenLen, cbs => do
    let (value, rest) ← cbsGetU cbs lenLen
    if h : value < 256 ^ lenLen then some (.integer lenLen ⟨value, h⟩, rest) else none
  | .child kind contents, cbs => do
    let (inner, rest) ← kind.get cbs
    let elements ← readAll contents inner
    return (.child kind elements, rest)

def readAll : List Shape → Bytes → Option (List Element)
  | [], cbs => if cbs = [] then some [] else none
  | shape :: shapes, cbs => do
    let (element, rest) ← shape.read cbs
    let elements ← readAll shapes rest
    return element :: elements

end

mutual

/-- The ASN.1 children have tags that the reader accepts; universal tag 0 is not one. -/
def Element.TagsOk : Element → Prop
  | .bytes _ => True
  | .integer _ _ => True
  | .child kind contents => (∀ tag, kind = .asn1 tag → TagOk tag) ∧ TagsOkAll contents

def TagsOkAll : List Element → Prop
  | [] => True
  | element :: elements => element.TagsOk ∧ TagsOkAll elements

end

theorem ChildKind.get_encode {kind : ChildKind} (htag : ∀ tag, kind = .asn1 tag → TagOk tag)
    {contents out : Bytes} (h : kind.encode contents = some out) (rest : Bytes) :
    kind.get (out ++ rest) = some (contents, rest) := by
  rw [encode, body] at h
  split at h
  · next hlimit =>
    cases h
    cases kind with
    | asn1 tag =>
      have hlength : contents.length < 2 ^ 32 :=
        Nat.lt_of_le_of_lt hlimit (show 0xfffffffe < 2 ^ 32 by decide)
      exact cbsGetAsn1_iff.mpr ⟨htag tag rfl, hlength, rfl⟩
    | u8LengthPrefixed => exact cbsGetLengthPrefixed_append (Nat.lt_succ_of_le hlimit) rest
    | u16LengthPrefixed => exact cbsGetLengthPrefixed_append (Nat.lt_succ_of_le hlimit) rest
    | u24LengthPrefixed => exact cbsGetLengthPrefixed_append (Nat.lt_succ_of_le hlimit) rest
  · cases h

mutual

theorem Element.read_encode : ∀ (element : Element) {out : Bytes}, element.TagsOk →
    element.encode = some out → ∀ rest, element.shape.read (out ++ rest) = some (element, rest)
  | .bytes data, _, _, h, rest => by
    cases h
    simp [Element.shape, Shape.read, cbsGetBytes, cbsGet_append]
  | .integer lenLen value, _, _, h, rest => by
    cases h
    simp [Element.shape, Shape.read, cbsGetU_beBytes value.isLt]
  | .child kind contents, _, htags, h, rest => by
    rw [Element.TagsOk] at htags
    rw [Element.encode] at h
    obtain ⟨inner, hinner, hencode⟩ := bind_eq_some_iff.mp h
    have hread := readAll_encodeAll contents htags.2 hinner
    simp [Element.shape, Shape.read, ChildKind.get_encode htags.1 hencode, hread]

theorem readAll_encodeAll : ∀ (elements : List Element) {out : Bytes}, TagsOkAll elements →
    encodeAll elements = some out → readAll (shapes elements) out = some elements
  | [], _, _, h => by
    cases h
    rfl
  | element :: elements, _, htags, h => by
    rw [TagsOkAll] at htags
    rw [encodeAll] at h
    obtain ⟨first, later, hfirst, hlater, rfl⟩ := cat_eq_some h
    have hread := Element.read_encode element htags.1 hfirst later
    have hrest := readAll_encodeAll elements htags.2 hlater
    simp [shapes, readAll, hread, hrest]

end

/-- **Writing and reading trees.**  With memory, the calls that go through a tree depth first write
    its encoding, if that fits in a `size_t`; and the reader that knows the shape of the tree gets
    the tree back from it, at every depth and with nothing left over. -/
theorem cbb_tree_read_back {heap : CbbHeap}
    (hheap : ∀ request size, heap.grants request size = true) (initialCapacity : UInt64)
    {tree : List Element} {out : Bytes} (htags : TagsOkAll tree) (hout : encodeAll tree = some out)
    (hlt : out.length < 2 ^ 64) :
    cbbWrite heap initialCapacity (callsAll tree) = .ok out ∧
      readAll (shapes tree) out = some tree := by
  obtain ⟨base, hwrote, hresult⟩ := cbbWrite_wrote heap initialCapacity (treeWritten_callsAll tree)
  refine ⟨?_, readAll_encodeAll tree htags hout⟩
  rw [hresult]
  cases herror : base.error with
  | none =>
    obtain ⟨written, hwritten, hbuf⟩ := hwrote.written herror
    rw [hbuf, nil_append, Option.some.inj (hout.symm.trans hwritten)]
  | some cause =>
    have hexplained := hwrote.explained cause herror
    cases cause with
    | sizeOverflow =>
      have hsize := hexplained out hout
      rw [length_nil, Nat.zero_add] at hsize
      exact absurd hlt (Nat.not_lt.mpr hsize)
    | outOfMemory =>
      obtain ⟨request, size, hrefused⟩ := hexplained
      cases (hheap request size).symm.trans hrefused
    | childTooLong => cases hout.symm.trans hexplained
    | notResizable => exact hexplained.elim
    | invalidChild => exact hexplained.elim
    | integerTooWide => exact hexplained.elim

def nestedTree : List Element :=
  [.child (.asn1 CBS_ASN1_SEQUENCE) [.child (.asn1 CBS_ASN1_OCTETSTRING) [.bytes [7]],
    .child .u16LengthPrefixed [.integer 2 ⟨0x0102, by decide⟩]], .bytes [9]]

theorem cbb_tree_read_back_nested :
    cbbWrite ⟨fun _ _ => true, fun _ => 0⟩ 0 (callsAll nestedTree) =
        .ok [0x30, 7, 4, 1, 7, 0, 2, 1, 2, 9] ∧
      readAll (shapes nestedTree) [0x30, 7, 4, 1, 7, 0, 2, 1, 2, 9] = some nestedTree := by
  refine cbb_tree_read_back (fun _ _ => rfl) 0 ?_ (by decide) (by decide)
  simp [nestedTree, TagsOkAll, Element.TagsOk]
  decide

end AwsLc
