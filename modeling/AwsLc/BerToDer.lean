import AwsLc.DerElement

/-!
# From BER to DER (`ber.c`)

`CBS_asn1_ber_to_der` rewrites an element with definite, shortest lengths and each constructed
string as one primitive string, unless a scan has found that it is DER already.  `Ber` and `Der` say
which bytes are an element and which tree they stand for.
-/

namespace AwsLc

open List Option

/-! ### The converter -/

def kMaxDepth : Nat := 128

def CBS_ASN1_UTF8STRING : UInt32 := 0xc
def CBS_ASN1_NUMERICSTRING : UInt32 := 0x12
def CBS_ASN1_PRINTABLESTRING : UInt32 := 0x13
def CBS_ASN1_T61STRING : UInt32 := 0x14
def CBS_ASN1_VIDEOTEXSTRING : UInt32 := 0x15
def CBS_ASN1_IA5STRING : UInt32 := 0x16
def CBS_ASN1_GRAPHICSTRING : UInt32 := 0x19
def CBS_ASN1_VISIBLESTRING : UInt32 := 0x1a
def CBS_ASN1_GENERALSTRING : UInt32 := 0x1b
def CBS_ASN1_UNIVERSALSTRING : UInt32 := 0x1c
def CBS_ASN1_BMPSTRING : UInt32 := 0x1e

variable (tag : UInt32)

def isStringType : Bool :=
  [CBS_ASN1_OCTETSTRING, CBS_ASN1_UTF8STRING, CBS_ASN1_NUMERICSTRING, CBS_ASN1_PRINTABLESTRING,
    CBS_ASN1_T61STRING, CBS_ASN1_VIDEOTEXSTRING, CBS_ASN1_IA5STRING, CBS_ASN1_GRAPHICSTRING,
    CBS_ASN1_VISIBLESTRING, CBS_ASN1_GENERALSTRING, CBS_ASN1_UNIVERSALSTRING,
    CBS_ASN1_BMPSTRING].contains (tag &&& ~~~CBS_ASN1_CONSTRUCTED)

/-- The loop of `cbs_find_ber`.  `nested` is the recursive call.  An element has at least two
    bytes, so that as many rounds as there are bytes are enough. -/
def findBerLoop (nested : Bytes → Option Bool) : (rounds : Nat) → (input : Bytes) → Option Bool
  | _, [] => some false
  | 0, _ :: _ => none
  | rounds + 1, first :: input => do
    let (element, rest) ← cbsGetAnyBerAsn1Element (first :: input)
    if element.berFound then return true
    if element.tag &&& CBS_ASN1_CONSTRUCTED ≠ 0 then
      if isStringType element.tag then return true
      let contents ← cbsSkip element.out element.headerLen
      let berFound ← nested contents
      if berFound then return true
    findBerLoop nested rounds rest

/-- `cbs_find_ber`, with `levels` calls left before the limit of the depth. -/
def cbsFindBer : (levels : Nat) → (input : Bytes) → Option Bool
  | 0, _ => none
  | levels + 1, input => findBerLoop (cbsFindBer levels) input.length input

def cbsGetEoc : Bytes → Option Bytes
  | 0 :: 0 :: rest => some rest
  | _ => none

section Convert

variable (nested : Bytes → UInt32 → Bool → Option (Bytes × Bytes))

/-- What `cbs_convert_ber` does with the contents of an element: what is left of the input,
    and the contents as they are written. -/
def convertContents (childStringTag : UInt32) (element : AnyAsn1Element) (rest : Bytes) :
    Option (Bytes × Bytes) :=
  if element.indefinite then nested rest childStringTag true
  else
    match cbsSkip element.out element.headerLen with
    | none => none
    | some contents =>
      if element.tag &&& CBS_ASN1_CONSTRUCTED ≠ 0 then
        (nested contents childStringTag false).map fun result => (rest, result.2)
      else some (rest, contents)

/-- The body of the loop of `cbs_convert_ber` after an element was read. -/
def convertElement (stringTag : UInt32) (element : AnyAsn1Element) (rest : Bytes) :
    Option (Bytes × Bytes) :=
  let bareTag := element.tag &&& ~~~CBS_ASN1_CONSTRUCTED
  if stringTag ≠ 0 then
    -- part of a constructed string, without an element of its own
    if bareTag ≠ stringTag then none else convertContents nested stringTag element rest
  else
    let isString := element.tag &&& CBS_ASN1_CONSTRUCTED ≠ 0 ∧ isStringType element.tag
    let outTag := if isString then bareTag else element.tag
    let childStringTag := if isString then bareTag else 0
    match convertContents nested childStringTag element rest with
    | none => none
    | some (rest, contents) => (cbbAddAsn1 outTag contents).map fun written => (rest, written)

/-- The loop of `cbs_convert_ber`: what is left of the input and what was written.  The `CBB` of
    the source is the list of bytes written to it. -/
def convertBerLoop (stringTag : UInt32) (lookingForEoc : Bool) :
    (rounds : Nat) → (input : Bytes) → Option (Bytes × Bytes)
  | _, [] => if lookingForEoc then none else some ([], [])
  | 0, _ :: _ => none
  | rounds + 1, first :: input =>
    match if lookingForEoc then cbsGetEoc (first :: input) else none with
    | some rest => some (rest, [])
    | none => do
      let (element, rest) ← cbsGetAnyBerAsn1Element (first :: input)
      let (rest, written) ← convertElement nested stringTag element rest
      let (rest, later) ← convertBerLoop stringTag lookingForEoc rounds rest
      return (rest, written ++ later)

end Convert

def cbsConvertBer : (levels : Nat) → (input : Bytes) → (stringTag : UInt32) →
    (lookingForEoc : Bool) → Option (Bytes × Bytes)
  | 0, _, _, _ => none
  | levels + 1, input, stringTag, lookingForEoc =>
    convertBerLoop (cbsConvertBer levels) stringTag lookingForEoc input.length input

/-- `CBS_asn1_ber_to_der`: the element, whether it was converted, and the rest of the input. -/
def cbsAsn1BerToDer (input : Bytes) : Option (Bytes × Bool × Bytes) := do
  let conversionNeeded ← cbsFindBer (kMaxDepth + 1) input
  if conversionNeeded then
    let (rest, out) ← cbsConvertBer (kMaxDepth + 1) input 0 false
    return (out, true, rest)
  else
    let ((_, _, out), rest) ← cbsGetAnyAsn1Element input
    return (out, false, rest)

/-! ### Values -/

inductive Asn1Value where
  | primitive (tag : UInt32) (contents : Bytes)
  | constructed (tag : UInt32) (children : List Asn1Value)

mutual

def Asn1Value.depth : Asn1Value → Nat
  | .primitive _ _ => 0
  | .constructed _ children => depthAll children + 1

def depthAll : List Asn1Value → Nat
  | [] => 0
  | value :: values => max value.depth (depthAll values)

end

/-- An element with the tag and the contents `body`, of definite or of indefinite length. -/
inductive Framed (tag : UInt32) (body : Bytes) : Bytes → Prop where
  | definite {octets : Bytes} (hlength : BerLength octets body.length) :
    Framed tag body (asn1TagBytes tag ++ (octets ++ body))
  | indefinite : Framed tag body (asn1TagBytes tag ++ [0x80] ++ (body ++ [0, 0]))

/-- The contents of a constructed string: elements of its tag, primitive or constructed again.
    The last argument is what they hold together. -/
inductive Fragments (stringTag : UInt32) : Bytes → Bytes → Prop where
  | nil : Fragments stringTag [] []
  | primitive {tag : UInt32} {octets contents later out : Bytes}
    (htag : tag &&& ~~~CBS_ASN1_CONSTRUCTED = stringTag)
    (hprimitive : tag &&& CBS_ASN1_CONSTRUCTED = 0)
    (hlength : BerLength octets contents.length) (hlater : Fragments stringTag later out) :
    Fragments stringTag (asn1TagBytes tag ++ (octets ++ contents) ++ later) (contents ++ out)
  | constructed {tag : UInt32} {body inner bytes later out : Bytes}
    (htag : tag &&& ~~~CBS_ASN1_CONSTRUCTED = stringTag)
    (hconstructed : tag &&& CBS_ASN1_CONSTRUCTED ≠ 0)
    (hinner : Fragments stringTag body inner) (hframed : Framed tag body bytes)
    (hlater : Fragments stringTag later out) : Fragments stringTag (bytes ++ later) (inner ++ out)

mutual

/-- **BER.**  The bytes are an element that stands for the value. -/
inductive Ber : Bytes → Asn1Value → Prop where
  | primitive {tag : UInt32} {octets contents : Bytes}
    (htag : tag &&& ~~~CBS_ASN1_CONSTRUCTED ≠ 0) (hprimitive : tag &&& CBS_ASN1_CONSTRUCTED = 0)
    (hlength : BerLength octets contents.length) :
    Ber (asn1TagBytes tag ++ (octets ++ contents)) (.primitive tag contents)
  | constructed {tag : UInt32} {body bytes : Bytes} {children : List Asn1Value}
    (htag : tag &&& ~~~CBS_ASN1_CONSTRUCTED ≠ 0) (hconstructed : tag &&& CBS_ASN1_CONSTRUCTED ≠ 0)
    (hstring : isStringType tag = false) (hchildren : BerAll body children)
    (hframed : Framed tag body bytes) : Ber bytes (.constructed tag children)
  | string {tag : UInt32} {body bytes contents : Bytes}
    (hconstructed : tag &&& CBS_ASN1_CONSTRUCTED ≠ 0) (hstring : isStringType tag = true)
    (hfragments : Fragments (tag &&& ~~~CBS_ASN1_CONSTRUCTED) body contents)
    (hframed : Framed tag body bytes) :
    Ber bytes (.primitive (tag &&& ~~~CBS_ASN1_CONSTRUCTED) contents)

inductive BerAll : Bytes → List Asn1Value → Prop where
  | nil : BerAll [] []
  | cons {first later : Bytes} {value : Asn1Value} {values : List Asn1Value}
    (hfirst : Ber first value) (hlater : BerAll later values) :
    BerAll (first ++ later) (value :: values)

end

mutual

/-- **DER.**  The strict reader takes the bytes as one element, and the contents of a
    constructed one again as elements.  No string is constructed. -/
inductive Der : Bytes → Asn1Value → Prop where
  | primitive {tag : UInt32} {bytes contents : Bytes}
    (hreads : cbsGetAnyAsn1 bytes = some ((tag, contents), []))
    (hprimitive : tag &&& CBS_ASN1_CONSTRUCTED = 0) : Der bytes (.primitive tag contents)
  | constructed {tag : UInt32} {bytes body : Bytes} {children : List Asn1Value}
    (hreads : cbsGetAnyAsn1 bytes = some ((tag, body), []))
    (hconstructed : tag &&& CBS_ASN1_CONSTRUCTED ≠ 0) (hstring : isStringType tag = false)
    (hchildren : DerAll body children) : Der bytes (.constructed tag children)

inductive DerAll : Bytes → List Asn1Value → Prop where
  | nil : DerAll [] []
  | cons {first later : Bytes} {value : Asn1Value} {values : List Asn1Value}
    (hfirst : Der first value) (hlater : DerAll later values) :
    DerAll (first ++ later) (value :: values)

end

theorem bareTag_ne_zero {tag : UInt32} (h : isStringType tag = true) : TagOk tag := by
  intro hzero
  rw [isStringType, hzero] at h
  revert h
  decide

theorem bareTag_primitive : (tag &&& ~~~CBS_ASN1_CONSTRUCTED) &&& CBS_ASN1_CONSTRUCTED = 0 := by
  rw [UInt32.and_assoc, show ~~~CBS_ASN1_CONSTRUCTED &&& CBS_ASN1_CONSTRUCTED = 0 by decide,
    UInt32.and_zero]

theorem bareTag_bareTag : (tag &&& ~~~CBS_ASN1_CONSTRUCTED) &&& ~~~CBS_ASN1_CONSTRUCTED =
      tag &&& ~~~CBS_ASN1_CONSTRUCTED := by
  rw [UInt32.and_assoc, UInt32.and_self]

theorem asn1TagBytes_head {tag : UInt32} (h : TagOk tag) :
    ∃ first later, asn1TagBytes tag = first :: later ∧ first ≠ 0 := by
  have hparse := (@parseAsn1Tag_iff (asn1TagBytes tag) [] false tag).mpr
    ⟨Or.inr h, (append_nil _).symm⟩
  rcases hbytes : asn1TagBytes tag with _ | ⟨first, later⟩
  · rw [hbytes] at hparse
    cases hparse
  · refine ⟨first, later, rfl, ?_⟩
    rintro rfl
    rw [hbytes] at hparse
    cases hparse

theorem cbsSkip_header (octets contents : Bytes) :
    cbsSkip (asn1TagBytes tag ++ (octets ++ contents)) (asn1TagBytes tag ++ octets).length =
      some contents := by
  rw [cbsSkip, ← append_assoc, cbsGet_append]
  rfl

/-- Contents of a constructed element end with the input or at the end of contents. -/
inductive Ends : (lookingForEoc : Bool) → (tail rest : Bytes) → Prop where
  | input : Ends false [] []
  | eoc {rest : Bytes} : Ends true (0 :: 0 :: rest) rest

section Loop

variable {nested : Bytes → UInt32 → Bool → Option (Bytes × Bytes)} {stringTag : UInt32}
  {lookingForEoc : Bool}

theorem convertBerLoop_ends {rounds : Nat} {tail rest rest' out : Bytes}
    (hends : Ends lookingForEoc tail rest)
    (h : convertBerLoop nested stringTag lookingForEoc rounds tail = some (rest', out)) :
    rest' = rest ∧ out = [] := by
  cases hends with
  | input =>
    cases rounds <;> (cases h; exact ⟨rfl, rfl⟩)
  | eoc =>
    cases rounds with
    | zero => cases h
    | succ rounds =>
      cases h
      exact ⟨rfl, rfl⟩

theorem convertBerLoop_element {rounds : Nat} {tag : UInt32} {input later rest rest' out : Bytes}
    {element : AnyAsn1Element} (htag : TagOk tag) (hinput : input = asn1TagBytes tag ++ later)
    (helement : cbsGetAnyBerAsn1Element input = some (element, rest))
    (h : convertBerLoop nested stringTag lookingForEoc rounds input = some (rest', out)) :
    ∃ rounds' middle written more, convertElement nested stringTag element rest =
        some (middle, written) ∧
      convertBerLoop nested stringTag lookingForEoc rounds' middle = some (rest', more) ∧
      out = written ++ more := by
  obtain ⟨first, tagRest, hbytes, hfirst⟩ := asn1TagBytes_head htag
  rw [hbytes, cons_append] at hinput
  subst hinput
  cases rounds with
  | zero => cases h
  | succ rounds =>
    rw [convertBerLoop] at h
    have heoc : (if lookingForEoc then cbsGetEoc (first :: (tagRest ++ later)) else none) =
        none := by
      split
      · unfold cbsGetEoc
        split
        · next heq => exact absurd (List.cons.inj heq).1 hfirst
        · rfl
      · rfl
    rw [heoc] at h
    dsimp only at h
    obtain ⟨⟨element', after⟩, hparse, h⟩ := bind_eq_some_iff.mp h
    obtain ⟨rfl, rfl⟩ := Prod.mk.inj (Option.some.inj (helement.symm.trans hparse))
    obtain ⟨⟨middle, written⟩, hwritten, h⟩ := bind_eq_some_iff.mp h
    obtain ⟨⟨final, more⟩, hmore, h⟩ := bind_eq_some_iff.mp h
    cases h
    exact ⟨rounds, middle, written, more, hwritten, hmore, rfl⟩

theorem convertContents_framed {tag childStringTag : UInt32} {body bytes more : Bytes}
    (htag : TagOk tag) (hconstructed : Constructed tag) (hframed : Framed tag body bytes) :
    ∃ element rest later, bytes ++ more = asn1TagBytes tag ++ later ∧
      cbsGetAnyBerAsn1Element (bytes ++ more) = some (element, rest) ∧ element.tag = tag ∧
      ∀ rest' contents,
        convertContents nested childStringTag element rest = some (rest', contents) →
        ∃ eoc tail after after', Ends eoc tail after ∧
          nested (body ++ tail) childStringTag eoc = some (after', contents) ∧
          (after' = after → rest' = more) := by
  cases hframed with
  | @definite octets hlength =>
    have helement := (@cbsGetAnyBerAsn1Element_definite
      (asn1TagBytes tag ++ (octets ++ body) ++ more) _ more tag _ _).mpr
        ⟨htag, rfl, octets, body, hlength, rfl, rfl, rfl⟩
    refine ⟨_, more, octets ++ body ++ more, by simp, helement, rfl, ?_⟩
    intro rest' contents h
    have hskip := cbsSkip_header tag octets body
    simp only [convertContents, Bool.false_eq_true, if_false, hskip, if_pos hconstructed] at h
    obtain ⟨⟨after, inner⟩, hnested, hresult⟩ := map_eq_some_iff.mp h
    cases hresult
    exact ⟨false, [], [], after, .input, by rw [append_nil]; exact hnested, fun _ => rfl⟩
  | indefinite =>
    have helement := (@cbsGetAnyBerAsn1Element_indefinite
      (asn1TagBytes tag ++ [0x80] ++ (body ++ 0 :: 0 :: more)) _ (body ++ 0 :: 0 :: more) tag _
      _).mpr
        ⟨htag, hconstructed, rfl, rfl, rfl, rfl⟩
    have hbytes : asn1TagBytes tag ++ [0x80] ++ (body ++ [0, 0]) ++ more =
        asn1TagBytes tag ++ [0x80] ++ (body ++ 0 :: 0 :: more) := by simp
    rw [hbytes]
    refine ⟨_, _, [0x80] ++ (body ++ 0 :: 0 :: more), by simp, helement, rfl, ?_⟩
    intro rest' contents h
    exact ⟨true, 0 :: 0 :: more, more, rest', .eoc, h, id⟩

end Loop

/-! ### The converter is correct -/

/-- A nested call converts what it is given, fragments or elements, up to where it ends. -/
structure Converts (levels : Nat)
    (nested : Bytes → UInt32 → Bool → Option (Bytes × Bytes)) : Prop where
  fragments : ∀ {stringTag body out eoc tail rest rest' out'}, stringTag ≠ 0 →
    Fragments stringTag body out → Ends eoc tail rest →
    nested (body ++ tail) stringTag eoc = some (rest', out') → rest' = rest ∧ out' = out
  elements : ∀ {body values eoc tail rest rest' out'}, BerAll body values → Ends eoc tail rest →
    nested (body ++ tail) 0 eoc = some (rest', out') →
    rest' = rest ∧ DerAll out' values ∧ depthAll values < levels

variable {nested : Bytes → UInt32 → Bool → Option (Bytes × Bytes)} {rest : Bytes}

theorem convertElement_fragment {stringTag : UInt32} {element : AnyAsn1Element}
    (hstring : stringTag ≠ 0) (htag : element.tag &&& ~~~CBS_ASN1_CONSTRUCTED = stringTag) :
    convertElement nested stringTag element rest =
      convertContents nested stringTag element rest := by
  rw [convertElement]
  dsimp only
  rw [if_pos hstring, if_neg (fun h => h htag)]

variable {levels rounds : Nat}

theorem convertBerLoop_fragments (hnested : Converts levels nested) {stringTag : UInt32}
    (hstring : stringTag ≠ 0) {body out : Bytes} (hbody : Fragments stringTag body out) {eoc : Bool}
    {tail : Bytes} (hends : Ends eoc tail rest) {rest' out' : Bytes}
    (h : convertBerLoop nested stringTag eoc rounds (body ++ tail) = some (rest', out')) :
    rest' = rest ∧ out' = out := by
  induction hbody generalizing rounds out' with
  | nil => exact convertBerLoop_ends hends h
  | @primitive tag octets contents later out htag hprimitive hlength hlater ih =>
    rw [append_assoc] at h
    have helement := (@cbsGetAnyBerAsn1Element_definite
      (asn1TagBytes tag ++ (octets ++ contents) ++ (later ++ tail)) _ (later ++ tail) tag _ _).mpr
        ⟨htag.trans_ne hstring, rfl, octets, contents, hlength, rfl, rfl, rfl⟩
    obtain ⟨rounds', middle, written, more, hwritten, hmore, rfl⟩ :=
      convertBerLoop_element (htag.trans_ne hstring) (append_assoc _ _ _) helement h
    rw [convertElement_fragment hstring htag] at hwritten
    have hskip := cbsSkip_header tag octets contents
    simp only [convertContents, Bool.false_eq_true, if_false, hskip, hprimitive, ne_eq,
      not_true_eq_false, Option.some.injEq, Prod.mk.injEq] at hwritten
    obtain ⟨rfl, rfl⟩ := hwritten
    obtain ⟨hrest, rfl⟩ := ih hmore
    exact ⟨hrest, rfl⟩
  | @constructed tag body inner bytes later out htag hconstructed hinner hframed hlater _ ih =>
    rw [append_assoc] at h
    obtain ⟨element, after, tagRest, hinput, helement, helementTag, hcontents⟩ :=
      @convertContents_framed nested tag stringTag body bytes (later ++ tail)
        (htag.trans_ne hstring) hconstructed hframed
    obtain ⟨rounds', middle, written, more, hwritten, hmore, rfl⟩ :=
      convertBerLoop_element (htag.trans_ne hstring) hinput helement h
    rw [convertElement_fragment hstring (by rw [helementTag]; exact htag)] at hwritten
    obtain ⟨eoc', tail', end', end'', hends', hcall, hmiddle⟩ := hcontents _ _ hwritten
    obtain ⟨hend, rfl⟩ := hnested.fragments hstring hinner hends' hcall
    rw [hmiddle hend] at hmore
    obtain ⟨hrest, rfl⟩ := ih hmore
    exact ⟨hrest, rfl⟩

variable {bytes : Bytes}

theorem cbsGetAnyAsn1_of_cbbAddAsn1 {tag : UInt32} {contents : Bytes}
    (htag : TagOk tag) (h : cbbAddAsn1 tag contents = some bytes) :
    cbsGetAnyAsn1 bytes = some ((tag, contents), []) := by
  rw [cbbAddAsn1_eq] at h
  split at h
  · next hle =>
    cases h
    exact cbsGetAnyAsn1_iff.mpr ⟨htag, by omega, (append_nil _).symm⟩
  · cases h

theorem convertElement_eq_some {element : AnyAsn1Element} {middle written : Bytes}
    (h : convertElement nested 0 element rest = some (middle, written)) :
    let isString := Constructed element.tag ∧ isStringType element.tag
    let bareTag := element.tag &&& ~~~CBS_ASN1_CONSTRUCTED
    ∃ contents, convertContents nested (if isString then bareTag else 0) element rest =
        some (middle, contents) ∧
      cbbAddAsn1 (if isString then bareTag else element.tag) contents = some written := by
  intro isString bareTag
  rw [convertElement] at h
  dsimp only at h
  rw [if_neg (fun hne => hne rfl)] at h
  split at h
  · cases h
  · next after contents hcontents =>
    obtain ⟨out, hout, hresult⟩ := map_eq_some_iff.mp h
    cases hresult
    exact ⟨contents, hcontents, hout⟩

variable {value : Asn1Value}

/-- A round of the loop outside a string: the element is converted, and what follows it is left. -/
theorem convertBerLoop_ber (hnested : Converts levels nested) {more : Bytes}
    (hvalue : Ber bytes value) {eoc : Bool} {rest' out' : Bytes}
    (h : convertBerLoop nested 0 eoc rounds (bytes ++ more) = some (rest', out')) :
    ∃ rounds' written later, Der written value ∧ value.depth ≤ levels ∧
      convertBerLoop nested 0 eoc rounds' more = some (rest', later) ∧ out' = written ++ later := by
  cases hvalue with
  | @primitive tag octets contents htag hprimitive hlength =>
    have helement := (@cbsGetAnyBerAsn1Element_definite
      (asn1TagBytes tag ++ (octets ++ contents) ++ more) _ more tag _ _).mpr
        ⟨htag, rfl, octets, contents, hlength, rfl, rfl, rfl⟩
    obtain ⟨rounds', middle, written, later, hwritten, hmore, rfl⟩ :=
      convertBerLoop_element htag (by rw [append_assoc]) helement h
    obtain ⟨inner, hinner, hout⟩ := convertElement_eq_some hwritten
    have hskip := cbsSkip_header tag octets contents
    have hnotString : ¬(Constructed tag ∧ isStringType tag = true) :=
      fun hstring => hstring.1 hprimitive
    dsimp only at hout
    rw [if_neg hnotString] at hout
    simp only [convertContents, Bool.false_eq_true, if_false, hskip, hprimitive, ne_eq,
      not_true_eq_false, Option.some.injEq, Prod.mk.injEq] at hinner
    obtain ⟨rfl, rfl⟩ := hinner
    exact ⟨rounds', written, later, .primitive (cbsGetAnyAsn1_of_cbbAddAsn1 htag hout) hprimitive,
      Nat.zero_le _, hmore, rfl⟩
  | @constructed tag body _ children htag hconstructed hstring hchildren hframed =>
    obtain ⟨element, after, tagRest, hinput, helement, rfl, hcontents⟩ :=
      @convertContents_framed nested tag 0 body bytes more htag hconstructed hframed
    obtain ⟨rounds', middle, written, later, hwritten, hmore, rfl⟩ :=
      convertBerLoop_element htag hinput helement h
    obtain ⟨inner, hinner, hout⟩ := convertElement_eq_some hwritten
    have hnotString : ¬(Constructed element.tag ∧
        isStringType element.tag = true) := fun h => by
      rw [hstring] at h
      exact Bool.false_ne_true h.2
    rw [if_neg hnotString] at hinner hout
    obtain ⟨eoc', tail', end', end'', hends', hcall, hmiddle⟩ := hcontents _ _ hinner
    obtain ⟨hend, hder, hdepth⟩ := hnested.elements hchildren hends' hcall
    rw [hmiddle hend] at hmore
    exact ⟨rounds', written, later,
      .constructed (cbsGetAnyAsn1_of_cbbAddAsn1 htag hout) hconstructed hstring hder, hdepth,
      hmore, rfl⟩
  | @string tag body _ contents hconstructed hstring hfragments hframed =>
    have htag := bareTag_ne_zero hstring
    obtain ⟨element, after, tagRest, hinput, helement, rfl, hcontents⟩ :=
      @convertContents_framed nested tag (tag &&& ~~~CBS_ASN1_CONSTRUCTED) body bytes more htag
        hconstructed hframed
    obtain ⟨rounds', middle, written, later, hwritten, hmore, rfl⟩ :=
      convertBerLoop_element htag hinput helement h
    obtain ⟨inner, hinner, hout⟩ := convertElement_eq_some hwritten
    rw [if_pos ⟨hconstructed, hstring⟩] at hinner hout
    obtain ⟨eoc', tail', end', end'', hends', hcall, hmiddle⟩ := hcontents _ _ hinner
    obtain ⟨hend, rfl⟩ := hnested.fragments htag hfragments hends' hcall
    rw [hmiddle hend] at hmore
    refine ⟨rounds', written, later, .primitive (cbsGetAnyAsn1_of_cbbAddAsn1 ?_ hout)
      (bareTag_primitive _), Nat.zero_le _, hmore, rfl⟩
    exact (bareTag_bareTag _).trans_ne htag

variable {values : List Asn1Value}

theorem convertBerLoop_elements (hnested : Converts levels nested) {body : Bytes}
    (hbody : BerAll body values) {eoc : Bool} {tail : Bytes} (hends : Ends eoc tail rest)
    {rest' out' : Bytes}
    (h : convertBerLoop nested 0 eoc rounds (body ++ tail) = some (rest', out')) :
    rest' = rest ∧ DerAll out' values ∧ depthAll values < levels + 1 := by
  induction values generalizing body rounds out' with
  | nil =>
    cases hbody
    obtain ⟨hrest, rfl⟩ := convertBerLoop_ends hends h
    exact ⟨hrest, .nil, Nat.succ_pos _⟩
  | cons value values ih =>
    cases hbody with
    | @cons first later _ _ hfirst hlater =>
      rw [append_assoc] at h
      obtain ⟨rounds', written, more, hder, hdepth, hmore, rfl⟩ :=
        convertBerLoop_ber hnested hfirst h
      obtain ⟨hrest, hders, hdepths⟩ := ih hlater hmore
      exact ⟨hrest, .cons hder hders, Nat.max_lt.mpr ⟨Nat.lt_succ_of_le hdepth, hdepths⟩⟩

/-- **The converter** rewrites, at every depth, elements of BER to DER of the same values. -/
theorem cbsConvertBer_converts (levels : Nat) : Converts levels (cbsConvertBer levels) := by
  induction levels with
  | zero =>
    constructor
    · intro stringTag body out eoc tail rest rest' out' _ _ _ h
      cases h
    · intro body values eoc tail rest rest' out' _ _ h
      cases h
  | succ levels ih =>
    constructor
    · intro stringTag body out eoc tail rest rest' out' hstring hbody hends h
      exact convertBerLoop_fragments ih hstring hbody hends h
    · intro body values eoc tail rest rest' out' hbody hends h
      exact convertBerLoop_elements ih hbody hends h

section Scan

variable {nested : Bytes → Option Bool} {levels rounds : Nat}
variable {tag : UInt32}

theorem tagBytes_append_ne_nil (htag : TagOk tag) (later : Bytes) :
    asn1TagBytes tag ++ later ≠ [] := by
  obtain ⟨first, tagRest, hbytes, -⟩ := asn1TagBytes_head htag
  rw [hbytes]
  exact cons_ne_nil _ _

theorem Framed.ne_nil {body bytes : Bytes} (htag : TagOk tag)
    (h : Framed tag body bytes) : bytes ≠ [] := by
  cases h with
  | definite => exact tagBytes_append_ne_nil htag _
  | indefinite =>
    rw [append_assoc]
    exact tagBytes_append_ne_nil htag _

theorem Ber.ne_nil {bytes : Bytes} {value : Asn1Value} (h : Ber bytes value) : bytes ≠ [] := by
  cases h with
  | primitive htag => exact tagBytes_append_ne_nil htag _
  | constructed htag _ _ _ hframed => exact hframed.ne_nil htag
  | string _ hstring _ hframed => exact hframed.ne_nil (bareTag_ne_zero hstring)

theorem findBerLoop_element {input rest : Bytes} {element : AnyAsn1Element} (hne : input ≠ [])
    (helement : cbsGetAnyBerAsn1Element input = some (element, rest)) :
    findBerLoop nested (rounds + 1) input = if element.berFound then some true
      else if Constructed element.tag then if isStringType element.tag then some true else
          (cbsSkip element.out element.headerLen).bind fun contents =>
            (nested contents).bind fun berFound =>
              if berFound then some true else findBerLoop nested rounds rest
      else findBerLoop nested rounds rest := by
  rcases input with _ | ⟨first, input⟩
  · exact absurd rfl hne
  rw [findBerLoop, helement]
  simp

theorem findBerLoop_definite {octets contents : Bytes} (more : Bytes)
    (htag : TagOk tag) (hlength : BerLength octets contents.length) :
    findBerLoop nested (rounds + 1) (asn1TagBytes tag ++ (octets ++ contents) ++ more) =
      if octets ≠ lengthOctets contents.length then some true else if Constructed tag then
        if isStringType tag then some true else (nested contents).bind fun berFound =>
            if berFound then some true else findBerLoop nested rounds more
      else findBerLoop nested rounds more := by
  have helement := (@cbsGetAnyBerAsn1Element_definite
    (asn1TagBytes tag ++ (octets ++ contents) ++ more) _ more tag _ _).mpr
      ⟨htag, rfl, octets, contents, hlength, rfl, rfl, rfl⟩
  have hne : asn1TagBytes tag ++ (octets ++ contents) ++ more ≠ [] := by
    rw [append_assoc]
    exact tagBytes_append_ne_nil htag _
  rw [findBerLoop_element hne helement]
  dsimp only
  rw [cbsSkip_header, bind_some]
  simp

/-- The scanner stops at an element of indefinite length. -/
theorem findBerLoop_indefinite (more : Bytes) (htag : TagOk tag) (hconstructed : Constructed tag) :
    findBerLoop nested (rounds + 1) (asn1TagBytes tag ++ [0x80] ++ more) = some true := by
  have helement := (@cbsGetAnyBerAsn1Element_indefinite
    (asn1TagBytes tag ++ [0x80] ++ more) _ more tag _ _).mpr
      ⟨htag, hconstructed, rfl, rfl, rfl, rfl⟩
  have hne : asn1TagBytes tag ++ [0x80] ++ more ≠ [] := by
    rw [append_assoc]
    exact tagBytes_append_ne_nil htag _
  rw [findBerLoop_element hne helement]
  rfl

/-- The strict reader takes an element whose length is the shortest. -/
theorem cbsGetAnyAsn1_of_berLength {octets contents : Bytes}
    (htag : TagOk tag) (hlength : BerLength octets contents.length)
    (hoctets : octets = lengthOctets contents.length) :
    cbsGetAnyAsn1 (asn1TagBytes tag ++ (octets ++ contents)) = some ((tag, contents), []) := by
  apply cbsGetAnyAsn1_iff.mpr
  rw [hoctets]
  exact ⟨htag, hlength.lt, (append_nil _).symm⟩

theorem findBerLoop_ber (hnested : ∀ {body values}, BerAll body values → nested body = some false →
      DerAll body values ∧ depthAll values < levels)
    {bytes more : Bytes} {value : Asn1Value} (hvalue : Ber bytes value)
    (h : findBerLoop nested (rounds + 1) (bytes ++ more) = some false) :
    Der bytes value ∧ value.depth ≤ levels ∧ findBerLoop nested rounds more = some false := by
  cases hvalue with
  | @primitive tag octets contents htag hprimitive hlength =>
    rw [findBerLoop_definite more htag hlength] at h
    split at h
    · cases h
    · next hoctets =>
      rw [if_neg (fun hne => hne hprimitive)] at h
      exact ⟨.primitive (cbsGetAnyAsn1_of_berLength htag hlength (not_not.mp hoctets)) hprimitive,
        Nat.zero_le _, h⟩
  | @constructed tag body _ children htag hconstructed hstring hchildren hframed =>
    cases hframed with
    | definite hlength =>
      rw [findBerLoop_definite more htag hlength] at h
      split at h
      · cases h
      · next hoctets =>
        rw [if_neg (by rw [hstring]; exact Bool.false_ne_true)] at h
        obtain ⟨berFound, hbody, hrest⟩ := bind_eq_some_iff.mp h
        cases berFound with
        | true => cases hrest
        | false =>
          obtain ⟨hder, hdepth⟩ := hnested hchildren hbody
          exact ⟨.constructed (cbsGetAnyAsn1_of_berLength htag hlength (not_not.mp hoctets))
            hconstructed hstring hder, hdepth, hrest⟩
    | indefinite =>
      rw [append_assoc, findBerLoop_indefinite _ htag hconstructed] at h
      cases h
  | @string tag body _ contents hconstructed hstring hfragments hframed =>
    have htag := bareTag_ne_zero hstring
    cases hframed with
    | definite hlength =>
      rw [findBerLoop_definite more htag hlength] at h
      rw [if_pos hconstructed, if_pos hstring, ite_self] at h
      cases h
    | indefinite =>
      rw [append_assoc, findBerLoop_indefinite _ htag hconstructed] at h
      cases h

end Scan

/-- **The scanner.**  Elements in which it finds nothing are DER already. -/
theorem cbsFindBer_der {body : Bytes} (hbody : BerAll body values)
    (h : cbsFindBer levels body = some false) : DerAll body values ∧ depthAll values < levels := by
  induction levels generalizing body values with
  | zero => cases h
  | succ levels ih =>
    rw [cbsFindBer] at h
    generalize body.length = rounds at h
    induction values generalizing body rounds with
    | nil =>
      cases hbody
      exact ⟨.nil, Nat.succ_pos _⟩
    | cons value values ihValues =>
      cases hbody with
      | @cons first later _ _ hfirst hlater =>
        cases rounds with
        | zero =>
          rcases hbytes : first ++ later with _ | ⟨byte, more⟩
          · exact absurd (append_eq_nil_iff.mp hbytes).1 hfirst.ne_nil
          · rw [hbytes] at h
            cases h
        | succ rounds =>
          obtain ⟨hder, hdepth, hrest⟩ := findBerLoop_ber ih hfirst h
          obtain ⟨hders, hdepths⟩ := ihValues hlater rounds hrest
          exact ⟨.cons hder hders, Nat.max_lt.mpr ⟨Nat.lt_succ_of_le hdepth, hdepths⟩⟩

/-! ### DER -/

theorem Der.element (h : Der bytes value) : ∃ tag contents, TagOk tag ∧ contents.length < 2 ^ 32 ∧
      bytes = derElement tag contents := by
  cases h with
  | primitive hreads | constructed hreads =>
    obtain ⟨htag, hlength, hbytes⟩ := cbsGetAnyAsn1_iff.mp hreads
    rw [append_nil] at hbytes
    exact ⟨_, _, htag, hlength, hbytes⟩

theorem Der.reads (h : Der bytes value) (rest : Bytes) :
    ∃ tag headerLen,
      cbsGetAnyAsn1Element (bytes ++ rest) = some ((tag, headerLen, bytes), rest) := by
  obtain ⟨tag, contents, htag, hlength, rfl⟩ := h.element
  exact ⟨_, _, cbsGetAnyAsn1Element_iff.mpr ⟨htag, rfl, contents, hlength, rfl, rfl⟩⟩

theorem Der.ne_nil (h : Der bytes value) : bytes ≠ [] := by
  obtain ⟨tag, contents, htag, -, rfl⟩ := h.element
  exact tagBytes_append_ne_nil htag _

theorem Der.append_inj {first later first' later' : Bytes} {value' : Asn1Value}
    (h : Der first value) (h' : Der first' value') (heq : first ++ later = first' ++ later') :
    first = first' ∧ later = later' := by
  obtain ⟨tag, contents, htag, hlength, rfl⟩ := h.element
  obtain ⟨tag', contents', htag', hlength', rfl⟩ := h'.element
  have hreads := (@cbsGetAnyAsn1_iff (derElement tag contents ++ later) contents later tag).mpr
    ⟨htag, hlength, rfl⟩
  have hreads' := cbsGetAnyAsn1_iff.mpr ⟨htag', hlength', heq⟩
  cases hreads.symm.trans hreads'
  exact ⟨rfl, rfl⟩

mutual

theorem Der.ber {bytes : Bytes} : (value : Asn1Value) → Der bytes value → Ber bytes value
  | .primitive tag contents, h => by
    cases h with
    | primitive hreads hprimitive =>
      obtain ⟨htag, hlength, hbytes⟩ := cbsGetAnyAsn1_iff.mp hreads
      rw [hbytes, append_nil, derElement]
      exact .primitive htag hprimitive (berLength_lengthOctets hlength)
  | .constructed tag children, h => by
    cases h with
    | constructed hreads hconstructed hstring hchildren =>
      obtain ⟨htag, hlength, hbytes⟩ := cbsGetAnyAsn1_iff.mp hreads
      rw [hbytes, append_nil, derElement]
      exact .constructed htag hconstructed hstring (DerAll.ber children hchildren)
        (.definite (berLength_lengthOctets hlength))

theorem DerAll.ber {bytes : Bytes} :
    (values : List Asn1Value) → DerAll bytes values → BerAll bytes values
  | [], h => by
    cases h
    exact .nil
  | value :: values, h => by
    cases h with
    | cons hfirst hlater => exact .cons (Der.ber value hfirst) (DerAll.ber values hlater)

end

mutual

theorem Der.unique {bytes : Bytes} :
    (value : Asn1Value) → (other : Asn1Value) → Der bytes value → Der bytes other → value = other
  | .primitive tag contents, other, h, hother => by
    cases h with
    | primitive hreads hprimitive =>
      cases hother with
      | primitive hreads' =>
        cases hreads.symm.trans hreads'
        rfl
      | constructed hreads' hconstructed =>
        cases hreads.symm.trans hreads'
        exact absurd hprimitive hconstructed
  | .constructed tag children, other, h, hother => by
    cases h with
    | constructed hreads hconstructed _ hchildren =>
      cases hother with
      | primitive hreads' hprimitive =>
        cases hreads.symm.trans hreads'
        exact absurd hprimitive hconstructed
      | constructed hreads' _ _ hothers =>
        cases hreads.symm.trans hreads'
        rw [DerAll.unique children _ hchildren hothers]

theorem DerAll.unique {bytes : Bytes} : (values : List Asn1Value) → (others : List Asn1Value) →
    DerAll bytes values → DerAll bytes others → values = others
  | [], others, h, hothers => by
    cases h
    generalize hbytes : ([] : Bytes) = bytes at hothers
    cases hothers with
    | nil => rfl
    | cons hfirst => exact absurd (List.append_eq_nil_iff.mp hbytes.symm).1 hfirst.ne_nil
  | value :: values, others, h, hothers => by
    cases h with
    | @cons first later _ _ hfirst hlater =>
      generalize hbytes : first ++ later = bytes at hothers
      cases hothers with
      | nil => exact absurd (List.append_eq_nil_iff.mp hbytes).1 hfirst.ne_nil
      | @cons first' later' value' values' hfirst' hlater' =>
        obtain ⟨rfl, rfl⟩ := hfirst.append_inj hfirst' hbytes
        rw [Der.unique value value' hfirst hfirst', DerAll.unique values values' hlater hlater']

end

theorem DerAll.single (h : Der bytes value) : DerAll bytes [value] := by
  have hall := DerAll.cons h .nil
  rw [append_nil] at hall
  exact hall

theorem DerAll.of_single (h : DerAll bytes [value]) : Der bytes value := by
  cases h with
  | cons hfirst hlater =>
    cases hlater
    rw [append_nil]
    exact hfirst

theorem findBerLoop_der {nested : Bytes → Option Bool}
    (hnested : ∀ {body values}, DerAll body values → depthAll values < levels →
      nested body = some false) {more : Bytes} (hvalue : Der bytes value)
    (hdepth : value.depth ≤ levels) (hmore : findBerLoop nested rounds more = some false) :
    findBerLoop nested (rounds + 1) (bytes ++ more) = some false := by
  cases hvalue with
  | primitive hreads hprimitive =>
    obtain ⟨htag, hlength, rfl⟩ := cbsGetAnyAsn1_iff.mp hreads
    rw [append_nil, derElement,
      findBerLoop_definite more htag (berLength_lengthOctets hlength), if_neg (fun h => h rfl),
      if_neg (fun h => h hprimitive), hmore]
  | constructed hreads hconstructed hstring hchildren =>
    obtain ⟨htag, hlength, rfl⟩ := cbsGetAnyAsn1_iff.mp hreads
    rw [append_nil, derElement,
      findBerLoop_definite more htag (berLength_lengthOctets hlength), if_neg (fun h => h rfl),
      if_pos hconstructed, if_neg (by rw [hstring]; exact Bool.false_ne_true),
      hnested hchildren hdepth, bind_some, if_neg Bool.false_ne_true, hmore]

theorem cbsFindBer_of_der {body : Bytes} (hbody : DerAll body values)
    (hdepth : depthAll values < levels) : cbsFindBer levels body = some false := by
  induction levels generalizing body values with
  | zero => exact absurd hdepth (Nat.not_lt_zero _)
  | succ levels ih =>
    rw [cbsFindBer]
    suffices hloop : ∀ rounds, body.length ≤ rounds →
        findBerLoop (cbsFindBer levels) rounds body = some false from hloop _ (Nat.le_refl _)
    induction values generalizing body with
    | nil =>
      cases hbody
      intro rounds _
      cases rounds <;> rfl
    | cons value values ihValues =>
      cases hbody with
      | @cons first later _ _ hfirst hlater =>
        intro rounds hrounds
        obtain ⟨hdepthFirst, hdepthLater⟩ := Nat.max_lt.mp hdepth
        have hpos := length_pos_iff.mpr hfirst.ne_nil
        rw [length_append] at hrounds
        obtain ⟨rounds, rfl⟩ := Nat.exists_eq_succ_of_ne_zero (show rounds ≠ 0 by omega)
        have hrest := ihValues hlater hdepthLater rounds (by omega)
        exact findBerLoop_der (fun hbody hdepth => ih hbody hdepth) hfirst
          (Nat.le_of_lt_succ hdepthFirst) hrest

/-! ### The conversion -/

theorem cbsAsn1BerToDer_of_der {out : Bytes} (h : Der out value) (hdepth : value.depth ≤ kMaxDepth)
    : cbsAsn1BerToDer out = some (out, false, []) := by
  have hscan : cbsFindBer (kMaxDepth + 1) out = some false := by
    apply cbsFindBer_of_der (DerAll.single h)
    exact Nat.max_lt.mpr ⟨Nat.lt_succ_of_le hdepth, Nat.succ_pos _⟩
  obtain ⟨tag, headerLen, helement⟩ := h.reads []
  rw [append_nil] at helement
  rw [cbsAsn1BerToDer, hscan, helement]
  rfl

theorem cbsAsn1BerToDer_der {input out : Bytes} {converted : Bool} (hinput : Ber input value)
    (h : cbsAsn1BerToDer input = some (out, converted, rest)) :
    Der out value ∧ value.depth ≤ kMaxDepth ∧ rest = [] := by
  have hall : BerAll (input ++ []) [value] := .cons hinput .nil
  have hdepthOf : depthAll [value] < kMaxDepth + 1 → value.depth ≤ kMaxDepth := fun hdepth =>
    Nat.le_of_lt_succ (Nat.max_lt.mp hdepth).1
  obtain ⟨conversionNeeded, hscan, h⟩ := bind_eq_some_iff.mp h
  cases conversionNeeded with
  | true =>
    obtain ⟨⟨rest', out'⟩, hconvert, hresult⟩ := bind_eq_some_iff.mp h
    cases hresult
    rw [← append_nil input, ← append_nil (input ++ [])] at hconvert
    obtain ⟨hrest, hder, hdepth⟩ := (cbsConvertBer_converts _).elements hall .input hconvert
    exact ⟨hder.of_single, hdepthOf hdepth, hrest⟩
  | false =>
    rw [append_nil] at hall
    obtain ⟨hder, hdepth⟩ := cbsFindBer_der hall hscan
    obtain ⟨⟨⟨tag, headerLen, out'⟩, rest'⟩, helement, hresult⟩ := bind_eq_some_iff.mp h
    cases hresult
    obtain ⟨tag', headerLen', helement'⟩ := hder.of_single.reads []
    rw [append_nil] at helement'
    cases helement.symm.trans helement'
    exact ⟨hder.of_single, hdepthOf hdepth, rfl⟩

/-- **Conversion.**  A conversion of an element of BER gives the element of DER of the same value,
    and converting that again leaves it as it is.  In particular the element has one value. -/
theorem ber_to_der_normalizes {input out rest : Bytes} {value : Asn1Value} {converted : Bool}
    (hinput : Ber input value) (h : cbsAsn1BerToDer input = some (out, converted, rest)) :
    Der out value ∧ Ber out value ∧ rest = [] ∧
      cbsAsn1BerToDer out = some (out, false, []) ∧ ∀ other, Ber input other → other = value := by
  have hresult : ∀ other, Ber input other →
      Der out other ∧ other.depth ≤ kMaxDepth ∧ rest = [] := by
    intro other hother
    exact cbsAsn1BerToDer_der hother h
  obtain ⟨hder, hdepth, hrest⟩ := hresult value hinput
  refine ⟨hder, hder.ber, hrest, cbsAsn1BerToDer_of_der hder hdepth, ?_⟩
  intro other hother
  exact (hresult other hother).1.unique _ _ hder

/-- A sequence of indefinite length that holds an octet string in two fragments, and an integer
    whose length takes two octets. -/
theorem ber_to_der_normalizes_sequence :
    let value := Asn1Value.constructed CBS_ASN1_SEQUENCE
      [.primitive CBS_ASN1_OCTETSTRING [0xaa, 0xbb], .primitive CBS_ASN1_INTEGER [0x05]]
    let input : Bytes := [0x30, 0x80, 0x24, 0x80, 0x04, 0x01, 0xaa, 0x04, 0x01, 0xbb, 0x00, 0x00,
      0x02, 0x81, 0x01, 0x05, 0x00, 0x00]
    let out : Bytes := [0x30, 0x07, 0x04, 0x02, 0xaa, 0xbb, 0x02, 0x01, 0x05]
    cbsAsn1BerToDer input = some (out, true, []) ∧
      Der out value ∧ Ber out value ∧ ([] : Bytes) = [] ∧
      cbsAsn1BerToDer out = some (out, false, []) ∧ ∀ other, Ber input other → other = value := by
  intro value input out
  have hresult : cbsAsn1BerToDer input = some (out, true, []) := by decide +kernel
  have hfragments : Fragments CBS_ASN1_OCTETSTRING [0x04, 0x01, 0xaa, 0x04, 0x01, 0xbb]
      [0xaa, 0xbb] :=
    @Fragments.primitive _ CBS_ASN1_OCTETSTRING [0x01] [0xaa] _ _ (by decide) (by decide)
      (.short (by decide))
      (@Fragments.primitive _ CBS_ASN1_OCTETSTRING [0x01] [0xbb] _ _ (by decide) (by decide)
        (.short (by decide)) .nil)
  have hstring : Ber [0x24, 0x80, 0x04, 0x01, 0xaa, 0x04, 0x01, 0xbb, 0x00, 0x00]
      (.primitive CBS_ASN1_OCTETSTRING [0xaa, 0xbb]) :=
    @Ber.string (CBS_ASN1_OCTETSTRING ||| CBS_ASN1_CONSTRUCTED) _ _ _ (by decide) (by decide)
      hfragments .indefinite
  have hinteger : Ber [0x02, 0x81, 0x01, 0x05] (.primitive CBS_ASN1_INTEGER [0x05]) :=
    @Ber.primitive CBS_ASN1_INTEGER [0x81, 0x01] [0x05] (by decide) (by decide)
      (@BerLength.long 1 1 (by decide) (by decide) (by decide))
  have hinput : Ber input value :=
    .constructed (by decide) (by decide) (by decide) (.cons hstring (.cons hinteger .nil))
      .indefinite
  exact ⟨hresult, ber_to_der_normalizes hinput hresult⟩

/-- An element in which the scanner finds nothing is DER, whatever follows it. -/
theorem cbsFindBer_first {first later : Bytes} (hfirst : Ber first value)
    (h : cbsFindBer (levels + 1) (first ++ later) = some false) : Der first value := by
  have hpos := length_pos_iff.mpr hfirst.ne_nil
  obtain ⟨rounds, hrounds⟩ : ∃ rounds, (first ++ later).length = rounds + 1 :=
    Nat.exists_eq_succ_of_ne_zero (by rw [length_append]; omega)
  rw [cbsFindBer, hrounds] at h
  exact (findBerLoop_ber cbsFindBer_der hfirst h).1

theorem BerAll.eq_nil (h : BerAll [] values) : values = [] := by
  generalize hbytes : ([] : Bytes) = bytes at h
  cases h with
  | nil => rfl
  | cons hfirst => exact absurd (append_eq_nil_iff.mp hbytes.symm).1 hfirst.ne_nil

/-- **Elements that follow.**  The conversion reads one element where nothing follows it, or where
    all elements are DER.  Otherwise it converts what follows as well, and leaves nothing. -/
theorem ber_to_der_one_element {first later out rest : Bytes} {value : Asn1Value}
    {values : List Asn1Value} {converted : Bool} (hfirst : Ber first value)
    (hlater : BerAll later values)
    (h : cbsAsn1BerToDer (first ++ later) = some (out, converted, rest)) :
    (rest = later ∧ Der out value) ↔ (later = [] ∨ DerAll (first ++ later) (value :: values)) := by
  have hall : BerAll (first ++ later) (value :: values) := .cons hfirst hlater
  obtain ⟨conversionNeeded, hscan, h⟩ := bind_eq_some_iff.mp h
  cases conversionNeeded with
  | true =>
    obtain ⟨⟨rest', out'⟩, hconvert, hresult⟩ := bind_eq_some_iff.mp h
    cases hresult
    rw [← append_nil (first ++ later)] at hconvert
    obtain ⟨rfl, hders, hdepth⟩ := (cbsConvertBer_converts _).elements hall .input hconvert
    constructor
    · rintro ⟨hrest, -⟩
      exact Or.inl hrest.symm
    · rintro (rfl | hder)
      · rw [hlater.eq_nil] at hders
        exact ⟨rfl, hders.of_single⟩
      · rw [cbsFindBer_of_der hder hdepth] at hscan
        cases hscan
  | false =>
    obtain ⟨⟨⟨tag, headerLen, out'⟩, rest'⟩, helement, hresult⟩ := bind_eq_some_iff.mp h
    cases hresult
    have hder := cbsFindBer_first hfirst hscan
    obtain ⟨tag', headerLen', helement'⟩ := hder.reads later
    cases helement.symm.trans helement'
    exact ⟨fun _ => Or.inr (cbsFindBer_der hall hscan).1, fun _ => ⟨rfl, hder⟩⟩

theorem der_null : Der [0x05, 0x00] (.primitive 0x05 []) :=
  .primitive (by decide) (by decide)

/-- Two elements of DER: the first one is taken. -/
theorem ber_to_der_one_element_null :
    cbsAsn1BerToDer ([0x05, 0x00] ++ [0x05, 0x00]) = some ([0x05, 0x00], false, [0x05, 0x00]) ∧
      (([0x05, 0x00] : Bytes) = [0x05, 0x00] ∧ Der [0x05, 0x00] (.primitive 0x05 [])) :=
  have hresult : cbsAsn1BerToDer ([0x05, 0x00] ++ [0x05, 0x00]) =
      some ([0x05, 0x00], false, [0x05, 0x00]) := by decide +kernel
  ⟨hresult, (ber_to_der_one_element der_null.ber (DerAll.ber _ (.single der_null)) hresult).mpr
    (Or.inr (.cons der_null (.single der_null)))⟩

/-- A null, and a sequence of indefinite length behind it: both are converted and consumed. -/
theorem ber_to_der_consumes_all : Ber [0x05, 0x00] (.primitive 0x05 []) ∧
      BerAll [0x30, 0x80, 0x00, 0x00] [.constructed CBS_ASN1_SEQUENCE []] ∧
      cbsAsn1BerToDer ([0x05, 0x00] ++ [0x30, 0x80, 0x00, 0x00]) =
        some ([0x05, 0x00, 0x30, 0x00], true, []) ∧ ([] : Bytes) ≠ [0x30, 0x80, 0x00, 0x00] := by
  have hsequence : Ber [0x30, 0x80, 0x00, 0x00] (.constructed CBS_ASN1_SEQUENCE []) :=
    .constructed (by decide) (by decide) (by decide) .nil .indefinite
  exact ⟨der_null.ber, .cons hsequence .nil, by decide +kernel, nofun⟩

end AwsLc
