import AwsLc.BerToDer

/-!
# Constructed strings (`tasn_dec.c`)

A string may be encoded as a constructed element, whose segments `asn1_collect` puts together at
every depth.  It asks for segments of the universal class but for no tag, and then `asn1_check_tlen`
compares neither.  The encodings are a grammar of their own, `BerSegments`, that the walk is
compared with.
-/

namespace AwsLc

open List Option

def V_ASN1_UNIVERSAL : UInt32 := 0
def ASN1_MAX_STRING_NEST : Nat := 5
def ASN1_STRING_MAX : Nat := 64 * 1024 * 1024

def tagClass (tag : UInt32) : UInt32 := (tag &&& 0xc0000000) >>> 24
def tagNumber (tag : UInt32) : UInt32 := tag &&& CBS_ASN1_TAG_NUMBER_MASK

/-- What the header of an element says; an indefinite length is that of all that follows. -/
structure Asn1Header where
  tagClass : UInt32
  tagNumber : UInt32
  constructed : Bool
  indefinite : Bool
  length : Nat

/-- `ASN1_get_object`, with the bound that `asn1_check_tlen` sets for an indefinite length. -/
def asn1GetObject (input : Bytes) : Option (Asn1Header × Bytes) := do
  let (element, _) ← cbsGetAnyElement true true input
  let body ← cbsSkip element.out element.headerLen
  let tail := input.drop element.headerLen
  if body.length > INT_MAX / 2 ∨
      tagClass element.tag = V_ASN1_UNIVERSAL ∧ tagNumber element.tag > 0xff then none
  else some (⟨tagClass element.tag, tagNumber element.tag, element.tag &&& CBS_ASN1_CONSTRUCTED ≠ 0,
    element.indefinite, if element.indefinite then tail.length else body.length⟩, tail)

/-- `asn1_check_tlen`; any tag and class is accepted if no tag is expected. -/
def asn1CheckTlen (exptag : Option UInt32) (expclass : UInt32) (input : Bytes) :
    Option (Asn1Header × Bytes) :=
  (asn1GetObject input).filter fun (header, _) =>
    exptag.all fun exptag => exptag = header.tagNumber ∧ expclass = header.tagClass

/-- A segment: the class, and the contents if it is primitive. -/
abbrev Segment := UInt32 × Option Bytes

/-- The loop of `asn1_collect`: the segments in the order of their headers, and what follows. -/
def collectLoop (nested : Bytes → Bool → Option (List Segment × Bytes)) (inf : Bool) :
    (rounds : Nat) → (input : Bytes) → Option (List Segment × Bytes)
  | _, [] => if inf then none else some ([], [])
  | 0, _ => none
  | rounds + 1, input =>
    match cbsGetEoc input with
    | some rest => if inf then some ([], rest) else none
    | none => do
      let (header, tail) ← asn1CheckTlen none V_ASN1_UNIVERSAL input
      let contents := tail.take header.length
      let (inner, left) ←
        if header.constructed then nested contents header.indefinite else some ([], [])
      let (later, rest) ← collectLoop nested inf rounds (left ++ tail.drop header.length)
      let own := if header.constructed then none else some contents
      return ((header.tagClass, own) :: inner ++ later, rest)

def asn1Collect : (levels : Nat) → (input : Bytes) → (inf : Bool) → Option (List Segment × Bytes)
  | 0, input, inf => collectLoop (fun _ _ => none) inf input.length input
  | levels + 1, input, inf => collectLoop (asn1Collect levels) inf input.length input

/-- `collect_data`.  A length that does not fit its `int` turns negative, and the buffer cannot
    grow. -/
def collectData (buf : Bytes) (segment : Segment) : Option Bytes :=
  match segment.2 with
  | none | some [] => some buf
  | some contents => if buf.length ≤ INT_MAX then some (buf ++ contents) else none

/-- The string types that `asn1_ex_c2i` distinguishes. -/
inductive Asn1StringType where
  | bitString
  | bmpString
  | universalString
  | other
deriving DecidableEq

def c2iAsn1BitString : Bytes → Option (Bytes × UInt8)
  | [] => none
  | padding :: data =>
    if data.length ≥ INT_MAX ∨ padding > 7 ∨
        padding ≠ 0 ∧ data.getLast?.all (· &&& (1 <<< padding - 1) ≠ 0) then none
    else some (data, padding)

def asn1StringSet (data : Bytes) : Option (Bytes × UInt8) :=
  if data.length > ASN1_STRING_MAX then none else some (data, 0)

def asn1ExC2i (utype : Asn1StringType) (cont : Bytes) : Option (Bytes × UInt8) :=
  match utype with
  | .bitString => c2iAsn1BitString cont
  | .bmpString => if cont.length % 2 ≠ 0 then none else asn1StringSet cont
  | .universalString => if cont.length % 4 ≠ 0 then none else asn1StringSet cont
  | .other => asn1StringSet cont

def asn1D2iExPrimitive (utype : Asn1StringType) (tag aclass : UInt32) (input : Bytes) :
    Option ((Bytes × UInt8) × Bytes) := do
  let (header, tail) ← (asn1CheckTlen (some tag) aclass input).filter (·.1.constructed)
  let (segments, left) ←
    asn1Collect ASN1_MAX_STRING_NEST (tail.take header.length) header.indefinite
  let cont ← segments.foldlM collectData []
  let value ← asn1ExC2i utype cont
  return (value, left ++ tail.drop header.length)

/-! ### The encodings -/

/-- The tags that `ASN1_get_object` reads. -/
structure HeaderTag (tag : UInt32) : Prop where
  ok : TagOk tag
  universal : tagClass tag = V_ASN1_UNIVERSAL → tagNumber tag ≤ 0xff

/-- A constructed element with these contents, of definite or of indefinite length. -/
inductive BerConstructed (tag : UInt32) (body : Bytes) : Bytes → Prop where
  | definite {octets : Bytes} (hlength : BerLength octets body.length)
    (hlimit : body.length ≤ INT_MAX / 2) :
    BerConstructed tag body (asn1TagBytes tag ++ (octets ++ body))
  | indefinite : BerConstructed tag body (asn1TagBytes tag ++ [0x80] ++ (body ++ [0, 0]))

/-- **The contents of a constructed string**: elements one after the other, the constructed ones of
    which are nested to at most so many levels.  The last argument is the class and, for a
    primitive one, the contents of each. -/
inductive BerSegments : (levels : Nat) → Bytes → List Segment → Prop where
  | nil {levels : Nat} : BerSegments levels [] []
  | primitive {levels : Nat} {tag : UInt32} {octets contents later : Bytes}
    {segments : List Segment} (htag : HeaderTag tag) (hprimitive : ¬Constructed tag)
    (hlength : BerLength octets contents.length) (hlimit : contents.length ≤ INT_MAX / 2)
    (hlater : BerSegments levels later segments) :
    BerSegments levels (asn1TagBytes tag ++ (octets ++ contents) ++ later)
      ((tagClass tag, some contents) :: segments)
  | constructed {levels : Nat} {tag : UInt32} {body bytes later : Bytes}
    {inner segments : List Segment} (htag : HeaderTag tag) (hconstructed : Constructed tag)
    (hinner : BerSegments levels body inner) (hbytes : BerConstructed tag body bytes)
    (hlater : BerSegments (levels + 1) later segments) :
    BerSegments (levels + 1) (bytes ++ later) ((tagClass tag, none) :: (inner ++ segments))

/-- A constructed string with this tag and these segments. -/
structure BerString (tag : UInt32) (segments : List Segment) (input : Bytes) : Prop where
  tag_ok : HeaderTag tag
  constructed : Constructed tag
  contents : ∃ body, BerSegments ASN1_MAX_STRING_NEST body segments ∧
    BerConstructed tag body input

/-- The bits of the segments of a BIT STRING: only the last may have unused ones. -/
def berBits : List Bytes → Option (Bytes × UInt8)
  | [] => none
  | [last] => c2iAsn1BitString last
  | first :: later =>
    match c2iAsn1BitString first, berBits later with
    | some (data, 0), some (laterData, unused) => some (data ++ laterData, unused)
    | _, _ => none

/-- What a string of these primitive segments stands for. -/
def berValue (utype : Asn1StringType) (values : List Bytes) : Option (Bytes × UInt8) :=
  if utype = .bitString then berBits values else some (values.flatten, 0)

/-! ### The walk -/

theorem cbsGetAnyElement_universal {berOk : Bool} {cbs : Bytes} {result : AnyAsn1Element × Bytes}
    (h : cbsGetAnyElement berOk false cbs = some result) :
    cbsGetAnyElement berOk true cbs = some result := by
  obtain ⟨⟨tag, header⟩, htag, h⟩ := bind_eq_some_iff.mp h
  exact bind_eq_some_iff.mpr
    ⟨(tag, header), parseAsn1Tag_iff.mpr ⟨Or.inl rfl, (parseAsn1Tag_iff.mp htag).2⟩, h⟩

section

variable {tag : UInt32} (htag : HeaderTag tag)
include htag

theorem asn1GetObject_definite {octets contents : Bytes}
    (hlength : BerLength octets contents.length) (hlimit : contents.length ≤ INT_MAX / 2)
    (tail : Bytes) :
    asn1GetObject (asn1TagBytes tag ++ (octets ++ contents) ++ tail) =
      some (⟨tagClass tag, tagNumber tag, Constructed tag, false, contents.length⟩,
        contents ++ tail) := by
  have helement := (@cbsGetAnyElement_definite
    (asn1TagBytes tag ++ (octets ++ contents) ++ tail) _ tail true tag _ _).mpr
      ⟨fun _ => rfl, htag.ok, rfl, octets, contents, hlength, rfl, rfl, rfl⟩
  have hdrop : (asn1TagBytes tag ++ (octets ++ contents) ++ tail).drop
      (asn1TagBytes tag ++ octets).length = contents ++ tail := by
    rw [← append_assoc, append_assoc, drop_left]
  have hlimits : ¬(contents.length > INT_MAX / 2 ∨
      tagClass tag = V_ASN1_UNIVERSAL ∧ tagNumber tag > 0xff) := by
    rintro (hlong | ⟨hclass, hnumber⟩)
    · omega
    · exact absurd (htag.universal hclass) (UInt32.not_le.mpr hnumber)
  simp only [asn1GetObject, cbsGetAnyElement_universal helement, cbsSkip_header, hdrop,
    bind_eq_bind, bind_some, if_neg hlimits, Bool.false_eq_true, if_false]

theorem asn1GetObject_indefinite (hconstructed : Constructed tag) (tail : Bytes) :
    asn1GetObject (asn1TagBytes tag ++ [0x80] ++ tail) =
      some (⟨tagClass tag, tagNumber tag, true, true, tail.length⟩, tail) := by
  have helement := (@cbsGetAnyBerAsn1Element_indefinite
    (asn1TagBytes tag ++ [0x80] ++ tail) _ tail tag _ _).mpr
      ⟨htag.ok, hconstructed, rfl, rfl, rfl, rfl⟩
  have hlimits : ¬(([] : Bytes).length > INT_MAX / 2 ∨
      tagClass tag = V_ASN1_UNIVERSAL ∧ tagNumber tag > 0xff) := by
    rintro (hlong | ⟨hclass, hnumber⟩)
    · cases hlong
    · exact absurd (htag.universal hclass) (UInt32.not_le.mpr hnumber)
  have hskip : cbsSkip (asn1TagBytes tag ++ [0x80]) (asn1TagBytes tag ++ [0x80]).length =
      some [] := by
    simpa using cbsSkip_header tag [0x80] []
  simp only [asn1GetObject, cbsGetAnyElement_universal helement, hskip, drop_left, bind_eq_bind,
    bind_some, if_neg hlimits, if_true, decide_eq_true hconstructed]

/-- A round of the loop on an element that is not the end of contents. -/
theorem collectLoop_element {nested : Bytes → Bool → Option (List Segment × Bytes)} {inf : Bool}
    {rounds : Nat} {more tail left rest : Bytes} {header : Asn1Header} {inner later : List Segment}
    (hread : asn1GetObject (asn1TagBytes tag ++ more) = some (header, tail))
    (hinner : (if header.constructed then nested (tail.take header.length) header.indefinite
      else some ([], [])) = some (inner, left))
    (hlater : collectLoop nested inf rounds (left ++ tail.drop header.length) =
      some (later, rest)) :
    collectLoop nested inf (rounds + 1) (asn1TagBytes tag ++ more) =
      some ((header.tagClass,
        if header.constructed then none else some (tail.take header.length)) ::
        (inner ++ later), rest) := by
  obtain ⟨first, tagRest, hbytes, hfirst⟩ := asn1TagBytes_head htag.ok
  rw [hbytes, cons_append] at hread ⊢
  have heoc : cbsGetEoc (first :: (tagRest ++ more)) = none := by
    unfold cbsGetEoc
    split
    · next heq => exact absurd (List.cons.inj heq).1 hfirst
    · rfl
  have hcheck : asn1CheckTlen none V_ASN1_UNIVERSAL (first :: (tagRest ++ more)) =
      some (header, tail) := by
    rw [asn1CheckTlen, hread]
    rfl
  rw [collectLoop.eq_3 _ _ _ _ (cons_ne_nil _ _), heoc]
  simp only [hcheck, bind_eq_bind, bind_some]
  cases hcst : header.constructed with
  | false =>
    simp only [hcst, Bool.false_eq_true, if_false] at hinner ⊢
    cases hinner
    rw [hlater]
    rfl
  | true =>
    simp only [hcst, if_true] at hinner ⊢
    rw [hinner, bind_some, hlater]
    rfl

end

/-- The loop of a level calls the walk of the level below. -/
theorem asn1Collect_of_loop {levels : Nat} {input : Bytes} {inf : Bool}
    {result : Option (List Segment × Bytes)}
    (h : ∀ nested, (∀ below, levels = below + 1 → nested = asn1Collect below) →
      collectLoop nested inf input.length input = result) :
    asn1Collect levels input inf = result := by
  cases levels with
  | zero => exact h _ nofun
  | succ below => exact h _ fun _ hbelow => by rw [Nat.succ.inj hbelow]

theorem BerConstructed.tagged {tag : UInt32} {body bytes : Bytes}
    (h : BerConstructed tag body bytes) : ∃ more, bytes = asn1TagBytes tag ++ more := by
  cases h with
  | definite => exact ⟨_, rfl⟩
  | indefinite => exact ⟨_, append_assoc _ _ _⟩

/-- The header of a constructed element is read, its contents are collected, and `more` is left. -/
theorem BerConstructed.reads {levels : Nat} {tag : UInt32} {body bytes : Bytes}
    {inner : List Segment} (h : BerConstructed tag body bytes) (htag : HeaderTag tag)
    (hconstructed : Constructed tag) (hcollect : ∀ inf tail rest, Ends inf tail rest →
      asn1Collect levels (body ++ tail) inf = some (inner, rest)) (more : Bytes) :
    ∃ indefinite length tail left,
      asn1GetObject (bytes ++ more) =
        some (⟨tagClass tag, tagNumber tag, true, indefinite, length⟩, tail) ∧
      asn1Collect levels (tail.take length) indefinite = some (inner, left) ∧
      left ++ tail.drop length = more := by
  cases h with
  | @definite octets hlength hlimit =>
    have hread := asn1GetObject_definite htag hlength hlimit more
    have hinner := hcollect false [] [] .input
    rw [decide_eq_true hconstructed] at hread
    rw [append_nil] at hinner
    exact ⟨_, _, _, [], hread, by rw [take_left, hinner], by rw [drop_left, nil_append]⟩
  | indefinite =>
    have hread := asn1GetObject_indefinite htag hconstructed (body ++ ([0, 0] ++ more))
    have hinner := hcollect true _ _ (@Ends.eoc more)
    rw [← append_assoc body, ← append_assoc] at hread
    exact ⟨_, _, _, more, hread, by rw [take_length, append_assoc]; exact hinner,
      by rw [drop_length, append_nil]⟩

/-- A round of the loop takes at least the first byte of the identifier. -/
theorem exists_fewer_rounds {tag : UInt32} (htag : HeaderTag tag) {more : Bytes} {rounds : Nat}
    (h : (asn1TagBytes tag ++ more).length ≤ rounds) :
    ∃ fewer, rounds = fewer + 1 ∧ more.length ≤ fewer := by
  obtain ⟨first, tagRest, hbytes, -⟩ := asn1TagBytes_head htag.ok
  rw [hbytes, length_append, length_cons] at h
  exact ⟨rounds - 1, by omega, by omega⟩

/-- **The walk finds the segments**, up to the end of the contents. -/
theorem BerSegments.collectLoop {levels : Nat} {body : Bytes} {segments : List Segment}
    (h : BerSegments levels body segments) : ∀ nested rounds inf tail rest, Ends inf tail rest →
      (∀ below, levels = below + 1 → nested = asn1Collect below) →
      (body ++ tail).length ≤ rounds →
      AwsLc.collectLoop nested inf rounds (body ++ tail) = some (segments, rest) := by
  induction h with
  | nil =>
    intro nested rounds inf tail rest hends _ hrounds
    cases hends with
    | input => cases rounds <;> rfl
    | eoc =>
      cases rounds with
      | zero => cases hrounds
      | succ rounds => rfl
  | @primitive levels tag octets contents later segments htag hprimitive hlength hlimit hlater ih =>
    intro nested rounds inf tail rest hends hnested hrounds
    have hread := asn1GetObject_definite htag hlength hlimit (later ++ tail)
    simp only [append_assoc] at hread hrounds ⊢
    obtain ⟨rounds, rfl, hfewer⟩ := exists_fewer_rounds htag hrounds
    have hlater' := ih nested rounds inf tail rest hends hnested (by
      simp only [length_append] at hfewer ⊢
      omega)
    have hround := @collectLoop_element _ htag nested inf rounds _ _ [] rest _ [] segments hread
      (if_neg (by simpa using hprimitive)) (by simpa using hlater')
    simpa [hprimitive] using hround
  | @constructed levels tag body bytes later inner segments htag hconstructed _ hbytes _ ihInner
      ihLater =>
    intro nested rounds inf tail rest hends hnested hrounds
    obtain rfl := hnested levels rfl
    obtain ⟨indefinite, length, after, left, hread, hinner, hleft⟩ :=
      hbytes.reads htag hconstructed (fun inf tail rest hends =>
        asn1Collect_of_loop fun nested hnested =>
          ihInner nested _ inf tail rest hends hnested le_rfl) (later ++ tail)
    obtain ⟨octets, rfl⟩ := hbytes.tagged
    simp only [append_assoc] at hread hrounds ⊢
    obtain ⟨rounds, rfl, hfewer⟩ := exists_fewer_rounds htag hrounds
    have hlater := ihLater (asn1Collect levels) rounds inf tail rest hends hnested (by
      simp only [length_append] at hfewer ⊢
      omega)
    rw [← hleft] at hlater
    exact collectLoop_element htag hread hinner hlater

theorem BerSegments.collect {levels : Nat} {body : Bytes} {segments : List Segment}
    (h : BerSegments levels body segments) (inf : Bool) (tail rest : Bytes)
    (hends : Ends inf tail rest) :
    asn1Collect levels (body ++ tail) inf = some (segments, rest) :=
  asn1Collect_of_loop fun nested hnested =>
    h.collectLoop nested _ inf tail rest hends hnested le_rfl

theorem c2iAsn1BitString_length {cont data : Bytes} {unused : UInt8}
    (h : c2iAsn1BitString cont = some (data, unused)) : data.length + 1 = cont.length := by
  unfold c2iAsn1BitString at h
  split at h
  · cases h
  · split at h <;> cases h
    rfl

theorem berBits_length {values : List Bytes} {data : Bytes} {unused : UInt8}
    (h : berBits values = some (data, unused)) :
    data.length + values.length = values.flatten.length := by
  fun_induction berBits values generalizing data unused with
  | case1 => cases h
  | case2 last => simpa using c2iAsn1BitString_length h
  | case3 first later hlater firstData laterData laterUnused hbits hfirst ih =>
    cases h
    have hlength := c2iAsn1BitString_length hfirst
    have hrest := ih hbits
    rw [flatten_cons, length_append, length_append, length_cons]
    omega
  | case4 => cases h

theorem berValue_iff {utype : Asn1StringType} {values : List Bytes} {value : Bytes × UInt8}
    (h : asn1ExC2i utype values.flatten = some value) :
    berValue utype values = some value ↔ (utype = .bitString → values.length = 1) := by
  cases utype with
  | bitString =>
    constructor
    · intro hbits _
      have hlength := berBits_length hbits
      have hcode := c2iAsn1BitString_length h
      omega
    · intro hone
      obtain ⟨only, rfl⟩ := length_eq_one_iff.mp (hone rfl)
      rwa [flatten_singleton] at h
  | bmpString | universalString | other => simp_all [asn1ExC2i, asn1StringSet, berValue]

theorem collectData_eq (buf : Bytes) (segment : Segment) : collectData buf segment =
    if segment.2.getD [] = [] ∨ buf.length ≤ INT_MAX then some (buf ++ segment.2.getD [])
    else none := by
  unfold collectData
  split
  · next hvalue => simp [hvalue]
  · next hvalue => simp [hvalue]
  · next contents hne hvalue =>
    have hcontents : contents ≠ [] := hne
    simp [hvalue, hcontents]

theorem foldlM_collectData {segments : List Segment} {buf cont : Bytes}
    (h : segments.foldlM collectData buf = some cont) :
    cont = buf ++ (segments.filterMap (·.2)).flatten := by
  induction segments generalizing buf with
  | nil =>
    cases h
    simp
  | cons segment segments ih =>
    rw [foldlM_cons] at h
    obtain ⟨buf', hbuf', h⟩ := bind_eq_some_iff.mp h
    rw [collectData_eq, Option.ite_none_right_eq_some, Option.some.injEq] at hbuf'
    rw [ih h, ← hbuf'.2]
    cases hvalue : segment.2 <;> simp [hvalue]

theorem foldlM_collectData_fits {segments : List Segment} {buf : Bytes}
    (h : (buf ++ (segments.filterMap (·.2)).flatten).length ≤ INT_MAX) :
    segments.foldlM collectData buf = some (buf ++ (segments.filterMap (·.2)).flatten) := by
  induction segments generalizing buf with
  | nil => simp
  | cons segment segments ih =>
    have hflatten : buf ++ ((segment :: segments).filterMap (·.2)).flatten =
        (buf ++ segment.2.getD []) ++ (segments.filterMap (·.2)).flatten := by
      cases hvalue : segment.2 <;> simp [hvalue]
    rw [hflatten] at h ⊢
    have hbuf : buf.length ≤ INT_MAX := by
      simp only [length_append] at h
      omega
    rw [foldlM_cons, collectData_eq, if_pos (Or.inr hbuf)]
    exact ih h

/-- What the buffer cannot hold, no type accepts. -/
theorem foldlM_collectData_c2i (utype : Asn1StringType) (segments : List Segment) :
    (segments.foldlM collectData []).bind (asn1ExC2i utype) =
      asn1ExC2i utype (segments.filterMap (·.2)).flatten := by
  by_cases hfits : (segments.filterMap (·.2)).flatten.length ≤ INT_MAX
  · rw [foldlM_collectData_fits hfits]
    rfl
  · have hnone : asn1ExC2i utype (segments.filterMap (·.2)).flatten = none := by
      have hmax : ASN1_STRING_MAX ≤ INT_MAX := by decide
      generalize (segments.filterMap (·.2)).flatten = cont at hfits
      have hset : asn1StringSet cont = none := if_pos (by omega)
      cases utype with
      | bitString =>
        cases cont with
        | nil => rfl
        | cons padding data =>
          rw [length_cons] at hfits
          exact if_pos (Or.inl (by omega))
      | bmpString | universalString | other => simp [asn1ExC2i, hset]
    rw [hnone]
    cases hcont : segments.foldlM collectData [] with
    | none => rfl
    | some cont =>
      rw [foldlM_collectData hcont]
      exact hnone

theorem asn1D2iExPrimitive_eq (utype : Asn1StringType) {input tail left : Bytes}
    {header : Asn1Header} {segments : List Segment}
    (hread : asn1GetObject input = some (header, tail)) (hconstructed : header.constructed = true)
    (hcollect : asn1Collect ASN1_MAX_STRING_NEST (tail.take header.length) header.indefinite =
      some (segments, left)) :
    asn1D2iExPrimitive utype header.tagNumber header.tagClass input =
      (asn1ExC2i utype (segments.filterMap (·.2)).flatten).map
        (·, left ++ tail.drop header.length) := by
  have hcheck : (asn1CheckTlen (some header.tagNumber) header.tagClass input).filter
      (·.1.constructed) = some (header, tail) := by
    rw [asn1CheckTlen, hread]
    simp [Option.filter, hconstructed]
  rw [← foldlM_collectData_c2i, map_eq_bind, Option.bind_assoc]
  unfold asn1D2iExPrimitive
  simp only [hcheck, bind_eq_bind, bind_some, hcollect]
  rfl

/-- **Constructed strings.**  The value of a constructed string is read from the contents of its
    primitive segments one after the other, at every depth and in every form of the lengths.  For
    segments of the universal class it is the one that the string stands for exactly if it is not a
    BIT STRING of several primitive segments. -/
theorem constructed_strings_iff (utype : Asn1StringType) (tag : UInt32) (segments : List Segment)
    (input rest : Bytes) (h : BerString tag segments input) :
    let decoded := asn1D2iExPrimitive utype (tagNumber tag) (tagClass tag) (input ++ rest)
    decoded = (asn1ExC2i utype (segments.filterMap (·.2)).flatten).map (·, rest) ∧
    ∀ value, decoded = some (value, rest) →
      ((∀ segment ∈ segments, segment.1 = V_ASN1_UNIVERSAL) ∧
          berValue utype (segments.filterMap (·.2)) = some value ↔
        (∀ segment ∈ segments, segment.1 = V_ASN1_UNIVERSAL) ∧
          (utype = .bitString → (segments.filterMap (·.2)).length = 1)) := by
  intro decoded
  have hdecoded : decoded =
      (asn1ExC2i utype (segments.filterMap (·.2)).flatten).map (·, rest) := by
    obtain ⟨htag, hconstructed, body, hsegments, hbytes⟩ := h
    obtain ⟨indefinite, length, tail, left, hread, hcollect, hleft⟩ :=
      hbytes.reads htag hconstructed hsegments.collect rest
    have heq := asn1D2iExPrimitive_eq utype hread rfl hcollect
    rwa [hleft] at heq
  refine ⟨hdecoded, fun value hvalue => and_congr_right fun _ => ?_⟩
  rw [hdecoded] at hvalue
  obtain ⟨value', hvalue', heq⟩ := map_eq_some_iff.mp hvalue
  cases heq
  exact berValue_iff hvalue'

theorem headerTag_octet : HeaderTag 0x20000004 := ⟨by decide, by decide⟩

theorem octetSegment (c : UInt8) {levels : Nat} {later : Bytes} {segments : List Segment}
    (hlater : BerSegments levels later segments) :
    BerSegments levels ([4, 1, c] ++ later) ((V_ASN1_UNIVERSAL, some [c]) :: segments) :=
  @BerSegments.primitive levels 4 [1] [c] later segments ⟨by decide, by decide⟩ (by decide)
    (@BerLength.short 1 (by decide)) (show 1 ≤ INT_MAX / 2 by decide) hlater

/-- A string of indefinite length, whose first segment is constructed again. -/
theorem constructed_strings_octet :
    asn1D2iExPrimitive .other 4 V_ASN1_UNIVERSAL
        [0x24, 0x80, 0x24, 3, 4, 1, 0x61, 4, 1, 0x62, 0, 0, 5] = some (([0x61, 0x62], 0), [5]) ∧
      berValue .other [[0x61], [0x62]] = some ([0x61, 0x62], 0) := by
  have hstring : BerString 0x20000004 [(V_ASN1_UNIVERSAL, none), (V_ASN1_UNIVERSAL, some [0x61]),
      (V_ASN1_UNIVERSAL, some [0x62])] [0x24, 0x80, 0x24, 3, 4, 1, 0x61, 4, 1, 0x62, 0, 0] := by
    refine ⟨headerTag_octet, by decide, [0x24, 3, 4, 1, 0x61, 4, 1, 0x62], ?_, .indefinite⟩
    exact @BerSegments.constructed 4 0x20000004 [4, 1, 0x61] [0x24, 3, 4, 1, 0x61] [4, 1, 0x62]
      [(V_ASN1_UNIVERSAL, some [0x61])] [(V_ASN1_UNIVERSAL, some [0x62])] headerTag_octet
      (by decide) (octetSegment 0x61 .nil)
      (@BerConstructed.definite _ _ [3] (@BerLength.short 3 (by decide)) (by decide))
      (octetSegment 0x62 .nil)
  have hresult := constructed_strings_iff .other 0x20000004 _ _ [5] hstring
  exact ⟨hresult.1, ((hresult.2 ([0x61, 0x62], 0) hresult.1).mpr (by decide)).2⟩

/-- A segment of another class, and a BIT STRING of two octets that is read as one of three. -/
theorem constructed_strings_misread :
    (BerString 0x20000004 [(0x80, some [0x61])] [0x24, 3, 0x81, 1, 0x61] ∧
      asn1D2iExPrimitive .other 4 V_ASN1_UNIVERSAL [0x24, 3, 0x81, 1, 0x61] =
        some (([0x61], 0), [])) ∧
    BerString 0x20000003 [(V_ASN1_UNIVERSAL, some [0, 0xaa]), (V_ASN1_UNIVERSAL, some [0, 0xbb])]
      [0x23, 8, 3, 2, 0, 0xaa, 3, 2, 0, 0xbb] ∧
    asn1D2iExPrimitive .bitString 3 V_ASN1_UNIVERSAL [0x23, 8, 3, 2, 0, 0xaa, 3, 2, 0, 0xbb] =
      some (([0xaa, 0, 0xbb], 0), []) ∧
    berValue .bitString [[0, 0xaa], [0, 0xbb]] = some ([0xaa, 0xbb], 0) := by
  have hbits (c : UInt8) {later : Bytes} {segments : List Segment}
      (hlater : BerSegments 5 later segments) :
      BerSegments 5 ([3, 2, 0, c] ++ later) ((V_ASN1_UNIVERSAL, some [0, c]) :: segments) :=
    @BerSegments.primitive 5 3 [2] [0, c] later segments ⟨by decide, by decide⟩ (by decide)
      (@BerLength.short 2 (by decide)) (show 2 ≤ INT_MAX / 2 by decide) hlater
  refine ⟨⟨⟨headerTag_octet, by decide, [0x81, 1, 0x61], ?_, ?_⟩, by decide +kernel⟩,
    ⟨⟨by decide, by decide⟩, by decide, [3, 2, 0, 0xaa, 3, 2, 0, 0xbb], ?_, ?_⟩,
    by decide +kernel, by decide +kernel⟩
  · exact @BerSegments.primitive 5 0x80000001 [1] [0x61] [] [] ⟨by decide, by decide⟩ (by decide)
      (@BerLength.short 1 (by decide)) (by decide) .nil
  · exact @BerConstructed.definite _ _ [3] (@BerLength.short 3 (by decide)) (by decide)
  · exact hbits 0xaa (hbits 0xbb .nil)
  · exact @BerConstructed.definite _ _ [8] (@BerLength.short 8 (by decide)) (by decide)

end AwsLc
